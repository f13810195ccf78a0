import Hsed.Lib.Lts
import Hsed.Tracer.Correctness.Requests

/-!
# `Tracer.Correctness.Isolation` — when concurrent sessions leave each other alone

`waitpid(-1, …)` of one session can take the status of another session's tracee. The taker cannot resume
that thread, and its tracer never hears of the stop (`stop_taken_by_other_session`). Sessions are isolated
in every run in which no foreign status is there to be taken when a session takes one (`OwnOnly`):
`sessions_isolated`.

The invariant says of each session that the stops it was told of are of its own tracees, that it is just
about to resume or detach them, and that it blocks in `waitpid` on its own tracees only. A step of one
session keeps the invariant of the others because it touches none of their tracees (`Keeps`).
-/

namespace Hsed
namespace Tracer

section
variable {ι : Type} {k k' k'' : Threads ι} {i j : ι} {t : Int}

def TracedBy (k : Threads ι) (i : ι) (t : Int) : Prop := ∃ th, k t = some th ∧ th.tracer = some i

/-- The thread is in a stop that session `i` has been told of. -/
def SeenBy (k : Threads ι) (i : ι) (t : Int) : Prop :=
  ∃ th ev, k t = some th ∧ th.state = .stopped ev (some i)

/-- Is the session about to resume or detach the thread? -/
def Attends : Pc → Int → Prop
  | .resume t _, u => u = t
  | .drop t _, u => u = t
  | _, _ => False

/-- A session's affairs: see the head of the file. -/
structure SessionOk (k : Threads ι) (i : ι) (pc : Pc) : Prop where
  own : ∀ t, SeenBy k i t → TracedBy k i t
  attended : ∀ t, SeenBy k i t → Attends pc t
  waits : ∀ t todo, pc = .await t todo ∨ pc = .reap t todo → TracedBy k i t

/-- The tracees of `j` remain its tracees, and it has not been told of anything. -/
structure Keeps (j : ι) (k k' : Threads ι) : Prop where
  traced : ∀ t, TracedBy k j t → TracedBy k' j t
  seen : ∀ t, SeenBy k' j t → SeenBy k j t

theorem Keeps.refl (j : ι) (k : Threads ι) : Keeps j k k := ⟨fun _ h => h, fun _ h => h⟩

theorem Keeps.trans (h : Keeps j k k') (h' : Keeps j k' k'') : Keeps j k k'' :=
  ⟨fun t ht => h'.traced t (h.traced t ht), fun t ht => h.seen t (h'.seen t ht)⟩

theorem SessionOk.mono {pc : Pc} (h : SessionOk k i pc) (hk : Keeps i k k') : SessionOk k' i pc :=
  ⟨fun t ht => hk.traced t (h.own t (hk.seen t ht)), fun t ht => h.attended t (hk.seen t ht),
    fun t todo hpc => hk.traced t (h.waits t todo hpc)⟩

/-! ## The system calls -/

/-- A call that changes one entry keeps what that entry's tracer has. -/
theorem Keeps.update {v : Option (Thread ι)}
    (htraced : ∀ th, k t = some th → th.tracer = some j → ∃ th', v = some th' ∧ th'.tracer = some j)
    (hseen : ∀ th ev, v = some th → th.state ≠ .stopped ev (some j)) : Keeps j k (Function.update k t v) := by
  constructor
  · rintro u ⟨th, hu, htr⟩
    by_cases hut : u = t
    · subst hut
      obtain ⟨th', hv', htr'⟩ := htraced th hu htr
      exact ⟨th', by rw [Function.update_self]; exact hv', htr'⟩
    · exact ⟨th, by rw [Function.update_of_ne hut]; exact hu, htr⟩
  · rintro u ⟨th, ev, hu, hst⟩
    by_cases hut : u = t
    · rw [hut, Function.update_self] at hu
      exact absurd hst (hseen th ev hu)
    · rw [Function.update_of_ne hut] at hu
      exact ⟨th, ev, hu, hst⟩

/-- After an entry is replaced by one that is in no stop, nobody has been told of one there. -/
theorem not_seenBy_update {v : Option (Thread ι)} (hv : ∀ th ev, v = some th → th.state ≠ .stopped ev (some j)) :
    ¬ SeenBy (Function.update k t v) j t := by
  rintro ⟨th, ev, hk, hst⟩
  rw [Function.update_self] at hk
  exact hv th ev hk hst

theorem kernelNext_keeps {a : KernelAct} (h : kernelNext k a = some k') (j : ι) : Keeps j k k' := by
  rcases kernelNext_cases h with ⟨t, hk, rfl⟩ | ⟨t, ev, i, fresh, hk, rfl⟩ |
    ⟨t, u, ev, i, fresh, -, hk, hu, rfl⟩ | ⟨t, th, hk, ⟨htr, rfl⟩ | ⟨i, killed, htr, rfl⟩⟩
  · apply Keeps.update
    · intro th hth
      rw [hk] at hth; cases hth
    · rintro th ev ⟨⟩ ⟨⟩
  · apply Keeps.update
    · intro th hth htr
      rw [hk] at hth; cases hth
      exact ⟨_, rfl, htr⟩
    · rintro th ev ⟨⟩ ⟨⟩
  · -- a clone: the child's entry is new, the parent's is in a stop nobody has been told of
    have hne : t ≠ u := by rintro rfl; rw [hk] at hu; cases hu
    -- first the child
    have hchild : Keeps j k (Function.update k u (some ⟨some i, .running, true⟩)) := by
      apply Keeps.update
      · intro th hth
        rw [hu] at hth; cases hth
      · rintro th ev ⟨⟩ ⟨⟩
    apply hchild.trans
    apply Keeps.update
    · intro th hth htr
      rw [Function.update_of_ne hne, hk] at hth; cases hth
      exact ⟨_, rfl, htr⟩
    · rintro th ev ⟨⟩ ⟨⟩
  · apply Keeps.update
    · intro th' hth htr'
      rw [hk] at hth; cases hth
      rw [htr] at htr'; cases htr'
    · rintro th ev ⟨⟩
  · apply Keeps.update
    · intro th' hth htr'
      rw [hk] at hth; cases hth
      exact ⟨_, rfl, htr.symm.trans htr'⟩
    · rintro th ev ⟨⟩ ⟨⟩

theorem ptraceSeize_keeps (h : ptraceSeize k i t = some k') (j : ι) : Keeps j k k' := by
  obtain ⟨fresh, hk, rfl⟩ := ptraceSeize_eq_some h
  apply Keeps.update
  · intro th hth htr
    rw [hk] at hth; cases hth
    cases htr
  · rintro th ev ⟨⟩ ⟨⟩

/-- A status taken from an own tracee: the others are not concerned, and the caller has been told of one
    more stop at most. -/
theorem waitTid_own {ev : Event} {tracer : Option ι} (h : waitTid k i t = .got ev tracer k')
    (hown : TracedBy k i t) :
    tracer = some i ∧ (∀ j, j ≠ i → Keeps j k k') ∧ (∀ u, SeenBy k' i u → u = t ∨ SeenBy k i u) ∧
      (SeenBy k' i t → TracedBy k' i t) := by
  obtain ⟨th, hth, htr⟩ := hown
  -- only the entry of `t` changes
  have hother : ∀ v u, SeenBy (Function.update k t v) i u → u = t ∨ SeenBy k i u := by
    rintro v u ⟨th', ev', hu, hst⟩
    by_cases hut : u = t
    · exact .inl hut
    · rw [Function.update_of_ne hut] at hu
      exact .inr ⟨th', ev', hu, hst⟩
  obtain ⟨o, fresh, rfl, ⟨stop, -, hk, rfl⟩ | ⟨killed, -, hk, rfl⟩⟩ := waitTid_eq_got h
  · rw [hk] at hth; cases hth
    cases htr
    -- a stop: the tracee stays, and its tracer has now been told
    have hself : TracedBy (Function.update k t (some ⟨some i, .stopped stop (some i), false⟩)) i t :=
      ⟨_, Function.update_self _ _ _, rfl⟩
    refine ⟨rfl, ?_, hother _, fun _ => hself⟩
    intro j hj
    apply Keeps.update
    · intro th hth htr
      rw [hk] at hth; cases hth
      exact ⟨_, rfl, htr⟩
    · rintro th ev' ⟨⟩ ⟨⟩
      exact hj rfl
  · rw [hk] at hth; cases hth
    cases htr
    refine ⟨rfl, ?_, hother _, ?_⟩
    · intro j hj
      apply Keeps.update
      · intro th hth htr
        rw [hk] at hth; cases hth
        cases htr
        exact absurd rfl hj
      · rintro th ev ⟨⟩
    · -- a death: nobody is left to be told of
      intro hs
      exact absurd hs (not_seenBy_update (by rintro th ev ⟨⟩))

/-! ## What a session's step leaves -/

theorem SessionOk.not_seen {pc : Pc} (h : SessionOk k i pc) (hpc : ∀ u, ¬ Attends pc u) (u : Int) :
    ¬ SeenBy k i u := fun hs => hpc u (h.attended u hs)

theorem SessionOk.of_not_seen {pc : Pc} (hns : ∀ u, ¬ SeenBy k i u)
    (hw : ∀ t todo, pc = .await t todo ∨ pc = .reap t todo → TracedBy k i t) : SessionOk k i pc :=
  ⟨fun u h => absurd h (hns u), fun u h => absurd h (hns u), hw⟩

/-- What a step of session `i` leaves: its own affairs in order, and the others' untouched. -/
structure Isolated (k : Threads ι) (i : ι) (m : Moved ι) : Prop where
  keeps : ∀ j, j ≠ i → Keeps j k m.threads
  ok : SessionOk m.threads i m.session.pc
  handled : ∀ h ∈ m.handled, h.session = i ∧ h.tracer = some i ∧ ∀ c ∈ h.calls, c.tid = h.tid

/-- A step that leaves the threads alone. -/
theorem Isolated.of_same {s : Session} (hns : ∀ u, ¬ SeenBy k i u)
    (hw : ∀ t todo, s.pc = .await t todo ∨ s.pc = .reap t todo → TracedBy k i t) : Isolated k i ⟨k, s, []⟩ :=
  ⟨fun j _ => Keeps.refl j k, .of_not_seen hns hw, by simp⟩

/-- Taking the status of the thread the session was blocked on. -/
theorem waitTid_isolated {ev : Event} {tracer : Option ι} (h : waitTid k i t = .got ev tracer k')
    (hown : TracedBy k i t) (hns : ∀ u, ¬ SeenBy k i u) :
    tracer = some i ∧ (∀ j, j ≠ i → Keeps j k k') ∧ (SeenBy k' i t → TracedBy k' i t) ∧
      ∀ u, SeenBy k' i u → u = t := by
  obtain ⟨htr, hkeeps, hmore, hself⟩ := waitTid_own h hown
  refine ⟨htr, hkeeps, hself, ?_⟩
  intro u hu
  rcases hmore u hu with rfl | hold
  · rfl
  · exact absurd hold (hns u)

/-! ## Requests -/

variable [DecidableEq ι]

/-- Resuming a thread: nobody is left with a stop there. -/
theorem ptraceResume_keeps (h : ptraceResume k i t = some k') :
    (∀ j, Keeps j k k') ∧ ¬ SeenBy k' i t := by
  obtain ⟨ev, seen, fresh, hk, rfl⟩ := ptraceResume_eq_some h
  refine ⟨fun j => Keeps.update ?_ (by rintro th ev ⟨⟩ ⟨⟩), not_seenBy_update (by rintro th ev ⟨⟩ ⟨⟩)⟩
  intro th hth htr
  rw [hk] at hth; cases hth
  exact ⟨_, rfl, htr⟩

/-- Detaching: the others are not concerned, and the caller is left with no stop there. -/
theorem tryDetach_keeps (hown : SeenBy k i t → TracedBy k i t) :
    (∀ j, j ≠ i → Keeps j k (tryDetach k i t)) ∧ (∀ u, SeenBy (tryDetach k i t) i u → SeenBy k i u) ∧
      ¬ SeenBy (tryDetach k i t) i t := by
  rcases tryDetach_cases k i t with ⟨ev, seen, fresh, hk, heq⟩ | ⟨hno, heq⟩
  · rw [heq]
    have hgone : ¬ SeenBy (Function.update k t (some ⟨none, .running, false⟩)) i t :=
      not_seenBy_update (by rintro th ev ⟨⟩ ⟨⟩)
    refine ⟨?_, ?_, hgone⟩
    · intro j hj
      apply Keeps.update
      · intro th hth htr
        rw [hk] at hth; cases hth
        cases htr
        exact absurd rfl hj
      · rintro th ev ⟨⟩ ⟨⟩
    · rintro u ⟨th, ev', hu, hst⟩
      by_cases hut : u = t
      · subst hut
        exact absurd ⟨th, ev', hu, hst⟩ hgone
      · rw [Function.update_of_ne hut] at hu
        exact ⟨th, ev', hu, hst⟩
  · rw [heq]
    refine ⟨fun j _ => Keeps.refl j k, fun u h => h, ?_⟩
    intro hs
    obtain ⟨th', hk', htr⟩ := hown hs
    obtain ⟨⟨tracer, state, fresh⟩, ev, hk, hst⟩ := hs
    rw [hk] at hk'; cases hk'
    cases htr
    cases hst
    exact hno ev (some i) fresh hk

theorem request_keeps (k : Threads ι) (i : ι) (reqs : List Req) (j : ι) : Keeps j k (request k i reqs) := by
  induction reqs generalizing k with
  | nil => exact Keeps.refl j k
  | cons r reqs ih =>
      have hone : Keeps j k ((ptraceResume k i r.tid).getD k) := by
        cases hr : ptraceResume k i r.tid with
        | none => exact Keeps.refl j k
        | some k₁ => exact (ptraceResume_keeps hr).1 j
      exact hone.trans (ih _)

/-! ## A session's step -/

/-- A step that ends in `PTRACE_DETACH` of the one thread the session may have a stop of. -/
theorem Isolated.of_tryDetach {s : Session} (hown : SeenBy k i t → TracedBy k i t)
    (honly : ∀ u, SeenBy k i u → u = t) (hw : ∀ u todo, s.pc ≠ .await u todo ∧ s.pc ≠ .reap u todo) :
    Isolated k i ⟨tryDetach k i t, s, []⟩ := by
  obtain ⟨hkeeps, hback, hgone⟩ := tryDetach_keeps hown
  refine ⟨hkeeps, .of_not_seen ?_ ?_, by simp⟩
  · intro u hu
    obtain rfl := honly u (hback u hu)
    exact hgone hu
  · rintro u todo (h | h)
    · exact absurd h (hw u todo).1
    · exact absurd h (hw u todo).2

theorem tracedBy_of_interrupt (h : ptraceInterrupt k i t = true) : TracedBy k i t := by
  obtain ⟨th, hk, -, htr⟩ := ptraceInterrupt_eq_true.mp h
  exact ⟨th, hk, htr⟩

theorem goNext_isolated {tids : List TidState} {granted : Bool} {pc : Pc} {m : Moved ι}
    (hok : SessionOk k i pc) (h : goNext k i tids granted pc = some m) : Isolated k i m := by
  unfold goNext at h
  split at h
  · cases h
    exact .of_same (hok.not_seen (by simp [Attends])) (by simp)
  · have hns := hok.not_seen (by simp [Attends])
    split at h
    · cases h
      exact .of_same hns (by simp)
    next k₁ hk₁ =>
      cases h
      cases granted with
      | false => cases hk₁
      | true =>
          have hkeeps := ptraceSeize_keeps hk₁
          exact ⟨fun j _ => hkeeps j, .of_not_seen (fun u hu => hns u ((hkeeps i).seen u hu)) (by simp), by simp⟩
  · have hns := hok.not_seen (by simp [Attends])
    split at h
    next t todo hint =>
      cases h
      apply Isolated.of_same hns
      rintro u todo' (h | h)
      · cases h; exact tracedBy_of_interrupt hint
      · cases h
    · cases h
      exact .of_tryDetach (fun hs => absurd hs (hns _)) (fun u hs => absurd hs (hns u)) (by simp)
  next t todo =>
    have hns := hok.not_seen (by simp [Attends])
    split at h
    · cases h
    · cases h
      exact .of_tryDetach (fun hs => absurd hs (hns _)) (fun u hs => absurd hs (hns u)) (by simp)
    next ev tracer k₁ hwait =>
      obtain ⟨rfl, hkeeps, hself, honly⟩ := waitTid_isolated hwait (hok.waits t todo (.inl rfl)) hns
      split at h
      · cases h
        refine ⟨hkeeps, ⟨?_, fun u hu => honly u hu, by simp⟩, by simp⟩
        intro u hu
        obtain rfl := honly u hu
        exact hself hu
      · cases h
        have hdet := @Isolated.of_tryDetach _ k₁ i t _ ⟨.seize todo, tids⟩ hself honly (by simp)
        exact ⟨fun j hj => (hkeeps j hj).trans (hdet.keeps j hj), hdet.ok, by simp⟩
  next t todo =>
    -- the one stop the session was told of is the one it now answers
    have honly : ∀ u, SeenBy k i u → u = t := fun u hu => hok.attended u hu
    split at h
    · cases h
      exact .of_tryDetach (hok.own t) honly (by simp)
    · split at h
      next k₁ hk₁ =>
        cases h
        obtain ⟨hkeeps, hgone⟩ := ptraceResume_keeps hk₁
        refine ⟨fun j _ => hkeeps j, .of_not_seen ?_ (by simp), by simp⟩
        intro u hu
        obtain rfl := honly u ((hkeeps i).seen u hu)
        exact hgone hu
      · cases h
        exact .of_tryDetach (hok.own t) honly (by simp)
  · have hns := hok.not_seen (by simp [Attends])
    split at h
    · cases h; exact .of_same hns (by simp)
    · split at h
      · cases h; exact .of_same hns (by simp)
      · cases h; exact .of_same hns (by simp)
  · cases h
    exact .of_same (hok.not_seen (by simp [Attends])) (by simp)
  · cases h
    apply Isolated.of_same (hok.not_seen (by simp [Attends]))
    intro u todo' hpc
    dsimp only at hpc
    split at hpc
    next hint =>
      rcases hpc with h | h
      · cases h
      · cases h; exact tracedBy_of_interrupt hint
    · rcases hpc with h | h <;> cases h
  next t todo =>
    have hns := hok.not_seen (by simp [Attends])
    split at h
    · cases h
    · cases h; exact .of_same hns (by simp)
    next ev tracer k₁ hwait =>
      obtain ⟨rfl, hkeeps, hself, honly⟩ := waitTid_isolated hwait (hok.waits t todo (.inr rfl)) hns
      cases h
      refine ⟨hkeeps, ⟨?_, fun u hu => honly u hu, by simp⟩, by simp⟩
      intro u hu
      obtain rfl := honly u hu
      exact hself hu
  next t todo =>
    cases h
    exact .of_tryDetach (hok.own t) (fun u hu => hok.attended u hu) (by simp)
  · cases h

/-- One pass of the wait loop, when every status there is to take is the session's own: the thread it
    hears of runs on, or is gone. -/
theorem reportNext_isolated {p : Params ι} {tids : List TidState} {mem : Memory} {m : Moved ι}
    (hok : SessionOk k i .loop) (hown : ∀ t th, k t = some th → th.Reportable → th.tracer = some i)
    (h : reportNext p k i tids t mem = some m) : Isolated k i m := by
  have hns := hok.not_seen (by simp [Attends])
  unfold reportNext at h
  split at h
  next ev tracer k₁ hwait =>
    have hgot := waitTid_eq_got hwait
    -- the thread is its own, whether it has stopped or died
    have htraced : TracedBy k i t := by
      obtain ⟨o, fresh, -, ⟨stop, -, hk, -⟩ | ⟨killed, -, hk, -⟩⟩ := hgot
      · exact ⟨_, hk, hown t _ hk ⟨by simp, by simp [Thread.report]⟩⟩
      · exact ⟨_, hk, hown t _ hk ⟨by simp, by simp [Thread.report]⟩⟩
    obtain ⟨rfl, hkeeps, -, honly⟩ := waitTid_isolated hwait htraced hns
    cases h
    rw [if_pos rfl]
    have hreq := request_keeps k₁ i (onReport p.sys (p.fd i) p.maxCapture tids t ev.status (ev.answers mem)).reqs
    refine ⟨fun j hj => (hkeeps j hj).trans (hreq j), .of_not_seen ?_ ?_, ?_⟩
    · intro u hu
      obtain rfl := honly u ((hreq i).seen u hu)
      obtain ⟨o, fresh, ho, ⟨stop, rfl, hk, rfl⟩ | ⟨killed, rfl, hk, rfl⟩⟩ := hgot
      · -- a stop: the request that answers it finds its own stopped tracee
        cases ho
        obtain ⟨sig, event, hstat⟩ := stop_status stop
        obtain ⟨r, hr, hreqs⟩ := onReport_reqs_of_stopped p.sys (p.fd i) p.maxCapture tids u sig event
          (stop.val.answers mem)
        rw [hstat, hreqs] at hu
        simp only [request, List.foldl_cons, List.foldl_nil, hr] at hu
        cases hres : ptraceResume (Function.update k u (some ⟨some i, .stopped stop (some i), false⟩)) i u with
        | none => exact ptraceResume_eq_none hres stop (some i) false (Function.update_self _ _ _)
        | some k₂ =>
            rw [hres] at hu
            exact (ptraceResume_keeps hres).2 hu
      · -- a death: there is no tracee any more
        exact not_seenBy_update (by rintro th ev ⟨⟩) ((hreq i).seen u hu)
    · intro u todo hpc
      dsimp only at hpc
      split at hpc <;> rcases hpc with h | h <;> cases h
    · intro hd hmem
      rw [List.mem_singleton.mp hmem]
      exact ⟨rfl, rfl, onReport_calls_tid _ _ _ _ _ _ _⟩
  · cases h

/-! ## Runs -/

/-- When a session takes a status from `waitpid(-1, …)`, every status there is to take is about one of its
    own tracees. -/
def OwnOnly (s : System ι) : Act ι → Prop
  | .session i (.report _ _) => ∀ t th, s.threads t = some th → th.Reportable → th.tracer = some i
  | _ => True

theorem sessionNext_isolated {p : Params ι} {s : System ι} {c : Choice} {m : Moved ι}
    (hok : SessionOk s.threads i (s.sessions i).pc) (hown : OwnOnly s (.session i c))
    (h : sessionNext p s.threads i (s.sessions i) c = some m) : Isolated s.threads i m := by
  cases c with
  | go granted => exact goNext_isolated hok h
  | found tids =>
      simp only [sessionNext] at h
      split at h
      next hpc =>
        cases h
        rw [hpc] at hok
        apply Isolated.of_same (hok.not_seen (by simp [Attends]))
        dsimp only
        split <;> simp
      · cases h
  | idle again =>
      simp only [sessionNext] at h
      split at h
      next hpc =>
        cases h
        rw [hpc] at hok
        apply Isolated.of_same (hok.not_seen (by simp [Attends]))
        cases again <;> simp
      · cases h
  | failed echild =>
      simp only [sessionNext] at h
      split at h
      next hpc =>
        cases h
        rw [hpc] at hok
        apply Isolated.of_same (hok.not_seen (by simp [Attends]))
        cases echild <;> simp
      · cases h
  | report t mem =>
      simp only [sessionNext] at h
      split at h
      next hpc =>
        rw [hpc] at hok
        exact reportNext_isolated hok hown h
      · cases h

/-- Between two steps. -/
structure IsolationInv (s : System ι) : Prop where
  sessions : ∀ i, SessionOk s.threads i (s.sessions i).pc
  handled : ∀ h ∈ s.handled, h.tracer = some h.session ∧ ∀ c ∈ h.calls, c.tid = h.tid

omit [DecidableEq ι] in
theorem isolationInv_start (alive : Int → Bool) : IsolationInv (System.start alive : System ι) := by
  refine ⟨fun i => SessionOk.of_not_seen ?_ (by simp [System.start]), by simp [System.start]⟩
  rintro u ⟨th, ev, hk, hst⟩
  simp only [System.start] at hk
  split at hk
  · cases hk; cases hst
  · cases hk

theorem isolationInv_step {p : Params ι} {s s' : System ι} {a : Act ι} (hinv : IsolationInv s)
    (hstep : Lts.Guarded OwnOnly (step p) s a s') : IsolationInv s' := by
  obtain ⟨hown, -, hnext⟩ := hstep
  cases a with
  | target a =>
      simp only [next, Option.map_eq_some_iff] at hnext
      obtain ⟨k', hk', rfl⟩ := hnext
      exact ⟨fun i => (hinv.sessions i).mono (kernelNext_keeps hk' i), hinv.handled⟩
  | session i c =>
      simp only [next, Option.map_eq_some_iff] at hnext
      obtain ⟨m, hm, rfl⟩ := hnext
      have hiso := sessionNext_isolated (hinv.sessions i) hown hm
      refine ⟨?_, ?_⟩
      · intro j
        by_cases hj : j = i
        · subst hj
          simpa using hiso.ok
        · simp only [Function.update_of_ne hj]
          exact (hinv.sessions j).mono (hiso.keeps j hj)
      · intro hd hmem
        rcases List.mem_append.mp hmem with hold | hnew
        · exact hinv.handled hd hold
        · obtain ⟨hses, htr, hcalls⟩ := hiso.handled hd hnew
          exact ⟨by rw [hses]; exact htr, hcalls⟩

/-- **Isolation.** In every run of any number of sessions beside their targets, in which a session that
    takes a status finds statuses of its own tracees only: every status a session took was of a thread
    attached to it, the writes it reported are of that thread, and whenever a thread is in a stop that a
    session has been told of, this session is the thread's tracer and about to resume or detach it. -/
theorem sessions_isolated (p : Params ι) (alive : Int → Bool) (acts : List (Act ι)) (s : System ι)
    (hrun : Lts.Run (Lts.Guarded OwnOnly (step p)) (System.start alive) acts s) :
    (∀ h ∈ s.handled, h.tracer = some h.session ∧ ∀ c ∈ h.calls, c.tid = h.tid) ∧
      ∀ t th ev j, s.threads t = some th → th.state = .stopped ev (some j) →
        th.tracer = some j ∧ Attends (s.sessions j).pc t := by
  have hinv := hrun.invariant (isolationInv_start alive) fun s a s' h hstep => isolationInv_step h hstep
  refine ⟨hinv.handled, ?_⟩
  intro t th ev j hk hst
  have hseen : SeenBy s.threads j t := ⟨th, ev, hk, hst⟩
  refine ⟨?_, (hinv.sessions j).attended t hseen⟩
  obtain ⟨th', hk', htr⟩ := (hinv.sessions j).own t hseen
  rw [hk] at hk'; cases hk'
  exact htr

/-- Not a pass of the wait loop. -/
def Act.outsideLoop : Act ι → Bool
  | .session _ (.idle _) => false
  | .session _ (.failed _) => false
  | .session _ (.report _ _) => false
  | _ => true

theorem run_outsideLoop {p : Params ι} {s s' : System ι} {acts : List (Act ι)}
    (hacts : acts.all Act.outsideLoop = true) (hexec : acts.foldlM (next p) s = some s') :
    Lts.Run (Lts.Guarded OwnOnly (step p)) s acts s' := by
  refine Lts.Run.of_exec ?_ hexec
  intro a ha s₁ s₂ hnext
  have hout := List.all_eq_true.mp hacts a ha
  cases a with
  | target a => exact ⟨trivial, trivial, hnext⟩
  | session i c =>
      cases c with
      | found tids => exact ⟨trivial, trivial, hnext⟩
      | go granted => exact ⟨trivial, trivial, hnext⟩
      | _ => cases hout

end

/-! ### Two sessions -/

/-- x86-64 numbers; both sessions stream descriptor 1. -/
def twoStreams : Params Bool := ⟨⟨1, 18, 20⟩, fun _ => 1, 200⟩

def twoThreads : System Bool := System.start fun t => t == 7 || t == 9

/-- The stop that `PTRACE_INTERRUPT` asks for. -/
theorem isStop_interrupt : (Event.stop sigtrap 128 none).isStop = true := rfl

/-- Session `i` attaches to the one thread of its target and enters its wait loop. -/
def attachTo (i : Bool) (t : Int) : List (Act Bool) :=
  [.session i (.found [t]), .session i (.go true), .session i (.go true),
    .target (.stop t ⟨.stop sigtrap 128 none, isStop_interrupt⟩), .session i (.go true), .session i (.go true),
    .session i (.go true), .session i (.go true)]

/-- Both sessions attach, and thread 9 enters a write. -/
def bothAttached : List (Act Bool) :=
  attachTo false 7 ++ attachTo true 9 ++ [.target (.stop 9 ⟨.enter ⟨1, 1, 4096, 3, 0⟩, rfl⟩)]

/-- The write of thread 9 is taken by its own session. -/
theorem sessions_isolated_own_write :
    ∃ s, Lts.Run (Lts.Guarded OwnOnly (step twoStreams)) twoThreads
        (bothAttached ++ [.session true (.report 9 fun _ _ => none)]) s ∧
      (∀ h ∈ s.handled, h.tracer = some h.session ∧ ∀ c ∈ h.calls, c.tid = h.tid) ∧
        ∀ t th ev j, s.threads t = some th → th.state = .stopped ev (some j) →
          th.tracer = some j ∧ Attends (s.sessions j).pc t := by
  obtain ⟨s, hrun⟩ : ∃ s, Lts.Run (Lts.Guarded OwnOnly (step twoStreams)) twoThreads
      (bothAttached ++ [.session true (.report 9 fun _ _ => none)]) s := by
    refine ⟨_, Lts.Run.snoc (run_outsideLoop rfl rfl) ⟨?_, trivial, rfl⟩⟩
    intro t th hk hrep
    by_cases h9 : t = 9
    · subst h9
      cases hk
      rfl
    · by_cases h7 : t = 7
      · subst h7
        cases hk
        exact absurd rfl hrep.2
      · exfalso
        revert hk
        simp [h9, h7, twoThreads, System.start]
  exact ⟨s, hrun, sessions_isolated _ _ _ _ hrun⟩

/-- The same write is taken by the other session: it cannot resume the thread, and the thread's own
    session will not be told. -/
theorem stop_taken_by_other_session :
    ∃ s, Lts.Run (step twoStreams) twoThreads (bothAttached ++ [.session false (.report 9 fun _ _ => none)]) s ∧
      (∃ h ∈ s.handled, h.session = false ∧ h.tracer = some true) ∧
        ∃ th ev, s.threads 9 = some th ∧ th.tracer = some true ∧ th.state = .stopped ev (some false) := by
  refine ⟨_, Lts.Run.snoc (run_outsideLoop rfl rfl).of_guarded ⟨trivial, rfl⟩, ?_, ?_⟩
  · exact ⟨⟨false, 9, some true, []⟩, List.mem_append_right _ (List.mem_singleton.mpr rfl), rfl, rfl⟩
  · exact ⟨_, _, rfl, rfl, rfl⟩

end Tracer
end Hsed
