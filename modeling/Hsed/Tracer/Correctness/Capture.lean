import Hsed.Lib.Lts
import Hsed.Tracer.Correctness.Pass

/-!
# `Tracer.Correctness.Capture` — every write once, at its exit stop

The wait loop sees statuses only: an enter stop and an exit stop look the same, and it tells them apart by
the flag it toggles in the thread's slot. Here each status comes with the **event** behind it, and the
run is one in which the events follow ptrace's rules (`Assumed`): a thread's syscall stops alternate, a new
thread does not start with one. `TableOk` ties the table to the history: a slot's flag says whether its
thread is inside a syscall, and what it holds is what was read at the matching enter stop. Every event
keeps it, whatever slot it touches, and so at every exit stop the loop reports what it should
(`capture_exactly_once`).
-/

namespace Hsed
namespace Tracer

open CLib

/-! ## Histories -/

/-- What one `waitpid(-1, …, WNOHANG)` brings: nothing (and whether `poll_cb` lets the loop go on), an
    error, or an event of a thread. -/
inductive Wait where
  | idle (again : Bool)
  | failed (echild : Bool)
  | report (tid : Int) (ev : Event) (mem : Memory)

/-- The system call a thread is in, as far as its stops since its last death tell. The history is newest
    first. -/
def openSyscall : List Wait → Int → Option Regs
  | [], _ => none
  | .report t ev _ :: hist, u =>
    if t = u then
      match ev with
      | .enter regs => some regs
      | .leave _ => none
      | .gone _ => none
      | _ => openSyscall hist u
    else openSyscall hist u
  | _ :: hist, u => openSyscall hist u

/-- The table the seize loop builds, from the threads it saw stopped. -/
def seizeTids : List TidState → List (Int × Bool) → List TidState
  | tids, [] => tids
  | tids, (tid, resumed) :: rest => seizeTids (seizeTid tids tid resumed) rest

/-- Has the thread stopped before (or been seized and resumed at the start) since its last death? -/
def known (seized : List (Int × Bool)) : List Wait → Int → Bool
  | [], u => (lookup (seizeTids [] seized) u).isSome
  | .report t ev _ :: hist, u =>
    if t = u then
      match ev with
      | .gone _ => false
      | .continued => known seized hist u
      | _ => true
    else known seized hist u
  | _ :: hist, u => known seized hist u

/-- The number of a call that writes. -/
def IsWrite (sys : Sysno) (syscallNr : Int) : Prop :=
  syscallNr = sys.write ∨ syscallNr = sys.pwrite64 ∨ syscallNr = sys.writev

/-- A write on the descriptor, by the registers at its enter stop: the number, and the first argument. -/
def IsWriteOn (sys : Sysno) (fd : Int) (regs : Regs) : Prop := IsWrite sys regs.syscallNr ∧ regs.arg1 = fd

instance (sys : Sysno) (syscallNr : Int) : Decidable (IsWrite sys syscallNr) :=
  inferInstanceAs (Decidable (_ ∨ _))

instance (sys : Sysno) (fd : Int) (regs : Regs) : Decidable (IsWriteOn sys fd regs) :=
  inferInstanceAs (Decidable (_ ∧ _))

/-- The calls due at an event: one, at the exit stop of a write on the descriptor, with what the exit
    stop and the matching enter stop say. -/
def expectedCalls (sys : Sysno) (fd : Int) (maxCapture : Nat) (hist : List Wait) : Wait → List WriteCall
  | .report t (.leave exit) mem =>
    match openSyscall hist t with
    | none => []
    | some enter =>
      if IsWriteOn sys fd enter then
        let isWritev := enter.syscallNr == sys.writev
        [⟨t, exit.ret,
          captured mem maxCapture isWritev enter.arg2 (if isWritev then enter.arg3 else 0) exit.ret, isWritev⟩]
      else []
  | _ => []

/-- Under `ptrace` the exit stop of a write shows the number that its enter stop showed. -/
def ShowsCall (sys : Sysno) (fd : Int) (hist : List Wait) : Wait → Prop
  | .report t (.leave exit) _ =>
    ∀ enter, openSyscall hist t = some enter → IsWriteOn sys fd enter → exit.syscallNr = enter.syscallNr
  | _ => True

/-- The exit stop of a write, by its own number. -/
def AtWriteExit (sys : Sysno) : Wait → Prop
  | .report _ (.leave exit) _ => IsWrite sys exit.syscallNr
  | _ => False

/-! ## The loop -/

/-- The loop between two `waitpid` calls; `hist` is what has been reported, newest first. -/
structure LoopState where
  tids : List TidState
  hist : List Wait
  returned : Bool

/-- One pass: what `waitpid` brought, and the `write_cb` calls made. -/
structure Iter where
  wait : Wait
  calls : List WriteCall

/-- The loop body. A refused poll detaches and returns, and so does `ECHILD`. -/
def loopPass (sys : Sysno) (fd : Int) (maxCapture : Nat) (tids : List TidState) : Wait → Pass
  | .idle again => ⟨tids, [], [], !again⟩
  | .failed echild => ⟨tids, [], [], echild⟩
  | .report t ev mem => onReport sys fd maxCapture tids t ev.status (ev.answers mem)

/-- The wait loop as a transition system. -/
def loopStep (sys : Sysno) (fd : Int) (maxCapture : Nat) (s : LoopState) (it : Iter) (s' : LoopState) : Prop :=
  s.returned = false ∧ it.calls = (loopPass sys fd maxCapture s.tids it.wait).calls ∧
    s' = ⟨(loopPass sys fd maxCapture s.tids it.wait).tids, it.wait :: s.hist,
      (loopPass sys fd maxCapture s.tids it.wait).returned⟩

/-- The loop as the seize loop leaves it. -/
def loopStart (seized : List (Int × Bool)) : LoopState := ⟨seizeTids [] seized, [], false⟩

/-- The table takes every thread that reports, and the thread's events follow the rules of ptrace. -/
def Assumed (seized : List (Int × Bool)) (s : LoopState) (it : Iter) : Prop :=
  match it.wait with
  | .report t ev _ =>
    (findOrAddTid s.tids t).2 ≠ none ∧
      match ev with
      | .enter _ => known seized s.hist t = true ∧ openSyscall s.hist t = none
      | .leave _ => known seized s.hist t = true ∧ openSyscall s.hist t ≠ none
      | .stop sig _ _ => sig ≠ syscallStop
      | _ => True
  | _ => True

/-! ## The table follows the threads -/

/-- The code's test is that of a write on the descriptor. -/
theorem targets_iff {sys : Sysno} {fd : Int} {regs : Regs} : targets sys fd regs = true ↔ IsWriteOn sys fd regs := by
  simp only [targets, IsWriteOn, IsWrite, Bool.and_eq_true, Bool.or_eq_true, beq_iff_eq, or_assoc]

/-- A slot agrees with the system call its thread is in. -/
def SlotOk (sys : Sysno) (fd : Int) (ts : TidState) : Option Regs → Prop
  | none => ts.inSyscall = false
  | some regs =>
    ts.inSyscall = true ∧ ts.capturing = targets sys fd regs ∧
      (targets sys fd regs = true →
        ts.pendingIsWritev = (regs.syscallNr == sys.writev) ∧ ts.pendingBufAddr = regs.arg2 ∧
          ts.pendingIovcnt = if regs.syscallNr == sys.writev then regs.arg3 else 0)

/-- The table agrees with the threads, and holds every thread that is in a system call. -/
structure TableOk (sys : Sysno) (fd : Int) (inCall : Int → Option Regs) (tids : List TidState) : Prop where
  distinct : Distinct tids
  slots : ∀ t ts, lookup tids t = some ts → SlotOk sys fd ts (inCall t)
  present : ∀ t, inCall t ≠ none → lookup tids t ≠ none

section
variable {sys : Sysno} {fd : Int} {inCall : Int → Option Regs} {tids : List TidState}

theorem TableOk.findOrAddTid (h : TableOk sys fd inCall tids) (t : Int) :
    TableOk sys fd inCall (findOrAddTid tids t).1 := by
  refine ⟨h.distinct.findOrAddTid t, ?_, ?_⟩
  · intro u ts hu
    rcases lookup_findOrAddTid tids t u with heq | ⟨rfl, habs, hfresh⟩
    · exact h.slots u ts (heq ▸ hu)
    · -- a thread that was absent is in no system call
      have hnone : inCall u = none := by
        by_contra hne
        exact h.present u hne habs
      obtain rfl := Option.some.inj (hfresh.symm.trans hu)
      rw [hnone]
      exact (rfl : (TidState.fresh u).inSyscall = false)
  · intro u hu
    rcases lookup_findOrAddTid tids t u with heq | ⟨rfl, -, hfresh⟩
    · rw [heq]; exact h.present u hu
    · rw [hfresh]; simp

theorem TableOk.removeTid (h : TableOk sys fd inCall tids) (t : Int) :
    TableOk sys fd (Function.update inCall t none) (removeTid tids t) := by
  refine ⟨h.distinct.removeTid t, ?_, ?_⟩
  · intro u ts hu
    rw [lookup_removeTid h.distinct] at hu
    by_cases hut : u = t
    · rw [if_pos hut] at hu; cases hu
    · rw [if_neg hut] at hu
      rw [Function.update_of_ne hut]
      exact h.slots u ts hu
  · intro u hu
    by_cases hut : u = t
    · rw [hut, Function.update_self] at hu
      exact absurd rfl hu
    · rw [Function.update_of_ne hut] at hu
      rw [lookup_removeTid h.distinct, if_neg hut]
      exact h.present u hu

/-- Writing the slot of `t` to match its new situation. -/
theorem TableOk.set (h : TableOk sys fd inCall tids) {i : Nat} {ts ts' : TidState} {t : Int}
    (hi : tids[i]? = some ts) (ht : ts.tid = t) (ht' : ts'.tid = t) {o : Option Regs}
    (hslot : SlotOk sys fd ts' o) : TableOk sys fd (Function.update inCall t o) (tids.set i ts') := by
  have hsame : ts'.tid = ts.tid := ht'.trans ht.symm
  refine ⟨h.distinct.set hi hsame, ?_, ?_⟩
  · intro u x hu
    rw [lookup_set h.distinct hi hsame, ht] at hu
    by_cases hut : u = t
    · rw [if_pos hut] at hu
      obtain rfl := Option.some.inj hu
      rw [hut, Function.update_self]
      exact hslot
    · rw [if_neg hut] at hu
      rw [Function.update_of_ne hut]
      exact h.slots u x hu
  · intro u hu
    rw [lookup_set h.distinct hi hsame, ht]
    by_cases hut : u = t
    · rw [if_pos hut]; simp
    · rw [Function.update_of_ne hut] at hu
      rw [if_neg hut]
      exact h.present u hu

/-- An enter stop leaves a slot that remembers the call. -/
theorem slotOk_enterStop (ts : TidState) (regs : Regs) :
    SlotOk sys fd (enterStop sys fd (some regs) ts) (some regs) := by
  unfold enterStop
  by_cases htg : targets sys fd regs = true
  · simp only [htg, if_true]
    exact ⟨rfl, htg.symm, fun _ => ⟨rfl, rfl, rfl⟩⟩
  · simp only [htg]
    have hf : targets sys fd regs = false := by simpa using htg
    exact ⟨rfl, hf.symm, fun hc => absurd hc htg⟩

/-- What an exit stop reports, from a slot that agrees with the thread. -/
theorem exitCalls_eq {ts : TidState} {enter : Regs} (hslot : SlotOk sys fd ts (some enter)) (maxCapture : Nat)
    (mem : Memory) (t : Int) (exit : Regs) :
    exitCalls maxCapture (Event.answers mem (.leave exit)) t ts =
      if IsWriteOn sys fd enter then
        [⟨t, exit.ret, captured mem maxCapture (enter.syscallNr == sys.writev) enter.arg2
          (if enter.syscallNr == sys.writev then enter.arg3 else 0) exit.ret, enter.syscallNr == sys.writev⟩]
      else [] := by
  obtain ⟨-, hcap, hpend⟩ := hslot
  unfold exitCalls
  rw [hcap]
  by_cases htg : targets sys fd enter = true
  · obtain ⟨hw, ha, hn⟩ := hpend htg
    rw [if_pos htg, if_pos (targets_iff.mp htg), hw, ha, hn]
    rfl
  · rw [if_neg htg, if_neg fun hwrite => htg (targets_iff.mpr hwrite)]

end

/-! ## The loop -/

section
variable {sys : Sysno} {fd : Int} {maxCapture : Nat} {seized : List (Int × Bool)}

/-- Between two passes the table agrees with the history, and holds every thread that has stopped. -/
structure LoopInv (sys : Sysno) (fd : Int) (seized : List (Int × Bool)) (s : LoopState) : Prop where
  table : TableOk sys fd (openSyscall s.hist) s.tids
  held : ∀ t, known seized s.hist t = true → lookup s.tids t ≠ none

/-- The effect of an event on the system calls threads are in. -/
theorem openSyscall_report (t : Int) (ev : Event) (mem : Memory) (hist : List Wait) :
    openSyscall (.report t ev mem :: hist) =
      match ev with
      | .enter regs => Function.update (openSyscall hist) t (some regs)
      | .leave _ => Function.update (openSyscall hist) t none
      | .gone _ => Function.update (openSyscall hist) t none
      | _ => openSyscall hist := by
  funext u
  by_cases hu : t = u
  · subst hu
    cases ev <;> simp [openSyscall]
  · have hne : u ≠ t := fun h => hu h.symm
    cases ev <;> simp [openSyscall, hu, Function.update_of_ne hne]

/-- A thread that is known after a report is the reporter, alive, or was known before. -/
theorem known_report {t u : Int} {ev : Event} {mem : Memory} {hist : List Wait}
    (h : known seized (.report t ev mem :: hist) u = true) :
    (u = t ∧ ∀ killed, ev ≠ .gone killed) ∨ (u ≠ t ∧ known seized hist u = true) := by
  by_cases hu : t = u
  · subst hu
    refine .inl ⟨rfl, ?_⟩
    rintro killed rfl
    simp [known] at h
  · simp only [known, if_neg hu] at h
    exact .inr ⟨fun heq => hu heq.symm, h⟩

theorem seizeTids_fresh (seized : List (Int × Bool)) :
    ∀ tids, Distinct tids → (∀ t ts, lookup tids t = some ts → ts.inSyscall = false) →
      Distinct (seizeTids tids seized) ∧
        ∀ t ts, lookup (seizeTids tids seized) t = some ts → ts.inSyscall = false := by
  induction seized with
  | nil => exact fun tids hd hf => ⟨hd, hf⟩
  | cons p rest ih =>
      intro tids hd hf
      refine ih _ (hd.seizeTid p.1 p.2) ?_
      intro t ts hts
      rcases lookup_seizeTid hd p.1 p.2 t with heq | ⟨-, heq | heq⟩
      · exact hf t ts (heq ▸ hts)
      · rw [heq] at hts; cases hts
      · obtain rfl := Option.some.inj (heq.symm.trans hts)
        rfl

theorem loopInv_start : LoopInv sys fd seized (loopStart seized) := by
  obtain ⟨hd, hf⟩ := seizeTids_fresh seized [] (by simp [Distinct]) (by simp [lookup])
  refine ⟨⟨hd, hf, fun t ht => absurd rfl ht⟩, ?_⟩
  intro t ht
  simpa [known, loopStart, Option.isSome_iff_ne_none] using ht

/-- **One report.** The table follows the event, and the calls are those due. One case per event. -/
theorem onReport_spec {s : LoopState} (hinv : LoopInv sys fd seized s) {t : Int} {ev : Event} {mem : Memory}
    {it : Iter} (hit : it.wait = .report t ev mem) (hass : Assumed seized s it) :
    TableOk sys fd (openSyscall (.report t ev mem :: s.hist))
        (onReport sys fd maxCapture s.tids t ev.status (ev.answers mem)).tids ∧
      (∀ u, known seized (.report t ev mem :: s.hist) u = true →
        lookup (onReport sys fd maxCapture s.tids t ev.status (ev.answers mem)).tids u ≠ none) ∧
      (onReport sys fd maxCapture s.tids t ev.status (ev.answers mem)).calls =
        expectedCalls sys fd maxCapture s.hist (.report t ev mem) := by
  obtain ⟨table, held⟩ := hinv
  rw [Assumed, hit] at hass
  obtain ⟨hroom, hev⟩ := hass
  rw [openSyscall_report]
  cases ev with
  | enter regs =>
      obtain ⟨hknown, hopen⟩ := hev
      obtain ⟨ts, hl⟩ := Option.ne_none_iff_exists'.mp (held t hknown)
      -- the slot says that the thread is in no call
      have hslot := table.slots t ts hl
      rw [hopen] at hslot
      obtain ⟨i, hi, heq⟩ := @onReport_enter sys fd maxCapture _ _ _ hl hslot regs mem
      have ht : ts.tid = t := lookup_tid hl
      have ht' : (enterStop sys fd (some regs) ts).tid = ts.tid := by
        unfold enterStop; dsimp only; split <;> rfl
      rw [heq]
      refine ⟨table.set hi ht (ht'.trans ht) (slotOk_enterStop ts regs), ?_, rfl⟩
      intro u hu
      rw [lookup_set table.distinct hi ht', ht]
      rcases known_report hu with ⟨rfl, -⟩ | ⟨hne, hk⟩
      · simp
      · rw [if_neg hne]; exact held u hk
  | leave regs =>
      obtain ⟨-, hopen⟩ := hev
      -- the slot has kept what the enter stop said
      obtain ⟨enter, hent⟩ := Option.ne_none_iff_exists'.mp hopen
      obtain ⟨ts, hl⟩ := Option.ne_none_iff_exists'.mp (table.present t hopen)
      have hslot := table.slots t ts hl
      rw [hent] at hslot
      obtain ⟨i, hi, heq⟩ := @onReport_leave sys fd maxCapture _ _ _ hl hslot.1 regs mem
      have ht : ts.tid = t := lookup_tid hl
      have hout : SlotOk sys fd (exitStop ts) none := (rfl : (exitStop ts).inSyscall = false)
      have ht' : (exitStop ts).tid = t := ht
      rw [heq]
      refine ⟨table.set hi ht ht' hout, ?_, ?_⟩
      · intro u hu
        rw [lookup_set table.distinct hi (rfl : (exitStop ts).tid = ts.tid), ht]
        rcases known_report hu with ⟨rfl, -⟩ | ⟨hne, hk⟩
        · simp
        · rw [if_neg hne]; exact held u hk
      · simp only [expectedCalls, hent]
        exact exitCalls_eq hslot maxCapture mem t regs
  | stop sig event msg =>
      obtain ⟨hcalls, htids⟩ :=
        @onReport_stop sys fd maxCapture s.tids t sig hev event (Event.answers mem (.stop sig event msg))
      -- the reporter gets a slot, and a clone may bring one more
      have hself : ∀ u, known seized (.report t (.stop sig event msg) mem :: s.hist) u = true →
          lookup (findOrAddTid s.tids t).1 u ≠ none := by
        intro u hu
        rcases known_report hu with ⟨rfl, -⟩ | ⟨-, hk⟩
        · exact lookup_self_findOrAddTid hroom
        · exact held_findOrAddTid (held u hk) t
      refine ⟨?_, ?_, hcalls⟩
      · rcases htids with heq | ⟨u, heq⟩
        · rw [Event.status, heq]; exact table.findOrAddTid t
        · rw [Event.status, heq]; exact (table.findOrAddTid t).findOrAddTid u
      · intro u hu
        rcases htids with heq | ⟨v, heq⟩
        · rw [Event.status, heq]; exact hself u hu
        · rw [Event.status, heq]; exact held_findOrAddTid (hself u hu) v
  | gone killed =>
      rw [onReport_gone killed (Event.answers mem (.gone killed)) hroom]
      refine ⟨(table.findOrAddTid t).removeTid t, ?_, rfl⟩
      · intro u hu
        rw [lookup_removeTid (table.distinct.findOrAddTid t)]
        rcases known_report hu with ⟨-, hgone⟩ | ⟨hne, hk⟩
        · -- the dead are known no more
          exact absurd rfl (hgone killed)
        · rw [if_neg hne]; exact held_findOrAddTid (held u hk) t
  | continued =>
      obtain ⟨hcalls, htids⟩ :=
        @onReport_continued sys fd maxCapture s.tids t (Event.answers mem .continued) hroom
      refine ⟨?_, ?_, hcalls⟩
      · rw [htids]; exact table.findOrAddTid t
      · intro u hu
        rw [htids]
        rcases known_report hu with ⟨rfl, -⟩ | ⟨-, hk⟩
        · exact lookup_self_findOrAddTid hroom
        · exact held_findOrAddTid (held u hk) t

/-- **One pass** keeps the invariant and makes the calls due. -/
theorem loopStep_spec {s s' : LoopState} {it : Iter} (hinv : LoopInv sys fd seized s)
    (hstep : Lts.Guarded (Assumed seized) (loopStep sys fd maxCapture) s it s') :
    LoopInv sys fd seized s' ∧ s'.hist = it.wait :: s.hist ∧
      it.calls = expectedCalls sys fd maxCapture s.hist it.wait := by
  obtain ⟨hass, -, hcalls, rfl⟩ := hstep
  cases hw : it.wait with
  | idle again =>
      rw [hw] at hcalls
      exact ⟨⟨hinv.table, hinv.held⟩, rfl, hcalls⟩
  | failed echild =>
      rw [hw] at hcalls
      exact ⟨⟨hinv.table, hinv.held⟩, rfl, hcalls⟩
  | report t ev mem =>
      obtain ⟨htable, hheld, hspec⟩ := @onReport_spec sys fd maxCapture _ _ hinv t ev mem it hw hass
      rw [hw] at hcalls
      exact ⟨⟨htable, hheld⟩, rfl, hcalls.trans hspec⟩

/-- **The loop.** A run keeps the invariant and its history. -/
theorem loop_run {s : LoopState} {its : List Iter}
    (hrun : Lts.Run (Lts.Guarded (Assumed seized) (loopStep sys fd maxCapture)) (loopStart seized) its s) :
    LoopInv sys fd seized s ∧ s.hist = (its.map (·.wait)).reverse := by
  induction hrun with
  | nil => exact ⟨loopInv_start, rfl⟩
  | snoc _ hst ih =>
      obtain ⟨hinv, hhist, -⟩ := loopStep_spec ih.1 hst
      refine ⟨hinv, ?_⟩
      rw [hhist, ih.2]
      simp

/-- A call that is due is due at an exit stop, and that of a write. -/
theorem atWriteExit_of_due {hist : List Wait} {w : Wait} (hshows : ShowsCall sys fd hist w)
    (hdue : expectedCalls sys fd maxCapture hist w ≠ []) : AtWriteExit sys w := by
  cases w with
  | idle again => exact absurd rfl hdue
  | failed echild => exact absurd rfl hdue
  | report t ev mem =>
      cases ev with
      | leave exit =>
          rw [expectedCalls] at hdue
          cases hopen : openSyscall hist t with
          | none =>
              rw [hopen] at hdue
              exact absurd rfl hdue
          | some enter =>
              rw [hopen] at hdue
              simp only at hdue
              split at hdue
              next hwrite =>
                show IsWrite sys exit.syscallNr
                rw [hshows enter hopen hwrite]
                exact hwrite.1
              next => exact absurd rfl hdue
      | _ => exact absurd rfl hdue

/-- **Exactly-once capture.** In every run of the wait loop from the table the seize loop built, whose
    reports follow ptrace's rules, each pass calls `write_cb` once at the exit stop of a write on the
    descriptor, with what this stop and the thread's matching enter stop say, and never otherwise. Where exit stops
    show which call they end, it is never called at that of another call. -/
theorem capture_exactly_once (sys : Sysno) (fd : Int) (maxCapture : Nat) (seized : List (Int × Bool))
    (its : List Iter) (s : LoopState)
    (hrun : Lts.Run (Lts.Guarded (Assumed seized) (loopStep sys fd maxCapture)) (loopStart seized) its s)
    (before after : List Iter) (it : Iter) (hits : its = before ++ it :: after) :
    it.calls = expectedCalls sys fd maxCapture (before.map (·.wait)).reverse it.wait ∧
      (ShowsCall sys fd (before.map (·.wait)).reverse it.wait → it.calls ≠ [] → AtWriteExit sys it.wait) := by
  subst hits
  obtain ⟨s₁, s₂, hpre, hst⟩ := hrun.split
  obtain ⟨hinv, hhist⟩ := loop_run hpre
  obtain ⟨-, -, hcalls⟩ := loopStep_spec hinv hst
  rw [← hhist]
  refine ⟨hcalls, fun hshows hne => ?_⟩
  rw [hcalls] at hne
  exact atWriteExit_of_due hshows hne

/-- Thread 7 writes three bytes to descriptor 1 (x86-64 numbers), and thread 8 reads in between. -/
def oneWrite : List Iter :=
  let mem : Memory := fun _ n => some (List.replicate n 65)
  [⟨.report 7 (.enter ⟨1, 1, 4096, 3, 0⟩) mem, []⟩, ⟨.report 8 (.enter ⟨0, 1, 8192, 3, 0⟩) mem, []⟩,
    ⟨.report 7 (.leave ⟨1, 1, 4096, 3, 3⟩) mem, [⟨7, 3, [65, 65, 65], false⟩]⟩]

theorem capture_exactly_once_one_write :
    ∃ s, Lts.Run (Lts.Guarded (Assumed [(7, true), (8, true)]) (loopStep ⟨1, 18, 20⟩ 1 200))
        (loopStart [(7, true), (8, true)]) oneWrite s ∧
      ∀ before it after, oneWrite = before ++ it :: after →
        it.calls = expectedCalls ⟨1, 18, 20⟩ 1 200 (before.map (·.wait)).reverse it.wait ∧
          (ShowsCall ⟨1, 18, 20⟩ 1 (before.map (·.wait)).reverse it.wait → it.calls ≠ [] →
            AtWriteExit ⟨1, 18, 20⟩ it.wait) := by
  have hrun : Lts.Run (Lts.Guarded (Assumed [(7, true), (8, true)]) (loopStep ⟨1, 18, 20⟩ 1 200))
      (loopStart [(7, true), (8, true)]) oneWrite _ :=
    .snoc (.snoc (.snoc .nil ⟨⟨by decide, by decide, by decide⟩, rfl, rfl, rfl⟩)
      ⟨⟨by decide, by decide, by decide⟩, rfl, rfl, rfl⟩) ⟨⟨by decide, by decide, by decide⟩, rfl, rfl, rfl⟩
  exact ⟨_, hrun, fun before it after h => capture_exactly_once _ _ _ _ _ _ hrun before after it h⟩

end

end Tracer
end Hsed
