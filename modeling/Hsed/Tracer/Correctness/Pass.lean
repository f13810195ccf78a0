import Hsed.Tracer.Kernel
import Hsed.Tracer.Correctness.Table

/-!
# `Tracer.Correctness.Pass` — one pass of the wait loop

What `onReport` does for each event, stated on the table as a map: an enter stop and an exit stop of a
thread that is there, any other stop, a death. And what it asks of the kernel: a stop is answered by one
request for the thread that stopped (`onReport_reqs_of_stopped`), whatever the table holds.
-/

namespace Hsed
namespace Tracer

open CLib

/-! ## The pass, event by event -/

section
variable {sys : Sysno} {fd : Int} {maxCapture : Nat} {tids : List TidState} {t : Int}

/-- A stop of a thread that is in the table goes to the branches on the stop signal. -/
theorem onReport_of_present (hl : lookup tids t ≠ none) (sig event : Nat) (ans : Answers) :
    ∃ i ts, tids[i]? = some ts ∧ lookup tids t = some ts ∧
      onReport sys fd maxCapture tids t (.stopped sig event) ans =
        onStop sys fd maxCapture tids i t sig event ans := by
  rcases findOrAddTid_cases tids t with ⟨i, ts, heq, hi, hts⟩ | ⟨habs, -, -⟩ | ⟨habs, -, -⟩
  · exact ⟨i, ts, hi, hts, by simp [onReport, heq]⟩
  · exact absurd habs hl
  · exact absurd habs hl

/-- An enter stop of a thread outside any system call: its slot remembers the call. -/
theorem onReport_enter {ts : TidState} (hl : lookup tids t = some ts) (hout : ts.inSyscall = false)
    (regs : Regs) (mem : Memory) :
    ∃ i, tids[i]? = some ts ∧
      onReport sys fd maxCapture tids t (Event.enter regs).status ((Event.enter regs).answers mem) =
        ⟨tids.set i (enterStop sys fd (some regs) ts), [.syscall t 0], [], false⟩ := by
  obtain ⟨i, ts', hi, hl', heq⟩ :=
    @onReport_of_present sys fd maxCapture tids t (by rw [hl]; simp) syscallStop 0 (Event.answers mem (.enter regs))
  obtain rfl := Option.some.inj (hl.symm.trans hl')
  refine ⟨i, hi, heq.trans ?_⟩
  simp [onStop, hi, hout, Event.answers]

/-- An exit stop of a thread inside a system call. -/
theorem onReport_leave {ts : TidState} (hl : lookup tids t = some ts) (hin : ts.inSyscall = true)
    (regs : Regs) (mem : Memory) :
    ∃ i, tids[i]? = some ts ∧
      onReport sys fd maxCapture tids t (Event.leave regs).status ((Event.leave regs).answers mem) =
        ⟨tids.set i (exitStop ts), [.syscall t 0],
          exitCalls maxCapture ((Event.leave regs).answers mem) t ts, false⟩ := by
  obtain ⟨i, ts', hi, hl', heq⟩ :=
    @onReport_of_present sys fd maxCapture tids t (by rw [hl]; simp) syscallStop 0 (Event.answers mem (.leave regs))
  obtain rfl := Option.some.inj (hl.symm.trans hl')
  refine ⟨i, hi, heq.trans ?_⟩
  simp [onStop, hi, hin]

/-- Any other stop reports nothing and at most adds threads: the one that stopped, the one it cloned. -/
theorem onReport_stop {sig : Nat} (hsig : sig ≠ syscallStop) (event : Nat) (ans : Answers) :
    (onReport sys fd maxCapture tids t (.stopped sig event) ans).calls = [] ∧
      ((onReport sys fd maxCapture tids t (.stopped sig event) ans).tids = (findOrAddTid tids t).1 ∨
        ∃ u, (onReport sys fd maxCapture tids t (.stopped sig event) ans).tids =
          (findOrAddTid (findOrAddTid tids t).1 u).1) := by
  rcases findOrAddTid_cases tids t with ⟨i, ts, heq, hi, -⟩ | ⟨-, -, heq⟩ | ⟨-, -, heq⟩
  · simp only [onReport, heq, Bool.false_eq_true, if_false, onStop, hi, if_neg hsig]
    split
    · refine ⟨rfl, ?_⟩
      dsimp only
      split
      · cases ans.eventMsg with
        | none => exact .inl rfl
        | some u => exact .inr ⟨toInt32 u, rfl⟩
      · exact .inl rfl
    · split
      · exact ⟨rfl, .inl rfl⟩
      · exact ⟨rfl, .inl rfl⟩
  · simp [onReport, heq]
  · simp [onReport, heq]

/-- A death: the thread leaves the table, and the last one ends the loop. -/
theorem onReport_gone (killed : Bool) (ans : Answers) (hroom : (findOrAddTid tids t).2 ≠ none) :
    onReport sys fd maxCapture tids t (Event.gone killed).status ans =
      ⟨removeTid (findOrAddTid tids t).1 t, [], [], (removeTid (findOrAddTid tids t).1 t).isEmpty⟩ := by
  rcases hf : findOrAddTid tids t with ⟨tids', _ | slot⟩
  · rw [hf] at hroom; exact absurd rfl hroom
  · cases killed <;> simp [onReport, hf, Event.status]

theorem onReport_continued (ans : Answers) (hroom : (findOrAddTid tids t).2 ≠ none) :
    (onReport sys fd maxCapture tids t Event.continued.status ans).calls = [] ∧
      (onReport sys fd maxCapture tids t Event.continued.status ans).tids = (findOrAddTid tids t).1 := by
  rcases hf : findOrAddTid tids t with ⟨tids', _ | slot⟩
  · rw [hf] at hroom; exact absurd rfl hroom
  · simp [onReport, hf, Event.status]

end

/-! ## Requests and calls -/

theorem stop_status (stop : StopEvent) : ∃ sig event, stop.val.status = .stopped sig event := by
  obtain ⟨ev, hev⟩ := stop
  cases ev with
  | enter regs => exact ⟨_, _, rfl⟩
  | leave regs => exact ⟨_, _, rfl⟩
  | stop sig event msg => exact ⟨_, _, rfl⟩
  | gone killed => cases hev
  | continued => cases hev

/-- The signal that a pass hands back to a thread in the table. -/
def backSig (sig : Nat) : Nat := if sig = syscallStop ∨ sig = sigtrap ∨ sig = sigstop then 0 else sig

/-- Which request that is: with the stop signal for a thread in the table, without a signal for any other. -/
theorem onReport_reqs_eq (sys : Sysno) (fd : Int) (maxCapture : Nat) (tids : List TidState) (t : Int)
    (sig event : Nat) (ans : Answers) :
    (lookup tids t ≠ none ∧
        (onReport sys fd maxCapture tids t (.stopped sig event) ans).reqs = [.syscall t (backSig sig)]) ∨
      (lookup tids t = none ∧
        ((onReport sys fd maxCapture tids t (.stopped sig event) ans).reqs = [.syscall t 0] ∨
          (onReport sys fd maxCapture tids t (.stopped sig event) ans).reqs = [.cont t])) := by
  rcases findOrAddTid_cases tids t with ⟨i, ts, heq, hi, hl⟩ | ⟨hl, -, heq⟩ | ⟨hl, -, heq⟩
  · refine .inl ⟨by rw [hl]; exact Option.some_ne_none _, ?_⟩
    simp only [onReport, heq, Bool.false_eq_true, if_false, onStop, hi]
    split
    next hsig =>
      have hback : backSig sig = 0 := if_pos (.inl hsig)
      rw [hback]
      split <;> rfl
    next hsys =>
      split
      next hsig =>
        have hback : backSig sig = 0 := if_pos (.inr (.inl hsig))
        rw [hback]
      next htrap =>
        split
        next hsig =>
          have hback : backSig sig = 0 := if_pos (.inr (.inr hsig))
          rw [hback]
        next hstop =>
          have hback : backSig sig = sig := if_neg (by simp only [hsys, htrap, hstop, or_self, not_false_eq_true])
          rw [hback]
  · exact .inr ⟨hl, .inl (by simp [onReport, heq])⟩
  · exact .inr ⟨hl, .inr (by simp [onReport, heq])⟩

/-- A stop is answered by one request, for the thread that stopped. -/
theorem onReport_reqs_of_stopped (sys : Sysno) (fd : Int) (maxCapture : Nat) (tids : List TidState) (t : Int)
    (sig event : Nat) (ans : Answers) :
    ∃ r : Req, r.tid = t ∧ (onReport sys fd maxCapture tids t (.stopped sig event) ans).reqs = [r] := by
  rcases onReport_reqs_eq sys fd maxCapture tids t sig event ans with ⟨-, heq⟩ | ⟨-, heq | heq⟩
  · exact ⟨_, rfl, heq⟩
  · exact ⟨_, rfl, heq⟩
  · exact ⟨_, rfl, heq⟩

/-- A stop takes no thread out of the table, and the thread that stopped is in it afterwards. -/
theorem onReport_tids_of_stopped (sys : Sysno) (fd : Int) (maxCapture : Nat) {tids : List TidState} {t : Int}
    (hd : Distinct tids) (hroom : (findOrAddTid tids t).2 ≠ none) (sig event : Nat) (ans : Answers) :
    let pass := onReport sys fd maxCapture tids t (.stopped sig event) ans
    Distinct pass.tids ∧ (∀ u, u = t ∨ lookup tids u ≠ none → lookup pass.tids u ≠ none) ∧
      pass.returned = false := by
  have hadd := hd.findOrAddTid t
  have hheld : ∀ u, u = t ∨ lookup tids u ≠ none → lookup (findOrAddTid tids t).1 u ≠ none := by
    rintro u (rfl | hu)
    · exact lookup_self_findOrAddTid hroom
    · exact held_findOrAddTid hu t
  rcases findOrAddTid_cases tids t with ⟨i, ts, heq, hi, -⟩ | ⟨-, -, heq⟩ | ⟨-, -, heq⟩
  · rw [heq] at hheld
    -- the table is written at the reporter's slot, or grows by a clone
    have hset : ∀ ts', ts'.tid = ts.tid → Distinct (tids.set i ts') ∧
        ∀ u, u = t ∨ lookup tids u ≠ none → lookup (tids.set i ts') u ≠ none := by
      intro ts' ht'
      refine ⟨hd.set hi ht', ?_⟩
      intro u hu
      rw [lookup_set hd hi ht']
      split
      · simp
      · exact hheld u hu
    simp only [onReport, heq, Bool.false_eq_true, if_false, onStop, hi]
    split
    · split
      · have henter : (enterStop sys fd ans.regs ts).tid = ts.tid := by
          unfold enterStop
          split
          · rfl
          · split <;> rfl
        exact ⟨(hset _ henter).1, (hset _ henter).2, rfl⟩
      · have hexit : (exitStop ts).tid = ts.tid := rfl
        exact ⟨(hset _ hexit).1, (hset _ hexit).2, rfl⟩
    · split
      · dsimp only
        split
        · cases ans.eventMsg with
          | none => exact ⟨hd, hheld, rfl⟩
          | some v => exact ⟨hd.findOrAddTid _, fun u hu => held_findOrAddTid (hheld u hu) _, rfl⟩
        · exact ⟨hd, hheld, rfl⟩
      · split
        · exact ⟨hd, hheld, rfl⟩
        · exact ⟨hd, hheld, rfl⟩
  · rw [heq] at hadd hheld
    simp only [onReport, heq, if_true]
    exact ⟨hadd, hheld, trivial⟩
  · rw [heq] at hroom
    exact absurd rfl hroom

/-- The child that a clone stop announces. -/
def announced (sig event : Nat) (ans : Answers) : Option Int :=
  if sig = sigtrap ∧ event = ptraceEventClone then ans.eventMsg.map toInt32 else none

/-- After a stop the table holds what it held, the thread that stopped, and the child it announces if it was
    in the table before. -/
theorem held_onReport_iff (sys : Sysno) (fd : Int) (maxCapture : Nat) {tids : List TidState} {t : Int}
    (hd : Distinct tids) (hroom : tids.length < maxTrackedTids) (sig event : Nat) (ans : Answers) (u : Int) :
    lookup (onReport sys fd maxCapture tids t (.stopped sig event) ans).tids u ≠ none ↔
      u = t ∨ lookup tids u ≠ none ∨ (lookup tids t ≠ none ∧ announced sig event ans = some u) := by
  rcases findOrAddTid_cases tids t with ⟨i, ts, heq, hi, hl⟩ | ⟨hl, -, heq⟩ | ⟨-, hfull, -⟩
  · have hself : u = t → lookup tids u ≠ none := by
      rintro rfl
      rw [hl]
      exact Option.some_ne_none _
    -- where the slot of the thread is written, or the table left as it is
    have hsame : announced sig event ans = none →
        (lookup tids u ≠ none ↔
          u = t ∨ lookup tids u ≠ none ∨ (lookup tids t ≠ none ∧ announced sig event ans = some u)) := by
      intro hnone
      rw [hnone]
      constructor
      · exact fun h => .inr (.inl h)
      · rintro (h | h | ⟨-, h⟩)
        · exact hself h
        · exact h
        · cases h
    have hset : ∀ ts', ts'.tid = ts.tid → (lookup (tids.set i ts') u ≠ none ↔ lookup tids u ≠ none) := by
      intro ts' ht'
      rw [lookup_set hd hi ht']
      split
      next hu =>
        rw [← lookup_tid hl] at hself
        exact iff_of_true (Option.some_ne_none _) (hself hu)
      · exact Iff.rfl
    simp only [onReport, heq, Bool.false_eq_true, if_false, onStop, hi]
    split
    next hsig =>
      have hnone : announced sig event ans = none := if_neg (by rw [hsig]; exact fun h => absurd h.1 (by decide))
      split
      · have henter : (enterStop sys fd ans.regs ts).tid = ts.tid := by
          unfold enterStop
          split
          · rfl
          · split <;> rfl
        exact (hset _ henter).trans (hsame hnone)
      · exact (hset (exitStop ts) rfl).trans (hsame hnone)
    · split
      next hsig =>
        dsimp only
        split
        next hev =>
          have hann : announced sig event ans = ans.eventMsg.map toInt32 := if_pos ⟨hsig, hev⟩
          cases hmsg : ans.eventMsg with
          | none => exact hsame (by rw [hann, hmsg]; rfl)
          | some v =>
              rw [hann, hmsg, Option.map_some, held_findOrAddTid_iff hroom]
              constructor
              · rintro (rfl | h)
                · exact .inr (.inr ⟨by rw [hl]; exact Option.some_ne_none _, rfl⟩)
                · exact .inr (.inl h)
              · rintro (h | h | ⟨-, h⟩)
                · exact .inr (hself h)
                · exact .inr h
                · exact .inl (Option.some.inj h).symm
        next hev => exact hsame (if_neg fun h => hev h.2)
      next hsig =>
        have hnone : announced sig event ans = none := if_neg fun h => hsig h.1
        split
        · exact hsame hnone
        · exact hsame hnone
  · have hadd := held_findOrAddTid_iff hroom t u
    rw [heq] at hadd
    simp only [onReport, heq, if_true]
    rw [hadd, hl]
    simp
  · omega

/-- The calls of a pass are about the thread that was reported. -/
theorem onReport_calls_tid (sys : Sysno) (fd : Int) (maxCapture : Nat) (tids : List TidState) (t : Int)
    (status : Status) (ans : Answers) :
    ∀ c ∈ (onReport sys fd maxCapture tids t status ans).calls, c.tid = t := by
  have hexit : ∀ ts, ∀ c ∈ exitCalls maxCapture ans t ts, c.tid = t := by
    intro ts c hc
    unfold exitCalls at hc
    split at hc
    · split at hc
      · cases hc
      · rw [List.mem_singleton.mp hc]
    · cases hc
  have hstop : ∀ tids i sig event, ∀ c ∈ (onStop sys fd maxCapture tids i t sig event ans).calls, c.tid = t := by
    intro tids i sig event c hc
    unfold onStop at hc
    split at hc
    · cases hc
    · split at hc
      · split at hc
        · cases hc
        · exact hexit _ c hc
      · split at hc
        · cases hc
        · split at hc <;> cases hc
  intro c hc
  unfold onReport at hc
  split at hc
  · cases hc
  · split at hc
    · cases hc
    · cases hc
    · cases hc
    · split at hc
      · cases hc
      · exact hstop _ _ _ _ c hc

end Tracer
end Hsed
