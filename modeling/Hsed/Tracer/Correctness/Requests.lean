import Hsed.Tracer.Session
import Hsed.Tracer.Correctness.Pass

/-!
# `Tracer.Correctness.Requests` — what each system call can do to the threads

One inversion lemma a call: which thread it needed, in which state, and the one entry it changes. The
results about sessions use these and never unfold a call.
-/

namespace Hsed
namespace Tracer

section
variable {ι : Type} {k k' : Threads ι} {i : ι} {t : Int}

theorem ptraceSeize_eq_some (h : ptraceSeize k i t = some k') :
    ∃ fresh, k t = some ⟨none, .running, fresh⟩ ∧
      k' = Function.update k t (some ⟨some i, .running, false⟩) := by
  unfold ptraceSeize at h
  split at h
  next fresh hk =>
      cases h
      exact ⟨fresh, hk, rfl⟩
  next => cases h

/-- What `waitpid` reports: a stop not yet seen, or a death, of a tracee of some session. -/
theorem waitTid_eq_got {ev : Event} {tracer : Option ι} (h : waitTid k i t = .got ev tracer k') :
    ∃ j fresh, tracer = some j ∧
      ((∃ stop : StopEvent, ev = stop.val ∧ k t = some ⟨some j, .stopped stop none, fresh⟩ ∧
          k' = Function.update k t (some ⟨some j, .stopped stop (some i), false⟩)) ∨
        ∃ killed, ev = .gone killed ∧ k t = some ⟨some j, .zombie killed, fresh⟩ ∧
          k' = Function.update k t none) := by
  unfold waitTid at h
  split at h
  next j stop fresh hk =>
      cases h
      exact ⟨j, fresh, rfl, .inl ⟨stop, rfl, hk, rfl⟩⟩
  next j killed fresh hk =>
      cases h
      exact ⟨j, fresh, rfl, .inr ⟨killed, rfl, hk, rfl⟩⟩
  next => cases h
  next => cases h

/-- `waitpid` fails only on a thread nobody in the daemon traces. -/
theorem waitTid_eq_error (h : waitTid k i t = .error) {th : Thread ι} (hk : k t = some th) :
    th.tracer = none := by
  obtain ⟨tracer, state, fresh⟩ := th
  cases tracer with
  | none => rfl
  | some j =>
      unfold waitTid at h
      rw [hk] at h
      cases state with
      | running => cases h
      | zombie killed => cases h
      | stopped ev seen => cases seen <;> cases h

variable [DecidableEq ι]

theorem ptraceResume_eq_some (h : ptraceResume k i t = some k') :
    ∃ ev seen fresh, k t = some ⟨some i, .stopped ev seen, fresh⟩ ∧
      k' = Function.update k t (some ⟨some i, .running, fresh⟩) := by
  unfold ptraceResume at h
  split at h
  next tracer ev seen fresh hk =>
      split at h
      next htr =>
          cases h
          rw [htr] at hk
          exact ⟨ev, seen, fresh, hk, rfl⟩
      next => cases h
  next => cases h

/-- A request to resume fails only on a thread that is not a stopped tracee of the caller. -/
theorem ptraceResume_eq_none (h : ptraceResume k i t = none) (ev : StopEvent) (seen : Option ι) (fresh : Bool) :
    k t ≠ some ⟨some i, .stopped ev seen, fresh⟩ := by
  intro hk
  simp [ptraceResume, hk] at h

/-- `PTRACE_DETACH` either frees a stopped tracee of the caller or changes nothing. -/
theorem tryDetach_cases (k : Threads ι) (i : ι) (t : Int) :
    (∃ ev seen fresh, k t = some ⟨some i, .stopped ev seen, fresh⟩ ∧
      tryDetach k i t = Function.update k t (some ⟨none, .running, false⟩)) ∨
    ((∀ ev seen fresh, k t ≠ some ⟨some i, .stopped ev seen, fresh⟩) ∧ tryDetach k i t = k) := by
  unfold tryDetach ptraceDetach
  split
  next tracer ev seen fresh hk =>
      by_cases htr : tracer = some i
      · left
        refine ⟨ev, seen, fresh, by rw [hk, htr], ?_⟩
        rw [if_pos htr]
        rfl
      · right
        refine ⟨?_, by rw [if_neg htr]; rfl⟩
        intro ev' seen' fresh' hk'
        rw [hk] at hk'
        cases hk'
        exact htr rfl
  next hno =>
      right
      exact ⟨fun ev seen fresh hk => hno (some i) ev seen fresh hk, rfl⟩

theorem ptraceInterrupt_eq_true : ptraceInterrupt k i t = true ↔
    ∃ th, k t = some th ∧ th.live = true ∧ th.tracer = some i := by
  unfold ptraceInterrupt attached
  cases k t with
  | none => simp
  | some th => simp

end

/-- What a target does. -/
theorem kernelNext_cases {ι : Type} {k k' : Threads ι} {a : KernelAct} (h : kernelNext k a = some k') :
    (∃ t, k t = none ∧ k' = Function.update k t (some ⟨none, .running, false⟩)) ∨
    (∃ t ev i fresh, k t = some ⟨some i, .running, fresh⟩ ∧
      k' = Function.update k t (some ⟨some i, .stopped ev none, fresh⟩)) ∨
    (∃ t u ev i fresh, a = .clone t u ∧ k t = some ⟨some i, .running, fresh⟩ ∧ k u = none ∧
      k' = Function.update (Function.update k u (some ⟨some i, .running, true⟩)) t
        (some ⟨some i, .stopped ev none, fresh⟩)) ∨
    (∃ t th, k t = some th ∧
      ((th.tracer = none ∧ k' = Function.update k t none) ∨
        ∃ i killed, th.tracer = some i ∧ k' = Function.update k t (some ⟨some i, .zombie killed, th.fresh⟩))) := by
  cases a with
  | spawn t =>
      simp only [kernelNext] at h
      split at h
      next hk =>
          cases h
          exact .inl ⟨t, hk, rfl⟩
      next => cases h
  | stop t ev =>
      simp only [kernelNext] at h
      split at h
      next i fresh hk =>
          cases h
          exact .inr (.inl ⟨t, ev, i, fresh, hk, rfl⟩)
      next => cases h
  | clone t u =>
      simp only [kernelNext] at h
      split at h
      next i fresh hk hu =>
          cases h
          exact .inr (.inr (.inl ⟨t, u, _, i, fresh, rfl, hk, hu, rfl⟩))
      next => cases h
  | die t killed =>
      simp only [kernelNext] at h
      split at h
      next => cases h
      next th hk =>
          split at h
          next =>
              split at h
              -- untraced: it is gone at once
              next htr =>
                  cases h
                  exact .inr (.inr (.inr ⟨t, th, hk, .inl ⟨htr, rfl⟩⟩))
              -- traced: it stays until its tracer has been told
              next i htr =>
                  cases h
                  exact .inr (.inr (.inr ⟨t, th, hk, .inr ⟨i, killed, htr, rfl⟩⟩))
          next => cases h

end Tracer
end Hsed
