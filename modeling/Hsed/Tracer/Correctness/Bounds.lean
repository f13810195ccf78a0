import Hsed.Tracer.Correctness.Detach

/-!
# `Tracer.Correctness.Bounds` — what one call of `hsed_trace_fd` can use up

The arrays of the call are bounded (512 threads, `max_capture` bytes), and so are its loops other than the
wait loop: every step of the seize loop and of the detach loop uses up part of `work`, and only the one
pass of the wait loop that gives up adds to it. `calls_bounded` puts this together over whole runs of any
number of calls.
-/

namespace Hsed
namespace Tracer

open CLib

/-! ## The capture buffer -/

theorem length_captureSegments_le (mem : Memory) {maxCapture : Nat} (iovs : List (Nat × Nat)) :
    ∀ capture : Bytes, capture.length ≤ maxCapture → (captureSegments mem maxCapture iovs capture).length ≤ maxCapture := by
  induction iovs with
  | nil => exact fun capture h => h
  | cons iov iovs ih =>
      intro capture h
      simp only [captureSegments]
      split
      · split
        · exact ih capture h
        · -- a segment is read into the room that is left
          apply ih
          rw [List.length_append, List.length_take]
          omega
      · exact h

/-- **No capture overruns the buffer.** -/
theorem length_captured_le (mem : Memory) (maxCapture : Nat) (isWritev : Bool) (addr iovcnt : Nat) (ret : Int) :
    (captured mem maxCapture isWritev addr iovcnt ret).length ≤ maxCapture := by
  unfold captured
  split
  · split
    · unfold captureWritev
      split
      · exact Nat.zero_le _
      · dsimp only
        split
        · exact Nat.zero_le _
        · exact length_captureSegments_le mem _ [] (Nat.zero_le _)
    · dsimp only
      rw [List.length_take]
      split <;> omega
  · exact Nat.zero_le _

/-- A call of `write_cb` never hands over more than that. -/
theorem onReport_calls_length (sys : Sysno) (fd : Int) (maxCapture : Nat) (tids : List TidState) (t : Int)
    (status : Status) (ans : Answers) :
    ∀ w ∈ (onReport sys fd maxCapture tids t status ans).calls, w.buf.length ≤ maxCapture := by
  intro w hw
  unfold onReport at hw
  split at hw
  · cases hw
  · split at hw
    · cases hw
    · cases hw
    · cases hw
    · split at hw
      · cases hw
      · unfold onStop at hw
        split at hw
        · cases hw
        · split at hw
          · split at hw
            · cases hw
            · unfold exitCalls at hw
              split at hw
              · split at hw
                · cases hw
                · rw [List.mem_singleton.mp hw]
                  exact length_captured_le _ _ _ _ _ _
              · cases hw
          · split at hw
            · cases hw
            · split at hw <;> cases hw

/-! ## The table -/

theorem length_removeTid_le (tids : List TidState) (t : Int) : (removeTid tids t).length ≤ tids.length := by
  cases hs : slotOf tids t with
  | none => rw [removeTid, hs]
  | some i =>
      rw [(removeTid_perm hs).length_eq]
      exact List.length_eraseIdx_le _ _

theorem length_seizeTid_le {tids : List TidState} (h : tids.length ≤ maxTrackedTids) (t : Int) (resumed : Bool) :
    (seizeTid tids t resumed).length ≤ maxTrackedTids := by
  have hadd := length_findOrAddTid_le h t
  unfold seizeTid
  rcases hf : findOrAddTid tids t with ⟨tids', _ | slot⟩
  · rw [hf] at hadd
    exact hadd
  · rw [hf] at hadd
    dsimp only
    split
    · exact hadd
    · exact (length_removeTid_le tids' t).trans hadd

theorem length_onReport_le (sys : Sysno) (fd : Int) (maxCapture : Nat) {tids : List TidState}
    (h : tids.length ≤ maxTrackedTids) (t : Int) (status : Status) (ans : Answers) :
    (onReport sys fd maxCapture tids t status ans).tids.length ≤ maxTrackedTids := by
  have hadd := length_findOrAddTid_le h t
  unfold onReport
  rcases hf : findOrAddTid tids t with ⟨tids', _ | ⟨i, wasNew⟩⟩
  · rw [hf] at hadd
    exact hadd
  · rw [hf] at hadd
    have hgone := (length_removeTid_le tids' t).trans hadd
    cases status with
    | exited => exact hgone
    | signaled => exact hgone
    | continued => exact hadd
    | stopped sig event =>
        dsimp only
        split
        · exact hadd
        · unfold onStop
          split
          · exact hadd
          · split
            · split <;> rw [List.length_set] <;> exact hadd
            · split
              · dsimp only
                split
                · -- a clone announced by its parent
                  cases ans.eventMsg with
                  | none => exact hadd
                  | some u => exact length_findOrAddTid_le hadd _
                · exact hadd
              · split <;> exact hadd

/-! ## The steps outside the wait loop -/

/-- The steps a call can still take outside its wait loop, if it detaches from a full table. -/
def work : Pc → Nat
  | .discover => 4 * maxTrackedTids + 3 * maxTrackedTids + 4
  | .seize todo => 4 * todo.length + 3 * maxTrackedTids + 3
  | .interrupt _ todo => 4 * todo.length + 3 * maxTrackedTids + 6
  | .await _ todo => 4 * todo.length + 3 * maxTrackedTids + 5
  | .resume _ todo => 4 * todo.length + 3 * maxTrackedTids + 4
  | .attached => 3 * maxTrackedTids + 2
  | .loop => 3 * maxTrackedTids + 1
  | .detach todo => 3 * todo.length + 1
  | .reap _ todo => 3 * todo.length + 3
  | .drop _ todo => 3 * todo.length + 2
  | .returned => 0

section
variable {ι : Type} [DecidableEq ι]

/-- **Outside the wait loop** a step uses up work, keeps the table within its bounds and calls no `write_cb`. -/
theorem goNext_bounded {k : Threads ι} {i : ι} {tids : List TidState} {granted : Bool} {pc : Pc} {m : Moved ι}
    (h : goNext k i tids granted pc = some m) (hlen : tids.length ≤ maxTrackedTids) :
    work m.session.pc + 1 ≤ work pc ∧ m.session.tids.length ≤ maxTrackedTids ∧ ∀ x ∈ m.handled, x.calls = [] := by
  have hnone : ∀ x ∈ ([] : List (Handled ι)), x.calls = [] := List.forall_mem_nil _
  have hone : ∀ (t : Int) (tracer : Option ι), ∀ x ∈ [(⟨i, t, tracer, []⟩ : Handled ι)], x.calls = [] := by
    intro t tracer x hx
    rw [List.mem_singleton.mp hx]
  cases pc with
  | discover => cases h
  | loop => cases h
  | returned => cases h
  | seize todo =>
      cases todo with
      | nil => cases h; exact ⟨Nat.le_refl _, hlen, hnone⟩
      | cons t todo =>
          simp only [goNext] at h
          split at h <;> cases h
          · exact ⟨by simp only [work, List.length_cons]; omega, hlen, hnone⟩
          · exact ⟨by simp only [work, List.length_cons]; omega, hlen, hnone⟩
  | interrupt t todo =>
      simp only [goNext] at h
      split at h <;> cases h
      · exact ⟨Nat.le_refl _, hlen, hnone⟩
      · exact ⟨by simp only [work]; omega, hlen, hnone⟩
  | await t todo =>
      simp only [goNext] at h
      split at h
      · cases h
      · cases h
        exact ⟨by simp only [work]; omega, hlen, hnone⟩
      · split at h <;> cases h
        · exact ⟨Nat.le_refl _, hlen, hone _ _⟩
        · exact ⟨by simp only [work]; omega, hlen, hone _ _⟩
  | resume t todo =>
      simp only [goNext] at h
      split at h
      · cases h
        exact ⟨Nat.le_refl _, hlen, hnone⟩
      · split at h <;> cases h
        · -- the thread gets a slot, if there is one
          exact ⟨Nat.le_refl _, length_seizeTid_le hlen t true, hnone⟩
        · exact ⟨Nat.le_refl _, length_seizeTid_le hlen t false, hnone⟩
  | attached =>
      simp only [goNext] at h
      split at h
      · cases h
        exact ⟨by simp only [work]; omega, hlen, hnone⟩
      · split at h <;> cases h
        · exact ⟨Nat.le_refl _, hlen, hnone⟩
        · -- the table has 512 slots, which bounds the detach loop that starts
          exact ⟨by simp only [work, List.length_map]; omega, hlen, hnone⟩
  | detach todo =>
      cases todo with
      | nil => cases h; exact ⟨Nat.le_refl _, hlen, hnone⟩
      | cons t todo =>
          simp only [goNext] at h
          cases h
          refine ⟨?_, hlen, hnone⟩
          dsimp only
          split <;> simp only [work, List.length_cons] <;> omega
  | reap t todo =>
      simp only [goNext] at h
      split at h
      · cases h
      · cases h
        exact ⟨Nat.le_refl _, hlen, hnone⟩
      · cases h
        exact ⟨Nat.le_refl _, hlen, hone _ _⟩
  | drop t todo =>
      cases h
      exact ⟨Nat.le_refl _, hlen, hnone⟩

/-! ## All calls together -/

/-- A step of call `i` that is no pass of its wait loop. -/
def outside (i : ι) : Act ι → Bool
  | .session j (.go _) => j == i
  | .session j (.found _) => j == i
  | _ => false

/-- The arrays of every call are within their bounds. -/
structure Within (p : Params ι) (s : System ι) : Prop where
  tables : ∀ i, (s.sessions i).tids.length ≤ maxTrackedTids
  captures : ∀ x ∈ s.handled, ∀ w ∈ x.calls, w.buf.length ≤ p.maxCapture

theorem work_afterPass (returned : Bool) : work (if returned then .returned else .loop) ≤ work .loop := by
  cases returned with
  | true => exact Nat.zero_le _
  | false => exact Nat.le_refl _

/-- What a step of a call does to the call, whatever the step is. -/
theorem sessionNext_bounded {p : Params ι} {k : Threads ι} {i : ι} {s : Session} {c : Choice} {m : Moved ι}
    (h : sessionNext p k i s c = some m) (hlen : s.tids.length ≤ maxTrackedTids) :
    work m.session.pc + (if outside i (.session i c) then 1 else 0) ≤ work s.pc ∧
      m.session.tids.length ≤ maxTrackedTids ∧ ∀ x ∈ m.handled, ∀ w ∈ x.calls, w.buf.length ≤ p.maxCapture := by
  have hnone : ∀ x ∈ ([] : List (Handled ι)), ∀ w ∈ x.calls, w.buf.length ≤ p.maxCapture := List.forall_mem_nil _
  obtain ⟨pc, tids⟩ := s
  cases c with
  | go granted =>
      obtain ⟨hwork, htids, hcalls⟩ := goNext_bounded h hlen
      refine ⟨?_, htids, ?_⟩
      · rw [show outside i (.session i (.go granted)) = true from beq_self_eq_true i, if_pos rfl]
        exact hwork
      · intro x hx w hw
        rw [hcalls x hx] at hw
        cases hw
  | found found =>
      cases pc <;> try cases h
      rw [show outside i (.session i (.found found)) = true from beq_self_eq_true i, if_pos rfl]
      refine ⟨?_, hlen, hnone⟩
      -- `discovered` has room for 512 threads
      dsimp only
      split
      · simp only [work]; omega
      · have htake := List.length_take_le maxTrackedTids found
        simp only [work]
        omega
  | idle again =>
      cases pc <;> try cases h
      refine ⟨?_, hlen, hnone⟩
      show work (if again then .loop else .detach (tids.map (·.tid))) + 0 ≤ _
      split
      · exact Nat.le_refl _
      · simp only [work, List.length_map] at hlen ⊢
        omega
  | failed echild =>
      cases pc <;> try cases h
      refine ⟨?_, hlen, hnone⟩
      exact work_afterPass echild
  | report t mem =>
      cases pc <;> try cases h
      simp only [sessionNext, reportNext] at h
      split at h
      · cases h
        refine ⟨?_, length_onReport_le _ _ _ hlen _ _ _, ?_⟩
        · exact work_afterPass _
        · intro x hx w hw
          rw [List.mem_singleton.mp hx] at hw
          exact onReport_calls_length _ _ _ _ _ _ _ w hw
      · cases h

omit [DecidableEq ι] in
theorem within_start (p : Params ι) (alive : Int → Bool) : Within p (System.start alive) :=
  ⟨fun _ => Nat.zero_le _, List.forall_mem_nil _⟩

/-- **One step** of the system, seen by call `i`. -/
theorem step_bounded {p : Params ι} {s s' : System ι} {a : Act ι} (hin : Within p s) (hstep : step p s a s') (i : ι) :
    Within p s' ∧ work (s'.sessions i).pc + (if outside i a then 1 else 0) ≤ work (s.sessions i).pc := by
  obtain ⟨-, hnext⟩ := hstep
  cases a with
  | target a =>
      obtain ⟨k, -, rfl⟩ := Option.map_eq_some_iff.mp hnext
      exact ⟨⟨hin.tables, hin.captures⟩, Nat.le_refl _⟩
  | session j c =>
      obtain ⟨m, hm, rfl⟩ := Option.map_eq_some_iff.mp hnext
      obtain ⟨hwork, htids, hcalls⟩ := sessionNext_bounded hm (hin.tables j)
      refine ⟨⟨?_, ?_⟩, ?_⟩
      · intro i
        by_cases hij : i = j
        · rw [hij]
          simpa using htids
        · simpa [Function.update_of_ne hij] using hin.tables i
      · intro x hx
        rcases List.mem_append.mp hx with hx | hx
        · exact hin.captures x hx
        · exact hcalls x hx
      · by_cases hij : i = j
        · rw [hij]
          simpa using hwork
        · -- the step is another call's
          have hother : outside i (.session j c) = false := by
            cases c <;> simp [outside, Ne.symm hij]
          rw [hother]
          simp [Function.update_of_ne hij]

/-- The call waits in `waitpid` for a thread that has nothing to report. -/
def Waiting (s : System ι) (i : ι) : Prop :=
  ∃ t todo, ((s.sessions i).pc = .await t todo ∨ (s.sessions i).pc = .reap t todo) ∧
    waitTid s.threads i t = .blocks

/-- Where the steps outside the wait loop do not lead on. -/
theorem goNext_eq_none {k : Threads ι} {i : ι} {tids : List TidState} {granted : Bool} {pc : Pc}
    (h : goNext k i tids granted pc = none) :
    pc = .discover ∨ pc = .loop ∨ pc = .returned ∨
      ∃ t todo, (pc = .await t todo ∨ pc = .reap t todo) ∧ waitTid k i t = .blocks := by
  cases pc with
  | discover => exact .inl rfl
  | loop => exact .inr (.inl rfl)
  | returned => exact .inr (.inr (.inl rfl))
  | await t todo =>
      simp only [goNext] at h
      split at h
      · next hw => exact .inr (.inr (.inr ⟨t, todo, .inl rfl, hw⟩))
      · cases h
      · split at h <;> cases h
  | reap t todo =>
      simp only [goNext] at h
      split at h
      · next hw => exact .inr (.inr (.inr ⟨t, todo, .inr rfl, hw⟩))
      · cases h
      · cases h
  | seize todo =>
      cases todo with
      | nil => cases h
      | cons t todo =>
          simp only [goNext] at h
          split at h <;> cases h
  | interrupt t todo =>
      simp only [goNext] at h
      split at h <;> cases h
  | resume t todo =>
      simp only [goNext] at h
      split at h
      · cases h
      · split at h <;> cases h
  | attached =>
      simp only [goNext] at h
      split at h
      · cases h
      · split at h <;> cases h
  | detach todo =>
      cases todo with
      | nil => cases h
      | cons t todo => cases h
  | drop t todo => cases h

/-- The wait loop takes what a thread has to report. -/
theorem reportNext_of_reportable {k : Threads ι} {t : Int} {th : Thread ι} (ht : k t = some th) (hr : th.Reportable)
    (p : Params ι) (i : ι) (tids : List TidState) (mem : Memory) : ∃ m, reportNext p k i tids t mem = some m := by
  obtain ⟨tracer, state, fresh⟩ := th
  obtain ⟨htraced, hreport⟩ := hr
  obtain ⟨j, rfl⟩ := Option.ne_none_iff_exists'.mp htraced
  rw [reportNext, waitTid, ht]
  cases state with
  | running => exact absurd rfl hreport
  | zombie killed => exact ⟨_, rfl⟩
  | stopped ev seen =>
      cases seen with
      | none => exact ⟨_, rfl⟩
      | some j' => exact absurd rfl hreport

/-- A call can move on, and not for want of an answer of `waitpid`. -/
def CanMove (p : Params ι) (s : System ι) (i : ι) : Prop :=
  ∃ c s', (∀ echild, c ≠ .failed echild) ∧ step p s (.session i c) s'

/-- Nothing but a `waitpid` holds a call up. -/
theorem waiting_or_moves (p : Params ι) (s : System ι) {i : ι} (h : (s.sessions i).pc ≠ .returned) :
    Waiting s i ∨ CanMove p s i := by
  have hmove : ∀ {c : Choice} {m : Moved ι}, (∀ echild, c ≠ .failed echild) → Enabled s (.session i c) →
      sessionNext p s.threads i (s.sessions i) c = some m → CanMove p s i := by
    intro c m hc hen hm
    refine ⟨c, ⟨m.threads, Function.update s.sessions i m.session, s.handled ++ m.handled⟩, hc, hen, ?_⟩
    rw [next, hm]
    rfl
  cases hgo : goNext s.threads i (s.sessions i).tids true (s.sessions i).pc with
  | some m => exact .inr (@hmove (.go true) m (fun _ hc => by cases hc) trivial hgo)
  | none =>
      rcases goNext_eq_none hgo with hpc | hpc | hpc | ⟨t, todo, hpc, hw⟩
      · refine .inr (@hmove (.found []) ⟨s.threads, ⟨.returned, (s.sessions i).tids⟩, []⟩ (fun _ hc => by cases hc)
          trivial ?_)
        rw [sessionNext, hpc]
        rfl
      · -- the wait loop takes a report, or polls
        by_cases hany : ∃ t th, s.threads t = some th ∧ th.Reportable
        · obtain ⟨t, th, ht, hr⟩ := hany
          obtain ⟨m, hm⟩ := reportNext_of_reportable ht hr p i (s.sessions i).tids fun _ _ => none
          refine .inr (@hmove (.report t fun _ _ => none) m (fun _ hc => by cases hc) trivial ?_)
          rw [sessionNext, hpc]
          exact hm
        · have hquiet : Enabled s (.session i (.idle true)) := fun t th ht hr => hany ⟨t, th, ht, hr⟩
          refine .inr (@hmove (.idle true) ⟨s.threads, ⟨.loop, (s.sessions i).tids⟩, []⟩ (fun _ hc => by cases hc)
            hquiet ?_)
          rw [sessionNext, hpc]
          rfl
      · exact absurd hpc h
      · exact .inl ⟨t, todo, hpc, hw⟩

/-- **Setting up and tearing down end.** In every run of any number of calls beside their targets, each call
    takes at most 3588 steps outside its wait loop, whatever threads come, go or refuse; its table never
    exceeds 512 slots and no capture `max_capture` bytes; and while it has not returned, the only thing that
    can hold it up is a `waitpid` for a thread with nothing to report: in the wait loop there is a report to take,
    or `waitpid` answers that there is none. -/
theorem calls_bounded (p : Params ι) (alive : Int → Bool) (acts : List (Act ι)) (s : System ι)
    (hrun : Lts.Run (step p) (System.start alive) acts s) (i : ι) :
    (acts.filter (outside i)).length + work (s.sessions i).pc ≤ 3588 ∧
      (s.sessions i).tids.length ≤ maxTrackedTids ∧
      (∀ x ∈ s.handled, ∀ w ∈ x.calls, w.buf.length ≤ p.maxCapture) ∧
      ((s.sessions i).pc ≠ .returned → Waiting s i ∨ CanMove p s i) := by
  have hinv : Within p s ∧ (acts.filter (outside i)).length + work (s.sessions i).pc ≤ 3588 := by
    induction hrun with
    | nil => exact ⟨within_start p alive, Nat.le_refl _⟩
    | @snoc acts s s' a _ hstep ih =>
        obtain ⟨hin, hwork⟩ := step_bounded ih.1 hstep i
        refine ⟨hin, ?_⟩
        have hbefore := ih.2
        rw [List.filter_append, List.length_append, List.filter_singleton]
        cases hout : outside i a with
        | true =>
            rw [hout, if_pos rfl] at hwork
            rw [cond_true, List.length_singleton]
            omega
        | false =>
            rw [hout, if_neg Bool.false_ne_true] at hwork
            rw [cond_false, List.length_nil]
            omega
  exact ⟨hinv.2, hinv.1.tables i, hinv.1.captures, waiting_or_moves p s⟩

end

/-- The call that attaches to thread 7 and waits. -/
theorem calls_bounded_one_thread :
    ∃ s, Lts.Run (step oneStream) oneThread attachSeven s ∧ (s.sessions ()).pc = .loop ∧
      (attachSeven.filter (outside ())).length + work (s.sessions ()).pc ≤ 3588 ∧
      (s.sessions ()).tids.length ≤ maxTrackedTids := by
  obtain ⟨s, hrun, hpc⟩ : ∃ s, Lts.Run (step oneStream) oneThread attachSeven s ∧ (s.sessions ()).pc = .loop :=
    ⟨_, (run_outsideLoop rfl rfl).of_guarded, rfl⟩
  obtain ⟨hwork, hlen, -⟩ := calls_bounded oneStream _ _ _ hrun ()
  exact ⟨s, hrun, hpc, hwork, hlen⟩

end Tracer
end Hsed
