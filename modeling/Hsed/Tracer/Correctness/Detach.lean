import Hsed.Tracer.Correctness.Isolation

/-!
# `Tracer.Correctness.Detach` — when `hsed_trace_fd` returns with nothing left attached

One call of `hsed_trace_fd` (`ι` is `Unit`) beside its target. Threads are attached by the call and, through
`PTRACE_O_TRACECLONE`, by the kernel; the detach loop goes through the table. So what counts is that the
table has every attached thread when the loop ends, and that none is added after (`Announced`).

`Covered` says at each point of the call where an attached thread is accounted for: in the table or still
unannounced while the call seizes and waits, among the threads to go while it detaches, nowhere once it has
returned. Every step keeps it in a run that meets `Announced` (`detachInv_step`), and at a return it is the
result: `returned_detached`.
-/

namespace Hsed
namespace Tracer

section
variable {k k' : Threads Unit} {t u : Int} {th : Thread Unit}

/-- A live tracee of the call. -/
structure Attached (k : Threads Unit) (t : Int) (th : Thread Unit) : Prop where
  here : k t = some th
  live : th.live = true
  tracer : th.tracer = some ()

def Thread.InStop (th : Thread Unit) : Prop := ∃ ev seen, th.state = .stopped ev seen

/-- Where an attached thread is accounted for. -/
def Covered (s : Session) (t : Int) (th : Thread Unit) : Prop :=
  let inTable := lookup s.tids t ≠ none ∨ th.fresh = true
  match s.pc with
  | .discover => False
  | .seize _ => inTable
  | .interrupt u _ => t = u ∨ inTable
  | .await u _ => t = u ∨ inTable
  | .resume u _ => (t = u → th.InStop) ∧ (t ≠ u → inTable)
  | .attached => inTable
  | .loop => inTable
  | .detach todo => t ∈ todo
  | .reap u todo => t = u ∨ t ∈ todo
  | .drop u todo => (t = u → th.InStop) ∧ (t ≠ u → t ∈ todo)
  | .returned => False

/-- It matters only whether nothing was reported about the thread, and whether it is in a stop. -/
theorem Covered.mono {s : Session} {th' : Thread Unit} (h : Covered s t th) (hfresh : th'.fresh = th.fresh)
    (hstop : th.InStop → th'.InStop) : Covered s t th' := by
  unfold Covered at h ⊢
  rw [hfresh]
  cases hpc : s.pc with
  | resume u todo =>
      rw [hpc] at h
      exact ⟨fun htu => hstop (h.1 htu), h.2⟩
  | drop u todo =>
      rw [hpc] at h
      exact ⟨fun htu => hstop (h.1 htu), h.2⟩
  | _ => rw [hpc] at h; exact h

/-! ## Attached threads after a system call -/

theorem Attached.of_update {v : Option (Thread Unit)} (h : Attached (Function.update k u v) t th) :
    (t = u ∧ v = some th) ∨ (t ≠ u ∧ Attached k t th) := by
  obtain ⟨hk, hlive, htr⟩ := h
  by_cases htu : t = u
  · subst htu
    rw [Function.update_self] at hk
    exact .inl ⟨rfl, hk⟩
  · rw [Function.update_of_ne htu] at hk
    exact .inr ⟨htu, hk, hlive, htr⟩

theorem kernelNext_attached {a : KernelAct} (h : kernelNext k a = some k') (hatt : Attached k' t th) :
    (∃ th₀, Attached k t th₀ ∧ th.fresh = th₀.fresh ∧ (th₀.InStop → th.InStop)) ∨
      ∃ u th₀, a = .clone u t ∧ Attached k u th₀ ∧ k t = none ∧ th.fresh = true := by
  have hsame : Attached k t th → ∃ th₀, Attached k t th₀ ∧ th.fresh = th₀.fresh ∧ (th₀.InStop → th.InStop) :=
    fun h => ⟨th, h, rfl, fun hs => hs⟩
  rcases kernelNext_cases h with ⟨u, hk, rfl⟩ | ⟨u, ev, i, fresh, hk, rfl⟩ |
    ⟨u, c, ev, i, fresh, rfl, hk, hc, rfl⟩ | ⟨u, th', hk, ⟨-, rfl⟩ | ⟨i, killed, -, rfl⟩⟩
  · rcases hatt.of_update with ⟨-, hv⟩ | ⟨-, hold⟩
    · cases hv; cases hatt.tracer
    · exact .inl (hsame hold)
  · rcases hatt.of_update with ⟨rfl, hv⟩ | ⟨-, hold⟩
    · cases hv
      exact .inl ⟨_, ⟨hk, rfl, rfl⟩, rfl, fun _ => ⟨ev, none, rfl⟩⟩
    · exact .inl (hsame hold)
  · -- a clone: the parent is in a stop, the child is new
    rcases hatt.of_update with ⟨rfl, hv⟩ | ⟨-, hatt'⟩
    · cases hv
      exact .inl ⟨_, ⟨hk, rfl, rfl⟩, rfl, fun _ => ⟨ev, none, rfl⟩⟩
    · rcases hatt'.of_update with ⟨rfl, hv⟩ | ⟨-, hold⟩
      · cases hv
        exact .inr ⟨u, _, rfl, ⟨hk, rfl, rfl⟩, hc, rfl⟩
      · exact .inl (hsame hold)
  · rcases hatt.of_update with ⟨-, hv⟩ | ⟨-, hold⟩
    · cases hv
    · exact .inl (hsame hold)
  · rcases hatt.of_update with ⟨-, hv⟩ | ⟨-, hold⟩
    · cases hv; cases hatt.live
    · exact .inl (hsame hold)

/-- `PTRACE_DETACH` leaves a thread attached only where it was not in a stop. -/
theorem Attached.of_tryDetach (h : Attached (tryDetach k () u) t th) :
    Attached k t th ∧ (t = u → ¬ th.InStop) := by
  rcases tryDetach_cases k () u with ⟨ev, seen, fresh, hk, heq⟩ | ⟨hno, heq⟩
  · rw [heq] at h
    rcases h.of_update with ⟨-, hv⟩ | ⟨htu, hold⟩
    · cases hv; cases h.tracer
    · exact ⟨hold, fun heq => absurd heq htu⟩
  · rw [heq] at h
    refine ⟨h, ?_⟩
    rintro rfl ⟨ev, seen, hst⟩
    obtain ⟨⟨tracer, state, fresh⟩⟩ := th, h
    obtain ⟨hk, -, htr⟩ := h
    cases hst
    cases htr
    exact hno ev seen fresh hk

theorem Attached.not_of_resume_none (h : ptraceResume k () u = none) (hatt : Attached k u th) : ¬ th.InStop := by
  rintro ⟨ev, seen, hst⟩
  obtain ⟨tracer, state, fresh⟩ := th
  obtain ⟨hk, -, htr⟩ := hatt
  cases hst
  cases htr
  exact ptraceResume_eq_none h ev seen fresh hk

theorem not_attached_of_interrupt (h : ptraceInterrupt k () u = false) : ¬ Attached k u th := by
  intro hatt
  have htrue : ptraceInterrupt k () u = true := ptraceInterrupt_eq_true.mpr ⟨th, hatt.here, hatt.live, hatt.tracer⟩
  rw [h] at htrue
  cases htrue

/-- After `waitpid` has spoken about `u`, the thread is in a stop it has been reported for, or not
    attached. -/
theorem Attached.of_waitTid {ev : Event} {tracer : Option Unit} (h : waitTid k () u = .got ev tracer k')
    (hatt : Attached k' t th) : (t = u ∧ th.InStop ∧ ev.isStop = true) ∨ (t ≠ u ∧ Attached k t th) := by
  obtain ⟨j, fresh, -, ⟨stop, rfl, hk, rfl⟩ | ⟨killed, -, hk, rfl⟩⟩ := waitTid_eq_got h
  · rcases hatt.of_update with ⟨rfl, hv⟩ | hold
    · cases hv
      exact .inl ⟨rfl, ⟨stop, some (), rfl⟩, stop.property⟩
    · exact .inr hold
  · rcases hatt.of_update with ⟨-, hv⟩ | hold
    · cases hv
    · exact .inr hold

theorem not_attached_of_error (h : waitTid k () u = .error) : ¬ Attached k u th := by
  intro hatt
  have htr := waitTid_eq_error h hatt.here
  rw [hatt.tracer] at htr
  cases htr

/-! ## Only tracees are in ptrace stops -/

def StopsOk (k : Threads Unit) : Prop := ∀ t th, k t = some th → th.InStop → th.tracer = some ()

theorem StopsOk.update (h : StopsOk k) {v : Option (Thread Unit)}
    (hv : ∀ th, v = some th → th.InStop → th.tracer = some ()) : StopsOk (Function.update k u v) := by
  intro t th hk hst
  by_cases htu : t = u
  · rw [htu, Function.update_self] at hk
    exact hv th hk hst
  · rw [Function.update_of_ne htu] at hk
    exact h t th hk hst

theorem StopsOk.kernelNext {a : KernelAct} (h : StopsOk k) (hnext : kernelNext k a = some k') : StopsOk k' := by
  rcases kernelNext_cases hnext with ⟨u, -, rfl⟩ | ⟨u, ev, i, fresh, -, rfl⟩ |
    ⟨u, c, ev, i, fresh, -, -, -, rfl⟩ | ⟨u, th', -, ⟨-, rfl⟩ | ⟨i, killed, -, rfl⟩⟩
  · exact h.update (by rintro th ⟨⟩ ⟨_, _, ⟨⟩⟩)
  · exact h.update (by rintro th ⟨⟩ -; rfl)
  · exact (h.update (by rintro th ⟨⟩ -; rfl)).update (by rintro th ⟨⟩ -; rfl)
  · exact h.update (by rintro th ⟨⟩)
  · exact h.update (by rintro th ⟨⟩ -; rfl)

theorem StopsOk.tryDetach (h : StopsOk k) (u : Int) : StopsOk (tryDetach k () u) := by
  rcases tryDetach_cases k () u with ⟨ev, seen, fresh, -, heq⟩ | ⟨-, heq⟩
  · rw [heq]; exact h.update (by rintro th ⟨⟩ ⟨_, _, ⟨⟩⟩)
  · rw [heq]; exact h

theorem StopsOk.ptraceResume (h : StopsOk k) (hres : ptraceResume k () u = some k') : StopsOk k' := by
  obtain ⟨ev, seen, fresh, -, rfl⟩ := ptraceResume_eq_some hres
  exact h.update (by rintro th ⟨⟩ -; rfl)

theorem StopsOk.waitTid {ev : Event} {tracer : Option Unit} (h : StopsOk k)
    (hwait : waitTid k () u = .got ev tracer k') : StopsOk k' := by
  obtain ⟨j, fresh, -, ⟨stop, -, -, rfl⟩ | ⟨killed, -, -, rfl⟩⟩ := waitTid_eq_got hwait
  · exact h.update (by rintro th ⟨⟩ -; rfl)
  · exact h.update (by rintro th ⟨⟩)

/-! ## The steps outside the wait loop -/

structure DetachInv (k : Threads Unit) (s : Session) : Prop where
  cover : ∀ t th, Attached k t th → Covered s t th
  stops : StopsOk k
  distinct : Distinct s.tids
  /-- Between its stop and its resumption, nobody else can take the tid. -/
  resuming : ∀ u todo, s.pc = .resume u todo → TracedBy k () u

/-- Every attached thread that nothing was reported about is in the table. -/
def AllAnnounced (k : Threads Unit) (tids : List TidState) : Prop :=
  ∀ t th, Attached k t th → th.fresh = true → lookup tids t ≠ none

theorem mem_map_tid {tids : List TidState} (h : lookup tids t ≠ none) : t ∈ tids.map (·.tid) := by
  obtain ⟨ts, hts⟩ := Option.ne_none_iff_exists'.mp h
  exact List.mem_map.mpr ⟨ts, List.mem_of_find?_eq_some hts, lookup_tid hts⟩

/-- Entering the detach loop with everything announced. -/
theorem cover_detach {tids : List TidState} (hann : AllAnnounced k tids)
    (hcover : Attached k t th → lookup tids t ≠ none ∨ th.fresh = true) (hatt : Attached k t th) :
    t ∈ tids.map (·.tid) := by
  apply mem_map_tid
  rcases hcover hatt with h | h
  · exact h
  · exact hann t th hatt h

theorem lookup_seizeTid_of_ne {tids : List TidState} (hd : Distinct tids) {resumed : Bool} (htu : t ≠ u) :
    lookup (seizeTid tids u resumed) t = lookup tids t := by
  rcases lookup_seizeTid hd u resumed t with h | ⟨h, -⟩
  · exact h
  · exact absurd h htu

theorem lookup_seizeTid_resumed {tids : List TidState} (hroom : (findOrAddTid tids u).2 ≠ none) :
    lookup (seizeTid tids u true) u ≠ none := by
  have hself := lookup_self_findOrAddTid hroom
  rw [seizeTid]
  rcases hf : findOrAddTid tids u with ⟨tids', _ | slot⟩
  · rw [hf] at hroom; exact absurd rfl hroom
  · rw [hf] at hself; exact hself

section
variable {tids : List TidState} {granted : Bool} {todo : List Int} {m : Moved Unit}

theorem seize_detachInv (hinv : DetachInv k ⟨.seize (u :: todo), tids⟩)
    (h : goNext k () tids granted (.seize (u :: todo)) = some m) : DetachInv m.threads m.session := by
  obtain ⟨hcover, hstops, hd, -⟩ := hinv
  simp only [goNext] at h
  split at h
  · cases h
    exact ⟨hcover, hstops, hd, by simp⟩
  next k₁ hk₁ =>
    cases h
    cases granted with
    | false => cases hk₁
    | true =>
        obtain ⟨fresh, hk, rfl⟩ := ptraceSeize_eq_some hk₁
        refine ⟨?_, hstops.update (by rintro th ⟨⟩ -; rfl), hd, by simp⟩
        intro t th hatt
        rcases hatt.of_update with ⟨rfl, -⟩ | ⟨-, hold⟩
        · exact .inl rfl
        · exact .inr (hcover t th hold)

/-- `PTRACE_DETACH` on a thread the call has failed to take: it is not attached anyway. -/
theorem giveUp_detachInv (hstops : StopsOk k) (hd : Distinct tids) (hnot : ∀ th, ¬ Attached k u th)
    (hcover : ∀ t th, Attached k t th → t = u ∨ lookup tids t ≠ none ∨ th.fresh = true) :
    DetachInv (tryDetach k () u) ⟨.seize todo, tids⟩ := by
  refine ⟨?_, hstops.tryDetach u, hd, by simp⟩
  intro t th hatt
  have hold := hatt.of_tryDetach.1
  rcases hcover t th hold with rfl | hin
  · exact absurd hold (hnot th)
  · exact hin

theorem interrupt_detachInv (hinv : DetachInv k ⟨.interrupt u todo, tids⟩)
    (h : goNext k () tids granted (.interrupt u todo) = some m) : DetachInv m.threads m.session := by
  simp only [goNext] at h
  split at h
  · cases h
    exact ⟨hinv.cover, hinv.stops, hinv.distinct, by simp⟩
  next hint =>
    cases h
    have hnot : ∀ th, ¬ Attached k u th := fun th => not_attached_of_interrupt (by simpa using hint)
    exact giveUp_detachInv hinv.stops hinv.distinct hnot hinv.cover

theorem await_detachInv (hinv : DetachInv k ⟨.await u todo, tids⟩)
    (h : goNext k () tids granted (.await u todo) = some m) : DetachInv m.threads m.session := by
  simp only [goNext] at h
  split at h
  · cases h
  next herr =>
    cases h
    exact giveUp_detachInv hinv.stops hinv.distinct (fun th => not_attached_of_error herr) hinv.cover
  next ev tracer k₁ hwait =>
    have hstops₁ := hinv.stops.waitTid hwait
    have hcover₁ : ∀ t th, Attached k₁ t th → t = u ∨ lookup tids t ≠ none ∨ th.fresh = true := by
      intro t th hatt
      rcases hatt.of_waitTid hwait with ⟨htu, -⟩ | ⟨-, hold⟩
      · exact .inl htu
      · exact hinv.cover t th hold
    split at h
    next hstop =>
      cases h
      refine ⟨?_, hstops₁, hinv.distinct, ?_⟩
      · intro t th hatt
        rcases hatt.of_waitTid hwait with ⟨htu, hst, -⟩ | ⟨htu, -⟩
        · exact ⟨fun _ => hst, fun hne => absurd htu hne⟩
        · refine ⟨fun heq => absurd heq htu, fun _ => ?_⟩
          exact (hcover₁ t th hatt).resolve_left htu
      · intro u' todo' hpc
        cases hpc
        -- the thread is there: it has just been reported as stopped
        obtain ⟨j, fresh, -, ⟨stop, -, -, rfl⟩ | ⟨killed, rfl, -, -⟩⟩ := waitTid_eq_got hwait
        · exact ⟨_, Function.update_self _ _ _, rfl⟩
        · cases hstop
    next hstop =>
      cases h
      refine giveUp_detachInv hstops₁ hinv.distinct ?_ hcover₁
      intro th hatt
      rcases hatt.of_waitTid hwait with ⟨-, -, hev⟩ | ⟨hne, -⟩
      · exact hstop hev
      · exact hne rfl

theorem resume_detachInv (hinv : DetachInv k ⟨.resume u todo, tids⟩)
    (h : goNext k () tids granted (.resume u todo) = some m) : DetachInv m.threads m.session := by
  obtain ⟨hcover, hstops, hd, -⟩ := hinv
  have hothers : ∀ resumed t th, Attached k t th → t ≠ u →
      lookup (seizeTid tids u resumed) t ≠ none ∨ th.fresh = true := by
    intro resumed t th hatt htu
    rw [lookup_seizeTid_of_ne hd htu]
    exact (hcover t th hatt).2 htu
  simp only [goNext] at h
  split at h
  · -- no room in the table: the thread is let go
    cases h
    refine ⟨?_, hstops.tryDetach u, hd, by simp⟩
    intro t th hatt
    obtain ⟨hold, hnot⟩ := hatt.of_tryDetach
    by_cases htu : t = u
    · exact absurd ((hcover t th hold).1 htu) (hnot htu)
    · exact (hcover t th hold).2 htu
  next slot hslot =>
    have hroom : (findOrAddTid tids u).2 ≠ none := by rw [hslot]; simp
    split at h
    -- it runs now, and its slot says so
    next k₁ hk₁ =>
      cases h
      refine ⟨?_, hstops.ptraceResume hk₁, hd.seizeTid u true, by simp⟩
      obtain ⟨ev, seen, fresh, hk, rfl⟩ := ptraceResume_eq_some hk₁
      intro t th hatt
      rcases hatt.of_update with ⟨rfl, -⟩ | ⟨htu, hold⟩
      · exact .inl (lookup_seizeTid_resumed hroom)
      · exact hothers true t th hold htu
    -- it is gone already, or the request fails: a live tracee in a stop would have been resumed
    next hk₁ =>
      cases h
      refine ⟨?_, hstops.tryDetach u, hd.seizeTid u false, by simp⟩
      intro t th hatt
      have hold := hatt.of_tryDetach.1
      by_cases htu : t = u
      · subst htu
        exact absurd ((hcover t th hold).1 rfl) (hold.not_of_resume_none hk₁)
      · exact hothers false t th hold htu

theorem attached_detachInv (hinv : DetachInv k ⟨.attached, tids⟩)
    (hann : tids = [] ∨ granted = false → AllAnnounced k tids)
    (h : goNext k () tids granted .attached = some m) : DetachInv m.threads m.session := by
  obtain ⟨hcover, hstops, hd, -⟩ := hinv
  simp only [goNext] at h
  split at h
  next hemp =>
    cases h
    have hnil : tids = [] := by simpa using hemp
    refine ⟨?_, hstops, hd, by simp⟩
    intro t th hatt
    have hmem := cover_detach (hann (.inl hnil)) (hcover t th) hatt
    rw [hnil] at hmem
    cases hmem
  next hne =>
    split at h
    · cases h
      exact ⟨hcover, hstops, hd, by simp⟩
    next hg =>
      cases h
      have hg' : granted = false := by simpa using hg
      exact ⟨fun t th hatt => cover_detach (hann (.inr hg')) (hcover t th) hatt, hstops, hd, by simp⟩

theorem detach_detachInv (hinv : DetachInv k ⟨.detach (u :: todo), tids⟩)
    (h : goNext k () tids granted (.detach (u :: todo)) = some m) : DetachInv m.threads m.session := by
  obtain ⟨hcover, hstops, hd, -⟩ := hinv
  simp only [goNext, Option.some.injEq] at h
  subst h
  by_cases hint : ptraceInterrupt k () u = true
  · simp only [hint, if_true]
    exact ⟨fun t th hatt => List.mem_cons.mp (hcover t th hatt), hstops, hd, by simp⟩
  · have hnot : ∀ th, ¬ Attached k u th := fun th => not_attached_of_interrupt (by simpa using hint)
    simp only [hint]
    refine ⟨?_, hstops, hd, by simp⟩
    intro t th hatt
    have htu : t ≠ u := by rintro rfl; exact hnot th hatt
    exact ⟨fun heq => absurd heq htu, fun _ => (List.mem_cons.mp (hcover t th hatt)).resolve_left htu⟩

theorem reap_detachInv (hinv : DetachInv k ⟨.reap u todo, tids⟩)
    (h : goNext k () tids granted (.reap u todo) = some m) : DetachInv m.threads m.session := by
  obtain ⟨hcover, hstops, hd, -⟩ := hinv
  simp only [goNext] at h
  split at h
  · cases h
  next herr =>
    cases h
    refine ⟨?_, hstops, hd, by simp⟩
    intro t th hatt
    have htu : t ≠ u := by rintro rfl; exact not_attached_of_error herr hatt
    exact ⟨fun heq => absurd heq htu, fun _ => (hcover t th hatt).resolve_left htu⟩
  next ev tracer k₁ hwait =>
    cases h
    refine ⟨?_, hstops.waitTid hwait, hd, by simp⟩
    intro t th hatt
    rcases hatt.of_waitTid hwait with ⟨htu, hst, -⟩ | ⟨htu, hold⟩
    · exact ⟨fun _ => hst, fun hne => absurd htu hne⟩
    · exact ⟨fun heq => absurd heq htu, fun _ => (hcover t th hold).resolve_left htu⟩

theorem drop_detachInv (hinv : DetachInv k ⟨.drop u todo, tids⟩)
    (h : goNext k () tids granted (.drop u todo) = some m) : DetachInv m.threads m.session := by
  obtain ⟨hcover, hstops, hd, -⟩ := hinv
  simp only [goNext, Option.some.injEq] at h
  subst h
  refine ⟨?_, hstops.tryDetach u, hd, by simp⟩
  intro t th hatt
  obtain ⟨hold, hnot⟩ := hatt.of_tryDetach
  by_cases htu : t = u
  · exact absurd ((hcover t th hold).1 htu) (hnot htu)
  · exact (hcover t th hold).2 htu

/-- **The steps outside the wait loop** keep every attached thread accounted for. -/
theorem goNext_detachInv {pc : Pc} (hinv : DetachInv k ⟨pc, tids⟩)
    (hann : pc = .attached → tids = [] ∨ granted = false → AllAnnounced k tids)
    (h : goNext k () tids granted pc = some m) : DetachInv m.threads m.session := by
  cases pc with
  | discover => cases h
  | seize todo =>
      cases todo with
      | nil =>
          cases h
          exact ⟨hinv.cover, hinv.stops, hinv.distinct, by simp⟩
      | cons u todo => exact seize_detachInv hinv h
  | interrupt u todo => exact interrupt_detachInv hinv h
  | await u todo => exact await_detachInv hinv h
  | resume u todo => exact resume_detachInv hinv h
  | attached => exact attached_detachInv hinv (hann rfl) h
  | loop => cases h
  | detach todo =>
      cases todo with
      | nil =>
          cases h
          refine ⟨?_, hinv.stops, hinv.distinct, by simp⟩
          intro t th hatt
          cases (hinv.cover t th hatt : t ∈ [])
      | cons u todo => exact detach_detachInv hinv h
  | reap u todo => exact reap_detachInv hinv h
  | drop u todo => exact drop_detachInv hinv h
  | returned => cases h

end

/-! ## A pass of the wait loop -/

/-- A request for `t` leaves the others alone. -/
theorem Attached.of_request {r : Req} (hatt : Attached (request k () [r]) u th) (hu : u ≠ r.tid) :
    Attached k u th := by
  simp only [request, List.foldl_cons, List.foldl_nil] at hatt
  cases hres : ptraceResume k () r.tid with
  | none => rw [hres] at hatt; exact hatt
  | some k₁ =>
      rw [hres] at hatt
      obtain ⟨ev, seen, fresh, -, rfl⟩ := ptraceResume_eq_some hres
      exact (hatt.of_update.resolve_left fun h => hu h.1).2

theorem StopsOk.request (h : StopsOk k) (r : Req) : StopsOk (request k () [r]) := by
  simp only [Tracer.request, List.foldl_cons, List.foldl_nil]
  cases hres : Tracer.ptraceResume k () r.tid with
  | none => exact h
  | some k₁ => exact h.ptraceResume hres

/-- A death takes no other thread out of the table. -/
theorem held_of_gone {tids : List TidState} (hd : Distinct tids) (hut : u ≠ t) (hu : lookup tids u ≠ none) :
    lookup (removeTid (findOrAddTid tids t).1 t) u ≠ none := by
  rw [lookup_gone hd, if_neg hut]
  exact hu

theorem reportNext_detachInv {p : Params Unit} {tids : List TidState} {mem : Memory} {m : Moved Unit}
    (hinv : DetachInv k ⟨.loop, tids⟩) (hroom : (findOrAddTid tids t).2 ≠ none)
    (hlast : (∀ th, ¬ Attached k t th) → (∀ ts ∈ tids, ts.tid = t) → AllAnnounced k tids)
    (h : reportNext p k () tids t mem = some m) : DetachInv m.threads m.session := by
  obtain ⟨hcover, hstops, hd, -⟩ := hinv
  unfold reportNext at h
  split at h
  next ev tracer k₁ hwait =>
    have hstops₁ := hstops.waitTid hwait
    -- reaping a status changes no other thread
    have hwas : ∀ u th, u ≠ t → Attached k₁ u th → lookup tids u ≠ none ∨ th.fresh = true := by
      intro u th hut hatt
      rcases hatt.of_waitTid hwait with ⟨heq, -⟩ | ⟨-, hold⟩
      · exact absurd heq hut
      · exact hcover u th hold
    have hgot := waitTid_eq_got hwait
    obtain ⟨j, fresh, -, ⟨stop, rfl, -, -⟩ | ⟨killed, rfl, hk, rfl⟩⟩ := hgot
    · -- a stop: the reporter is in the table afterwards
      obtain ⟨sig, event, hstat⟩ := stop_status stop
      cases h
      rw [hstat]
      obtain ⟨hd', hheld, hret⟩ := onReport_tids_of_stopped p.sys (p.fd ()) p.maxCapture hd hroom sig event
        (if tracer = some () then stop.val.answers mem else ⟨none, none, mem⟩)
      obtain ⟨r, hr, hreqs⟩ := onReport_reqs_of_stopped p.sys (p.fd ()) p.maxCapture tids t sig event
        (if tracer = some () then stop.val.answers mem else ⟨none, none, mem⟩)
      rw [hreqs, hret]
      refine ⟨?_, hstops₁.request r, hd', by simp⟩
      intro u th hatt
      by_cases hut : u = t
      · exact .inl (hheld u (.inl hut))
      · rcases hwas u th hut (hatt.of_request (by rw [hr]; exact hut)) with hin | hfresh
        · exact .inl (hheld u (.inr hin))
        · exact .inr hfresh
    · -- a death: the last thread of the table ends the loop
      cases h
      rw [onReport_gone killed _ hroom]
      have hd' := (hd.findOrAddTid t).removeTid t
      by_cases hemp : (removeTid (findOrAddTid tids t).1 t).isEmpty = true
      · -- nothing else is in the table, so a live attached thread would have to be an unannounced one
        have hnone : ∀ u, u ≠ t → ¬ lookup tids u ≠ none := by
          intro u hut hu
          exact held_of_gone hd hut hu (isEmpty_iff_lookup.mp hemp u)
        have honly : ∀ ts ∈ tids, ts.tid = t := by
          intro ts hts
          by_contra hne
          exact hnone ts.tid hne (fun hl => lookup_eq_none_iff.mp hl ts hts rfl)
        have hdead : ∀ th, ¬ Attached k t th := by
          rintro th ⟨hk', hlive, -⟩
          rw [hk] at hk'; cases hk'
          cases hlive
        have hann := hlast hdead honly
        simp only [hemp, if_true]
        refine ⟨?_, hstops₁, hd', by simp⟩
        intro u th hatt
        rcases hatt.of_waitTid hwait with ⟨-, -, hev⟩ | ⟨hut, hold⟩
        · cases hev
        · rcases hcover u th hold with hin | hfresh
          · exact hnone u hut hin
          · exact hnone u hut (hann u th hold hfresh)
      · -- the others keep their slots
        simp only [hemp]
        refine ⟨?_, hstops₁, hd', by simp⟩
        intro u th hatt
        rcases hatt.of_waitTid hwait with ⟨-, -, hev⟩ | ⟨hut, hold⟩
        · cases hev
        · rcases hcover u th hold with hin | hfresh
          · exact .inl (held_of_gone hd hut hin)
          · exact .inr hfresh
  · cases h

/-! ## Runs -/

/-- The condition on a step:
* a thread that reports finds room in the table;
* when the loop is about to end (`poll_cb` refuses, no memory for the buffer, nothing seized, the last
  thread of the table has died), every attached thread that nothing was reported about is in the table;
* no tracee starts a thread while the call detaches. -/
def Announced (s : System Unit) : Act Unit → Prop
  | .target (.clone _ _) =>
    match (s.sessions ()).pc with
    | .detach _ => False
    | .reap _ _ => False
    | .drop _ _ => False
    | _ => True
  | .session _ (.go granted) =>
    (s.sessions ()).pc = .attached → (s.sessions ()).tids = [] ∨ granted = false →
      AllAnnounced s.threads (s.sessions ()).tids
  | .session _ (.idle again) => again = false → AllAnnounced s.threads (s.sessions ()).tids
  | .session _ (.report t _) =>
    (findOrAddTid (s.sessions ()).tids t).2 ≠ none ∧
      ((∀ th, ¬ Attached s.threads t th) → (∀ ts ∈ (s.sessions ()).tids, ts.tid = t) →
        AllAnnounced s.threads (s.sessions ()).tids)
  | _ => True

theorem kernelNext_detachInv {a : KernelAct} {s : Session} (hinv : DetachInv k s)
    (hclone : ∀ u c, a = .clone u c → ∀ todo, s.pc ≠ .detach todo ∧ ∀ v, s.pc ≠ .reap v todo ∧ s.pc ≠ .drop v todo)
    (h : kernelNext k a = some k') : DetachInv k' s := by
  refine ⟨?_, hinv.stops.kernelNext h, hinv.distinct, ?_⟩
  · intro t th hatt
    rcases kernelNext_attached h hatt with ⟨th₀, hold, hfresh, hst⟩ | ⟨u, th₀, ha, hparent, hnone, hfresh⟩
    · exact (hinv.cover t th₀ hold).mono hfresh hst
    · -- a new thread, which nothing was reported about
      have hpar := hinv.cover u th₀ hparent
      have hno := hclone u t ha
      unfold Covered at hpar ⊢
      cases hpc : s.pc with
      | discover => rw [hpc] at hpar; exact hpar
      | returned => rw [hpc] at hpar; exact hpar
      | seize todo => exact .inr hfresh
      | interrupt v todo => exact .inr (.inr hfresh)
      | await v todo => exact .inr (.inr hfresh)
      | resume v todo =>
          refine ⟨?_, fun _ => .inr hfresh⟩
          -- the thread being resumed exists, the new one did not
          rintro rfl
          obtain ⟨th', hk', -⟩ := hinv.resuming t todo hpc
          rw [hnone] at hk'
          cases hk'
      | attached => exact .inr hfresh
      | loop => exact .inr hfresh
      -- while the call detaches nobody clones
      | detach todo => exact absurd hpc (hno todo).1
      | reap v todo => exact absurd hpc ((hno todo).2 v).1
      | drop v todo => exact absurd hpc ((hno todo).2 v).2
  · intro u todo hpc
    exact (kernelNext_keeps h ()).traced u (hinv.resuming u todo hpc)

theorem sessionNext_detachInv {p : Params Unit} {s : System Unit} {c : Choice} {m : Moved Unit}
    (hinv : DetachInv s.threads (s.sessions ())) (henabled : Enabled s (.session () c))
    (hann : Announced s (.session () c)) (h : sessionNext p s.threads () (s.sessions ()) c = some m) :
    DetachInv m.threads m.session := by
  cases c with
  | go granted => exact goNext_detachInv hinv hann h
  | found tids =>
      simp only [sessionNext] at h
      split at h
      next hpc =>
        cases h
        refine ⟨?_, hinv.stops, hinv.distinct, by intro u todo hp; dsimp only at hp; split at hp <;> cases hp⟩
        intro t th hatt
        have hno := hinv.cover t th hatt
        rw [Covered, hpc] at hno
        exact absurd hno id
      · cases h
  | idle again =>
      simp only [sessionNext] at h
      split at h
      next hpc =>
        cases h
        have hin : ∀ t th, Attached s.threads t th → lookup (s.sessions ()).tids t ≠ none ∨ th.fresh = true := by
          intro t th hatt
          have hcov := hinv.cover t th hatt
          rwa [Covered, hpc] at hcov
        cases again with
        | true => exact ⟨hin, hinv.stops, hinv.distinct, by simp⟩
        | false =>
            exact ⟨fun t th hatt => cover_detach (hann rfl) (hin t th) hatt, hinv.stops, hinv.distinct, by simp⟩
      · cases h
  | failed echild =>
      simp only [sessionNext] at h
      split at h
      next hpc =>
        cases h
        cases echild with
        | false =>
            refine ⟨?_, hinv.stops, hinv.distinct, by simp⟩
            intro t th hatt
            have hcov := hinv.cover t th hatt
            rwa [Covered, hpc] at hcov
        | true =>
            -- `ECHILD`: there is no tracee
            refine ⟨?_, hinv.stops, hinv.distinct, by simp⟩
            intro t th hatt
            have htr := henabled t th hatt.here
            rw [hatt.tracer] at htr
            cases htr
      · cases h
  | report t mem =>
      simp only [sessionNext] at h
      split at h
      next hpc =>
        have hinv' : DetachInv s.threads ⟨.loop, (s.sessions ()).tids⟩ := by
          rw [← hpc]
          exact hinv
        exact reportNext_detachInv hinv' hann.1 hann.2 h
      · cases h

theorem detachInv_start (alive : Int → Bool) :
    DetachInv (System.start alive : System Unit).threads ⟨.discover, []⟩ := by
  have hfree : ∀ t th, (System.start alive : System Unit).threads t = some th →
      th = ⟨none, .running, false⟩ := by
    intro t th hk
    simp only [System.start] at hk
    split at hk
    · cases hk; rfl
    · cases hk
  refine ⟨?_, ?_, by simp [Distinct], by simp⟩
  · intro t th hatt
    have htr := hatt.tracer
    rw [hfree t th hatt.here] at htr
    cases htr
  · rintro t th hk ⟨ev, seen, hst⟩
    rw [hfree t th hk] at hst
    cases hst

theorem detachInv_step {p : Params Unit} {s s' : System Unit} {a : Act Unit}
    (hinv : DetachInv s.threads (s.sessions ())) (hstep : Lts.Guarded Announced (step p) s a s') :
    DetachInv s'.threads (s'.sessions ()) := by
  obtain ⟨hann, henabled, hnext⟩ := hstep
  cases a with
  | target a =>
      simp only [next, Option.map_eq_some_iff] at hnext
      obtain ⟨k', hk', rfl⟩ := hnext
      refine kernelNext_detachInv hinv ?_ hk'
      rintro u c rfl todo
      simp only [Announced] at hann
      refine ⟨?_, fun v => ⟨?_, ?_⟩⟩
      · intro hpc; rw [hpc] at hann; exact hann
      · intro hpc; rw [hpc] at hann; exact hann
      · intro hpc; rw [hpc] at hann; exact hann
  | session i c =>
      simp only [next, Option.map_eq_some_iff] at hnext
      obtain ⟨m, hm, rfl⟩ := hnext
      have hinv' := sessionNext_detachInv hinv henabled hann hm
      simpa using hinv'

/-- **Clean detach.** In every run of `hsed_trace_fd` beside its target that meets `Announced`: once the
    call has returned, no live thread is attached to it, and none is in a ptrace stop. -/
theorem returned_detached (p : Params Unit) (alive : Int → Bool) (acts : List (Act Unit)) (s : System Unit)
    (hrun : Lts.Run (Lts.Guarded Announced (step p)) (System.start alive) acts s)
    (hret : (s.sessions ()).pc = .returned) (t : Int) (th : Thread Unit) (hk : s.threads t = some th)
    (hlive : th.live = true) : th.tracer = none ∧ ∀ ev seen, th.state ≠ .stopped ev seen := by
  have hinv : DetachInv s.threads (s.sessions ()) :=
    hrun.invariant (detachInv_start alive) fun s a s' h hstep => detachInv_step h hstep
  have hfree : th.tracer = none := by
    by_contra hne
    obtain ⟨i, htr⟩ := Option.ne_none_iff_exists'.mp hne
    have hcov := hinv.cover t th ⟨hk, hlive, htr⟩
    rw [Covered, hret] at hcov
    exact hcov
  refine ⟨hfree, ?_⟩
  intro ev seen hst
  have htr := hinv.stops t th hk ⟨ev, seen, hst⟩
  rw [hfree] at htr
  cases htr

end

/-! ### Runs on a target with one thread -/

def oneStream : Params Unit := ⟨⟨1, 18, 20⟩, fun _ => 1, 200⟩

def oneThread : System Unit := System.start fun t => t == 7

/-- Attach to thread 7 and enter the wait loop. -/
def attachSeven : List (Act Unit) :=
  [.session () (.found [7]), .session () (.go true), .session () (.go true),
    .target (.stop 7 ⟨.stop sigtrap 128 none, isStop_interrupt⟩), .session () (.go true), .session () (.go true),
    .session () (.go true), .session () (.go true)]

/-- The client is gone, and thread 7 is let go. -/
def leaveSeven : List (Act Unit) :=
  [.session () (.go true), .target (.stop 7 ⟨.stop sigtrap 128 none, isStop_interrupt⟩), .session () (.go true),
    .session () (.go true), .session () (.go true)]

/-- The same, but thread 7 starts thread 8 before it is interrupted. -/
def leaveLateClone : List (Act Unit) :=
  [.target (.clone 7 8), .session () (.go true), .session () (.go true), .session () (.go true),
    .target (.stop 8 ⟨.stop sigtrap 128 none, isStop_interrupt⟩), .session () (.go true)]

/-- A step outside the loop to which the condition says nothing. -/
def Act.unwatched (s : System Unit) : Act Unit → Bool
  | .target (.clone _ _) => false
  | .target _ => true
  | .session _ (.found _) => true
  | .session _ (.go granted) => (s.sessions ()).pc ≠ .attached || (granted && !(s.sessions ()).tids.isEmpty)
  | _ => false

theorem run_unwatched {p : Params Unit} {s s' : System Unit} {acts : List (Act Unit)}
    (hexec : acts.foldlM (fun s a => if a.unwatched s then next p s a else none) s = some s') :
    Lts.Run (Lts.Guarded Announced (step p)) s acts s' := by
  refine Lts.Run.of_exec ?_ hexec
  intro a _ s₁ s₂ hnext
  split at hnext
  case isFalse => cases hnext
  case isTrue hout =>
    cases a with
    | target a =>
        cases a with
        | clone => cases hout
        | _ => exact ⟨trivial, trivial, hnext⟩
    | session i c =>
        cases c with
        | found tids => exact ⟨trivial, trivial, hnext⟩
        | go granted =>
            refine ⟨?_, trivial, hnext⟩
            rintro hpc (htids | hgranted)
            · simp [Act.unwatched, hpc, htids] at hout
            · simp [Act.unwatched, hpc, hgranted] at hout
        | _ => cases hout

theorem returned_detached_one_thread :
    ∃ s, Lts.Run (Lts.Guarded Announced (step oneStream)) oneThread
        (attachSeven ++ [.session () (.idle false)] ++ leaveSeven) s ∧ (s.sessions ()).pc = .returned ∧
      ∀ t th, s.threads t = some th → th.live = true →
        th.tracer = none ∧ ∀ ev seen, th.state ≠ .stopped ev seen := by
  obtain ⟨s, hrun, hret⟩ : ∃ s, Lts.Run (Lts.Guarded Announced (step oneStream)) oneThread
      (attachSeven ++ [.session () (.idle false)] ++ leaveSeven) s ∧ (s.sessions ()).pc = .returned := by
    refine ⟨_, ((run_unwatched rfl).snoc ⟨?_, ?_, rfl⟩).append (run_unwatched rfl), rfl⟩
    · intro _ t th hatt hfresh
      by_cases h7 : t = 7
      · subst h7
        cases hatt.here
        cases hfresh
      · exfalso
        have hk := hatt.here
        revert hk
        simp [h7, oneThread, System.start]
    · intro t th hk
      by_cases h7 : t = 7
      · subst h7
        cases hk
        exact fun hrep => hrep.2 rfl
      · exfalso
        revert hk
        simp [h7, oneThread, System.start]
  exact ⟨s, hrun, hret, returned_detached _ _ _ _ hrun hret⟩

/-- Thread 8 was attached by the kernel after `waitpid` had nothing to report and `poll_cb` had refused: it
    is not in the table, and the call returns with it attached and stopped. -/
theorem late_clone_left_stopped :
    ∃ s, Lts.Run (step oneStream) oneThread (attachSeven ++ [.session () (.idle false)] ++ leaveLateClone) s ∧
      (s.sessions ()).pc = .returned ∧
        ∃ th ev, s.threads 8 = some th ∧ th.live = true ∧ th.tracer = some () ∧ th.state = .stopped ev none := by
  refine ⟨_, ((run_outsideLoop rfl rfl).of_guarded.snoc ⟨?_, rfl⟩).append (run_outsideLoop rfl rfl).of_guarded,
    rfl, ?_⟩
  · intro t th hk
    by_cases h7 : t = 7
    · subst h7
      cases hk
      exact fun hrep => hrep.2 rfl
    · exfalso
      revert hk
      simp [h7, oneThread, System.start]
  · exact ⟨_, _, rfl, rfl, rfl, rfl⟩

end Tracer
end Hsed
