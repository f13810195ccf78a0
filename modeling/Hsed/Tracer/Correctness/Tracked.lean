import Hsed.Tracer.Correctness.Detach

/-!
# `Tracer.Correctness.Tracked` — the thread table and the threads that were reported

A thread comes into the table with its own first stop or with the clone stop of its parent, and leaves it with
its exit. The three may be reported in any order that keeps each thread's own. `Watched` adds to a run what
the call has been told so far; `Exact` says that the table is just that.

The clone branch adds the child without asking whether it still exists. So a clone stop that is reported after
the child's exit leaves a dead thread in the table for good (`late_clone_kept`). `table_exact` is about the
runs in which this does not happen.
-/

namespace Hsed
namespace Tracer

open CLib

section
variable {k k' : Threads Unit} {t u : Int} {told : Int → Prop}

/-! ## What the call has been told -/

/-- The child that a stop of thread `t` announces, while the stop has not been reported. -/
def announces (k : Threads Unit) (t : Int) : Option Int :=
  match k t with
  | some ⟨_, .stopped ev none, _⟩ =>
    match ev.val with
    | .stop sig event msg => if sig = sigtrap ∧ event = ptraceEventClone then msg else none
    | _ => none
  | _ => none

/-- The thread whose status a step takes from `waitpid`. -/
def waitsFor (s : Session) : Choice → Option Int
  | .go _ =>
    match s.pc with
    | .await t _ => some t
    | .reap t _ => some t
    | _ => none
  | .report t _ =>
    match s.pc with
    | .loop => some t
    | _ => none
  | _ => none

/-- The threads of which a stop or the creation has been reported and no exit, after `waitpid` on `t`. -/
def tell (k : Threads Unit) (t : Int) (told : Int → Prop) : Int → Prop :=
  match waitTid k () t with
  | .got (.gone _) _ _ => fun u => u ≠ t ∧ told u
  | .got _ _ _ => fun u => u = t ∨ told u ∨ (announces k t = some u ∧ TracedBy k () u)
  | _ => told

/-- What the call has been told after a step. -/
def news (s : System Unit) (a : Act Unit) (told : Int → Prop) : Int → Prop :=
  match a with
  | .target _ => told
  | .session _ c =>
    match waitsFor (s.sessions ()) c with
    | none => told
    | some t => tell s.threads t told

/-- A system with the threads its call has been told of. -/
abbrev Watched := Lts.Observed (System Unit) (Int → Prop)

def watchedStep (p : Params Unit) : Watched → Act Unit → Watched → Prop := Lts.Observe (step p) news

def watchedStart (alive : Int → Bool) : Watched := ⟨System.start alive, fun _ => False⟩

/-! ## The property -/

/-- The table holds attached threads whose exit has not been reported, and all that the call was told of. -/
structure Exact (w : Watched) : Prop where
  live : ∀ t, lookup (w.state.sessions ()).tids t ≠ none → TracedBy w.state.threads () t
  all : ∀ t, w.seen t → lookup (w.state.sessions ()).tids t ≠ none

/-- Fewer than 512 threads are attached, those included that have died without `waitpid` having said so. -/
def Few (k : Threads Unit) : Prop :=
  ∀ l : List Int, l.Nodup → (∀ t ∈ l, TracedBy k () t) → l.length < maxTrackedTids

/-- Every creation is reported in time: a clone stop is taken by the wait loop, for a thread that is in the
    table, and before the child's exit. And no thread dies between its first stop and its first
    `PTRACE_SYSCALL`. -/
def InTime (w : Watched) : Act Unit → Prop
  | .session _ (.report t _) => ∀ c, announces w.state.threads t = some c →
    lookup (w.state.sessions ()).tids t ≠ none ∧ toInt32 c = c ∧ TracedBy w.state.threads () c
  | .session _ (.go _) =>
    match (w.state.sessions ()).pc with
    | .await t _ => announces w.state.threads t = none
    | .resume t _ => ∃ th, w.state.threads t = some th ∧ th.live = true
    | _ => True
  | _ => True

/-- The runs in question. -/
def Timely (w : Watched) (a : Act Unit) : Prop := Few w.state.threads ∧ InTime w a

/-! ## The invariant -/

/-- The table is what the call has been told. -/
structure Tracks (k : Threads Unit) (tids : List TidState) (told : Int → Prop) : Prop where
  distinct : Distinct tids
  live : ∀ t, lookup tids t ≠ none → TracedBy k () t
  told_iff : ∀ t, told t ↔ lookup tids t ≠ none

/-- A tracee in a stop, or dead. -/
def Held (k : Threads Unit) (t : Int) : Prop := ∃ th, k t = some th ∧ th.tracer = some () ∧ th.state ≠ .running

/-- While a thread is being seized it is not in the table yet. -/
def TrackInv (k : Threads Unit) (s : Session) (told : Int → Prop) : Prop :=
  match s.pc with
  | .discover => Tracks k s.tids told
  | .seize _ => Tracks k s.tids told
  | .interrupt t _ => Tracks k s.tids told ∧ lookup s.tids t = none
  | .await t _ => Tracks k s.tids told ∧ lookup s.tids t = none
  | .resume t _ => Tracks k s.tids (fun u => u ≠ t ∧ told u) ∧ told t ∧ Held k t
  | .attached => Tracks k s.tids told
  | .loop => Tracks k s.tids told
  | _ => True

theorem Tracks.mono {tids : List TidState} (h : Tracks k tids told)
    (hk : ∀ t, lookup tids t ≠ none → TracedBy k () t → TracedBy k' () t) : Tracks k' tids told :=
  ⟨h.distinct, fun t ht => hk t ht (h.live t ht), h.told_iff⟩

theorem lookup_of_mem {tids : List TidState} (h : t ∈ tids.map (·.tid)) : lookup tids t ≠ none := by
  obtain ⟨ts, hts, rfl⟩ := List.mem_map.mp h
  intro hnone
  exact lookup_eq_none_iff.mp hnone ts hts rfl

theorem Tracks.room {tids : List TidState} (h : Tracks k tids told) (hfew : Few k) : tids.length < maxTrackedTids := by
  have hlen := hfew (tids.map TidState.tid) h.distinct fun t ht => h.live t (lookup_of_mem ht)
  rwa [List.length_map] at hlen

theorem tracedBy_update (h : TracedBy k () u) (hne : u ≠ t) (v : Option (Thread Unit)) :
    TracedBy (Function.update k t v) () u := by
  obtain ⟨th, hk, htr⟩ := h
  exact ⟨th, by rw [Function.update_of_ne hne]; exact hk, htr⟩

theorem tracedBy_tryDetach (h : TracedBy k () u) (hne : u ≠ t) : TracedBy (tryDetach k () t) () u := by
  rcases tryDetach_cases k () t with ⟨ev, seen, fresh, -, heq⟩ | ⟨-, heq⟩
  · rw [heq]
    exact tracedBy_update h hne _
  · rw [heq]
    exact h

/-- Detaching a thread that is not in the table. -/
theorem Tracks.tryDetach {tids : List TidState} (h : Tracks k tids told) (hno : lookup tids t = none) :
    Tracks (tryDetach k () t) tids told := by
  refine h.mono ?_
  intro u hu htr
  refine tracedBy_tryDetach htr ?_
  rintro rfl
  exact hu hno

/-! ## `waitpid` -/

theorem tell_stop {stop : StopEvent} {tracer : Option Unit} (h : waitTid k () t = .got stop.val tracer k') :
    tell k t told = fun u => u = t ∨ told u ∨ (announces k t = some u ∧ TracedBy k () u) := by
  obtain ⟨ev, hev⟩ := stop
  rw [tell, h]
  cases ev with
  | gone killed => cases hev
  | _ => rfl

theorem tell_gone {killed : Bool} {tracer : Option Unit} (h : waitTid k () t = .got (.gone killed) tracer k') :
    tell k t told = fun u => u ≠ t ∧ told u := by
  rw [tell, h]

theorem tell_error (h : waitTid k () t = .error) : tell k t told = told := by
  rw [tell, h]

/-- What a stop announces to the wait loop. -/
theorem announced_eq_announces {stop : StopEvent} {fresh : Bool} (hk : k t = some ⟨some (), .stopped stop none, fresh⟩)
    {sig event : Nat} (hst : stop.val.status = .stopped sig event) (mem : Memory) :
    announced sig event (stop.val.answers mem) = (announces k t).map toInt32 := by
  obtain ⟨ev, hev⟩ := stop
  rw [announces, hk]
  cases ev with
  | enter regs =>
      cases hst
      rfl
  | leave regs =>
      cases hst
      rfl
  | stop sig' event' msg =>
      cases hst
      rw [announced]
      dsimp only [Event.answers]
      split <;> rfl
  | gone killed => cases hev
  | continued => cases hev

/-! ## The seize loop -/

section
variable {tids : List TidState} {todo : List Int} {granted : Bool} {m : Moved Unit}

theorem seize_trackInv (hinv : Tracks k tids told) (h : goNext k () tids granted (.seize (t :: todo)) = some m) :
    TrackInv m.threads m.session told := by
  simp only [goNext] at h
  split at h
  · cases h
    exact hinv
  next k₁ hseize =>
    cases h
    cases granted with
    | false => cases hseize
    | true =>
        obtain ⟨fresh, hk, -⟩ := ptraceSeize_eq_some hseize
        refine ⟨hinv.mono fun u _ htr => (ptraceSeize_keeps hseize ()).traced u htr, ?_⟩
        -- nobody traced it before, so it is not in the table
        by_contra hin
        obtain ⟨th, hk', htr⟩ := hinv.live t hin
        rw [hk] at hk'
        cases hk'
        cases htr

theorem await_trackInv (hinv : Tracks k tids told) (hno : lookup tids t = none) (hann : announces k t = none)
    (h : goNext k () tids granted (.await t todo) = some m) : TrackInv m.threads m.session (tell k t told) := by
  have htold : ∀ {u}, told u → u ≠ t := by
    rintro u hu rfl
    exact (hinv.told_iff u).mp hu hno
  simp only [goNext] at h
  split at h
  · cases h
  next herr =>
    cases h
    rw [tell_error herr]
    exact hinv.tryDetach hno
  next ev tracer k₁ hgot =>
    obtain ⟨j, fresh, -, ⟨stop, rfl, hk, rfl⟩ | ⟨killed, rfl, hk, rfl⟩⟩ := waitTid_eq_got hgot
    · -- its first stop: it is told of now, and gets its slot in the next step
      rw [if_pos stop.property] at h
      cases h
      rw [tell_stop hgot]
      refine ⟨⟨hinv.distinct, ?_, ?_⟩, .inl rfl, ?_⟩
      · intro u hu
        refine tracedBy_update (hinv.live u hu) ?_ _
        rintro rfl
        exact hu hno
      · intro u
        rw [← hinv.told_iff u, hann]
        constructor
        · rintro ⟨hne, h | h | ⟨h, -⟩⟩
          · exact absurd h hne
          · exact h
          · cases h
        · intro hu
          exact ⟨htold hu, .inr (.inl hu)⟩
      · refine ⟨_, Function.update_self .., rfl, ?_⟩
        intro hnone
        cases hnone
    · -- it died first: it is told of no more, and was never in the table
      rw [if_neg (by simp [Event.isStop])] at h
      cases h
      rw [tell_gone hgot]
      have hgone : Tracks (Function.update k t none) tids fun u => u ≠ t ∧ told u := by
        refine ⟨hinv.distinct, ?_, ?_⟩
        · intro u hu
          refine tracedBy_update (hinv.live u hu) ?_ _
          rintro rfl
          exact hu hno
        · intro u
          rw [← hinv.told_iff u]
          exact ⟨fun h => h.2, fun h => ⟨htold h, h⟩⟩
      exact hgone.tryDetach hno

theorem resume_trackInv (hinv : TrackInv k ⟨.resume t todo, tids⟩ told) (hfew : Few k)
    (hlive : ∃ th, k t = some th ∧ th.live = true) (h : goNext k () tids granted (.resume t todo) = some m) :
    TrackInv m.threads m.session told := by
  obtain ⟨htracks, htold, hheld⟩ := hinv
  have hroom := htracks.room hfew
  have hno : ∀ {u}, lookup tids u ≠ none → u ≠ t := fun hu => ((htracks.told_iff _).mpr hu).1
  -- alive, and still in its stop
  obtain ⟨ev, seen, fresh, hk⟩ : ∃ ev seen fresh, k t = some ⟨some (), .stopped ev seen, fresh⟩ := by
    obtain ⟨⟨tracer, state, fresh⟩, hk, htr, hst⟩ := hheld
    obtain ⟨th, hk', hl⟩ := hlive
    rw [hk] at hk'
    cases hk'
    cases htr
    cases state with
    | running => exact absurd rfl hst
    | stopped ev seen => exact ⟨ev, seen, fresh, hk⟩
    | zombie killed => cases hl
  have hslot := findOrAddTid_room hroom t
  simp only [goNext] at h
  split at h
  next hnone => exact absurd hnone hslot
  · split at h
    next k₁ hres =>
      cases h
      obtain ⟨ev', seen', fresh', -, rfl⟩ := ptraceResume_eq_some hres
      have hseize : seizeTid tids t true = (findOrAddTid tids t).1 := by
        rw [seizeTid]
        rcases hf : findOrAddTid tids t with ⟨tids', _ | slot⟩ <;> rfl
      refine ⟨hseize ▸ htracks.distinct.findOrAddTid t, ?_, ?_⟩
      · intro u hu
        rw [hseize, held_findOrAddTid_iff hroom] at hu
        rcases hu with rfl | hu
        · exact ⟨_, Function.update_self .., rfl⟩
        · exact tracedBy_update (htracks.live u hu) (hno hu) _
      · intro u
        rw [hseize, held_findOrAddTid_iff hroom, ← htracks.told_iff u]
        by_cases hu : u = t
        · rw [hu]
          exact iff_of_true htold (.inl rfl)
        · constructor
          · exact fun h => .inr ⟨hu, h⟩
          · rintro (h | ⟨-, h⟩)
            · exact absurd h hu
            · exact h
    next hres => exact absurd hk (ptraceResume_eq_none hres ev seen fresh)

end

/-! ## The wait loop -/

/-- An exit takes its thread out of the table; the table is empty iff nothing is left that the call was told of. -/
theorem Tracks.gone {tids : List TidState} (hinv : Tracks k tids told) :
    Tracks (Function.update k t none) (removeTid (findOrAddTid tids t).1 t) (fun u => u ≠ t ∧ told u) ∧
      ((removeTid (findOrAddTid tids t).1 t).isEmpty = true ↔ ∀ u, ¬ (u ≠ t ∧ told u)) := by
  have hlook : ∀ u, lookup (removeTid (findOrAddTid tids t).1 t) u ≠ none ↔ u ≠ t ∧ lookup tids u ≠ none := by
    intro u
    rw [lookup_gone hinv.distinct]
    by_cases hut : u = t
    · simp [hut]
    · simp [hut]
  have htold : ∀ u, (u ≠ t ∧ told u) ↔ lookup (removeTid (findOrAddTid tids t).1 t) u ≠ none := by
    intro u
    rw [hlook, hinv.told_iff u]
  refine ⟨⟨(hinv.distinct.findOrAddTid t).removeTid t, ?_, htold⟩, ?_⟩
  · intro u hu
    obtain ⟨hne, hin⟩ := (hlook u).mp hu
    exact tracedBy_update (hinv.live u hin) hne _
  · rw [isEmpty_iff_lookup]
    exact forall_congr' fun u => by rw [htold u, not_not]

/-- **One iteration.** After a report the table is still what the call has been told, and the call returns just
    when an exit was reported and nothing is left to track. -/
theorem reportNext_tracks {p : Params Unit} {tids : List TidState} {mem : Memory} {m : Moved Unit}
    (hinv : Tracks k tids told) (hfew : Few k)
    (htime : ∀ c, announces k t = some c → lookup tids t ≠ none ∧ toInt32 c = c ∧ TracedBy k () c)
    (h : reportNext p k () tids t mem = some m) :
    Tracks m.threads m.session.tids (tell k t told) ∧ (m.session.pc = .loop ∨ m.session.pc = .returned) ∧
      (m.session.pc = .returned ↔
        (∃ killed tracer k₁, waitTid k () t = .got (.gone killed) tracer k₁) ∧ ∀ u, ¬ tell k t told u) := by
  have hroom := hinv.room hfew
  unfold reportNext at h
  split at h
  next ev tracer k₁ hgot =>
    obtain ⟨j, fresh, rfl, hcase⟩ := waitTid_eq_got hgot
    rw [if_pos rfl] at h
    cases h
    rcases hcase with ⟨stop, rfl, hk, rfl⟩ | ⟨killed, rfl, hk, rfl⟩
    · -- a stop
      obtain ⟨sig, event, hst⟩ := stop_status stop
      have hheld := held_onReport_iff p.sys (p.fd ()) p.maxCapture (t := t) hinv.distinct hroom sig event
        (stop.val.answers mem)
      have htids := onReport_tids_of_stopped p.sys (p.fd ()) p.maxCapture hinv.distinct
        (findOrAddTid_room hroom t) sig event (stop.val.answers mem)
      rw [announced_eq_announces hk hst] at hheld
      rw [← hst] at hheld htids
      have hret : (onReport p.sys (p.fd ()) p.maxCapture tids t stop.val.status (stop.val.answers mem)).returned =
          false := htids.2.2
      have hself : TracedBy (Function.update k t (some ⟨some (), .stopped stop (some ()), false⟩)) () t :=
        ⟨_, Function.update_self .., rfl⟩
      -- taking the status lets go of nobody
      have hkeep : ∀ u, TracedBy k () u →
          TracedBy (Function.update k t (some ⟨some (), .stopped stop (some ()), false⟩)) () u := by
        intro u htr
        by_cases hut : u = t
        · rw [hut]
          exact hself
        · exact tracedBy_update htr hut _
      rw [tell_stop hgot]
      dsimp only
      rw [hret]
      refine ⟨⟨htids.1, ?_, ?_⟩, .inl rfl, ?_⟩
      · intro u hu
        refine (request_keeps _ () _ ()).traced u ?_
        rcases (hheld u).mp hu with rfl | hu | ⟨-, hu⟩
        · exact hself
        · exact hkeep u (hinv.live u hu)
        · obtain ⟨c, hc, rfl⟩ := Option.map_eq_some_iff.mp hu
          obtain ⟨-, hc', htr⟩ := htime c hc
          rw [hc']
          exact hkeep c htr
      · intro u
        rw [hheld u, ← hinv.told_iff u]
        constructor
        · -- the reporter, who was there before, and the child that is announced
          rintro (h | h | ⟨h, -⟩)
          · exact .inl h
          · exact .inr (.inl h)
          · obtain ⟨hin, hc, -⟩ := htime u h
            exact .inr (.inr ⟨hin, by rw [h, Option.map_some, hc]⟩)
        · rintro (h | h | ⟨-, h⟩)
          · exact .inl h
          · exact .inr (.inl h)
          · obtain ⟨c, hc, rfl⟩ := Option.map_eq_some_iff.mp h
            obtain ⟨-, hc', htr⟩ := htime c hc
            rw [hc']
            exact .inr (.inr ⟨hc, htr⟩)
      · -- a stop never ends the call
        refine iff_of_false nofun ?_
        rintro ⟨⟨killed, tracer, k₁, hgone⟩, -⟩
        have hstop := stop.property
        rw [(Waited.got.inj (hgot.symm.trans hgone)).1] at hstop
        cases hstop
    · -- an exit
      have hslot := findOrAddTid_room hroom t
      obtain ⟨htracks, hempty⟩ := hinv.gone (t := t)
      rw [tell_gone hgot]
      simp only [onReport_gone killed _ hslot, request, List.foldl_nil]
      refine ⟨htracks, ?_, ?_⟩
      · split
        · exact .inr rfl
        · exact .inl rfl
      · constructor
        · -- the call returns only where the table is empty
          intro hpc
          refine ⟨⟨killed, _, _, hgot⟩, hempty.mp ?_⟩
          by_contra hno
          rw [if_neg hno] at hpc
          cases hpc
        · rintro ⟨-, hnone⟩
          rw [if_pos (hempty.mpr hnone)]
  · cases h

/-! ## Every step -/

theorem held_kernelNext {a : KernelAct} (h : kernelNext k a = some k') (hheld : Held k t) : Held k' t := by
  obtain ⟨⟨tracer, state, fresh⟩, hk, htr, hst⟩ := hheld
  have hother : ∀ {v : Option (Thread Unit)} {j : Int}, t ≠ j → Held (Function.update k j v) t := by
    intro v j hne
    exact ⟨_, by rw [Function.update_of_ne hne]; exact hk, htr, hst⟩
  rcases kernelNext_cases h with ⟨j, hj, rfl⟩ | ⟨j, ev, i, fresh', hj, rfl⟩ |
    ⟨j, c, ev, i, fresh', -, hj, hc, rfl⟩ | ⟨j, th, hj, ⟨hnone, rfl⟩ | ⟨i, killed, hi, rfl⟩⟩
  · apply hother
    -- a thread that appears was not there
    rintro rfl
    rw [hk] at hj; cases hj
  · apply hother
    rintro rfl
    rw [hk] at hj; cases hj
    exact hst rfl
  · -- neither the parent, which runs, nor the child, which is new
    have hne : t ≠ j := by
      rintro rfl
      rw [hk] at hj; cases hj
      exact hst rfl
    have hnc : t ≠ c := by
      rintro rfl
      rw [hk] at hc; cases hc
    exact ⟨_, by rw [Function.update_of_ne hne, Function.update_of_ne hnc]; exact hk, htr, hst⟩
  · apply hother
    rintro rfl
    rw [hk] at hj; cases hj
    rw [hnone] at htr; cases htr
  · -- a tracee that dies is held as a zombie
    by_cases hne : t = j
    · subst hne
      exact ⟨_, Function.update_self .., rfl, nofun⟩
    · exact hother hne

theorem kernelNext_trackInv {a : KernelAct} {s : Session} (hinv : TrackInv k s told) (h : kernelNext k a = some k') :
    TrackInv k' s told := by
  have hmono : ∀ {told : Int → Prop}, Tracks k s.tids told → Tracks k' s.tids told := fun htr =>
    htr.mono fun u _ hu => (kernelNext_keeps h ()).traced u hu
  unfold TrackInv at hinv ⊢
  split at hinv
  · exact hmono hinv
  · exact hmono hinv
  · exact ⟨hmono hinv.1, hinv.2⟩
  · exact ⟨hmono hinv.1, hinv.2⟩
  · exact ⟨hmono hinv.1, hinv.2.1, held_kernelNext h hinv.2.2⟩
  · exact hmono hinv
  · exact hmono hinv
  · trivial

theorem goNext_trackInv {pc : Pc} {tids : List TidState} {granted : Bool} {m : Moved Unit}
    (hinv : TrackInv k ⟨pc, tids⟩ told) (hfew : Few k) (hawait : ∀ t todo, pc = .await t todo → announces k t = none)
    (hresume : ∀ t todo, pc = .resume t todo → ∃ th, k t = some th ∧ th.live = true)
    (h : goNext k () tids granted pc = some m) :
    TrackInv m.threads m.session
      (match waitsFor ⟨pc, tids⟩ (.go granted) with | none => told | some t => tell k t told) := by
  cases pc with
  | discover => cases h
  | seize todo =>
      cases todo with
      | nil =>
          cases h
          exact hinv
      | cons t todo => exact seize_trackInv hinv h
  | interrupt t todo =>
      simp only [goNext] at h
      split at h
      · cases h
        exact hinv
      · cases h
        -- the thread that is let go has no slot yet
        exact hinv.1.tryDetach hinv.2
  | await t todo => exact await_trackInv hinv.1 hinv.2 (hawait t todo rfl) h
  | resume t todo => exact resume_trackInv hinv hfew (hresume t todo rfl) h
  | attached =>
      simp only [goNext] at h
      split at h
      · cases h
        trivial
      · split at h
        · cases h
          exact hinv
        · cases h
          trivial
  | loop => cases h
  | detach todo =>
      cases todo with
      | nil =>
          cases h
          trivial
      | cons t todo =>
          simp only [goNext] at h
          cases hint : ptraceInterrupt k () t with
          | true =>
              rw [hint] at h
              cases h
              trivial
          | false =>
              rw [hint] at h
              cases h
              trivial
  | reap t todo =>
      simp only [goNext] at h
      split at h
      · cases h
      · cases h
        trivial
      · cases h
        trivial
  | drop t todo =>
      cases h
      trivial
  | returned => cases h

theorem trackInv_start (alive : Int → Bool) :
    TrackInv (System.start alive : System Unit).threads ⟨.discover, []⟩ fun _ => False := by
  refine ⟨List.nodup_nil, fun t ht => absurd rfl ht, ?_⟩
  intro t
  exact iff_of_false id fun h => h rfl

/-- A step of the guarded system keeps the invariant, and a report leaves the table exact. -/
theorem trackInv_step {p : Params Unit} {w w' : Watched} {a : Act Unit}
    (hinv : TrackInv w.state.threads (w.state.sessions ()) w.seen)
    (hstep : Lts.Guarded Timely (watchedStep p) w a w') :
    TrackInv w'.state.threads (w'.state.sessions ()) w'.seen := by
  obtain ⟨⟨hfew, htime⟩, ⟨-, hnext⟩, htold⟩ := hstep
  cases a with
  | target a =>
      simp only [next, Option.map_eq_some_iff] at hnext
      obtain ⟨k', hk', heq⟩ := hnext
      rw [← heq, htold]
      exact kernelNext_trackInv hinv hk'
  | session i c =>
      simp only [next, Option.map_eq_some_iff] at hnext
      obtain ⟨m, hm, heq⟩ := hnext
      -- there is only one call, so its new state is that of the step
      have hsession : w'.state.sessions () = m.session := by
        rw [← heq]
        exact Function.update_self (β := fun _ : Unit => Session) () m.session w.state.sessions
      have hthreads : w'.state.threads = m.threads := by rw [← heq]
      rw [hsession, hthreads, htold]
      cases c with
      | go granted =>
          refine goNext_trackInv hinv hfew ?_ ?_ hm
          · intro t todo hpc
            simpa only [InTime, hpc] using htime
          · intro t todo hpc
            simpa only [InTime, hpc] using htime
      -- `discover_tids` brings nobody into the table
      | found tids =>
          simp only [sessionNext] at hm
          split at hm
          next hpc =>
            unfold TrackInv at hinv
            rw [hpc] at hinv
            cases htids : tids.isEmpty with
            | true =>
                rw [htids] at hm
                cases hm
                trivial
            | false =>
                rw [htids] at hm
                cases hm
                exact hinv
          · cases hm
      | idle again =>
          simp only [sessionNext] at hm
          split at hm
          next hpc =>
            unfold TrackInv at hinv
            rw [hpc] at hinv
            cases again with
            | true =>
                cases hm
                exact hinv
            | false =>
                cases hm
                trivial
          · cases hm
      | failed echild =>
          simp only [sessionNext] at hm
          split at hm
          next hpc =>
            unfold TrackInv at hinv
            rw [hpc] at hinv
            cases echild with
            | true =>
                cases hm
                trivial
            | false =>
                cases hm
                exact hinv
          · cases hm
      | report t mem =>
          simp only [sessionNext] at hm
          split at hm
          next hpc =>
            unfold TrackInv at hinv
            rw [hpc] at hinv
            obtain ⟨htracks, hloop | hret, -⟩ := reportNext_tracks hinv hfew htime hm
            · rw [news, waitsFor, hpc]
              unfold TrackInv
              rw [hloop]
              exact htracks
            · unfold TrackInv
              rw [hret]
              trivial
          · cases hm

/-- The ways in which the loop's end goes with what the call has been told. -/
def EndsWithLast (w : Watched) (t : Int) (w' : Watched) : Prop :=
  (w'.state.sessions ()).pc = .returned ↔
    (∃ killed tracer k₁, waitTid w.state.threads () t = .got (.gone killed) tracer k₁) ∧ ∀ u, ¬ w'.seen u

/-- **The table is exact.** In every run of `hsed_trace_fd` beside its target that meets `Timely`: whenever the
    call is in its wait loop the table holds just the threads it has been told of, all of them attached and with
    their exit not reported; and so it does after every report, which ends the loop iff it is the last thread's
    exit. -/
theorem table_exact (p : Params Unit) (alive : Int → Bool) (acts : List (Act Unit)) (w : Watched)
    (hrun : Lts.Run (Lts.Guarded Timely (watchedStep p)) (watchedStart alive) acts w) :
    ((w.state.sessions ()).pc = .loop → Exact w) ∧
      ∀ t mem w', Lts.Guarded Timely (watchedStep p) w (.session () (.report t mem)) w' →
        Exact w' ∧ EndsWithLast w t w' := by
  have hinv : TrackInv w.state.threads (w.state.sessions ()) w.seen :=
    hrun.invariant (trackInv_start alive) fun w a w' h hstep => trackInv_step h hstep
  constructor
  · intro hpc
    unfold TrackInv at hinv
    rw [hpc] at hinv
    exact ⟨hinv.live, fun t ht => (hinv.told_iff t).mp ht⟩
  · rintro t mem w' ⟨⟨hfew, htime⟩, ⟨-, hnext⟩, htold⟩
    simp only [next, sessionNext, Option.map_eq_some_iff] at hnext
    obtain ⟨m, hm, heq⟩ := hnext
    split at hm
    next hpc =>
      unfold TrackInv at hinv
      rw [hpc] at hinv
      obtain ⟨htracks, -, hret⟩ := reportNext_tracks hinv hfew htime hm
      have hsession : w'.state.sessions () = m.session := by
        rw [← heq]
        exact Function.update_self (β := fun _ : Unit => Session) () m.session w.state.sessions
      have hthreads : w'.state.threads = m.threads := by rw [← heq]
      have hnews : w'.seen = tell w.state.threads t w.seen := by
        rw [htold, news, waitsFor, hpc]
      refine ⟨⟨?_, ?_⟩, ?_⟩
      · rw [hsession, hthreads]
        exact htracks.live
      · rw [hsession, hnews]
        exact fun u hu => (htracks.told_iff u).mp hu
      · rw [EndsWithLast, hsession, hnews]
        exact hret
    · cases hm

end

/-! ### A short-lived thread -/

/-- Thread 7 starts thread 8, whose first stop is reported, and which then exits. -/
def shortLived : List (Act Unit) :=
  [.target (.clone 7 8), .target (.stop 8 ⟨.stop sigtrap 128 none, isStop_interrupt⟩), .session () (.report 8 fun _ _ => none),
    .target (.die 8 false), .session () (.report 8 fun _ _ => none)]

/-- And only then the clone stop of thread 7. -/
def lateClone : List (Act Unit) := attachSeven ++ shortLived ++ [.session () (.report 7 fun _ _ => none)]

/-- Not a return of `waitpid(-1, …)` without a status. -/
def Act.unconditional : Act Unit → Bool
  | .session _ (.idle _) => false
  | .session _ (.failed _) => false
  | _ => true

theorem run_unconditional {p : Params Unit} {s s' : System Unit} {acts : List (Act Unit)}
    (hacts : acts.all Act.unconditional = true) (hexec : acts.foldlM (next p) s = some s') :
    Lts.Run (step p) s acts s' := by
  refine Lts.Run.of_exec ?_ hexec
  intro a ha s₁ s₂ hnext
  have hout := List.all_eq_true.mp hacts a ha
  cases a with
  | target a => exact ⟨trivial, hnext⟩
  | session i c =>
      cases c with
      | idle again => cases hout
      | failed echild => cases hout
      | _ => exact ⟨trivial, hnext⟩

/-- Threads 7 and 8 alone are not many. -/
theorem few_of_pair {k : Threads Unit} (h : ∀ t, t ≠ 7 → t ≠ 8 → k t = none) : Few k := by
  intro l hl htr
  have hsub : l ⊆ [7, 8] := by
    intro t ht
    obtain ⟨th, hk, -⟩ := htr t ht
    by_contra hno
    simp only [List.mem_cons, List.not_mem_nil, or_false, not_or] at hno
    rw [h t hno.1 hno.2] at hk
    cases hk
  have hlen : l.length ≤ 2 := (hl.subperm hsub).length_le
  exact hlen.trans_lt (by decide)

theorem guarded_next {p : Params Unit} {w : Watched} {a : Act Unit} {s : System Unit} (htime : Timely w a)
    (henabled : Enabled w.state a) (hnext : next p w.state a = some s) :
    Lts.Guarded Timely (watchedStep p) w a ⟨s, news w.state a w.seen⟩ := ⟨htime, ⟨henabled, hnext⟩, rfl⟩

/-- Thread 8 is announced while it runs, and joins the table. -/
theorem table_exact_clone :
    ∃ w, Lts.Run (Lts.Guarded Timely (watchedStep oneStream)) (watchedStart fun t => t == 7)
        (attachSeven ++ [.target (.clone 7 8), .session () (.report 7 fun _ _ => none)]) w ∧
      (w.state.sessions ()).pc = .loop ∧ lookup (w.state.sessions ()).tids 8 ≠ none ∧ Exact w := by
  obtain ⟨w, hrun, hpc, hin⟩ : ∃ w, Lts.Run (Lts.Guarded Timely (watchedStep oneStream)) (watchedStart fun t => t == 7)
        (attachSeven ++ [.target (.clone 7 8), .session () (.report 7 fun _ _ => none)]) w ∧
      (w.state.sessions ()).pc = .loop ∧ lookup (w.state.sessions ()).tids 8 ≠ none := by
    refine Lts.Run.exists_cons (guarded_next ⟨few_of_pair ?_, trivial⟩ trivial rfl) ?_
    · intro t h7 h8
      simp [h7, watchedStart, System.start]
    refine Lts.Run.exists_cons (guarded_next ⟨few_of_pair ?_, trivial⟩ trivial rfl) ?_
    · intro t h7 h8
      simp [h7, watchedStart, System.start]
    refine Lts.Run.exists_cons (guarded_next ⟨few_of_pair ?_, trivial⟩ trivial rfl) ?_
    · intro t h7 h8
      simp [h7, watchedStart, System.start]
    refine Lts.Run.exists_cons (guarded_next ⟨few_of_pair ?_, trivial⟩ trivial rfl) ?_
    · intro t h7 h8
      simp [h7, watchedStart, System.start]
    refine Lts.Run.exists_cons (guarded_next ⟨few_of_pair ?_, rfl⟩ trivial rfl) ?_
    · intro t h7 h8
      simp [h7, watchedStart, System.start]
    refine Lts.Run.exists_cons (guarded_next ⟨few_of_pair ?_, _, rfl, rfl⟩ trivial rfl) ?_
    · intro t h7 h8
      simp [h7, watchedStart, System.start]
    refine Lts.Run.exists_cons (guarded_next ⟨few_of_pair ?_, trivial⟩ trivial rfl) ?_
    · intro t h7 h8
      simp [h7, watchedStart, System.start]
    refine Lts.Run.exists_cons (guarded_next ⟨few_of_pair ?_, trivial⟩ trivial rfl) ?_
    · intro t h7 h8
      simp [h7, watchedStart, System.start]
    refine Lts.Run.exists_cons (guarded_next ⟨few_of_pair ?_, trivial⟩ trivial rfl) ?_
    · intro t h7 h8
      simp [h7, watchedStart, System.start]
    refine Lts.Run.exists_cons (guarded_next ⟨few_of_pair ?_, ?_⟩ trivial rfl) ?_
    · intro t h7 h8
      simp [h7, h8, watchedStart, System.start]
    · rintro c ⟨⟩
      exact ⟨Option.some_ne_none _, rfl, _, rfl, rfl⟩
    exact ⟨_, .nil, rfl, Option.some_ne_none _⟩
  exact ⟨w, hrun, hpc, hin, (table_exact _ _ _ _ hrun).1 hpc⟩

/-- The exit of thread 8 is reported before the clone stop of its parent: it stays in the table. -/
theorem late_clone_kept :
    ∃ w, Lts.Run (watchedStep oneStream) (watchedStart fun t => t == 7) lateClone w ∧
      (w.state.sessions ()).pc = .loop ∧ w.state.threads 8 = none ∧ ¬ Exact w := by
  obtain ⟨s, hexec, hpc, hgone, hin⟩ : ∃ s, lateClone.foldlM (next oneStream) oneThread = some s ∧
      (s.sessions ()).pc = .loop ∧ s.threads 8 = none ∧ lookup (s.sessions ()).tids 8 ≠ none :=
    ⟨_, rfl, rfl, rfl, Option.some_ne_none _⟩
  obtain ⟨told, hwatched⟩ := (run_unconditional rfl hexec).observe news fun _ => False
  refine ⟨_, hwatched, hpc, hgone, ?_⟩
  intro h
  obtain ⟨th, hk, -⟩ := h.live 8 hin
  rw [hgone] at hk
  cases hk

end Tracer
end Hsed
