import Hsed.Scan.Correctness.Walk

/-!
# `Scan.Correctness.Parallel` — every interleaving of the workers is the sequential scan

Three layers:

* **the split** (`assignWorkers_pids`): the chunks, in worker order, are the pid list;
* **the merge** (`mergeWorkers_list`, `mergeWorkers_stats`): finished workers that did not fail merge into
  the entries (or the tally) of the concatenated chunks;
* **the threads** (`ScanInv`): whoever scans next, a worker's record only ever moves along its own loop, so
  once everything is joined each record is what `scan_worker_fn` computes from the assigned chunk.

`parallel_scan_eq_sequential` puts them together.
-/

namespace Hsed
namespace Scan

open CLib

/-! ## The split -/

/-- How many pids the remaining workers get from index `i` on. -/
theorem chunk_succ (base rem left i : Nat) :
    base + (if i < rem then 1 else 0) + (left * base + min left (rem - (i + 1))) =
      (left + 1) * base + min (left + 1) (rem - i) := by
  rw [Nat.succ_mul]
  split <;> omega

theorem assignLoop_pids (pids : List Int) (minSize : Int) (uidFilter : Nat) (useStats : Bool)
    (base rem left : Nat) : ∀ i offset,
      (assignLoop pids minSize uidFilter useStats base rem left i offset).flatMap (·.pids) =
        (pids.drop offset).take (left * base + min left (rem - i)) := by
  induction left with
  | zero => intro i offset; simp [assignLoop]
  | succ left ih =>
      intro i offset
      rw [assignLoop, List.flatMap_cons, ih, ← chunk_succ]
      generalize base + (if i < rem then 1 else 0) = chunk
      generalize left * base + min left (rem - (i + 1)) = more
      rw [List.take_add, List.drop_drop]

theorem assignLoop_length (pids : List Int) (minSize : Int) (uidFilter : Nat) (useStats : Bool)
    (base rem left : Nat) : ∀ i offset,
      (assignLoop pids minSize uidFilter useStats base rem left i offset).length = left := by
  induction left with
  | zero => exact fun _ _ => rfl
  | succ left ih => intro i offset; rw [assignLoop, List.length_cons, ih]

/-- A worker as `run_parallel_scan` hands it out. -/
structure Worker.Fresh (minSize : Int) (uidFilter : Nat) (useStats : Bool) (w : Worker) : Prop where
  minSize_eq : w.minSize = minSize
  uidFilter_eq : w.uidFilter = uidFilter
  useStats_eq : w.useStats = useStats
  pos_eq : w.pos = 0
  list_eq : w.list = hsedListInit
  stats_eq : w.stats = ⟨0, 0⟩
  failed_eq : w.failed = false

theorem assignLoop_fresh (pids : List Int) (minSize : Int) (uidFilter : Nat) (useStats : Bool)
    (base rem left : Nat) : ∀ i offset,
      ∀ w ∈ assignLoop pids minSize uidFilter useStats base rem left i offset,
        w.Fresh minSize uidFilter useStats := by
  induction left with
  | zero => intro i offset w hw; simp [assignLoop] at hw
  | succ left ih =>
      intro i offset w hw
      rw [assignLoop] at hw
      rcases List.mem_cons.mp hw with rfl | h
      · exact ⟨rfl, rfl, rfl, rfl, rfl, rfl, rfl⟩
      · exact ih _ _ w h

theorem Worker.Fresh.inv {snap : Snapshot} {minSize : Int} {uidFilter : Nat} {useStats : Bool}
    {w : Worker} (h : w.Fresh minSize uidFilter useStats) : w.Inv snap := by
  have hp : w.passed snap = [] := by rw [Worker.passed, h.pos_eq]; rfl
  refine ⟨by rw [h.pos_eq]; exact Nat.zero_le _, fun _ _ => ?_, fun _ => ?_⟩
  · rw [h.list_eq, hp]; rfl
  · rw [h.stats_eq, hp, tally_nil]

theorem pickThreadCount_pos (nprocessors requested : Int) (npids : Nat) :
    0 < pickThreadCount nprocessors requested npids := by
  unfold pickThreadCount
  dsimp only
  split
  · exact Nat.one_pos
  · split <;> omega

/-- **The chunks partition the pid list**, in order, for every pid count and thread count. -/
theorem assignWorkers_pids (pids : List Int) (minSize : Int) (uidFilter : Nat) (useStats : Bool)
    {nthreads : Nat} (hn : 0 < nthreads) :
    (assignWorkers pids minSize uidFilter useStats nthreads).flatMap (·.pids) = pids := by
  unfold assignWorkers
  rw [assignLoop_pids, List.drop_zero]
  apply List.take_of_length_le
  have hmod : pids.length % nthreads < nthreads := Nat.mod_lt _ hn
  have hdiv : nthreads * (pids.length / nthreads) + pids.length % nthreads = pids.length :=
    Nat.div_add_mod pids.length nthreads
  omega

/-! ## Workers at their end -/

section Finished

variable {snap : Snapshot} {alloc : Alloc} {minSize : Int} {uidFilter : Nat} {useStats : Bool}

/-- A property kept by every step of a worker's loop is kept by `scan_worker_fn`. -/
theorem scanWorkerFn_induct (P : Worker → Prop) {realloc : Nat → Bool}
    (hP : ∀ w, P w → P (w.advance snap realloc)) {w : Worker} (h : P w) :
    P (scanWorkerFn snap realloc w) := by
  unfold scanWorkerFn
  generalize w.pids.length - w.pos = k
  induction k with
  | zero => exact h
  | succ k ih => rw [Function.iterate_succ_apply']; exact hP _ ih

/-- What a worker assigned `w₀` holds once its loop is over. -/
structure Worker.Ended (snap : Snapshot) (minSize : Int) (uidFilter : Nat) (useStats : Bool)
    (w₀ w : Worker) : Prop where
  pids_eq : w.pids = w₀.pids
  minSize_eq : w.minSize = minSize
  uidFilter_eq : w.uidFilter = uidFilter
  useStats_eq : w.useStats = useStats
  inv : w.Inv snap
  finished : w.finished

theorem scanWorkerFn_ended {realloc : Nat → Bool} {w : Worker}
    (h : w.Fresh minSize uidFilter useStats) :
    Worker.Ended snap minSize uidFilter useStats w (scanWorkerFn snap realloc w) := by
  have hgiven := scanWorkerFn_induct
    (fun w' => w'.pids = w.pids ∧ w'.minSize = minSize ∧ w'.uidFilter = uidFilter ∧
      w'.useStats = useStats ∧ w'.Inv snap)
    (fun w' hw' => by
      obtain ⟨h1, h2, h3, h4⟩ := Worker.advance_given snap realloc w'
      rw [h1, h2, h3, h4]
      exact ⟨hw'.1, hw'.2.1, hw'.2.2.1, hw'.2.2.2.1, hw'.2.2.2.2.advance realloc⟩)
    ⟨rfl, h.minSize_eq, h.uidFilter_eq, h.useStats_eq, h.inv⟩
  exact ⟨hgiven.1, hgiven.2.1, hgiven.2.2.1, hgiven.2.2.2.1, hgiven.2.2.2.2,
    scanWorkerFn_finished _ w rfl⟩

/-- An ended worker that did not fail has passed all its pids. -/
theorem Worker.Ended.pos_eq {w₀ w : Worker} (h : Worker.Ended snap minSize uidFilter useStats w₀ w)
    (hf : w.failed = false) : w.pos = w.pids.length := by
  have hle := h.inv.pos_le
  rcases h.finished with hc | hge
  · rw [hf] at hc; cases hc
  · omega

theorem Worker.Ended.passed_eq {w₀ w : Worker}
    (h : Worker.Ended snap minSize uidFilter useStats w₀ w) (hf : w.failed = false) :
    w.passed snap = w₀.pids.flatMap (pidEntries snap minSize uidFilter) := by
  rw [Worker.passed, h.pos_eq hf, List.take_length, h.pids_eq, h.minSize_eq, h.uidFilter_eq]

/-! ## The merge -/

/-- `ws` are the assigned workers `ws₀`, each at its end. -/
def AllEnded (snap : Snapshot) (minSize : Int) (uidFilter : Nat) (useStats : Bool)
    (ws₀ ws : List Worker) : Prop :=
  List.Forall₂ (Worker.Ended snap minSize uidFilter useStats) ws₀ ws

theorem AllEnded.flatMap_passed {ws₀ ws : List Worker}
    (h : AllEnded snap minSize uidFilter useStats ws₀ ws) (hf : ∀ w ∈ ws, w.failed = false) :
    ws.flatMap (·.passed snap) =
      (ws₀.flatMap (·.pids)).flatMap (pidEntries snap minSize uidFilter) := by
  induction h with
  | nil => rfl
  | cons hw _ ih =>
      rw [List.flatMap_cons, List.flatMap_cons, List.flatMap_append, hw.passed_eq (hf _ (by simp)),
        ih (fun w hw => hf w (by simp [hw]))]

/-- Each pid of each chunk was scanned, once and in order. -/
theorem AllEnded.flatMap_scanned {ws₀ ws : List Worker}
    (h : AllEnded snap minSize uidFilter useStats ws₀ ws) (hf : ∀ w ∈ ws, w.failed = false) :
    ws.flatMap (fun w => w.pids.take w.pos) = ws₀.flatMap (·.pids) := by
  induction h with
  | nil => rfl
  | cons hw _ ih =>
      rw [List.flatMap_cons, List.flatMap_cons, hw.pos_eq (hf _ (by simp)), List.take_length,
        hw.pids_eq, ih (fun w hw => hf w (by simp [hw]))]

theorem foldl_bind_none {α β : Type} (f : α → β → Option α) (l : List β) :
    l.foldl (fun o b => o.bind fun a => f a b) none = none := by
  induction l with
  | nil => rfl
  | cons b l ih => exact ih

theorem mergeLoop_items {realloc : Nat → Bool} {ws : List Worker} :
    ∀ {acc out : HsedList},
      ws.foldl (fun o w => o.bind fun out => pushAll realloc out w.list.items) (some acc) = some out →
      out.items = acc.items ++ ws.flatMap (·.list.items) := by
  induction ws with
  | nil =>
      intro acc out h
      rw [← Option.some.inj h, List.flatMap_nil, List.append_nil]
  | cons w ws ih =>
      intro acc out h
      rw [List.foldl_cons, Option.bind_some] at h
      cases hp : pushAll realloc acc w.list.items with
      | none => rw [hp, foldl_bind_none] at h; cases h
      | some mid =>
          rw [hp] at h
          rw [ih h, pushAll_items hp, List.flatMap_cons, List.append_assoc]

theorem mergeLoop_ok {realloc : Nat → Bool} (hr : ∀ n, realloc n = true) (ws : List Worker) :
    ∀ acc : HsedList, ∃ out,
      ws.foldl (fun o w => o.bind fun out => pushAll realloc out w.list.items) (some acc) = some out := by
  induction ws with
  | nil => exact fun acc => ⟨acc, rfl⟩
  | cons w ws ih =>
      intro acc
      obtain ⟨mid, hp⟩ := pushAll_ok hr w.list.items acc
      obtain ⟨out, h⟩ := ih mid
      exact ⟨out, by rw [List.foldl_cons, Option.bind_some, hp]; exact h⟩

theorem AllEnded.flatMap_items {ws₀ ws : List Worker}
    (h : AllEnded snap minSize uidFilter false ws₀ ws) (hf : ∀ w ∈ ws, w.failed = false) :
    ws.flatMap (·.list.items) = ws.flatMap (·.passed snap) := by
  induction h with
  | nil => rfl
  | cons hw _ ih =>
      rw [List.flatMap_cons, List.flatMap_cons, hw.inv.items hw.useStats_eq (hf _ (by simp)),
        ih (fun w hw => hf w (by simp [hw]))]

/-- **List mode.** Either everything is discarded, or the merged list holds what `scan_one_pid` yields
    for the pids of all chunks, in order, and every pid was scanned once. -/
theorem mergeWorkers_list (realloc : Nat → Bool) {ws₀ ws : List Worker}
    (h : AllEnded snap minSize uidFilter false ws₀ ws) :
    mergeWorkers realloc false ws = .error ∨
      ∃ out, mergeWorkers realloc false ws = .list out ∧
        out.items = (ws₀.flatMap (·.pids)).flatMap (pidEntries snap minSize uidFilter) ∧
        ws.flatMap (fun w => w.pids.take w.pos) = ws₀.flatMap (·.pids) := by
  unfold mergeWorkers
  by_cases hany : ws.any (·.failed) = true
  · exact Or.inl (by rw [if_pos hany])
  · have hf : ∀ w ∈ ws, w.failed = false := by simpa using hany
    rw [if_neg hany, if_neg (by decide)]
    cases hm : ws.foldl (fun o w => o.bind fun out => pushAll realloc out w.list.items)
        (some hsedListInit) with
    | none => exact Or.inl rfl
    | some out =>
        refine Or.inr ⟨out, rfl, ?_, h.flatMap_scanned hf⟩
        rw [mergeLoop_items hm, h.flatMap_items hf, h.flatMap_passed hf]
        rfl

theorem mergeWorkers_list_ok {realloc : Nat → Bool} (hr : ∀ n, realloc n = true) {ws : List Worker}
    (hf : ∀ w ∈ ws, w.failed = false) : mergeWorkers realloc false ws ≠ .error := by
  unfold mergeWorkers
  rw [if_neg (by simpa using hf), if_neg (by decide)]
  obtain ⟨out, hm⟩ := mergeLoop_ok hr ws hsedListInit
  rw [hm]
  simp

theorem mergeStats_foldl {ws₀ ws : List Worker}
    (h : AllEnded snap minSize uidFilter true ws₀ ws) : ∀ es : List Entry,
      ws.foldl (fun s w => ⟨s.count + w.stats.count, toInt64 (s.totalBytes + w.stats.totalBytes)⟩)
        (tally es) = tally (es ++ ws.flatMap (·.passed snap)) := by
  induction h with
  | nil => intro es; rw [List.flatMap_nil, List.append_nil]; rfl
  | cons hw _ ih =>
      intro es
      rw [List.foldl_cons, List.flatMap_cons, ← List.append_assoc, ← ih, tally_append,
        hw.inv.stats hw.useStats_eq]
      rfl

/-- **Stats mode.** The workers' numbers add up to the tally of the pids of all chunks. -/
theorem mergeWorkers_stats (realloc : Nat → Bool) {ws₀ ws : List Worker}
    (h : AllEnded snap minSize uidFilter true ws₀ ws) (hf : ∀ w ∈ ws, w.failed = false) :
    mergeWorkers realloc true ws =
      .stats (tally ((ws₀.flatMap (·.pids)).flatMap (pidEntries snap minSize uidFilter))) := by
  unfold mergeWorkers
  rw [if_neg (by simpa using hf), if_pos rfl, ← h.flatMap_passed hf]
  exact congrArg Outcome.stats (mergeStats_foldl h [])

end Finished

/-! ## The threads -/

section Threads

variable {snap : Snapshot} {alloc : Alloc} {useStats : Bool} {created : Nat → Bool}

theorem not_busy_iff {s : ScanState} {i : Nat} :
    ¬ s.busy i ↔ ∀ w, s.workers[i]? = some w → w.finished := by
  simp [ScanState.busy]

/-- Ticking worker `i` changes nobody else, and nothing at all once its loop is over. -/
theorem tick_getElem? (s : ScanState) (i j : Nat) :
    (s.tick snap alloc i).workers[j]? =
      if i = j then (s.workers[j]?).map (Worker.advance snap (alloc.worker i)) else s.workers[j]? := by
  rw [ScanState.tick, List.getElem?_modify]
  split
  · rfl
  · exact Option.map_id'

theorem not_busy_tick {s : ScanState} {i j : Nat} (h : ¬ s.busy j) :
    ¬ (s.tick snap alloc i).busy j := by
  rw [not_busy_iff] at h ⊢
  intro w hw
  rw [tick_getElem?] at hw
  split at hw
  · obtain ⟨w', hw', rfl⟩ := Option.map_eq_some_iff.mp hw
    rw [Worker.advance_finished (h w' hw')]
    exact h w' hw'
  · exact h w hw

/-- What running every assigned worker to its end gives. -/
def finalWorkers (snap : Snapshot) (alloc : Alloc) (ws₀ : List Worker) : List Worker :=
  ws₀.mapIdx fun i w => scanWorkerFn snap (alloc.worker i) w

/-- Every worker from 1 to `i - 1` has a thread or is done. -/
def Dispatched (s : ScanState) (i : Nat) : Prop := ∀ j, 1 ≤ j → j < i → j ∈ s.spawned ∨ ¬ s.busy j

/-- What the main thread knows at each point of its program. -/
def PcInv (snap : Snapshot) (alloc : Alloc) (useStats : Bool) (ws₀ : List Worker) (s : ScanState) :
    Prop :=
  match s.pc with
  | .create i => 1 ≤ i ∧ i ≤ ws₀.length ∧ Dispatched s i
  | .runInline i => 1 ≤ i ∧ i < ws₀.length ∧ Dispatched s i
  | .own => Dispatched s ws₀.length
  | .join i => 1 ≤ i ∧ i ≤ ws₀.length ∧ Dispatched s ws₀.length ∧ ∀ j, j < i → ¬ s.busy j
  | .returned o =>
      s.workers = finalWorkers snap alloc ws₀ ∧
        o = mergeWorkers alloc.merge useStats (finalWorkers snap alloc ws₀)

/-- **The invariant of the interleaved scan**: each record, run to its end from where it stands, gives
    what its assigned chunk gives. -/
structure ScanInv (snap : Snapshot) (alloc : Alloc) (useStats : Bool) (ws₀ : List Worker)
    (s : ScanState) : Prop where
  nonempty : 0 < ws₀.length
  length_eq : s.workers.length = ws₀.length
  rest : ∀ i w, s.workers[i]? = some w → ∃ w₀, ws₀[i]? = some w₀ ∧
    scanWorkerFn snap (alloc.worker i) w = scanWorkerFn snap (alloc.worker i) w₀
  pc : PcInv snap alloc useStats ws₀ s

theorem rest_tick {ws₀ : List Worker} {s : ScanState}
    (h : ∀ i w, s.workers[i]? = some w → ∃ w₀, ws₀[i]? = some w₀ ∧
      scanWorkerFn snap (alloc.worker i) w = scanWorkerFn snap (alloc.worker i) w₀) (k : Nat) :
    ∀ i w, (s.tick snap alloc k).workers[i]? = some w → ∃ w₀, ws₀[i]? = some w₀ ∧
      scanWorkerFn snap (alloc.worker i) w = scanWorkerFn snap (alloc.worker i) w₀ := by
  intro i w hw
  rw [tick_getElem?] at hw
  split at hw
  · next hki =>
    obtain ⟨w', hw', rfl⟩ := Option.map_eq_some_iff.mp hw
    obtain ⟨w₀, h₀, heq⟩ := h i w' hw'
    exact ⟨w₀, h₀, by rw [hki, scanWorkerFn_advance]; exact heq⟩
  · exact h i w hw

/-- Once no worker is busy, every record is final. -/
theorem workers_final {ws₀ : List Worker} {s : ScanState}
    (h : ScanInv snap alloc useStats ws₀ s) (hall : ∀ j, ¬ s.busy j) :
    s.workers = finalWorkers snap alloc ws₀ := by
  apply List.ext_getElem?
  intro i
  rw [finalWorkers, List.getElem?_mapIdx]
  cases hw : s.workers[i]? with
  | none =>
      have hlen : ws₀.length ≤ i := by
        rw [← h.length_eq]; exact List.getElem?_eq_none_iff.mp hw
      rw [List.getElem?_eq_none hlen]
      rfl
  | some w =>
      obtain ⟨w₀, h₀, heq⟩ := h.rest i w hw
      rw [h₀, Option.map_some, ← heq, scanWorkerFn_of_finished (not_busy_iff.mp (hall i) w hw)]

theorem Dispatched.mono {s : ScanState} {i : Nat} (h : Dispatched s i) {k : Nat} :
    Dispatched (s.tick snap alloc k) i :=
  fun j h1 hj => (h j h1 hj).imp id not_busy_tick

/-- A tick of a worker that is still busy keeps the main thread's knowledge. -/
theorem PcInv.tick {ws₀ : List Worker} {s : ScanState} {k : Nat}
    (h : ScanInv snap alloc useStats ws₀ s) (hbusy : s.busy k) :
    PcInv snap alloc useStats ws₀ (s.tick snap alloc k) := by
  have hpc := h.pc
  have heq : (s.tick snap alloc k).pc = s.pc := rfl
  unfold PcInv at hpc ⊢
  rw [heq]
  cases hs : s.pc with
  | create i => rw [hs] at hpc; exact ⟨hpc.1, hpc.2.1, hpc.2.2.mono⟩
  | runInline i => rw [hs] at hpc; exact ⟨hpc.1, hpc.2.1, hpc.2.2.mono⟩
  | own => rw [hs] at hpc; exact Dispatched.mono hpc
  | join i =>
      rw [hs] at hpc
      exact ⟨hpc.1, hpc.2.1, hpc.2.2.1.mono, fun j hj => not_busy_tick (hpc.2.2.2 j hj)⟩
  | returned o =>
      -- nobody is busy after the last join
      rw [hs] at hpc
      exfalso
      obtain ⟨w, hw, hnot⟩ := hbusy
      rw [hpc.1, finalWorkers, List.getElem?_mapIdx] at hw
      obtain ⟨w₀, -, rfl⟩ := Option.map_eq_some_iff.mp hw
      exact hnot (scanWorkerFn_finished _ w₀ rfl)

/-- **Step lemma.** -/
theorem ScanInv.step {ws₀ : List Worker} {s s' : ScanState}
    (h : ScanInv snap alloc useStats ws₀ s) (hst : Step snap alloc useStats created s s') :
    ScanInv snap alloc useStats ws₀ s' := by
  have hpc := h.pc
  have tick : ∀ k, s.busy k → ScanInv snap alloc useStats ws₀ (s.tick snap alloc k) := fun k hk =>
    ⟨h.nonempty, (List.length_modify _ _ _).trans h.length_eq, rest_tick h.rest k, PcInv.tick h hk⟩
  unfold PcInv at hpc
  cases hst with
  -- the thread is made: the worker is busy on its own
  | @createOk i hs hi hc =>
      rw [hs] at hpc
      rw [h.length_eq] at hi
      refine ⟨h.nonempty, h.length_eq, h.rest, by omega, by omega, fun j h1 hj => ?_⟩
      by_cases hji : j = i
      · exact Or.inl (by rw [hji]; exact List.mem_cons_self)
      · exact (hpc.2.2 j h1 (by omega)).imp (List.mem_cons_of_mem _) id
  -- no thread: the main thread scans this share itself
  | @createFail i hs hi hc =>
      rw [hs] at hpc
      rw [h.length_eq] at hi
      exact ⟨h.nonempty, h.length_eq, h.rest, hpc.1, hi, hpc.2.2⟩
  | @inlineScan i hs hb => exact tick i hb
  | @inlineDone i hs hb =>
      rw [hs] at hpc
      refine ⟨h.nonempty, h.length_eq, h.rest, by omega, by omega, fun j h1 hj => ?_⟩
      by_cases hji : j = i
      · exact Or.inr (by rw [hji]; exact hb)
      · exact hpc.2.2 j h1 (by omega)
  | @createEnd i hs hi =>
      rw [hs] at hpc
      rw [h.length_eq] at hi
      have hd : Dispatched s ws₀.length := by
        rw [show ws₀.length = i by omega]
        exact hpc.2.2
      exact ⟨h.nonempty, h.length_eq, h.rest, hd⟩
  | ownScan hs hb => exact tick 0 hb
  | ownDone hs hb =>
      rw [hs] at hpc
      refine ⟨h.nonempty, h.length_eq, h.rest, Nat.le_refl 1, h.nonempty, hpc, fun j hj => ?_⟩
      rw [show j = 0 by omega]
      exact hb
  -- any worker may move at any time
  | @thread i hi hb => exact tick i hb
  | @join i hs hi hb =>
      rw [hs] at hpc
      rw [h.length_eq] at hi
      refine ⟨h.nonempty, h.length_eq, h.rest, by omega, by omega, hpc.2.2.1, fun j hj => ?_⟩
      by_cases hji : j = i
      · rw [hji]
        exact (hpc.2.2.1 i hpc.1 hi).elim hb id
      · exact hpc.2.2.2 j (by omega)
  | @joinEnd i hs hi =>
      rw [hs] at hpc
      -- all are joined, so the workers are as they will be merged
      have hall : ∀ j, ¬ s.busy j := by
        intro j
        by_cases hj : j < i
        · exact hpc.2.2.2 j hj
        · rw [not_busy_iff]
          intro w hw
          rw [List.getElem?_eq_none (by omega)] at hw
          cases hw
      have hfin := workers_final h hall
      exact ⟨h.nonempty, h.length_eq, h.rest, hfin, by rw [hfin]⟩

/-! ### Every run ends, and ends by returning -/

/-- What a worker has left to scan. -/
def Worker.left (w : Worker) : Nat := if w.failed then 0 else w.pids.length - w.pos

theorem Worker.left_advance {realloc : Nat → Bool} {w : Worker} (h : ¬ w.finished) :
    (w.advance snap realloc).left < w.left := by
  have hlt : w.failed = false ∧ w.pos < w.pids.length := by
    unfold Worker.finished at h
    rw [not_or, Bool.not_eq_true, not_le] at h
    exact h
  unfold Worker.left
  rw [hlt.1, (Worker.advance_given snap realloc w).1]
  rcases Worker.advance_progress snap realloc h with ⟨hpos, hf⟩ | hf
  · rw [hf, hpos]
    simp only [Bool.false_eq_true, if_false]
    omega
  · rw [hf]
    simp only [if_true, Bool.false_eq_true, if_false]
    omega

/-- How far the main thread is from returning, with `n` workers. -/
def MainPc.rank (n : Nat) : MainPc → Nat
  | .create i => 2 * (n - i) + n + 4
  | .runInline i => 2 * (n - i) + n + 3
  | .own => n + 3
  | .join i => n + 2 - i
  | .returned _ => 0

/-- Pids left to scan plus program points left: each step lowers the sum. -/
def ScanState.measure (s : ScanState) : Nat :=
  (s.workers.map Worker.left).sum + s.pc.rank s.workers.length

theorem sum_map_modify_lt {f : Worker → Worker} {g : Worker → Nat} {l : List Worker} {i : Nat}
    {w : Worker} (hw : l[i]? = some w) (hlt : g (f w) < g w) :
    ((l.modify i f).map g).sum < (l.map g).sum := by
  induction l generalizing i with
  | nil => simp at hw
  | cons a l ih =>
      cases i with
      | zero =>
          rw [List.getElem?_cons_zero] at hw
          rw [List.modify_zero_cons, List.map_cons, List.map_cons, List.sum_cons, List.sum_cons,
            Option.some.inj hw]
          omega
      | succ i =>
          rw [List.getElem?_cons_succ] at hw
          rw [List.modify_succ_cons, List.map_cons, List.map_cons, List.sum_cons, List.sum_cons]
          have := ih hw
          omega

theorem measure_tick {s : ScanState} {k : Nat} (hb : s.busy k) :
    (s.tick snap alloc k).measure < s.measure := by
  obtain ⟨w, hw, hnot⟩ := hb
  have hleft : (w.advance snap (alloc.worker k)).left < w.left := Worker.left_advance hnot
  have hlt := sum_map_modify_lt hw hleft
  unfold ScanState.measure
  have hlen : (s.tick snap alloc k).workers.length = s.workers.length := List.length_modify _ _ _
  have hpc : (s.tick snap alloc k).pc = s.pc := rfl
  rw [hlen, hpc]
  exact Nat.add_lt_add_right hlt _

theorem measure_step {ws₀ : List Worker} {s s' : ScanState}
    (h : ScanInv snap alloc useStats ws₀ s) (hst : Step snap alloc useStats created s s') :
    s'.measure < s.measure := by
  have hpc := h.pc
  have hlen := h.length_eq
  unfold PcInv at hpc
  cases hst with
  -- the workers have as much to do as before, but the main thread is further on
  | createOk hs hi _ =>
      simp only [ScanState.measure, hs, MainPc.rank]
      omega
  | createFail hs hi _ =>
      simp only [ScanState.measure, hs, MainPc.rank]
      omega
  -- a worker has one process fewer to scan
  | inlineScan hs hb => exact measure_tick hb
  | inlineDone hs hb =>
      rw [hs] at hpc
      have hi := hpc.2.1
      simp only [ScanState.measure, hs, MainPc.rank]
      omega
  | createEnd hs hi =>
      simp only [ScanState.measure, hs, MainPc.rank]
      omega
  | ownScan hs hb => exact measure_tick hb
  | ownDone hs hb =>
      simp only [ScanState.measure, hs, MainPc.rank]
      omega
  | thread hi hb => exact measure_tick hb
  | join hs hi _ =>
      simp only [ScanState.measure, hs, MainPc.rank]
      omega
  | joinEnd hs hi =>
      rw [hs] at hpc
      have hle := hpc.2.1
      simp only [ScanState.measure, hs, MainPc.rank]
      omega

/-- A main thread that has not returned is never stuck: if it waits for a worker, that worker runs. -/
theorem step_exists (s : ScanState) (h : ∀ o, s.pc ≠ .returned o) :
    ∃ s', Step snap alloc useStats created s s' := by
  cases hs : s.pc with
  | create i =>
      by_cases hi : i < s.workers.length
      · cases hc : created i with
        | true => exact ⟨_, .createOk hs hi hc⟩
        | false => exact ⟨_, .createFail hs hi hc⟩
      · exact ⟨_, .createEnd hs (by omega)⟩
  | runInline i =>
      by_cases hb : s.busy i
      · exact ⟨_, .inlineScan hs hb⟩
      · exact ⟨_, .inlineDone hs hb⟩
  | own =>
      by_cases hb : s.busy 0
      · exact ⟨_, .ownScan hs hb⟩
      · exact ⟨_, .ownDone hs hb⟩
  | join i =>
      by_cases hi : i < s.workers.length
      · by_cases hb : i ∈ s.spawned ∧ s.busy i
        · exact ⟨_, .thread hb.1 hb.2⟩
        · exact ⟨_, .join hs hi (fun hm hbusy => hb ⟨hm, hbusy⟩)⟩
      · exact ⟨_, .joinEnd hs (by omega)⟩
  | returned o => exact absurd hs (h o)

end Threads

/-! ## `run_parallel_scan` in list mode -/

section ListMode

variable {snap : Snapshot} {alloc : Alloc} {pids : List Int} {minSize : Int} {uidFilter : Nat}
  {numThreads : Int} {useStats : Bool} {created : Nat → Bool}

theorem finalWorkers_ended {ws₀ : List Worker} :
    ∀ alloc : Alloc, (∀ w ∈ ws₀, w.Fresh minSize uidFilter useStats) →
      AllEnded snap minSize uidFilter useStats ws₀ (finalWorkers snap alloc ws₀) := by
  induction ws₀ with
  | nil => exact fun _ _ => List.Forall₂.nil
  | cons w ws ih =>
      intro alloc h
      unfold finalWorkers
      rw [List.mapIdx_cons]
      exact List.Forall₂.cons (scanWorkerFn_ended (h w (by simp)))
        (ih { alloc with worker := fun i => alloc.worker (i + 1) } (fun w hw => h w (by simp [hw])))

theorem finalWorkers_not_failed {ws₀ : List Worker}
    (hr : useStats = true ∨ ∀ i n, alloc.worker i n = true)
    (h : ∀ w ∈ ws₀, w.Fresh minSize uidFilter useStats) :
    ∀ w ∈ finalWorkers snap alloc ws₀, w.failed = false := by
  intro w hw
  obtain ⟨i, hi, rfl⟩ := List.mem_mapIdx.mp hw
  have hfresh := h _ (List.getElem_mem hi)
  have hkeep := scanWorkerFn_induct (fun w => w.failed = false ∧ w.useStats = useStats)
    (fun w hw => ⟨Worker.advance_not_failed snap (hr.imp (hw.2.trans ·) (· i)) hw.1,
      (Worker.advance_given snap _ w).2.2.2.trans hw.2⟩)
    ⟨hfresh.failed_eq, hfresh.useStats_eq⟩
  exact hkeep.1

/-- The state of the interleaved scan before the first `pthread_create`. -/
theorem ScanInv.init (hc : (alloc.callocWorkers && alloc.callocTids) = true) :
    ScanInv snap alloc useStats
      (assignWorkers pids minSize uidFilter useStats
        (pickThreadCount snap.nprocessors numThreads pids.length))
      (initState snap alloc pids minSize uidFilter numThreads useStats) := by
  have hlen : 0 < (assignWorkers pids minSize uidFilter useStats
      (pickThreadCount snap.nprocessors numThreads pids.length)).length := by
    unfold assignWorkers
    rw [assignLoop_length]
    exact pickThreadCount_pos _ _ _
  refine ⟨hlen, rfl, fun i w hw => ⟨w, hw, rfl⟩, ?_⟩
  simp only [PcInv, initState, if_pos hc]
  exact ⟨Nat.le_refl 1, hlen, fun j h1 hj => by omega⟩

theorem ScanInv.reach {ws₀ : List Worker} {s₀ s : ScanState}
    (h : ScanInv snap alloc useStats ws₀ s₀)
    (hr : Relation.ReflTransGen (Step snap alloc useStats created) s₀ s) :
    ScanInv snap alloc useStats ws₀ s := by
  induction hr with
  | refl => exact h
  | tail _ hst ih => exact ih.step hst

/-- After a failed `calloc` nothing runs. -/
theorem no_step_of_calloc_failed (hc : ¬ (alloc.callocWorkers && alloc.callocTids) = true)
    {s : ScanState}
    (hr : Relation.ReflTransGen (Step snap alloc useStats created)
      (initState snap alloc pids minSize uidFilter numThreads useStats) s) :
    s = initState snap alloc pids minSize uidFilter numThreads useStats := by
  have hpc : (initState snap alloc pids minSize uidFilter numThreads useStats).pc =
      .returned .error := by
    simp only [initState, if_neg hc]
  induction hr with
  | refl => rfl
  | tail _ hst ih =>
      exfalso
      rw [ih] at hst
      cases hst with
      | createOk hs _ _ => rw [hpc] at hs; cases hs
      | createFail hs _ _ => rw [hpc] at hs; cases hs
      | inlineScan hs _ => rw [hpc] at hs; cases hs
      | inlineDone hs _ => rw [hpc] at hs; cases hs
      | createEnd hs _ => rw [hpc] at hs; cases hs
      | ownScan hs _ => rw [hpc] at hs; cases hs
      | ownDone hs _ => rw [hpc] at hs; cases hs
      | thread hi _ => cases hi
      | join hs _ _ => rw [hpc] at hs; cases hs
      | joinEnd hs _ => rw [hpc] at hs; cases hs

/-- **Any interleaving returns what the sequential text returns.** -/
theorem interleaved_returns {s : ScanState} {o : Outcome}
    (hr : Relation.ReflTransGen (Step snap alloc useStats created)
      (initState snap alloc pids minSize uidFilter numThreads useStats) s)
    (ho : s.pc = .returned o) :
    o = runParallelScan snap alloc pids minSize uidFilter numThreads useStats := by
  unfold runParallelScan
  by_cases hc : (alloc.callocWorkers && alloc.callocTids) = true
  · have hpc := ((ScanInv.init hc).reach hr).pc
    unfold PcInv at hpc
    rw [ho] at hpc
    rw [if_pos hc]
    exact hpc.2
  · rw [no_step_of_calloc_failed hc hr] at ho
    simp only [initState, if_neg hc] at ho
    rw [if_neg hc]
    exact (MainPc.returned.inj ho).symm

/-- **What list mode returns**: everything discarded, or the concatenation in pid order. -/
theorem runParallelScan_list (snap : Snapshot) (alloc : Alloc) (pids : List Int) (minSize : Int)
    (uidFilter : Nat) (numThreads : Int) :
    runParallelScan snap alloc pids minSize uidFilter numThreads false = .error ∨
      ∃ out, runParallelScan snap alloc pids minSize uidFilter numThreads false = .list out ∧
        out.items = pids.flatMap (pidEntries snap minSize uidFilter) := by
  unfold runParallelScan
  by_cases hc : (alloc.callocWorkers && alloc.callocTids) = true
  · rw [if_pos hc]
    rcases mergeWorkers_list alloc.merge (finalWorkers_ended alloc
        (assignLoop_fresh pids minSize uidFilter false _ _ _ 0 0)) with h | ⟨out, h, hitems, -⟩
    · exact Or.inl h
    · refine Or.inr ⟨out, h, ?_⟩
      rw [hitems]
      exact congrArg _ (assignWorkers_pids pids minSize uidFilter false (pickThreadCount_pos _ _ _))
  · exact Or.inl (by rw [if_neg hc])

theorem runParallelScan_list_ok (snap : Snapshot) (pids : List Int) (minSize : Int)
    (uidFilter : Nat) (numThreads : Int) :
    runParallelScan snap Alloc.ok pids minSize uidFilter numThreads false ≠ .error := by
  unfold runParallelScan
  rw [if_pos (show (Alloc.ok.callocWorkers && Alloc.ok.callocTids) = true from rfl)]
  exact mergeWorkers_list_ok (fun _ => rfl)
    (finalWorkers_not_failed (Or.inr fun _ _ => rfl)
      (assignLoop_fresh pids minSize uidFilter false _ _ _ 0 0))

/-- **What stats mode returns**, once its two arrays are there: the tally of the same entries. -/
theorem runParallelScan_stats (snap : Snapshot) {alloc : Alloc}
    (hc : (alloc.callocWorkers && alloc.callocTids) = true) (pids : List Int) (minSize : Int) (uidFilter : Nat)
    (numThreads : Int) :
    runParallelScan snap alloc pids minSize uidFilter numThreads true =
      .stats (tally (pids.flatMap (pidEntries snap minSize uidFilter))) := by
  have hfresh := assignLoop_fresh pids minSize uidFilter true
    (pids.length / pickThreadCount snap.nprocessors numThreads pids.length)
    (pids.length % pickThreadCount snap.nprocessors numThreads pids.length)
    (pickThreadCount snap.nprocessors numThreads pids.length) 0 0
  unfold runParallelScan
  rw [if_pos hc]
  refine (mergeWorkers_stats alloc.merge (finalWorkers_ended alloc hfresh)
    (finalWorkers_not_failed (Or.inl rfl) hfresh)).trans ?_
  have hpids := assignWorkers_pids pids minSize uidFilter true
    (pickThreadCount_pos snap.nprocessors numThreads pids.length)
  exact congrArg (fun ps => Outcome.stats (tally (ps.flatMap (pidEntries snap minSize uidFilter)))) hpids

/-- At a successful return every pid of the list has been scanned exactly once. -/
theorem interleaved_scanned {s : ScanState} {out : HsedList}
    (hr : Relation.ReflTransGen (Step snap alloc false created)
      (initState snap alloc pids minSize uidFilter numThreads false) s)
    (ho : s.pc = .returned (.list out)) :
    s.workers.flatMap (fun w => w.pids.take w.pos) = pids := by
  by_cases hc : (alloc.callocWorkers && alloc.callocTids) = true
  · have hpc := ((ScanInv.init hc).reach hr).pc
    unfold PcInv at hpc
    rw [ho] at hpc
    rcases mergeWorkers_list alloc.merge (finalWorkers_ended alloc
        (assignLoop_fresh pids minSize uidFilter false _ _ _ 0 0)) with h | ⟨out', -, -, hscan⟩
    · exact absurd (hpc.2.trans h) (by simp)
    · rw [hpc.1]
      exact hscan.trans
        (assignWorkers_pids pids minSize uidFilter false (pickThreadCount_pos _ _ _))
  · rw [no_step_of_calloc_failed hc hr] at ho
    simp only [initState, if_neg hc] at ho
    exact absurd (MainPc.returned.inj ho) (by simp)

/-- No run goes on for ever. -/
theorem interleaved_terminates (run : Nat → ScanState)
    (h0 : run 0 = initState snap alloc pids minSize uidFilter numThreads useStats) :
    ¬ ∀ k, Step snap alloc useStats created (run k) (run (k + 1)) := by
  intro hall
  have hreach : ∀ k, Relation.ReflTransGen (Step snap alloc useStats created)
      (initState snap alloc pids minSize uidFilter numThreads useStats) (run k) := by
    intro k
    induction k with
    | zero => rw [h0]
    | succ k ih => exact ih.tail (hall k)
  by_cases hc : (alloc.callocWorkers && alloc.callocTids) = true
  · -- each step lowers the measure
    have hbound : ∀ k, (run k).measure + k ≤ (run 0).measure := by
      intro k
      induction k with
      | zero => exact Nat.le_refl _
      | succ k ih =>
          have := measure_step ((ScanInv.init hc).reach (hreach k)) (hall k)
          omega
    have := hbound ((run 0).measure + 1)
    omega
  · -- the initial state itself has no successor
    have h1 := no_step_of_calloc_failed hc (hreach 1)
    have hst := hall 0
    rw [h0, h1] at hst
    have hne : ∀ s : ScanState, s.pc = .returned .error → s.spawned = [] →
        ¬ ∃ s', Step snap alloc useStats created s s' := by
      rintro s hpc hsp ⟨s', hst⟩
      cases hst <;> simp_all
    exact hne _ (by simp only [initState, if_neg hc]) rfl ⟨_, hst⟩

end ListMode

/-! ## `hsed_scan` -/

theorem gatherLoop_eq {realloc : Nat → Bool} {names : List Bytes} :
    ∀ {pids pids' : List Int} {cap : Nat}, gatherLoop realloc names pids cap = some pids' →
      pids' = pids ++ (names.filter isAllDigits).map fun name => toInt32 (strtol name) := by
  induction names with
  | nil =>
      intro pids pids' cap h
      rw [← Option.some.inj h, List.filter_nil, List.map_nil, List.append_nil]
  | cons name names ih =>
      intro pids pids' cap h
      simp only [gatherLoop] at h
      cases hd : isAllDigits name with
      | false =>
          simp only [hd, Bool.not_false, if_true] at h
          rw [ih h, List.filter_cons_of_neg (by simp [hd])]
      | true =>
          simp only [hd, Bool.not_true, Bool.false_eq_true, if_false] at h
          rw [List.filter_cons_of_pos hd, List.map_cons, List.append_cons]
          generalize (if cap = 0 then 256 else cap * 2) = newcap at h
          split at h
          · split at h
            · exact ih h
            · cases h
          · exact ih h

theorem gatherLoop_ok {realloc : Nat → Bool} (hr : ∀ n, realloc n = true) (names : List Bytes) :
    ∀ (pids : List Int) (cap : Nat), ∃ pids', gatherLoop realloc names pids cap = some pids' := by
  induction names with
  | nil => exact fun pids _ => ⟨pids, rfl⟩
  | cons name names ih =>
      intro pids cap
      simp only [gatherLoop]
      split
      · exact ih _ _
      · split
        · rw [if_pos (hr _)]
          exact ih _ _
        · exact ih _ _

/-- The pids are the same whichever allocations were needed to collect them. -/
theorem gatherPids_ok {realloc : Nat → Bool} {snap : Snapshot} {pids : List Int}
    (h : gatherPids realloc snap = some pids) : gatherPids (fun _ => true) snap = some pids := by
  unfold gatherPids at h ⊢
  cases hn : snap.names with
  | none => rw [hn] at h; cases h
  | some names =>
      rw [hn] at h
      obtain ⟨pids', h'⟩ := @gatherLoop_ok (fun _ => true) (fun _ => rfl) names [] 0
      simp only at h ⊢
      rw [h', gatherLoop_eq h, gatherLoop_eq h']

theorem cmpBySizeDesc_le_zero {a b : Entry} : cmpBySizeDesc a b ≤ 0 ↔ b.size ≤ a.size := by
  unfold cmpBySizeDesc
  split
  · omega
  · split <;> omega

/-- `qsort` as a merge sort. -/
def mergeQsort : Qsort where
  sort := fun es => es.mergeSort fun a b => decide (cmpBySizeDesc a b ≤ 0)
  perm := fun es => List.mergeSort_perm es _
  sorted := by
    intro es
    have h := @List.pairwise_mergeSort Entry (fun a b => decide (cmpBySizeDesc a b ≤ 0)) ?_ ?_ es
    · simpa using h
    · intro a b c hab hbc
      simp only [decide_eq_true_eq, cmpBySizeDesc_le_zero] at hab hbc ⊢
      omega
    · intro a b
      simp only [Bool.or_eq_true, decide_eq_true_eq, cmpBySizeDesc_le_zero]
      omega

/-- `if (count > 1) qsort(…)`: sorted either way. -/
theorem sortList_spec (qsort : Qsort) (es : List Entry) :
    (if 1 < es.length then qsort.sort es else es).Perm es ∧
      (if 1 < es.length then qsort.sort es else es).Pairwise fun a b => b.size ≤ a.size := by
  split
  · exact ⟨qsort.perm es, (qsort.sorted es).imp cmpBySizeDesc_le_zero.mp⟩
  · next h =>
    refine ⟨List.Perm.refl es, ?_⟩
    match es, h with
    | [], _ => exact List.Pairwise.nil
    | [e], _ => exact List.pairwise_singleton _ e
    | _ :: _ :: _, h => simp at h

/-- **What `hsed_scan` returns**: a sorted permutation of the entries of the process, or of all the
    gathered processes in order. -/
theorem hsedScan_spec {qsort : Qsort} {snap : Snapshot} {alloc : Alloc} {minSize onlyPid : Int}
    {uidFilter : Nat} {numThreads : Int} {es : List Entry}
    (h : hsedScan qsort snap alloc minSize onlyPid uidFilter numThreads = some es) :
    es.Pairwise (fun a b => b.size ≤ a.size) ∧
    ((0 < onlyPid ∧ es.Perm (pidEntries snap minSize uidFilter onlyPid)) ∨
     (¬ 0 < onlyPid ∧ ∃ pids, gatherPids (fun _ => true) snap = some pids ∧
        es.Perm (pids.flatMap (pidEntries snap minSize uidFilter)))) := by
  unfold hsedScan at h
  by_cases hpid : 0 < onlyPid
  · rw [if_pos hpid] at h
    cases hs : scanOnePidList snap alloc.single minSize uidFilter hsedListInit onlyPid with
    | none => rw [hs] at h; cases h
    -- one process
    | some out =>
        rw [hs] at h
        obtain ⟨hperm, hsort⟩ := sortList_spec qsort out.items
        rw [Option.some.inj h] at hperm hsort
        rw [scanOnePidList_items hs] at hperm
        exact ⟨hsort, Or.inl ⟨hpid, hperm⟩⟩
  · rw [if_neg hpid] at h
    cases hg : gatherPids alloc.gather snap with
    | none => rw [hg] at h; cases h
    | some pids =>
        simp only [hg] at h
        -- all of them, by as many threads as there are
        rcases runParallelScan_list snap alloc pids minSize uidFilter numThreads with he | ⟨out, ho, hit⟩
        · rw [he] at h; cases h
        · rw [ho] at h
          obtain ⟨hperm, hsort⟩ := sortList_spec qsort out.items
          rw [Option.some.inj h] at hperm hsort
          rw [hit] at hperm
          exact ⟨hsort, Or.inr ⟨hpid, pids, gatherPids_ok hg, hperm⟩⟩

/-- **What `hsed_scan_stats` returns**: the tally of the entries of all the gathered processes. -/
theorem hsedScanStats_spec {snap : Snapshot} {alloc : Alloc} {minSize : Int} {uidFilter : Nat}
    {numThreads : Int} {st : Stats} (h : hsedScanStats snap alloc minSize uidFilter numThreads = some st) :
    ∃ pids, gatherPids (fun _ => true) snap = some pids ∧
      st = tally (pids.flatMap (pidEntries snap minSize uidFilter)) := by
  unfold hsedScanStats at h
  cases hg : gatherPids alloc.gather snap with
  | none => rw [hg] at h; cases h
  | some pids =>
      refine ⟨pids, gatherPids_ok hg, ?_⟩
      by_cases hc : (alloc.callocWorkers && alloc.callocTids) = true
      · simp only [hg, runParallelScan_stats snap hc] at h
        exact (Option.some.inj h).symm
      · simp only [hg, runParallelScan, if_neg hc] at h
        cases h

/-- Without allocation failures `hsed_scan` succeeds whenever `/proc` can be listed. -/
theorem hsedScan_ok (qsort : Qsort) {snap : Snapshot} (minSize onlyPid : Int) (uidFilter : Nat)
    (numThreads : Int) (hn : 0 < onlyPid ∨ ∃ pids, gatherPids (fun _ => true) snap = some pids) :
    ∃ es, hsedScan qsort snap Alloc.ok minSize onlyPid uidFilter numThreads = some es := by
  unfold hsedScan
  by_cases hpid : 0 < onlyPid
  · obtain ⟨out, hs⟩ := @scanOnePidList_ok snap Alloc.ok.single (fun _ => rfl) minSize uidFilter
      hsedListInit onlyPid
    exact ⟨_, by rw [if_pos hpid, hs]⟩
  · obtain ⟨pids, hg⟩ := hn.resolve_left hpid
    have hg' : gatherPids Alloc.ok.gather snap = some pids := hg
    rcases runParallelScan_list snap Alloc.ok pids minSize uidFilter numThreads with he | ⟨out, ho, -⟩
    · exact absurd he (runParallelScan_list_ok snap pids minSize uidFilter numThreads)
    · exact ⟨if 1 < out.items.length then qsort.sort out.items else out.items,
        by simp only [if_neg hpid, hg', ho]⟩

/-- **Parallel scan equals sequential scan.** For every snapshot, filter, thread count, set of failing
    `pthread_create`s and pattern of allocation failures: `run_parallel_scan` in list mode never blocks
    and never runs for ever; when it returns, it returns `-1`, or `0` with the concatenation in pid order
    of what `scan_one_pid` yields, each pid scanned exactly once; without allocation failures it does not
    return `-1`. So `hsed_scan`'s result is a permutation of the one-thread result, non-increasing in
    size. -/
theorem parallel_scan_eq_sequential (qsort : Qsort) (snap : Snapshot) (alloc : Alloc)
    (pids : List Int) (minSize : Int) (uidFilter : Nat) (numThreads : Int) (created : Nat → Bool) :
    (∀ s, Relation.ReflTransGen (Step snap alloc false created)
        (initState snap alloc pids minSize uidFilter numThreads false) s →
      (∃ o, s.pc = .returned o) ∨ ∃ s', Step snap alloc false created s s') ∧
    (∀ run : Nat → ScanState, run 0 = initState snap alloc pids minSize uidFilter numThreads false →
      ¬ ∀ k, Step snap alloc false created (run k) (run (k + 1))) ∧
    (∀ s o, Relation.ReflTransGen (Step snap alloc false created)
        (initState snap alloc pids minSize uidFilter numThreads false) s →
      s.pc = .returned o →
      o = runParallelScan snap alloc pids minSize uidFilter numThreads false ∧
      (o = .error ∨ ∃ out, o = .list out ∧
        out.items = pids.flatMap (pidEntries snap minSize uidFilter) ∧
        s.workers.flatMap (fun w => w.pids.take w.pos) = pids) ∧
      (alloc = Alloc.ok → o ≠ .error)) ∧
    (∀ onlyPid es, hsedScan qsort snap alloc minSize onlyPid uidFilter numThreads = some es →
      (∃ es₁, hsedScan qsort snap Alloc.ok minSize onlyPid uidFilter 1 = some es₁ ∧ es.Perm es₁) ∧
      es.Pairwise fun a b => b.size ≤ a.size) := by
  refine ⟨fun s _ => ?_, fun run h0 => interleaved_terminates run h0, fun s o hr ho => ?_,
    fun onlyPid es h => ?_⟩
  · -- never stuck
    by_cases hret : ∃ o, s.pc = .returned o
    · exact Or.inl hret
    · exact Or.inr (step_exists s fun o ho => hret ⟨o, ho⟩)
  · -- every interleaving returns what the workers return one after the other
    have hseq := interleaved_returns hr ho
    refine ⟨hseq, ?_, ?_⟩
    · rcases runParallelScan_list snap alloc pids minSize uidFilter numThreads with he | ⟨out, hl, hit⟩
      · exact Or.inl (hseq.trans he)
      · have hout := hseq.trans hl
        exact Or.inr ⟨out, hout, hit, interleaved_scanned hr (ho.trans (by rw [hout]))⟩
    · rintro rfl
      rw [hseq]
      exact runParallelScan_list_ok snap pids minSize uidFilter numThreads
  · -- both results are sorted copies of the same walk
    obtain ⟨hsort, hcase⟩ := hsedScan_spec h
    have hn : 0 < onlyPid ∨ ∃ pids, gatherPids (fun _ => true) snap = some pids :=
      hcase.imp (·.1) fun hp => ⟨hp.2.choose, hp.2.choose_spec.1⟩
    obtain ⟨es₁, h₁⟩ := hsedScan_ok qsort minSize onlyPid uidFilter 1 hn
    obtain ⟨-, hcase₁⟩ := hsedScan_spec h₁
    refine ⟨⟨es₁, h₁, ?_⟩, hsort⟩
    rcases hcase with ⟨hp, hperm⟩ | ⟨hp, pids', hg, hperm⟩
    · rcases hcase₁ with ⟨-, hperm₁⟩ | ⟨hp₁, -⟩
      · exact hperm.trans hperm₁.symm
      · exact absurd hp hp₁
    · rcases hcase₁ with ⟨hp₁, -⟩ | ⟨-, pids₁, hg₁, hperm₁⟩
      · exact absurd hp₁ hp
      · rw [hg] at hg₁
        rw [Option.some.inj hg₁] at hperm
        exact hperm.trans hperm₁.symm

end Scan
end Hsed
