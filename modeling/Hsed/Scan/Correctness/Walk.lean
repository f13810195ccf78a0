import Hsed.Scan.ParallelScan

/-!
# `Scan.Correctness.Walk` — what one descriptor walk yields, and how a worker accumulates it

`pidEntries` is the list `scan_one_pid` builds for a pid when no allocation fails. The lemmas here say
that every successful walk appends exactly that list (`scanOnePidList_items`), whatever the list held
before and however the per-process strings were cached, and that a walk fails only if an allocation does
(`scanOnePidList_ok`). A worker that has not failed therefore holds the entries of the pids it has passed
(`Worker.Inv`), in stats mode their number and total size.
-/

namespace Hsed
namespace Scan

open CLib

/-! ## `list_push` -/

theorem listPush_items {realloc : Nat → Bool} {list list' : HsedList} {e : Entry}
    (h : listPush realloc list e = some list') : list'.items = list.items ++ [e] := by
  simp only [listPush] at h
  split at h
  · split at h
    · rw [← Option.some.inj h]
    · cases h
  · rw [← Option.some.inj h]

theorem listPush_ok {realloc : Nat → Bool} (hr : ∀ n, realloc n = true) (list : HsedList) (e : Entry) :
    ∃ list', listPush realloc list e = some list' := by
  unfold listPush
  split
  · exact ⟨_, by rw [if_pos (hr _)]⟩
  · exact ⟨_, rfl⟩

theorem pushAll_items {realloc : Nat → Bool} {es : List Entry} :
    ∀ {list list' : HsedList}, pushAll realloc list es = some list' →
      list'.items = list.items ++ es := by
  induction es with
  | nil =>
      intro list list' h
      rw [← Option.some.inj h, List.append_nil]
  | cons e es ih =>
      intro list list' h
      unfold pushAll at h
      cases hp : listPush realloc list e with
      | none => rw [hp] at h; cases h
      | some mid =>
          rw [hp] at h
          rw [ih h, listPush_items hp, List.append_assoc, List.singleton_append]

theorem pushAll_ok {realloc : Nat → Bool} (hr : ∀ n, realloc n = true) (es : List Entry) :
    ∀ list : HsedList, ∃ list', pushAll realloc list es = some list' := by
  induction es with
  | nil => exact fun list => ⟨list, rfl⟩
  | cons e es ih =>
      intro list
      obtain ⟨mid, hp⟩ := listPush_ok hr list e
      obtain ⟨list', h⟩ := ih mid
      exact ⟨list', by unfold pushAll; rw [hp]; exact h⟩

/-! ## One process -/

/-- The strings every entry of one process carries, whichever descriptor loads them. -/
def loaded (snap : Snapshot) (pid : Int) (ownerUid : Nat) : Cache :=
  Cache.empty.load snap pid ownerUid

/-- The entry of one directory entry, if it matches. -/
def fdEntry (snap : Snapshot) (pid : Int) (ownerUid : Nat) (minSize : Int) (d : FdEnt) : Option Entry :=
  (matchFd minSize d).map fun (fdnum, path, st) =>
    mkEntry snap pid ownerUid (loaded snap pid ownerUid) fdnum path st

/-- A cache in use is empty or fully loaded. -/
def Cache.Ok (snap : Snapshot) (pid : Int) (ownerUid : Nat) (c : Cache) : Prop :=
  c = Cache.empty ∨ c = loaded snap pid ownerUid

theorem Cache.load_eq {snap : Snapshot} {pid : Int} {ownerUid : Nat} {c : Cache}
    (h : c.Ok snap pid ownerUid) : c.load snap pid ownerUid = loaded snap pid ownerUid := by
  rcases h with rfl | rfl <;> rfl

theorem listLoop_items {snap : Snapshot} {realloc : Nat → Bool} {pid : Int} {ownerUid : Nat}
    {minSize : Int} {ds : List FdEnt} :
    ∀ {c : Cache} {out out' : HsedList}, c.Ok snap pid ownerUid →
      listLoop snap realloc pid ownerUid minSize ds c out = some out' →
      out'.items = out.items ++ ds.filterMap (fdEntry snap pid ownerUid minSize) := by
  induction ds with
  | nil =>
      intro c out out' _ h
      rw [← Option.some.inj h, List.filterMap_nil, List.append_nil]
  | cons d ds ih =>
      intro c out out' hc h
      unfold listLoop at h
      cases hm : matchFd minSize d with
      | none =>
          rw [hm] at h
          rw [ih hc h, List.filterMap_cons_none (by rw [fdEntry, hm]; rfl)]
      | some r =>
          obtain ⟨fdnum, path, st⟩ := r
          rw [hm] at h
          simp only [Cache.load_eq hc] at h
          cases hp : listPush realloc out
              (mkEntry snap pid ownerUid (loaded snap pid ownerUid) fdnum path st) with
          | none => rw [hp] at h; cases h
          | some mid =>
              rw [hp] at h
              rw [ih (Or.inr rfl) h, listPush_items hp, List.append_assoc, List.singleton_append,
                List.filterMap_cons_some (by rw [fdEntry, hm]; rfl)]

theorem listLoop_ok {snap : Snapshot} {realloc : Nat → Bool} {pid : Int} {ownerUid : Nat}
    {minSize : Int} (hr : ∀ n, realloc n = true) (ds : List FdEnt) :
    ∀ (c : Cache) (out : HsedList),
      ∃ out', listLoop snap realloc pid ownerUid minSize ds c out = some out' := by
  induction ds with
  | nil => exact fun c out => ⟨out, rfl⟩
  | cons d ds ih =>
      intro c out
      unfold listLoop
      cases hm : matchFd minSize d with
      | none => exact ih c out
      | some r =>
          obtain ⟨fdnum, path, st⟩ := r
          obtain ⟨mid, hp⟩ := listPush_ok hr out
            (mkEntry snap pid ownerUid (c.load snap pid ownerUid) fdnum path st)
          simp only [hp]
          exact ih _ mid

/-- What `scan_one_pid` yields for a pid: the list it builds when no allocation fails. -/
def pidEntries (snap : Snapshot) (minSize : Int) (uidFilter : Nat) (pid : Int) : List Entry :=
  match scanOnePidList snap (fun _ => true) minSize uidFilter hsedListInit pid with
  | none => []
  | some out => out.items

theorem scanOnePidList_ok {snap : Snapshot} {realloc : Nat → Bool} (hr : ∀ n, realloc n = true)
    (minSize : Int) (uidFilter : Nat) (out : HsedList) (pid : Int) :
    ∃ out', scanOnePidList snap realloc minSize uidFilter out pid = some out' := by
  unfold scanOnePidList
  cases openFds snap uidFilter pid with
  | none => exact ⟨out, rfl⟩
  | some r => exact listLoop_ok hr r.2 _ _

/-- `pidEntries` by its parts: the matching descriptors of an openable, unfiltered process. -/
theorem pidEntries_eq (snap : Snapshot) (minSize : Int) (uidFilter : Nat) (pid : Int) :
    pidEntries snap minSize uidFilter pid =
      match openFds snap uidFilter pid with
      | none => []
      | some (ownerUid, ds) => ds.filterMap (fdEntry snap pid ownerUid minSize) := by
  unfold pidEntries scanOnePidList
  cases openFds snap uidFilter pid with
  | none => rfl
  | some r =>
      obtain ⟨ownerUid, ds⟩ := r
      obtain ⟨out, h⟩ := @listLoop_ok snap (fun _ => true) pid ownerUid minSize (fun _ => rfl) ds
        Cache.empty hsedListInit
      simp only [h]
      exact listLoop_items (Or.inl rfl) h

/-- **A successful walk appends what `scan_one_pid` yields**, whatever was in the list before. -/
theorem scanOnePidList_items {snap : Snapshot} {realloc : Nat → Bool} {minSize : Int}
    {uidFilter : Nat} {out out' : HsedList} {pid : Int}
    (h : scanOnePidList snap realloc minSize uidFilter out pid = some out') :
    out'.items = out.items ++ pidEntries snap minSize uidFilter pid := by
  rw [pidEntries_eq]
  unfold scanOnePidList at h
  cases hopen : openFds snap uidFilter pid with
  | none =>
      rw [hopen] at h
      rw [← Option.some.inj h]
      exact (List.append_nil _).symm
  | some r =>
      rw [hopen] at h
      exact listLoop_items (Or.inl rfl) h

/-! ## Stats mode -/

/-- The headline numbers of a list of entries: how many, and the total size as a `long long`. -/
def tally (es : List Entry) : Stats := ⟨es.length, toInt64 (es.map (·.size)).sum⟩

/-- Adding up two tallies, as the workers and the merge do. -/
def Stats.add (s t : Stats) : Stats := ⟨s.count + t.count, toInt64 (s.totalBytes + t.totalBytes)⟩

theorem tally_append (es fs : List Entry) : tally (es ++ fs) = (tally es).add (tally fs) := by
  simp only [tally, Stats.add, List.length_append, List.map_append, List.sum_append, toInt64,
    Int.bmod_add_bmod, Int.add_bmod_bmod]

theorem tally_nil : tally [] = ⟨0, 0⟩ := by decide

/-- One descriptor at a time or all at once: the `readdir` loop in stats mode adds the tally of the
    entries list mode would have built. -/
theorem statsLoop_eq (snap : Snapshot) (pid : Int) (ownerUid : Nat) (minSize : Int)
    (ds : List FdEnt) : ∀ es : List Entry,
      statsLoop minSize ds (tally es) =
        tally (es ++ ds.filterMap (fdEntry snap pid ownerUid minSize)) := by
  induction ds with
  | nil =>
      intro es
      rw [List.filterMap_nil, List.append_nil]
      rfl
  | cons d ds ih =>
      intro es
      unfold statsLoop
      cases hm : matchFd minSize d with
      | none => rw [List.filterMap_cons_none (by rw [fdEntry, hm]; rfl)]; exact ih es
      | some r =>
          obtain ⟨fdnum, path, st⟩ := r
          have hf : fdEntry snap pid ownerUid minSize d =
              some (mkEntry snap pid ownerUid (loaded snap pid ownerUid) fdnum path st) := by
            rw [fdEntry, hm]; rfl
          rw [List.filterMap_cons_some hf, List.append_cons, ← ih]
          simp [tally, mkEntry, toInt64]

/-- **The two modes agree on one process.** -/
theorem scanOnePidStats_eq (snap : Snapshot) (minSize : Int) (uidFilter : Nat) (es : List Entry)
    (pid : Int) :
    scanOnePidStats snap minSize uidFilter (tally es) pid =
      tally (es ++ pidEntries snap minSize uidFilter pid) := by
  rw [pidEntries_eq]
  unfold scanOnePidStats
  cases openFds snap uidFilter pid with
  | none => rw [List.append_nil]
  | some r => exact statsLoop_eq snap pid r.1 minSize r.2 es

/-! ## Workers -/

/-- The entries of the pids a worker has passed. -/
def Worker.passed (snap : Snapshot) (w : Worker) : List Entry :=
  (w.pids.take w.pos).flatMap (pidEntries snap w.minSize w.uidFilter)

/-- What a worker holds between two pids. -/
structure Worker.Inv (snap : Snapshot) (w : Worker) : Prop where
  pos_le : w.pos ≤ w.pids.length
  items : w.useStats = false → w.failed = false → w.list.items = w.passed snap
  stats : w.useStats = true → w.stats = tally (w.passed snap)

theorem passed_succ {snap : Snapshot} {w : Worker} {pid : Int} (hp : w.pids[w.pos]? = some pid) :
    (w.pids.take (w.pos + 1)).flatMap (pidEntries snap w.minSize w.uidFilter) =
      w.passed snap ++ pidEntries snap w.minSize w.uidFilter pid := by
  rw [List.take_add_one, hp, List.flatMap_append, Option.toList_some, List.flatMap_singleton]
  rfl

/-- What one step of a worker does: nothing when its loop is over, else one `scan_one_pid`. -/
theorem Worker.advance_cases (snap : Snapshot) (realloc : Nat → Bool) (w : Worker) :
    (w.finished ∧ w.advance snap realloc = w) ∨
    ∃ pid, w.failed = false ∧ w.pids[w.pos]? = some pid ∧
      ((w.useStats = true ∧ w.advance snap realloc =
          { w with pos := w.pos + 1, stats := scanOnePidStats snap w.minSize w.uidFilter w.stats pid }) ∨
       (w.useStats = false ∧ scanOnePidList snap realloc w.minSize w.uidFilter w.list pid = none ∧
          w.advance snap realloc = { w with failed := true }) ∨
       (∃ list, w.useStats = false ∧
          scanOnePidList snap realloc w.minSize w.uidFilter w.list pid = some list ∧
          w.advance snap realloc = { w with pos := w.pos + 1, list := list })) := by
  unfold Worker.advance
  by_cases hf : w.failed = true
  · exact Or.inl ⟨Or.inl hf, by rw [if_pos hf]⟩
  · rw [if_neg hf]
    cases hp : w.pids[w.pos]? with
    | none => exact Or.inl ⟨Or.inr (List.getElem?_eq_none_iff.mp hp), rfl⟩
    | some pid =>
      refine Or.inr ⟨pid, by simpa using hf, rfl, ?_⟩
      by_cases hs : w.useStats = true
      · exact Or.inl ⟨hs, by simp only [if_pos hs]⟩
      · have hs' : w.useStats = false := by simpa using hs
        cases hl : scanOnePidList snap realloc w.minSize w.uidFilter w.list pid with
        | none => exact Or.inr (Or.inl ⟨hs', rfl, by simp only [if_neg hs, hl]⟩)
        | some list => exact Or.inr (Or.inr ⟨list, hs', rfl, by simp only [if_neg hs, hl]⟩)

/-- **One pid further.** -/
theorem Worker.Inv.advance {snap : Snapshot} {w : Worker} (h : w.Inv snap) (realloc : Nat → Bool) :
    (w.advance snap realloc).Inv snap := by
  rcases Worker.advance_cases snap realloc w with
    ⟨-, heq⟩ | ⟨pid, hfail, hp, ⟨hs, heq⟩ | ⟨hs, -, heq⟩ | ⟨list, hs, hl, heq⟩⟩
  · rw [heq]
    exact h
  · have hlt : w.pos < w.pids.length := (List.getElem?_eq_some_iff.mp hp).1
    rw [heq]
    refine ⟨hlt, fun hc => by simp [hs] at hc, fun _ => ?_⟩
    show scanOnePidStats snap w.minSize w.uidFilter w.stats pid = _
    rw [h.stats hs, scanOnePidStats_eq, ← passed_succ hp]
    rfl
  · rw [heq]
    exact ⟨h.pos_le, fun _ hc => by simp at hc, h.stats⟩
  · have hlt : w.pos < w.pids.length := (List.getElem?_eq_some_iff.mp hp).1
    rw [heq]
    refine ⟨hlt, fun _ _ => ?_, fun hc => by simp [hs] at hc⟩
    show list.items = _
    rw [scanOnePidList_items hl, h.items hs hfail, ← passed_succ hp]
    rfl

/-- A worker fails only by an allocation failure, and in stats mode not at all. -/
theorem Worker.advance_not_failed (snap : Snapshot) {realloc : Nat → Bool} {w : Worker}
    (hr : w.useStats = true ∨ ∀ n, realloc n = true) (h : w.failed = false) :
    (w.advance snap realloc).failed = false := by
  rcases Worker.advance_cases snap realloc w with
    ⟨-, heq⟩ | ⟨pid, -, -, ⟨-, heq⟩ | ⟨hs, hl, -⟩ | ⟨list, -, -, heq⟩⟩
  · rw [heq]; exact h
  · rw [heq]; exact h
  · rcases hr with hst | hok
    · rw [hs] at hst; cases hst
    · obtain ⟨out, hout⟩ := @scanOnePidList_ok snap realloc hok w.minSize w.uidFilter w.list pid
      rw [hl] at hout; cases hout
  · rw [heq]; exact h

/-! ## Running a worker to its end -/

theorem Worker.advance_finished {snap : Snapshot} {realloc : Nat → Bool} {w : Worker}
    (h : w.finished) : w.advance snap realloc = w := by
  rcases Worker.advance_cases snap realloc w with ⟨-, heq⟩ | ⟨pid, hf, hp, -⟩
  · exact heq
  · rcases h with hc | hlen
    · rw [hf] at hc; cases hc
    · rw [List.getElem?_eq_none hlen] at hp; cases hp

/-- A step never changes what the worker was given. -/
theorem Worker.advance_given (snap : Snapshot) (realloc : Nat → Bool) (w : Worker) :
    (w.advance snap realloc).pids = w.pids ∧ (w.advance snap realloc).minSize = w.minSize ∧
      (w.advance snap realloc).uidFilter = w.uidFilter ∧
      (w.advance snap realloc).useStats = w.useStats := by
  rcases Worker.advance_cases snap realloc w with
    ⟨-, heq⟩ | ⟨pid, -, -, ⟨-, heq⟩ | ⟨-, -, heq⟩ | ⟨list, -, -, heq⟩⟩ <;>
  · rw [heq]
    exact ⟨rfl, rfl, rfl, rfl⟩

/-- A step of a worker that is not done moves on or fails. -/
theorem Worker.advance_progress (snap : Snapshot) (realloc : Nat → Bool) {w : Worker}
    (h : ¬ w.finished) :
    (w.advance snap realloc).pos = w.pos + 1 ∧ (w.advance snap realloc).failed = false ∨
      (w.advance snap realloc).failed = true := by
  rcases Worker.advance_cases snap realloc w with
    ⟨hfin, -⟩ | ⟨pid, hf, -, ⟨-, heq⟩ | ⟨-, -, heq⟩ | ⟨list, -, -, heq⟩⟩
  · exact absurd hfin h
  · rw [heq]; exact Or.inl ⟨rfl, hf⟩
  · rw [heq]; exact Or.inr rfl
  · rw [heq]; exact Or.inl ⟨rfl, hf⟩

theorem iterate_finished {snap : Snapshot} {realloc : Nat → Bool} {w : Worker} (h : w.finished)
    (k : Nat) : (Worker.advance snap realloc)^[k] w = w := by
  induction k with
  | zero => rfl
  | succ k ih => rw [Function.iterate_succ_apply, Worker.advance_finished h, ih]

/-- A finished worker is what running it to its end gives. -/
theorem scanWorkerFn_of_finished {snap : Snapshot} {realloc : Nat → Bool} {w : Worker}
    (h : w.finished) : scanWorkerFn snap realloc w = w := iterate_finished h _

/-- Running a worker to its end after one step is running it to its end. -/
theorem scanWorkerFn_advance {snap : Snapshot} {realloc : Nat → Bool} (w : Worker) :
    scanWorkerFn snap realloc (w.advance snap realloc) = scanWorkerFn snap realloc w := by
  by_cases hfin : w.finished
  · rw [Worker.advance_finished hfin]
  · have hlt : w.pos < w.pids.length := by
      unfold Worker.finished at hfin
      omega
    unfold scanWorkerFn
    rw [(Worker.advance_given snap realloc w).1]
    obtain ⟨k, hk⟩ : ∃ k, w.pids.length - w.pos = k + 1 := ⟨w.pids.length - w.pos - 1, by omega⟩
    rw [hk, Function.iterate_succ_apply]
    rcases Worker.advance_progress snap realloc hfin with ⟨hpos, -⟩ | hf
    · rw [hpos, show w.pids.length - (w.pos + 1) = k by omega]
    · rw [iterate_finished (Or.inl hf), iterate_finished (Or.inl hf)]

/-- `scan_worker_fn` ends with its loop over. -/
theorem scanWorkerFn_finished {snap : Snapshot} {realloc : Nat → Bool} :
    ∀ (k : Nat) (w : Worker), w.pids.length - w.pos = k → (scanWorkerFn snap realloc w).finished := by
  intro k
  induction k with
  | zero =>
      intro w hk
      have hfin : w.finished := Or.inr (by omega)
      rw [scanWorkerFn_of_finished hfin]
      exact hfin
  | succ k ih =>
      intro w hk
      by_cases hfin : w.finished
      · rw [scanWorkerFn_of_finished hfin]
        exact hfin
      · rw [← scanWorkerFn_advance]
        rcases Worker.advance_progress snap realloc hfin with ⟨hpos, -⟩ | hf
        · exact ih _ (by rw [(Worker.advance_given snap realloc w).1, hpos]; omega)
        · rw [scanWorkerFn_of_finished (Or.inl hf)]
          exact Or.inl hf

end Scan
end Hsed
