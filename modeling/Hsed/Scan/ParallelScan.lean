import Hsed.Scan.ProcScan

/-!
# `Scan.ParallelScan` — splitting the walk over worker threads (`proc_scan.c`)

`gather_pids`, `pick_thread_count`, `scan_worker_fn`, `run_parallel_scan` and the two entry points
`hsed_scan` / `hsed_scan_stats`, at two levels:

* `runParallelScan` is the source read as a sequential text: every worker runs to its end, then the
  merge. Allocation failures come from an `Alloc` oracle, one answer for each allocation site.
* `Step` is what really runs: the main thread creates the others one by one (running a worker inline
  when `pthread_create` fails), works on chunk 0, joins; meanwhile every created thread advances on its
  own, one `scan_one_pid` at a time, in any order.

`Scan.Correctness.Parallel` proves that every interleaving of the second returns what the first does.
-/

namespace Hsed
namespace Scan

open CLib

/-- Which allocations succeed. The capacity asked for identifies a `realloc` of a given list. -/
structure Alloc where
  gather : Nat → Bool
  callocWorkers : Bool
  callocTids : Bool
  worker : Nat → Nat → Bool
  merge : Nat → Bool
  single : Nat → Bool

/-- No allocation fails. -/
def Alloc.ok : Alloc := ⟨fun _ => true, true, true, fun _ _ => true, fun _ => true, fun _ => true⟩

/-! ## The pid list and the number of threads -/

/-- The `readdir` loop of `gather_pids`. -/
def gatherLoop (realloc : Nat → Bool) : List Bytes → List Int → Nat → Option (List Int)
  | [], pids, _ => some pids
  | name :: names, pids, cap =>
    if !isAllDigits name then gatherLoop realloc names pids cap
    else if pids.length = cap then
      let newcap := if cap = 0 then 256 else cap * 2
      if realloc newcap then gatherLoop realloc names (pids ++ [toInt32 (strtol name)]) newcap else none
    else gatherLoop realloc names (pids ++ [toInt32 (strtol name)]) cap

/-- `gather_pids`. -/
def gatherPids (realloc : Nat → Bool) (snap : Snapshot) : Option (List Int) :=
  match snap.names with
  | none => none
  | some names => gatherLoop realloc names [] 0

def hsedMaxAutoScanThreads : Int := 32

/-- `pick_thread_count`; `nprocessors` is what `sysconf(_SC_NPROCESSORS_ONLN)` returns. -/
def pickThreadCount (nprocessors requested : Int) (npids : Nat) : Nat :=
  let n :=
    if 0 < requested then requested
    else
      let n := if nprocessors < 1 then 1 else nprocessors
      if hsedMaxAutoScanThreads < n then hsedMaxAutoScanThreads else n
  if npids = 0 then 1
  else
    let n := if (npids : Int) < n then (npids : Int) else n
    (if n < 1 then 1 else n).toNat

/-! ## Workers -/

/-- `scan_worker_t`. `pos` is the loop counter `i` of `scan_worker_fn`. -/
structure Worker where
  pids : List Int
  minSize : Int
  uidFilter : Nat
  useStats : Bool
  pos : Nat
  list : HsedList
  stats : Stats
  failed : Bool
  deriving DecidableEq

/-- The worker's loop is over. -/
def Worker.finished (w : Worker) : Prop := w.failed = true ∨ w.pids.length ≤ w.pos

instance (w : Worker) : Decidable w.finished := inferInstanceAs (Decidable (_ ∨ _))

/-- One iteration of `scan_worker_fn`'s loop (nothing once it is over). -/
def Worker.advance (snap : Snapshot) (realloc : Nat → Bool) (w : Worker) : Worker :=
  if w.failed then w else
  match w.pids[w.pos]? with
  | none => w
  | some pid =>
    if w.useStats then
      { w with pos := w.pos + 1, stats := scanOnePidStats snap w.minSize w.uidFilter w.stats pid }
    else
      match scanOnePidList snap realloc w.minSize w.uidFilter w.list pid with
      | none => { w with failed := true }
      | some list => { w with pos := w.pos + 1, list := list }

/-- `scan_worker_fn`: run the loop to its end. -/
def scanWorkerFn (snap : Snapshot) (realloc : Nat → Bool) (w : Worker) : Worker :=
  (Worker.advance snap realloc)^[w.pids.length - w.pos] w

/-- The initialisation loop: worker `i` gets the next `base + (i < rem)` pids. -/
def assignLoop (pids : List Int) (minSize : Int) (uidFilter : Nat) (useStats : Bool) (base rem : Nat) :
    Nat → Nat → Nat → List Worker
  | 0, _, _ => []
  | left + 1, i, offset =>
    let chunk := base + (if i < rem then 1 else 0)
    { pids := (pids.drop offset).take chunk
      minSize := minSize
      uidFilter := uidFilter
      useStats := useStats
      pos := 0
      list := hsedListInit
      stats := ⟨0, 0⟩
      failed := false } ::
      assignLoop pids minSize uidFilter useStats base rem left (i + 1) (offset + chunk)

/-- The workers as `run_parallel_scan` sets them up. -/
def assignWorkers (pids : List Int) (minSize : Int) (uidFilter : Nat) (useStats : Bool)
    (nthreads : Nat) : List Worker :=
  assignLoop pids minSize uidFilter useStats (pids.length / nthreads) (pids.length % nthreads)
    nthreads 0 0

/-! ## Merging -/

/-- Appends the entries of one worker to the result. -/
def pushAll (realloc : Nat → Bool) : HsedList → List Entry → Option HsedList
  | out, [] => some out
  | out, e :: es =>
    match listPush realloc out e with
    | none => none
    | some out => pushAll realloc out es

/-- What `run_parallel_scan` returns: `-1`, or `0` with `out_list` or `out_stats` filled in. -/
inductive Outcome where
  | error
  | list (out : HsedList)
  | stats (out : Stats)
  deriving DecidableEq

/-- The part after the joins: any failed worker or failed push discards everything. -/
def mergeWorkers (realloc : Nat → Bool) (useStats : Bool) (workers : List Worker) : Outcome :=
  if workers.any (·.failed) then .error
  else if useStats then
    .stats (workers.foldl
      (fun s w => ⟨s.count + w.stats.count, toInt64 (s.totalBytes + w.stats.totalBytes)⟩) ⟨0, 0⟩)
  else
    match workers.foldl (fun o w => o.bind fun out => pushAll realloc out w.list.items)
        (some hsedListInit) with
    | none => .error
    | some out => .list out

/-- `run_parallel_scan`, every worker run to its end in turn. -/
def runParallelScan (snap : Snapshot) (alloc : Alloc) (pids : List Int) (minSize : Int)
    (uidFilter : Nat) (numThreads : Int) (useStats : Bool) : Outcome :=
  if alloc.callocWorkers && alloc.callocTids then
    let nthreads := pickThreadCount snap.nprocessors numThreads pids.length
    let workers := assignWorkers pids minSize uidFilter useStats nthreads
    mergeWorkers alloc.merge useStats
      (workers.mapIdx fun i w => scanWorkerFn snap (alloc.worker i) w)
  else .error

/-! ## The threads as they interleave -/

/-- Where the main thread stands in `run_parallel_scan`. -/
inductive MainPc where
  | create (i : Nat)
  | runInline (i : Nat)
  | own
  | join (i : Nat)
  | returned (o : Outcome)

/-- The main thread, the workers, and which of them have a thread (`tids[i] != 0`). -/
structure ScanState where
  pc : MainPc
  workers : List Worker
  spawned : List Nat

/-- Worker `i` scans its next pid. -/
def ScanState.tick (snap : Snapshot) (alloc : Alloc) (s : ScanState) (i : Nat) : ScanState :=
  { s with workers := s.workers.modify i (Worker.advance snap (alloc.worker i)) }

/-- Worker `i` exists and its loop is (not) over. -/
def ScanState.busy (s : ScanState) (i : Nat) : Prop := ∃ w ∈ s.workers[i]?, ¬ w.finished

/-- One step of the main thread or of one created thread. `created i` is the outcome of the `i`-th
    `pthread_create`. -/
inductive Step (snap : Snapshot) (alloc : Alloc) (useStats : Bool) (created : Nat → Bool) :
    ScanState → ScanState → Prop where
  | createOk {s : ScanState} {i : Nat} : s.pc = .create i → i < s.workers.length → created i = true →
      Step snap alloc useStats created s { s with pc := .create (i + 1), spawned := i :: s.spawned }
  | createFail {s : ScanState} {i : Nat} : s.pc = .create i → i < s.workers.length →
      created i = false → Step snap alloc useStats created s { s with pc := .runInline i }
  | inlineScan {s : ScanState} {i : Nat} : s.pc = .runInline i → s.busy i →
      Step snap alloc useStats created s (s.tick snap alloc i)
  | inlineDone {s : ScanState} {i : Nat} : s.pc = .runInline i → ¬ s.busy i →
      Step snap alloc useStats created s { s with pc := .create (i + 1) }
  | createEnd {s : ScanState} {i : Nat} : s.pc = .create i → s.workers.length ≤ i →
      Step snap alloc useStats created s { s with pc := .own }
  | ownScan {s : ScanState} : s.pc = .own → s.busy 0 →
      Step snap alloc useStats created s (s.tick snap alloc 0)
  | ownDone {s : ScanState} : s.pc = .own → ¬ s.busy 0 →
      Step snap alloc useStats created s { s with pc := .join 1 }
  | thread {s : ScanState} {i : Nat} : i ∈ s.spawned → s.busy i →
      Step snap alloc useStats created s (s.tick snap alloc i)
  | join {s : ScanState} {i : Nat} : s.pc = .join i → i < s.workers.length →
      (i ∈ s.spawned → ¬ s.busy i) →
      Step snap alloc useStats created s { s with pc := .join (i + 1) }
  | joinEnd {s : ScanState} {i : Nat} : s.pc = .join i → s.workers.length ≤ i →
      Step snap alloc useStats created s
        { s with pc := .returned (mergeWorkers alloc.merge useStats s.workers) }

/-- The state in which `run_parallel_scan` starts creating threads, or returns `-1` when one of the
    two `calloc`s fails. -/
def initState (snap : Snapshot) (alloc : Alloc) (pids : List Int) (minSize : Int) (uidFilter : Nat)
    (numThreads : Int) (useStats : Bool) : ScanState :=
  let nthreads := pickThreadCount snap.nprocessors numThreads pids.length
  { pc := if alloc.callocWorkers && alloc.callocTids then .create 1 else .returned .error
    workers := assignWorkers pids minSize uidFilter useStats nthreads
    spawned := [] }

/-! ## `hsed_scan` and `hsed_scan_stats` -/

/-- `cmp_by_size_desc`. -/
def cmpBySizeDesc (a b : Entry) : Int :=
  if a.size < b.size then 1 else if b.size < a.size then -1 else 0

/-- The C library's `qsort` under `cmp_by_size_desc`: some sorted permutation of the array. The order
    of equal elements is left open, as the standard leaves it. -/
structure Qsort where
  sort : List Entry → List Entry
  perm : ∀ es, (sort es).Perm es
  sorted : ∀ es, (sort es).Pairwise fun a b => cmpBySizeDesc a b ≤ 0

/-- `hsed_scan`. -/
def hsedScan (qsort : Qsort) (snap : Snapshot) (alloc : Alloc) (minSize onlyPid : Int)
    (uidFilter : Nat) (numThreads : Int) : Option (List Entry) :=
  if 0 < onlyPid then
    match scanOnePidList snap alloc.single minSize uidFilter hsedListInit onlyPid with
    | none => none
    | some out => some (if 1 < out.items.length then qsort.sort out.items else out.items)
  else
    match gatherPids alloc.gather snap with
    | none => none
    | some pids =>
      match runParallelScan snap alloc pids minSize uidFilter numThreads false with
      | .list out => some (if 1 < out.items.length then qsort.sort out.items else out.items)
      | _ => none

/-- `hsed_scan_stats`. -/
def hsedScanStats (snap : Snapshot) (alloc : Alloc) (minSize : Int) (uidFilter : Nat)
    (numThreads : Int) : Option Stats :=
  match gatherPids alloc.gather snap with
  | none => none
  | some pids =>
    match runParallelScan snap alloc pids minSize uidFilter numThreads true with
    | .stats out => some out
    | _ => none

end Scan
end Hsed
