import Hsed.Scan.Correctness.Fields

/-!
# `Scan.Correctness.Filter` — the filters act on one unfiltered listing

`unfiltered` is what a walk finds without a minimum size and without an owner. Every filtered walk is a
`List.filter` of it (`pidEntries_eq_filter`), so SCAN and STATS agree on what a filter means, and
`filtered_scans` says it of whole results, for the scan of all processes and for the scan of one.
-/

namespace Hsed
namespace Scan

open CLib

/-- The entries of a process, whatever their size and owner. -/
def unfiltered (snap : Snapshot) (pid : Int) : List Entry := pidEntries snap (-(2 ^ 63)) hsedUidAny pid

/-- The filters of a request, on an entry. -/
def meets (minSize : Int) (uidFilter : Nat) (e : Entry) : Bool :=
  decide (minSize ≤ e.size) && (uidFilter == hsedUidAny || e.uid == uidFilter)

/-- A file, by device and inode number. -/
structure InodeId where
  major : Nat
  minor : Nat
  ino : Nat
  deriving DecidableEq, Repr

/-- The file behind a descriptor. -/
def Stat.file (st : Stat) : InodeId := ⟨st.major, st.minor, st.ino⟩

/-- The file an entry was made for. -/
def Entry.file (e : Entry) : InodeId := ⟨e.devMajor, e.devMinor, e.inode⟩

/-- The size filter acts on the files found without it. -/
theorem matchFd_eq_filter (minSize : Int) {d : FdEnt} (hd : ∀ st, d.stat = some st → -(2 ^ 63) ≤ st.size) :
    matchFd minSize d = (matchFd (-(2 ^ 63)) d).filter fun (_, _, st) => minSize ≤ st.size := by
  simp only [matchFd]
  split
  · rfl
  split
  · rfl
  split
  · rfl
  split
  · rfl
  split
  · rfl
  split
  · rfl
  next st hst =>
    have hlow : ¬ st.size < -(2 ^ 63) := by
      have h := hd st hst
      omega
    rw [if_neg hlow]
    by_cases hs : st.size < minSize
    · rw [if_pos hs, Option.filter_some, if_neg (by simpa using hs)]
    · rw [if_neg hs, Option.filter_some, if_pos (by simpa using hs)]

theorem fdEntry_eq_filter (snap : Snapshot) (pid : Int) (owner : Nat) (minSize : Int) {d : FdEnt}
    (hd : ∀ st, d.stat = some st → -(2 ^ 63) ≤ st.size) :
    fdEntry snap pid owner minSize d =
      (fdEntry snap pid owner (-(2 ^ 63)) d).filter fun e => decide (minSize ≤ e.size) := by
  rw [fdEntry, fdEntry, matchFd_eq_filter minSize hd]
  cases matchFd (-(2 ^ 63)) d with
  | none => rfl
  | some m =>
      obtain ⟨fdnum, path, st⟩ := m
      rw [Option.map_some, Option.filter_some, Option.filter_some]
      -- the entry has the size of the file
      show Option.map _ (if decide (minSize ≤ st.size) = true then some (fdnum, path, st) else none) =
        if decide (minSize ≤ st.size) = true then _ else none
      split <;> rfl

theorem fdEntry_uid {snap : Snapshot} {pid : Int} {owner : Nat} {minSize : Int} {d : FdEnt} {e : Entry}
    (h : fdEntry snap pid owner minSize d = some e) : e.uid = owner := by
  obtain ⟨⟨fdnum, path, st⟩, -, rfl⟩ := Option.map_eq_some_iff.mp h
  rfl

theorem openFds_any (snap : Snapshot) (pid : Int) :
    openFds snap hsedUidAny pid =
      (snap.proc pid).uid.bind fun owner => (snap.proc pid).fds.map fun ds => (owner, ds) := by
  unfold openFds
  cases (snap.proc pid).uid with
  | none => rfl
  | some owner => exact if_neg fun h => h.1 rfl

/-- **Filters.** A filtered walk is the unfiltered one, filtered. -/
theorem pidEntries_eq_filter {snap : Snapshot} (hs : snap.Typed) (minSize : Int) (uidFilter : Nat) (pid : Int) :
    pidEntries snap minSize uidFilter pid = (unfiltered snap pid).filter (meets minSize uidFilter) := by
  rw [unfiltered, pidEntries_eq, pidEntries_eq, openFds_any]
  unfold openFds
  cases howner : (snap.proc pid).uid with
  | none => rfl
  | some owner =>
      cases hfds : (snap.proc pid).fds with
      | none => simp
      | some ds =>
          simp only [Option.bind_some, Option.map_some]
          -- every entry of the process has its owner
          have huid : ∀ e ∈ ds.filterMap (fdEntry snap pid owner (-(2 ^ 63))), e.uid = owner := by
            intro e he
            obtain ⟨d, -, hd⟩ := List.mem_filterMap.mp he
            exact fdEntry_uid hd
          by_cases hf : uidFilter ≠ hsedUidAny ∧ owner ≠ uidFilter
          · rw [if_pos hf]
            refine (List.filter_eq_nil_iff.mpr ?_).symm
            intro e he
            simp [meets, huid e he, hf.1, hf.2]
          · rw [if_neg hf]
            have hmeets : ∀ e ∈ ds.filterMap (fdEntry snap pid owner (-(2 ^ 63))),
                meets minSize uidFilter e = decide (minSize ≤ e.size) := by
              intro e he
              have hor : uidFilter = hsedUidAny ∨ owner = uidFilter := by
                by_contra hno
                rw [not_or] at hno
                exact hf hno
              simp only [meets, huid e he]
              rcases hor with h | h <;> simp [h]
            rw [List.filter_congr hmeets, List.filter_filterMap]
            refine List.filterMap_congr ?_
            intro d hd
            exact fdEntry_eq_filter snap pid owner minSize fun st hst => (hs.size pid ds d st hfds hd hst).1

theorem pidEntries_pid {snap : Snapshot} {minSize : Int} {uidFilter : Nat} {pid : Int} {e : Entry}
    (h : e ∈ pidEntries snap minSize uidFilter pid) : e.pid = pid := by
  rw [pidEntries_eq] at h
  split at h
  · cases h
  · obtain ⟨d, -, he⟩ := List.mem_filterMap.mp h
    obtain ⟨⟨fdnum, path, st⟩, -, rfl⟩ := Option.map_eq_some_iff.mp he
    rfl

/-- The entries of one process, among those of distinct processes. -/
theorem filter_pid_flatMap {snap : Snapshot} {minSize : Int} {uidFilter : Nat} {p : Int} :
    ∀ {pids : List Int}, pids.Nodup → p ∈ pids →
      (pids.flatMap (pidEntries snap minSize uidFilter)).filter (fun e => e.pid == p) =
        pidEntries snap minSize uidFilter p := by
  intro pids
  induction pids with
  | nil => intro _ hp; cases hp
  | cons q pids ih =>
      intro hnd hp
      obtain ⟨hq, hnd⟩ := List.nodup_cons.mp hnd
      rw [List.flatMap_cons, List.filter_append]
      by_cases hqp : q = p
      · subst hqp
        -- nothing behind the process itself has its pid
        have hself : (pidEntries snap minSize uidFilter q).filter (fun e => e.pid == q) =
            pidEntries snap minSize uidFilter q := by
          apply List.filter_eq_self.mpr
          intro e he
          rw [pidEntries_pid he, beq_self_eq_true]
        have hrest : (pids.flatMap (pidEntries snap minSize uidFilter)).filter (fun e => e.pid == q) = [] := by
          apply List.filter_eq_nil_iff.mpr
          intro e he
          obtain ⟨r, hr, he⟩ := List.mem_flatMap.mp he
          rw [pidEntries_pid he, beq_iff_eq]
          rintro rfl
          exact hq hr
        rw [hself, hrest, List.append_nil]
      · have hother : (pidEntries snap minSize uidFilter q).filter (fun e => e.pid == p) = [] := by
          apply List.filter_eq_nil_iff.mpr
          intro e he
          rw [pidEntries_pid he, beq_iff_eq]
          exact hqp
        rw [hother, List.nil_append]
        exact ih hnd ((List.mem_cons.mp hp).resolve_left fun h => hqp h.symm)

/-- The whole listing under filters, from the whole listing without. -/
theorem flatMap_eq_filter {snap : Snapshot} (hs : snap.Typed) (minSize : Int) (uidFilter : Nat) (pids : List Int) :
    pids.flatMap (pidEntries snap minSize uidFilter) =
      (pids.flatMap (unfiltered snap)).filter (meets minSize uidFilter) := by
  rw [List.filter_flatMap]
  exact congrArg (pids.flatMap ·) (funext (pidEntries_eq_filter hs minSize uidFilter))

/-! ## `hsed_scan` under filters -/

/-- What a scan of all processes returns when no allocation fails. -/
theorem hsedScan_all (qsort : Qsort) {snap : Snapshot} {pids : List Int}
    (hg : gatherPids (fun _ => true) snap = some pids) (minSize : Int) (uidFilter : Nat) (numThreads : Int) :
    ∃ es, hsedScan qsort snap Alloc.ok minSize 0 uidFilter numThreads = some es ∧
      es.Perm (pids.flatMap (pidEntries snap minSize uidFilter)) ∧ es.Pairwise fun a b => b.size ≤ a.size := by
  obtain ⟨es, hes⟩ := hsedScan_ok qsort minSize 0 uidFilter numThreads (Or.inr ⟨pids, hg⟩)
  obtain ⟨hsort, ⟨hpos, -⟩ | ⟨-, pids', hg', hperm⟩⟩ := hsedScan_spec hes
  · exact absurd hpos (by decide)
  · rw [hg] at hg'
    obtain rfl := Option.some.inj hg'
    exact ⟨es, hes, hperm, hsort⟩

/-- What a scan of one process returns when no allocation fails. -/
theorem hsedScan_one (qsort : Qsort) (snap : Snapshot) {p : Int} (hp : 0 < p) (minSize : Int) (uidFilter : Nat)
    (numThreads : Int) :
    ∃ es, hsedScan qsort snap Alloc.ok minSize p uidFilter numThreads = some es ∧
      es.Perm (pidEntries snap minSize uidFilter p) ∧ es.Pairwise fun a b => b.size ≤ a.size := by
  obtain ⟨es, hes⟩ := @hsedScan_ok qsort snap minSize p uidFilter numThreads (Or.inl hp)
  obtain ⟨hsort, ⟨-, hperm⟩ | ⟨hneg, -⟩⟩ := hsedScan_spec hes
  · exact ⟨es, hes, hperm, hsort⟩
  · exact absurd hp hneg

/-- **Filtered scans are filtered results.** Over a fixed snapshot whose pids are listed once, and with any
    number of threads for each scan, a scan with a minimum size and an owner returns, up to order, the entries
    of the unfiltered scan that meet both, and a scan of a listed process those of them that are its own. Every
    result is non-increasing in size. -/
theorem filtered_scans (qsort : Qsort) {snap : Snapshot} (hs : snap.Typed) {pids : List Int}
    (hg : gatherPids (fun _ => true) snap = some pids) (hnd : pids.Nodup) (minSize : Int) (uidFilter : Nat)
    (threadsAll threadsSome threadsOne : Int) :
    ∃ all filtered,
      hsedScan qsort snap Alloc.ok (-(2 ^ 63)) 0 hsedUidAny threadsAll = some all ∧
      hsedScan qsort snap Alloc.ok minSize 0 uidFilter threadsSome = some filtered ∧
      filtered.Perm (all.filter (meets minSize uidFilter)) ∧
      all.Pairwise (fun a b => b.size ≤ a.size) ∧ filtered.Pairwise (fun a b => b.size ≤ a.size) ∧
      ∀ p ∈ pids, 0 < p → ∃ one,
        hsedScan qsort snap Alloc.ok minSize p uidFilter threadsOne = some one ∧
        one.Perm (all.filter fun e => meets minSize uidFilter e && e.pid == p) ∧
        one.Pairwise (fun a b => b.size ≤ a.size) := by
  obtain ⟨all, hall, hallPerm, hallSort⟩ := hsedScan_all qsort hg (-(2 ^ 63)) hsedUidAny threadsAll
  obtain ⟨filtered, hfil, hfilPerm, hfilSort⟩ := hsedScan_all qsort hg minSize uidFilter threadsSome
  -- the filter commutes with the order `qsort` chose
  have hmeets : (all.filter (meets minSize uidFilter)).Perm (pids.flatMap (pidEntries snap minSize uidFilter)) := by
    rw [flatMap_eq_filter hs]
    exact hallPerm.filter _
  refine ⟨all, filtered, hall, hfil, hfilPerm.trans hmeets.symm, hallSort, hfilSort, ?_⟩
  intro p hp hpos
  obtain ⟨one, hone, honePerm, honeSort⟩ := hsedScan_one qsort snap hpos minSize uidFilter threadsOne
  refine ⟨one, hone, ?_, honeSort⟩
  have hpid := hmeets.filter fun e => e.pid == p
  rw [filter_pid_flatMap hnd hp, List.filter_filter] at hpid
  refine honePerm.trans (hpid.symm.trans (List.Perm.of_eq (List.filter_congr ?_)))
  intro e _
  exact Bool.and_comm _ _

/-- Two users, each with a process that holds an unlinked log. -/
def twoUsers : Snapshot where
  names := some [ascii "7", ascii "8", ascii "self"]
  proc := fun pid =>
    { uid := if pid = 7 then some 0 else if pid = 8 then some 1000 else none
      fds := if pid = 7 then some [⟨ascii "3", some (ascii "/a (deleted)"), some ⟨4096, 12, 8, 1, 0⟩⟩]
        else if pid = 8 then some [⟨ascii "5", some (ascii "/b (deleted)"), some ⟨8192, 13, 8, 1, 0⟩⟩]
        else none
      fdinfo := fun _ => none, comm := some (ascii "cat\n"), cmdline := some (ascii "cat") }
  pwName := fun _ => none
  nprocessors := 1

theorem twoUsers_stat {pid : Int} {ds : List FdEnt} {d : FdEnt} {st : Stat}
    (hds : (twoUsers.proc pid).fds = some ds) (hd : d ∈ ds) (hst : d.stat = some st) :
    st = ⟨4096, 12, 8, 1, 0⟩ ∨ st = ⟨8192, 13, 8, 1, 0⟩ := by
  simp only [twoUsers] at hds
  split at hds
  · obtain rfl := Option.some.inj hds
    rw [List.mem_singleton.mp hd] at hst
    exact Or.inl (Option.some.inj hst).symm
  · split at hds
    · obtain rfl := Option.some.inj hds
      rw [List.mem_singleton.mp hd] at hst
      exact Or.inr (Option.some.inj hst).symm
    · cases hds

theorem twoUsers_typed : twoUsers.Typed := by
  refine ⟨?_, ?_, ?_, ?_, ?_, ?_, ?_⟩
  · intro pid u hu
    simp only [twoUsers] at hu
    split at hu
    · obtain rfl := Option.some.inj hu; decide
    · split at hu
      · obtain rfl := Option.some.inj hu; decide
      · cases hu
  · intro u name h
    cases h
  all_goals
    intro pid ds d st hds hd hst
    rcases twoUsers_stat hds hd hst with rfl | rfl <;> decide

/-- The scans of that machine for root's files of at least a block. -/
theorem filtered_scans_two_users :
    gatherPids (fun _ => true) twoUsers = some [7, 8] ∧
    ∃ all filtered,
      hsedScan mergeQsort twoUsers Alloc.ok (-(2 ^ 63)) 0 hsedUidAny 1 = some all ∧
      hsedScan mergeQsort twoUsers Alloc.ok 4096 0 0 2 = some filtered ∧
      filtered.Perm (all.filter (meets 4096 0)) ∧
      all.Pairwise (fun a b => b.size ≤ a.size) ∧ filtered.Pairwise (fun a b => b.size ≤ a.size) ∧
      ∀ p ∈ ([7, 8] : List Int), 0 < p → ∃ one,
        hsedScan mergeQsort twoUsers Alloc.ok 4096 p 0 3 = some one ∧
        one.Perm (all.filter fun e => meets 4096 0 e && e.pid == p) ∧
        one.Pairwise (fun a b => b.size ≤ a.size) :=
  ⟨by decide +kernel,
    filtered_scans mergeQsort twoUsers_typed (by decide +kernel) (by decide) 4096 0 1 2 3⟩

end Scan
end Hsed
