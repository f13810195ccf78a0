import Hsed.Scan.Correctness.Filter

/-!
# `Scan.Correctness.Deleted` — which of the listed files are really gone

The scan goes by the text of a link: it lists what ends in `" (deleted)"`. `FileSystem` says what stands
behind the texts: the name each file was opened by, whether that name has been unlinked, and how many
links each inode still has. `only_unlinked_iff` says exactly when everything that is listed or counted
has no link left: no name that is still there ends in the suffix itself, and no unlinked file has
another link.
-/

namespace Hsed
namespace Scan

open CLib

/-! ## Names and links -/

/-- The name a file was opened by, and whether it has been unlinked since. -/
structure OpenName where
  path : Bytes
  unlinked : Bool
  deriving DecidableEq, Repr

/-- The link target the kernel shows. -/
def OpenName.shown (n : OpenName) : Bytes := n.path ++ (if n.unlinked then deletedSuffix else [])

/-- The names behind `/proc/<pid>/fd/<name>`, and the number of directory entries of each inode. -/
structure FileSystem where
  name : Int → Bytes → OpenName
  nlink : InodeId → Nat

/-- The snapshot shows this file system. A name that has not been unlinked is a link to its inode. -/
structure FileSystem.Shows (fs : FileSystem) (snap : Snapshot) : Prop where
  target : ∀ pid ds d link, (snap.proc pid).fds = some ds → d ∈ ds → d.target = some link →
    link = (fs.name pid d.name).shown
  nul : ∀ pid name, 0 ∉ (fs.name pid name).path
  linked : ∀ pid ds d st, (snap.proc pid).fds = some ds → d ∈ ds → d.stat = some st →
    (fs.name pid d.name).unlinked = false → 0 < fs.nlink st.file

/-- A link text, as far as `readlink` gets it into the buffer, ends in the suffix. -/
def looksDeleted (link : Bytes) : Bool := deletedSuffix.isSuffixOf (link.take (hsedPathMax - 1))

/-- The path `scan_one_pid` takes from such a text. -/
def shownPath (link : Bytes) : Bytes :=
  (link.take (hsedPathMax - 1)).take ((link.take (hsedPathMax - 1)).length - deletedSuffix.length)

theorem OpenName.nul_notMem_shown {n : OpenName} (h : 0 ∉ n.path) : 0 ∉ n.shown := by
  have hsuffix : (0 : UInt8) ∉ deletedSuffix := by decide
  intro hm
  rcases List.mem_append.mp hm with hp | hs
  · exact h hp
  · split at hs
    · exact hsuffix hs
    · cases hs

theorem isSuffixOf_iff_drop {s t : Bytes} : s.isSuffixOf t = true ↔ t.drop (t.length - s.length) = s := by
  rw [List.isSuffixOf_iff_suffix, List.suffix_iff_eq_drop]
  exact eq_comm

theorem not_looksDeleted_of_short {link : Bytes}
    (h : (link.take (hsedPathMax - 1)).length < deletedSuffix.length) : ¬ looksDeleted link = true := by
  rw [looksDeleted, List.isSuffixOf_iff_suffix]
  intro hs
  have hle := hs.length_le
  omega

/-- **The test of `scan_one_pid`** on a link text without NULs. -/
theorem matchFd_eq {minSize : Int} {d : FdEnt} {link : Bytes} (hlink : d.target = some link) (hnul : 0 ∉ link) :
    matchFd minSize d =
      if isAllDigits d.name = true ∧ looksDeleted link = true ∧ isVirtualTarget (shownPath link) = false then
        (d.stat.filter fun st => decide (minSize ≤ st.size)).map fun st => (atoi d.name, shownPath link, st)
      else none := by
  have hcut : 0 ∉ link.take (hsedPathMax - 1) := nul_notMem_take hnul _
  -- without NULs every part of the buffer is a C string as it stands
  have hcstr : ∀ {s : Bytes}, s.Sublist (link.take (hsedPathMax - 1)) → cstr s = s := fun hs =>
    cstr_eq_self fun b hb h0 => hcut (h0 ▸ hs.mem hb)
  have hpath : cstr (shownPath link) = shownPath link := hcstr (List.take_sublist _ _)
  simp only [matchFd, hlink, hcstr (List.drop_sublist _ _), ne_eq]
  rw [← shownPath, hpath]
  by_cases hd : isAllDigits d.name = true
  · rw [hd, Bool.not_true, if_neg (by decide)]
    by_cases hlen : (link.take (hsedPathMax - 1)).length < deletedSuffix.length
    · -- too short to end in the suffix
      rw [if_pos hlen, if_neg fun h => not_looksDeleted_of_short hlen h.2.1]
    · rw [if_neg hlen]
      by_cases hs : looksDeleted link = true
      · rw [if_neg (not_not.mpr (isSuffixOf_iff_drop.mp hs))]
        cases hv : isVirtualTarget (shownPath link) with
        | true => rw [if_pos rfl, if_neg fun h => by cases h.2.2]
        | false =>
            rw [if_neg (by decide), if_pos ⟨rfl, hs, rfl⟩]
            cases d.stat with
            | none => rfl
            | some st =>
                by_cases hsize : st.size < minSize
                · -- too small, or listed
                  rw [Option.filter_some, if_neg (by simpa using hsize)]
                  exact if_pos hsize
                · rw [Option.filter_some, if_pos (by simpa using hsize)]
                  exact if_neg hsize
      · rw [if_pos fun h => hs (isSuffixOf_iff_drop.mpr h), if_neg fun h => hs h.2.1]
  · rw [if_pos (by simpa using hd), if_neg fun h => hd h.1]

/-! ## What is listed and counted -/

/-- The descriptors at which `scan_one_pid` in stats mode adds to the count. -/
def counted (snap : Snapshot) (minSize : Int) (uidFilter : Nat) (pid : Int) : List FdEnt :=
  match openFds snap uidFilter pid with
  | none => []
  | some (_, ds) => ds.filter fun d => (matchFd minSize d).isSome

theorem length_pidEntries (snap : Snapshot) (minSize : Int) (uidFilter : Nat) (pid : Int) :
    (pidEntries snap minSize uidFilter pid).length = (counted snap minSize uidFilter pid).length := by
  rw [pidEntries_eq, counted]
  cases openFds snap uidFilter pid with
  | none => rfl
  | some r =>
      obtain ⟨owner, ds⟩ := r
      simp only [List.length_filterMap_eq_countP, ← List.countP_eq_length_filter, fdEntry, Option.isSome_map]

theorem mem_counted {snap : Snapshot} {minSize : Int} {uidFilter : Nat} {pid : Int} {d : FdEnt} :
    d ∈ counted snap minSize uidFilter pid ↔
      ∃ owner ds, openFds snap uidFilter pid = some (owner, ds) ∧ d ∈ ds ∧ ∃ r, matchFd minSize d = some r := by
  rw [counted]
  cases openFds snap uidFilter pid with
  | none => simp
  | some r =>
      obtain ⟨owner, ds⟩ := r
      simp only [List.mem_filter, Option.isSome_iff_exists, Option.some_inj, Prod.mk.injEq]
      constructor
      · rintro ⟨hd, hr⟩
        exact ⟨owner, ds, ⟨rfl, rfl⟩, hd, hr⟩
      · rintro ⟨_, _, ⟨rfl, rfl⟩, hd, hr⟩
        exact ⟨hd, hr⟩

/-- The entries of a process are made for the descriptors counted there. -/
theorem mem_pidEntries {snap : Snapshot} {minSize : Int} {uidFilter : Nat} {pid : Int} {file : InodeId} :
    (∃ e ∈ pidEntries snap minSize uidFilter pid, e.file = file) ↔
      ∃ d ∈ counted snap minSize uidFilter pid, ∃ st, d.stat = some st ∧ st.file = file := by
  rw [pidEntries_eq]
  constructor
  · rintro ⟨e, he, rfl⟩
    split at he
    · cases he
    next owner ds ho =>
      obtain ⟨d, hd, hde⟩ := List.mem_filterMap.mp he
      obtain ⟨⟨fdnum, path, st⟩, hm, rfl⟩ := Option.map_eq_some_iff.mp hde
      exact ⟨d, mem_counted.mpr ⟨owner, ds, ho, hd, _, hm⟩, st, (matchFd_spec hm).1, rfl⟩
  · rintro ⟨d, hd, st, hst, rfl⟩
    obtain ⟨owner, ds, ho, hmem, ⟨fdnum, path, st'⟩, hm⟩ := mem_counted.mp hd
    have hst' := (matchFd_spec hm).1
    rw [hst, Option.some_inj] at hst'
    refine ⟨mkEntry snap pid owner (loaded snap pid owner) fdnum path st', ?_, by rw [hst']; rfl⟩
    rw [ho]
    refine List.mem_filterMap.mpr ⟨d, hmem, ?_⟩
    rw [fdEntry, hm]
    rfl

/-- Everything SCAN returns and everything STATS counts has no link left. -/
structure OnlyUnlinked (fs : FileSystem) (snap : Snapshot) (minSize : Int) (uidFilter : Nat) : Prop where
  scan : ∀ (qsort : Qsort) (alloc : Alloc) (onlyPid numThreads : Int) (es : List Entry),
    hsedScan qsort snap alloc minSize onlyPid uidFilter numThreads = some es → ∀ e ∈ es, fs.nlink e.file = 0
  stats : ∀ (alloc : Alloc) (numThreads : Int) (out : Stats),
    hsedScanStats snap alloc minSize uidFilter numThreads = some out →
    ∃ pids, gatherPids (fun _ => true) snap = some pids ∧
      out.count = (pids.flatMap (counted snap minSize uidFilter)).length ∧
      ∀ pid ∈ pids, ∀ d ∈ counted snap minSize uidFilter pid, ∀ st, d.stat = some st → fs.nlink st.file = 0

/-- A process some request makes the daemon walk: one named by its pid, or one listed in `/proc`. -/
def Walked (snap : Snapshot) (pid : Int) : Prop :=
  0 < pid ∨ ∃ pids, gatherPids (fun _ => true) snap = some pids ∧ pid ∈ pids

/-- No false positives among the descriptors that pass the filters: a name that is still there does not look
    deleted, and a file that was unlinked and looks so has no other link. -/
def NamesHonest (fs : FileSystem) (snap : Snapshot) (minSize : Int) (uidFilter : Nat) : Prop :=
  ∀ pid, Walked snap pid → ∀ owner ds, openFds snap uidFilter pid = some (owner, ds) →
    ∀ d ∈ ds, ∀ link st, d.target = some link → d.stat = some st → isAllDigits d.name = true → minSize ≤ st.size →
      isVirtualTarget (shownPath link) = false →
      ((fs.name pid d.name).unlinked = false → looksDeleted (fs.name pid d.name).path = false) ∧
      ((fs.name pid d.name).unlinked = true → looksDeleted (fs.name pid d.name).shown = true → fs.nlink st.file = 0)

section
variable {fs : FileSystem} {snap : Snapshot} {minSize : Int} {uidFilter : Nat}

/-- What the descriptors of the walked processes must satisfy. -/
theorem onlyUnlinked_iff_counted :
    OnlyUnlinked fs snap minSize uidFilter ↔
      ∀ pid, Walked snap pid → ∀ d ∈ counted snap minSize uidFilter pid, ∀ st, d.stat = some st →
        fs.nlink st.file = 0 := by
  constructor
  · intro h pid hwalked d hd st hst
    obtain ⟨e, he, hfile⟩ := mem_pidEntries.mpr ⟨d, hd, st, hst, rfl⟩
    rw [← hfile]
    rcases hwalked with hpos | ⟨pids, hg, hpid⟩
    · -- ask for this process
      obtain ⟨es, hes⟩ := hsedScan_ok mergeQsort minSize pid uidFilter 1 (.inl hpos)
      refine h.scan mergeQsort Alloc.ok pid 1 es hes e ?_
      rcases (hsedScan_spec hes).2 with ⟨-, hperm⟩ | ⟨hneg, -⟩
      · exact hperm.mem_iff.mpr he
      · exact absurd hpos hneg
    · -- ask for all of them
      obtain ⟨es, hes⟩ := hsedScan_ok mergeQsort minSize 0 uidFilter 1 (.inr ⟨pids, hg⟩)
      refine h.scan mergeQsort Alloc.ok 0 1 es hes e ?_
      rcases (hsedScan_spec hes).2 with ⟨hpos, -⟩ | ⟨-, pids', hg', hperm⟩
      · exact absurd hpos (by decide)
      · rw [hg, Option.some_inj] at hg'
        rw [← hg'] at hperm
        exact hperm.mem_iff.mpr (List.mem_flatMap.mpr ⟨pid, hpid, he⟩)
  · intro h
    constructor
    · intro qsort alloc onlyPid numThreads es hes e he
      -- an entry comes from a process that was walked
      obtain ⟨pid, hwalked, he'⟩ : ∃ pid, Walked snap pid ∧ e ∈ pidEntries snap minSize uidFilter pid := by
        rcases (hsedScan_spec hes).2 with ⟨hpos, hperm⟩ | ⟨-, pids, hg, hperm⟩
        · exact ⟨onlyPid, .inl hpos, hperm.mem_iff.mp he⟩
        · obtain ⟨pid, hpid, he'⟩ := List.mem_flatMap.mp (hperm.mem_iff.mp he)
          exact ⟨pid, .inr ⟨pids, hg, hpid⟩, he'⟩
      obtain ⟨d, hd, st, hst, hfile⟩ := mem_pidEntries.mp ⟨e, he', rfl⟩
      rw [← hfile]
      exact h pid hwalked d hd st hst
    · intro alloc numThreads out hout
      -- the totals add up what the walk counts
      obtain ⟨pids, hg, rfl⟩ := hsedScanStats_spec hout
      refine ⟨pids, hg, ?_, ?_⟩
      · simp only [tally, List.length_flatMap, length_pidEntries]
      · intro pid hpid
        exact h pid (.inr ⟨pids, hg, hpid⟩)

/-- **Only unlinked files are reported** exactly when the names are honest: for every snapshot of a file system
    and every filter, everything SCAN returns and STATS counts has link count 0 iff no name that is still there
    ends in `" (deleted)"` and no unlinked file has another link, among the descriptors that pass the filters. -/
theorem only_unlinked_iff (hfs : fs.Shows snap) (minSize : Int) (uidFilter : Nat) :
    OnlyUnlinked fs snap minSize uidFilter ↔ NamesHonest fs snap minSize uidFilter := by
  rw [onlyUnlinked_iff_counted]
  constructor
  · intro h pid hwalked owner ds ho d hd link st hlink hst hdigits hsize hreal
    have hfds := (openFds_fds ho).2
    have htext := hfs.target pid ds d link hfds hd hlink
    have hnul : 0 ∉ link := htext ▸ OpenName.nul_notMem_shown (hfs.nul pid d.name)
    -- what looks deleted is counted
    have hgone : looksDeleted link = true → fs.nlink st.file = 0 := by
      intro hlooks
      refine h pid hwalked d (mem_counted.mpr ⟨owner, ds, ho, hd, ?_⟩) st hst
      rw [matchFd_eq hlink hnul, if_pos ⟨hdigits, hlooks, hreal⟩, hst, Option.filter_some,
        if_pos (decide_eq_true hsize)]
      exact ⟨_, rfl⟩
    constructor
    · intro hthere
      have hlinks := hfs.linked pid ds d st hfds hd hst hthere
      have hshown : link = (fs.name pid d.name).path := by
        rw [htext, OpenName.shown, hthere]
        simp
      rw [← hshown]
      by_contra hlooks
      have hzero := hgone (by simpa using hlooks)
      omega
    · intro _ hlooks
      exact hgone (htext ▸ hlooks)
  · intro h pid hwalked d hd st hst
    obtain ⟨owner, ds, ho, hmem, r, hm⟩ := mem_counted.mp hd
    cases hlink : d.target with
    | none =>
        -- without a target nothing matches
        rw [matchFd, hlink] at hm
        split at hm <;> cases hm
    | some link =>
        have htext := hfs.target pid ds d link (openFds_fds ho).2 hmem hlink
        have hnul : 0 ∉ link := htext ▸ OpenName.nul_notMem_shown (hfs.nul pid d.name)
        rw [matchFd_eq hlink hnul] at hm
        split at hm
        next hcond =>
          obtain ⟨hdigits, hlooks, hreal⟩ := hcond
          rw [hst, Option.filter_some] at hm
          split at hm
          next hsize =>
            have hhonest := h pid hwalked owner ds ho d hmem link st hlink hst hdigits (of_decide_eq_true hsize) hreal
            rw [htext] at hlooks
            cases hu : (fs.name pid d.name).unlinked with
            | true => exact hhonest.2 hu hlooks
            | false =>
                have hno := hhonest.1 hu
                rw [OpenName.shown, hu] at hlooks
                simp [hno] at hlooks
          · cases hm
        · cases hm

end

/-! ### One open file -/

/-- Process 7 has the file with this name open as descriptor 3. -/
def oneOpen (n : OpenName) : Snapshot where
  names := some [ascii "7"]
  proc := fun pid =>
    if pid = 7 then
      { uid := some 1000, fds := some [⟨ascii "3", some n.shown, some ⟨4096, 12, 8, 1, 0⟩⟩]
        fdinfo := fun _ => none, comm := some (ascii "cat\n"), cmdline := some (ascii "cat") }
    else { uid := none, fds := none, fdinfo := fun _ => none, comm := none, cmdline := none }
  pwName := fun _ => none
  nprocessors := 1

/-- The file behind it, with so many links. -/
def oneFile (n : OpenName) (links : Nat) : FileSystem := ⟨fun _ _ => n, fun _ => links⟩

theorem oneFile_shows {n : OpenName} (hnul : 0 ∉ n.path) {links : Nat} (hlinks : n.unlinked = false → 0 < links) :
    (oneFile n links).Shows (oneOpen n) := by
  refine ⟨?_, fun _ _ => hnul, fun _ _ _ _ _ _ _ h => hlinks h⟩
  intro pid ds d link hds hd hlink
  simp only [oneOpen] at hds
  split at hds
  · obtain rfl := Option.some.inj hds
    rw [List.mem_singleton.mp hd] at hlink
    exact (Option.some.inj hlink).symm
  · cases hds

def logName : OpenName := ⟨ascii "/srv/log", true⟩

/-- A log that was unlinked, with no other link. -/
theorem only_unlinked_log : OnlyUnlinked (oneFile logName 0) (oneOpen logName) 0 hsedUidAny := by
  refine (only_unlinked_iff (oneFile_shows (by decide) fun h => absurd h (by decide)) 0 hsedUidAny).mpr ?_
  intro pid _ owner ds _ d _ link st _ _ _ _ _
  exact ⟨fun h => absurd (show logName.unlinked = false from h) (by decide), fun _ _ => rfl⟩

def reportName : OpenName := ⟨ascii "/srv/report (deleted)", false⟩

theorem counted_oneOpen {n : OpenName} (h : counted (oneOpen n) 0 hsedUidAny 7 ≠ []) {links : Nat} (hlinks : links ≠ 0) :
    ¬ OnlyUnlinked (oneFile n links) (oneOpen n) 0 hsedUidAny := by
  rw [onlyUnlinked_iff_counted]
  intro hall
  obtain ⟨d, hd⟩ := List.exists_mem_of_ne_nil _ h
  obtain ⟨owner, ds, ho, hmem, r, hm⟩ := mem_counted.mp hd
  exact hlinks (hall 7 (.inl (by decide)) d hd r.2.2 (matchFd_spec hm).1)

/-- A file that is still there under a name with the suffix, and one that has a second link, are listed. -/
theorem linked_files_listed :
    ((oneFile reportName 1).Shows (oneOpen reportName) ∧
      ¬ OnlyUnlinked (oneFile reportName 1) (oneOpen reportName) 0 hsedUidAny) ∧
    (oneFile logName 1).Shows (oneOpen logName) ∧
      ¬ OnlyUnlinked (oneFile logName 1) (oneOpen logName) 0 hsedUidAny := by
  refine ⟨⟨oneFile_shows (by decide) fun _ => by decide, ?_⟩, oneFile_shows (by decide) fun _ => by decide, ?_⟩
  · exact counted_oneOpen (by decide +kernel) (by decide)
  · exact counted_oneOpen (by decide +kernel) (by decide)

end Scan
end Hsed
