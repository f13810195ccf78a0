import Hsed.Scan.Correctness.Parallel

/-!
# `Scan.Correctness.Fields` — the entries a scan returns have the types of `hsed_entry_t`

`Snapshot.Typed` is what the kernel's and the C library's types promise about a snapshot. From it,
`hsedScan_typed`: every entry of every result has its numbers in range, its strings free of NULs (they
come out of character arrays) and one of the four modes.
-/

namespace Hsed
namespace Scan

open CLib

/-- The snapshot holds values of the C types: `uid_t`, the fields of `struct stat`, `pw_name`. -/
structure Snapshot.Typed (snap : Snapshot) : Prop where
  uid : ∀ pid u, (snap.proc pid).uid = some u → u < 2 ^ 32
  pwName : ∀ u name, snap.pwName u = some name → 0 ∉ name
  size : ∀ pid ds d st, (snap.proc pid).fds = some ds → d ∈ ds → d.stat = some st →
    -(2 ^ 63) ≤ st.size ∧ st.size < 2 ^ 63
  ino : ∀ pid ds d st, (snap.proc pid).fds = some ds → d ∈ ds → d.stat = some st → st.ino < 2 ^ 64
  major : ∀ pid ds d st, (snap.proc pid).fds = some ds → d ∈ ds → d.stat = some st → st.major < 2 ^ 32
  minor : ∀ pid ds d st, (snap.proc pid).fds = some ds → d ∈ ds → d.stat = some st → st.minor < 2 ^ 32
  mtime : ∀ pid ds d st, (snap.proc pid).fds = some ds → d ∈ ds → d.stat = some st →
    -(2 ^ 63) ≤ st.mtime ∧ st.mtime < 2 ^ 63

/-- The modes `fd_mode` writes. -/
def modes : List Bytes := [ascii "r", ascii "w", ascii "rw", ascii "?"]

/-- An entry whose fields have the types of `hsed_entry_t`. -/
structure Entry.Typed (e : Entry) : Prop where
  pid : -(2 ^ 31) ≤ e.pid ∧ e.pid < 2 ^ 31
  fd : -(2 ^ 31) ≤ e.fd ∧ e.fd < 2 ^ 31
  mode : e.mode ∈ modes
  size : -(2 ^ 63) ≤ e.size ∧ e.size < 2 ^ 63
  uid : e.uid < 2 ^ 32
  user : 0 ∉ e.user
  comm : 0 ∉ e.comm
  cmdline : 0 ∉ e.cmdline
  path : 0 ∉ e.path
  inode : e.inode < 2 ^ 64
  devMajor : e.devMajor < 2 ^ 32
  devMinor : e.devMinor < 2 ^ 32
  mtime : -(2 ^ 63) ≤ e.mtime ∧ e.mtime < 2 ^ 63

/-! ## Strings -/

theorem nul_notMem_cstr (s : Bytes) : 0 ∉ cstr s := by
  intro h
  have hb := List.mem_takeWhile_imp h
  exact absurd hb (by decide)

theorem nul_notMem_take {s : Bytes} (h : 0 ∉ s) (n : Nat) : 0 ∉ s.take n :=
  fun hm => h (List.mem_of_mem_take hm)

theorem nul_notMem_stripEol {s : Bytes} (h : 0 ∉ s) : 0 ∉ stripEol s := by
  intro hm
  have hd := (List.dropWhile_sublist _).mem (List.mem_reverse.mp hm)
  exact h (List.mem_reverse.mp hd)

theorem nul_notMem_firstLine (file : Option Bytes) (buflen : Nat) : 0 ∉ firstLineOrUnknown file buflen := by
  have hline : 0 ∉ readFirstLine file buflen := by
    unfold readFirstLine
    split
    · exact List.not_mem_nil
    · split
      · exact List.not_mem_nil
      · exact nul_notMem_stripEol (nul_notMem_cstr _)
  unfold firstLineOrUnknown
  split
  · exact nul_notMem_take (by decide) _
  · exact hline

theorem nul_notMem_cmdlineLoop (buflen : Nat) : ∀ (fuel : Nat) (raw out : Bytes) (wroteAny : Bool),
    0 ∉ out → 0 ∉ (cmdlineLoop buflen fuel raw out wroteAny).1 := by
  intro fuel
  induction fuel with
  | zero => intro raw out wroteAny h; rw [cmdlineLoop]; exact h
  | succ fuel ih =>
      intro raw out wroteAny h
      cases raw with
      | nil => rw [cmdlineLoop]; exact h; simp
      | cons b raw =>
          simp only [cmdlineLoop]
          by_cases harg : cstr (b :: raw) = []
          · rw [if_pos harg]; exact h
          · rw [if_neg harg]
            refine ih _ _ _ ?_
            -- neither the separator nor the copied argument holds a NUL
            have hsep : 0 ∉ (if (wroteAny && decide (out.length + 1 < buflen)) = true then out ++ [0x20] else out) := by
              split
              · simpa using h
              · exact h
            generalize (if (wroteAny && decide (out.length + 1 < buflen)) = true then out ++ [0x20] else out) = out'
              at hsep
            split
            · intro hm
              rcases List.mem_append.mp hm with hm | hm
              · exact hsep hm
              · exact nul_notMem_take (nul_notMem_cstr _) _ hm
            · exact hsep

theorem nul_notMem_readCmdline (p : Proc) (buflen : Nat) : 0 ∉ readCmdline p buflen := by
  unfold readCmdline
  split
  · exact nul_notMem_firstLine _ _
  · next text _ =>
      have hloop := nul_notMem_cmdlineLoop buflen (text.take (hsedCmdlineMax - 1)).length
        (text.take (hsedCmdlineMax - 1)) [] false List.not_mem_nil
      simp only
      split
      · next heq => rw [heq] at hloop; exact nul_notMem_take hloop _
      · exact nul_notMem_firstLine _ _

theorem nul_notMem_ownerName {snap : Snapshot} (hs : snap.Typed) (uid buflen : Nat) :
    0 ∉ ownerName snap uid buflen := by
  unfold ownerName
  split
  · next name heq => exact nul_notMem_take (hs.pwName uid name heq) _
  · refine nul_notMem_take ?_ _
    intro hm
    exact absurd (isDigit_decNat uid 0 hm) (by decide)

/-! ## Numbers -/

theorem toInt32_bounds (x : Int) : -(2 ^ 31) ≤ toInt32 x ∧ toInt32 x < 2 ^ 31 := by
  have hlo := Int.le_bmod (x := x) (m := 2 ^ 32) (by decide)
  have hhi := Int.bmod_lt (x := x) (m := 2 ^ 32) (by decide)
  unfold toInt32
  constructor <;> omega

theorem fdMode_mem (p : Proc) (fdnum : Int) : fdMode p fdnum ∈ modes := by
  have hloop : ∀ fuel text, fdModeLoop fuel text ∈ modes := by
    intro fuel
    induction fuel with
    | zero => intro text; rw [fdModeLoop]; decide
    | succ fuel ih =>
        intro text
        rw [fdModeLoop]
        split
        · decide
        · split
          · split <;> decide
          · exact ih _
  unfold fdMode
  split
  · decide
  · exact hloop _ _

/-! ## Entries -/

theorem matchFd_spec {minSize : Int} {d : FdEnt} {fdnum : Int} {path : Bytes} {st : Stat}
    (h : matchFd minSize d = some (fdnum, path, st)) :
    d.stat = some st ∧ 0 ∉ path ∧ -(2 ^ 31) ≤ fdnum ∧ fdnum < 2 ^ 31 := by
  simp only [matchFd] at h
  split at h
  · cases h
  split at h
  · cases h
  split at h
  · cases h
  split at h
  · cases h
  split at h
  · cases h
  split at h
  · cases h
  split at h
  · cases h
  next hst _ =>
    simp only [Option.some.injEq, Prod.mk.injEq] at h
    obtain ⟨rfl, rfl, rfl⟩ := h
    exact ⟨hst, nul_notMem_cstr _, toInt32_bounds _⟩

theorem openFds_fds {snap : Snapshot} {uidFilter : Nat} {pid : Int} {owner : Nat} {ds : List FdEnt}
    (h : openFds snap uidFilter pid = some (owner, ds)) :
    (snap.proc pid).uid = some owner ∧ (snap.proc pid).fds = some ds := by
  unfold openFds at h
  split at h
  · cases h
  next u hu =>
    split at h
    · cases h
    · obtain ⟨ds', hds, heq⟩ := Option.map_eq_some_iff.mp h
      obtain ⟨rfl, rfl⟩ := Prod.mk.inj heq
      exact ⟨hu, hds⟩

theorem pidEntries_typed {snap : Snapshot} (hs : snap.Typed) {minSize : Int} {uidFilter : Nat} {pid : Int}
    (hp : -(2 ^ 31) ≤ pid ∧ pid < 2 ^ 31) {e : Entry} (h : e ∈ pidEntries snap minSize uidFilter pid) :
    e.Typed := by
  rw [pidEntries_eq] at h
  cases ho : openFds snap uidFilter pid with
  | none => rw [ho] at h; cases h
  | some p =>
      obtain ⟨owner, ds⟩ := p
      rw [ho] at h
      obtain ⟨d, hd, he⟩ := List.mem_filterMap.mp h
      -- where the owner and the directory entries come from
      have hsrc := openFds_fds ho
      obtain ⟨⟨fdnum, path, st⟩, hm, rfl⟩ := Option.map_eq_some_iff.mp he
      obtain ⟨hst, hpath, hfd⟩ := matchFd_spec hm
      exact
        { pid := hp
          fd := hfd
          mode := fdMode_mem _ _
          size := hs.size pid ds d st hsrc.2 hd hst
          uid := hs.uid pid owner hsrc.1
          user := nul_notMem_take (nul_notMem_ownerName hs owner hsedNameMax) _
          comm := nul_notMem_take (nul_notMem_firstLine _ _) _
          cmdline := nul_notMem_take (nul_notMem_readCmdline _ _) _
          path := nul_notMem_take hpath _
          inode := hs.ino pid ds d st hsrc.2 hd hst
          devMajor := hs.major pid ds d st hsrc.2 hd hst
          devMinor := hs.minor pid ds d st hsrc.2 hd hst
          mtime := hs.mtime pid ds d st hsrc.2 hd hst }

theorem gatherPids_range {realloc : Nat → Bool} {snap : Snapshot} {pids : List Int}
    (h : gatherPids realloc snap = some pids) : ∀ pid ∈ pids, -(2 ^ 31) ≤ pid ∧ pid < 2 ^ 31 := by
  unfold gatherPids at h
  split at h
  · cases h
  · intro pid hp
    rw [gatherLoop_eq h, List.nil_append] at hp
    obtain ⟨name, -, rfl⟩ := List.mem_map.mp hp
    exact toInt32_bounds _

/-- **Types.** Every entry `hsed_scan` returns has the types of its record. -/
theorem hsedScan_typed {qsort : Qsort} {snap : Snapshot} (hs : snap.Typed) {alloc : Alloc}
    {minSize onlyPid : Int} (hp : -(2 ^ 31) ≤ onlyPid ∧ onlyPid < 2 ^ 31) {uidFilter : Nat}
    {numThreads : Int} {es : List Entry}
    (h : hsedScan qsort snap alloc minSize onlyPid uidFilter numThreads = some es) :
    ∀ e ∈ es, e.Typed := by
  intro e he
  rcases (hsedScan_spec h).2 with ⟨-, hperm⟩ | ⟨-, pids, hg, hperm⟩
  · exact pidEntries_typed hs hp (hperm.mem_iff.mp he)
  · obtain ⟨pid, hpid, he'⟩ := List.mem_flatMap.mp (hperm.mem_iff.mp he)
    exact pidEntries_typed hs (gatherPids_range hg pid hpid) he'

end Scan
end Hsed

