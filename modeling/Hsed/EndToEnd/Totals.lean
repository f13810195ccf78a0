import Hsed.EndToEnd.Filters

/-!
# `EndToEnd.Totals` — what `total_bytes` adds up

SCAN and STATS add the size of a file once for each matching descriptor, while the TUI shows the sum as
reclaimable space. `repeatedBytes` is what is counted again for files that several descriptors share;
`totals_count_files_once_iff` says when the reported total is nevertheless that of the distinct files.
-/

namespace Hsed
namespace EndToEnd

open CLib Scan Wire Server Client

/-! ## Files and descriptors -/

/-- The descriptors SCAN lists and STATS counts for these filters, as entries. -/
def matching (snap : Snapshot) (minSize : Int) (uidFilter : Nat) : List Entry :=
  (((gatherPids (fun _ => true) snap).getD []).flatMap (unfiltered snap)).filter (meets minSize uidFilter)

/-- The files behind them, one for each descriptor. -/
def files (es : List Entry) : List InodeId := es.map Entry.file

/-- The sizes of the distinct files. -/
def distinctBytes (size : InodeId → Int) (es : List Entry) : Int := ∑ f ∈ (files es).toFinset, size f

/-- The bytes counted again: each file's size, for every descriptor beyond the first. -/
def repeatedBytes (size : InodeId → Int) (es : List Entry) : Int :=
  ∑ f ∈ (files es).toFinset, (((files es).count f : Int) - 1) * size f

/-- In the snapshot every file has one size, whichever descriptor is looked at. -/
def OneSize (snap : Snapshot) (size : InodeId → Int) : Prop :=
  ∀ pid ds fd st, (snap.proc pid).fds = some ds → fd ∈ ds → fd.stat = some st → st.size = size st.file

theorem size_of_mem_matching {snap : Snapshot} {size : InodeId → Int} (h : OneSize snap size) {minSize : Int}
    {uidFilter : Nat} : ∀ e ∈ matching snap minSize uidFilter, e.size = size e.file := by
  intro e he
  obtain ⟨pid, -, he'⟩ := List.mem_flatMap.mp (List.mem_filter.mp he).1
  rw [unfiltered, pidEntries_eq] at he'
  split at he'
  · cases he'
  next owner ds ho =>
    obtain ⟨fd, hfd, hfe⟩ := List.mem_filterMap.mp he'
    obtain ⟨⟨fdnum, path, st⟩, hm, rfl⟩ := Option.map_eq_some_iff.mp hfe
    exact h pid ds fd st (openFds_fds ho).2 hfd (matchFd_spec hm).1

theorem sum_sizes {size : InodeId → Int} {es : List Entry} (h : ∀ e ∈ es, e.size = size e.file) :
    (es.map (·.size)).sum = distinctBytes size es + repeatedBytes size es := by
  have hmap : es.map (·.size) = (files es).map size := by
    rw [files, List.map_map]
    exact List.map_congr_left h
  rw [hmap, Finset.sum_list_map_count, distinctBytes, repeatedBytes, ← Finset.sum_add_distrib]
  refine Finset.sum_congr rfl ?_
  intro f _
  rw [nsmul_eq_mul]
  ring

theorem toInt64_eq_iff {x y : Int} : toInt64 x = y ↔ (2 ^ 64 : Int) ∣ x - y ∧ IsInt64 y := by
  rw [toInt64, Int.bmod_eq_iff (by decide), IsInt64]
  omega

/-! ## The reply to STATS -/

/-- What the peer receives from one `handle_stats`. -/
def sentByStats (env : Env) (c : Conn) (minSize : Int) (uidFilter : Nat) : Bytes :=
  (handleStats env c minSize uidFilter).sock.wire.drop c.sock.wire.length

/-- On a healthy connection the client gets the numbers of `hsed_scan_stats`. -/
theorem stats_received {env : Env} {c : Conn} (hc : c.sock.Healthy) {minSize : Int} {uidFilter : Nat} {st : Stats}
    (h : env.stats minSize uidFilter = some st) (hcount : st.count < 2 ^ 63) (htotal : IsInt64 st.totalBytes) :
    Client.stats (sentByStats env c minSize uidFilter) = .ok ((st.count : Int), st.totalBytes) := by
  have hcut : snprintf 2048 (statsText st) = statsText st := snprintf_of_lt (length_statsText_lt (by omega) htotal)
  obtain ⟨sock, hsend, hwire, -, -⟩ := hsedSendLine_ok hc (statsText st)
  have hreply : handleStats env c minSize uidFilter = c.reply (statsText st) := by
    rw [handleStats, h]
    rfl
  have hsent : sentByStats env c minSize uidFilter = statsText st ++ [0x0a] := by
    rw [sentByStats, hreply, Conn.reply, hsedSendLinef, hcut, hsend]
    simp only [hwire, List.append_assoc, List.drop_left]
  rw [Client.stats, hsent, readEnvelope_line (objectLine_stats st).printable, statsEnvelope hcount htotal]
  rfl

/-! ## The totals -/

/-- Nothing is counted twice that matters: the repeated bytes vanish in the `long long`, and the sum of the
    distinct files fits in one. -/
def CountedOnce (size : InodeId → Int) (es : List Entry) : Prop :=
  (2 ^ 64 : Int) ∣ repeatedBytes size es ∧ IsInt64 (distinctBytes size es)

theorem tally_eq_distinct_iff {size : InodeId → Int} {es : List Entry} (h : ∀ e ∈ es, e.size = size e.file) :
    (tally es).totalBytes = distinctBytes size es ↔ CountedOnce size es := by
  rw [tally, toInt64_eq_iff, sum_sizes h, add_sub_cancel_left]
  rfl

/-- Without overflow: every file that is not empty has one matching descriptor. -/
theorem countedOnce_iff {size : InodeId → Int} (hpos : ∀ f, 0 ≤ size f) {es : List Entry}
    (hfit : distinctBytes size es + repeatedBytes size es < 2 ^ 63) :
    CountedOnce size es ↔ ∀ f ∈ files es, size f = 0 ∨ (files es).count f = 1 := by
  have hterm : ∀ f ∈ (files es).toFinset, 0 ≤ (((files es).count f : Int) - 1) * size f := by
    intro f hf
    have hcount : 0 < (files es).count f := List.count_pos_iff.mpr (List.mem_toFinset.mp hf)
    exact mul_nonneg (by omega) (hpos f)
  have hrep : 0 ≤ repeatedBytes size es := Finset.sum_nonneg hterm
  have hdist : 0 ≤ distinctBytes size es := Finset.sum_nonneg fun f _ => hpos f
  have hzero : CountedOnce size es ↔ repeatedBytes size es = 0 := by
    unfold CountedOnce IsInt64
    omega
  rw [hzero, repeatedBytes, Finset.sum_eq_zero_iff_of_nonneg hterm]
  constructor
  · intro h f hf
    have hmul := h f (List.mem_toFinset.mpr hf)
    rcases mul_eq_zero.mp hmul with hc | hs
    · exact .inr (by omega)
    · exact .inl hs
  · intro h f hf
    rcases h f (List.mem_toFinset.mp hf) with hs | hc
    · rw [hs, mul_zero]
    · rw [hc]
      simp

theorem perm_matching {d : Daemon} {minSize : Int} {uidFilter : Nat} {es : List Entry}
    (h : hsedScan d.qsort d.snap d.alloc minSize 0 uidFilter d.scanThreads = some es) :
    es.Perm (matching d.snap minSize uidFilter) := by
  rcases (hsedScan_spec h).2 with ⟨hpos, -⟩ | ⟨-, pids, hg, hperm⟩
  · exact absurd hpos (by decide)
  · rw [matching, hg, Option.getD_some, List.filter_flatMap]
    have hwalk : pids.flatMap (pidEntries d.snap minSize uidFilter) =
        pids.flatMap fun pid => (unfiltered d.snap pid).filter (meets minSize uidFilter) :=
      congrArg (pids.flatMap ·) (funext fun pid => pidEntries_eq_filter d.typed _ _ _)
    rwa [← hwalk]

theorem stats_eq_tally_matching {d : Daemon} {minSize : Int} {uidFilter : Nat} {st : Stats}
    (h : hsedScanStats d.snap d.alloc minSize uidFilter d.scanThreads = some st) :
    st = tally (matching d.snap minSize uidFilter) := by
  obtain ⟨pids, hg, rfl⟩ := hsedScanStats_spec h
  rw [matching, hg, Option.getD_some, List.filter_flatMap]
  exact congrArg tally (congrArg (pids.flatMap ·) (funext fun pid => pidEntries_eq_filter d.typed _ _ _))

section
variable (d : Daemon) {size : InodeId → Int} {minSize : Int} {uidFilter : Nat} {es : List Entry} {st : Stats}
  {c : Conn}

/-- Both commands report the tally of the matching descriptors. -/
theorem totals_received (h : hsedScan d.qsort d.snap d.alloc minSize 0 uidFilter d.scanThreads = some es)
    (hst : hsedScanStats d.snap d.alloc minSize uidFilter d.scanThreads = some st)
    (hmem : es.length * sizeofEntry < 2 ^ 64) (hc : c.sock.Healthy) :
    Client.scan (sentByScan d.env c minSize 0 uidFilter) =
        .ok (es.map received, (tally (matching d.snap minSize uidFilter)).totalBytes) ∧
      Client.stats (sentByStats d.env c minSize uidFilter) =
        .ok (((tally (matching d.snap minSize uidFilter)).count : Int),
          (tally (matching d.snap minSize uidFilter)).totalBytes) := by
  have hperm := perm_matching h
  have htally := tally_perm hperm
  obtain rfl := stats_eq_tally_matching hst
  constructor
  · rw [scan_received d.typed (by decide) d.scan_eq h (d.scan_comm_le h) hmem hc, htally]
  · have hcount : (tally (matching d.snap minSize uidFilter)).count < 2 ^ 63 := by
      show (matching d.snap minSize uidFilter).length < 2 ^ 63
      rw [← hperm.length_eq]
      unfold sizeofEntry at hmem
      omega
    refine stats_received hc ?_ hcount (toInt64_bounds _)
    rw [d.stats_eq]
    exact hst

/-- **Reclaimable space.** When both commands succeed, the total on SCAN's end line and the total of STATS, as the
    client receives them, are the sum over the distinct files among the matching descriptors iff the bytes
    counted again for shared files vanish (modulo `2 ^ 64`) and that sum is an `int64`. If sizes are not negative
    and nothing overflows, that is: iff no file but empty ones has two matching descriptors. -/
theorem totals_count_files_once_iff (hsize : OneSize d.snap size)
    (h : hsedScan d.qsort d.snap d.alloc minSize 0 uidFilter d.scanThreads = some es)
    (hst : hsedScanStats d.snap d.alloc minSize uidFilter d.scanThreads = some st)
    (hmem : es.length * sizeofEntry < 2 ^ 64) (hc : c.sock.Healthy) :
    (((∃ hes, Client.scan (sentByScan d.env c minSize 0 uidFilter) =
          .ok (hes, distinctBytes size (matching d.snap minSize uidFilter))) ∧
        ∃ n, Client.stats (sentByStats d.env c minSize uidFilter) =
          .ok (n, distinctBytes size (matching d.snap minSize uidFilter))) ↔
      CountedOnce size (matching d.snap minSize uidFilter)) ∧
    ((∀ f, 0 ≤ size f) → ((matching d.snap minSize uidFilter).map (·.size)).sum < 2 ^ 63 →
      (CountedOnce size (matching d.snap minSize uidFilter) ↔
        ∀ f ∈ files (matching d.snap minSize uidFilter),
          size f = 0 ∨ (files (matching d.snap minSize uidFilter)).count f = 1)) := by
  have hsizes := @size_of_mem_matching d.snap size hsize minSize uidFilter
  obtain ⟨hscan, hstats⟩ := totals_received d h hst hmem hc
  constructor
  · rw [← tally_eq_distinct_iff hsizes, hscan, hstats]
    constructor
    · rintro ⟨⟨hes, heq⟩, -⟩
      exact congrArg Prod.snd (Except.ok.inj heq)
    · intro heq
      rw [heq]
      exact ⟨⟨_, rfl⟩, _, rfl⟩
  · intro hpos hfit
    rw [sum_sizes hsizes] at hfit
    exact countedOnce_iff hpos hfit

end

/-! ### Forked holders -/

/-- The processes `pids` of user 1000 share one deleted file of 4096 bytes. -/
def sharers (pids : List Nat) : Snapshot := holders pids 1000 4096

def sharersDaemon (pids : List Nat) : Daemon := holdersDaemon pids 1000 uid_user 4096 isInt64_page

theorem sharers_oneSize (pids : List Nat) : OneSize (sharers pids) fun _ => 4096 := by
  intro p ds fd st hds hd hst
  rw [heldFd_of_mem hds hd hst]

/-- Both commands succeed there. -/
theorem sharers_succeed {pids : List Nat} {gathered : List Int}
    (hg : gatherPids (fun _ => true) (sharers pids) = some gathered) :
    (∃ es, hsedScan mergeQsort (sharers pids) Alloc.ok 0 0 hsedUidAny 1 = some es ∧
      es.length = (matching (sharers pids) 0 hsedUidAny).length) ∧
    ∃ st, hsedScanStats (sharers pids) Alloc.ok 0 hsedUidAny 1 = some st := by
  obtain ⟨es, hes⟩ := hsedScan_ok mergeQsort 0 0 hsedUidAny 1 (.inr ⟨gathered, hg⟩)
  exact ⟨⟨es, hes, (perm_matching (d := sharersDaemon pids) hes).length_eq⟩, _, hsedScanStats_eq hg 0 hsedUidAny 1⟩

/-- One holder: the total is the file's size. -/
theorem totals_count_files_once_single :
    (∃ hes, Client.scan (sentByScan (sharersDaemon [7]).env ⟨[], Sock.fresh, []⟩ 0 0 hsedUidAny) = .ok (hes, 4096)) ∧
      ∃ n, Client.stats (sentByStats (sharersDaemon [7]).env ⟨[], Sock.fresh, []⟩ 0 hsedUidAny) = .ok (n, 4096) := by
  obtain ⟨⟨es, hes, hlen⟩, st, hst⟩ := @sharers_succeed [7] [7] (by decide +kernel)
  have hmatch : files (matching (sharers [7]) 0 hsedUidAny) = [⟨8, 1, 12⟩] := by decide +kernel
  have hone : (matching (sharers [7]) 0 hsedUidAny).length = 1 := by decide +kernel
  have hmem : es.length * sizeofEntry < 2 ^ 64 := by
    rw [hlen, hone]
    decide
  obtain ⟨hiff, hwhen⟩ := totals_count_files_once_iff (sharersDaemon [7]) (sharers_oneSize [7]) hes hst hmem
    (c := ⟨[], Sock.fresh, []⟩) Sock.fresh_healthy
  have hcounted := (hwhen (fun _ => by decide) (by decide +kernel)).mpr fun f hf => by
    rw [show (sharersDaemon [7]).snap = sharers [7] from rfl, hmatch] at hf ⊢
    rw [List.mem_singleton.mp hf]
    exact .inr (by decide)
  have hdistinct : distinctBytes (fun _ => 4096) (matching (sharersDaemon [7]).snap 0 hsedUidAny) = 4096 := by
    rw [distinctBytes, show (sharersDaemon [7]).snap = sharers [7] from rfl, hmatch]
    decide
  have hreported := hiff.mpr hcounted
  rwa [hdistinct] at hreported

/-- A server and the worker it forked hold the same 4096 bytes: both commands report 8192. -/
theorem forked_total_doubled :
    distinctBytes (fun _ => 4096) (matching (sharersDaemon [7, 8]).snap 0 hsedUidAny) = 4096 ∧
      (∃ hes, Client.scan (sentByScan (sharersDaemon [7, 8]).env ⟨[], Sock.fresh, []⟩ 0 0 hsedUidAny) = .ok (hes, 8192)) ∧
      Client.stats (sentByStats (sharersDaemon [7, 8]).env ⟨[], Sock.fresh, []⟩ 0 hsedUidAny) = .ok (2, 8192) := by
  obtain ⟨⟨es, hes, hlen⟩, st, hst⟩ := @sharers_succeed [7, 8] [7, 8] (by decide +kernel)
  have hmatch : files (matching (sharers [7, 8]) 0 hsedUidAny) = [⟨8, 1, 12⟩, ⟨8, 1, 12⟩] := by decide +kernel
  have htally : tally (matching (sharers [7, 8]) 0 hsedUidAny) = ⟨2, 8192⟩ := by decide +kernel
  have htwo : (matching (sharers [7, 8]) 0 hsedUidAny).length = 2 := by decide +kernel
  have hmem : es.length * sizeofEntry < 2 ^ 64 := by
    rw [hlen, htwo]
    decide
  obtain ⟨hscan, hstats⟩ := totals_received (sharersDaemon [7, 8]) hes hst hmem (c := ⟨[], Sock.fresh, []⟩)
    Sock.fresh_healthy
  rw [show (sharersDaemon [7, 8]).snap = sharers [7, 8] from rfl, htally] at hscan hstats
  refine ⟨?_, ⟨_, hscan⟩, hstats⟩
  rw [distinctBytes, show (sharersDaemon [7, 8]).snap = sharers [7, 8] from rfl, hmatch]
  decide

end EndToEnd
end Hsed
