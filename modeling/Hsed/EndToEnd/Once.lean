import Hsed.EndToEnd.Exchange
import Hsed.Main.Correctness.Options
import Hsed.Server.Correctness.Listen

/-!
# `EndToEnd.Once` — `--scan-once` against SCAN

`hsed.c` has a second copy of the loop of `handle_scan` and of the line of `handle_stats`, which print where the
first ones send. On the same machine and with the same numbers, one says what the other says:
`once_matches_daemon`.
-/

namespace Hsed
namespace EndToEnd

open CLib Scan Wire Server Client Main

/-- Printed is what was answered: the same bytes, or the message of the same error. -/
def Matches (p : Printed) (bytes : Bytes) : Prop :=
  p.code = 0 ∧ p.stdout = bytes ∧ p.stderr = [] ∨
    p.code = 1 ∧ p.stdout = [] ∧ ∃ message, p.stderr = message ++ [0x0a] ∧ bytes = framed (errorText message)

/-- The uid filter of a client that means the same. -/
def clientUid (uidFilter : Nat) : Int := if uidFilter = hsedUidAny then uidAny else uidFilter

/-- What `main` finds is what the daemon of `m` finds, with the threads asked for. -/
structure SameMachine (sys : Sys) (o : Options) (m : Machine) : Prop where
  scan : ∀ minSize onlyPid uidFilter,
    sys.scan minSize onlyPid uidFilter o.scanThreads = m.daemon.env.scan minSize onlyPid uidFilter
  stats : ∀ minSize uidFilter, sys.stats minSize uidFilter o.scanThreads = m.daemon.env.stats minSize uidFilter
  strerror : sys.strerror = m.daemon.env.strerror

theorem clientUid_spec {uidFilter : Nat} (h : uidFilter < 2 ^ 32) :
    IsInt64 (clientUid uidFilter) ∧ toUInt32 (clientUid uidFilter) = uidFilter := by
  unfold clientUid
  split
  next hany => exact ⟨⟨by decide, by decide⟩, hany.symm⟩
  · refine ⟨⟨by omega, by omega⟩, ?_⟩
    rw [toUInt32]
    omega

/-! ## The two loops -/

theorem tally_concat (done : List Entry) (e : Entry) :
    toInt64 ((tally done).totalBytes + e.size) = (tally (done ++ [e])).totalBytes := by
  simp only [tally, List.map_append, List.map_cons, List.map_nil, List.sum_append, List.sum_cons, List.sum_nil,
    toInt64, Int.bmod_add_bmod, Int.add_zero]

theorem printEntries_eq (es : List Entry) : ∀ (out : Bytes) (done : List Entry),
    printEntries es out (tally done).totalBytes = (out ++ entryLines es, (tally (done ++ es)).totalBytes) := by
  induction es with
  | nil =>
      intro out done
      rw [printEntries, List.append_nil, entryLines, List.flatMap_nil, List.append_nil]
  | cons e es ih =>
      intro out done
      have hlines : entryLines (e :: es) = hsedFormatEntry e linebufSize ++ [0x0a] ++ entryLines es :=
        List.flatMap_cons
      rw [printEntries, tally_concat, ih, hlines, List.append_assoc out, List.append_assoc done, List.singleton_append]

theorem runScanOnce_some (es : List Entry) (strerror : Bytes) :
    runScanOnce (some es) strerror =
      ⟨0, entryLines es ++ (endText es.length (tally es).totalBytes ++ [0x0a]), []⟩ := by
  have hloop : printEntries es [] 0 = (entryLines es, (tally es).totalBytes) := printEntries_eq es [] []
  rw [runScanOnce, hloop]

/-! ## The two programs -/

section
variable (m : Machine) {sock : Sock} (hsock : sock.Healthy) {recv : List Recv}

include hsock in
theorem scan_matches {minSize : Int} (hm : IsInt64 minSize) {uidFilter : Nat} (hu : uidFilter < 2 ^ 32)
    (hd : Delivers recv (scanRequest minSize 0 (clientUid uidFilter))) :
    Matches (runScanOnce (m.daemon.env.scan minSize 0 uidFilter) m.daemon.env.strerror)
      (answer (fun _ => m.daemon.env) (recv ++ [.byte 0x0a]) sock) := by
  obtain ⟨hu64, hsame⟩ := clientUid_spec hu
  have hzero : IsInt64 0 := ⟨by decide, by decide⟩
  have hline := handleLine_scanRequest m.daemon.env ⟨[], sock, []⟩ hm hzero hu64
  rw [hsame, show toInt32 0 = 0 from rfl] at hline
  rw [answer_request hd (printable_scanRequest _ _ _) (length_scanRequest_lt hm hzero hu64) hline (handleScan_recv ..)]
  cases hscan : m.daemon.env.scan minSize 0 uidFilter with
  | none =>
      right
      refine ⟨rfl, rfl, _, rfl, ?_⟩
      rw [handleScan, hscan]
      exact answer_failed m hsock (by decide)
  | some es =>
      left
      have hlen : es.length < 2 ^ 63 := by
        have hmem := m.listing minSize 0 uidFilter es hscan
        unfold sizeofEntry at hmem
        omega
      have hwire := @handleScan_wire m.daemon.env ⟨[], sock, []⟩ hsock minSize 0 uidFilter es hscan hlen
      rw [sentByScan] at hwire
      rw [runScanOnce_some]
      exact ⟨rfl, hwire.symm, rfl⟩

include hsock in
theorem stats_matches {minSize : Int} (hm : IsInt64 minSize) {uidFilter : Nat} (hu : uidFilter < 2 ^ 32)
    (hd : Delivers recv (statsRequest minSize (clientUid uidFilter))) :
    Matches (runStatsOnce (m.daemon.env.stats minSize uidFilter) m.daemon.env.strerror)
      (answer (fun _ => m.daemon.env) (recv ++ [.byte 0x0a]) sock) := by
  obtain ⟨hu64, hsame⟩ := clientUid_spec hu
  have hline := handleLine_statsRequest m.daemon.env ⟨[], sock, []⟩ hm hu64
  rw [hsame] at hline
  rw [answer_request hd (printable_statsRequest _ _) (length_statsRequest_lt hm hu64) hline (handleStats_recv ..),
    handleStats]
  cases hst : m.daemon.env.stats minSize uidFilter with
  | none =>
      right
      refine ⟨rfl, rfl, _, rfl, ?_⟩
      exact answer_failed m hsock (by decide)
  | some st =>
      left
      have hcount := m.count _ _ _ hst
      have htotal : IsInt64 st.totalBytes := by
        rw [m.daemon.stats_eq] at hst
        obtain ⟨pids, -, rfl⟩ := hsedScanStats_spec hst
        exact toInt64_bounds _
      have hwire := @reply_wire ⟨[], sock, []⟩ hsock (statsText st) (length_statsText_lt hcount htotal)
      refine ⟨rfl, ?_, rfl⟩
      show _ = (Conn.reply ⟨[], sock, []⟩ (statsText st)).sock.wire.drop sock.wire.length
      rw [hwire, List.drop_left, framed]
      simp only [runStatsOnce, statsText, List.append_assoc]
      rfl

end

/-- **One listing, two ways.** For every argument list with `--scan-once` (or else `--stats-once`), on any machine:
    `hsedd` prints, byte for byte, what a daemon with the same `--scan-threads` answers to a SCAN (STATS) with the
    same filters, however the request is split; or it fails with the message of the daemon's error reply. -/
theorem once_matches_daemon (prog : Bytes) {args : List Bytes} {sys : Sys} (files : Server.Files) {o : Options}
    (hparse : parseArgs args Options.init = .options o) {m : Machine} (hsame : SameMachine sys o m) {sock : Sock}
    (hsock : sock.Healthy) :
    (o.scanOnce = true → ∀ recv, Delivers recv (scanRequest o.minSize 0 (clientUid o.uidFilter)) →
      Matches (main prog args sys files).printed (answer (fun _ => m.daemon.env) (recv ++ [.byte 0x0a]) sock)) ∧
    (o.scanOnce = false → o.statsOnce = true →
      ∀ recv, Delivers recv (statsRequest o.minSize (clientUid o.uidFilter)) →
        Matches (main prog args sys files).printed (answer (fun _ => m.daemon.env) (recv ++ [.byte 0x0a]) sock)) := by
  have hfits := fits_of_parseArgs hparse
  refine ⟨?_, ?_⟩
  · intro hscan recv hd
    have hprinted : (main prog args sys files).printed =
        runScanOnce (m.daemon.env.scan o.minSize 0 o.uidFilter) m.daemon.env.strerror := by
      rw [main, hparse]
      simp only [hscan, if_true, hsame.scan, hsame.strerror]
    rw [hprinted]
    exact scan_matches m hsock hfits.minSize hfits.uidFilter hd
  · intro hscan hstats recv hd
    have hprinted : (main prog args sys files).printed =
        runStatsOnce (m.daemon.env.stats o.minSize o.uidFilter) m.daemon.env.strerror := by
      rw [main, hparse]
      simp only [hscan, hstats, Bool.false_eq_true, if_false, if_true, hsame.stats, hsame.strerror]
    rw [hprinted]
    exact stats_matches m hsock hfits.minSize hfits.uidFilter hd

/-- `main` on the idle machine. -/
def idleSys : Sys where
  euid := 0
  umask := 0o022#9
  cwd := ascii "/"
  scan := fun minSize onlyPid uidFilter _ => idleMachine.daemon.env.scan minSize onlyPid uidFilter
  stats := fun minSize uidFilter _ => idleMachine.daemon.env.stats minSize uidFilter
  strerror := []
  daemonized := .done
  chdirs := true
  opens := true
  listen := allOk

def onceOptions : Options := { Options.init with scanOnce := true, minSize := 10, uidFilter := 1000 }

/-- `hsedd --min-size 10 --scan-once --uid 1000` beside `SCAN 10 0 1000`. -/
theorem once_matches_daemon_idle :
    Matches (main (ascii "hsedd") [ascii "--min-size", ascii "10", ascii "--scan-once", ascii "--uid", ascii "1000"]
        idleSys noFiles).printed
      (answer (fun _ => idleMachine.daemon.env) (typed "SCAN 10 0 1000" ++ [.byte 0x0a]) Sock.fresh) := by
  have hparse : parseArgs [ascii "--min-size", ascii "10", ascii "--scan-once", ascii "--uid", ascii "1000"]
      Options.init = .options onceOptions := by decide
  have hsame : SameMachine idleSys onceOptions idleMachine := ⟨fun _ _ _ => rfl, fun _ _ => rfl, rfl⟩
  exact (once_matches_daemon (ascii "hsedd") noFiles hparse hsame Sock.fresh_healthy).1 rfl _
    (delivers_map (ascii "SCAN 10 0 1000"))

end EndToEnd
end Hsed
