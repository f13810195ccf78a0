import Hsed.EndToEnd.Cut
import Hsed.EndToEnd.Exchange
import Hsed.Tui.Correctness.Notices

/-!
# `EndToEnd.Notices` — what the user is shown, and what happened in the daemon

From a descriptor in `/proc` to a row of the table, and from a system call to the notice under it, lie the reply
lines, the client's decoder and the way of a message through the screens. Put together: what is listed was found,
and a success that is shown has happened (`notices_true`).
-/

namespace Hsed
namespace EndToEnd

open CLib Scan Wire Server Client Lts

section

variable (D : Machine → Prop)

/-- What a call to one of the daemons in `D` returned, from as much of the answer as arrived. -/
def CameFrom (call : Call) (r : Except ClientError Returned) : Prop :=
  ∃ (m : Machine) (recv : List Recv) (sock : Sock) (s : Bytes), D m ∧ Delivers recv call.line ∧
    s <+: answer (fun _ => m.daemon.env) (recv ++ [.byte 0x0a]) sock ∧ call.read s = r

/-- The same for `Client.Scan`, whose arguments are Go's `int64` and `int`. -/
def ListedBy (minSize onlyPid uidFilter : Int) (r : Except ClientError (List HiddenEntry × Int)) : Prop :=
  (IsInt64 minSize ∧ IsInt64 onlyPid ∧ IsInt64 uidFilter) ∧
  ∃ (m : Machine) (recv : List Recv) (sock : Sock) (s : Bytes), D m ∧ sock.Healthy ∧
    Delivers recv (scanRequest minSize onlyPid uidFilter) ∧
    s <+: answer (fun _ => m.daemon.env) (recv ++ [.byte 0x0a]) sock ∧ Client.scan s = r

/-- Behind the successes of the TUI's commands stand calls to daemons in `D`. -/
def Backed {W : Tui.Widgets} (c : Tui.Cmd W) (o : Tui.Outcome W) : Prop :=
  match c, o with
  | .scan minSize onlyPid uidFilter, .scanned (.ok r) => ListedBy D minSize onlyPid uidFilter (.ok r)
  | .truncate e, .truncated (.ok n) => CameFrom D (.truncate e.pid e.fd) (.ok (.freed n))
  | .hup e, .signalled (.ok _) => CameFrom D (.hup e.pid) (.ok .done)
  | .kill e, .signalled (.ok _) => CameFrom D (.kill e.pid) (.ok .done)
  | _, _ => True

/-- The entry is one that the scan of a daemon found. -/
def Found (x : HiddenEntry) : Prop :=
  ∃ m, D m ∧ ∃ minSize onlyPid uidFilter es, (-(2 ^ 31) ≤ onlyPid ∧ onlyPid < 2 ^ 31) ∧
    m.daemon.env.scan minSize onlyPid uidFilter = some es ∧ ∃ e ∈ es, x = received e

/-- What a label says happened in one of the daemons. -/
def Done : Tui.Label → Prop
  | .freed n pid fd => ∃ m, D m ∧ m.daemon.env.truncate pid fd = .ok n
  | .sighup pid => ∃ m, D m ∧ m.daemon.env.kill pid sighup = .ok
  | .sigkill pid => ∃ m, D m ∧ m.daemon.env.kill pid sigkill = .ok

end

section

variable {D : Machine → Prop}

/-! ## Listings -/

/-- No part of an error reply is a listing. -/
theorem scan_error_cut {raw text s : Bytes} (h : Json.Escaped raw text) (hs : s <+: framed (errorText raw))
    {r : List HiddenEntry × Int} : Client.scan s ≠ .ok r := by
  intro hscan
  obtain ⟨got, env, rest, hread, htype⟩ := scanLoop_ok hscan
  obtain ⟨-, henv, -⟩ := readEnvelope_cut (objectLine_error h) List.prefix_rfl hs hread
  have herror : env.type = ascii "error" := by
    rw [errorEnvelope h] at henv
    exact (congrArg Envelope.type (Option.some.inj henv)).symm
  rcases htype with ⟨hend, -⟩ | ⟨hentry, -⟩
  · exact absurd (herror.symm.trans hend) (by decide)
  · exact absurd (herror.symm.trans hentry) (by decide)

/-- What a scan returned was found by the daemon, whatever part of the answer arrived. -/
theorem found_of_listedBy {minSize onlyPid uidFilter total : Int} {entries : List HiddenEntry}
    (h : ListedBy D minSize onlyPid uidFilter (.ok (entries, total))) : ∀ x ∈ entries, Found D x := by
  obtain ⟨⟨hm, hp, hu⟩, m, recv, sock, s, hmD, hsock, hd, hs, hres⟩ := h
  have hpid : -(2 ^ 31) ≤ toInt32 onlyPid ∧ toInt32 onlyPid < 2 ^ 31 := toInt32_bounds onlyPid
  rw [answer_request hd (printable_scanRequest _ _ _) (length_scanRequest_lt hm hp hu)
    (handleLine_scanRequest m.daemon.env ⟨[], sock, []⟩ hm hp hu) (handleScan_recv ..)] at hs
  cases hscan : m.daemon.env.scan minSize (toInt32 onlyPid) (toUInt32 uidFilter) with
  | none =>
      rw [handleScan, hscan] at hs
      -- no part of an error reply reads as a listing
      have hs' : s <+: framed (errorText (ascii "scan failed: " ++ m.daemon.env.strerror)) := by
        rw [← answer_failed m hsock (by decide)]
        exact hs
      exact absurd hres (scan_error_cut (escaped_failed (by decide) m.daemon.strerror) hs')
  | some es =>
      have hscan' : hsedScan m.daemon.qsort m.daemon.snap m.daemon.alloc minSize (toInt32 onlyPid) (toUInt32 uidFilter)
          m.daemon.scanThreads = some es := by rw [← hscan, m.daemon.scan_eq]
      have hlen : es.length < 2 ^ 63 := by
        have hmem := m.listing _ _ _ es hscan
        unfold sizeofEntry at hmem
        omega
      have ht := hsedScan_typed m.daemon.typed hpid hscan'
      have hcomm := m.daemon.scan_comm_le hscan'
      have hwire := @handleScan_wire m.daemon.env ⟨[], sock, []⟩ hsock minSize (toInt32 onlyPid) (toUInt32 uidFilter) es
        hscan hlen
      rw [sentByScan] at hwire
      rw [hwire, ← List.append_assoc, ← scanReply, List.prefix_concat_iff] at hs
      -- nor does a proper part of a listing: what was read is the whole
      have hwhole : entries = es.map received := by
        have heq : ∀ k, s = scanReply es ++ [0x0a].take k → entries = es.map received := by
          rintro k rfl
          rw [scan_whole ht hcomm hlen k] at hres
          exact (Prod.mk.inj (Except.ok.inj hres)).1.symm
        rcases hs with hs | hs
        · -- with its last newline, or without
          exact heq 1 hs
        · by_cases hall : s = scanReply es
          · exact heq 0 (by rw [hall, List.take_zero, List.append_nil])
          · exact absurd hres (scanLoop_short ht hcomm hs hall)
      intro x hx
      rw [hwhole, List.mem_map] at hx
      obtain ⟨e, he, rfl⟩ := hx
      exact ⟨m, hmD, minSize, toInt32 onlyPid, toUInt32 uidFilter, es, hpid, hscan, e, he, rfl⟩

/-- The numbers of what is found are those of C's `pid_t` and `int`. -/
theorem Found.inRange {x : HiddenEntry} (h : Found D x) : InRange (.truncate x.pid x.fd) := by
  obtain ⟨m, -, minSize, onlyPid, uidFilter, es, hpid, hscan, e, he, rfl⟩ := h
  rw [m.daemon.scan_eq] at hscan
  have ht := hsedScan_typed m.daemon.typed hpid hscan e he
  exact ⟨ht.pid, ht.fd⟩

theorem listed_of_backed {W : Tui.Widgets} {c : Tui.Cmd W} {i : Tui.SessionId} {o : Tui.Outcome W}
    {r : Tui.Msg W × Option Tui.Session} (hfin : c.finish i o = some r) (ho : Backed D c o) :
    o.Listed (Found D) := by
  unfold Tui.Cmd.finish at hfin
  split at hfin
  case h_7 => exact found_of_listedBy ho
  all_goals first | exact trivial | cases hfin

/-! ## Notices -/

variable (hD : ∀ m, D m → Texts m.daemon.env)

include hD in
/-- A success comes from the daemon that was called. -/
theorem outcome_of_cameFrom {call : Call} (hr : InRange call) {v : Returned} (h : CameFrom D call (.ok v)) :
    ∃ m, D m ∧ outcome m.daemon.env call = .ok v := by
  obtain ⟨m, recv, sock, s, hm, hd, hs, hread⟩ := h
  refine ⟨m, hm, ?_⟩
  rcases read_answer m (hD m hm) hr hd hs with hclosed | hmalformed | hsame
  · rw [hread] at hclosed
    cases hclosed
  · rw [hread] at hmalformed
    cases hmalformed
  · exact hsame.symm.trans hread

theorem kill_of_signalOutcome {env : Env} {pid sig : Int} {v : Returned} (h : signalOutcome env pid sig = .ok v) :
    env.kill pid sig = .ok := by
  rw [signalOutcome] at h
  cases hkill : env.kill pid sig with
  | ok => rfl
  | failed strerror => rw [hkill] at h; cases h
  | fatal => rw [hkill] at h; cases h

theorem truncate_of_outcome {env : Env} {pid fd n : Int} (h : outcome env (.truncate pid fd) = .ok (.freed n)) :
    env.truncate pid fd = .ok n := by
  rw [outcome] at h
  split at h
  · cases h
  next freed htr =>
    cases h
    exact htr

include hD in
/-- So the label of a finished command on an entry that was found is true. -/
theorem reports_done {W : Tui.Widgets} {c : Tui.Cmd W} {o : Tui.Outcome W} (hc : c.Listed (Found D))
    (ho : Backed D c o) : Tui.Reports (Done D) c o := by
  intro i label session hfin
  unfold Tui.Cmd.finish at hfin
  split at hfin
  case h_8 e r =>
    cases r with
    | error err => cases hfin
    | ok n =>
        cases hfin
        obtain ⟨m, hm, hout⟩ := outcome_of_cameFrom hD hc.inRange ho
        exact ⟨m, hm, truncate_of_outcome hout⟩
  case h_9 e r =>
    cases r with
    | error err => cases hfin
    | ok u =>
        cases hfin
        obtain ⟨m, hm, hout⟩ := @outcome_of_cameFrom D hD (.hup e.pid) hc.inRange.1 _ ho
        exact ⟨m, hm, kill_of_signalOutcome hout⟩
  case h_10 e r =>
    cases r with
    | error err => cases hfin
    | ok u =>
        cases hfin
        obtain ⟨m, hm, hout⟩ := @outcome_of_cameFrom D hD (.kill e.pid) hc.inRange.1 _ ho
        exact ⟨m, hm, kill_of_signalOutcome hout⟩
  all_goals cases hfin

include hD in
/-- **What the user sees is true.** In every run of the TUI in which its successful calls were made to daemons in
    `D`, in any order of keys, timers and answers, wherever requests are split and connections are cut: every entry
    on any screen was found by a scan of such a daemon, and the notice of the table, whenever it says that bytes
    were freed or a signal was sent, names what such a daemon did. -/
theorem notices_true (W : Tui.Widgets) (minSize onlyPid uidFilter interval : Int) (acts : List (Tui.Act W))
    (p : Tui.Program W) (hrun : Run (Guarded (fun p act => act.Comes (Backed D) p) Tui.Program.Step)
      (Tui.Program.start W minSize onlyPid uidFilter interval) acts p) :
    (∀ s ∈ p.app.stack, s.Listed (Found D)) ∧
      ∀ t label, Tui.Screen.table t ∈ p.app.stack → t.notice = some label → Done D label := by
  have hkeeps := (Tui.keeps_listed (W := W) (Found D)).both (Tui.keeps_told (Done D))
    (fun c i o r hfin ho => listed_of_backed hfin ho) (fun c o hc ho => reports_done hD hc ho)
  have hlisted := Tui.listed_start (W := W) (Found D) minSize onlyPid uidFilter interval
  have htold := Tui.told_start (W := W) (Done D) minSize onlyPid uidFilter interval
  have hp := hkeeps.run (hlisted.both htold) hrun
  exact ⟨fun s hs => (hp.stack s hs).1, fun t label ht hlabel => (hp.stack _ ht).2 label hlabel⟩

end

/-! ### A process that is killed -/

theorem length_pidEntries_holders (pids : List Nat) (owner : Nat) (size minSize : Int) (uidFilter : Nat) (pid : Int) :
    (pidEntries (holders pids owner size) minSize uidFilter pid).length ≤ 1 := by
  rw [pidEntries_eq]
  split
  · exact Nat.zero_le _
  next owner' ds hopen =>
    refine Nat.le_trans (List.length_filterMap_le _ _) ?_
    obtain ⟨-, hds⟩ := openFds_fds hopen
    simp only [holders] at hds
    split at hds
    · obtain rfl := Option.some.inj hds
      exact Nat.le_refl _
    · cases hds

/-- All processes of the machine with one holder. -/
theorem length_walk_holder {pids : List Int} (hg : gatherPids (fun _ => true) (holders [7] 1000 4096) = some pids)
    (minSize : Int) (uidFilter : Nat) :
    (pids.flatMap (pidEntries (holders [7] 1000 4096) minSize uidFilter)).length ≤ 1 := by
  rw [gatherPids_holder (by decide), Option.some_inj] at hg
  rw [← hg, List.flatMap_singleton]
  exact length_pidEntries_holders ..

theorem count_holder {minSize : Int} {uidFilter : Nat} {st : Stats}
    (h : hsedScanStats (holders [7] 1000 4096) Alloc.ok minSize uidFilter 1 = some st) : st.count ≤ 1 := by
  obtain ⟨pids, hg, rfl⟩ := hsedScanStats_spec h
  exact length_walk_holder hg minSize uidFilter

/-- Process 7 of user 1000 holds 4096 bytes open; the daemon may signal it. -/
def killableMachine : Machine where
  daemon :=
    { oneHolder with
      env := { oneHolder.env with truncate := deniedEnv.truncate, kill := fun _ _ => .ok }
      scan_eq := rfl, stats_eq := rfl, strerror := rfl }
  listing := by
    intro minSize onlyPid uidFilter es hes
    have hscan : hsedScan mergeQsort (holders [7] 1000 4096) Alloc.ok minSize onlyPid uidFilter 1 = some es := hes
    have hlen : es.length ≤ 1 := by
      rcases (hsedScan_spec hscan).2 with ⟨-, hperm⟩ | ⟨-, pids, hg, hperm⟩
      · rw [hperm.length_eq]
        exact length_pidEntries_holders ..
      · rw [hperm.length_eq]
        exact length_walk_holder hg minSize uidFilter
    exact Nat.lt_of_le_of_lt (Nat.mul_le_mul_right _ hlen) (by decide)
  count := fun minSize uidFilter st hst => Nat.lt_of_le_of_lt (count_holder hst) (by decide)
  freed := by
    intro pid fd n h
    cases h
  strerror_short := by decide

theorem killableMachine_texts : Texts killableMachine.daemon.env where
  truncate := deniedMachine_texts.truncate
  kill := by
    intro pid sig strerror h
    cases h
  strerror := List.forall_mem_nil _
  count := fun minSize uidFilter st hst => Nat.lt_of_le_of_lt (count_holder hst) (by decide)

/-- What it holds. -/
def heldEntry : Entry :=
  ⟨7, 3, ascii "?", 4096, 1000, ascii "1000", ascii "cat", ascii "cat", ascii "/tmp/log", 12, 8, 1, 0⟩

theorem scan_killable : killableMachine.daemon.env.scan 0 7 hsedUidAny = some [heldEntry] := by
  have hwalk : pidEntries (holders [7] 1000 4096) 0 hsedUidAny 7 = [heldEntry] := by decide +kernel
  obtain ⟨es, hes, hperm, -⟩ := hsedScan_one mergeQsort (holders [7] 1000 4096) (show (0 : Int) < 7 by decide) 0
    hsedUidAny 1
  rw [hwalk, List.perm_singleton] at hperm
  rw [hperm] at hes
  exact hes

/-- The table lists it, and it is killed by `k` and the word; then the notice is shown. -/
def toldRun : List (Tui.Act Tui.simpleWidgets) :=
  .finish 0 (.scanned (.ok ([received heldEntry], 4096))) :: (Tui.killRun.drop 1).append
    [.deliver, .finish 2 (.signalled (.ok ())), .deliver, .finish 2 .done, .deliver]

/-- The calls of that run that succeed. -/
def answered (p : Tui.Program Tui.simpleWidgets) : Tui.Act Tui.simpleWidgets → Bool
  | .finish i o =>
    match p.running[i]?, o with
    | some (.scan minSize onlyPid uidFilter), .scanned (.ok r) =>
      (minSize, onlyPid, uidFilter) = (0, 7, -1) && r = ([received heldEntry], 4096)
    | some (.kill e), .signalled (.ok _) => e.pid = 7
    | some (.hup _), .signalled (.ok _) => false
    | some (.truncate _), .truncated (.ok _) => false
    | _, _ => true
  | _ => true

theorem listedBy_killable :
    ListedBy (· = killableMachine) 0 7 (-1) (.ok ([received heldEntry], 4096)) := by
  have hm : IsInt64 0 := ⟨by decide, by decide⟩
  have hp : IsInt64 7 := ⟨by decide, by decide⟩
  have hu : IsInt64 (-1) := ⟨by decide, by decide⟩
  refine ⟨⟨hm, hp, hu⟩, killableMachine, (scanRequest 0 7 (-1)).map .byte, Sock.fresh, _, rfl, Sock.fresh_healthy,
    delivers_map _, List.prefix_rfl, ?_⟩
  rw [answer_request (delivers_map _) (printable_scanRequest _ _ _) (length_scanRequest_lt hm hp hu)
    (handleLine_scanRequest killableMachine.daemon.env ⟨[], Sock.fresh, []⟩ hm hp hu) (handleScan_recv ..)]
  have hwire := @handleScan_wire killableMachine.daemon.env ⟨[], Sock.fresh, []⟩ Sock.fresh_healthy 0 7 hsedUidAny
    [heldEntry] scan_killable (by decide)
  rw [sentByScan, ← List.append_assoc, ← scanReply] at hwire
  rw [show toInt32 7 = 7 from rfl, show toUInt32 (-1) = hsedUidAny from rfl, hwire]
  have hpid : -(2 ^ 31) ≤ (7 : Int) ∧ (7 : Int) < 2 ^ 31 := by decide
  have hscan : hsedScan mergeQsort (holders [7] 1000 4096) Alloc.ok 0 7 hsedUidAny 1 = some [heldEntry] := scan_killable
  exact scan_whole (hsedScan_typed killableMachine.daemon.typed hpid hscan) (killableMachine.daemon.scan_comm_le hscan)
    (by decide) 1

theorem cameFrom_killable : CameFrom (· = killableMachine) (.kill 7) (.ok .done) := by
  have hr : InRange (.kill 7) := ⟨by decide, by decide⟩
  have hd : Delivers ((Call.kill 7).line.map .byte) (Call.kill 7).line := delivers_map _
  refine ⟨killableMachine, _, Sock.fresh, _, rfl, hd, List.prefix_rfl, ?_⟩
  exact read_whole killableMachine killableMachine_texts hr hd Sock.fresh_healthy

theorem comes_of_answered {p : Tui.Program Tui.simpleWidgets} {act : Tui.Act Tui.simpleWidgets}
    (h : answered p act = true) : act.Comes (Backed (· = killableMachine)) p := by
  cases act with
  | finish i o =>
      intro c hc
      simp only [answered, hc] at h
      unfold Backed
      split
      · rw [Bool.and_eq_true, decide_eq_true_eq, decide_eq_true_eq] at h
        obtain ⟨hargs, rfl⟩ := h
        cases hargs
        exact listedBy_killable
      · cases h
      · cases h
      · rw [of_decide_eq_true h]
        exact cameFrom_killable
      · exact trivial
  | _ => exact trivial

def tells (label : Tui.Label) : Tui.Screen Tui.simpleWidgets → Bool
  | .table t => t.notice = some label
  | _ => false

/-- The process is shown, killed, and reported as killed. -/
theorem notices_true_kill :
    ∃ p, Run (Guarded (fun p act => act.Comes (Backed (· = killableMachine)) p) Tui.Program.Step)
        (Tui.Program.start Tui.simpleWidgets 0 7 (-1) 5) toldRun p ∧
      (∃ t, Tui.Screen.table t ∈ p.app.stack ∧ t.notice = some (.sigkill 7)) ∧
      Done (· = killableMachine) (.sigkill 7) := by
  have hexec : (toldRun.foldlM (fun p act => if answered p act then p.next act else none)
      (Tui.Program.start Tui.simpleWidgets 0 7 (-1) 5)).any (fun p =>
        ∃ s ∈ p.app.stack, tells (.sigkill 7) s) := by decide +kernel
  obtain ⟨p, hp, hnotice⟩ := (Option.any_eq_true _ _).mp hexec
  have hrun := (Run.of_exec_guarded hp).guarded_mono fun _ _ h => comes_of_answered h
  obtain ⟨s, hs, htells⟩ := of_decide_eq_true hnotice
  cases s with
  | table t =>
      have hlabel : t.notice = some (.sigkill 7) := of_decide_eq_true htells
      refine ⟨p, hrun, ⟨t, hs, hlabel⟩, ?_⟩
      have htexts : ∀ m, m = killableMachine → Texts m.daemon.env := by
        rintro m rfl
        exact killableMachine_texts
      exact (notices_true htexts _ _ _ _ _ _ p hrun).2 t _ hs hlabel
  | _ => cases htells

end EndToEnd
end Hsed
