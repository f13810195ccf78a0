import Hsed.EndToEnd.Filters

/-!
# `EndToEnd.Grammar` — requests and replies of a whole connection

`Answers` is the grammar of the protocol: which reply lines each request line is to get. On a connection
without a STREAM and with no failing `send`, every line up to the first QUIT gets just that, in order,
whatever the peer sends and however the machine changes between two lines: unless a line makes the daemon
signal itself (`requests_answered_iff`), which then ends before it replies.
-/

namespace Hsed
namespace EndToEnd

open CLib Scan Wire Server

/-! ## The grammar -/

/-- One line that is a JSON object of the given type. -/
structure IsReply (type line : Bytes) : Prop where
  newline : 0x0a ∉ line
  object : ∃ kvs, Json.unmarshal line = some (.obj ((ascii "type", .str type) :: kvs))

/-- A single reply line, of one of the types. -/
def OneReply (types : List Bytes) (ls : List Bytes) : Prop := ∃ l, ls = [l] ∧ ∃ type ∈ types, IsReply type l

/-- A listing: entries and an end line, or an error alone. -/
def Listing (ls : List Bytes) : Prop :=
  (∃ entries last, ls = entries ++ [last] ∧ (∀ l ∈ entries, IsReply (ascii "entry") l) ∧ IsReply (ascii "end") last) ∨
    OneReply [ascii "error"] ls

/-- The replies that a handled text is to get. -/
def Answers (text : Bytes) (ls : List Bytes) : Prop :=
  match strtokR delims text with
  | none => ls = []
  | some (cmd, _) =>
    if strcaseeq cmd (ascii "PING") then OneReply [ascii "pong"] ls
    else if strcaseeq cmd (ascii "QUIT") then ls = []
    else if strcaseeq cmd (ascii "SCAN") then Listing ls
    else if strcaseeq cmd (ascii "STATS") then OneReply [ascii "stats", ascii "error"] ls
    else if strcaseeq cmd (ascii "TRUNCATE") then OneReply [ascii "result", ascii "error"] ls
    else if strcaseeq cmd (ascii "HUP") then OneReply [ascii "result", ascii "error"] ls
    else if strcaseeq cmd (ascii "KILL") then OneReply [ascii "result", ascii "error"] ls
    else OneReply [ascii "error"] ls

/-- A daemon during one line of a connection, with what C's types and its library promise. -/
structure Machine where
  daemon : Daemon
  /-- A listing is an array in memory. -/
  listing : ∀ minSize onlyPid uidFilter es, daemon.env.scan minSize onlyPid uidFilter = some es →
    es.length * sizeofEntry < 2 ^ 64
  /-- `count` is a `size_t`. -/
  count : ∀ minSize uidFilter st, daemon.env.stats minSize uidFilter = some st → st.count < 2 ^ 64
  /-- `freed` is a `long long`. -/
  freed : ∀ pid fd n, daemon.env.truncate pid fd = .ok n → IsInt64 n
  /-- The texts of `strerror` are short beside the two kilobytes of `hsed_send_linef`. -/
  strerror_short : daemon.env.strerror.length < 2000

/-- Requests and replies of a connection. -/
structure RequestsAnswered (env : Nat → Env) (recv : List Recv) (sock : Sock) : Prop where
  /-- What is executed: the terminated lines up to the first QUIT, in order, and nothing else. -/
  executed : (handleConnection env recv sock).map Served.raw = uptoQuit (terminated (stream recv))
  /-- What the peer gets: the replies of the first line, then those of the second, and so on. -/
  bytes : answer env recv sock = (((handleConnection env recv sock).flatMap Served.replies).map framed).flatten
  /-- Each line gets what the grammar says. -/
  answers : ∀ sv ∈ handleConnection env recv sock, Answers (handled sv.raw) sv.replies

/-! ## The lines of the handlers -/

theorem isReply_of_objectLine {text type : Bytes} {ms : List Json.Member} (h : ObjectLine text (typeMember type :: ms))
    (htype : Utf8.coerce type = type) : IsReply type text where
  newline := (notMem_of_printable h.printable).1
  object := by
    refine ⟨ms.map fun m => (m.key, m.val), ?_⟩
    have hread := h.unmarshal
    rw [List.map_cons, typeMember, strMember, htype] at hread
    exact hread

/-- The lines handed to `hsed_send_line` between two states of a connection. -/
def Replied (P : List Bytes → Prop) (c c' : Conn) : Prop := ∃ ls, c'.sock.lines = c.sock.lines ++ ls ∧ P ls

/-- A reply that fits in the buffer of `hsed_send_linef`. -/
theorem replied_objectLine {c : Conn} {text type : Bytes} {ms : List Json.Member} {types : List Bytes}
    (h : ObjectLine text (typeMember type :: ms)) (htype : Utf8.coerce type = type) (hmem : type ∈ types)
    (hlen : text.length < 2048) : Replied (OneReply types) c (c.reply text) := by
  refine ⟨[text], ?_, text, rfl, type, hmem, isReply_of_objectLine h htype⟩
  rw [reply_lines, snprintf_of_lt hlen]

theorem length_errorText (message : Bytes) : (errorText message).length = message.length + 29 := by
  delta errorText
  simp only [List.length_append, show (ascii "\x7b\"type\":\"error\",\"message\":\"").length = 27 from rfl,
    show (ascii "\"\x7d").length = 2 from rfl]
  omega

theorem replied_error {c : Conn} {raw text : Bytes} {types : List Bytes} (h : Json.Escaped raw text)
    (hmem : ascii "error" ∈ types) (hlen : raw.length < 2019) :
    Replied (OneReply types) c (c.reply (errorText raw)) := by
  refine replied_objectLine (objectLine_error h) (by decide) hmem ?_
  rw [length_errorText]
  omega

theorem replied_plain {c : Conn} {message : Bytes} {types : List Bytes} (h : Json.plainText message = true)
    (hmem : ascii "error" ∈ types) (hlen : message.length < 2019) :
    Replied (OneReply types) c (c.reply (errorText message)) :=
  replied_error (Json.Escaped.of_plain (Json.plain_of_plainText h)) hmem hlen

/-- The error replies of the actions: whatever the text is, the escape buffer bounds it. -/
theorem replied_replyErr {c : Conn} (err : Bytes) {types : List Bytes} (hmem : ascii "error" ∈ types) :
    Replied (OneReply types) c (c.replyErr err) := by
  have hpos : 0 < 512 := by decide
  have hescaped : Json.Escaped (hsedJsonEscape 512 err) (kept 512 0 (cstr err)) := by
    rw [hsedJsonEscape_eq hpos]
    exact escaped_flatMap _
  have hlen := length_hsedJsonEscape_lt hpos err
  refine replied_error hescaped hmem ?_
  omega

theorem length_freedText_lt {freed : Int} (h : IsInt64 freed) : (freedText freed).length < 2048 := by
  have hfreed := h.length_decInt_le
  delta freedText
  simp only [List.length_append, show (ascii "\x7b\"type\":\"result\",\"ok\":true,\"freed\":").length = 35 from rfl,
    show (ascii "\x7d").length = 1 from rfl]
  omega

/-! ## The handlers -/

section
variable (m : Machine) {c : Conn}

theorem handleStats_replied (minSize : Int) (uidFilter : Nat) :
    Replied (OneReply [ascii "stats", ascii "error"]) c (handleStats m.daemon.env c minSize uidFilter) := by
  have hmem : ascii "error" ∈ [ascii "stats", ascii "error"] := by simp
  unfold handleStats
  split
  · refine replied_error (escaped_failed (by decide) m.daemon.strerror) hmem ?_
    have hlen := m.strerror_short
    rw [List.length_append]
    have hwhat : (ascii "stats scan failed: ").length = 19 := rfl
    omega
  next st hst =>
    have hcount := m.count minSize uidFilter st hst
    rw [m.daemon.stats_eq] at hst
    obtain ⟨pids, -, rfl⟩ := hsedScanStats_spec hst
    exact replied_objectLine (objectLine_stats _) (by decide) (by simp)
      (length_statsText_lt hcount (toInt64_bounds _))

theorem handleTruncate_replied (pid fd : Int) :
    Replied (OneReply [ascii "result", ascii "error"]) c (handleTruncate m.daemon.env c pid fd) := by
  unfold handleTruncate
  split
  · exact replied_replyErr _ (by simp)
  next freed hfreed =>
    exact replied_objectLine (objectLine_freed freed) (by decide) (by simp)
      (length_freedText_lt (m.freed pid fd freed hfreed))

theorem handleSignal_replied {env : Env} {sig pid : Int} (h : env.kill pid sig ≠ .fatal) :
    Replied (OneReply [ascii "result", ascii "error"]) c (handleSignal env sig c pid).2 := by
  unfold handleSignal hsedSendSignal
  cases hkill : env.kill pid sig with
  | ok =>
      exact replied_objectLine (c := { c with kills := c.kills ++ [(pid, sig)] }) objectLine_ok (by decide) (by simp)
        (by decide)
  | failed text => exact replied_replyErr (c := { c with kills := c.kills ++ [(pid, sig)] }) _ (by simp)
  | fatal => exact absurd hkill h

theorem sendEntries_lines (es : List Entry) : ∀ {sock : Sock} (total : Int), sock.Healthy →
    ∃ sock' total', sendEntries es sock total = (true, sock', total') ∧
      sock'.lines = sock.lines ++ es.map (hsedFormatEntry · linebufSize) ∧ (IsInt64 total → IsInt64 total') := by
  induction es with
  | nil => intro sock total _; exact ⟨sock, total, rfl, (List.append_nil _).symm, id⟩
  | cons e es ih =>
      intro sock total h
      obtain ⟨sock₁, hsend, -, hlines, hok⟩ := hsedSendLine_ok h (hsedFormatEntry e linebufSize)
      obtain ⟨sock₂, total₂, heq, hlines₂, htotal⟩ := ih (toInt64 (total + e.size)) hok
      refine ⟨sock₂, total₂, ?_, ?_, fun _ => htotal (toInt64_bounds _)⟩
      · rw [sendEntries, hsend]
        exact heq
      · rw [hlines₂, hlines, List.map_cons, List.append_assoc, List.singleton_append]

theorem handleScan_replied (hc : c.sock.Healthy) (minSize : Int) {onlyPid : Int}
    (hp : -(2 ^ 31) ≤ onlyPid ∧ onlyPid < 2 ^ 31) (uidFilter : Nat) :
    Replied Listing c (handleScan m.daemon.env c minSize onlyPid uidFilter) := by
  unfold handleScan
  split
  · -- the scan failed: one error line
    have hone : Replied (OneReply [ascii "error"]) c
        (c.reply (errorText (ascii "scan failed: " ++ m.daemon.env.strerror))) := by
      refine replied_error (escaped_failed (by decide) m.daemon.strerror) (by simp) ?_
      have hlen := m.strerror_short
      rw [List.length_append]
      have hwhat : (ascii "scan failed: ").length = 13 := rfl
      omega
    obtain ⟨ls, hls, hr⟩ := hone
    exact ⟨ls, hls, .inr hr⟩
  next es hes =>
    have hlen : es.length < 2 ^ 63 := by
      have hmem := m.listing minSize onlyPid uidFilter es hes
      unfold sizeofEntry at hmem
      omega
    -- otherwise the entries, and the end line with their number
    rw [m.daemon.scan_eq] at hes
    obtain ⟨sock, total, heq, hlines, htotal⟩ := sendEntries_lines es 0 hc
    have hrange : IsInt64 total := htotal ⟨by decide, by decide⟩
    rw [heq]
    refine ⟨es.map (hsedFormatEntry · linebufSize) ++ [endText es.length total], ?_, .inl ⟨_, _, rfl, ?_, ?_⟩⟩
    · show (Conn.reply { c with sock := sock } (endText es.length total)).sock.lines = _
      rw [reply_lines, snprintf_of_lt (length_endText_lt hlen hrange), ← List.append_assoc, ← hlines]
    · intro l hl
      obtain ⟨e, he, rfl⟩ := List.mem_map.mp hl
      have ht := hsedScan_typed m.daemon.typed hp hes e he
      show IsReply (ascii "entry") (hsedFormatEntry e linebufSize)
      rw [hsedFormatEntry_eq ht (m.daemon.scan_comm_le hes e he)]
      exact isReply_of_objectLine (objectLine_entry ht) (by decide)
    · exact isReply_of_objectLine (objectLine_end es.length total) (by decide)

/-- What a signal line is to get. -/
theorem answers_signal {text cmd save : Bytes} (htok : strtokR delims text = some (cmd, save))
    (hsig : isSignalCmd cmd = true) (ls : List Bytes) :
    Answers text ls ↔ OneReply [ascii "result", ascii "error"] ls := by
  rw [Answers, htok]
  rcases Bool.or_eq_true_iff.mp hsig with h | h <;>
    · simp only [strcaseeq_eq h]
      exact Iff.rfl

theorem signalAsked_some {text cmd save arg rest : Bytes} (htok : strtokR delims text = some (cmd, save))
    (hsig : isSignalCmd cmd = true) (hsave : strtokR delims save = some (arg, rest)) :
    signalAsked text = some (toInt32 (strtol arg), signalOf cmd) := by
  rw [signalAsked, htok]
  simp only [hsig, if_true, hsave, Option.map_some]

/-- **One command**, if it does not end the daemon. -/
theorem dispatch_replied (hc : c.sock.Healthy) {text cmd save : Bytes} (htok : strtokR delims text = some (cmd, save))
    (hstream : strcaseeq cmd (ascii "STREAM") = false) (hends : endsDaemon m.daemon.env text = false) :
    Replied (Answers text) c (dispatch m.daemon.env c cmd save).2 := by
  cases hsig : isSignalCmd cmd with
  | true =>
      obtain ⟨hsome, husage⟩ := dispatch_signal hsig m.daemon.env c save
      have hreplied : Replied (OneReply [ascii "result", ascii "error"]) c (dispatch m.daemon.env c cmd save).2 := by
        cases hsave : strtokR delims save with
        | none =>
            obtain ⟨usage, hmem, hu⟩ := husage hsave
            rw [hu]
            have hplain : ∀ u ∈ signalUsages, Json.plainText u = true ∧ u.length < 2019 := by decide
            exact replied_plain (hplain usage hmem).1 (by simp) (hplain usage hmem).2
        | some p =>
            rw [endsDaemon, signalAsked_some htok hsig hsave, Option.any_some, decide_eq_false_iff_not] at hends
            rw [hsome p.1 p.2 hsave]
            exact handleSignal_replied hends
      obtain ⟨ls, hls, hone⟩ := hreplied
      exact ⟨ls, hls, (answers_signal htok hsig ls).mpr hone⟩
  | false =>
      simp only [isSignalCmd, Bool.or_eq_false_iff] at hsig
      -- the two have the same chain of command words
      unfold dispatch Answers
      simp only [htok, hstream, hsig.1, hsig.2]
      split
      · exact replied_objectLine objectLine_pong (by decide) (by simp) (by decide)
      split
      · exact ⟨[], (List.append_nil _).symm, rfl⟩
      split
      · refine handleScan_replied m hc _ ?_ _
        -- a number read from the line, or the default
        cases (nextArg (nextArg (some save)).2).1 with
        | none => exact ⟨by decide, by decide⟩
        | some a => exact toInt32_bounds (strtol a)
      split
      · exact handleStats_replied m _ _
      split
      · split
        · exact handleTruncate_replied m _ _
        · exact replied_plain (by decide) (by simp) (by decide)
      · exact replied_plain (by decide) (by simp) (by decide)

theorem handleLine_replied (hc : c.sock.Healthy) {raw : Bytes} (hstream : isCommand (ascii "STREAM") raw = false)
    (hends : endsDaemon m.daemon.env (handled raw) = false) :
    Replied (Answers (handled raw)) c (handleLine m.daemon.env c (handled raw)).2 := by
  rw [isCommand] at hstream
  unfold handleLine
  cases htok : strtokR delims (handled raw) with
  | none =>
      refine ⟨[], (List.append_nil _).symm, ?_⟩
      rw [Answers, htok]
  | some p =>
      rw [htok] at hstream
      exact dispatch_replied m hc htok hstream hends

end

/-- A line that ends the daemon gets no reply. -/
theorem handleLine_silent {env : Env} {c : Conn} {text : Bytes} (h : endsDaemon env text = true) :
    (handleLine env c text).2.sock = c.sock ∧ ¬ Answers text [] := by
  rw [endsDaemon] at h
  obtain ⟨k, hasked, hfatal⟩ := (Option.any_eq_true _ _).mp h
  have hfatal := of_decide_eq_true hfatal
  cases htok : strtokR delims text with
  | none =>
      rw [signalAsked, htok] at hasked
      cases hasked
  | some p =>
      obtain ⟨cmd, save⟩ := p
      rw [signalAsked, htok] at hasked
      simp only at hasked
      split at hasked
      next hsig =>
        obtain ⟨q, hsave, rfl⟩ := Option.map_eq_some_iff.mp hasked
        constructor
        · rw [handleLine, htok]
          simp only
          rw [(dispatch_signal hsig env c save).1 q.1 q.2 hsave, handleSignal, hsedSendSignal]
          simp only [hfatal]
        · rw [answers_signal htok hsig]
          rintro ⟨l, hl, -⟩
          cases hl
      next => cases hasked

/-! ## Whole connections -/

theorem answer_eq_finalSock (env : Nat → Env) (recv : List Recv) (sock : Sock) :
    answer env recv sock = (finalSock sock (handleConnection env recv sock)).wire.drop sock.wire.length := by
  rw [answer, finalSock]
  cases (handleConnection env recv sock).getLast? <;> rfl

/-- A line that does not end the daemon is answered. -/
theorem served_answers {machine : Nat → Machine} {recv : List Recv} {sock : Sock} (hsock : sock.Healthy)
    (hraws : (handleConnection (fun i => (machine i).daemon.env) recv sock).map Served.raw =
      uptoQuit (terminated (stream recv)))
    (hstream : ∀ raw ∈ terminated (stream recv), isCommand (ascii "STREAM") raw = false)
    (hspared : DaemonSpared (fun i => (machine i).daemon.env) (uptoQuit (terminated (stream recv)))) :
    ∀ sv ∈ handleConnection (fun i => (machine i).daemon.env) recv sock, Answers (handled sv.raw) sv.replies := by
  intro sv hsv
  obtain ⟨j, hj⟩ := List.mem_iff_getElem?.mp hsv
  obtain ⟨go, hline⟩ := connLoop_getElem hj
  have hraw : (uptoQuit (terminated (stream recv)))[j]? = some sv.raw := by
    rw [← hraws, List.getElem?_map, hj]
    rfl
  have hmem := mem_of_mem_uptoQuit (List.mem_of_getElem? hraw)
  obtain ⟨ls, hls, hans⟩ := handleLine_replied (machine j) (handleConnection_healthy hsock hsv) (hstream _ hmem)
    (hspared j sv.raw hraw)
  rw [Nat.add_zero] at hline
  rw [hline] at hls
  have hreplies : sv.replies = ls := by
    show sv.after.sock.lines.drop sv.before.sock.lines.length = ls
    rw [show sv.after.sock.lines = sv.before.sock.lines ++ ls from hls, List.drop_left]
  rw [hreplies]
  exact hans

/-- If every line is served and answered, none ended the daemon. -/
theorem spared_of_answered {env : Nat → Env} {recv : List Recv} {sock : Sock}
    (h : RequestsAnswered env recv sock) : DaemonSpared env (uptoQuit (terminated (stream recv))) := by
  intro j raw hraw
  rw [← h.executed, List.getElem?_map] at hraw
  obtain ⟨sv, hj, rfl⟩ := Option.map_eq_some_iff.mp hraw
  obtain ⟨go, hline⟩ := connLoop_getElem hj
  rw [Nat.add_zero] at hline
  cases hends : endsDaemon (env j) (handled sv.raw) with
  | false => rfl
  | true =>
      obtain ⟨hsock, hno⟩ := @handleLine_silent (env j) sv.before (handled sv.raw) hends
      rw [hline] at hsock
      have hreplies : sv.replies = [] := by
        show sv.after.sock.lines.drop sv.before.sock.lines.length = []
        rw [show sv.after.sock = sv.before.sock from hsock, List.drop_length]
      have hans := h.answers sv (List.mem_iff_getElem?.mpr ⟨j, hj⟩)
      rw [hreplies] at hans
      exact absurd hans hno

theorem pidEntries_idle (minSize : Int) (uidFilter : Nat) (pid : Int) :
    pidEntries (holders [] 0 0) minSize uidFilter pid = [] := by
  rw [pidEntries_eq]
  split
  · rfl
  next owner ds hopen =>
    obtain ⟨-, hds⟩ := openFds_fds hopen
    cases hds

/-- A machine on which no process runs. -/
def idleMachine : Machine where
  daemon := holdersDaemon [] 0 (by decide) 0 ⟨by decide, by decide⟩
  listing := by
    intro minSize onlyPid uidFilter es hes
    have hscan : hsedScan mergeQsort (holders [] 0 0) Alloc.ok minSize onlyPid uidFilter 1 = some es := hes
    have hnil : es = [] := by
      rcases (hsedScan_spec hscan).2 with ⟨-, hperm⟩ | ⟨-, pids, -, hperm⟩
      · rw [pidEntries_idle] at hperm
        exact hperm.eq_nil
      · rw [List.flatMap_eq_nil_iff.mpr fun pid _ => pidEntries_idle minSize uidFilter pid] at hperm
        exact hperm.eq_nil
    rw [hnil]
    decide
  count := by
    intro minSize uidFilter st hst
    have hstats : hsedScanStats (holders [] 0 0) Alloc.ok minSize uidFilter 1 = some st := hst
    obtain ⟨pids, -, rfl⟩ := hsedScanStats_spec hstats
    rw [List.flatMap_eq_nil_iff.mpr fun pid _ => pidEntries_idle minSize uidFilter pid]
    decide
  freed := by
    intro pid fd n h
    cases h
  strerror_short := by decide

/-- The idle machine, where pid 0 is, as for any process, its own process group. -/
def groupMachine : Machine :=
  { idleMachine with
    daemon := { idleMachine.daemon with
      env := { idleMachine.daemon.env with kill := fun pid _ => if pid = 0 then .fatal else .ok }
      scan_eq := rfl, stats_eq := rfl, strerror := rfl } }

end EndToEnd
end Hsed
