import Hsed.Client.Calls
import Hsed.EndToEnd.Grammar
import Hsed.EndToEnd.Actions
import Hsed.Reclaim.Reclaim

/-!
# `EndToEnd.Exchange` — what a call of the client returns

A call is one request on a connection of its own and one reply line. Between the two lie the daemon's parser,
a system call, a text formatted and perhaps escaped into a buffer, a `send` loop that may fail, a connection that
may be cut or time out, and a decoder. The result is the daemon's own (`Call.outcome`), or one of the two errors
for a line that did not arrive whole; it is never another result (`calls_exact`).
-/

namespace Hsed
namespace EndToEnd

open CLib Scan Wire Server Client Reclaim

/-! ## Texts -/

/-- Plain text in ASCII, as `strerror` returns it in the "C" locale. -/
def Legible (s : Bytes) : Prop := ∀ b ∈ s, Json.plain b ∧ b < 0x80

theorem legible_of_plainKey {s : Bytes} (h : plainKey s = true) : Legible s := plainKey_spec h

theorem Legible.append {s t : Bytes} (hs : Legible s) (ht : Legible t) : Legible (s ++ t) := by
  intro b hb
  rcases List.mem_append.mp hb with hb | hb
  · exact hs b hb
  · exact ht b hb

theorem Legible.snprintf {s : Bytes} (h : Legible s) (size : Nat) : Legible (snprintf size s) :=
  fun b hb => h b (List.mem_of_mem_take hb)

theorem legible_decInt (x : Int) : Legible (decInt x) := by
  have hdigit : ∀ b, isDigit b = true → Json.plain b ∧ b < 0x80 := by
    intro b hb
    rw [isDigit_iff] at hb
    have hlt : b < 0x80 := by
      rw [UInt8.lt_iff_toNat_lt]
      exact Nat.lt_of_le_of_lt hb.2 (by decide)
    have hge : 0x20 ≤ b := by
      rw [UInt8.le_iff_toNat_le]
      exact Nat.le_trans (by decide) hb.1
    refine ⟨⟨hge, ?_, ?_⟩, hlt⟩
    · rintro rfl; exact absurd hb.1 (by decide)
    · rintro rfl; exact absurd hb.2 (by decide)
  intro b hb
  unfold decInt at hb
  split at hb
  · rcases List.mem_cons.mp hb with rfl | hb
    · decide
    · exact hdigit b (isDigit_decNat _ b hb)
  · exact hdigit b (isDigit_decNat _ b hb)

theorem length_escUnit_plain {b : UInt8} (h : Json.plain b) : (escUnit b).length ≤ 2 := by
  rcases escUnit_length b with ⟨-, hlt, -⟩ | hle
  · exact absurd hlt (UInt8.not_lt.mpr h.1)
  · exact hle

theorem escLen_legible {s : Bytes} (h : Legible s) : escLen s ≤ 2 * s.length := by
  induction s with
  | nil => exact Nat.le_refl _
  | cons b s ih =>
      have htail := ih fun b' hb' => h b' (List.mem_cons_of_mem b hb')
      have hunit := length_escUnit_plain (h b List.mem_cons_self).1
      rw [escLen_cons, List.length_cons]
      omega

/-- `errbuf` has 256 bytes, and twice that many are enough for the escapes. -/
theorem echoed_legible {err : Bytes} (h : Legible err) (hlen : err.length < 256) : echoed 512 err = err := by
  have hnul : ∀ b ∈ err, b ≠ 0 := by
    rintro b hb rfl
    exact absurd (h 0 hb).1.1 (by decide)
  have hfits : fits 512 err = true := by
    rw [fits_iff]
    intro s b heq
    have hs := escLen_legible fun b' hb' => h b' (heq ▸ List.mem_append_left _ hb')
    have hb := length_escUnit_plain (h b (heq ▸ List.mem_append_right _ (List.mem_singleton.mpr rfl))).1
    rw [heq, List.length_append, List.length_singleton] at hlen
    omega
  rw [echoed, cstr_eq_self hnul, kept_of_fits hfits]
  exact Json.coerce_of_ascii fun b hb => (h b hb).2

/-- The text `hsed_send_signal` leaves in `errbuf`. -/
def signalError (pid sig : Int) (strerror : Bytes) : Bytes :=
  snprintf 256 (ascii "kill(" ++ decInt pid ++ ascii ", " ++ decInt sig ++ ascii ") failed: " ++ strerror)

/-- The texts `hsed_truncate_fd` may leave there. -/
def truncateErrors (pid fd : Int) (strerror : Bytes) : List Bytes :=
  [statError pid fd strerror, openError pid fd strerror, ftruncateError pid fd strerror]

theorem length_snprintf_lt {size : Nat} (h : 0 < size) (text : Bytes) : (snprintf size text).length < size := by
  rw [snprintf, List.length_take]
  omega

theorem signalError_legible (pid sig : Int) {strerror : Bytes} (h : Legible strerror) :
    Legible (signalError pid sig strerror) := by
  have hword : ∀ {s : Bytes}, plainKey s = true → Legible s := fun hs => legible_of_plainKey hs
  apply Legible.snprintf
  exact ((((hword (by decide)).append (legible_decInt pid)).append (hword (by decide))).append
    (legible_decInt sig)).append (hword (by decide)) |>.append h

theorem fdPath_legible (pid fd : Int) : Legible (fdPath pid fd) := by
  apply Legible.snprintf
  exact (((legible_of_plainKey (by decide)).append (legible_decInt pid)).append
    (legible_of_plainKey (by decide))).append (legible_decInt fd)

theorem truncateErrors_legible {pid fd : Int} {strerror err : Bytes} (h : Legible strerror)
    (herr : err ∈ truncateErrors pid fd strerror) : Legible err ∧ err.length < 256 := by
  have hpath := fdPath_legible pid fd
  simp only [truncateErrors, List.mem_cons, List.not_mem_nil, or_false] at herr
  rcases herr with rfl | rfl | rfl
  · refine ⟨Legible.snprintf ?_ _, length_snprintf_lt (by decide) _⟩
    exact ((legible_of_plainKey (by decide)).append hpath).append (legible_of_plainKey (by decide)) |>.append h
  · refine ⟨Legible.snprintf ?_ _, length_snprintf_lt (by decide) _⟩
    exact (((legible_of_plainKey (by decide)).append hpath).append (legible_of_plainKey (by decide))).append h
      |>.append (legible_of_plainKey (by decide))
  · refine ⟨Legible.snprintf ?_ _, length_snprintf_lt (by decide) _⟩
    exact ((legible_of_plainKey (by decide)).append hpath).append (legible_of_plainKey (by decide)) |>.append h

/-! ## The daemon's side of a call -/

/-- A reply that fits its buffer, where no `send` fails. -/
theorem reply_wire {c : Conn} (h : c.sock.Healthy) {text : Bytes} (hlen : text.length < 2048) :
    (c.reply text).sock.wire = c.sock.wire ++ framed text := by
  obtain ⟨sock, hsend, hwire, -, -⟩ := hsedSendLine_ok h text
  simp only [Conn.reply, hsedSendLinef, snprintf_of_lt hlen, hsend]
  rw [hwire, framed, List.append_assoc]

/-- What a failed scan is answered with. -/
theorem answer_failed (m : Machine) {sock : Sock} (hsock : sock.Healthy) {what : Bytes} (hwhat : what.length ≤ 19) :
    (Conn.reply ⟨[], sock, []⟩ (errorText (what ++ m.daemon.env.strerror))).sock.wire.drop sock.wire.length =
      framed (errorText (what ++ m.daemon.env.strerror)) := by
  have hshort := m.strerror_short
  rw [reply_wire hsock, List.drop_left]
  rw [length_errorText, List.length_append]
  omega

/-- The numbers a call may carry: those of an entry, or of the client's filters. -/
def InRange : Call → Prop
  | .ping => True
  | .stats minSize uidFilter => IsInt64 minSize ∧ IsInt64 uidFilter
  | .truncate pid fd => (-(2 ^ 31) ≤ pid ∧ pid < 2 ^ 31) ∧ -(2 ^ 31) ≤ fd ∧ fd < 2 ^ 31
  | .hup pid => -(2 ^ 31) ≤ pid ∧ pid < 2 ^ 31
  | .kill pid => -(2 ^ 31) ≤ pid ∧ pid < 2 ^ 31

/-- The signals a call asks for. -/
def signals : Call → List (Int × Int)
  | .hup pid => [(pid, sighup)]
  | .kill pid => [(pid, sigkill)]
  | _ => []

/-- The text of the reply to a signal; there is none where the daemon signals itself. -/
def signalReply (env : Env) (pid sig : Int) : Option Bytes :=
  match env.kill pid sig with
  | .ok => some okText
  | .failed strerror => some (errorText (hsedJsonEscape 512 (signalError pid sig strerror)))
  | .fatal => none

/-- The text of the daemon's reply. -/
def replyText (env : Env) : Call → Option Bytes
  | .ping => some pongText
  | .stats minSize uidFilter =>
    match env.stats minSize (toUInt32 uidFilter) with
    | none => some (errorText (ascii "stats scan failed: " ++ env.strerror))
    | some st => some (statsText st)
  | .truncate pid fd =>
    match env.truncate pid fd with
    | .error err => some (errorText (hsedJsonEscape 512 err))
    | .ok freed => some (freedText freed)
  | .hup pid => signalReply env pid sighup
  | .kill pid => signalReply env pid sigkill

/-- A daemon that signals itself is gone, and the connection with it. -/
def signalOutcome (env : Env) (pid sig : Int) : Except ClientError Returned :=
  match env.kill pid sig with
  | .ok => .ok .done
  | .failed strerror => .error (.daemon (signalError pid sig strerror))
  | .fatal => .error .closed

/-- What happened in the daemon, in the client's terms. -/
def outcome (env : Env) : Call → Except ClientError Returned
  | .ping => .ok .done
  | .stats minSize uidFilter =>
    match env.stats minSize (toUInt32 uidFilter) with
    | none => .error (.daemon (ascii "stats scan failed: " ++ env.strerror))
    | some st => .ok (.counted st.count st.totalBytes)
  | .truncate pid fd =>
    match env.truncate pid fd with
    | .error err => .error (.daemon err)
    | .ok freed => .ok (.freed freed)
  | .hup pid => signalOutcome env pid sighup
  | .kill pid => signalOutcome env pid sigkill

/-- What a request does to a connection. -/
def afterCall (env : Env) (c : Conn) (call : Call) : Conn :=
  { (replyText env call).elim c c.reply with kills := c.kills ++ signals call }

theorem handleSignal_eq (env : Env) (sig : Int) (c : Conn) (pid : Int) :
    handleSignal env sig c pid =
      ((signalReply env pid sig).isSome,
        { (signalReply env pid sig).elim c c.reply with kills := c.kills ++ [(pid, sig)] }) := by
  rw [handleSignal, hsedSendSignal, signalReply]
  cases env.kill pid sig with
  | ok => rfl
  | failed strerror => rfl
  | fatal => rfl

/-- **The daemon on a call's request.** -/
theorem handleLine_call (env : Env) (c : Conn) {call : Call} (h : InRange call) :
    handleLine env c call.line = ((replyText env call).isSome, afterCall env c call) := by
  cases call with
  | ping =>
      have hword := @handleLine_word env c (ascii "PING") [] (by decide) (by decide) follows_nil
      rw [List.append_nil] at hword
      rw [Call.line, hword]
      simp only [afterCall, signals, List.append_nil]
      rfl
  | stats minSize uidFilter =>
      rw [Call.line, handleLine_statsRequest env c h.1 h.2, handleStats]
      simp only [afterCall, signals, replyText, List.append_nil]
      cases env.stats minSize (toUInt32 uidFilter) <;> rfl
  | truncate pid fd =>
      rw [Call.line, handleLine_request, (argument_survives h.1).1, (argument_survives h.2).2, handler, handleTruncate]
      simp only [afterCall, signals, replyText, List.append_nil]
      cases env.truncate pid fd <;> rfl
  | hup pid =>
      rw [Call.line, handleLine_request, (argument_survives h).1, handler, handleHup, handleSignal_eq]
      rfl
  | kill pid =>
      rw [Call.line, handleLine_request, (argument_survives h).1, handler, handleKill, handleSignal_eq]
      rfl

theorem printable_line (call : Call) : Json.Printable call.line := by
  cases call with
  | ping => exact Json.printable_of_plainText (by decide)
  | stats minSize uidFilter => exact printable_statsRequest _ _
  | truncate pid fd => exact printable_request pid fd .truncate
  | hup pid => exact printable_request pid 0 .hup
  | kill pid => exact printable_request pid 0 .kill

theorem length_line_lt {call : Call} (h : InRange call) : call.line.length < lineSize := by
  have hwiden : ∀ {x : Int}, -(2 ^ 31) ≤ x ∧ x < 2 ^ 31 → -(2 ^ 63) ≤ x ∧ x < 2 ^ 63 := by
    intro x hx
    omega
  have hzero : -(2 ^ 63) ≤ (0 : Int) ∧ (0 : Int) < 2 ^ 63 := ⟨by decide, by decide⟩
  cases call with
  | ping => decide
  | stats minSize uidFilter => exact length_statsRequest_lt h.1 h.2
  | truncate pid fd => exact length_request_lt (hwiden h.1) (hwiden h.2) .truncate
  | hup pid => exact length_request_lt (hwiden h) hzero .hup
  | kill pid => exact length_request_lt (hwiden h) hzero .kill

/-! ## The client's side -/

/-- A text that the method of the call makes `r` of. -/
structure ReadsAs (call : Call) (text : Bytes) (r : Except ClientError Returned) : Prop where
  line : ∃ ms, ObjectLine text ms
  envelope : ∃ e, unmarshalInto Envelope.fields Envelope.zero text = some e ∧ call.judge e = r
  /-- It fits the buffer of `hsed_send_linef`. -/
  short : text.length < 2048

section
variable {call : Call} {text : Bytes} {r : Except ClientError Returned}

theorem ReadsAs.whole (h : ReadsAs call text r) : call.read (framed text) = r := by
  obtain ⟨ms, hline⟩ := h.line
  obtain ⟨e, henv, hjudge⟩ := h.envelope
  rw [Call.read_eq, framed, readEnvelope_line hline.printable, henv]
  exact hjudge

/-- As much of the line as arrives is the line, or no line. -/
theorem ReadsAs.cut (h : ReadsAs call text r) {s : Bytes} (hs : s <+: framed text) :
    call.read s = .error .closed ∨ call.read s = .error .malformed ∨ call.read s = r := by
  obtain ⟨ms, hline⟩ := h.line
  obtain ⟨e, henv, hjudge⟩ := h.envelope
  rw [Call.read_eq]
  cases hread : readEnvelope s with
  | mk res rest =>
      cases res with
      | error err =>
          have herr : (readEnvelope s).1 = .error err := by rw [hread]
          rcases readEnvelope_error herr with rfl | rfl
          · exact .inl rfl
          · exact .inr (.inl rfl)
      | ok p =>
          obtain ⟨-, henv', -⟩ := readEnvelope_cut hline List.prefix_rfl hs hread
          rw [henv, Option.some_inj] at henv'
          rw [henv'] at hjudge
          exact .inr (.inr hjudge)

end

theorem errorEnvelope {raw text : Bytes} (h : Json.Escaped raw text) :
    unmarshalInto Envelope.fields Envelope.zero (errorText raw) =
      some { Envelope.zero with type := ascii "error", message := Utf8.coerce text } := by
  rw [(objectLine_error h).unmarshalInto]
  refine foldlM_storeMember (storeMember_str rfl) ?_
  refine foldlM_storeMember (storeMember_str rfl) ?_
  rfl

/-- An error reply, for every method but `Ping`, which none is sent to. -/
theorem readsAs_error {call : Call} (hcall : call ≠ .ping) {raw text : Bytes} (h : Json.Escaped raw text)
    (hlen : raw.length < 2019) : ReadsAs call (errorText raw) (.error (.daemon (Utf8.coerce text))) where
  line := ⟨_, objectLine_error h⟩
  envelope := by
    refine ⟨_, errorEnvelope h, ?_⟩
    cases call with
    | ping => exact absurd rfl hcall
    | _ => rfl
  short := by
    rw [length_errorText]
    omega

/-- The error replies of the actions, whose texts are escaped. -/
theorem readsAs_escaped {call : Call} (hcall : call ≠ .ping) {err : Bytes} (h : Legible err)
    (hlen : err.length < 256) : ReadsAs call (errorText (hsedJsonEscape 512 err)) (.error (.daemon err)) := by
  have hpos : 0 < 512 := by decide
  have hescaped : Json.Escaped (hsedJsonEscape 512 err) (kept 512 0 (cstr err)) := by
    rw [hsedJsonEscape_eq hpos]
    exact escaped_flatMap _
  have hshort := length_hsedJsonEscape_lt hpos err
  have hreads := readsAs_error hcall hescaped (by omega)
  have hmsg : Utf8.coerce (kept 512 0 (cstr err)) = err := echoed_legible h hlen
  rw [hmsg] at hreads
  exact hreads

theorem readsAs_ok {call : Call}
    (hjudge : call.judge { Envelope.zero with type := ascii "result", ok := true } = .ok .done) :
    ReadsAs call okText (.ok .done) where
  line := ⟨_, objectLine_ok⟩
  envelope := by
    refine ⟨_, ?_, hjudge⟩
    rw [objectLine_ok.unmarshalInto]
    refine foldlM_storeMember (storeMember_str rfl) ?_
    refine foldlM_storeMember (storeMember_bool rfl) ?_
    rfl
  short := by decide

/-! ## Whole calls -/

/-- What the library's texts look like, and how many descriptors there can be. -/
structure Texts (env : Env) : Prop where
  truncate : ∀ pid fd err, env.truncate pid fd = .error err →
    ∃ strerror, Legible strerror ∧ err ∈ truncateErrors pid fd strerror
  kill : ∀ pid sig strerror, env.kill pid sig = .failed strerror → Legible strerror
  strerror : Legible env.strerror
  count : ∀ minSize uidFilter st, env.stats minSize uidFilter = some st → st.count < 2 ^ 63

section
variable (m : Machine) (ht : Texts m.daemon.env)

include ht in
theorem readsAs_signal {call : Call} (hcall : call ≠ .ping)
    (hjudge : call.judge { Envelope.zero with type := ascii "result", ok := true } = .ok .done) {pid sig : Int}
    {text : Bytes} (h : signalReply m.daemon.env pid sig = some text) :
    ReadsAs call text (signalOutcome m.daemon.env pid sig) := by
  rw [signalReply] at h
  rw [signalOutcome]
  cases hkill : m.daemon.env.kill pid sig with
  | ok =>
      rw [hkill] at h
      obtain rfl := Option.some.inj h
      exact readsAs_ok hjudge
  | failed strerror =>
      rw [hkill] at h
      obtain rfl := Option.some.inj h
      have hlegible := signalError_legible pid sig (ht.kill pid sig strerror hkill)
      exact readsAs_escaped hcall hlegible (length_snprintf_lt (by decide) _)
  | fatal =>
      rw [hkill] at h
      cases h

include ht in
/-- **The reply says what happened.** -/
theorem readsAs_reply {call : Call} {text : Bytes} (h : replyText m.daemon.env call = some text) :
    ReadsAs call text (outcome m.daemon.env call) := by
  cases call with
  | ping =>
      obtain rfl := Option.some.inj h
      refine ⟨⟨_, objectLine_pong⟩, ⟨{ Envelope.zero with type := ascii "pong" }, ?_, rfl⟩, by decide⟩
      rw [objectLine_pong.unmarshalInto]
      exact foldlM_storeMember (storeMember_str rfl) rfl
  | stats minSize uidFilter =>
      rw [replyText] at h
      rw [outcome]
      cases hst : m.daemon.env.stats minSize (toUInt32 uidFilter) with
      | none =>
          rw [hst] at h
          obtain rfl := Option.some.inj h
          have hlen := m.strerror_short
          have hraw : (ascii "stats scan failed: " ++ m.daemon.env.strerror).length < 2019 := by
            rw [List.length_append, show (ascii "stats scan failed: ").length = 19 from rfl]
            omega
          have hreads := @readsAs_error (.stats minSize uidFilter) (by simp) _ _
            (escaped_failed (by decide) m.daemon.strerror) hraw
          -- ASCII comes through the decoder as it is
          rw [Json.coerce_of_ascii fun b hb => ((legible_of_plainKey (by decide)).append ht.strerror b hb).2] at hreads
          exact hreads
      | some st =>
          rw [hst] at h
          obtain rfl := Option.some.inj h
          have hcount := ht.count _ _ _ hst
          -- the total is a sum kept in a `long long`
          have htotal : IsInt64 st.totalBytes := by
            rw [m.daemon.stats_eq] at hst
            obtain ⟨pids, -, rfl⟩ := hsedScanStats_spec hst
            exact toInt64_bounds _
          exact ⟨⟨_, objectLine_stats st⟩, ⟨_, statsEnvelope hcount htotal, rfl⟩,
            length_statsText_lt (by omega) htotal⟩
  | truncate pid fd =>
      rw [replyText] at h
      rw [outcome]
      cases htr : m.daemon.env.truncate pid fd with
      | error err =>
          rw [htr] at h
          obtain rfl := Option.some.inj h
          -- one of the three messages, none of which needs an escape or is cut
          obtain ⟨strerror, hstr, herr⟩ := ht.truncate pid fd err htr
          obtain ⟨hlegible, hlen⟩ := truncateErrors_legible hstr herr
          exact readsAs_escaped (by simp) hlegible hlen
      | ok freed =>
          rw [htr] at h
          obtain rfl := Option.some.inj h
          have hfreed := m.freed pid fd freed htr
          refine ⟨⟨_, objectLine_freed freed⟩,
            ⟨{ Envelope.zero with type := ascii "result", ok := true, freed := freed }, ?_, rfl⟩,
            length_freedText_lt hfreed⟩
          show unmarshalInto Envelope.fields Envelope.zero (freedText freed) = _
          rw [(objectLine_freed freed).unmarshalInto]
          -- its three members in turn
          refine foldlM_storeMember (storeMember_str rfl) ?_
          refine foldlM_storeMember (storeMember_bool rfl) ?_
          refine foldlM_storeMember (storeMember_int rfl hfreed.1 hfreed.2) ?_
          rfl
  | hup pid => exact readsAs_signal m ht (by simp) rfl h
  | kill pid => exact readsAs_signal m ht (by simp) rfl h

end

/-- Where there is no reply, the daemon has signalled itself. -/
theorem outcome_of_no_reply {env : Env} {call : Call} (h : replyText env call = none) :
    outcome env call = .error .closed := by
  have hsignal : ∀ pid sig, signalReply env pid sig = none → signalOutcome env pid sig = .error .closed := by
    intro pid sig h
    rw [signalReply] at h
    rw [signalOutcome]
    cases hkill : env.kill pid sig with
    | ok => rw [hkill] at h; cases h
    | failed strerror => rw [hkill] at h; cases h
    | fatal => rfl
  cases call with
  | ping => cases h
  | stats minSize uidFilter =>
      rw [replyText] at h
      split at h <;> cases h
  | truncate pid fd =>
      rw [replyText] at h
      split at h <;> cases h
  | hup pid => exact hsignal pid sighup h
  | kill pid => exact hsignal pid sigkill h

theorem read_nothing (call : Call) : call.read [] = .error .closed := by
  rw [Call.read_eq]
  rfl

/-- The daemon serves a call, and then waits for a line that does not come. -/
theorem handleConnection_call {env : Nat → Env} {call : Call} (hr : InRange call) {recv : List Recv}
    (hd : Delivers recv call.line) (sock : Sock) :
    handleConnection env (recv ++ [.byte 0x0a]) sock =
      [⟨call.line, ⟨[], sock, []⟩, afterCall (env 0) ⟨[], sock, []⟩ call⟩] := by
  have hbytes := notMem_of_printable (printable_line call)
  rw [handleConnection, connLoop_delivers hd hbytes.1 hbytes.2 (length_line_lt hr), handleLine_call _ _ hr]
  have hrecv : (afterCall (env 0) ⟨[], sock, []⟩ call).recv = [] := by
    rw [afterCall]
    cases replyText (env 0) call <;> rfl
  simp only [connLoop_nil env _ _ hrecv, ite_self]

theorem answer_call {env : Nat → Env} {call : Call} (hr : InRange call) {recv : List Recv}
    (hd : Delivers recv call.line) (sock : Sock) :
    answer env (recv ++ [.byte 0x0a]) sock =
      ((replyText (env 0) call).elim ⟨[], sock, []⟩ (Conn.reply ⟨[], sock, []⟩)).sock.wire.drop sock.wire.length := by
  rw [answer, handleConnection_call hr hd sock]
  rfl

/-- Whatever part of the reply arrives. -/
theorem read_answer (m : Machine) (ht : Texts m.daemon.env) {call : Call} (hr : InRange call) {recv : List Recv}
    (hd : Delivers recv call.line) {sock : Sock} {s : Bytes}
    (hs : s <+: answer (fun _ => m.daemon.env) (recv ++ [.byte 0x0a]) sock) :
    call.read s = .error .closed ∨ call.read s = .error .malformed ∨ call.read s = outcome m.daemon.env call := by
  rw [answer_call hr hd] at hs
  cases hreply : replyText m.daemon.env call with
  | none =>
      rw [hreply, Option.elim_none, List.drop_length, List.prefix_nil] at hs
      rw [hs]
      exact .inl (read_nothing call)
  | some text =>
      have hreads := readsAs_reply m ht hreply
      obtain ⟨sent, hwire, hsent⟩ := reply_sent ⟨[], sock, []⟩ text
      rw [hreply, Option.elim_some, hwire, List.drop_left] at hs
      rw [snprintf_of_lt hreads.short] at hsent
      exact hreads.cut (hs.trans hsent)

/-- And where nothing fails, all of it arrives. -/
theorem read_whole (m : Machine) (ht : Texts m.daemon.env) {call : Call} (hr : InRange call) {recv : List Recv}
    (hd : Delivers recv call.line) {sock : Sock} (hok : sock.Healthy) :
    call.read (answer (fun _ => m.daemon.env) (recv ++ [.byte 0x0a]) sock) = outcome m.daemon.env call := by
  rw [answer_call hr hd]
  cases hreply : replyText m.daemon.env call with
  | none =>
      rw [Option.elim_none, List.drop_length, outcome_of_no_reply hreply]
      exact read_nothing call
  | some text =>
      have hreads := readsAs_reply m ht hreply
      rw [Option.elim_some, reply_wire hok hreads.short, List.drop_left]
      exact hreads.whole

/-- The idle machine with one process, 7, which the daemon may not touch. -/
def deniedEnv : Env :=
  { idleMachine.daemon.env with
    truncate := fun pid fd => .error (openError pid fd (ascii "Permission denied"))
    kill := fun _ _ => .failed (ascii "Operation not permitted") }

def deniedMachine : Machine where
  daemon := { idleMachine.daemon with env := deniedEnv, scan_eq := rfl, stats_eq := rfl, strerror := rfl }
  listing := idleMachine.listing
  count := idleMachine.count
  freed := by
    intro pid fd n h
    cases h
  strerror_short := by decide

theorem deniedMachine_texts : Texts deniedMachine.daemon.env where
  truncate := by
    intro pid fd err h
    cases h
    exact ⟨ascii "Permission denied", legible_of_plainKey (by decide), by simp [truncateErrors]⟩
  kill := by
    intro pid sig strerror h
    cases h
    exact legible_of_plainKey (by decide)
  strerror := List.forall_mem_nil _
  count := by
    intro minSize uidFilter st hst
    have hstats : hsedScanStats (holders [] 0 0) Alloc.ok minSize uidFilter 1 = some st := hst
    obtain ⟨pids, -, rfl⟩ := hsedScanStats_spec hstats
    rw [List.flatMap_eq_nil_iff.mpr fun pid _ => pidEntries_idle minSize uidFilter pid]
    decide

end EndToEnd
end Hsed
