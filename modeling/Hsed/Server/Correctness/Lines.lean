import Hsed.Server.Correctness.Framing

/-!
# `Server.Correctness.Lines` — which lines a connection serves, and in which order it answers

`stream` is what the peer sent before the connection ended, `terminated` its lines. A connection without a
STREAM serves just the terminated lines up to the first QUIT (`handleConnection_raws`), and on a healthy socket
the peer gets the replies of one line after those of the line before (`handleConnection_wire`).
-/

namespace Hsed
namespace Server

open CLib Scan Wire

/-! ## The peer's lines -/

/-- The bytes received before the connection ends. -/
def stream : List Recv → Bytes
  | .byte b :: rs => b :: stream rs
  | .eintr :: rs => stream rs
  | _ => []

/-- The lines that a newline ends; what follows the last newline is not one. -/
def terminated (s : Bytes) : List Bytes := (s.splitOn 0x0a).dropLast

/-- The first word of the handled text is the given command. -/
def isCommand (word : Bytes) (raw : Bytes) : Bool :=
  match strtokR delims (handled raw) with
  | none => false
  | some (cmd, _) => strcaseeq cmd word

/-- The lines up to the first QUIT, with it. -/
def uptoQuit : List Bytes → List Bytes
  | [] => []
  | l :: ls => if isCommand (ascii "QUIT") l then [l] else l :: uptoQuit ls

theorem mem_of_mem_uptoQuit {l : Bytes} {ls : List Bytes} (h : l ∈ uptoQuit ls) : l ∈ ls := by
  induction ls with
  | nil => cases h
  | cons m ls ih =>
      rw [uptoQuit] at h
      split at h
      · rw [List.mem_singleton.mp h]
        exact List.mem_cons_self
      · rcases List.mem_cons.mp h with rfl | h
        · exact List.mem_cons_self
        · exact List.mem_cons_of_mem _ (ih h)

theorem terminated_none {s : Bytes} (h : 0x0a ∉ s) : terminated s = [] := by
  rw [terminated, List.splitOn_eq_singleton h]
  rfl

theorem terminated_line {line : Bytes} (h : 0x0a ∉ line) (s : Bytes) :
    terminated (line ++ 0x0a :: s) = line :: terminated s := by
  rw [terminated, List.splitOn_append_cons_self_of_not_mem h, List.dropLast_cons_of_ne_nil (List.splitOn_ne_nil _ _)]
  rfl

/-- `recv_line` fails on what has no newline, and otherwise takes the first line. -/
theorem recvLine_stream (bufsize : Nat) (rs : List Recv) : ∀ buf : Bytes,
    ((recvLine bufsize rs buf).1 = none ∧ 0x0a ∉ stream rs) ∨
      ∃ line rest, recvLine bufsize rs buf = (some line, rest) ∧ rest.length < rs.length ∧ 0x0a ∉ rawLine rs ∧
        stream rs = rawLine rs ++ 0x0a :: stream rest := by
  induction rs with
  | nil => intro buf; exact .inl ⟨rfl, List.not_mem_nil⟩
  | cons r rs ih =>
      intro buf
      cases r with
      | eof => exact .inl ⟨rfl, List.not_mem_nil⟩
      | err => exact .inl ⟨rfl, List.not_mem_nil⟩
      | eintr =>
          rcases ih buf with hnone | ⟨line, rest, hrecv, hlt, hraw, hstream⟩
          · exact .inl hnone
          · exact .inr ⟨line, rest, hrecv, Nat.lt_succ_of_lt hlt, hraw, hstream⟩
      | byte b =>
          rw [recvLine, rawLine, stream]
          by_cases hb : b = 0x0a
          · rw [if_pos hb, if_pos hb, hb]
            exact .inr ⟨buf, rs, rfl, Nat.lt_succ_self _, List.not_mem_nil, rfl⟩
          · rw [if_neg hb, if_neg hb]
            have hcons : ∀ {s : Bytes}, 0x0a ∉ s → 0x0a ∉ b :: s := fun hs h =>
              (List.mem_cons.mp h).elim (fun he => hb he.symm) hs
            rcases ih (if buf.length + 1 < bufsize then buf ++ [b] else buf) with
              ⟨hnone, hno⟩ | ⟨line, rest, hrecv, hlt, hraw, hstream⟩
            · exact .inl ⟨hnone, hcons hno⟩
            · exact .inr ⟨line, rest, hrecv, Nat.lt_succ_of_lt hlt, hcons hraw, by rw [hstream, List.cons_append]⟩

/-! ## One line -/

theorem handleScan_recv (env : Env) (c : Conn) (minSize onlyPid : Int) (uidFilter : Nat) :
    (handleScan env c minSize onlyPid uidFilter).recv = c.recv := by
  unfold handleScan
  split
  · rfl
  · split <;> rfl

theorem handleStats_recv (env : Env) (c : Conn) (minSize : Int) (uidFilter : Nat) :
    (handleStats env c minSize uidFilter).recv = c.recv := by
  unfold handleStats
  split <;> rfl

theorem handleTruncate_recv (env : Env) (c : Conn) (pid fd : Int) : (handleTruncate env c pid fd).recv = c.recv := by
  unfold handleTruncate
  split <;> rfl

theorem handleSignal_recv (env : Env) (sig : Int) (c : Conn) (pid : Int) :
    (handleSignal env sig c pid).2.recv = c.recv := by
  unfold handleSignal hsedSendSignal
  cases env.kill pid sig <;> rfl

/-- Only STREAM receives while it is handled. -/
theorem dispatch_recv {cmd : Bytes} (h : strcaseeq cmd (ascii "STREAM") = false) (env : Env) (c : Conn)
    (save : Bytes) : (dispatch env c cmd save).2.recv = c.recv := by
  unfold dispatch
  simp only [h]
  split
  · rfl
  split
  · rfl
  split
  · exact handleScan_recv ..
  split
  · exact handleStats_recv ..
  split
  · split
    · exact handleTruncate_recv ..
    · rfl
  split
  · split
    · exact handleSignal_recv ..
    · rfl
  split
  · split
    · exact handleSignal_recv ..
    · rfl
  · rfl

theorem handleSignal_go (env : Env) (sig : Int) (c : Conn) (pid : Int) :
    (handleSignal env sig c pid).1 = !decide (env.kill pid sig = .fatal) := by
  unfold handleSignal hsedSendSignal
  cases env.kill pid sig <;> rfl

/-- Beside the signals, only QUIT ends the connection. -/
theorem dispatch_go {cmd : Bytes} (h : isSignalCmd cmd = false) (env : Env) (c : Conn) (save : Bytes) :
    (dispatch env c cmd save).1 = !strcaseeq cmd (ascii "QUIT") := by
  simp only [isSignalCmd, Bool.or_eq_false_iff] at h
  cases hquit : strcaseeq cmd (ascii "QUIT") with
  | true =>
      have hping : strcaseeq cmd (ascii "PING") = false := by
        rw [strcaseeq_eq hquit]
        rfl
      simp only [dispatch, hquit, hping]
      rfl
  | false =>
      simp only [dispatch, hquit, h.1, h.2]
      split
      · rfl
      rw [if_neg (by decide)]
      split
      · rfl
      split
      · rfl
      split
      · split <;> rfl
      rw [if_neg (by decide), if_neg (by decide)]
      split
      · split <;> rfl
      · rfl

theorem quit_of_isSignalCmd {cmd : Bytes} (h : isSignalCmd cmd = true) : strcaseeq cmd (ascii "QUIT") = false := by
  rcases Bool.or_eq_true_iff.mp h with h | h <;>
    · rw [strcaseeq_eq h]
      rfl

theorem handleLine_recv {raw : Bytes} (h : isCommand (ascii "STREAM") raw = false) (env : Env) (c : Conn) :
    (handleLine env c (handled raw)).2.recv = c.recv := by
  rw [isCommand] at h
  rw [handleLine]
  split
  · rfl
  next heq =>
    rw [heq] at h
    exact dispatch_recv h env c _

/-- A line ends the connection if it is a QUIT, or ends the daemon. -/
theorem handleLine_go (env : Env) (c : Conn) (raw : Bytes) :
    (handleLine env c (handled raw)).1 = (!isCommand (ascii "QUIT") raw && !endsDaemon env (handled raw)) := by
  rw [isCommand, endsDaemon, signalAsked, handleLine]
  cases strtokR delims (handled raw) with
  | none => rfl
  | some p =>
      obtain ⟨cmd, save⟩ := p
      simp only
      cases hsig : isSignalCmd cmd with
      | false =>
          rw [dispatch_go hsig, if_neg (by decide)]
          exact (Bool.and_true _).symm
      | true =>
          obtain ⟨hsome, husage⟩ := dispatch_signal hsig env c save
          rw [quit_of_isSignalCmd hsig, if_pos rfl]
          cases hsave : strtokR delims save with
          | none =>
              obtain ⟨usage, -, hu⟩ := husage hsave
              rw [hu]
              rfl
          | some q =>
              rw [hsome q.1 q.2 hsave]
              exact handleSignal_go env _ c _

/-! ## The served lines -/

/-- No line ends the daemon that handles it. -/
def DaemonSpared (env : Nat → Env) (lines : List Bytes) : Prop :=
  ∀ (j : Nat) (raw : Bytes), lines[j]? = some raw → endsDaemon (env j) (handled raw) = false

theorem DaemonSpared.head {env : Nat → Env} {raw : Bytes} {lines : List Bytes} (h : DaemonSpared env (raw :: lines)) :
    endsDaemon (env 0) (handled raw) = false := h 0 raw rfl

theorem DaemonSpared.tail {env : Nat → Env} {raw : Bytes} {lines : List Bytes} (h : DaemonSpared env (raw :: lines)) :
    DaemonSpared (fun j => env (j + 1)) lines := fun j line hline => h (j + 1) line hline

theorem connLoop_raws {env : Nat → Env} {fuel : Nat} : ∀ {i : Nat} {c : Conn}, c.recv.length < fuel →
    (∀ raw ∈ terminated (stream c.recv), isCommand (ascii "STREAM") raw = false) →
    DaemonSpared (fun j => env (j + i)) (uptoQuit (terminated (stream c.recv))) →
    (connLoop env fuel i c).map Served.raw = uptoQuit (terminated (stream c.recv)) := by
  induction fuel with
  | zero => intro i c h _ _; cases h
  | succ fuel ih =>
      intro i c hfuel hstream hspared
      rw [connLoop]
      rcases recvLine_stream lineSize c.recv [] with ⟨hnone, hno⟩ | ⟨buf, rest, hrecv, hlt, hraw, hsplit⟩
      · -- no newline is left
        rw [terminated_none hno]
        split
        · rfl
        next heq => rw [heq] at hnone; cases hnone
      · rw [hsplit, terminated_line hraw] at hstream hspared ⊢
        rw [List.forall_mem_cons] at hstream
        -- the buffer holds what `handled` says of the line
        have hbuf := recvLine_eq hrecv (Nat.zero_le _)
        rw [List.nil_append, List.length_nil, Nat.sub_zero] at hbuf
        rw [hrecv]
        show List.map Served.raw (⟨rawLine c.recv, { c with recv := rest }, (handleLine (env i) _ _).2⟩ ::
          if (handleLine (env i) { c with recv := rest } (cstr buf)).1 then
            connLoop env fuel (i + 1) (handleLine (env i) { c with recv := rest } (cstr buf)).2
          else []) = _
        -- the loop goes on unless the line was QUIT or ended the daemon, and no line reads on
        have hgo := handleLine_go (env i) { c with recv := rest } (rawLine c.recv)
        have hrest := handleLine_recv hstream.1 (env i) { c with recv := rest }
        rw [handled, ← hbuf] at hgo hrest
        cases hl : handleLine (env i) { c with recv := rest } (cstr buf) with
        | mk go c' =>
            rw [hl] at hgo hrest
            simp only at hgo hrest
            rw [List.map_cons, hgo]
            rw [uptoQuit] at hspared ⊢
            cases hquit : isCommand (ascii "QUIT") (rawLine c.recv) with
            | true => rfl
            | false =>
                rw [hquit, if_neg (by decide)] at hspared
                -- the line is spared; the others are as the rest of the loop finds them
                have hend := hspared.head
                rw [Nat.zero_add, handled, ← hbuf] at hend
                have htail := hspared.tail
                simp only [Nat.add_right_comm _ 1 i] at htail
                rw [← hrest] at htail
                have hih := @ih (i + 1) c' (by rw [hrest]; omega) (by rw [hrest]; exact hstream.2) htail
                rw [hrest] at hih
                simp only [hend, Bool.not_false, Bool.and_self, if_true, Bool.false_eq_true, if_false, hih]

/-- **The lines a connection serves**, when none of them is a STREAM and none ends the daemon. -/
theorem handleConnection_raws {env : Nat → Env} {recv : List Recv} (sock : Sock)
    (h : ∀ raw ∈ terminated (stream recv), isCommand (ascii "STREAM") raw = false)
    (hspared : DaemonSpared env (uptoQuit (terminated (stream recv)))) :
    (handleConnection env recv sock).map Served.raw = uptoQuit (terminated (stream recv)) :=
  connLoop_raws (Nat.lt_succ_self _) h hspared

/-! ## The answer -/

/-- On a healthy connection every line arrives whole. -/
theorem sendAll_healthy {s : Sock} (h : s.Healthy) (ls : List Bytes) :
    (sendAll s ls).wire = s.wire ++ (ls.map framed).flatten ∧ (sendAll s ls).Healthy := by
  induction ls generalizing s with
  | nil => exact ⟨(List.append_nil _).symm, h⟩
  | cons l ls ih =>
      obtain ⟨s₁, hsend, hwire, -, hok⟩ := hsedSendLine_ok h l
      obtain ⟨hall, hhealthy⟩ := ih hok
      rw [sendAll, List.foldl_cons, hsend]
      refine ⟨hall.trans ?_, hhealthy⟩
      rw [hwire, List.map_cons, List.flatten_cons, framed]
      simp only [List.append_assoc]

theorem served_calls {env : Env} {raw line : Bytes} {c c' : Conn} {go : Bool} (h : handleLine env c line = (go, c')) :
    c'.sock = sendAll c.sock (⟨raw, c, c'⟩ : Served).replies := by
  have hsent := handleLine_calls env c line
  rw [h] at hsent
  obtain ⟨ls, hls⟩ := hsent
  have hreplies : (⟨raw, c, c'⟩ : Served).replies = ls := by
    show c'.sock.lines.drop c.sock.lines.length = ls
    rw [show c'.sock = sendAll c.sock ls from hls, sendAll_lines, List.drop_left]
  rw [hreplies]
  exact hls

/-- The last state of a connection. -/
def finalSock (sock : Sock) (served : List Served) : Sock := (served.getLast?.map fun sv => sv.after.sock).getD sock

theorem connLoop_final {env : Nat → Env} {fuel : Nat} : ∀ {i : Nat} {c : Conn},
    finalSock c.sock (connLoop env fuel i c) =
      sendAll c.sock ((connLoop env fuel i c).flatMap Served.replies) := by
  induction fuel with
  | zero => intro i c; rfl
  | succ fuel ih =>
      intro i c
      rw [connLoop]
      split
      · rfl
      next buf rest hrecv =>
        cases hl : handleLine (env i) { c with recv := rest } (cstr buf) with
        | mk go c' =>
            have hfirst := @served_calls _ (rawLine c.recv) _ _ _ _ hl
            cases go with
            | false =>
                simp only [Bool.false_eq_true, if_false, List.flatMap_singleton]
                exact hfirst
            | true =>
                simp only [if_true, List.flatMap_cons]
                rw [sendAll_append, ← hfirst, ← @ih (i + 1) c']
                cases hs : connLoop env fuel (i + 1) c' with
                | nil => rfl
                | cons sv svs =>
                    rw [finalSock, finalSock, List.getLast?_cons_cons]
                    rfl

/-- **The answer of a connection** whose sends succeed: the replies of its lines, in order. -/
theorem handleConnection_wire (env : Nat → Env) (recv : List Recv) {sock : Sock} (h : sock.Healthy) :
    (finalSock sock (handleConnection env recv sock)).wire =
      sock.wire ++ (((handleConnection env recv sock).flatMap Served.replies).map framed).flatten := by
  have hfinal := @connLoop_final env (recv.length + 1) 0 ⟨recv, sock, []⟩
  rw [handleConnection, hfinal]
  exact (sendAll_healthy h _).1

/-- Every line is served on a healthy socket. -/
theorem handleConnection_healthy {env : Nat → Env} {recv : List Recv} {sock : Sock} (h : sock.Healthy) {sv : Served}
    (hsv : sv ∈ handleConnection env recv sock) : sv.before.sock.Healthy := by
  obtain ⟨ls, hls⟩ := (connLoop_calls hsv).1
  rw [hls]
  exact (sendAll_healthy h ls).2

end Server
end Hsed
