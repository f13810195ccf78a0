import Hsed.Server.Server

/-!
# `Server.Correctness.Dispatch` — one line, from the socket to its handler

* `recvLine_eq` — what `recv_line` leaves in the buffer is the raw line cut at 511 bytes;
* `dispatch_signal` / `dispatch_kills` — HUP and KILL are the only commands that send a signal, and they
  send it to their first argument;
* `strtokR_append` and its consequences — how tokens change when a line is cut.
-/

namespace Hsed
namespace Server

open CLib Scan Wire

/-! ## `recv_line` -/

theorem recvLine_eq {bufsize : Nat} {rs rest : List Recv} {line : Bytes} : ∀ {buf : Bytes},
    recvLine bufsize rs buf = (some line, rest) → buf.length ≤ bufsize - 1 →
    line = buf ++ (rawLine rs).take (bufsize - 1 - buf.length) := by
  induction rs with
  | nil => intro buf h _; cases h
  | cons r rs ih =>
      intro buf h hle
      cases r with
      | eof => cases h
      | err => cases h
      | eintr => exact ih h hle
      | byte c =>
          rw [recvLine] at h
          rw [rawLine]
          by_cases hc : c = 0x0a
          · rw [if_pos hc] at h ⊢
            cases h
            simp
          · rw [if_neg hc] at h ⊢
            by_cases hroom : buf.length + 1 < bufsize
            · -- the byte goes into the buffer
              rw [if_pos hroom] at h
              rw [ih h (by simp; omega), List.append_assoc, List.singleton_append]
              have hlen : bufsize - 1 - buf.length = bufsize - 1 - (buf ++ [c]).length + 1 := by
                simp only [List.length_append, List.length_cons, List.length_nil]
                omega
              rw [hlen, List.take_succ_cons]
            · -- the buffer is full: the byte is dropped
              rw [if_neg hroom] at h
              have hfull : bufsize - 1 - buf.length = 0 := by omega
              rw [ih h hle, hfull, List.take_zero, List.take_zero]

/-! ## The signals of a line -/

theorem reply_kills (c : Conn) (text : Bytes) : (c.reply text).kills = c.kills := rfl

theorem reply_lines (c : Conn) (text : Bytes) :
    (c.reply text).sock.lines = c.sock.lines ++ [snprintf 2048 text] := rfl

theorem handleScan_kills (env : Env) (c : Conn) (minSize onlyPid : Int) (uidFilter : Nat) :
    (handleScan env c minSize onlyPid uidFilter).kills = c.kills := by
  unfold handleScan
  split
  · rfl
  · split <;> rfl

theorem handleStats_kills (env : Env) (c : Conn) (minSize : Int) (uidFilter : Nat) :
    (handleStats env c minSize uidFilter).kills = c.kills := by
  unfold handleStats
  split <;> rfl

theorem handleTruncate_kills (env : Env) (c : Conn) (pid fd : Int) :
    (handleTruncate env c pid fd).kills = c.kills := by
  unfold handleTruncate
  split <;> rfl

theorem streamLoop_kills (pid fd : Int) (acts : List StreamAct) : ∀ c : Conn,
    (streamLoop pid fd acts c).2.kills = c.kills := by
  induction acts with
  | nil => intro c; rfl
  | cons a acts ih =>
      intro c
      cases a with
      | attached => rw [streamLoop, ih]; rfl
      | write tid ret buf isWritev mallocOk =>
          rw [streamLoop, ih]
          unfold streamWriteCb
          split <;> rfl
      | poll avail =>
          rw [streamLoop]
          split
          · rw [ih]
          · rfl

theorem handleStream_kills (env : Env) (c : Conn) (pid fd : Int) :
    (handleStream env c pid fd).kills = c.kills := by
  have hloop := streamLoop_kills pid fd (env.stream pid fd).1 c
  unfold handleStream
  split
  · next heq => rw [heq] at hloop; exact hloop
  · next heq =>
      rw [heq] at hloop
      split <;> exact hloop

/-- Is it one of the two signal commands? -/
def isSignalCmd (cmd : Bytes) : Bool := strcaseeq cmd (ascii "HUP") || strcaseeq cmd (ascii "KILL")

/-- No other command sends a signal. -/
theorem dispatch_kills {cmd : Bytes} (h : isSignalCmd cmd = false) (env : Env) (c : Conn) (save : Bytes) :
    (dispatch env c cmd save).2.kills = c.kills := by
  simp only [isSignalCmd, Bool.or_eq_false_iff] at h
  unfold dispatch
  simp only [h.1, h.2]
  split
  · rfl
  split
  · rfl
  split
  · exact handleScan_kills ..
  split
  · exact handleStats_kills ..
  split
  · split
    · exact handleTruncate_kills ..
    · rfl
  rw [if_neg (by decide), if_neg (by decide)]
  split
  · split
    · exact handleStream_kills ..
    · rfl
  · rfl

/-- The replies to a signal command without an argument. -/
def signalUsages : List Bytes := [ascii "usage: HUP <pid>", ascii "usage: KILL <pid>"]

/-- The signal of a signal command. -/
def signalOf (cmd : Bytes) : Int := if strcaseeq cmd (ascii "HUP") then sighup else sigkill

theorem strcaseeq_eq {a b : Bytes} (h : strcaseeq a b = true) (w : Bytes) :
    strcaseeq a w = strcaseeq b w := by
  simp only [strcaseeq, beq_iff_eq] at h ⊢
  rw [h]

/-- **Signal commands.** The first argument, through `atol` and a narrowing cast, is the target; without
    an argument there is a usage error. -/
theorem dispatch_signal {cmd : Bytes} (h : isSignalCmd cmd = true) (env : Env) (c : Conn) (save : Bytes) :
    (∀ a1 rest, strtokR delims save = some (a1, rest) →
      dispatch env c cmd save = handleSignal env (signalOf cmd) c (toInt32 (strtol a1))) ∧
    (strtokR delims save = none →
      ∃ usage ∈ signalUsages, dispatch env c cmd save = (true, c.reply (errorText usage))) := by
  simp only [isSignalCmd, Bool.or_eq_true] at h
  rcases h with h | h
  · have hw := strcaseeq_eq h
    constructor
    · intro a1 rest ha
      simp only [dispatch, signalOf, nextArg, ha, hw]
      rfl
    · intro ha
      refine ⟨ascii "usage: HUP <pid>", List.mem_cons_self, ?_⟩
      simp only [dispatch, nextArg, ha, hw]
      rfl
  · have hw := strcaseeq_eq h
    constructor
    · intro a1 rest ha
      simp only [dispatch, signalOf, nextArg, ha, hw]
      rfl
    · intro ha
      refine ⟨ascii "usage: KILL <pid>", List.mem_cons_of_mem _ List.mem_cons_self, ?_⟩
      simp only [dispatch, nextArg, ha, hw]
      rfl

theorem handleSignal_kills (env : Env) (sig : Int) (c : Conn) (pid : Int) :
    (handleSignal env sig c pid).2.kills = c.kills ++ [(pid, sig)] := by
  unfold handleSignal hsedSendSignal
  cases env.kill pid sig <;> rfl

/-- The signal that a handled text asks for: its target and its number. -/
def signalAsked (text : Bytes) : Option (Int × Int) :=
  match strtokR delims text with
  | none => none
  | some (cmd, save) =>
    if isSignalCmd cmd then (strtokR delims save).map fun p => (toInt32 (strtol p.1), signalOf cmd) else none

/-- The text asks for a signal that the daemon itself receives. -/
def endsDaemon (env : Env) (text : Bytes) : Bool := (signalAsked text).any fun k => env.kill k.1 k.2 = .fatal

end Server
end Hsed
