import Hsed.Scan.ParallelScan
import Hsed.Wire.Base64
import Hsed.Wire.Protocol

/-!
# `Server.Server` — one connection of the daemon (`server.c`, `reclaim.c`)

`handle_connection` as explicit state passing over a `Conn`: what `recv` will return, the sending side,
and the `kill` calls issued so far. What the rest of the machine answers during one iteration is an
`Env`: the scan, `hsed_truncate_fd`, `kill`, and the callbacks `hsed_trace_fd` makes; iteration `i` runs in
its own `env i`, so nothing is assumed to stay the same between two commands.

`handleConnection` returns one `Served` record for each line taken from the peer, with the raw line and the
connection before and after it.
-/

namespace Hsed
namespace Server

open CLib Scan Wire

/-! ## The surroundings -/

/-- The result of one `recv` of a byte; when the list of results runs out, the peer has closed. -/
inductive Recv where
  | byte (b : UInt8)
  | eof
  | eintr
  | err
  deriving DecidableEq, Repr

/-- One callback of `hsed_trace_fd`: `attached_cb`, `poll_cb` with so many bytes waiting, or `write_cb`
    (and whether the `malloc` in it would succeed). -/
inductive StreamAct where
  | attached
  | poll (avail : Nat)
  | write (tid ret : Int) (buf : Bytes) (isWritev mallocOk : Bool)
  deriving DecidableEq, Repr

/-- What a signal sent comes to. -/
inductive KillResult where
  | ok
  | failed (text : Bytes)
  /-- The daemon itself is among the receivers, and ends before the call returns. -/
  | fatal
  deriving DecidableEq, Repr

/-- What the system calls of one iteration return. -/
structure Env where
  /-- `hsed_scan(min_size, only_pid, uid_filter, scan_threads)`; `none` is a failure. -/
  scan : Int → Int → Nat → Option (List Entry)
  /-- `hsed_scan_stats(min_size, uid_filter, scan_threads)`. -/
  stats : Int → Nat → Option Stats
  /-- `hsed_truncate_fd(pid, fd)`: the freed size, or the text left in `errbuf`. -/
  truncate : Int → Int → Except Bytes Int
  /-- `kill(pid, sig)`; a failure carries `strerror(errno)`. -/
  kill : Int → Int → KillResult
  /-- `hsed_trace_fd(pid, fd)`: its callbacks, and the text left in `errbuf` if it fails. -/
  stream : Int → Int → List StreamAct × Option Bytes
  /-- `strerror(errno)` after a failed scan. -/
  strerror : Bytes

/-- A connection: the results of the coming `recv` calls, the sending side, and the signals sent. -/
structure Conn where
  recv : List Recv
  sock : Sock
  kills : List (Int × Int)
  deriving DecidableEq, Repr

/-! ## `recv_line` -/

/-- `recv_line`; `buf` is what stands in the buffer. `none` is the `-1` return. -/
def recvLine (bufsize : Nat) : List Recv → Bytes → Option Bytes × List Recv
  | [], _ => (none, [])
  | .eof :: rs, _ => (none, rs)
  | .err :: rs, _ => (none, rs)
  | .eintr :: rs, buf => recvLine bufsize rs buf
  | .byte c :: rs, buf =>
    if c = 0x0a then (some buf, rs)
    else recvLine bufsize rs (if buf.length + 1 < bufsize then buf ++ [c] else buf)

/-- The line as the peer sent it: every byte up to the newline. -/
def rawLine : List Recv → Bytes
  | .byte c :: rs => if c = 0x0a then [] else c :: rawLine rs
  | .eintr :: rs => rawLine rs
  | _ => []

/-! ## Replies -/

/-- `hsed_send_linef` with its result ignored. -/
def Conn.reply (c : Conn) (text : Bytes) : Conn := { c with sock := (hsedSendLinef c.sock text).2 }

/-- The error object around a message. -/
def errorText (message : Bytes) : Bytes :=
  ascii "\x7b\"type\":\"error\",\"message\":\"" ++ message ++ ascii "\"\x7d"

/-- The error reply of the action handlers: `err` escaped into 512 bytes. -/
def Conn.replyErr (c : Conn) (err : Bytes) : Conn := c.reply (errorText (hsedJsonEscape 512 err))

/-! ## The handlers -/

/-- The loop of `handle_scan`; `false` when a send failed. -/
def sendEntries : List Entry → Sock → Int → Bool × Sock × Int
  | [], sock, total => (true, sock, total)
  | e :: es, sock, total =>
    match hsedSendLine sock (hsedFormatEntry e linebufSize) with
    | (rc, sock) => if rc ≠ 0 then (false, sock, total) else sendEntries es sock (toInt64 (total + e.size))

/-- The end line of `handle_scan`. -/
def endText (count : Nat) (total : Int) : Bytes :=
  ascii "\x7b\"type\":\"end\",\"count\":" ++ decNat count ++ ascii ",\"total_bytes\":" ++ decInt total ++
    ascii "\x7d"

/-- `handle_scan`. -/
def handleScan (env : Env) (c : Conn) (minSize onlyPid : Int) (uidFilter : Nat) : Conn :=
  match env.scan minSize onlyPid uidFilter with
  | none => c.reply (errorText (ascii "scan failed: " ++ env.strerror))
  | some es =>
    match sendEntries es c.sock 0 with
    | (false, sock, _) => { c with sock := sock }
    | (true, sock, total) => Conn.reply { c with sock := sock } (endText es.length total)

/-- `handle_stats`. -/
def handleStats (env : Env) (c : Conn) (minSize : Int) (uidFilter : Nat) : Conn :=
  match env.stats minSize uidFilter with
  | none => c.reply (errorText (ascii "stats scan failed: " ++ env.strerror))
  | some st =>
    c.reply (ascii "\x7b\"type\":\"stats\",\"count\":" ++ decNat st.count ++ ascii ",\"total_bytes\":" ++
      decInt st.totalBytes ++ ascii "\x7d")

/-- `handle_truncate`. -/
def handleTruncate (env : Env) (c : Conn) (pid fd : Int) : Conn :=
  match env.truncate pid fd with
  | .error err => c.replyErr err
  | .ok freed => c.reply (ascii "\x7b\"type\":\"result\",\"ok\":true,\"freed\":" ++ decInt freed ++ ascii "\x7d")

def sighup : Int := 1
def sigkill : Int := 9

/-- `hsed_send_signal`: a failure carries the text left in `errbuf`. -/
def hsedSendSignal (env : Env) (c : Conn) (pid sig : Int) : KillResult × Conn :=
  let c := { c with kills := c.kills ++ [(pid, sig)] }
  match env.kill pid sig with
  | .failed strerror =>
    (.failed (snprintf 256 (ascii "kill(" ++ decInt pid ++ ascii ", " ++ decInt sig ++ ascii ") failed: " ++ strerror)),
      c)
  | r => (r, c)

/-- `handle_hup` and `handle_kill` differ in the signal only; `false` when the daemon does not live to reply. -/
def handleSignal (env : Env) (sig : Int) (c : Conn) (pid : Int) : Bool × Conn :=
  match hsedSendSignal env c pid sig with
  | (.failed err, c) => (true, c.replyErr err)
  | (.ok, c) => (true, c.reply (ascii "\x7b\"type\":\"result\",\"ok\":true\x7d"))
  | (.fatal, c) => (false, c)

def handleHup (env : Env) (c : Conn) (pid : Int) : Bool × Conn := handleSignal env sighup c pid
def handleKill (env : Env) (c : Conn) (pid : Int) : Bool × Conn := handleSignal env sigkill c pid

/-! ## `handle_stream` -/

/-- The leading bytes among the coming results, at most `n` of them. -/
def leadingBytes : Nat → List Recv → Bytes
  | n + 1, .byte b :: rs => b :: leadingBytes n rs
  | _, _ => []

/-- `stream_poll_cb` with `avail` bytes waiting: go on, and what is left to receive. -/
def streamPollCb (recv : List Recv) (avail : Nat) : Bool × List Recv :=
  if avail = 0 then (true, recv)
  else
    match recv with
    | [] => (false, [])
    | .eof :: rs => (false, rs)
    | .eintr :: rs => (false, rs)
    | .err :: rs => (false, rs)
    | .byte b :: rs =>
      let chunk := leadingBytes (min avail 256) (.byte b :: rs)
      (!decide (ascii "STOP" <:+: chunk), (Recv.byte b :: rs).drop chunk.length)

/-- The line of a captured write. -/
def writeText (tid ret : Int) (buf : Bytes) (isWritev : Bool) : Bytes :=
  ascii "\x7b\"type\":\"write\",\"tid\":" ++ decInt tid ++ ascii ",\"ret\":" ++ decInt ret ++
    ascii ",\"captured\":" ++ decNat buf.length ++ ascii ",\"is_writev\":" ++
    (if isWritev then ascii "true" else ascii "false") ++ ascii ",\"data_b64\":\"" ++ hsedBase64Encode buf ++
    ascii "\"\x7d"

/-- `stream_write_cb`: texts beyond the stack buffer need `malloc`, and are dropped when it fails. -/
def streamWriteCb (c : Conn) (tid ret : Int) (buf : Bytes) (isWritev mallocOk : Bool) : Conn :=
  if hsedBase64EncodedLen buf.length ≤ 1024 ∨ mallocOk = true then c.reply (writeText tid ret buf isWritev)
  else c

/-- `stream_attached_cb`. -/
def streamAttachedCb (c : Conn) (pid fd : Int) : Conn :=
  c.reply (ascii "\x7b\"type\":\"attached\",\"pid\":" ++ decInt pid ++ ascii ",\"fd\":" ++ decInt fd ++ ascii "\x7d")

/-- The callbacks of one `hsed_trace_fd`, up to the poll that asks to stop; `false` if none did. -/
def streamLoop (pid fd : Int) : List StreamAct → Conn → Bool × Conn
  | [], c => (false, c)
  | .attached :: acts, c => streamLoop pid fd acts (streamAttachedCb c pid fd)
  | .write tid ret buf isWritev mallocOk :: acts, c =>
    streamLoop pid fd acts (streamWriteCb c tid ret buf isWritev mallocOk)
  | .poll avail :: acts, c =>
    match streamPollCb c.recv avail with
    | (true, rs) => streamLoop pid fd acts { c with recv := rs }
    | (false, rs) => (true, { c with recv := rs })

/-- `handle_stream`. A stop asked for by `poll_cb` is a clean return. -/
def handleStream (env : Env) (c : Conn) (pid fd : Int) : Conn :=
  match streamLoop pid fd (env.stream pid fd).1 c with
  | (true, c) => c.reply (ascii "\x7b\"type\":\"stream_end\"\x7d")
  | (false, c) =>
    match (env.stream pid fd).2 with
    | some err => c.replyErr err
    | none => c.reply (ascii "\x7b\"type\":\"stream_end\"\x7d")

/-! ## `handle_connection` -/

/-- The delimiters of every `strtok_r` call. -/
def delims : Bytes := [0x20, 0x09, 0x0d, 0x0a]

/-- The remaining arguments of a line, as successive `strtok_r(NULL, …)` calls return them. -/
def nextArg (save : Option Bytes) : Option Bytes × Option Bytes :=
  match save with
  | none => (none, none)
  | some s =>
    match strtokR delims s with
    | none => (none, none)
    | some (tok, rest) => (some tok, some rest)

/-- One handler for each command word, on the text after it; `false` ends the connection, as QUIT does, or the
    daemon with it. -/
def dispatch (env : Env) (c : Conn) (cmd save : Bytes) : Bool × Conn :=
  let (a1, save) := nextArg (some save)
  let (a2, save) := nextArg save
  let (a3, _) := nextArg save
  if strcaseeq cmd (ascii "PING") then (true, c.reply (ascii "\x7b\"type\":\"pong\"\x7d"))
  else if strcaseeq cmd (ascii "QUIT") then (false, c)
  else if strcaseeq cmd (ascii "SCAN") then
    let minSize := (a1.map strtol).getD 0
    let onlyPid := (a2.map fun a => toInt32 (strtol a)).getD 0
    let uidFilter := (a3.map fun a => toUInt32 (strtoul a)).getD hsedUidAny
    (true, handleScan env c minSize onlyPid uidFilter)
  else if strcaseeq cmd (ascii "STATS") then
    let minSize := (a1.map strtol).getD 0
    let uidFilter := (a2.map fun a => toUInt32 (strtoul a)).getD hsedUidAny
    (true, handleStats env c minSize uidFilter)
  else if strcaseeq cmd (ascii "TRUNCATE") then
    match a1, a2 with
    | some a1, some a2 => (true, handleTruncate env c (toInt32 (strtol a1)) (atoi a2))
    | _, _ => (true, c.reply (errorText (ascii "usage: TRUNCATE <pid> <fd>")))
  else if strcaseeq cmd (ascii "HUP") then
    match a1 with
    | some a1 => handleHup env c (toInt32 (strtol a1))
    | none => (true, c.reply (errorText (ascii "usage: HUP <pid>")))
  else if strcaseeq cmd (ascii "KILL") then
    match a1 with
    | some a1 => handleKill env c (toInt32 (strtol a1))
    | none => (true, c.reply (errorText (ascii "usage: KILL <pid>")))
  else if strcaseeq cmd (ascii "STREAM") then
    match a1, a2 with
    | some a1, some a2 => (true, handleStream env c (toInt32 (strtol a1)) (atoi a2))
    | _, _ => (true, c.reply (errorText (ascii "usage: STREAM <pid> <fd>")))
  else (true, c.reply (errorText (ascii "unknown command")))

/-- The body of the connection loop on one line. -/
def handleLine (env : Env) (c : Conn) (line : Bytes) : Bool × Conn :=
  match strtokR delims line with
  | none => (true, c)
  | some (cmd, save) => dispatch env c cmd save

/-- `sizeof(line)`. -/
def lineSize : Nat := 512

/-- One line taken from the peer. -/
structure Served where
  raw : Bytes
  before : Conn
  after : Conn

/-- The signals sent for the line. -/
def Served.kills (sv : Served) : List (Int × Int) := sv.after.kills.drop sv.before.kills.length

/-- The lines handed to `hsed_send_line` for it. -/
def Served.replies (sv : Served) : List Bytes := sv.after.sock.lines.drop sv.before.sock.lines.length

/-- The loop of `handle_connection`. Every pass takes at least one `recv` result, so their number bounds
    it. -/
def connLoop (env : Nat → Env) : Nat → Nat → Conn → List Served
  | 0, _, _ => []
  | fuel + 1, i, c =>
    match recvLine lineSize c.recv [] with
    | (none, _) => []
    | (some buf, rest) =>
      match handleLine (env i) { c with recv := rest } (cstr buf) with
      | (go, c') =>
        ⟨rawLine c.recv, { c with recv := rest }, c'⟩ :: (if go then connLoop env fuel (i + 1) c' else [])

/-- `handle_connection`: the lines it serves. -/
def handleConnection (env : Nat → Env) (recv : List Recv) (sock : Sock) : List Served :=
  connLoop env (recv.length + 1) 0 ⟨recv, sock, []⟩

end Server
end Hsed
