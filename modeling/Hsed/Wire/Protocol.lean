import Hsed.Lib.Json
import Hsed.Scan.ProcScan

/-!
# `Wire.Protocol` — the lines the daemon sends (`protocol.c`)

* `hsedJsonEscape` writes whole escape units into a buffer of fixed size and stops, or skips a control
  character, when the buffer has no room for the next one;
* `hsedFormatEntry` prints one entry through four such buffers and a bounded `snprintf`;
* `hsedSendLine` pushes a line and its newline through `send`, whose results come from a schedule;
  `sendRun` is the same call one `send` at a time, and `hsedSendLinef` first formats into a buffer of 2048 bytes.
-/

namespace Hsed
namespace Wire

open CLib Scan

/-! ## `hsed_json_escape` -/

/-- The letter of the five two-byte escapes. -/
def shortEscape (b : UInt8) : Option UInt8 :=
  if b = 0x22 then some 0x22
  else if b = 0x5c then some 0x5c
  else if b = 0x0a then some 0x6e
  else if b = 0x0d then some 0x72
  else if b = 0x09 then some 0x74
  else none

/-- One lower-case hexadecimal digit. -/
def hexDigit (n : Nat) : UInt8 := (ascii "0123456789abcdef").getD (n % 16) 0

/-- `"\\u%04x"` of a byte. -/
def unicodeText (b : UInt8) : Bytes := [0x5c, 0x75, 0x30, 0x30, hexDigit (b.toNat / 16), hexDigit b.toNat]

/-- The loop of `hsed_json_escape`; `out` is what stands in `dst[0 .. o)`. -/
def jsonEscapeLoop (dstsize : Nat) : Bytes → Bytes → Bytes
  | out, [] => out
  | out, b :: src =>
    if out.length + 2 < dstsize then
      match shortEscape b with
      | some c =>
        jsonEscapeLoop dstsize (if out.length + 2 < dstsize then out ++ [0x5c, c] else out) src
      | none =>
        if b < 0x20 then
          jsonEscapeLoop dstsize
            (if out.length + 6 < dstsize then out ++ snprintf (dstsize - out.length) (unicodeText b)
              else out) src
        else jsonEscapeLoop dstsize (out ++ [b]) src
    else out

/-- `hsed_json_escape`: the C string left in `dst`. -/
def hsedJsonEscape (dstsize : Nat) (src : Bytes) : Bytes :=
  (jsonEscapeLoop dstsize [] (cstr src)).take (dstsize - 1)

/-! ## `hsed_format_entry` -/

/-- The formatted text of an entry, before the outer buffer cuts it. -/
def entryText (e : Entry) : Bytes :=
  ascii "\x7b\"type\":\"entry\",\"pid\":" ++ decInt e.pid ++ ascii ",\"fd\":" ++ decInt e.fd ++
    ascii ",\"mode\":\"" ++ e.mode ++ ascii "\"," ++
    ascii "\"size\":" ++ decInt e.size ++ ascii ",\"uid\":" ++ decNat e.uid ++
    ascii ",\"user\":\"" ++ hsedJsonEscape (hsedNameMax * 2) e.user ++
    ascii "\",\"comm\":\"" ++ hsedJsonEscape (hsedNameMax * 2) e.comm ++ ascii "\"," ++
    ascii "\"cmdline\":\"" ++ hsedJsonEscape (hsedCmdlineMax * 2) e.cmdline ++
    ascii "\",\"path\":\"" ++ hsedJsonEscape (hsedPathMax * 2) e.path ++
    ascii "\",\"inode\":" ++ decNat e.inode ++ ascii "," ++
    ascii "\"dev_major\":" ++ decNat e.devMajor ++ ascii ",\"dev_minor\":" ++ decNat e.devMinor ++
    ascii ",\"mtime\":" ++ decInt e.mtime ++ ascii "\x7d"

/-- `hsed_format_entry`. -/
def hsedFormatEntry (e : Entry) (outsize : Nat) : Bytes := snprintf outsize (entryText e)

/-- `sizeof(linebuf)` in `handle_scan`. -/
def linebufSize : Nat := hsedPathMax * 2 + hsedCmdlineMax * 2 + hsedNameMax * 4

/-! ## Sending -/

/-- The result of one `send`: bytes accepted, an interruption, or another error. -/
inductive SendRes where
  | accept (n : Nat)
  | eintr
  | err
  deriving DecidableEq, Repr

/-- The sending side of a connection: what the peer has been given, and the results of the coming
    `send` calls (once they run out, every call accepts what it is offered). `lines` records each line
    handed to `hsed_send_line`. -/
structure Sock where
  wire : Bytes
  sends : List SendRes
  lines : List Bytes
  deriving DecidableEq, Repr

/-- The loop of `hsed_send_line`: return code, bytes on the wire, schedule left. -/
def sendLoop (json : Bytes) : List SendRes → Nat → Bytes → Int × Bytes × List SendRes
  | [], sent, wire => (0, wire ++ (json ++ [0x0a]).drop sent, [])
  | r :: rs, sent, wire =>
    if sent < json.length + 1 then
      let chunk := if sent < json.length then json.drop sent else [0x0a]
      match r with
      | .accept n => sendLoop json rs (sent + min n chunk.length) (wire ++ chunk.take n)
      | .eintr => sendLoop json rs sent wire
      | .err => (-1, wire, rs)
    else (0, wire, r :: rs)

/-- `hsed_send_line`. -/
def hsedSendLine (sock : Sock) (json : Bytes) : Int × Sock :=
  let (rc, wire, sends) := sendLoop json sock.sends 0 sock.wire
  (rc, ⟨wire, sends, sock.lines ++ [json]⟩)

/-! ### One `send` at a time

The same loop as a state that a `send` moves on, for schedules that do not end. -/

/-- A call of `hsed_send_line` at its next `send`, or done. `wire` is what was accepted so far. -/
inductive SendState where
  | looping (sent : Nat) (wire : Bytes)
  | returned (rc : Int) (wire : Bytes)
  deriving DecidableEq, Repr

/-- What was accepted so far. -/
def SendState.wire : SendState → Bytes
  | looping _ wire => wire
  | returned _ wire => wire

/-- `chunk`, of `chunklen` bytes. -/
def sendChunk (json : Bytes) (sent : Nat) : Bytes := if sent < json.length then json.drop sent else [0x0a]

/-- The test of the loop. -/
def sendTest (json : Bytes) (sent : Nat) (wire : Bytes) : SendState :=
  if sent < json.length + 1 then .looping sent wire else .returned 0 wire

/-- The body of the loop, given what `send` does. -/
def sendNext (json : Bytes) : SendState → SendRes → SendState
  | .looping sent wire, .accept n =>
    let chunk := sendChunk json sent
    sendTest json (sent + min n chunk.length) (wire ++ chunk.take n)
  | .looping sent wire, .eintr => sendTest json sent wire
  | .looping _ wire, .err => .returned (-1) wire
  | .returned rc wire, _ => .returned rc wire

/-- The call after some `send`s. -/
def sendAfter (json : Bytes) (results : List SendRes) : SendState :=
  results.foldl (sendNext json) (sendTest json 0 [])

/-- The call after the first `k` results of an endless schedule. -/
def sendRun (json : Bytes) (schedule : Nat → SendRes) (k : Nat) : SendState :=
  sendAfter json ((List.range k).map schedule)

/-! ### Formatted lines -/

/-- `hsed_send_linef`, given the whole formatted text. -/
def hsedSendLinef (sock : Sock) (text : Bytes) : Int × Sock := hsedSendLine sock (snprintf 2048 text)

end Wire
end Hsed
