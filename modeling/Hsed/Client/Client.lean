import Hsed.Lib.Json
import Hsed.Lib.Base64

/-!
# `Client.Client` — what the TUI's client makes of the daemon's bytes (`client.go`)

The connection is the bytes the daemon sent before it was closed. `readEnvelope` takes one line off it and
decodes the common envelope; `scan` and `next` are the two readers with a loop, `stats` and
`simpleCommand` those that read one line. Each `errf` of the source is a constructor of `ClientError`.
-/

namespace Hsed
namespace Client

open CLib

/-- `HiddenEntry`. -/
structure HiddenEntry where
  pid : Int
  fd : Int
  mode : Bytes
  size : Int
  uid : Int
  user : Bytes
  comm : Bytes
  cmdline : Bytes
  path : Bytes
  inode : Int
  devMajor : Int
  devMinor : Int
  mtime : Int
  deriving DecidableEq, Repr

def HiddenEntry.zero : HiddenEntry := ⟨0, 0, [], 0, 0, [], [], [], [], 0, 0, 0, 0⟩

/-- The tags of `HiddenEntry`. -/
def HiddenEntry.fields : List (Json.Field HiddenEntry) :=
  [ Json.int64Field (ascii "pid") fun x e => { e with pid := x },
    Json.int64Field (ascii "fd") fun x e => { e with fd := x },
    Json.stringField (ascii "mode") fun s e => { e with mode := s },
    Json.int64Field (ascii "size") fun x e => { e with size := x },
    Json.int64Field (ascii "uid") fun x e => { e with uid := x },
    Json.stringField (ascii "user") fun s e => { e with user := s },
    Json.stringField (ascii "comm") fun s e => { e with comm := s },
    Json.stringField (ascii "cmdline") fun s e => { e with cmdline := s },
    Json.stringField (ascii "path") fun s e => { e with path := s },
    Json.uint64Field (ascii "inode") fun x e => { e with inode := x },
    Json.int64Field (ascii "dev_major") fun x e => { e with devMajor := x },
    Json.int64Field (ascii "dev_minor") fun x e => { e with devMinor := x },
    Json.int64Field (ascii "mtime") fun x e => { e with mtime := x } ]

/-- `WriteEvent`. -/
structure WriteEvent where
  tid : Int
  ret : Int
  captured : Int
  isWritev : Bool
  dataB64 : Bytes
  deriving DecidableEq, Repr

def WriteEvent.zero : WriteEvent := ⟨0, 0, 0, false, []⟩

/-- The tags of `WriteEvent`. -/
def WriteEvent.fields : List (Json.Field WriteEvent) :=
  [ Json.int64Field (ascii "tid") fun x w => { w with tid := x },
    Json.int64Field (ascii "ret") fun x w => { w with ret := x },
    Json.int64Field (ascii "captured") fun x w => { w with captured := x },
    Json.boolField (ascii "is_writev") fun b w => { w with isWritev := b },
    Json.stringField (ascii "data_b64") fun s w => { w with dataB64 := s } ]

/-- `WriteEvent.Data`. -/
def WriteEvent.data (w : WriteEvent) : Bytes := Base64.decodeString w.dataB64

/-- `envelope`. -/
structure Envelope where
  type : Bytes
  message : Bytes
  ok : Bool
  freed : Int
  totalBytes : Int
  count : Int
  deriving DecidableEq, Repr

def Envelope.zero : Envelope := ⟨[], [], false, 0, 0, 0⟩

/-- The tags of `envelope`. -/
def Envelope.fields : List (Json.Field Envelope) :=
  [ Json.stringField (ascii "type") fun s e => { e with type := s },
    Json.stringField (ascii "message") fun s e => { e with message := s },
    Json.boolField (ascii "ok") fun b e => { e with ok := b },
    Json.int64Field (ascii "freed") fun x e => { e with freed := x },
    Json.int64Field (ascii "total_bytes") fun x e => { e with totalBytes := x },
    Json.int64Field (ascii "count") fun x e => { e with count := x } ]

/-- `json.Unmarshal` of a line into a zero value. -/
def unmarshalInto {σ : Type} (fields : List (Json.Field σ)) (zero : σ) (line : Bytes) : Option σ :=
  (Json.unmarshal line).bind (Json.decodeStruct fields zero)

/-- The errors the client constructs. -/
inductive ClientError where
  /-- `connection closed unexpectedly` -/
  | closed
  /-- `malformed response from daemon` -/
  | malformed
  /-- `connection closed unexpectedly during SCAN` -/
  | closedDuringScan
  /-- `malformed entry from daemon` -/
  | malformedEntry
  /-- `malformed write event from daemon` -/
  | malformedWrite
  /-- the message of an error reply -/
  | daemon (message : Bytes)
  /-- `unexpected response type …` -/
  | unexpected (type : Bytes)
  deriving DecidableEq, Repr

/-! ## Reading lines -/

/-- `ReadString('\n')`: the text up to and including the newline, or everything that was left and an
    error; then what remains. -/
def readString (s : Bytes) : Bytes × Bool × Bytes :=
  match s.dropWhile (· != 0x0a) with
  | [] => (s, true, [])
  | nl :: rest => (s.takeWhile (· != 0x0a) ++ [nl], false, rest)

/-- `strings.TrimRight(line, "\r\n")`. -/
def trimRight (line : Bytes) : Bytes := (line.reverse.dropWhile fun b => b == 0x0d || b == 0x0a).reverse

/-- `readEnvelope`, and what remains of the connection. -/
def readEnvelope (s : Bytes) : Except ClientError (Bytes × Envelope) × Bytes :=
  let (line, err, rest) := readString s
  if err && line.isEmpty then (.error .closed, rest)
  else
    let line := trimRight line
    match unmarshalInto Envelope.fields Envelope.zero line with
    | none => (.error .malformed, rest)
    | some env => (.ok (line, env), rest)

/-! ## The readers -/

/-- The loop of `Client.Scan`; every pass but a failing one takes at least a byte, so the length of the
    stream bounds it. -/
def scanLoop : Nat → Bytes → List HiddenEntry → Except ClientError (List HiddenEntry × Int)
  | 0, _, _ => .error .closedDuringScan
  | fuel + 1, s, entries =>
    match readEnvelope s with
    | (.error _, _) => .error .closedDuringScan
    | (.ok (line, env), rest) =>
      if env.type = ascii "entry" then
        match unmarshalInto HiddenEntry.fields HiddenEntry.zero line with
        | none => .error .malformedEntry
        | some e => scanLoop fuel rest (entries ++ [e])
      else if env.type = ascii "end" then .ok (entries, env.totalBytes)
      else if env.type = ascii "error" then .error (.daemon env.message)
      else .error (.unexpected env.type)

/-- `Client.Scan`, from the reply on. -/
def scan (s : Bytes) : Except ClientError (List HiddenEntry × Int) := scanLoop (s.length + 1) s []

/-- `Client.Stats`, from the reply on. -/
def stats (s : Bytes) : Except ClientError (Int × Int) :=
  match (readEnvelope s).1 with
  | .error e => .error e
  | .ok (_, env) =>
    if env.type = ascii "error" then .error (.daemon env.message)
    else if env.type = ascii "stats" then .ok (env.count, env.totalBytes)
    else .error (.unexpected env.type)

/-- `simpleCommand`, from the reply on. -/
def simpleCommand (s : Bytes) : Except ClientError Envelope :=
  match (readEnvelope s).1 with
  | .error e => .error e
  | .ok (_, env) => if env.type = ascii "error" then .error (.daemon env.message) else .ok env

/-- The loop of `StreamSession.Next`: an event, a clean end (`none`) or an error, and the rest of the
    stream. -/
def nextLoop : Nat → Bytes → Except ClientError (Option WriteEvent) × Bytes
  | 0, s => (.ok none, s)
  | fuel + 1, s =>
    match readEnvelope s with
    | (.error _, rest) => (.ok none, rest)
    | (.ok (line, env), rest) =>
      if env.type = ascii "write" then
        match unmarshalInto WriteEvent.fields WriteEvent.zero line with
        | none => (.error .malformedWrite, rest)
        | some w => (.ok (some w), rest)
      else if env.type = ascii "stream_end" then (.ok none, rest)
      else if env.type = ascii "error" then (.error (.daemon env.message), rest)
      else nextLoop fuel rest

/-- `StreamSession.Next`. -/
def next (s : Bytes) : Except ClientError (Option WriteEvent) × Bytes := nextLoop (s.length + 1) s

end Client
end Hsed
