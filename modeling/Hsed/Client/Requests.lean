import Hsed.Lib.CLib

/-!
# `Client.Requests` — the request lines of the TUI's client (`client.go`)

Each method opens its own connection and writes one line, formatted with `%d` from 64-bit integers.
-/

namespace Hsed
namespace Client

open CLib

/-- `UIDAny`. -/
def uidAny : Int := -1

/-- An argument: a blank and the number. -/
def argument (x : Int) : Bytes := [0x20] ++ decInt x

/-- The filter by owner is left out for `UIDAny`. -/
def uidArgument (uidFilter : Int) : Bytes := if uidFilter ≠ uidAny then argument uidFilter else []

/-- The request of `Client.Scan`. -/
def scanRequest (minSize onlyPid uidFilter : Int) : Bytes :=
  ascii "SCAN" ++ argument minSize ++ argument onlyPid ++ uidArgument uidFilter

/-- The request of `Client.Stats`. -/
def statsRequest (minSize uidFilter : Int) : Bytes := ascii "STATS" ++ argument minSize ++ uidArgument uidFilter

/-- The methods that act on an entry. -/
inductive Action where
  | truncate
  | hup
  | kill
  | openStream
  deriving DecidableEq, Repr

/-- The line `Truncate`, `Hup`, `Kill` or `OpenStream` writes, without its newline. -/
def Action.request (pid fd : Int) : Action → Bytes
  | .truncate => ascii "TRUNCATE" ++ argument pid ++ argument fd
  | .hup => ascii "HUP" ++ argument pid
  | .kill => ascii "KILL" ++ argument pid
  | .openStream => ascii "STREAM" ++ argument pid ++ argument fd

end Client
end Hsed
