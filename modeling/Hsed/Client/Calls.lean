import Hsed.Client.Client
import Hsed.Client.Requests

/-!
# `Client.Calls` — the methods that read one line (`client.go`)

`Ping`, `Stats`, `Truncate`, `Hup` and `Kill` write their request, read one envelope off the connection and
make a result of it. A `Call` is one of them with its arguments.
-/

namespace Hsed
namespace Client

open CLib

/-- `DefaultSocketPath`; `hsedSocket` is the environment variable, empty when it is not set. -/
def defaultSocketPath (hsedSocket : Bytes) (euid : Nat) : Bytes :=
  if hsedSocket ≠ [] then hsedSocket
  else if euid = 0 then ascii "/run/hsed.sock"
  else ascii "/tmp/hsed-" ++ decNat euid ++ ascii ".sock"

/-- `New`: the path the client connects to. -/
def newSocketPath (socketPath hsedSocket : Bytes) (euid : Nat) : Bytes :=
  if socketPath = [] then defaultSocketPath hsedSocket euid else socketPath

/-- `Ping`, from the reply on. -/
def ping (s : Bytes) : Except ClientError Unit :=
  match (readEnvelope s).1 with
  | .error e => .error e
  | .ok (_, env) => if env.type ≠ ascii "pong" then .error (.unexpected env.type) else .ok ()

/-- `Truncate`, from the reply on. -/
def truncate (s : Bytes) : Except ClientError Int :=
  match simpleCommand s with
  | .error e => .error e
  | .ok env => .ok env.freed

/-- `Hup` and `Kill`, from the reply on. -/
def signal (s : Bytes) : Except ClientError Unit :=
  match simpleCommand s with
  | .error e => .error e
  | .ok _ => .ok ()

inductive Call where
  | ping
  | stats (minSize uidFilter : Int)
  | truncate (pid fd : Int)
  | hup (pid : Int)
  | kill (pid : Int)
  deriving DecidableEq, Repr

/-- What a call returns when it returns no error. -/
inductive Returned where
  | done
  | counted (count totalBytes : Int)
  | freed (bytes : Int)
  deriving DecidableEq, Repr

/-- The request, without its newline. -/
def Call.line : Call → Bytes
  | .ping => ascii "PING"
  | .stats minSize uidFilter => statsRequest minSize uidFilter
  | .truncate pid fd => Action.truncate.request pid fd
  | .hup pid => Action.hup.request pid 0
  | .kill pid => Action.kill.request pid 0

/-- The method, from the reply on. -/
def Call.read : Call → Bytes → Except ClientError Returned
  | .ping, s => (Client.ping s).map fun _ => .done
  | .stats _ _, s => (Client.stats s).map fun r => .counted r.1 r.2
  | .truncate _ _, s => (Client.truncate s).map .freed
  | .hup _, s => (signal s).map fun _ => .done
  | .kill _, s => (signal s).map fun _ => .done

/-- What the method makes of the envelope it read. -/
def Call.judge (call : Call) (env : Envelope) : Except ClientError Returned :=
  match call with
  | .ping => if env.type ≠ ascii "pong" then .error (.unexpected env.type) else .ok .done
  | .stats _ _ =>
    if env.type = ascii "error" then .error (.daemon env.message)
    else if env.type = ascii "stats" then .ok (.counted env.count env.totalBytes)
    else .error (.unexpected env.type)
  | .truncate _ _ => if env.type = ascii "error" then .error (.daemon env.message) else .ok (.freed env.freed)
  | .hup _ => if env.type = ascii "error" then .error (.daemon env.message) else .ok .done
  | .kill _ => if env.type = ascii "error" then .error (.daemon env.message) else .ok .done

theorem simpleCommand_eq (s : Bytes) :
    simpleCommand s = (readEnvelope s).1.bind fun p =>
      if p.2.type = ascii "error" then .error (.daemon p.2.message) else .ok p.2 := by
  rw [simpleCommand]
  cases (readEnvelope s).1 <;> rfl

theorem signal_eq (s : Bytes) :
    (signal s).map (fun _ => Returned.done) = (readEnvelope s).1.bind fun p =>
      if p.2.type = ascii "error" then .error (.daemon p.2.message) else .ok .done := by
  rw [signal, simpleCommand_eq]
  cases (readEnvelope s).1 with
  | error e => rfl
  | ok p =>
      simp only [Except.bind]
      by_cases htype : p.2.type = ascii "error"
      · rw [if_pos htype, if_pos htype]; rfl
      · rw [if_neg htype, if_neg htype]; rfl

/-- Every method reads one envelope, and goes by that alone. -/
theorem Call.read_eq (call : Call) (s : Bytes) :
    call.read s = (readEnvelope s).1.bind fun p => call.judge p.2 := by
  cases call with
  | ping =>
      rw [Call.read, Client.ping]
      cases (readEnvelope s).1 with
      | error e => rfl
      | ok p =>
          simp only [Except.bind, Call.judge]
          split <;> rfl
  | stats minSize uidFilter =>
      rw [Call.read, Client.stats]
      cases (readEnvelope s).1 with
      | error e => rfl
      | ok p =>
          simp only [Except.bind, Call.judge]
          split
          · rfl
          · split <;> rfl
  | truncate pid fd =>
      rw [Call.read, Client.truncate, simpleCommand_eq]
      cases (readEnvelope s).1 with
      | error e => rfl
      | ok p =>
          simp only [Except.bind, Call.judge]
          by_cases htype : p.2.type = ascii "error"
          · rw [if_pos htype, if_pos htype]; rfl
          · rw [if_neg htype, if_neg htype]; rfl
  | hup pid => exact signal_eq s
  | kill pid => exact signal_eq s

/-- There are two ways to read no envelope. -/
theorem readEnvelope_error {s : Bytes} {e : ClientError} (h : (readEnvelope s).1 = .error e) :
    e = .closed ∨ e = .malformed := by
  simp only [readEnvelope] at h
  split at h
  · cases h
    exact .inl rfl
  · split at h
    · cases h
      exact .inr rfl
    · cases h

end Client
end Hsed
