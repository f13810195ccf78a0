import Mathlib.Data.Multiset.AddSub
import Mathlib.Data.Multiset.MapFold
import Mathlib.Logic.Function.Basic

/-!
# `Server.Accept` — the accept loop and the threads it starts (`hsed_server_run`, `handle_connection`)

The loop of `hsed_server_run` with one system call a step, beside the connection threads, which run
`handle_connection` on their own: take the descriptor out of `cargs`, free it, serve, close. Descriptors and
blocks are numbers that the kernel and `malloc` hand out again once they are given back, so a second `close` or
`free` would hit somebody else's; here it sets `fault`, and so does a look into a block that is free.
-/

namespace Hsed
namespace Server

/-- Where `hsed_server_run` stands: before which call. -/
inductive AcceptPc where
  | test
  | poll
  | accept
  | alloc (fd : Nat)
  | create (fd block : Nat)
  /-- `malloc` failed: `close(client_fd)` -/
  | refuse (fd : Nat)
  /-- `pthread_create` failed: `close(client_fd)`, then `free(cargs)` -/
  | abandon (fd block : Nat)
  | release (block : Nat)
  | closeListen
  | unlink
  | returned
  deriving DecidableEq, Repr

/-- A connection thread. `fd` in `started` is a ghost: the thread has yet to read it. -/
inductive ConnThread where
  | started (block fd : Nat)
  | unpacked (fd block : Nat)
  | serving (fd : Nat)
  deriving DecidableEq, Repr

/-- The result of `poll`. -/
inductive Polled where
  | ready
  | timeout
  | interrupted
  | failed
  deriving DecidableEq, Repr

/-- A call returns: the handler of a signal, the calls whose result matters, the others of the loop, or the next
    one of a connection thread. -/
inductive AcceptEv where
  | signal
  | test
  | poll (r : Polled)
  | accept (fd : Option Nat)
  | alloc (block : Option Nat)
  | create (ok : Bool)
  | main
  | thread (t : ConnThread)
  deriving DecidableEq, Repr

structure Acceptor where
  pc : AcceptPc
  shutdownFlag : Bool
  listenFd : Nat
  isOpen : Nat → Bool
  /-- the allocated `conn_args_t`, with the `sockfd` in them -/
  heap : Nat → Option Nat
  threads : Multiset ConnThread
  fault : Bool

namespace Acceptor

/-- `close(fd)`. -/
def close (d : Acceptor) (fd : Nat) : Acceptor :=
  if d.isOpen fd then { d with isOpen := Function.update d.isOpen fd false } else { d with fault := true }

/-- `free(block)`. -/
def free (d : Acceptor) (block : Nat) : Acceptor :=
  if (d.heap block).isSome then { d with heap := Function.update d.heap block none } else { d with fault := true }

def goto (d : Acceptor) (pc : AcceptPc) : Acceptor := { d with pc }

/-- A thread moves on, or ends. -/
def advance (d : Acceptor) (t : ConnThread) (t' : Multiset ConnThread) : Acceptor :=
  { d with threads := t' + d.threads.erase t }

/-- The next call of a connection thread; how long it serves is left open. -/
def threadNext (d : Acceptor) : ConnThread → Acceptor
  | .started block fd =>
    match d.heap block with
    | none => { d with fault := true }
    | some sockfd => d.advance (.started block fd) {.unpacked sockfd block}
  | .unpacked fd block => (d.free block).advance (.unpacked fd block) {.serving fd}
  | .serving fd => (d.close fd).advance (.serving fd) 0

/-- The next call of `hsed_server_run`, where `ev` is its result. -/
def mainNext (d : Acceptor) (ev : AcceptEv) : AcceptPc → Option Acceptor
  | .test =>
    match ev with
    | .test => some (d.goto (if d.shutdownFlag then .closeListen else .poll))
    | _ => none
  | .poll =>
    match ev with
    | .poll .failed => some (d.goto .closeListen)
    | .poll .ready => some (d.goto .accept)
    | .poll _ => some (d.goto .test)
    | _ => none
  | .accept =>
    match ev with
    | .accept none => some (d.goto .test)
    -- an unused number
    | .accept (some fd) =>
      if d.isOpen fd then none
      else some { d with isOpen := Function.update d.isOpen fd true, pc := .alloc fd }
    | _ => none
  | .alloc fd =>
    match ev with
    | .alloc none => some (d.goto (.refuse fd))
    | .alloc (some block) =>
      if (d.heap block).isSome then none
      else some { d with heap := Function.update d.heap block (some fd), pc := .create fd block }
    | _ => none
  | .create fd block =>
    match ev with
    | .create true => some { d with threads := .started block fd ::ₘ d.threads, pc := .test }
    | .create false => some (d.goto (.abandon fd block))
    | _ => none
  | .refuse fd => if ev = .main then some ((d.close fd).goto .test) else none
  | .abandon fd block => if ev = .main then some ((d.close fd).goto (.release block)) else none
  | .release block => if ev = .main then some ((d.free block).goto .test) else none
  | .closeListen => if ev = .main then some ((d.close d.listenFd).goto .unlink) else none
  | .unlink => if ev = .main then some (d.goto .returned) else none
  | .returned => none

def next (d : Acceptor) (ev : AcceptEv) : Option Acceptor :=
  match ev with
  | .signal => some { d with shutdownFlag := true }
  | .thread t => if t ∈ d.threads then some (d.threadNext t) else none
  | ev => d.mainNext ev d.pc

/-- `listen` has succeeded, and nobody has connected yet. -/
def start (listenFd : Nat) : Acceptor :=
  ⟨.test, false, listenFd, fun fd => fd == listenFd, fun _ => none, 0, false⟩

def Step (d : Acceptor) (ev : AcceptEv) (d' : Acceptor) : Prop := d.next ev = some d'

end Acceptor

end Server
end Hsed
