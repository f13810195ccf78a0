import Hsed.Tracer.Kernel

/-!
# `Tracer.Session` — `hsed_trace_fd` among the threads it traces

The whole of `hsed_trace_fd` as a program: the seize loop, the wait loop (one pass a step) and the detach loop,
with every return. Outside the wait loop a step is one `ptrace` request or one `waitpid`, with the little that hangs
on its result: seizing a thread is one step, although `PTRACE_SEIZE` is tried up to five times; a step that fails
takes in the `PTRACE_DETACH` that follows; `discover_tids`, `malloc` and `attached_cb` are part of the step they
stand in. The callbacks are taken to return. `System` puts any number of calls
(`ι`, one for each connection that streams) beside the threads of the targets; a `step` is a move of a
target or the next step of a call.

`handled` is a ghost: it records every status a call took from `waitpid`, with the tracer of the thread it
was about.
-/

namespace Hsed
namespace Tracer

/-! ## One call of `hsed_trace_fd` -/

/-- Where a call stands: before which system call, and with which threads still to go. -/
inductive Pc where
  | discover
  | seize (todo : List Int)
  | interrupt (t : Int) (todo : List Int)
  | await (t : Int) (todo : List Int)
  | resume (t : Int) (todo : List Int)
  | attached
  | loop
  | detach (todo : List Int)
  | reap (t : Int) (todo : List Int)
  | drop (t : Int) (todo : List Int)
  | returned
  deriving DecidableEq, Repr

structure Session where
  pc : Pc
  tids : List TidState

/-- A status that a call took from `waitpid`. -/
structure Handled (ι : Type) where
  session : ι
  tid : Int
  tracer : Option ι
  calls : List WriteCall

/-- What a step depends on besides the threads. -/
inductive Choice where
  /-- `discover_tids`, empty when it fails. -/
  | found (tids : List Int)
  /-- The next call; `granted` is the answer where it is not up to the threads: the permission to seize,
      the memory for the capture buffer. -/
  | go (granted : Bool)
  /-- `waitpid(-1, …)` has nothing to report, and `poll_cb` answers. -/
  | idle (again : Bool)
  | failed (echild : Bool)
  /-- `waitpid(-1, …)` reports a thread. -/
  | report (tid : Int) (mem : Memory)

/-- The session's call, its threads afterwards, and what it took from `waitpid`. -/
structure Moved (ι : Type) where
  threads : Threads ι
  session : Session
  handled : List (Handled ι)

/-- The parameters of the calls. -/
structure Params (ι : Type) where
  sys : Sysno
  fd : ι → Int
  maxCapture : Nat

section
variable {ι : Type} [DecidableEq ι]

/-- `ptrace(PTRACE_DETACH, …)`, the result ignored. -/
def tryDetach (k : Threads ι) (i : ι) (t : Int) : Threads ι := (ptraceDetach k i t).getD k

/-- The requests of a pass, the results ignored. -/
def request (k : Threads ι) (i : ι) (reqs : List Req) : Threads ι :=
  reqs.foldl (fun k r => (ptraceResume k i r.tid).getD k) k

/-- The steps outside the wait loop. -/
def goNext (k : Threads ι) (i : ι) (tids : List TidState) (granted : Bool) : Pc → Option (Moved ι)
  | .seize [] => some ⟨k, ⟨.attached, tids⟩, []⟩
  | .seize (t :: todo) =>
    match if granted then ptraceSeize k i t else none with
    | none => some ⟨k, ⟨.seize todo, tids⟩, []⟩
    | some k => some ⟨k, ⟨.interrupt t todo, tids⟩, []⟩
  | .interrupt t todo =>
    if ptraceInterrupt k i t then some ⟨k, ⟨.await t todo, tids⟩, []⟩
    else some ⟨tryDetach k i t, ⟨.seize todo, tids⟩, []⟩
  | .await t todo =>
    match waitTid k i t with
    | .blocks => none
    | .error => some ⟨tryDetach k i t, ⟨.seize todo, tids⟩, []⟩
    | .got ev tracer k =>
      if ev.isStop then some ⟨k, ⟨.resume t todo, tids⟩, [⟨i, t, tracer, []⟩]⟩
      else some ⟨tryDetach k i t, ⟨.seize todo, tids⟩, [⟨i, t, tracer, []⟩]⟩
  | .resume t todo =>
    match (findOrAddTid tids t).2 with
    | none => some ⟨tryDetach k i t, ⟨.seize todo, tids⟩, []⟩
    | some _ =>
      match ptraceResume k i t with
      | some k => some ⟨k, ⟨.seize todo, seizeTid tids t true⟩, []⟩
      | none => some ⟨tryDetach k i t, ⟨.seize todo, seizeTid tids t false⟩, []⟩
  | .attached =>
    if tids.isEmpty then some ⟨k, ⟨.returned, tids⟩, []⟩
    else if granted then some ⟨k, ⟨.loop, tids⟩, []⟩
    else some ⟨k, ⟨.detach (tids.map (·.tid)), tids⟩, []⟩
  | .detach [] => some ⟨k, ⟨.returned, tids⟩, []⟩
  | .detach (t :: todo) =>
    some ⟨k, ⟨if ptraceInterrupt k i t then .reap t todo else .drop t todo, tids⟩, []⟩
  | .reap t todo =>
    match waitTid k i t with
    | .blocks => none
    | .error => some ⟨k, ⟨.drop t todo, tids⟩, []⟩
    | .got _ tracer k => some ⟨k, ⟨.drop t todo, tids⟩, [⟨i, t, tracer, []⟩]⟩
  | .drop t todo => some ⟨tryDetach k i t, ⟨.detach todo, tids⟩, []⟩
  | _ => none

/-- One pass of the wait loop for a status of thread `t`. Only its tracer gets answers about it. -/
def reportNext (p : Params ι) (k : Threads ι) (i : ι) (tids : List TidState) (t : Int) (mem : Memory) :
    Option (Moved ι) :=
  match waitTid k i t with
  | .got ev tracer k =>
    let ans := if tracer = some i then ev.answers mem else ⟨none, none, mem⟩
    let pass := onReport p.sys (p.fd i) p.maxCapture tids t ev.status ans
    some ⟨request k i pass.reqs, ⟨if pass.returned then .returned else .loop, pass.tids⟩,
      [⟨i, t, tracer, pass.calls⟩]⟩
  | _ => none

def sessionNext (p : Params ι) (k : Threads ι) (i : ι) (s : Session) : Choice → Option (Moved ι)
  | .go granted => goNext k i s.tids granted s.pc
  | .found tids =>
    match s.pc with
    | .discover =>
      some ⟨k, ⟨if tids.isEmpty then .returned else .seize (tids.take maxTrackedTids), s.tids⟩, []⟩
    | _ => none
  | .idle again =>
    match s.pc with
    | .loop => some ⟨k, ⟨if again then .loop else .detach (s.tids.map (·.tid)), s.tids⟩, []⟩
    | _ => none
  | .failed echild =>
    match s.pc with
    | .loop => some ⟨k, ⟨if echild then .returned else .loop, s.tids⟩, []⟩
    | _ => none
  | .report t mem =>
    match s.pc with
    | .loop => reportNext p k i s.tids t mem
    | _ => none

/-! ## The calls and the targets together -/

structure System (ι : Type) where
  threads : Threads ι
  sessions : ι → Session
  handled : List (Handled ι)

inductive Act (ι : Type) where
  | target (a : KernelAct)
  | session (i : ι) (c : Choice)

def next (p : Params ι) (s : System ι) : Act ι → Option (System ι)
  | .target a => (kernelNext s.threads a).map fun k => { s with threads := k }
  | .session i c =>
    (sessionNext p s.threads i (s.sessions i) c).map fun m =>
      ⟨m.threads, Function.update s.sessions i m.session, s.handled ++ m.handled⟩

/-- `waitpid(-1, …, WNOHANG)` returns 0 only when there is nothing to report, and `ECHILD` only when the
    daemon has no tracee at all. -/
def Enabled (s : System ι) : Act ι → Prop
  | .session _ (.idle _) => ∀ t th, s.threads t = some th → ¬ th.Reportable
  | .session _ (.failed true) => ∀ t th, s.threads t = some th → th.tracer = none
  | _ => True

def step (p : Params ι) (s : System ι) (a : Act ι) (s' : System ι) : Prop :=
  Enabled s a ∧ next p s a = some s'

/-- The calls at their start, beside threads that nobody traces. -/
def System.start (alive : Int → Bool) : System ι :=
  ⟨fun t => if alive t then some ⟨none, .running, false⟩ else none, fun _ => ⟨.discover, []⟩, []⟩

end

end Tracer
end Hsed
