import Mathlib.Logic.Function.Basic
import Hsed.Tracer.Tracer

/-!
# `Tracer.Kernel` — the side of `ptrace` the tracer does not see

The threads of the targets, as far as `ptrace` and `waitpid` are concerned: to whom a thread is attached,
whether it is in a ptrace stop, and whether that stop has been reported. `ι` names the daemon's
connection threads, each of which may be a tracer. The requests are functions that fail as the system
calls do:

* `PTRACE_SEIZE` takes a live thread nobody traces;
* every other request needs the caller to be the thread's tracer, and all but `PTRACE_INTERRUPT` need the
  thread to be in a ptrace stop;
* `waitpid` without `__WNOTHREAD` reports the tracees of **every** thread of the daemon, each status once.
-/

namespace Hsed
namespace Tracer

/-! ## Events -/

/-- What happened to a thread that `waitpid` reports. -/
inductive Event where
  /-- It stopped on the way into a system call. -/
  | enter (regs : Regs)
  /-- It stopped on the way out. -/
  | leave (regs : Regs)
  /-- Any other stop: a signal delivery, a group stop, a clone or another ptrace event. -/
  | stop (sig event : Nat) (msg : Option Int)
  | gone (killed : Bool)
  | continued

/-- The status the tracer gets to see. -/
def Event.status : Event → Status
  | .enter _ => .stopped syscallStop 0
  | .leave _ => .stopped syscallStop 0
  | .stop sig event _ => .stopped sig event
  | .gone killed => if killed then .signaled else .exited
  | .continued => .continued

/-- The answers it gets; `get_regs` succeeds at a syscall stop. -/
def Event.answers (mem : Memory) : Event → Answers
  | .enter regs => ⟨some regs, none, mem⟩
  | .leave regs => ⟨some regs, none, mem⟩
  | .stop _ _ msg => ⟨none, msg, mem⟩
  | _ => ⟨none, none, mem⟩

/-! ## Threads -/

def Event.isStop : Event → Bool
  | .enter _ => true
  | .leave _ => true
  | .stop _ _ _ => true
  | _ => false

/-- An event that puts a thread into a ptrace stop. -/
abbrev StopEvent := { ev : Event // ev.isStop = true }

/-- `seen` is the session whose `waitpid` has reported the stop. -/
inductive ThreadState (ι : Type) where
  | running
  | stopped (ev : StopEvent) (seen : Option ι)
  | zombie (killed : Bool)

/-- A thread. `fresh`: attached by `PTRACE_O_TRACECLONE`, and nothing reported about it yet. -/
structure Thread (ι : Type) where
  tracer : Option ι
  state : ThreadState ι
  fresh : Bool

/-- The threads that exist, by tid. -/
abbrev Threads (ι : Type) := Int → Option (Thread ι)

section
variable {ι : Type}

def Thread.live (th : Thread ι) : Bool :=
  match th.state with
  | .zombie _ => false
  | _ => true

/-- What `waitpid` has to say about a tracee. -/
def Thread.report (th : Thread ι) : Option Event :=
  match th.state with
  | .stopped ev none => some ev.val
  | .zombie killed => some (.gone killed)
  | _ => none

/-- May `waitpid(-1, …)` in some thread of the daemon return this one? -/
def Thread.Reportable (th : Thread ι) : Prop := th.tracer ≠ none ∧ th.report ≠ none

/-! ## What targets do -/

inductive KernelAct where
  /-- A thread that nobody traces appears. -/
  | spawn (tid : Int)
  /-- A tracee enters a ptrace stop. -/
  | stop (tid : Int) (ev : StopEvent)
  /-- A tracee starts a thread, which is attached like itself. -/
  | clone (tid child : Int)
  | die (tid : Int) (killed : Bool)

/-- One move of a target. There is no `execve` among them: a thread other than the leader that calls it takes over
    the leader's tid, and its own disappears without a report. -/
def kernelNext (k : Threads ι) : KernelAct → Option (Threads ι)
  | .spawn t =>
    match k t with
    | none => some (Function.update k t (some ⟨none, .running, false⟩))
    | some _ => none
  | .stop t ev =>
    match k t with
    | some ⟨some i, .running, fresh⟩ => some (Function.update k t (some ⟨some i, .stopped ev none, fresh⟩))
    | _ => none
  | .clone t u =>
    match k t, k u with
    | some ⟨some i, .running, fresh⟩, none =>
      let ev : StopEvent := ⟨.stop sigtrap ptraceEventClone (some u), rfl⟩
      some (Function.update (Function.update k u (some ⟨some i, .running, true⟩)) t
        (some ⟨some i, .stopped ev none, fresh⟩))
    | _, _ => none
  | .die t killed =>
    match k t with
    | none => none
    | some th =>
      if th.live then
        -- a tracee stays until its tracer has been told; others go unnoticed here
        match th.tracer with
        | none => some (Function.update k t none)
        | some i => some (Function.update k t (some ⟨some i, .zombie killed, th.fresh⟩))
      else none

/-! ## Requests -/

variable [DecidableEq ι]

/-- Is the thread a live tracee of the caller? -/
def attached (k : Threads ι) (i : ι) (t : Int) : Bool :=
  match k t with
  | none => false
  | some th => th.live && (th.tracer == some i)

/-- `PTRACE_SEIZE`. -/
def ptraceSeize (k : Threads ι) (i : ι) (t : Int) : Option (Threads ι) :=
  match k t with
  | some ⟨none, .running, _⟩ => some (Function.update k t (some ⟨some i, .running, false⟩))
  | _ => none

/-- `PTRACE_INTERRUPT`: the stop it causes comes later. -/
def ptraceInterrupt (k : Threads ι) (i : ι) (t : Int) : Bool := attached k i t

/-- `PTRACE_SYSCALL` and `PTRACE_CONT`. -/
def ptraceResume (k : Threads ι) (i : ι) (t : Int) : Option (Threads ι) :=
  match k t with
  | some ⟨tracer, .stopped _ _, fresh⟩ =>
    if tracer = some i then some (Function.update k t (some ⟨some i, .running, fresh⟩)) else none
  | _ => none

/-- `PTRACE_DETACH`. -/
def ptraceDetach (k : Threads ι) (i : ι) (t : Int) : Option (Threads ι) :=
  match k t with
  | some ⟨tracer, .stopped _ _, _⟩ =>
    if tracer = some i then some (Function.update k t (some ⟨none, .running, false⟩)) else none
  | _ => none

/-- What `waitpid(t, …)` comes to. -/
inductive Waited (ι : Type) where
  | blocks
  | error
  | got (ev : Event) (tracer : Option ι) (k : Threads ι)

/-- `waitpid` on one thread: a stop is reported once, a death reaps. -/
def waitTid (k : Threads ι) (i : ι) (t : Int) : Waited ι :=
  match k t with
  | some ⟨some j, .stopped ev none, _⟩ =>
    .got ev.val (some j) (Function.update k t (some ⟨some j, .stopped ev (some i), false⟩))
  | some ⟨some j, .zombie killed, _⟩ => .got (.gone killed) (some j) (Function.update k t none)
  | some ⟨some _, _, _⟩ => .blocks
  | _ => .error

end

end Tracer
end Hsed
