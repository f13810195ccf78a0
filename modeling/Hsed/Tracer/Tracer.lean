import Hsed.Lib.CLib

/-!
# `Tracer.Tracer` — the thread table and one pass of the wait loop (`tracer.c`)

`findOrAddTid` / `removeTid` are the table `hsed_trace_fd` keeps of the threads it steps, `onReport` the
body of its loop for one status that `waitpid(-1, …)` returned: the new table, the `ptrace` requests it
makes, the `write_cb` calls, and whether it returned. What the kernel answers during the pass
(`PTRACE_GETREGS`, `PTRACE_GETEVENTMSG`, `process_vm_readv`) is an `Answers` record.

The loops around it (seizing, waiting, detaching) are transition systems and stand with the results
about them.
-/

namespace Hsed
namespace Tracer

open CLib

def maxCaptureHardLimit : Nat := 65536
def maxTrackedTids : Nat := 512
def maxWritevIovecs : Nat := 16

/-- The clamp at the top of `hsed_trace_fd`. -/
def clampCapture (maxCapture : Nat) : Nat :=
  let m := if maxCapture = 0 then 200 else maxCapture
  if maxCaptureHardLimit < m then maxCaptureHardLimit else m

/-! ## The table -/

/-- `tid_state_t`. -/
structure TidState where
  tid : Int
  inSyscall : Bool
  capturing : Bool
  pendingIsWritev : Bool
  pendingBufAddr : Nat
  pendingIovcnt : Nat
  deriving DecidableEq, Repr

/-- A fresh slot: `memset` to zero, then the tid. -/
def TidState.fresh (tid : Int) : TidState := ⟨tid, false, false, false, 0, 0⟩

/-- The slot of a tid. -/
def slotOf (tids : List TidState) (tid : Int) : Option Nat := tids.findIdx? fun ts => ts.tid = tid

/-- `find_or_add_tid`: the table, and the slot with `was_new`, or `none` when the table is full. -/
def findOrAddTid (tids : List TidState) (tid : Int) : List TidState × Option (Nat × Bool) :=
  match slotOf tids tid with
  | some i => (tids, some (i, false))
  | none =>
    if maxTrackedTids ≤ tids.length then (tids, none)
    else (tids ++ [TidState.fresh tid], some (tids.length, true))

/-- `remove_tid`: the last slot moves into the freed one. -/
def removeTid (tids : List TidState) (tid : Int) : List TidState :=
  match slotOf tids tid with
  | none => tids
  | some i =>
    match tids.getLast? with
    | none => tids
    | some last => (tids.set i last).dropLast

/-- The end of a pass of the seize loop, for a thread that was seized, interrupted and seen stopped;
    `resumed` is whether `PTRACE_SYSCALL` then succeeded. -/
def seizeTid (tids : List TidState) (tid : Int) (resumed : Bool) : List TidState :=
  match findOrAddTid tids tid with
  | (tids, none) => tids
  | (tids, some _) => if resumed then tids else removeTid tids tid

/-! ## Registers and memory of a stopped thread -/

/-- What the six accessors read out of the register set. -/
structure Regs where
  syscallNr : Int
  arg1 : Int
  arg2 : Nat
  arg3 : Nat
  ret : Int
  deriving DecidableEq, Repr

/-- The three system call numbers the tracer looks for (`SYS_write`, …); they differ between
    architectures. -/
structure Sysno where
  write : Int
  pwrite64 : Int
  writev : Int

/-- `read_remote`: up to `len` bytes at an address, `none` on error. -/
abbrev Memory := Nat → Nat → Option Bytes

/-- A little-endian 64-bit word. -/
def le64 (bs : Bytes) : Nat := bs.foldr (fun b acc => b.toNat + 256 * acc) 0

/-- The first `n` records of an iovec array read as bytes. -/
def parseIovs : Nat → Bytes → List (Nat × Nat)
  | 0, _ => []
  | n + 1, bs => (le64 (bs.take 8), le64 ((bs.drop 8).take 8)) :: parseIovs n (bs.drop 16)

/-- The segment loop of `capture_writev`. -/
def captureSegments (mem : Memory) (maxCapture : Nat) : List (Nat × Nat) → Bytes → Bytes
  | [], capture => capture
  | (base, len) :: iovs, capture =>
    if capture.length < maxCapture then
      let want := min len (maxCapture - capture.length)
      if want = 0 then captureSegments mem maxCapture iovs capture
      else captureSegments mem maxCapture iovs (capture ++ ((mem base want).getD []).take want)
    else capture

/-- `capture_writev`. -/
def captureWritev (mem : Memory) (iovAddr iovcnt maxCapture : Nat) : Bytes :=
  if iovcnt = 0 then []
  else
    let iovcnt := if maxWritevIovecs < iovcnt then maxWritevIovecs else iovcnt
    match mem iovAddr (iovcnt * 16) with
    | none => []
    | some bs =>
      let bs := bs.take (iovcnt * 16)
      captureSegments mem maxCapture (parseIovs (bs.length / 16) bs) []

/-- The buffer handed to `write_cb` at the exit stop. -/
def captured (mem : Memory) (maxCapture : Nat) (isWritev : Bool) (bufAddr iovcnt : Nat) (ret : Int) : Bytes :=
  if 0 < ret then
    if isWritev then captureWritev mem bufAddr iovcnt maxCapture
    else
      let want := if ret.toNat < maxCapture then ret.toNat else maxCapture
      ((mem bufAddr want).getD []).take want
  else []

/-! ## One pass of the wait loop -/

/-- A wait status. A stop carries `WSTOPSIG` and the event in its upper bits. -/
inductive Status where
  | exited
  | signaled
  | stopped (sig event : Nat)
  | continued
  deriving DecidableEq, Repr

def sigtrap : Nat := 5
def sigstop : Nat := 19
def ptraceEventClone : Nat := 3

/-- The stop signal of a syscall stop under `PTRACE_O_TRACESYSGOOD`. -/
def syscallStop : Nat := 133

/-- What the kernel answers about the reported thread. -/
structure Answers where
  regs : Option Regs
  eventMsg : Option Int
  mem : Memory

/-- A `ptrace` request of the wait loop. -/
inductive Req where
  | cont (tid : Int)
  | syscall (tid : Int) (sig : Nat)
  deriving DecidableEq, Repr

def Req.tid : Req → Int
  | .cont t => t
  | .syscall t _ => t

/-- One `write_cb` call. -/
structure WriteCall where
  tid : Int
  ret : Int
  buf : Bytes
  isWritev : Bool
  deriving DecidableEq, Repr

/-- What a pass does. -/
structure Pass where
  tids : List TidState
  reqs : List Req
  calls : List WriteCall
  returned : Bool

/-- Is it a write on the traced descriptor? -/
def targets (sys : Sysno) (fd : Int) (regs : Regs) : Bool :=
  (regs.syscallNr == sys.write || regs.syscallNr == sys.pwrite64 || regs.syscallNr == sys.writev) &&
    regs.arg1 == fd

/-- The slot after an enter stop. -/
def enterStop (sys : Sysno) (fd : Int) (regs : Option Regs) (ts : TidState) : TidState :=
  match regs with
  | none => { ts with capturing := false, inSyscall := true }
  | some regs =>
    if targets sys fd regs then
      let isWritev := regs.syscallNr == sys.writev
      { ts with
        capturing := true
        pendingIsWritev := isWritev
        pendingBufAddr := regs.arg2
        pendingIovcnt := if isWritev then regs.arg3 else 0
        inSyscall := true }
    else { ts with capturing := false, inSyscall := true }

/-- The `write_cb` calls of an exit stop. -/
def exitCalls (maxCapture : Nat) (ans : Answers) (tid : Int) (ts : TidState) : List WriteCall :=
  if ts.capturing then
    match ans.regs with
    | none => []
    | some regs =>
      [⟨tid, regs.ret, captured ans.mem maxCapture ts.pendingIsWritev ts.pendingBufAddr ts.pendingIovcnt regs.ret,
        ts.pendingIsWritev⟩]
  else []

/-- The slot after an exit stop. -/
def exitStop (ts : TidState) : TidState := { ts with inSyscall := false, capturing := false }

/-- The branches on `stopsig` for a thread that was in the table already, at slot `i`. -/
def onStop (sys : Sysno) (fd : Int) (maxCapture : Nat) (tids : List TidState) (i : Nat) (tid : Int)
    (sig event : Nat) (ans : Answers) : Pass :=
  match tids[i]? with
  | none => ⟨tids, [], [], false⟩
  | some ts =>
    if sig = syscallStop then
      if !ts.inSyscall then
        ⟨tids.set i (enterStop sys fd ans.regs ts), [.syscall tid 0], [], false⟩
      else ⟨tids.set i (exitStop ts), [.syscall tid 0], exitCalls maxCapture ans tid ts, false⟩
    else if sig = sigtrap then
      let tids :=
        if event = ptraceEventClone then
          match ans.eventMsg with
          | none => tids
          | some newTid => (findOrAddTid tids (toInt32 newTid)).1
        else tids
      ⟨tids, [.syscall tid 0], [], false⟩
    else if sig = sigstop then ⟨tids, [.syscall tid 0], [], false⟩
    else ⟨tids, [.syscall tid sig], [], false⟩

/-- The loop body for a status of thread `tid`. -/
def onReport (sys : Sysno) (fd : Int) (maxCapture : Nat) (tids : List TidState) (tid : Int)
    (status : Status) (ans : Answers) : Pass :=
  match findOrAddTid tids tid with
  | (tids, none) => ⟨tids, [.cont tid], [], false⟩
  | (tids, some (i, wasNew)) =>
    match status with
    | .exited => ⟨removeTid tids tid, [], [], (removeTid tids tid).isEmpty⟩
    | .signaled => ⟨removeTid tids tid, [], [], (removeTid tids tid).isEmpty⟩
    | .continued => ⟨tids, [], [], false⟩
    | .stopped sig event =>
      if wasNew then ⟨tids, [.syscall tid 0], [], false⟩
      else onStop sys fd maxCapture tids i tid sig event ans

end Tracer
end Hsed
