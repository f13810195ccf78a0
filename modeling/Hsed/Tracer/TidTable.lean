import Hsed.Lib.Lts
import Hsed.Tracer.Tracer

/-!
# `Tracer.TidTable` — the thread table as an array (`tracer.c`)

`tid_state_t tids[MAX_TRACKED_TIDS]` with its count. The slots from `ntids` on hold what was there before: nothing
that was ever written on the stack of a new call, an old entry after `remove_tid`. `findOrAddTid` and `removeTid`
are the two functions on it, `Use` is a caller that keeps the pointers it was given and writes through them.
-/

namespace Hsed
namespace Tracer

/-- `tids[]` and `ntids`. -/
structure TidTable where
  slots : Nat → TidState
  ntids : Nat

namespace TidTable

/-- `int ntids = 0;` over an array that nothing has initialised. -/
def empty (stack : Nat → TidState) : TidTable := ⟨stack, 0⟩

/-- The loop of both functions: the first slot in use that has the tid. -/
def slotOf (s : TidTable) (tid : Int) : Option Nat := (List.range s.ntids).find? fun i => (s.slots i).tid = tid

/-- `find_or_add_tid`: the table, and the pointer with `was_new`, or `none` for `NULL`. -/
def findOrAddTid (s : TidTable) (tid : Int) : TidTable × Option (Nat × Bool) :=
  match s.slotOf tid with
  | some i => (s, some (i, false))
  | none =>
    if maxTrackedTids ≤ s.ntids then (s, none)
    else (⟨Function.update s.slots s.ntids (TidState.fresh tid), s.ntids + 1⟩, some (s.ntids, true))

/-- `remove_tid`. -/
def removeTid (s : TidTable) (tid : Int) : TidTable :=
  match s.slotOf tid with
  | none => s
  | some i => ⟨Function.update s.slots i (s.slots (s.ntids - 1)), s.ntids - 1⟩

/-- An update through a pointer: every field but the tid. -/
def write (s : TidTable) (i : Nat) (ts : TidState) : TidTable :=
  { s with slots := Function.update s.slots i { ts with tid := (s.slots i).tid } }

end TidTable

/-! ## Using it -/

/-- What a caller does. A write goes through the pointer that `find_or_add_tid` returned for the tid. -/
inductive TidOp where
  | find (tid : Int)
  | remove (tid : Int)
  | write (i : Nat) (tid : Int) (ts : TidState)

namespace TidOp

def tid : TidOp → Int
  | find t => t
  | remove t => t
  | write _ t _ => t

/-- The state an operation writes for a tid. -/
def written (t : Int) : TidOp → Option TidState
  | write _ u ts => if u = t then some { ts with tid := t } else none
  | _ => none

end TidOp

/-- The table, and the pointers that were returned and still point to the entry they were returned for. -/
structure Use where
  table : TidTable
  returned : List (Nat × Int)

namespace Use

def start (stack : Nat → TidState) : Use := ⟨.empty stack, []⟩

def next (s : Use) : TidOp → Option Use
  | .find t =>
    match s.table.findOrAddTid t with
    | (table, none) => some ⟨table, s.returned⟩
    | (table, some (i, _)) => some ⟨table, (i, t) :: s.returned⟩
  | .remove t =>
    match s.table.slotOf t with
    | none => some ⟨s.table.removeTid t, s.returned⟩
    | some i =>
      -- the entry of this slot is gone, that of the last one has moved
      some ⟨s.table.removeTid t, s.returned.filter fun p => p.1 ≠ i ∧ p.1 ≠ s.table.ntids - 1⟩
  | .write i t ts => if (i, t) ∈ s.returned then some ⟨s.table.write i ts, s.returned⟩ else none

def Step (s : Use) (op : TidOp) (s' : Use) : Prop := s.next op = some s'

end Use

end Tracer
end Hsed
