import Hsed.Lib.Lts
import Hsed.Tui.Screens

/-!
# `Tui.App` — the stack of screens and the program around it (`app.go`, `main.go`)

`App.update` is `App.Update`. `Program` is what `bubbletea` runs it in: keys and finished commands put their
messages at the end of one queue, in any order among themselves; the program hands the head of the queue to
`App.Update`, and the commands it returns join those running. A `tea.Batch` is its commands.

The sessions are a table: `OpenStream` adds a row, `Close` marks it. `owner` is a ghost, the `StreamScreen`
whose `Init` asked for the session.
-/

namespace Hsed
namespace Tui

open CLib
open Client (HiddenEntry WriteEvent)

/-- `StreamSession`. -/
structure Session where
  owner : Nat
  pid : Int
  fd : Int
  closed : Bool
  deriving DecidableEq, Repr

/-- `Session.Close`, a second time without effect. -/
def Session.close (s : Session) : Session := { s with closed := true }

/-- `session.Close()` on a pointer that may be nil. -/
def closeSession (session : Option SessionId) (sessions : List Session) : List Session :=
  match session with
  | none => sessions
  | some i => sessions.modify i Session.close

variable {W : Widgets}

/-! ## The stack -/

/-- `App`: its stack is never empty. -/
structure App (W : Widgets) where
  top : Screen W
  below : List (Screen W)
  width : Int
  height : Int

namespace App

/-- The screens, the top one first. -/
def stack (a : App W) : List (Screen W) := a.top :: a.below

/-- `a.stack = a.stack[:len(a.stack)-1]`, unless one screen is left. -/
def drop (a : App W) : App W :=
  match a.below with
  | [] => a
  | s :: below => { a with top := s, below }

/-- What `App.Update` gives, with the session closed on the way. -/
structure Updated (W : Widgets) where
  app : App W
  cmds : List (Cmd W)
  closes : Option SessionId

/-- `a.top().Update(msg)`. -/
def forward (fresh : Nat) (m : Msg W) (a : App W) : Updated W :=
  let u := a.top.update fresh m
  ⟨{ a with top := u.screen }, u.cmds, u.closes⟩

@[simp] theorem forward_top (fresh : Nat) (m : Msg W) (a : App W) :
    (a.forward fresh m).app.top = (a.top.update fresh m).screen := rfl

@[simp] theorem forward_below (fresh : Nat) (m : Msg W) (a : App W) : (a.forward fresh m).app.below = a.below := rfl

@[simp] theorem forward_cmds (fresh : Nat) (m : Msg W) (a : App W) :
    (a.forward fresh m).cmds = (a.top.update fresh m).cmds := rfl

@[simp] theorem forward_closes (fresh : Nat) (m : Msg W) (a : App W) :
    (a.forward fresh m).closes = (a.top.update fresh m).closes := rfl

/-- `App.Update`. -/
def update (fresh : Nat) (m : Msg W) (a : App W) : Updated W :=
  match m with
  | .windowSize width height =>
    ⟨⟨a.top.resize width height, a.below.map (·.resize width height), width, height⟩, [], none⟩
  | .key .ctrlC => ⟨a, [.quit], none⟩
  | .push s =>
    let (top, cmds) := (s.resize a.width a.height).init
    ⟨{ a with top, below := a.top :: a.below }, cmds, none⟩
  | .pop none _ => ⟨a.drop, [], none⟩
  | .pop (some v) _ => a.drop.forward fresh (.result v)
  | m => a.forward fresh m

/-- `CloseAllSessions`. -/
def closeAllSessions (a : App W) (sessions : List Session) : List Session :=
  a.stack.foldl (fun sessions s =>
    match s with
    | .stream s => closeSession s.session sessions
    | _ => sessions) sessions

end App

/-! ## The program -/

structure Program (W : Widgets) where
  app : App W
  running : List (Cmd W)
  queue : List (Msg W)
  sessions : List Session
  /-- the next address for a screen -/
  fresh : Nat
  ended : Bool

/-- What the run of a command may come to. -/
inductive Outcome (W : Widgets) where
  | done
  | scanned (r : Except Bytes (List HiddenEntry × Int))
  | truncated (r : Except Bytes Int)
  | signalled (r : Except Bytes Unit)
  | opened (r : Except Bytes Unit)
  | read (r : Except Bytes (Option WriteEvent))
  | noted (n : W.Note)

/-- The message of a finished command, and the session it opened: `session` is the next row of the table.
    A read from a nil session is a nil dereference, from which nothing comes. -/
def Cmd.finish (session : SessionId) : Cmd W → Outcome W → Option (Msg W × Option Session)
  | .push s, .done => some (.push s, none)
  | .pop, .done => some (.pop none none, none)
  | .popResult v sender, .done => some (.pop (some v) (some sender), none)
  | .quit, .done => some (.quit, none)
  | .tick _, .done => some (.tick, none)
  | .scan _ _ _, .scanned (.error err) => some (.scanErr err, none)
  | .scan _ _ _, .scanned (.ok (entries, total)) => some (.scanResult entries total, none)
  | .truncate e, .truncated r => some (.actionResult (r.map fun freed => .freed freed e.pid e.fd), none)
  | .hup e, .signalled r => some (.actionResult (r.map fun _ => .sighup e.pid), none)
  | .kill e, .signalled r => some (.actionResult (r.map fun _ => .sigkill e.pid), none)
  | .openStream _ _, .opened (.error err) => some (.streamAttachErr err, none)
  | .openStream id e, .opened (.ok _) => some (.streamAttached session, some ⟨id, e.pid, e.fd, false⟩)
  | .readNext (some _), .read (.error err) => some (.streamErr err, none)
  | .readNext (some session), .read (.ok ev) => some (.streamEvent ev session, none)
  | .widget _, .noted n => some (.widget n, none)
  | _, _ => none

/-- What may happen next: a key or a resize arrives, the `i`-th running command finishes, or the head of
    the queue is delivered. -/
inductive Act (W : Widgets) where
  | press (k : Key)
  | resize (width height : Int)
  | finish (i : Nat) (o : Outcome W)
  | deliver

namespace Program

/-- The program after `App.Update` of `m`. -/
def handle (p : Program W) (m : Msg W) (queue : List (Msg W)) : Program W :=
  let u := p.app.update p.fresh m
  { p with app := u.app, running := p.running ++ u.cmds, queue, sessions := closeSession u.closes p.sessions,
           fresh := p.fresh + 1 }

/-- `tea.Quit` ends the loop, and `main` closes what the stacked screens hold. -/
def quit (p : Program W) (queue : List (Msg W)) : Program W :=
  { p with queue, ended := true, sessions := p.app.closeAllSessions p.sessions }

/-- The program after the `i`-th command has answered `m`. -/
def answered (p : Program W) (i : Nat) (m : Msg W) (session : Option Session) : Program W :=
  { p with running := p.running.eraseIdx i, queue := p.queue ++ [m], sessions := p.sessions ++ session.toList }

/-- One step, where it is possible. -/
def next (p : Program W) (act : Act W) : Option (Program W) :=
  if p.ended then none
  else
    match act with
    | .press k => some { p with queue := p.queue ++ [.key k] }
    | .resize width height => some { p with queue := p.queue ++ [.windowSize width height] }
    | .finish i o =>
      (p.running[i]?.bind fun c => c.finish p.sessions.length o).map fun (m, session) => p.answered i m session
    | .deliver =>
      match p.queue with
      | [] => none
      | .quit :: queue => some (p.quit queue)
      | m :: queue => some (p.handle m queue)

/-- `main`: the root is a `TableScreen`, and its `Init` has been called. -/
def start (W : Widgets) (minSize onlyPid uidFilter interval : Int) : Program W :=
  let root : TableScreen W := newTableScreen minSize onlyPid uidFilter interval
  { app := ⟨.table root, [], 0, 0⟩, running := root.init, queue := [], sessions := [], fresh := 0, ended := false }

def Step (p : Program W) (act : Act W) (p' : Program W) : Prop := p.next act = some p'

/-- **What a step can do.** -/
theorem step_cases {p p' : Program W} {act : Act W} (h : Step p act p') :
    (∃ m, ((∃ k, act = .press k ∧ m = .key k) ∨
        ∃ width height, act = .resize width height ∧ m = .windowSize width height) ∧
      p' = { p with queue := p.queue ++ [m] }) ∨
    (∃ i c o m session, act = .finish i o ∧ p.running[i]? = some c ∧ c.finish p.sessions.length o = some (m, session) ∧
      p' = p.answered i m session) ∨
    (∃ queue, act = .deliver ∧ p.queue = .quit :: queue ∧ p' = p.quit queue) ∨
    (∃ m queue, act = .deliver ∧ m ≠ .quit ∧ p.queue = m :: queue ∧ p' = p.handle m queue) := by
  unfold Step next at h
  split at h
  · cases h
  · cases act with
    | press k =>
        exact .inl ⟨.key k, .inl ⟨k, rfl, rfl⟩, (Option.some.inj h).symm⟩
    | resize width height =>
        exact .inl ⟨.windowSize width height, .inr ⟨width, height, rfl, rfl⟩, (Option.some.inj h).symm⟩
    | finish i o =>
        obtain ⟨⟨m, session⟩, hbind, rfl⟩ := Option.map_eq_some_iff.mp h
        obtain ⟨c, hc, hfin⟩ := Option.bind_eq_some_iff.mp hbind
        exact .inr (.inl ⟨i, c, o, m, session, rfl, hc, hfin, rfl⟩)
    | deliver =>
        dsimp only at h
        split at h
        · cases h
        · rename_i queue hq
          exact .inr (.inr (.inl ⟨queue, rfl, hq, (Option.some.inj h).symm⟩))
        · rename_i m queue hne hq
          exact .inr (.inr (.inr ⟨m, queue, rfl, hne, hq, (Option.some.inj h).symm⟩))

end Program

/-! ## Widgets to run it with -/

/-- A table that keeps the number of its rows and its cursor, and an input that keeps whether it is focused and
    its text: enough to type and to select. -/
def simpleWidgets : Widgets where
  Table := Nat × Nat
  Input := Bool × Bytes
  Note := Unit
  Job := Unit
  newTable := (0, 0)
  setRows rows t := (rows.length, min t.2 (rows.length - 1))
  resize _ _ t := t
  tableCursor t := t.2
  updateTable m t :=
    match m with
    | .key .up => ((t.1, t.2 - 1), [])
    | .key .down => ((t.1, min (t.2 + 1) (t.1 - 1)), [])
    | _ => (t, [])
  newInput _ := (false, [])
  focus i := ((true, i.2), [()])
  blur i := (false, i.2)
  setValue text i := (i.1, text)
  value i := i.2
  updateInput m i :=
    match m with
    | .key (.rune c) => if i.1 then ((true, i.2 ++ [c.toNat.toUInt8]), []) else (i, [])
    | _ => (i, [])
  toLower text := text
  trimSpace text := text

/-- The table is scanned, shows these entries, and Enter opens the first of them: a `DetailScreen` is on top and
    the timer alone is running. -/
def openFirst (entries : List HiddenEntry) : List (Act simpleWidgets) :=
  [.finish 0 (.scanned (.ok (entries, 0))), .deliver, .press .enter, .deliver, .finish 1 .done, .deliver]

end Tui
end Hsed
