import Hsed.Tui.Tree

/-!
# `Tui.Screens` — the screens and their `Update` (`tui/ui/*_screen.go`)

Each screen is a record and its `Update` a function of the message. A command is what it will do, not the
closure: `Cmd` has one constructor a kind, and what its run may answer is `Outcome`, in `Tui.App`. `View` is
left out, and with it the sizes and the styles.

* A dialog keeps its `Question`, the entry and the action its text was formatted from.
* The models of `bubbles` are a parameter, `Widgets`: the screens call them and never look inside.
* Two fields are ghosts, read by no `Update`: the `Sender` of a popped result, and the session a write
  event was read from.
-/

namespace Hsed
namespace Tui

open CLib
open Client (HiddenEntry WriteEvent)

/-- A key press, as `tea.KeyMsg.String` tells them apart. -/
inductive Key where
  | ctrlC
  | esc
  | enter
  | up
  | down
  | rune (c : Char)
  | other (name : String)
  deriving DecidableEq, Repr

/-- What a widget can tell of a message: a key, one of its own, or neither. -/
inductive Seen (Note : Type) where
  | key (k : Key)
  | own (n : Note)
  | other

/-- What the screens use of `table.Model` and `textinput.Model`, with the messages (`Note`) and commands
    (`Job`) of their own, and of the Unicode tables behind package `strings`. -/
structure Widgets where
  Table : Type
  Input : Type
  Note : Type
  Job : Type
  newTable : Table
  setRows : List HiddenEntry → Table → Table
  resize : Int → Int → Table → Table
  tableCursor : Table → Int
  updateTable : Seen Note → Table → Table × List Job
  /-- with its `CharLimit`, 0 for none -/
  newInput : Nat → Input
  focus : Input → Input × List Job
  blur : Input → Input
  setValue : Bytes → Input → Input
  value : Input → Bytes
  updateInput : Seen Note → Input → Input × List Job
  toLower : Bytes → Bytes
  trimSpace : Bytes → Bytes

/-- The values of `pending`. -/
inductive Action where
  | truncate
  | hup
  | kill
  deriving DecidableEq, Repr

/-- What a dialog asks: whether to do `action` to `entry`. -/
structure Question where
  entry : HiddenEntry
  action : Action
  deriving DecidableEq, Repr

/-- The label of an `actionResultMsg`, by what its text says. -/
inductive Label where
  | freed (bytes pid fd : Int)
  | sighup (pid : Int)
  | sigkill (pid : Int)
  deriving DecidableEq, Repr

/-- What a screen may leave behind: a dialog's answer or an action's label. -/
inductive Result where
  | confirmed (b : Bool)
  | note (label : Label)
  deriving DecidableEq, Repr

/-- Who popped itself with a result, and on what input. -/
inductive Sender where
  | confirm (q : Question) (k : Key)
  | killConfirm (q : Question) (typed : Bytes)
  | detail (entry : HiddenEntry)
  deriving DecidableEq, Repr

/-- A session is told by when it was opened. -/
abbrev SessionId := Nat

/-- A line of `StreamScreen.lines`; the time of day of a write is left out. -/
inductive StreamLine where
  | attached (pid : Int)
  | watching (fd : Int)
  | blank
  | write (ev : WriteEvent) (src : SessionId)
  | ended
  | failed (err : Bytes)
  deriving DecidableEq, Repr

/-! ## The screens -/

section

variable (W : Widgets)

structure TableScreen where
  minSize : Int
  onlyPid : Int
  uidFilter : Int
  interval : Int
  table : W.Table
  filterInput : W.Input
  filtering : Bool
  filterText : Bytes
  entries : List HiddenEntry
  filteredEntries : List HiddenEntry
  totalBytes : Int
  lastErr : Bytes
  notice : Option Label

structure DetailScreen where
  entry : HiddenEntry
  pending : Option Action
  status : Bytes

structure ConfirmScreen where
  question : Question

structure KillConfirmScreen where
  question : Question
  input : W.Input

/-- `StreamScreen`; `id` stands for its address. -/
structure StreamScreen where
  id : Nat
  entry : HiddenEntry
  session : Option SessionId
  lines : List StreamLine
  attachErr : Bytes

inductive Screen where
  | table (s : TableScreen W)
  | tree (s : TreeScreen)
  | detail (s : DetailScreen)
  | confirm (s : ConfirmScreen)
  | killConfirm (s : KillConfirmScreen W)
  | stream (s : StreamScreen)

/-- The commands, with what their closures hold. -/
inductive Cmd where
  | push (s : Screen W)
  | pop
  | popResult (v : Result) (sender : Sender)
  | quit
  | scan (minSize onlyPid uidFilter : Int)
  | tick (interval : Int)
  | truncate (e : HiddenEntry)
  | hup (e : HiddenEntry)
  | kill (e : HiddenEntry)
  /-- the `Init` of the `StreamScreen` with this `id` -/
  | openStream (id : Nat) (e : HiddenEntry)
  | readNext (session : Option SessionId)
  | widget (job : W.Job)

inductive Msg where
  | key (k : Key)
  | windowSize (width height : Int)
  | push (s : Screen W)
  | pop (result : Option Result) (sender : Option Sender)
  | result (v : Result)
  | quit
  | scanResult (entries : List HiddenEntry) (total : Int)
  | scanErr (err : Bytes)
  | tick
  | actionResult (r : Except Bytes Label)
  | streamAttached (session : SessionId)
  | streamAttachErr (err : Bytes)
  /-- `none` means clean end -/
  | streamEvent (ev : Option WriteEvent) (src : SessionId)
  | streamErr (err : Bytes)
  | widget (n : W.Note)

end

variable {W : Widgets}

/-- A message as a widget sees it. -/
def Msg.seen : Msg W → Seen W.Note
  | .key k => .key k
  | .widget n => .own n
  | _ => .other

/-! ## `TableScreen` -/

/-- `NewTableScreen`. -/
def newTableScreen (minSize onlyPid uidFilter interval : Int) : TableScreen W :=
  { minSize, onlyPid, uidFilter, interval, table := W.newTable, filterInput := W.newInput 0, filtering := false,
    filterText := [], entries := [], filteredEntries := [], totalBytes := 0, lastErr := [], notice := none }

namespace TableScreen

def scanCmd (s : TableScreen W) : Cmd W := .scan s.minSize s.onlyPid s.uidFilter

def init (s : TableScreen W) : List (Cmd W) := [s.scanCmd, .tick s.interval]

/-- `strings.Contains(strings.ToLower(text), filterText)`. -/
def contains (s : TableScreen W) (text : Bytes) : Bool := s.filterText <:+: W.toLower text

/-- `TableScreen.applyFilter`. -/
def applyFilter (s : TableScreen W) : TableScreen W :=
  let filtered := s.entries.filter fun e => s.filterText == [] || s.contains e.comm || s.contains e.path
  { s with filteredEntries := filtered, table := W.setRows filtered s.table }

/-- The end of filtering: the text to filter by from now on. -/
def endFiltering (s : TableScreen W) (input : W.Input) (filterText : Bytes) : TableScreen W :=
  applyFilter { s with filterText, filtering := false, filterInput := W.blur input }

/-- `s.table.Update(msg)`. -/
def forward (s : TableScreen W) (m : Msg W) : TableScreen W × List (Cmd W) :=
  let (table, jobs) := W.updateTable m.seen s.table
  ({ s with table }, jobs.map .widget)

/-- The keys while the filter is being typed. -/
def updateFiltering (s : TableScreen W) (k : Key) : TableScreen W × List (Cmd W) :=
  match k with
  | .enter => (s.endFiltering s.filterInput (W.toLower (W.trimSpace (W.value s.filterInput))), [])
  | .esc => (s.endFiltering (W.setValue [] s.filterInput) [], [])
  | k =>
    let (filterInput, jobs) := W.updateInput (.key k) s.filterInput
    ({ s with filterInput }, jobs.map .widget)

/-- The entry under the cursor, where there is one. -/
def selected (s : TableScreen W) : Option HiddenEntry :=
  if W.tableCursor s.table < 0 then none else s.filteredEntries[(W.tableCursor s.table).toNat]?

/-- `TableScreen.Update`. -/
def update (s : TableScreen W) (m : Msg W) : TableScreen W × List (Cmd W) :=
  match m with
  | .scanResult entries total => (applyFilter { s with entries, totalBytes := total, lastErr := [] }, [])
  | .scanErr err => ({ s with lastErr := err }, [])
  | .tick => (s, [s.scanCmd, .tick s.interval])
  | .result (.note label) => ({ s with notice := some label }, [s.scanCmd])
  | .result (.confirmed _) => (s, [s.scanCmd])
  | .key k =>
    if s.filtering then s.updateFiltering k
    else
      match k with
      | .rune 'q' => (s, [.quit])
      | .rune 'r' => ({ s with notice := none }, [s.scanCmd])
      | .rune '/' =>
        let (filterInput, jobs) := W.focus s.filterInput
        ({ s with filtering := true, filterInput }, jobs.map .widget)
      | .rune 'v' => (s, [.push (.tree (newTreeScreen s.entries))])
      | .enter =>
        match s.selected with
        | none => (s, [])
        | some e => (s, [.push (.detail ⟨e, none, []⟩)])
      | _ => s.forward m
  | _ => s.forward m

end TableScreen

/-! ## `TreeScreen` -/

/-- Enter on a row: a directory is toggled, a file opens its largest entry. -/
def TreeScreen.open (s : TreeScreen) (row : TreeRow) : TreeScreen × List (Cmd W) :=
  if row.isDir then
    (TreeScreen.rebuild { s with expanded := Function.update s.expanded row.path (!s.expanded row.path) }, [])
  else
    match row.node.entries with
    | [] => (s, [])
    | e :: es => (s, [.push (.detail ⟨largest e es, none, []⟩)])

/-- `TreeScreen.Update`; an index out of range would panic, and is never reached. -/
def TreeScreen.update (s : TreeScreen) (m : Msg W) : TreeScreen × List (Cmd W) :=
  match m with
  | .key .esc | .key (.rune 'q') => (s, [.pop])
  | .key .up | .key (.rune 'k') => ({ s with cursor := s.cursor - 1 }, [])
  | .key .down | .key (.rune 'j') =>
    ({ s with cursor := if s.cursor + 1 < s.rows.length then s.cursor + 1 else s.cursor }, [])
  | .key .enter | .key (.rune ' ') =>
    match s.rows[s.cursor]? with
    | none => (s, [])
    | some row => s.open row
  | _ => (s, [])

/-! ## `DetailScreen` -/

namespace DetailScreen

/-- `truncateCmd`, `hupCmd` or `killCmd`. -/
def actionCmd (e : HiddenEntry) : Action → Cmd W
  | .truncate => .truncate e
  | .hup => .hup e
  | .kill => .kill e

/-- The dialog a key opens. -/
def dialog (W : Widgets) (e : HiddenEntry) : Action → Screen W
  | .truncate => .confirm ⟨⟨e, .truncate⟩⟩
  | .hup => .confirm ⟨⟨e, .hup⟩⟩
  | .kill => .killConfirm ⟨⟨e, .kill⟩, W.newInput 32⟩

/-- The action is remembered, and its dialog goes on its way. -/
def ask (s : DetailScreen) (a : Action) : DetailScreen × List (Cmd W) :=
  ({ s with pending := some a }, [.push (dialog W s.entry a)])

/-- `DetailScreen.Update`; `fresh` is the address a new screen gets. -/
def update (fresh : Nat) (s : DetailScreen) (m : Msg W) : DetailScreen × List (Cmd W) :=
  match m with
  | .result (.confirmed true) => ({ s with pending := none }, (s.pending.map (actionCmd s.entry)).toList)
  | .result _ => ({ s with pending := none }, [])
  | .actionResult (.error err) => ({ s with status := ascii "Error: " ++ err }, [])
  | .actionResult (.ok label) => (s, [.popResult (.note label) (.detail s.entry)])
  | .key .esc => (s, [.pop])
  | .key (.rune 's') => (s, [.push (.stream ⟨fresh, s.entry, none, [], []⟩)])
  | .key (.rune 't') => s.ask .truncate
  | .key (.rune 'h') => s.ask .hup
  | .key (.rune 'k') => s.ask .kill
  | _ => (s, [])

end DetailScreen

/-! ## The dialogs -/

/-- `ConfirmScreen.Update`, which never changes the screen. -/
def ConfirmScreen.update (s : ConfirmScreen) (m : Msg W) : List (Cmd W) :=
  match m with
  | .key (.rune 'y') => [.popResult (.confirmed true) (.confirm s.question (.rune 'y'))]
  | .key (.rune 'n') => [.popResult (.confirmed false) (.confirm s.question (.rune 'n'))]
  | .key .esc => [.popResult (.confirmed false) (.confirm s.question .esc)]
  | _ => []

def killConfirmWord : Bytes := ascii "KILL"

namespace KillConfirmScreen

/-- The answer `false` or `true` leaves with what was typed. -/
def answer (s : KillConfirmScreen W) (b : Bool) : Cmd W :=
  .popResult (.confirmed b) (.killConfirm s.question (W.value s.input))

/-- `s.input.Update(msg)`. -/
def forward (s : KillConfirmScreen W) (m : Msg W) : KillConfirmScreen W × List (Cmd W) :=
  let (input, jobs) := W.updateInput m.seen s.input
  ({ s with input }, jobs.map .widget)

/-- `KillConfirmScreen.Update`. -/
def update (s : KillConfirmScreen W) (m : Msg W) : KillConfirmScreen W × List (Cmd W) :=
  match m with
  | .key .esc => (s, [s.answer false])
  | .key .enter => (s, [s.answer (W.value s.input == killConfirmWord)])
  | _ => s.forward m

end KillConfirmScreen

/-! ## `StreamScreen` -/

namespace StreamScreen

def append (s : StreamScreen) (lines : List StreamLine) : StreamScreen := { s with lines := s.lines ++ lines }

/-- `StreamScreen.Update`: the screen, its commands and the session it closed. -/
def update (s : StreamScreen) (m : Msg W) : StreamScreen × List (Cmd W) × Option SessionId :=
  match m with
  | .streamAttached session =>
    (append { s with session := some session } [.attached s.entry.pid, .watching s.entry.fd, .blank],
      [.readNext (some session)], none)
  | .streamAttachErr err => ({ s with attachErr := err }, [], none)
  | .streamEvent none _ => (s.append [.ended], [], none)
  | .streamEvent (some ev) src => (s.append [.write ev src], [.readNext s.session], none)
  | .streamErr err => (s.append [.failed err], [], none)
  | .key .esc => (s, [.pop], s.session)
  | _ => (s, [], none)

end StreamScreen

/-! ## The interface -/

/-- What an `Update` gives: the screen, the commands and the session closed on the way. -/
structure Updated (W : Widgets) where
  screen : Screen W
  cmds : List (Cmd W)
  closes : Option SessionId

namespace Screen

/-- `Screen.Init`, with the change it makes to the screen. -/
def init : Screen W → Screen W × List (Cmd W)
  | .table s => (.table s, s.init)
  | .killConfirm s =>
    let (input, jobs) := W.focus s.input
    (.killConfirm { s with input }, jobs.map .widget)
  | .stream s => (.stream s, [.openStream s.id s.entry])
  | s => (s, [])

/-- `Screen.Resize`: for the others the size only matters to `View`. -/
def resize (width height : Int) : Screen W → Screen W
  | .table s => .table (if width ≤ 0 then s else { s with table := W.resize width height s.table })
  | s => s

/-- `Screen.Update`. -/
def update (fresh : Nat) (m : Msg W) : Screen W → Updated W
  | .table s => ⟨.table (s.update m).1, (s.update m).2, none⟩
  | .tree s => ⟨.tree (TreeScreen.update (W := W) s m).1, (s.update m).2, none⟩
  | .detail s => ⟨.detail (DetailScreen.update (W := W) fresh s m).1, (s.update fresh m).2, none⟩
  | .confirm s => ⟨.confirm s, s.update m, none⟩
  | .killConfirm s => ⟨.killConfirm (s.update m).1, (s.update m).2, none⟩
  | .stream s => ⟨.stream (s.update m).1, (s.update m).2.1, (s.update m).2.2⟩

end Screen

end Tui
end Hsed
