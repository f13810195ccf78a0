import Hsed.Client.Client
import Hsed.Server.Server

/-!
# `Reclaim.Reclaim` — TRUNCATE against processes that go on (`reclaim.c`)

`hsed_truncate_fd` looks up `/proc/<pid>/fd/<fd>` twice, for `stat` and for `open`, and the request it serves
carries a pid and a descriptor that the user picked from a listing made earlier. `World` is what these
lookups see: the file behind each descriptor of each process, and the size of each file. Processes change it
between any two steps of the listing, the confirmation, the request and the three system calls.

A `Stage` is how far the client and the daemon have come with one entry; every finished command leaves an
`Outcome`.
-/

namespace Hsed
namespace Reclaim

open CLib Client

/-! ## Files and descriptors -/

/-- A file, by device and inode number. -/
structure FileId where
  devMajor : Int
  devMinor : Int
  inode : Int
  deriving DecidableEq, Repr

/-- The file an entry was listed for. -/
def fileOf (e : HiddenEntry) : FileId := ⟨e.devMajor, e.devMinor, e.inode⟩

/-- `fds pid fd` is the file behind `/proc/<pid>/fd/<fd>`. -/
structure World where
  fds : Int → Int → Option FileId
  size : FileId → Int

/-- What processes do. -/
inductive ProcAct where
  | openFile (pid fd : Int) (file : FileId)
  | close (pid fd : Int)
  | dup (pid old new : Int)
  | exit (pid : Int)
  /-- A new process, under a pid that may have been another's, with the descriptors it starts with. -/
  | spawn (pid : Int) (fds : Int → Option FileId)
  /-- A file grows or shrinks. -/
  | resize (file : FileId) (size : Int)

def World.setFd (w : World) (pid fd : Int) (file : Option FileId) : World :=
  { w with fds := Function.update w.fds pid (Function.update (w.fds pid) fd file) }

def World.act (w : World) : ProcAct → World
  | .openFile pid fd file => w.setFd pid fd (some file)
  | .close pid fd => w.setFd pid fd none
  | .dup pid old new => w.setFd pid new (w.fds pid old)
  | .exit pid => { w with fds := Function.update w.fds pid fun _ => none }
  | .spawn pid fds => { w with fds := Function.update w.fds pid fds }
  | .resize file size => { w with size := Function.update w.size file size }

/-! ## The command -/

/-- `fd_path` of `hsed_truncate_fd`. -/
def fdPath (pid fd : Int) : Bytes := snprintf 64 (ascii "/proc/" ++ decInt pid ++ ascii "/fd/" ++ decInt fd)

/-- The texts of its three failures, in a buffer of 256 bytes. -/
def statError (pid fd : Int) (strerror : Bytes) : Bytes :=
  snprintf 256 (ascii "could not stat " ++ fdPath pid fd ++ ascii ": " ++ strerror)

def openError (pid fd : Int) (strerror : Bytes) : Bytes :=
  snprintf 256 (ascii "could not open " ++ fdPath pid fd ++ ascii " for writing: " ++ strerror ++
    ascii " (need root or the file owner's permission)")

def ftruncateError (pid fd : Int) (strerror : Bytes) : Bytes :=
  snprintf 256 (ascii "ftruncate failed on " ++ fdPath pid fd ++ ascii ": " ++ strerror)

/-- How far a command has come. `stSize` is `st.st_size`; `shown` is a ghost, the size the entry's own file
    had when `stat` ran. -/
inductive Stage where
  | idle
  | listed (entries : List HiddenEntry)
  /-- The user has answered y, and `truncateCmd` has sent the request. -/
  | confirmed (e : HiddenEntry)
  | stat (e : HiddenEntry) (pid fd : Int)
  | opening (e : HiddenEntry) (pid fd : Int) (stSize shown : Int)
  | truncating (e : HiddenEntry) (pid fd : Int) (stSize shown : Int) (file : FileId)

/-- What came of a command: the file handed to `ftruncate`, the file it emptied, and the value of
    `hsed_truncate_fd`. -/
structure Outcome where
  entry : HiddenEntry
  passed : Option FileId
  emptied : Option FileId
  result : Except Bytes Int
  shown : Int

structure State where
  world : World
  stage : Stage
  outcomes : List Outcome

inductive Act where
  | process (a : ProcAct)
  | scan (entries : List HiddenEntry)
  | confirm (e : HiddenEntry)
  /-- The daemon reads the numerals of the request back. -/
  | request
  | stat (strerror : Bytes)
  /-- `granted`: nothing but the descriptor's absence makes `open` fail. -/
  | openFile (granted : Bool) (strerror : Bytes)
  | ftruncate (granted : Bool) (strerror : Bytes)

/-- The command ends with an error, and no file was touched. -/
def State.fail (s : State) (e : HiddenEntry) (passed : Option FileId) (err : Bytes) (shown : Int) : State :=
  { s with stage := .idle, outcomes := s.outcomes ++ [⟨e, passed, none, .error err, shown⟩] }

def next (s : State) : Act → Option State
  | .process a => some { s with world := s.world.act a }
  | .scan entries =>
    match s.stage with
    | .idle => some { s with stage := .listed entries }
    | .listed _ => some { s with stage := .listed entries }
    | _ => none
  | .confirm e =>
    match s.stage with
    | .listed entries => if e ∈ entries then some { s with stage := .confirmed e } else none
    | _ => none
  | .request =>
    match s.stage with
    | .confirmed e => some { s with stage := .stat e (toInt32 (strtol (decInt e.pid))) (atoi (decInt e.fd)) }
    | _ => none
  | .stat strerror =>
    match s.stage with
    | .stat e pid fd =>
      match s.world.fds pid fd with
      | none => some (s.fail e none (statError pid fd strerror) (s.world.size (fileOf e)))
      | some file => some { s with stage := .opening e pid fd (s.world.size file) (s.world.size (fileOf e)) }
    | _ => none
  | .openFile granted strerror =>
    match s.stage with
    | .opening e pid fd stSize shown =>
      match s.world.fds pid fd with
      | some file =>
        if granted then some { s with stage := .truncating e pid fd stSize shown file }
        else some (s.fail e none (openError pid fd strerror) shown)
      | none => some (s.fail e none (openError pid fd strerror) shown)
    | _ => none
  | .ftruncate granted strerror =>
    match s.stage with
    | .truncating e pid fd stSize shown file =>
      -- the descriptor is the daemon's own by now: what the process does to its table does not matter
      if granted then
        some ⟨{ s.world with size := Function.update s.world.size file 0 }, .idle,
          s.outcomes ++ [⟨e, some file, some file, .ok stSize, shown⟩]⟩
      else some (s.fail e (some file) (ftruncateError pid fd strerror) shown)
    | _ => none

/-- A listing shows descriptors as they are at the time. -/
def Enabled (s : State) : Act → Prop
  | .scan entries =>
    ∀ e ∈ entries, s.world.fds e.pid e.fd = some (fileOf e) ∧ e.size = s.world.size (fileOf e)
  | .process (.spawn pid _) => ∀ fd, s.world.fds pid fd = none
  | _ => True

def step (s : State) (a : Act) (s' : State) : Prop := Enabled s a ∧ next s a = some s'

def State.start (w : World) : State := ⟨w, .idle, []⟩

end Reclaim
end Hsed
