import Hsed.Lib.CLib

/-!
# `Server.Listen` — the listening socket (`hsed_server_run` in `server.c`)

`hsed_server_run` from its first `unlink` to its last, over a flat file system: a path names a file or nothing, and
no path is a link. What `socket`, `bind`, `listen` and the polls of the accept loop return is a `ListenSys`; `unlink`,
`chmod` and the file that `bind` makes are effects on the files. `unlink` succeeds on whatever is there and no
directory, and `chmod` on whatever is there.

The address that is bound is a *copy* of the path, in the 108 bytes of `sun_path`; `chmod` and `unlink` get the
path itself.
-/

namespace Hsed
namespace Server

open CLib

/-- The permission bits of a file. -/
abbrev Perm := BitVec 9

inductive FileKind where
  | regular
  | directory
  | socket
  deriving DecidableEq, Repr

structure FileNode where
  kind : FileKind
  mode : Perm
  deriving DecidableEq, Repr

/-- The file system, by path. -/
abbrev Files := Bytes → Option FileNode

/-- `unlink(path)`: not for directories. -/
def unlink (files : Files) (path : Bytes) : Files :=
  match files path with
  | some node => if node.kind = .directory then files else Function.update files path none
  | none => files

/-- `chmod(path, mode)`. -/
def chmod (files : Files) (path : Bytes) (mode : Perm) : Files :=
  match files path with
  | some node => Function.update files path (some { node with mode := mode })
  | none => files

/-- Where a socket is bound: at a file, or, with an empty `sun_path`, in the abstract namespace. -/
inductive Address where
  | file (name : Bytes)
  | unnamed
  deriving DecidableEq, Repr

/-- `sizeof(addr.sun_path)`. -/
def sunPathSize : Nat := 108

/-- `bind` to the name in `sun_path`: it makes the file, with the permissions the umask leaves, and fails if the
    name is taken. -/
def bindSocket (files : Files) (umask : Perm) (name : Bytes) : Option (Address × Files) :=
  if name = [] then some (.unnamed, files)
  else
    match files name with
    | some _ => none
    | none => some (.file name, Function.update files name (some ⟨.socket, 0o777#9 &&& ~~~umask⟩))

/-- The result of one `poll` of the accept loop, and for a waiting client those of `accept`, `malloc` and
    `pthread_create`. -/
inductive Poll where
  | timeout
  | interrupted
  | failed
  | ready (accepted allocated created : Bool)
  deriving DecidableEq, Repr

/-- What the system calls return. `bindOk` is whether `bind` would succeed on a free name, `polls` the polls
    before `shutdown_flag` is set. -/
structure ListenSys where
  socketOk : Bool
  bindOk : Bool
  listenOk : Bool
  polls : List Poll

/-- The accept loop: the number of clients that got a thread. -/
def acceptLoop : List Poll → Nat
  | [] => 0
  | .failed :: _ => 0
  | .ready accepted allocated created :: polls =>
    (if accepted && allocated && created then 1 else 0) + acceptLoop polls
  | _ :: polls => acceptLoop polls

/-- A run of `hsed_server_run`: the address it bound, the files when it reached the accept loop and the clients
    it served there, its return value and the files it left. -/
structure ServerRun where
  bound : Option Address
  listening : Option Files
  served : Nat
  rc : Int
  files : Files

/-- `hsed_server_run`. -/
def hsedServerRun (socketPath : Bytes) (umask : Perm) (files : Files) (sys : ListenSys) : ServerRun :=
  let files := unlink files socketPath
  if !sys.socketOk then ⟨none, none, 0, -1, files⟩
  else
    let sunPath := strlcpy sunPathSize socketPath
    match if sys.bindOk then bindSocket files umask sunPath else none with
    | none => ⟨none, none, 0, -1, files⟩
    | some (address, files) =>
      let files := chmod files socketPath 0o600#9
      if !sys.listenOk then ⟨some address, none, 0, -1, unlink files socketPath⟩
      else ⟨some address, some files, acceptLoop sys.polls, 0, unlink files socketPath⟩

end Server
end Hsed
