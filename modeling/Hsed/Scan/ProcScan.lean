import Hsed.Lib.CLib

/-!
# `Scan.ProcScan` — one process's descriptor walk (`proc_scan.c`)

The model reads a fixed `/proc` **snapshot** instead of the live file system: `Snapshot` holds what each
system call of the walk would return (`opendir`, `readdir`, `stat`, `readlink`, the text of `comm`,
`cmdline` and `fdinfo`), with `none` for a call that fails. On top of it stand the source's own
functions: the helpers that build one entry (`readFirstLine`, `readCmdline`, `ownerName`, `fdMode`), the
growing list (`listPush`, whose `realloc` may fail), and `scan_one_pid` in its two modes
(`scanOnePidList`, `scanOnePidStats`), which leave the shared test `matchFd` at different points.
-/

namespace Hsed
namespace Scan

open CLib

/-! ## Sizes and the records of `proc_scan.h` -/

def hsedPathMax : Nat := 4096
def hsedNameMax : Nat := 256
def hsedCmdlineMax : Nat := 1024

/-- `HSED_UID_ANY`, `(uid_t)-1`. -/
def hsedUidAny : Nat := 2 ^ 32 - 1

/-- `hsed_entry_t`; the character arrays are the C strings they hold. -/
structure Entry where
  pid : Int
  fd : Int
  mode : Bytes
  size : Int
  uid : Nat
  user : Bytes
  comm : Bytes
  cmdline : Bytes
  path : Bytes
  inode : Nat
  devMajor : Nat
  devMinor : Nat
  mtime : Int
  deriving DecidableEq, Repr

/-- `hsed_list_t`: the entries and the allocated capacity. -/
structure HsedList where
  items : List Entry
  capacity : Nat
  deriving DecidableEq, Repr

/-- `hsed_stats_t`. -/
structure Stats where
  count : Nat
  totalBytes : Int
  deriving DecidableEq, Repr

/-! ## The snapshot -/

/-- The fields of `struct stat` the scan reads. -/
structure Stat where
  size : Int
  ino : Nat
  major : Nat
  minor : Nat
  mtime : Int
  deriving DecidableEq, Repr

/-- One directory entry of `/proc/<pid>/fd`: its name, its link target and the file behind it. -/
structure FdEnt where
  name : Bytes
  target : Option Bytes
  stat : Option Stat
  deriving DecidableEq, Repr

/-- One process directory. -/
structure Proc where
  uid : Option Nat
  fds : Option (List FdEnt)
  fdinfo : Int → Option Bytes
  comm : Option Bytes
  cmdline : Option Bytes

/-- Everything the scan can see: the names in `/proc`, each process, the password database and the
    number of online processors. -/
structure Snapshot where
  names : Option (List Bytes)
  proc : Int → Proc
  pwName : Nat → Option Bytes
  nprocessors : Int

/-! ## `list_push` -/

def hsedListInit : HsedList := ⟨[], 0⟩

/-- The capacity `list_push` asks for when the list is full. -/
def grownCapacity (cap : Nat) : Nat := if cap = 0 then 64 else cap * 2

/-- `list_push`; `realloc` says, for each capacity asked for, whether the allocation succeeds. -/
def listPush (realloc : Nat → Bool) (list : HsedList) (e : Entry) : Option HsedList :=
  if list.items.length = list.capacity then
    let newcap := grownCapacity list.capacity
    if realloc newcap then some ⟨list.items ++ [e], newcap⟩ else none
  else
    some ⟨list.items ++ [e], list.capacity⟩

/-! ## Reading the small files -/

/-- `fgets(buf, n, f)` on the remaining text: the piece it reads (`none` at end of file) and the rest. -/
def fgets (n : Nat) (text : Bytes) : Option (Bytes × Bytes) :=
  match text with
  | [] => none
  | _ =>
    let window := text.take (n - 1)
    let line := window.takeWhile (· != 0x0a)
    let len := if line.length < window.length then line.length + 1 else line.length
    some (text.take len, text.drop len)

/-- Drops trailing newlines and carriage returns. -/
def stripEol (s : Bytes) : Bytes :=
  (s.reverse.dropWhile fun b => b == 0x0a || b == 0x0d).reverse

/-- `read_first_line`. -/
def readFirstLine (file : Option Bytes) (buflen : Nat) : Bytes :=
  match file with
  | none => []
  | some text =>
    match fgets buflen text with
    | none => []
    | some (line, _) => stripEol (cstr line)

/-- `read_first_line` with the `"?"` the scan falls back to when the text is empty. -/
def firstLineOrUnknown (file : Option Bytes) (buflen : Nat) : Bytes :=
  match readFirstLine file buflen with
  | [] => strlcpy buflen (ascii "?")
  | line => line

/-- The copy loop of `read_cmdline` on the unread part of `raw`. `fuel` bounds the number of
    arguments; the text written so far and `wrote_any` are carried along. -/
def cmdlineLoop (buflen : Nat) : Nat → Bytes → Bytes → Bool → Bytes × Bool
  | 0, _, out, wroteAny => (out, wroteAny)
  | _, [], out, wroteAny => (out, wroteAny)
  | fuel + 1, raw, out, wroteAny =>
    let arg := cstr raw
    if arg = [] then
      -- an empty argument ends the walk (`i = n`)
      (out, wroteAny)
    else
      let out := if wroteAny && out.length + 1 < buflen then out ++ [0x20] else out
      let copy := if buflen ≤ out.length + arg.length then buflen - out.length - 1 else arg.length
      let out := if out.length < buflen - 1 then out ++ arg.take copy else out
      cmdlineLoop buflen fuel (raw.drop (arg.length + 1)) out true

/-- `read_cmdline`: the arguments joined by spaces, or else the first line of `comm`. -/
def readCmdline (p : Proc) (buflen : Nat) : Bytes :=
  match p.cmdline with
  | none => firstLineOrUnknown p.comm buflen
  | some text =>
    let raw := text.take (hsedCmdlineMax - 1)
    match cmdlineLoop buflen raw.length raw [] false with
    | (out, true) => out.take (buflen - 1)
    | (_, false) => firstLineOrUnknown p.comm buflen

/-- `owner_name`. -/
def ownerName (snap : Snapshot) (uid : Nat) (buflen : Nat) : Bytes :=
  match snap.pwName uid with
  | some name => strlcpy buflen name
  | none => snprintf buflen (decNat uid)

/-- Octal digits, for `strtol(…, 8)`. -/
def octalVal (ds : Bytes) : Nat := ds.foldl (fun acc b => acc * 8 + (b.toNat - 0x30)) 0

/-- `strtol(s, NULL, 8)`. -/
def strtolOct (s : Bytes) : Int :=
  let (neg, t) := splitSign (s.dropWhile isSpace)
  let v : Int := octalVal (t.takeWhile fun b => 0x30 ≤ b && b ≤ 0x37)
  clampLong (if neg then -v else v)

/-- The access mode of the first `flags:` line among the pieces `fgets` returns. -/
def fdModeLoop : Nat → Bytes → Bytes
  | 0, _ => ascii "?"
  | fuel + 1, text =>
    match fgets 128 text with
    | none => ascii "?"
    | some (line, rest) =>
      if (ascii "flags:").isPrefixOf (cstr line) then
        match strtolOct ((cstr line).drop 6) % 4 with
        | 0 => ascii "r"
        | 1 => ascii "w"
        | 2 => ascii "rw"
        | _ => ascii "?"
      else fdModeLoop fuel rest

/-- `fd_mode`. -/
def fdMode (p : Proc) (fdnum : Int) : Bytes :=
  match p.fdinfo fdnum with
  | none => ascii "?"
  | some text => fdModeLoop text.length text

/-! ## `scan_one_pid` -/

def deletedSuffix : Bytes := ascii " (deleted)"

/-- `is_virtual_target`. -/
def isVirtualTarget (path : Bytes) : Bool :=
  (ascii "pipe:").isPrefixOf path || (ascii "socket:").isPrefixOf path ||
    (ascii "anon_inode:").isPrefixOf path || (ascii "/memfd:").isPrefixOf path ||
    path == ascii "/dev/zero"

/-- The tests of `scan_one_pid` on one directory entry, down to the size filter: the descriptor
    number, the path without its suffix, and the file's `stat`. `readlink` fills at most
    `HSED_PATH_MAX - 1` bytes; the comparisons then work on the C string in the buffer. -/
def matchFd (minSize : Int) (d : FdEnt) : Option (Int × Bytes × Stat) :=
  if !isAllDigits d.name then none else
  match d.target with
  | none => none
  | some link =>
    let target := link.take (hsedPathMax - 1)
    if target.length < deletedSuffix.length then none
    else if cstr (target.drop (target.length - deletedSuffix.length)) ≠ deletedSuffix then none
    else
      let path := cstr (target.take (target.length - deletedSuffix.length))
      if isVirtualTarget path then none else
      match d.stat with
      | none => none
      | some st => if st.size < minSize then none else some (atoi d.name, path, st)

/-- The walk's shared prefix: the owner and the directory entries, unless the process is gone,
    filtered out by uid, or its `fd` directory cannot be opened. -/
def openFds (snap : Snapshot) (uidFilter : Nat) (pid : Int) : Option (Nat × List FdEnt) :=
  match (snap.proc pid).uid with
  | none => none
  | some owner =>
    if uidFilter ≠ hsedUidAny ∧ owner ≠ uidFilter then none
    else (snap.proc pid).fds.map fun ds => (owner, ds)

/-- The per-process strings `scan_one_pid` loads when the first descriptor matches. -/
structure Cache where
  comm : Option Bytes
  cmdline : Option Bytes
  owner : Option Bytes

def Cache.empty : Cache := ⟨none, none, none⟩

/-- The three `if (!…_loaded)` blocks. -/
def Cache.load (snap : Snapshot) (pid : Int) (ownerUid : Nat) (c : Cache) : Cache :=
  { comm := some (c.comm.getD (firstLineOrUnknown (snap.proc pid).comm hsedNameMax))
    cmdline := some (c.cmdline.getD (readCmdline (snap.proc pid) hsedCmdlineMax))
    owner := some (c.owner.getD (ownerName snap ownerUid hsedNameMax)) }

/-- The entry built for a matching descriptor from the loaded strings. -/
def mkEntry (snap : Snapshot) (pid : Int) (ownerUid : Nat) (c : Cache)
    (fdnum : Int) (path : Bytes) (st : Stat) : Entry :=
  { pid := pid
    fd := fdnum
    mode := fdMode (snap.proc pid) fdnum
    size := st.size
    uid := ownerUid
    user := strlcpy hsedNameMax (c.owner.getD [])
    comm := strlcpy hsedNameMax (c.comm.getD [])
    cmdline := strlcpy hsedCmdlineMax (c.cmdline.getD [])
    path := strlcpy hsedPathMax path
    inode := st.ino
    devMajor := st.major
    devMinor := st.minor
    mtime := st.mtime }

/-- The `readdir` loop in list mode. `none` is the out-of-memory return. -/
def listLoop (snap : Snapshot) (realloc : Nat → Bool) (pid : Int) (ownerUid : Nat) (minSize : Int) :
    List FdEnt → Cache → HsedList → Option HsedList
  | [], _, out => some out
  | d :: ds, c, out =>
    match matchFd minSize d with
    | none => listLoop snap realloc pid ownerUid minSize ds c out
    | some (fdnum, path, st) =>
      let c := c.load snap pid ownerUid
      match listPush realloc out (mkEntry snap pid ownerUid c fdnum path st) with
      | none => none
      | some out => listLoop snap realloc pid ownerUid minSize ds c out

/-- `scan_one_pid(out, NULL, …)`. -/
def scanOnePidList (snap : Snapshot) (realloc : Nat → Bool) (minSize : Int) (uidFilter : Nat)
    (out : HsedList) (pid : Int) : Option HsedList :=
  match openFds snap uidFilter pid with
  | none => some out
  | some (ownerUid, ds) => listLoop snap realloc pid ownerUid minSize ds Cache.empty out

/-- The `readdir` loop in stats mode. -/
def statsLoop (minSize : Int) : List FdEnt → Stats → Stats
  | [], stats => stats
  | d :: ds, stats =>
    match matchFd minSize d with
    | none => statsLoop minSize ds stats
    | some (_, _, st) => statsLoop minSize ds ⟨stats.count + 1, toInt64 (stats.totalBytes + st.size)⟩

/-- `scan_one_pid(NULL, stats, …)`; it has no failing path. -/
def scanOnePidStats (snap : Snapshot) (minSize : Int) (uidFilter : Nat) (stats : Stats) (pid : Int) :
    Stats :=
  match openFds snap uidFilter pid with
  | none => stats
  | some (_, ds) => statsLoop minSize ds stats

end Scan
end Hsed
