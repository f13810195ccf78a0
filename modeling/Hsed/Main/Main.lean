import Hsed.Server.Listen
import Hsed.Server.Server

/-!
# `Main.Main` — the daemon's command line and its way to the server (`hsed.c`)

`main` reads its arguments into `Options`, and then lists once, counts once, or goes into the background and runs
the server between writing and removing a pidfile. What it finds outside is a `Sys`; what it leaves is a `Run`.
What it logs, and what it writes into the pidfile, is left out.
-/

namespace Hsed
namespace Main

open CLib Scan Wire Server

/-! ## Options -/

/-- The variables that the arguments set. -/
structure Options where
  foreground : Bool
  scanOnce : Bool
  statsOnce : Bool
  socketPath : Option Bytes
  pidfile : Bytes
  maxCapture : Nat
  minSize : Int
  uidFilter : Nat
  scanThreads : Int
  deriving DecidableEq, Repr

/-- Their initial values. -/
def Options.init : Options := ⟨false, false, false, none, ascii "/run/hsed.pid", 200, 0, hsedUidAny, 0⟩

/-- The arguments that stand alone. -/
def flags : List (Bytes × (Options → Options)) :=
  [ (ascii "--foreground", fun o => { o with foreground := true }),
    (ascii "--scan-once", fun o => { o with scanOnce := true }),
    (ascii "--stats-once", fun o => { o with statsOnce := true }) ]

/-- Those that take the argument behind them, with what they read from it. -/
def valued : List (Bytes × (Bytes → Options → Options)) :=
  [ (ascii "--socket", fun v o => { o with socketPath := some v }),
    (ascii "--pidfile", fun v o => { o with pidfile := v }),
    (ascii "--max-capture", fun v o => { o with maxCapture := strtoul v }),
    (ascii "--min-size", fun v o => { o with minSize := strtol v }),
    (ascii "--uid", fun v o => { o with uidFilter := toUInt32 (strtoul v) }),
    (ascii "--scan-threads", fun v o => { o with scanThreads := atoi v }) ]

def helpWords : List Bytes := [ascii "--help", ascii "-h"]

/-- How the loop over `argv` ends. -/
inductive Parsed where
  | options (o : Options)
  | help
  | unknown (arg : Bytes)
  deriving DecidableEq, Repr

/-- The loop over `argv`, from the first argument on. -/
def parseArgs : List Bytes → Options → Parsed
  | [], o => .options o
  | arg :: rest, o =>
    match flags.lookup arg with
    | some set => parseArgs rest (set o)
    | none =>
      match valued.lookup arg, rest with
      | some set, v :: rest => parseArgs rest (set v o)
      -- an option that is the last argument fails its test, and all the tests behind it
      | _, _ => if arg ∈ helpWords then .help else .unknown arg

/-- `print_usage`. -/
def printUsage (prog : Bytes) : Bytes :=
  ascii "Usage: " ++ prog ++ ascii (" [--foreground] [--scan-once] [--stats-once] [--socket PATH] " ++
    "[--pidfile PATH] [--max-capture N] [--min-size N] [--uid N] [--scan-threads N]\n")

/-- `default_socket_path`. -/
def defaultSocketPath (euid : Nat) : Bytes :=
  if euid = 0 then ascii "/run/hsed.sock"
  else snprintf 256 (ascii "/tmp/hsed-" ++ decNat euid ++ ascii ".sock")

/-! ## One listing -/

/-- What `main` prints before it returns, and what it returns. -/
structure Printed where
  code : Int
  stdout : Bytes
  stderr : Bytes
  deriving DecidableEq, Repr

/-- The loop of `run_scan_once`. -/
def printEntries : List Entry → Bytes → Int → Bytes × Int
  | [], out, total => (out, total)
  | e :: es, out, total =>
    printEntries es (out ++ (hsedFormatEntry e linebufSize ++ [0x0a])) (toInt64 (total + e.size))

/-- `run_scan_once`, on what `hsed_scan` returned. -/
def runScanOnce (list : Option (List Entry)) (strerror : Bytes) : Printed :=
  match list with
  | none => ⟨1, [], ascii "scan failed: " ++ strerror ++ [0x0a]⟩
  | some es => ⟨0, (printEntries es [] 0).1 ++ (endText es.length (printEntries es [] 0).2 ++ [0x0a]), []⟩

/-- `run_stats_once`, on what `hsed_scan_stats` returned. -/
def runStatsOnce (stats : Option Stats) (strerror : Bytes) : Printed :=
  match stats with
  | none => ⟨1, [], ascii "stats scan failed: " ++ strerror ++ [0x0a]⟩
  | some st =>
    ⟨0, ascii "\x7b\"type\":\"stats\",\"count\":" ++ decNat st.count ++ ascii ",\"total_bytes\":" ++
      decInt st.totalBytes ++ ascii "\x7d\n", []⟩

/-! ## The daemon -/

/-- How `daemonize` ends. -/
inductive Daemonized where
  | done
  | forkFailed
  | setsidFailed
  deriving DecidableEq, Repr

/-- The `perror` of a failure. -/
def Daemonized.perror (strerror : Bytes) : Daemonized → Option Bytes
  | .done => none
  | .forkFailed => some (ascii "fork: " ++ strerror ++ [0x0a])
  | .setsidFailed => some (ascii "setsid: " ++ strerror ++ [0x0a])

/-- What `main` finds. -/
structure Sys where
  euid : Nat
  umask : Perm
  /-- The working directory at the start. -/
  cwd : Bytes
  /-- `hsed_scan(min_size, only_pid, uid_filter, num_threads)` -/
  scan : Int → Int → Nat → Int → Option (List Entry)
  stats : Int → Nat → Int → Option Stats
  strerror : Bytes
  daemonized : Daemonized
  /-- `chdir("/")` succeeds. -/
  chdirs : Bool
  /-- `fopen` succeeds where the path is no directory. -/
  opens : Bool
  listen : ListenSys

/-- What `main` leaves. For a daemon this is the process that was forked last. -/
structure Run where
  printed : Printed
  server : Option ServerRun
  files : Files

/-- `write_pidfile`, with the umask of `daemonize`. -/
def writePidfile (files : Files) (path : Bytes) (opens : Bool) : Files :=
  if opens then
    match files path with
    | none => Function.update files path (some ⟨.regular, 0o666#9⟩)
    | some _ => files
  else files

/-- What is printed to anyone but root. -/
def rootWarning (euid : Nat) : Bytes :=
  if euid ≠ 0 then
    ascii ("[!] Running without root: only your own processes are visible, " ++
      "and truncate/signal/stream actions will fail with EPERM on " ++
      "anything you don't own. Run with sudo for full coverage.\n")
  else []

/-- The path of the socket. -/
def Options.path (o : Options) (euid : Nat) : Bytes := o.socketPath.getD (defaultSocketPath euid)

/-- The working directory of the process that serves: a `chdir` that fails does not stop `daemonize`. -/
def Sys.directory (sys : Sys) (o : Options) : Bytes :=
  if o.foreground then sys.cwd else if sys.chdirs then ascii "/" else sys.cwd

/-- The second half of `main`. A relative name in `files` is one in `sys.directory o`: no path is used before
    `daemonize` is done. -/
def serve (o : Options) (sys : Sys) (files : Files) : Run :=
  let warning := rootWarning sys.euid
  if o.foreground then
    let run := hsedServerRun (o.path sys.euid) sys.umask files sys.listen
    ⟨⟨if run.rc = 0 then 0 else 1, [], warning⟩, some run, run.files⟩
  else
    match sys.daemonized.perror sys.strerror with
    | some err => ⟨⟨1, [], warning ++ err⟩, none, files⟩
    | none =>
      let run := hsedServerRun (o.path sys.euid) 0 (writePidfile files o.pidfile sys.opens) sys.listen
      ⟨⟨if run.rc = 0 then 0 else 1, [], warning⟩, some run, unlink run.files o.pidfile⟩

/-- `main`. -/
def main (prog : Bytes) (args : List Bytes) (sys : Sys) (files : Files) : Run :=
  match parseArgs args Options.init with
  | .help => ⟨⟨0, [], printUsage prog⟩, none, files⟩
  | .unknown arg => ⟨⟨2, [], ascii "unknown argument: " ++ arg ++ [0x0a] ++ printUsage prog⟩, none, files⟩
  | .options o =>
    if o.scanOnce then
      ⟨runScanOnce (sys.scan o.minSize 0 o.uidFilter o.scanThreads) sys.strerror, none, files⟩
    else if o.statsOnce then ⟨runStatsOnce (sys.stats o.minSize o.uidFilter o.scanThreads) sys.strerror, none, files⟩
    else serve o sys files

end Main
end Hsed
