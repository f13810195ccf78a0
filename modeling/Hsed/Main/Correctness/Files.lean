import Hsed.Client.Calls
import Hsed.Main.Main
import Hsed.Server.Correctness.Listen

/-!
# `Main.Correctness.Files` — where the daemon can be found, and what it leaves behind

`main` touches two paths: the socket's and the pidfile's. Where `unlink` and `chmod` do what they are asked and no
name is a link, every file that is there after it was there before and is the same (`main_adds_no_file`). While it
serves, its socket is where the client looks for it, if the two run in the same directory or no relative path was
given (`client_finds_daemon`).
-/

namespace Hsed
namespace Main

open CLib Server

/-! ## Files that come and go -/

/-- Nothing has been added or changed, and nothing but the given names is missing. -/
structure Restores (names : List Bytes) (before after : Files) : Prop where
  old : ∀ name node, after name = some node → before name = some node
  others : ∀ name, name ∉ names → after name = before name

/-- `unlink` does nothing to a name that is free or a directory. -/
theorem unlink_cases (files : Files) (path : Bytes) :
    unlink files path = files ∧ (∀ node, files path = some node → node.kind = .directory) ∨
      unlink files path = Function.update files path none := by
  cases hfile : files path with
  | none =>
      refine .inl ⟨by rw [unlink, hfile], ?_⟩
      intro node hnode
      cases hnode
  | some node =>
      by_cases hdir : node.kind = .directory
      · refine .inl ⟨by rw [unlink, hfile]; exact if_pos hdir, ?_⟩
        rintro node' hnode
        obtain rfl := Option.some.inj hnode
        exact hdir
      · exact .inr (unlink_of_file hfile hdir)

theorem unlink_of_ne (files : Files) {path name : Bytes} (h : name ≠ path) : unlink files path name = files name := by
  rcases unlink_cases files path with ⟨heq, -⟩ | heq
  · rw [heq]
  · rw [heq, Function.update_of_ne h]

/-- What is left under the name itself is a directory. -/
theorem unlink_some {files : Files} {path : Bytes} {node : FileNode} (h : unlink files path path = some node) :
    files path = some node ∧ node.kind = .directory := by
  rcases unlink_cases files path with ⟨heq, hdir⟩ | heq
  · rw [heq] at h
    exact ⟨h, hdir node h⟩
  · rw [heq, Function.update_self] at h
    cases h

theorem restores_unlink (files : Files) (path : Bytes) : Restores [path] files (unlink files path) where
  old := by
    intro name node h
    by_cases hname : name = path
    · rw [hname] at h ⊢
      exact (unlink_some h).1
    · rw [unlink_of_ne files hname] at h
      exact h
  others := by
    intro name hname
    exact unlink_of_ne files (List.ne_of_not_mem_cons hname)

/-- A name that was free is taken, and free again in the end. -/
theorem restores_taken {files : Files} {path : Bytes} {node : FileNode} (hkind : node.kind ≠ .directory) :
    Restores [path] files (unlink (Function.update files path (some node)) path) := by
  rw [unlink_of_file (Function.update_self _ _ _) hkind, Function.update_idem]
  refine ⟨?_, ?_⟩
  · intro name node' h
    by_cases hname : name = path
    · rw [hname, Function.update_self] at h
      cases h
    · rw [Function.update_of_ne hname] at h
      exact h
  · intro name hname
    exact Function.update_of_ne (List.ne_of_not_mem_cons hname) _ _

theorem Restores.trans {names : List Bytes} {a b c : Files} (h₁ : Restores names a b) (h₂ : Restores names b c) :
    Restores names a c where
  old := fun name node h => h₁.old name node (h₂.old name node h)
  others := fun name h => (h₂.others name h).trans (h₁.others name h)

/-! ## The server -/

/-- **A run of the server** with a path that fits. -/
theorem hsedServerRun_restores {socketPath : Bytes} (hfit : FitsSunPath socketPath) (umask : Perm) (files : Files)
    (sys : ListenSys) : Restores [socketPath] files (hsedServerRun socketPath umask files sys).files := by
  have hfirst := restores_unlink files socketPath
  unfold hsedServerRun
  simp only [strlcpy_of_fits hfit]
  cases sys.socketOk with
  | false => exact hfirst
  | true =>
      simp only [Bool.not_true, Bool.false_eq_true, if_false]
      split
      · exact hfirst
      next address bound hbind =>
        have hbind : bindSocket (unlink files socketPath) umask socketPath = some (address, bound) := by
          split at hbind
          · exact hbind
          · cases hbind
        obtain ⟨-, rfl⟩ := bindSocket_file hfit.1 hbind
        rw [chmod_of_file (Function.update_self _ _ _), Function.update_idem]
        -- whether or not it gets to serve, the name it bound is removed
        have hgone := hfirst.trans
          (@restores_taken (unlink files socketPath) socketPath ⟨.socket, 0o600#9⟩ (by decide))
        cases sys.listenOk with
        | false => exact hgone
        | true => exact hgone

/-! ## `main` -/

theorem writePidfile_of_ne (files : Files) {path name : Bytes} (opens : Bool) (h : name ≠ path) :
    writePidfile files path opens name = files name := by
  unfold writePidfile
  cases opens with
  | false => rfl
  | true =>
      cases files path with
      | none => exact Function.update_of_ne h _ _
      | some node => rfl

/-- A directory under the pidfile's name has not been put there by `write_pidfile`. -/
theorem writePidfile_directory {files : Files} {path : Bytes} {opens : Bool} {node : FileNode}
    (h : writePidfile files path opens path = some node) (hdir : node.kind = .directory) :
    files path = some node := by
  unfold writePidfile at h
  cases opens with
  | false => exact h
  | true =>
      cases hfile : files path with
      | some node' =>
          rw [hfile] at h
          rw [← hfile]
          exact h
      | none =>
          simp only [hfile, if_true, Function.update_self, Option.some_inj] at h
          rw [← h] at hdir
          cases hdir

/-- The pidfile is written before the server runs and removed behind it. -/
theorem restores_pidfile {files after : Files} {path pidfile : Bytes} {opens : Bool}
    (h : Restores [path] (writePidfile files pidfile opens) after) :
    Restores [path, pidfile] files (unlink after pidfile) where
  old := by
    intro name node hnode
    by_cases hname : name = pidfile
    · rw [hname] at hnode ⊢
      obtain ⟨hafter, hdir⟩ := unlink_some hnode
      exact writePidfile_directory (h.old _ _ hafter) hdir
    · rw [unlink_of_ne after hname] at hnode
      rw [← writePidfile_of_ne files opens hname]
      exact h.old _ _ hnode
  others := by
    intro name hname
    rw [List.mem_cons, List.mem_singleton, not_or] at hname
    have hpath : name ∉ [path] := by
      rw [List.mem_singleton]
      exact hname.1
    rw [unlink_of_ne after hname.2, h.others name hpath, writePidfile_of_ne files opens hname.2]

theorem Restores.refl (names : List Bytes) (files : Files) : Restores names files files :=
  ⟨fun _ _ h => h, fun _ _ => rfl⟩

theorem Restores.mono {names names' : List Bytes} {a b : Files} (h : Restores names a b) (hsub : names ⊆ names') :
    Restores names' a b := ⟨h.old, fun name hname => h.others name fun hmem => hname (hsub hmem)⟩

theorem serve_restores {o : Options} {sys : Sys} (hfit : FitsSunPath (o.path sys.euid)) (files : Files) :
    Restores [o.path sys.euid, o.pidfile] files (serve o sys files).files := by
  unfold serve
  split
  · exact (hsedServerRun_restores hfit sys.umask files sys.listen).mono (by simp)
  · cases hperror : sys.daemonized.perror sys.strerror with
    | some err => exact Restores.refl _ _
    | none => exact restores_pidfile (hsedServerRun_restores hfit 0 _ sys.listen)

/-- The default path always fits: a uid has at most ten digits. -/
theorem fits_defaultSocketPath {euid : Nat} (h : euid < 2 ^ 32) : FitsSunPath (defaultSocketPath euid) := by
  unfold defaultSocketPath
  split
  · exact ⟨by decide, by decide⟩
  · have hdigits : (decNat euid).length ≤ 10 := decNat_length_le (by decide) (by omega)
    have hlen : (ascii "/tmp/hsed-" ++ decNat euid ++ ascii ".sock").length ≤ 25 := by
      simp only [List.length_append, show (ascii "/tmp/hsed-").length = 10 from rfl,
        show (ascii ".sock").length = 5 from rfl]
      omega
    rw [snprintf_of_lt (by omega)]
    refine ⟨?_, ?_⟩
    · rw [List.append_assoc]
      exact List.cons_ne_nil _ _
    · unfold sunPathSize
      omega

theorem fits_path {o : Options} {euid : Nat} (h : euid < 2 ^ 32)
    (hgiven : ∀ path, o.socketPath = some path → FitsSunPath path) : FitsSunPath (o.path euid) := by
  unfold Options.path
  cases hpath : o.socketPath with
  | none => exact fits_defaultSocketPath h
  | some path => exact hgiven path hpath

/-- **`main` adds no file.** For every argument list, as long as a socket path among the arguments fits into
    `sun_path`, and whatever the system calls return but `unlink` and `chmod`, which succeed on what is there and no
    directory: every file that is there when `main` returns was there before, with the same permissions, and no file
    is missing but what was at the socket's path or the pidfile's. -/
theorem main_adds_no_file (prog : Bytes) (args : List Bytes) (sys : Sys) (files : Files) (heuid : sys.euid < 2 ^ 32)
    (hgiven : ∀ o path, parseArgs args Options.init = .options o → o.socketPath = some path → FitsSunPath path) :
    (∀ name node, (main prog args sys files).files name = some node → files name = some node) ∧
      ∀ name, (main prog args sys files).files name ≠ files name →
        ∃ o, parseArgs args Options.init = .options o ∧ (name = o.path sys.euid ∨ name = o.pidfile) := by
  unfold main
  cases hparse : parseArgs args Options.init with
  | help => exact ⟨fun _ _ h => h, fun name h => absurd rfl h⟩
  | unknown arg => exact ⟨fun _ _ h => h, fun name h => absurd rfl h⟩
  | options o =>
      simp only
      split
      · exact ⟨fun _ _ h => h, fun name h => absurd rfl h⟩
      split
      · exact ⟨fun _ _ h => h, fun name h => absurd rfl h⟩
      · have hrest := serve_restores (fits_path heuid fun path => hgiven o path hparse) files
        refine ⟨hrest.old, ?_⟩
        intro name hne
        refine ⟨o, rfl, ?_⟩
        by_contra hother
        apply hne
        apply hrest.others
        simpa using hother

/-- A server that `main` runs, runs with the path of the options. -/
theorem main_server {prog : Bytes} {args : List Bytes} {sys : Sys} {files : Files} {run : ServerRun}
    (h : (main prog args sys files).server = some run) :
    ∃ o umask files', parseArgs args Options.init = .options o ∧
      run = hsedServerRun (o.path sys.euid) umask files' sys.listen := by
  unfold main at h
  cases hparse : parseArgs args Options.init with
  | help => rw [hparse] at h; cases h
  | unknown arg => rw [hparse] at h; cases h
  | options o =>
      rw [hparse] at h
      simp only at h
      split at h
      · cases h
      split at h
      · cases h
      unfold serve at h
      split at h
      · exact ⟨o, _, _, rfl, (Option.some.inj h).symm⟩
      · cases hperror : sys.daemonized.perror sys.strerror with
        | some err => rw [hperror] at h; cases h
        | none =>
            rw [hperror] at h
            exact ⟨o, _, _, rfl, (Option.some.inj h).symm⟩

theorem newSocketPath_eq {o : Options} {euid : Nat} (heuid : euid < 2 ^ 32)
    (hgiven : ∀ path, o.socketPath = some path → FitsSunPath path) {hsedSocket : Bytes}
    (henv : o.socketPath = none → hsedSocket = []) :
    Client.newSocketPath (o.socketPath.getD []) hsedSocket euid = o.path euid := by
  unfold Client.newSocketPath Options.path
  cases hpath : o.socketPath with
  | some path => exact if_neg (hgiven path hpath).1
  | none =>
      obtain rfl := henv hpath
      -- the daemon prints its uid into 256 bytes, the client without a bound
      have hdigits : (decNat euid).length ≤ 10 := decNat_length_le (by decide) (by omega)
      simp only [Option.getD_none, if_true, Client.defaultSocketPath, ne_eq, not_true_eq_false, if_false,
        defaultSocketPath]
      split
      · rfl
      · rw [snprintf_of_lt]
        simp only [List.length_append, show (ascii "/tmp/hsed-").length = 10 from rfl,
          show (ascii ".sock").length = 5 from rfl]
        omega

/-- The absolute path that `path` stands for in a process in the directory `dir`; `..` is left as it is, so that
    two of these may name one file, but one of them never names two. -/
def resolve (dir path : Bytes) : Bytes := if path.head? = some 0x2f then path else dir ++ ascii "/" ++ path

theorem resolve_of_absolute {path : Bytes} (h : path.head? = some 0x2f) (dir : Bytes) : resolve dir path = path :=
  if_pos h

/-- The default is an absolute path. -/
theorem head_defaultSocketPath (euid : Nat) : (defaultSocketPath euid).head? = some 0x2f := by
  unfold defaultSocketPath
  split
  · rfl
  · rw [snprintf, List.append_assoc]
    rfl

theorem head_path {o : Options} (h : ∀ path, o.socketPath = some path → path.head? = some 0x2f) (euid : Nat) :
    (o.path euid).head? = some 0x2f := by
  unfold Options.path
  cases hpath : o.socketPath with
  | none => exact head_defaultSocketPath euid
  | some given => exact h given hpath

/-- **Where the client finds the daemon.** Started by the same user and told the same socket path (then whatever
    `HSED_SOCKET` is), or neither told any and `HSED_SOCKET` not set: the daemon, when it listens, is at a socket that
    only its owner can use, and the client connects to that very file if it runs in the directory in which the daemon
    serves, which is `/` for one in the background, or no relative path was given. -/
theorem client_finds_daemon {prog : Bytes} {args : List Bytes} {sys : Sys} {files : Files} {o : Options}
    (heuid : sys.euid < 2 ^ 32) (hparse : parseArgs args Options.init = .options o)
    (hgiven : ∀ path, o.socketPath = some path → FitsSunPath path) {run : ServerRun}
    (hrun : (main prog args sys files).server = some run) {reached : Files} (hreached : run.listening = some reached)
    {hsedSocket : Bytes} (henv : o.socketPath = none → hsedSocket = []) (clientDir : Bytes) :
    ∃ path, run.bound = some (.file path) ∧ reached path = some ⟨.socket, 0o600#9⟩ ∧
      (clientDir = sys.directory o ∨ (∀ given, o.socketPath = some given → given.head? = some 0x2f) →
        resolve clientDir (Client.newSocketPath (o.socketPath.getD []) hsedSocket sys.euid) =
          resolve (sys.directory o) path) := by
  obtain ⟨o', umask, files', hparse', rfl⟩ := main_server hrun
  rw [hparse] at hparse'
  obtain rfl := Parsed.options.inj hparse'
  obtain ⟨hbound, hmode⟩ := (private_of_fits (fits_path heuid hgiven) umask files' sys.listen).1 reached hreached
  refine ⟨o.path sys.euid, hbound, hmode, ?_⟩
  rw [newSocketPath_eq heuid hgiven henv]
  rintro (rfl | habs)
  · rfl
  · rw [resolve_of_absolute (head_path habs _), resolve_of_absolute (head_path habs _)]

/-! ### A user's daemon -/

/-- User 1000, on a machine where every call succeeds. -/
def userSys : Sys :=
  ⟨1000, 0o022#9, ascii "/home/user", fun _ _ _ _ => none, fun _ _ _ => none, [], .done, true, true, allOk⟩

theorem userSys_unnamed (path : Bytes) (o : Options) (h : parseArgs [] Options.init = .options o)
    (hpath : o.socketPath = some path) : FitsSunPath path := by
  cases h
  cases hpath

/-- Without arguments, over a stale pidfile: it is gone, and nothing else has changed. -/
theorem main_adds_no_file_user :
    ∃ files, files = (main (ascii "hsedd") [] userSys
        (Function.update noFiles (ascii "/run/hsed.pid") (some ⟨.regular, 0o644#9⟩))).files ∧
      ∀ name node, files name = some node →
        Function.update noFiles (ascii "/run/hsed.pid") (some ⟨.regular, 0o644#9⟩) name = some node :=
  ⟨_, rfl, (main_adds_no_file (ascii "hsedd") [] userSys _ (by decide) fun o path => userSys_unnamed path o).1⟩

/-- It listens at the path to which a client of that user connects from anywhere. -/
theorem client_finds_daemon_user :
    ∃ run reached path, (main (ascii "hsedd") [] userSys noFiles).server = some run ∧ run.listening = some reached ∧
      run.bound = some (.file path) ∧ reached path = some ⟨.socket, 0o600#9⟩ ∧
      resolve (ascii "/home/user") (ascii "/tmp/hsed-1000.sock") = resolve (ascii "/") path := by
  obtain ⟨run, hrun⟩ : ∃ run, (main (ascii "hsedd") [] userSys noFiles).server = some run := ⟨_, rfl⟩
  have hlisten : run.listening ≠ none := by
    obtain rfl := Option.some.inj hrun
    decide +kernel
  obtain ⟨reached, hreached⟩ := Option.ne_none_iff_exists'.mp hlisten
  obtain ⟨path, hbound, hmode, hsame⟩ := client_finds_daemon (by decide) rfl
    (fun path => userSys_unnamed path _ rfl) hrun hreached (fun _ => rfl) (ascii "/home/user")
  refine ⟨run, reached, path, hrun, hreached, hbound, hmode, hsame (.inr ?_)⟩
  intro given hgiven
  cases hgiven

end Main
end Hsed
