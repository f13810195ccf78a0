import Hsed.Server.Listen

/-!
# `Server.Correctness.Listen` — who can reach the daemon's socket

The daemon protects its socket with a `chmod` of the path it was given, and removes it by that path. Both act on
the file that was bound as long as the path is what stands in `sun_path`: `socket_private_iff`.
-/

namespace Hsed
namespace Server

open CLib

/-- **A private socket.** On whatever files the server starts and whatever its system calls return: in the
    accept loop it listens at `socketPath`, which is a socket only its owner can use, and when it returns the
    file it bound is gone. -/
def SocketPrivate (socketPath : Bytes) (umask : Perm) : Prop :=
  ∀ (files : Files) (sys : ListenSys),
    (∀ reached, (hsedServerRun socketPath umask files sys).listening = some reached →
      (hsedServerRun socketPath umask files sys).bound = some (.file socketPath) ∧
      reached socketPath = some ⟨.socket, 0o600#9⟩) ∧
    ∀ name, (hsedServerRun socketPath umask files sys).bound = some (.file name) →
      (hsedServerRun socketPath umask files sys).files name = none

/-- The path fits into `sun_path` and is not empty. -/
def FitsSunPath (socketPath : Bytes) : Prop := socketPath ≠ [] ∧ socketPath.length < sunPathSize

/-! ## One path for all -/

theorem strlcpy_of_fits {socketPath : Bytes} (h : FitsSunPath socketPath) :
    strlcpy sunPathSize socketPath = socketPath :=
  List.take_of_length_le (Nat.le_sub_one_of_lt h.2)

theorem unlink_of_file {files : Files} {path : Bytes} {node : FileNode} (h : files path = some node)
    (hk : node.kind ≠ .directory) : unlink files path = Function.update files path none := by
  unfold unlink
  rw [h]
  exact if_neg hk

theorem chmod_of_file {files : Files} {path : Bytes} {node : FileNode} (h : files path = some node) (mode : Perm) :
    chmod files path mode = Function.update files path (some { node with mode := mode }) := by
  unfold chmod
  rw [h]

/-- What a successful `bind` does to a name that is not empty. -/
theorem bindSocket_file {files files' : Files} {umask : Perm} {name : Bytes} (hne : name ≠ []) {address : Address}
    (h : bindSocket files umask name = some (address, files')) :
    address = .file name ∧ files' = Function.update files name (some ⟨.socket, 0o777#9 &&& ~~~umask⟩) := by
  unfold bindSocket at h
  rw [if_neg hne] at h
  split at h
  · cases h
  · obtain ⟨rfl, rfl⟩ := Prod.mk.inj (Option.some.inj h)
    exact ⟨rfl, rfl⟩

/-- **A path that fits.** Bound, restricted and removed under one name. -/
theorem private_of_fits {socketPath : Bytes} (hfit : FitsSunPath socketPath) (umask : Perm) :
    SocketPrivate socketPath umask := by
  intro files sys
  unfold hsedServerRun
  simp only [strlcpy_of_fits hfit]
  cases sys.socketOk with
  | false => exact ⟨nofun, nofun⟩
  | true =>
      simp only [Bool.not_true, Bool.false_eq_true, if_false]
      split
      · exact ⟨nofun, nofun⟩
      next address bound hbind =>
        have hbind : bindSocket (unlink files socketPath) umask socketPath = some (address, bound) := by
          split at hbind
          · exact hbind
          · cases hbind
        obtain ⟨rfl, rfl⟩ := bindSocket_file hfit.1 hbind
        -- the mode is set on the file that was bound
        rw [chmod_of_file (Function.update_self _ _ _), Function.update_idem]
        have hgone : ∀ name, some (Address.file socketPath) = some (.file name) →
            unlink (Function.update (unlink files socketPath) socketPath (some ⟨.socket, 0o600#9⟩)) socketPath name =
              none := by
          intro name hname
          obtain rfl := Address.file.inj (Option.some.inj hname)
          rw [unlink_of_file (Function.update_self _ _ _) (by decide), Function.update_self]
        cases sys.listenOk with
        | false => exact ⟨nofun, hgone⟩
        | true =>
            refine ⟨?_, hgone⟩
            rintro reached hreached
            obtain rfl := Option.some.inj hreached
            exact ⟨rfl, Function.update_self _ _ _⟩

/-! ## Two names -/

/-- Nothing is there yet. -/
def noFiles : Files := fun _ => none

/-- Every call succeeds, and the server is told to stop at once. -/
def allOk : ListenSys := ⟨true, true, true, []⟩

/-- On an empty file system the accept loop is reached, listening at what is left of the path. -/
theorem run_allOk (socketPath : Bytes) (umask : Perm) :
    (hsedServerRun socketPath umask noFiles allOk).listening ≠ none ∧
    (hsedServerRun socketPath umask noFiles allOk).bound =
      some (if socketPath = [] then .unnamed else .file (socketPath.take 107)) := by
  unfold hsedServerRun
  have hunlink : unlink noFiles socketPath = noFiles := rfl
  have hempty : strlcpy sunPathSize socketPath = [] ↔ socketPath = [] := by
    rw [strlcpy, List.take_eq_nil_iff]
    exact or_iff_right (by decide)
  simp only [hunlink, allOk, Bool.not_true, Bool.false_eq_true, if_false, if_true, bindSocket, hempty]
  by_cases hne : socketPath = []
  · simp [hne]
  · simp [hne, noFiles, strlcpy, sunPathSize]

theorem fits_of_private {socketPath : Bytes} {umask : Perm} (h : SocketPrivate socketPath umask) :
    FitsSunPath socketPath := by
  obtain ⟨hlisten, hbound⟩ := run_allOk socketPath umask
  obtain ⟨reached, hreached⟩ := Option.ne_none_iff_exists'.mp hlisten
  have hat := ((h noFiles allOk).1 reached hreached).1
  rw [hbound, Option.some_inj] at hat
  by_cases hne : socketPath = []
  · rw [if_pos hne] at hat
    cases hat
  · rw [if_neg hne] at hat
    have hlen := congrArg List.length (Address.file.inj hat)
    rw [List.length_take] at hlen
    exact ⟨hne, by unfold sunPathSize; omega⟩

/-- **The listening socket is private, exactly when.** For every path and every umask, the server listens at the
    path with mode 0600 and leaves no socket behind, if and only if the path is not empty and is at most the 107
    bytes that fit into `sun_path`. -/
theorem socket_private_iff (socketPath : Bytes) (umask : Perm) :
    SocketPrivate socketPath umask ↔ socketPath ≠ [] ∧ socketPath.length ≤ 107 := by
  constructor
  · intro h
    obtain ⟨hne, hlen⟩ := fits_of_private h
    exact ⟨hne, Nat.le_of_lt_succ hlen⟩
  · rintro ⟨hne, hlen⟩
    exact private_of_fits ⟨hne, Nat.lt_succ_of_le hlen⟩ umask

/-- A path of 120 bytes. -/
def longPath : Bytes := List.replicate 120 0x61

/-- With the umask of `daemonize` its socket is open to everyone, at a shorter name, and stays when the server
    stops. -/
theorem long_path_open :
    (hsedServerRun longPath 0 noFiles allOk).bound = some (.file (longPath.take 107)) ∧
    ((hsedServerRun longPath 0 noFiles allOk).listening.bind fun files => files (longPath.take 107)) =
      some ⟨.socket, 0o777#9⟩ ∧
    (hsedServerRun longPath 0 noFiles allOk).files (longPath.take 107) = some ⟨.socket, 0o777#9⟩ ∧
    ¬ SocketPrivate longPath 0 := by
  refine ⟨by decide +kernel, by decide +kernel, by decide +kernel, ?_⟩
  intro h
  have hfit := (fits_of_private h).2
  rw [longPath, List.length_replicate] at hfit
  exact absurd hfit (by decide)

end Server
end Hsed
