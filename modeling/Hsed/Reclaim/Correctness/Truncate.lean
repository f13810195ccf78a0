import Hsed.Lib.Lts
import Hsed.Reclaim.Reclaim

/-!
# `Reclaim.Correctness.Truncate` — when TRUNCATE hits the file that was shown

The daemon has only a pid and a descriptor to go by. If the process (or a later one with its pid) has put
another file there, that file is emptied (`truncate_hits_other_file`); if it did so around `stat` only, the
size reported is the other file's. In every run in which the descriptor is either gone or still the entry's
own file at the two lookups (`FdSteady`), every command does what the user was shown:
`truncate_hits_shown_file`.
-/

namespace Hsed
namespace Reclaim

open CLib Client Server

/-! ## What a command may leave -/

/-- The condition on a step: at `stat` and at `open` the descriptor is gone or refers to the entry's own
    file. -/
def FdSteady (s : State) : Act → Prop
  | .stat _ =>
    match s.stage with
    | .stat e pid fd => ∀ file, s.world.fds pid fd = some file → file = fileOf e
    | _ => True
  | .openFile _ _ =>
    match s.stage with
    | .opening e pid fd _ _ => ∀ file, s.world.fds pid fd = some file → file = fileOf e
    | _ => True
  | _ => True

/-- A finished command handed no other file to `ftruncate`; if it succeeded, it emptied that file and
    reported its size, and if it failed, it emptied none. -/
structure AsShown (o : Outcome) : Prop where
  passed : ∀ file, o.passed = some file → file = fileOf o.entry
  freed : ∀ n, o.result = .ok n → n = o.shown ∧ o.emptied = some (fileOf o.entry)
  failed : ∀ err, o.result = .error err → o.emptied = none

/-- What a command has found out so far is about the entry's file. -/
def StageOk : Stage → Prop
  | .opening _ _ _ stSize shown => stSize = shown
  | .truncating e _ _ stSize shown file => stSize = shown ∧ file = fileOf e
  | _ => True

structure TruncateInv (s : State) : Prop where
  stage : StageOk s.stage
  outcomes : ∀ o ∈ s.outcomes, AsShown o

theorem TruncateInv.fail {s : State} (hinv : TruncateInv s) {e : HiddenEntry} {passed : Option FileId}
    (hpassed : ∀ file, passed = some file → file = fileOf e) (err : Bytes) (shown : Int) :
    TruncateInv (s.fail e passed err shown) := by
  refine ⟨trivial, ?_⟩
  intro o ho
  rcases List.mem_append.mp ho with hold | hnew
  · exact hinv.outcomes o hold
  · rw [List.mem_singleton.mp hnew]
    refine ⟨hpassed, ?_, fun _ _ => rfl⟩
    intro n hn
    cases hn

/-- One case per action. -/
theorem truncateInv_step {s s' : State} {a : Act} (hinv : TruncateInv s)
    (hstep : Lts.Guarded FdSteady step s a s') : TruncateInv s' := by
  obtain ⟨hsteady, -, hnext⟩ := hstep
  cases a with
  | process a =>
      cases hnext
      exact ⟨hinv.stage, hinv.outcomes⟩
  | scan entries =>
      simp only [next] at hnext
      split at hnext
      · cases hnext; exact ⟨trivial, hinv.outcomes⟩
      · cases hnext; exact ⟨trivial, hinv.outcomes⟩
      · cases hnext
  | confirm e =>
      simp only [next] at hnext
      split at hnext
      · split at hnext
        · cases hnext; exact ⟨trivial, hinv.outcomes⟩
        · cases hnext
      · cases hnext
  | request =>
      simp only [next] at hnext
      split at hnext
      · cases hnext; exact ⟨trivial, hinv.outcomes⟩
      · cases hnext
  | stat strerror =>
      simp only [next] at hnext
      split at hnext
      next e pid fd hstage =>
        split at hnext
        · cases hnext
          exact hinv.fail (by simp) _ _
        next file hfile =>
          cases hnext
          -- the file `stat` saw is the entry's
          simp only [FdSteady, hstage] at hsteady
          obtain rfl := hsteady file hfile
          exact ⟨rfl, hinv.outcomes⟩
      · cases hnext
  | openFile granted strerror =>
      simp only [next] at hnext
      split at hnext
      next e pid fd stSize shown hstage =>
        have hst := hinv.stage
        rw [hstage] at hst
        split at hnext
        next file hfile =>
          simp only [FdSteady, hstage] at hsteady
          obtain rfl := hsteady file hfile
          split at hnext
          · cases hnext
            exact ⟨⟨hst, rfl⟩, hinv.outcomes⟩
          · cases hnext
            exact hinv.fail (by simp) _ _
        · cases hnext
          exact hinv.fail (by simp) _ _
      · cases hnext
  | ftruncate granted strerror =>
      simp only [next] at hnext
      split at hnext
      next e pid fd stSize shown file hstage =>
        have hst := hinv.stage
        rw [hstage] at hst
        obtain ⟨hsize, hfile⟩ := hst
        split at hnext
        · cases hnext
          refine ⟨trivial, ?_⟩
          intro o ho
          rcases List.mem_append.mp ho with hold | hnew
          · exact hinv.outcomes o hold
          · rw [List.mem_singleton.mp hnew]
            refine ⟨?_, ?_, ?_⟩
            · intro f hf
              cases hf
              exact hfile
            · intro n hn
              cases hn
              exact ⟨hsize, congrArg some hfile⟩
            · intro err herr
              cases herr
        · cases hnext
          refine hinv.fail ?_ _ _
          intro f hf
          cases hf
          exact hfile
      · cases hnext

/-- A step of the client or the daemon changes the size of a file only by finishing a command that
    emptied it. -/
theorem emptied_of_size_ne {s s' : State} {a : Act} (hnext : next s a = some s') (ha : ∀ p, a ≠ .process p)
    {file : FileId} (hsize : s'.world.size file ≠ s.world.size file) :
    ∃ o, s'.outcomes = s.outcomes ++ [o] ∧ o.emptied = some file := by
  cases a with
  | process a => exact absurd rfl (ha a)
  | ftruncate granted strerror =>
      simp only [next] at hnext
      split at hnext
      next e pid fd stSize shown f hstage =>
        split at hnext
        · cases hnext
          refine ⟨_, rfl, ?_⟩
          by_contra hne
          have hne' : file ≠ f := fun heq => hne (by rw [heq])
          exact hsize (Function.update_of_ne hne' _ _)
        · cases hnext
          exact absurd rfl hsize
      · cases hnext
  | _ =>
      -- no other action writes a size
      exfalso
      apply hsize
      simp only [next] at hnext
      repeat' split at hnext
      all_goals cases hnext
      all_goals rfl

/-- **TRUNCATE hits the file that was shown.** In every run of processes, client and daemon in which the
    descriptor is gone or still the entry's own file at the daemon's two lookups: every command that has
    finished did `AsShown`, and a further step of the client or the daemon changes the size of a file only
    by finishing a command that emptied the file of its entry. -/
theorem truncate_hits_shown_file (w : World) (acts : List Act) (s : State)
    (hrun : Lts.Run (Lts.Guarded FdSteady step) (State.start w) acts s) :
    (∀ o ∈ s.outcomes, AsShown o) ∧
      ∀ a s', Lts.Guarded FdSteady step s a s' → (∀ p, a ≠ .process p) →
        ∀ file, s'.world.size file ≠ s.world.size file →
          ∃ o, s'.outcomes = s.outcomes ++ [o] ∧ file = fileOf o.entry ∧ ∃ n, o.result = .ok n := by
  have hinv : TruncateInv s :=
    hrun.invariant ⟨trivial, by simp [State.start]⟩ fun s a s' h hstep => truncateInv_step h hstep
  refine ⟨hinv.outcomes, ?_⟩
  intro a s' hstep ha file hsize
  obtain ⟨o, ho, hemptied⟩ := emptied_of_size_ne hstep.2.2 ha hsize
  have hok := (truncateInv_step hinv hstep).outcomes o (by rw [ho]; simp)
  cases hres : o.result with
  | error err =>
      rw [hok.failed err hres] at hemptied
      cases hemptied
  | ok n =>
      have hfile := (hok.freed n hres).2
      rw [hemptied] at hfile
      exact ⟨o, ho, Option.some.inj hfile, n, hres⟩

/-! ### One entry -/

/-- A log of 100 bytes, deleted and held open by process 12 as descriptor 3. -/
def deletedLog : HiddenEntry := { HiddenEntry.zero with pid := 12, fd := 3, size := 100, inode := 1, devMajor := 8 }

def otherFile : FileId := ⟨8, 0, 2⟩

def logWorld : World where
  fds pid fd := if pid = 12 ∧ fd = 3 then some (fileOf deletedLog) else none
  size file := if file = otherFile then 7 else 100

/-- From the confirmation to the end, with what process 12 does in between. -/
def confirmAndTruncate (between : List Act) : List Act :=
  .confirm deletedLog :: between ++ [.request, .stat [], .openFile true [], .ftruncate true []]

theorem scan_logWorld :
    step (State.start logWorld) (.scan [deletedLog]) ⟨logWorld, .listed [deletedLog], []⟩ := by
  refine ⟨?_, rfl⟩
  intro e he
  rw [List.mem_singleton.mp he]
  exact ⟨rfl, rfl⟩

/-- Process 12 writes to the log meanwhile. -/
theorem truncate_hits_shown_file_grown :
    ∃ s, Lts.Run (Lts.Guarded FdSteady step) (State.start logWorld)
        (.scan [deletedLog] :: confirmAndTruncate [.process (.resize (fileOf deletedLog) 150)]) s ∧
      s.outcomes ≠ [] ∧ (∀ o ∈ s.outcomes, AsShown o) ∧
        ∀ a s', Lts.Guarded FdSteady step s a s' → (∀ p, a ≠ .process p) →
          ∀ file, s'.world.size file ≠ s.world.size file →
            ∃ o, s'.outcomes = s.outcomes ++ [o] ∧ file = fileOf o.entry ∧ ∃ n, o.result = .ok n := by
  obtain ⟨s, hrun, hsome⟩ : ∃ s, Lts.Run (Lts.Guarded FdSteady step) (State.start logWorld)
      (.scan [deletedLog] :: confirmAndTruncate [.process (.resize (fileOf deletedLog) 150)]) s ∧
      s.outcomes ≠ [] := by
    refine ⟨_, .snoc (.snoc (.snoc (.snoc (.snoc (.snoc (.snoc .nil ⟨trivial, scan_logWorld⟩)
      ⟨trivial, trivial, rfl⟩) ⟨trivial, trivial, rfl⟩) ⟨trivial, trivial, rfl⟩) ⟨?_, trivial, rfl⟩)
      ⟨?_, trivial, rfl⟩) ⟨trivial, trivial, rfl⟩, by simp⟩
    · intro file hfile
      cases hfile
      rfl
    · intro file hfile
      cases hfile
      rfl
  obtain ⟨hout, hsize⟩ := truncate_hits_shown_file _ _ _ hrun
  exact ⟨s, hrun, hsome, hout, hsize⟩

/-- Process 12 rotates its log: it closes descriptor 3 and opens another file, which gets the same number.
    That file is emptied, and its 7 bytes are reported as freed. -/
theorem truncate_hits_other_file :
    ∃ s, Lts.Run step (State.start logWorld)
        (.scan [deletedLog] ::
          confirmAndTruncate [.process (.close 12 3), .process (.openFile 12 3 otherFile)]) s ∧
      s.world.size otherFile = 0 ∧
        ∃ o ∈ s.outcomes, o.entry = deletedLog ∧ o.passed = some otherFile ∧ otherFile ≠ fileOf deletedLog ∧
          o.emptied = some otherFile ∧ o.result = .ok 7 := by
  refine ⟨_, .snoc (.snoc (.snoc (.snoc (.snoc (.snoc (.snoc (.snoc .nil ⟨scan_logWorld.1, rfl⟩)
    ⟨trivial, rfl⟩) ⟨trivial, rfl⟩) ⟨trivial, rfl⟩) ⟨trivial, rfl⟩) ⟨trivial, rfl⟩) ⟨trivial, rfl⟩)
    ⟨trivial, rfl⟩, rfl, ?_⟩
  exact ⟨⟨deletedLog, some otherFile, some otherFile, .ok 7, 100⟩, List.mem_singleton.mpr rfl, rfl, rfl,
    by decide, rfl, rfl⟩

end Reclaim
end Hsed
