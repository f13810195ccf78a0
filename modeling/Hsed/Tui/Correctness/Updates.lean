import Hsed.Tui.App

/-!
# `Tui.Correctness.Updates` — what each `Update` can start

One lemma a screen lists the commands its `Update` may return, with the message that makes it. The
invariants of the program are case analyses over these lists and never unfold an `Update`.
-/

namespace Hsed
namespace Tui

open CLib
open Client (HiddenEntry WriteEvent)

variable {W : Widgets}

/-- The action a key asks a `DetailScreen` for. -/
def Key.asks : Key → Option Action
  | .rune 't' => some .truncate
  | .rune 'h' => some .hup
  | .rune 'k' => some .kill
  | _ => none

theorem mem_map_widget {jobs : List W.Job} {c : Cmd W} (h : c ∈ jobs.map Cmd.widget) : ∃ job, c = .widget job := by
  obtain ⟨job, -, rfl⟩ := List.mem_map.mp h
  exact ⟨job, rfl⟩

theorem TableScreen.mem_cmds_filtering {s : TableScreen W} {k : Key} {c : Cmd W} (h : c ∈ (s.updateFiltering k).2) :
    ∃ job, c = .widget job := by
  unfold TableScreen.updateFiltering at h
  split at h
  · simp at h
  · simp at h
  · exact mem_map_widget h

/-- The commands of a `TableScreen`: only a tick arms the next one. -/
theorem TableScreen.mem_cmds {s : TableScreen W} {m : Msg W} {c : Cmd W} (h : c ∈ (s.update m).2) :
    c = s.scanCmd ∨ (m = .tick ∧ c = .tick s.interval) ∨ c = .quit ∨
    (∃ e, c = .push (.detail ⟨e, none, []⟩)) ∨ (∃ entries, c = .push (.tree (newTreeScreen entries))) ∨
    ∃ job, c = .widget job := by
  have hforward : c ∈ (s.forward m).2 → ∃ job, c = .widget job := mem_map_widget
  unfold TableScreen.update at h
  split at h
  case h_3 =>
    rcases List.mem_cons.mp h with h | h
    · exact .inl h
    · exact .inr (.inl ⟨rfl, List.mem_singleton.mp h⟩)
  case h_6 =>
    split at h
    · grind [TableScreen.mem_cmds_filtering h]
    · split at h
      case h_3 => grind [mem_map_widget h]
      case h_5 => split at h <;> grind
      all_goals grind
  all_goals grind

/-- The commands of a `TreeScreen`. -/
theorem TreeScreen.mem_cmds {s : TreeScreen} {m : Msg W} {c : Cmd W} (h : c ∈ (s.update m).2) :
    c = .pop ∨ ∃ e, c = .push (.detail ⟨e, none, []⟩) := by
  have hopen : ∀ row, c ∈ (TreeScreen.open (W := W) s row).2 → ∃ e, c = .push (.detail ⟨e, none, []⟩) := by
    intro row hrow
    unfold TreeScreen.open at hrow
    split at hrow
    · simp at hrow
    · split at hrow <;> grind
  unfold TreeScreen.update at h
  split at h
  case h_7 => split at h <;> grind
  case h_8 => split at h <;> grind
  all_goals grind

/-- The commands of a `DetailScreen`: an action only on a confirming result, a dialog only on its key. -/
theorem DetailScreen.mem_cmds {fresh : Nat} {s : DetailScreen} {m : Msg W} {c : Cmd W}
    (h : c ∈ (s.update fresh m).2) :
    (m = .result (.confirmed true) ∧ ∃ a, s.pending = some a ∧ c = actionCmd s.entry a) ∨
    (∃ label, c = .popResult (.note label) (.detail s.entry)) ∨ c = .pop ∨
    (m = .key (.rune 's') ∧ c = .push (.stream ⟨fresh, s.entry, none, [], []⟩)) ∨
    ∃ k a, m = .key k ∧ k.asks = some a ∧ c = .push (dialog W s.entry a) := by
  unfold DetailScreen.update at h
  split at h
  case h_1 =>
    obtain ⟨a, ha, rfl⟩ := Option.map_eq_some_iff.mp (Option.mem_toList.mp h)
    exact .inl ⟨rfl, a, ha, rfl⟩
  case h_7 => exact .inr (.inr (.inr (.inr ⟨.rune 't', .truncate, rfl, rfl, by simpa [ask] using h⟩)))
  case h_8 => exact .inr (.inr (.inr (.inr ⟨.rune 'h', .hup, rfl, rfl, by simpa [ask] using h⟩)))
  case h_9 => exact .inr (.inr (.inr (.inr ⟨.rune 'k', .kill, rfl, rfl, by simpa [ask] using h⟩)))
  all_goals grind

/-- What a `DetailScreen` remembers: nothing new, unless a key asks. -/
theorem DetailScreen.pending_update (fresh : Nat) (s : DetailScreen) (m : Msg W) :
    (s.update fresh m).1.entry = s.entry ∧
    ((s.update fresh m).1.pending = none ∨
      ((s.update fresh m).1.pending = s.pending ∧ ∀ k, m = .key k → k.asks = none) ∨
      ∃ k a, m = .key k ∧ k.asks = some a ∧ (s.update fresh m).1.pending = some a) := by
  unfold DetailScreen.update
  split
  case h_7 => exact ⟨rfl, .inr (.inr ⟨.rune 't', .truncate, rfl, rfl, rfl⟩)⟩
  case h_8 => exact ⟨rfl, .inr (.inr ⟨.rune 'h', .hup, rfl, rfl, rfl⟩)⟩
  case h_9 => exact ⟨rfl, .inr (.inr ⟨.rune 'k', .kill, rfl, rfl, rfl⟩)⟩
  case h_10 =>
    refine ⟨rfl, .inr (.inl ⟨rfl, ?_⟩)⟩
    rintro k rfl
    unfold Key.asks
    split <;> simp_all
  all_goals simp [Key.asks]

/-- The commands of a `ConfirmScreen`: `true` is the answer to `y` alone. -/
theorem ConfirmScreen.mem_cmds {s : ConfirmScreen} {m : Msg W} {c : Cmd W} (h : c ∈ s.update m) :
    ∃ k, c = .popResult (.confirmed (k = .rune 'y')) (.confirm s.question k) := by
  unfold ConfirmScreen.update at h
  split at h
  · exact ⟨.rune 'y', by simpa using h⟩
  · exact ⟨.rune 'n', by simpa using h⟩
  · exact ⟨.esc, by simpa using h⟩
  · simp at h

/-- The commands of a `KillConfirmScreen`: `true` is the answer to the word alone. -/
theorem KillConfirmScreen.mem_cmds {s : KillConfirmScreen W} {m : Msg W} {c : Cmd W} (h : c ∈ (s.update m).2) :
    (∃ b, c = s.answer b ∧ (b = true → W.value s.input = killConfirmWord)) ∨ ∃ job, c = .widget job := by
  unfold KillConfirmScreen.update at h
  split at h
  · exact .inl ⟨false, by simpa using h, by simp⟩
  · exact .inl ⟨_, by simpa using h, by simp⟩
  · exact .inr (mem_map_widget h)

theorem KillConfirmScreen.question_update (s : KillConfirmScreen W) (m : Msg W) :
    (s.update m).1.question = s.question := by
  unfold KillConfirmScreen.update
  split <;> rfl

/-- The commands of a `StreamScreen`. -/
theorem StreamScreen.mem_cmds {s : StreamScreen} {m : Msg W} {c : Cmd W} (h : c ∈ (s.update m).2.1) :
    (m = .key .esc ∧ c = .pop) ∨ (∃ session, m = .streamAttached session ∧ c = .readNext (some session)) ∨
    (∃ ev src, m = .streamEvent (some ev) src ∧ c = .readNext s.session) := by
  unfold StreamScreen.update at h
  split at h <;> grind

/-- The commands of an `Init`. -/
theorem Screen.mem_cmds_init {s : Screen W} {c : Cmd W} (h : c ∈ s.init.2) :
    (∃ t, s = .table t ∧ c ∈ t.init) ∨ (∃ t, s = .stream t ∧ c = .openStream t.id t.entry) ∨ ∃ job, c = .widget job := by
  cases s with
  | table t => exact .inl ⟨t, rfl, h⟩
  | killConfirm t => exact .inr (.inr (mem_map_widget h))
  | stream t => exact .inr (.inl ⟨t, rfl, by simpa [Screen.init] using h⟩)
  | tree t => simp [Screen.init] at h
  | detail t => simp [Screen.init] at h
  | confirm t => simp [Screen.init] at h

/-- **What `App.Update` does with a message**: it handles four kinds itself and forwards the rest. -/
theorem App.update_cases (fresh : Nat) (m : Msg W) (a : App W) :
    (∃ width height, m = .windowSize width height ∧
      a.update fresh m = ⟨⟨a.top.resize width height, a.below.map (·.resize width height), width, height⟩, [], none⟩) ∨
    (m = .key .ctrlC ∧ a.update fresh m = ⟨a, [.quit], none⟩) ∨
    (∃ s, m = .push s ∧ a.update fresh m =
      ⟨{ a with top := (s.resize a.width a.height).init.1, below := a.top :: a.below },
        (s.resize a.width a.height).init.2, none⟩) ∨
    (∃ sender, m = .pop none sender ∧ a.update fresh m = ⟨a.drop, [], none⟩) ∨
    (∃ v sender, m = .pop (some v) sender ∧ a.update fresh m = a.drop.forward fresh (.result v)) ∨
    (m ≠ .key .ctrlC ∧ a.update fresh m = a.forward fresh m) := by
  unfold App.update
  split
  · exact .inl ⟨_, _, rfl, rfl⟩
  · exact .inr (.inl ⟨rfl, rfl⟩)
  · exact .inr (.inr (.inl ⟨_, rfl, rfl⟩))
  · exact .inr (.inr (.inr (.inl ⟨_, rfl, rfl⟩)))
  · exact .inr (.inr (.inr (.inr (.inl ⟨_, _, rfl, rfl⟩))))
  · exact .inr (.inr (.inr (.inr (.inr ⟨by simp_all, rfl⟩))))

theorem App.stack_drop (a : App W) : a.drop.stack = a.stack ∨ a.stack = a.top :: a.drop.stack := by
  unfold App.drop
  split
  · exact .inl rfl
  · rename_i s below hbelow
    exact .inr (by simp [App.stack, hbelow])

/-- A message that carries neither a screen, a result nor a session. -/
def Msg.plain : Msg W → Bool
  | .push _ | .pop _ _ | .result _ | .streamAttached _ | .streamEvent _ _ => false
  | _ => true

/-- **What a finished command answers.** -/
theorem Cmd.finish_cases {c : Cmd W} {i : SessionId} {o : Outcome W} {m : Msg W} {session : Option Session}
    (h : c.finish i o = some (m, session)) :
    (∃ s, c = .push s ∧ m = .push s ∧ session = none) ∨
    (c = .pop ∧ m = .pop none none ∧ session = none) ∨
    (∃ v sender, c = .popResult v sender ∧ m = .pop (some v) (some sender) ∧ session = none) ∨
    (∃ id e, c = .openStream id e ∧ m = .streamAttached i ∧ session = some ⟨id, e.pid, e.fd, false⟩) ∨
    (∃ src ev, c = .readNext (some src) ∧ m = .streamEvent ev src ∧ session = none) ∨
    (m.plain ∧ session = none) := by
  unfold Cmd.finish at h
  split at h
  case h_16 => cases h
  all_goals
    obtain ⟨rfl, rfl⟩ := Prod.mk.inj (Option.some.inj h)
    simp [Msg.plain]

/-! ## What is under way -/

/-- Every running command meets `P` and every queued message meets `Q`. -/
def InFlight (P : Cmd W → Prop) (Q : Msg W → Prop) (running : List (Cmd W)) (queue : List (Msg W)) : Prop :=
  (∀ c ∈ running, P c) ∧ ∀ m ∈ queue, Q m

section

variable {P : Cmd W → Prop} {Q : Msg W → Prop} {running cmds : List (Cmd W)} {queue : List (Msg W)} {m : Msg W}

theorem InFlight.queued (h : InFlight P Q running queue) (hm : Q m) : InFlight P Q running (queue ++ [m]) := by
  refine ⟨h.1, ?_⟩
  intro m' hm'
  rcases List.mem_append.mp hm' with hm' | hm'
  · exact h.2 m' hm'
  · rwa [List.mem_singleton.mp hm']

theorem InFlight.finished (h : InFlight P Q running queue) (i : Nat) (hm : Q m) :
    InFlight P Q (running.eraseIdx i) (queue ++ [m]) := by
  have hqueued := h.queued hm
  exact ⟨fun c hc => h.1 c (List.mem_of_mem_eraseIdx hc), hqueued.2⟩

theorem InFlight.tail (h : InFlight P Q running (m :: queue)) : InFlight P Q running queue :=
  ⟨h.1, fun m' hm' => h.2 m' (List.mem_cons_of_mem m hm')⟩

theorem InFlight.started (h : InFlight P Q running queue) (hcmds : ∀ c ∈ cmds, P c) :
    InFlight P Q (running ++ cmds) queue := by
  refine ⟨?_, h.2⟩
  intro c hc
  rcases List.mem_append.mp hc with hc | hc
  · exact h.1 c hc
  · exact hcmds c hc

end

end Tui
end Hsed
