import Hsed.Tui.Correctness.Listed

/-!
# `Tui.Correctness.Notices` — what the user is told of a finished action

The label of a finished action goes a long way: a message to the screen on top, a pop with a result, a forward to
the screen below, the notice of the table; and any key or timer may come between. `keeps_told` follows it, for any
condition `T` that the commands' own labels meet.
-/

namespace Hsed
namespace Tui

open CLib Lts
open Client (HiddenEntry)

variable {W : Widgets}

/-- Two conditions at once; the outcomes may be judged knowing that the command meets the first. -/
theorem Keeps.both {O O₁ O₂ : Cmd W → Outcome W → Prop} {P₁ P₂ : Screen W → Prop} {C₁ C₂ : Cmd W → Prop}
    {M₁ M₂ : Msg W → Prop} (h₁ : Keeps O₁ P₁ C₁ M₁) (h₂ : Keeps O₂ P₂ C₂ M₂)
    (hO₁ : ∀ c i o r, c.finish i o = some r → O c o → O₁ c o) (hO₂ : ∀ c o, C₁ c → O c o → O₂ c o) :
    Keeps O (fun s => P₁ s ∧ P₂ s) (fun c => C₁ c ∧ C₂ c) (fun m => M₁ m ∧ M₂ m) where
  key k := ⟨h₁.key k, h₂.key k⟩
  windowSize width height := ⟨h₁.windowSize width height, h₂.windowSize width height⟩
  result v sender h := ⟨h₁.result v sender h.1, h₂.result v sender h.2⟩
  quit := ⟨h₁.quit, h₂.quit⟩
  pushed s h := ⟨h₁.pushed s h.1, h₂.pushed s h.2⟩
  resize s width height h := ⟨h₁.resize s width height h.1, h₂.resize s width height h.2⟩
  init s h := ⟨⟨(h₁.init s h.1).1, (h₂.init s h.2).1⟩, fun c hc => ⟨(h₁.init s h.1).2 c hc, (h₂.init s h.2).2 c hc⟩⟩
  update fresh m s hs hm := by
    obtain ⟨hscreen₁, hcmds₁⟩ := h₁.update fresh m s hs.1 hm.1
    obtain ⟨hscreen₂, hcmds₂⟩ := h₂.update fresh m s hs.2 hm.2
    exact ⟨⟨hscreen₁, hscreen₂⟩, fun c hc => ⟨hcmds₁ c hc, hcmds₂ c hc⟩⟩
  finish c i o m session hc ho h :=
    ⟨h₁.finish c i o m session hc.1 (hO₁ c i o _ h ho) h, h₂.finish c i o m session hc.2 (hO₂ c o hc.1 ho) h⟩

theorem Throughout.both {P₁ P₂ : Screen W → Prop} {C₁ C₂ : Cmd W → Prop} {M₁ M₂ : Msg W → Prop} {p : Program W}
    (h₁ : Throughout P₁ C₁ M₁ p) (h₂ : Throughout P₂ C₂ M₂ p) :
    Throughout (fun s => P₁ s ∧ P₂ s) (fun c => C₁ c ∧ C₂ c) (fun m => M₁ m ∧ M₂ m) p where
  stack s hs := ⟨h₁.stack s hs, h₂.stack s hs⟩
  flight := ⟨fun c hc => ⟨h₁.flight.1 c hc, h₂.flight.1 c hc⟩, fun m hm => ⟨h₁.flight.2 m hm, h₂.flight.2 m hm⟩⟩

/-! ## Labels on their way -/

section

variable (T : Label → Prop)

/-- The label a finished command answers with is true. -/
def Reports (c : Cmd W) (o : Outcome W) : Prop :=
  ∀ i label session, c.finish i o = some (.actionResult (.ok label), session) → T label

/-- The table's notice is true. -/
def Screen.Told : Screen W → Prop
  | .table s => ∀ label, s.notice = some label → T label
  | _ => True

/-- The label a screen leaves behind is true. -/
def Result.Told : Result → Prop
  | .confirmed _ => True
  | .note label => T label

def Cmd.Told : Cmd W → Prop
  | .push s => s.Told T
  | .popResult v _ => v.Told T
  | _ => True

def Msg.Told : Msg W → Prop
  | .push s => s.Told T
  | .pop (some v) _ => v.Told T
  | .result v => v.Told T
  | .actionResult (.ok label) => T label
  | _ => True

variable {T}

/-- Only a result makes a notice. -/
theorem TableScreen.notice_update (s : TableScreen W) (m : Msg W) :
    (s.update m).1.notice = s.notice ∨ (s.update m).1.notice = none ∨
      ∃ label, m = .result (.note label) ∧ (s.update m).1.notice = some label := by
  have hfiltering : ∀ k, (s.updateFiltering k).1.notice = s.notice := by
    intro k
    unfold TableScreen.updateFiltering
    split <;> rfl
  unfold TableScreen.update
  split
  case h_4 label => exact .inr (.inr ⟨label, rfl, rfl⟩)
  case h_6 k =>
    split
    · exact .inl (hfiltering k)
    · split
      case h_2 => exact .inr (.inl rfl)
      case h_5 => split <;> exact .inl rfl
      all_goals exact .inl rfl
  all_goals exact .inl rfl

/-- A `DetailScreen` leaves behind the label it was sent. -/
theorem DetailScreen.told_cmds {fresh : Nat} {s : DetailScreen} {m : Msg W} (hm : m.Told T) :
    ∀ c ∈ (s.update fresh m).2, c.Told T := by
  intro c hc
  unfold DetailScreen.update at hc
  split at hc
  case h_1 =>
    obtain ⟨a, -, rfl⟩ := Option.map_eq_some_iff.mp (Option.mem_toList.mp hc)
    cases a <;> exact trivial
  case h_4 =>
    rw [List.mem_singleton.mp hc]
    exact hm
  case h_7 => rw [List.mem_singleton.mp hc]; exact trivial
  case h_8 => rw [List.mem_singleton.mp hc]; exact trivial
  case h_9 => rw [List.mem_singleton.mp hc]; exact trivial
  case h_5 => rw [List.mem_singleton.mp hc]; exact trivial
  case h_6 => rw [List.mem_singleton.mp hc]; exact trivial
  all_goals cases hc

/-- **One `Update`**, screen by screen. -/
theorem Screen.told_update {fresh : Nat} {m : Msg W} {s : Screen W} (hs : s.Told T) (hm : m.Told T) :
    (s.update fresh m).screen.Told T ∧ ∀ c ∈ (s.update fresh m).cmds, c.Told T := by
  cases s with
  | table s =>
      constructor
      · intro label hlabel
        rcases s.notice_update m with heq | heq | ⟨label', rfl, heq⟩
        · -- the notice stays, goes, or is what a popped screen left
          exact hs label (heq.symm.trans hlabel)
        · cases heq.symm.trans hlabel
        · obtain rfl := Option.some.inj (heq.symm.trans hlabel)
          exact hm
      · intro c hc
        rcases TableScreen.mem_cmds hc with rfl | ⟨-, rfl⟩ | rfl | ⟨e, rfl⟩ | ⟨entries, rfl⟩ | ⟨job, rfl⟩
        all_goals exact trivial
  | tree s =>
      refine ⟨trivial, ?_⟩
      intro c hc
      rcases TreeScreen.mem_cmds hc with rfl | ⟨e, rfl⟩
      all_goals exact trivial
  | detail s => exact ⟨trivial, DetailScreen.told_cmds hm⟩
  | confirm s =>
      refine ⟨trivial, ?_⟩
      intro c hc
      obtain ⟨k, rfl⟩ := ConfirmScreen.mem_cmds hc
      exact trivial
  | killConfirm s =>
      refine ⟨trivial, ?_⟩
      intro c hc
      rcases KillConfirmScreen.mem_cmds hc with ⟨b, rfl, -⟩ | ⟨job, rfl⟩
      all_goals exact trivial
  | stream s =>
      refine ⟨trivial, ?_⟩
      intro c hc
      rcases StreamScreen.mem_cmds hc with ⟨-, rfl⟩ | ⟨session, -, rfl⟩ | ⟨ev, src, -, rfl⟩
      all_goals exact trivial

theorem Screen.told_resize {s : Screen W} (hs : s.Told T) (width height : Int) : (s.resize width height).Told T := by
  cases s with
  | table s =>
      show ∀ label, (if width ≤ 0 then s else _).notice = some label → T label
      split <;> exact hs
  | _ => exact hs

theorem Screen.told_init {s : Screen W} (hs : s.Told T) : s.init.1.Told T ∧ ∀ c ∈ s.init.2, c.Told T := by
  constructor
  · cases s <;> exact hs
  · intro c hc
    rcases Screen.mem_cmds_init hc with ⟨t, -, hc⟩ | ⟨t, -, rfl⟩ | ⟨job, rfl⟩
    · rcases List.mem_cons.mp hc with rfl | hc
      · exact trivial
      · rw [List.mem_singleton.mp hc]
        exact trivial
    · exact trivial
    · exact trivial

/-- A finished command passes on the label it carried, or answers with its own. -/
theorem Cmd.told_finish {c : Cmd W} {i : SessionId} {o : Outcome W} {m : Msg W} {session : Option Session}
    (hc : c.Told T) (ho : Reports T c o) (h : c.finish i o = some (m, session)) : m.Told T := by
  have haction : ∀ r, m = .actionResult r → m.Told T := by
    rintro r rfl
    cases r with
    | error err => exact trivial
    | ok label => exact ho i label session h
  unfold Cmd.finish at h
  split at h
  case h_16 => cases h
  all_goals
    obtain ⟨rfl, -⟩ := Prod.mk.inj (Option.some.inj h)
    first
      | exact trivial
      | exact hc
      | exact haction _ rfl

/-- **A true label stays true**, and no other label is shown. -/
theorem keeps_told (T : Label → Prop) :
    Keeps (W := W) (Reports T) (Screen.Told T) (Cmd.Told T) (Msg.Told T) where
  key _ := trivial
  windowSize _ _ := trivial
  result _ _ h := h
  quit := trivial
  pushed _ h := h
  resize _ width height h := Screen.told_resize h width height
  init _ h := Screen.told_init h
  update _ _ _ hs hm := Screen.told_update hs hm
  finish _ _ _ _ _ hc ho h := Cmd.told_finish hc ho h

theorem told_start (T : Label → Prop) (minSize onlyPid uidFilter interval : Int) :
    Throughout (Screen.Told T) (Cmd.Told T) (Msg.Told T) (Program.start W minSize onlyPid uidFilter interval) := by
  have hroot : Screen.Told T (.table (newTableScreen (W := W) minSize onlyPid uidFilter interval)) := by
    intro label hlabel
    cases hlabel
  refine ⟨List.forall_mem_singleton.mpr hroot, ?_, List.forall_mem_nil _⟩
  exact List.forall_mem_cons.mpr ⟨trivial, List.forall_mem_singleton.mpr trivial⟩

end

end Tui
end Hsed
