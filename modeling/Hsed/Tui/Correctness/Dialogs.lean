import Hsed.Tui.Correctness.Updates

/-!
# `Tui.Correctness.Dialogs` — which answer starts which action

A `DetailScreen` remembers one action and acts on whatever `true` reaches it. Its dialog is pushed later, by
a message of its own, and an answer goes to the screen under whatever is then on top. So two questions on
their way at once get mixed up: `t` and `k` typed before either dialog has opened leave `kill` remembered
under a truncate dialog, and a `y` there kills (`dialogs_mixed_up`).

`actions_confirmed` is the other half. Where each of these keys is handled while nothing but streams and
that very question is under way (`undisturbed`), every action is started by the answer to its own dialog. The
invariant `Untangled` ties each remembered question to all that could still reach it: the screens above it,
the screens on their way, and the answers on their way.
-/

namespace Hsed
namespace Tui

open CLib Lts
open Client (HiddenEntry WriteEvent)

variable {W : Widgets}

/-! ## Questions -/

/-- The question a `DetailScreen` waits for an answer to. -/
def Screen.waits : Screen W → Option Question
  | .detail s => s.pending.map fun a => ⟨s.entry, a⟩
  | _ => none

/-- The screen may stand above one that waits for `q`: a stream, or a dialog that asks it. -/
def Screen.fits (q : Question) : Screen W → Bool
  | .confirm s => s.question = q
  | .killConfirm s => s.question = q
  | .stream _ => true
  | _ => false

/-- Only a `KillConfirmScreen` asks whether to kill. -/
def Screen.wellAsked : Screen W → Bool
  | .confirm s => s.question.action ≠ .kill
  | .killConfirm s => s.question.action = .kill
  | _ => true

def Sender.question : Sender → Option Question
  | .confirm q _ => some q
  | .killConfirm q _ => some q
  | .detail _ => none

/-- What it takes to confirm: `y`, or for a kill the word. -/
def Sender.confirms : Sender → Bool
  | .confirm q k => q.action ≠ .kill && k = .rune 'y'
  | .killConfirm q typed => q.action = .kill && typed = killConfirmWord
  | .detail _ => false

/-- A command that cannot bring an answer to another question than `q`. -/
def Cmd.fits (q : Question) : Cmd W → Bool
  | .push s => s.fits q
  | .popResult (.confirmed true) sender => sender.question = some q
  | _ => true

/-- A message that cannot bring an answer to another question than `q`. -/
def Msg.fits (q : Question) : Msg W → Bool
  | .push s => s.fits q
  | .pop (some (.confirmed true)) sender => sender.bind Sender.question = some q
  | _ => true

/-- A pushed screen is new, and a `true` was confirmed. -/
def Cmd.sound : Cmd W → Bool
  | .push s => s.waits = none && s.wellAsked
  | .popResult (.confirmed true) sender => sender.confirms
  | _ => true

def Msg.sound : Msg W → Bool
  | .push s => s.waits = none && s.wellAsked
  | .pop (some (.confirmed true)) sender => sender.any Sender.confirms
  | .result _ => false
  | _ => true

/-- All that is under way fits `q`. -/
def AllFit (q : Question) : List (Cmd W) → List (Msg W) → Prop := InFlight (fun c => c.fits q) fun m => m.fits q

/-! ## What the screens keep -/

@[simp] theorem Screen.waits_resize (width height : Int) (s : Screen W) : (s.resize width height).waits = s.waits := by
  cases s <;> rfl

@[simp] theorem Screen.fits_resize (q : Question) (width height : Int) (s : Screen W) :
    (s.resize width height).fits q = s.fits q := by
  cases s <;> rfl

@[simp] theorem Screen.wellAsked_resize (width height : Int) (s : Screen W) :
    (s.resize width height).wellAsked = s.wellAsked := by
  cases s <;> rfl

@[simp] theorem Screen.waits_init (s : Screen W) : s.init.1.waits = s.waits := by
  cases s <;> rfl

@[simp] theorem Screen.fits_init (q : Question) (s : Screen W) : s.init.1.fits q = s.fits q := by
  cases s <;> rfl

@[simp] theorem Screen.wellAsked_init (s : Screen W) : s.init.1.wellAsked = s.wellAsked := by
  cases s <;> rfl

theorem Screen.fits_update (q : Question) (fresh : Nat) (m : Msg W) (s : Screen W) :
    (s.update fresh m).screen.fits q = s.fits q := by
  cases s with
  | killConfirm s => simp [update, fits, s.question_update m]
  | _ => rfl

theorem Screen.wellAsked_update (fresh : Nat) (m : Msg W) (s : Screen W) :
    (s.update fresh m).screen.wellAsked = s.wellAsked := by
  cases s with
  | killConfirm s => simp [update, wellAsked, s.question_update m]
  | _ => rfl

/-- A screen that waits after an `Update` waited before, or a key has just asked. -/
theorem Screen.waits_update {q : Question} {fresh : Nat} {m : Msg W} {s : Screen W}
    (h : (s.update fresh m).screen.waits = some q) :
    s.waits = some q ∨ ∃ d k, s = .detail d ∧ m = .key k ∧ k.asks = some q.action ∧ d.entry = q.entry := by
  cases s with
  | detail d =>
      obtain ⟨a, ha, rfl⟩ := Option.map_eq_some_iff.mp h
      obtain ⟨hentry, hnone | ⟨hsame, -⟩ | ⟨k, b, rfl, hk, hb⟩⟩ := d.pending_update fresh m
      · rw [hnone] at ha
        cases ha
      · left
        rw [hsame] at ha
        simp [waits, ha, hentry]
      · right
        rw [hb] at ha
        exact ⟨d, k, rfl, rfl, by rw [hk, ha], hentry.symm⟩
  | _ => simp [update, waits] at h

/-! ## What the screens start -/

/-- What stands above a waiting screen starts nothing that does not fit. -/
theorem Screen.fits_cmds {q : Question} {fresh : Nat} {m : Msg W} {s : Screen W} (hs : s.fits q) :
    ∀ c ∈ (s.update fresh m).cmds, c.fits q := by
  intro c hc
  cases s with
  | confirm s =>
      obtain ⟨k, rfl⟩ := s.mem_cmds hc
      by_cases hk : k = .rune 'y'
      · simpa [Cmd.fits, hk, Sender.question, fits] using hs
      · simp [Cmd.fits, hk]
  | killConfirm s =>
      obtain ⟨b, rfl, -⟩ | ⟨job, rfl⟩ := s.mem_cmds hc
      · cases b
        · rfl
        · simpa [KillConfirmScreen.answer, Cmd.fits, Sender.question, fits] using hs
      · rfl
  | stream s =>
      obtain ⟨-, rfl⟩ | ⟨_, -, rfl⟩ | ⟨_, _, -, rfl⟩ := s.mem_cmds hc <;> rfl
  | _ => simp [fits] at hs

theorem DetailScreen.fits_dialog (e : HiddenEntry) (a : Action) : (dialog W e a).fits ⟨e, a⟩ := by
  cases a <;> simp [dialog, Screen.fits]

theorem DetailScreen.wellAsked_dialog (e : HiddenEntry) (a : Action) : (dialog W e a).wellAsked := by
  cases a <;> simp [dialog, Screen.wellAsked]

theorem DetailScreen.waits_dialog (e : HiddenEntry) (a : Action) : (dialog W e a).waits = none := by
  cases a <;> rfl

theorem DetailScreen.fits_actionCmd (q : Question) (e : HiddenEntry) (a : Action) : (actionCmd (W := W) e a).fits q := by
  cases a <;> rfl

/-- A screen that waits has started nothing that does not fit. -/
theorem Screen.fits_cmds_of_waits {q : Question} {fresh : Nat} {m : Msg W} {s : Screen W}
    (h : (s.update fresh m).screen.waits = some q) : ∀ c ∈ (s.update fresh m).cmds, c.fits q := by
  intro c hc
  cases s with
  | detail d =>
      obtain ⟨-, a, -, rfl⟩ | ⟨label, rfl⟩ | rfl | ⟨-, rfl⟩ | ⟨k, a, rfl, hk, rfl⟩ := d.mem_cmds hc
      · exact DetailScreen.fits_actionCmd q d.entry a
      · rfl
      · rfl
      · rfl
      · -- the key that sent the dialog off is the one whose action is remembered
        obtain ⟨b, hb, rfl⟩ := Option.map_eq_some_iff.mp h
        obtain ⟨hentry, hnone | ⟨-, hno⟩ | ⟨k', b', hkey, hk', hb'⟩⟩ := d.pending_update fresh (W := W) (.key k)
        · rw [hnone] at hb
          cases hb
        · rw [hno k rfl] at hk
          cases hk
        · cases hkey
          obtain rfl : a = b := by simp_all
          rw [hentry]
          exact DetailScreen.fits_dialog d.entry a
  | _ => simp [update, waits] at h

/-- Every command an `Update` returns is sound. -/
theorem Screen.sound_cmds {fresh : Nat} {m : Msg W} {s : Screen W} (hs : s.wellAsked) :
    ∀ c ∈ (s.update fresh m).cmds, c.sound := by
  intro c hc
  cases s with
  | table s =>
      obtain rfl | ⟨-, rfl⟩ | rfl | ⟨_, rfl⟩ | ⟨_, rfl⟩ | ⟨_, rfl⟩ := s.mem_cmds hc <;> rfl
  | tree s =>
      obtain rfl | ⟨_, rfl⟩ := s.mem_cmds hc <;> rfl
  | detail d =>
      obtain ⟨-, a, -, rfl⟩ | ⟨_, rfl⟩ | rfl | ⟨-, rfl⟩ | ⟨k, a, -, -, rfl⟩ := d.mem_cmds hc
      · cases a <;> rfl
      · rfl
      · rfl
      · rfl
      · simp [Cmd.sound, DetailScreen.waits_dialog, DetailScreen.wellAsked_dialog]
  | confirm s =>
      obtain ⟨k, rfl⟩ := s.mem_cmds hc
      by_cases hk : k = .rune 'y'
      · simpa [Cmd.sound, hk, Sender.confirms, wellAsked] using hs
      · simp [Cmd.sound, hk]
  | killConfirm s =>
      obtain ⟨b, rfl, hword⟩ | ⟨_, rfl⟩ := s.mem_cmds hc
      · cases b
        · rfl
        · simpa [KillConfirmScreen.answer, Cmd.sound, Sender.confirms, hword rfl, wellAsked] using hs
      · rfl
  | stream s =>
      obtain ⟨-, rfl⟩ | ⟨_, -, rfl⟩ | ⟨_, _, -, rfl⟩ := s.mem_cmds hc <;> rfl

/-! ## The invariant -/

/-- Every remembered question is safe from the answers to others. -/
structure Untangled (a : App W) (running : List (Cmd W)) (queue : List (Msg W)) : Prop where
  above : a.stack.Pairwise fun s' s => ∀ q, s.waits = some q → s'.fits q
  flight : ∀ s ∈ a.stack, ∀ q, s.waits = some q → AllFit q running queue
  asked : ∀ s ∈ a.stack, s.wellAsked
  sound : InFlight (fun c => c.sound) (fun m => m.sound) running queue

section

variable {a : App W} {running cmds : List (Cmd W)} {queue : List (Msg W)} {m : Msg W} {fresh : Nat}

theorem Untangled.start (minSize onlyPid uidFilter interval : Int) :
    Untangled (Program.start W minSize onlyPid uidFilter interval).app
      (Program.start W minSize onlyPid uidFilter interval).running [] := by
  constructor
  · exact List.pairwise_singleton _ _
  · simp [Program.start, App.stack, Screen.waits]
  · simp [Program.start, App.stack, Screen.wellAsked]
  · refine ⟨?_, by simp⟩
    simp [Program.start, TableScreen.init, TableScreen.scanCmd, Cmd.sound]

theorem Untangled.tail (h : Untangled a running (m :: queue)) : Untangled a running queue :=
  ⟨h.above, fun s hs q hq => (h.flight s hs q hq).tail, h.asked, h.sound.tail⟩

theorem Untangled.queued (h : Untangled a running queue) (hfits : ∀ q, m.fits q) (hsound : m.sound) :
    Untangled a running (queue ++ [m]) :=
  ⟨h.above, fun s hs q hq => (h.flight s hs q hq).queued (hfits q), h.asked, h.sound.queued hsound⟩

/-- Commands that fit every question and are sound. -/
theorem Untangled.started (h : Untangled a running queue) (hfits : ∀ c ∈ cmds, ∀ q, c.fits q)
    (hsound : ∀ c ∈ cmds, c.sound) :
    Untangled a (running ++ cmds) queue :=
  ⟨h.above, fun s hs q hq => (h.flight s hs q hq).started fun c hc => hfits c hc q, h.asked, h.sound.started hsound⟩

theorem Msg.fits_of_plain (q : Question) (h : m.plain) : m.fits q := by
  cases m <;> simp_all [Msg.plain, Msg.fits]

theorem Msg.sound_of_plain (h : m.plain) : m.sound := by
  cases m <;> simp_all [Msg.plain, Msg.sound]

/-- The answer of a command fits what the command fits. -/
theorem Cmd.fits_finish {q : Question} {c : Cmd W} {i : SessionId} {o : Outcome W} {session : Option Session}
    (h : c.finish i o = some (m, session)) (hc : c.fits q) : m.fits q := by
  obtain ⟨s, rfl, rfl, -⟩ | ⟨rfl, rfl, -⟩ | ⟨v, sender, rfl, rfl, -⟩ | ⟨_, _, rfl, rfl, -⟩ | ⟨_, _, rfl, rfl, -⟩ |
    ⟨hplain, -⟩ := Cmd.finish_cases h
  · exact hc
  · rfl
  · unfold Cmd.fits at hc
    split at hc <;> simp_all [Msg.fits]
  · rfl
  · rfl
  · exact Msg.fits_of_plain q hplain

theorem Cmd.sound_finish {c : Cmd W} {i : SessionId} {o : Outcome W} {session : Option Session}
    (h : c.finish i o = some (m, session)) (hc : c.sound) : m.sound := by
  obtain ⟨s, rfl, rfl, -⟩ | ⟨rfl, rfl, -⟩ | ⟨v, sender, rfl, rfl, -⟩ | ⟨_, _, rfl, rfl, -⟩ | ⟨_, _, rfl, rfl, -⟩ |
    ⟨hplain, -⟩ := Cmd.finish_cases h
  · exact hc
  · rfl
  · unfold Cmd.sound at hc
    split at hc <;> simp_all [Msg.sound]
  · rfl
  · rfl
  · exact Msg.sound_of_plain hplain

theorem Untangled.finished (h : Untangled a running queue) {c : Cmd W} {i : Nat} {n : SessionId} {o : Outcome W}
    {session : Option Session} (hc : running[i]? = some c) (hfin : c.finish n o = some (m, session)) :
    Untangled a (running.eraseIdx i) (queue ++ [m]) := by
  have hmem : c ∈ running := List.mem_of_getElem? hc
  refine ⟨h.above, ?_, h.asked, h.sound.finished i (Cmd.sound_finish hfin (h.sound.1 c hmem))⟩
  intro s hs q hq
  have hfit := h.flight s hs q hq
  exact hfit.finished i (Cmd.fits_finish hfin (hfit.1 c hmem))

theorem Untangled.drop (h : Untangled a running queue) : Untangled a.drop running queue := by
  have hsub : a.drop.stack.Sublist a.stack := by
    rcases a.stack_drop with heq | heq
    · rw [heq]
    · rw [heq]
      exact List.sublist_cons_self _ _
  exact ⟨h.above.sublist hsub, fun s hs => h.flight s (hsub.subset hs), fun s hs => h.asked s (hsub.subset hs), h.sound⟩

theorem Untangled.resize (h : Untangled a running queue) (width height : Int) :
    Untangled ⟨a.top.resize width height, a.below.map (·.resize width height), width, height⟩ running queue := by
  have hstack : App.stack ⟨a.top.resize width height, a.below.map (·.resize width height), width, height⟩ =
      a.stack.map (·.resize width height) := rfl
  refine ⟨?_, ?_, ?_, h.sound⟩
  · rw [hstack, List.pairwise_map]
    simpa using h.above
  · rw [hstack]
    simpa using h.flight
  · rw [hstack]
    simpa using h.asked

/-- A screen that arrives was on its way, so it fits all that wait. -/
theorem Untangled.push {s : Screen W} (h : Untangled a running (.push s :: queue)) :
    Untangled { a with top := (s.resize a.width a.height).init.1, below := a.top :: a.below }
      (running ++ (s.resize a.width a.height).init.2) queue := by
  have hhead : s.waits = none ∧ s.wellAsked := by simpa [Msg.sound] using h.sound.2 _ List.mem_cons_self
  have hpushed :
      Untangled { a with top := (s.resize a.width a.height).init.1, below := a.top :: a.below } running queue := by
    refine ⟨List.pairwise_cons.mpr ⟨?_, h.above⟩, ?_, ?_, h.sound.tail⟩
    · intro s' hs' q hq
      simpa [Msg.fits] using (h.flight s' hs' q hq).2 _ List.mem_cons_self
    · intro s' hs' q hq
      rcases List.mem_cons.mp hs' with rfl | hs'
      · simp [hhead.1] at hq
      · exact (h.flight s' hs' q hq).tail
    · intro s' hs'
      rcases List.mem_cons.mp hs' with rfl | hs'
      · simpa using hhead.2
      · exact h.asked s' hs'
  -- an `Init` scans, ticks, opens a stream or starts a widget: none of it is an answer
  have hinit : ∀ c ∈ (s.resize a.width a.height).init.2, (∀ q, c.fits q) ∧ c.sound := by
    intro c hc
    obtain ⟨t, -, ht⟩ | ⟨t, -, rfl⟩ | ⟨job, rfl⟩ := Screen.mem_cmds_init hc
    · rcases List.mem_cons.mp ht with rfl | ht
      · exact ⟨fun _ => rfl, rfl⟩
      · rw [List.mem_singleton.mp ht]
        exact ⟨fun _ => rfl, rfl⟩
    · exact ⟨fun _ => rfl, rfl⟩
    · exact ⟨fun _ => rfl, rfl⟩
  exact hpushed.started (fun c hc => (hinit c hc).1) fun c hc => (hinit c hc).2

/-- The top screen handles a message; a key that asks is handled where all under way fits its question. -/
theorem Untangled.forward (h : Untangled a running queue)
    (hkey : ∀ d k b, a.top = .detail d → m = .key k → k.asks = some b → AllFit ⟨d.entry, b⟩ running queue) :
    Untangled (a.forward fresh m).app (running ++ (a.forward fresh m).cmds) queue := by
  have htop : a.top ∈ a.stack := List.mem_cons_self
  obtain ⟨htopAbove, hbelow⟩ := List.pairwise_cons.mp h.above
  have hcmds : ∀ c ∈ (a.top.update fresh m).cmds, c.sound := Screen.sound_cmds (h.asked _ htop)
  refine ⟨List.pairwise_cons.mpr ⟨?_, hbelow⟩, ?_, ?_, h.sound.started hcmds⟩
  · intro s hs q hq
    rw [App.forward_top, Screen.fits_update]
    exact htopAbove s hs q hq
  · intro s hs q hq
    rcases List.mem_cons.mp hs with rfl | hs
    · -- the top waits itself: it did before, or the key has just asked
      have hold : AllFit q running queue := by
        rcases Screen.waits_update hq with hq' | ⟨d, k, hd, rfl, hk, hentry⟩
        · exact h.flight _ htop q hq'
        · have hfit := hkey d k q.action hd rfl hk
          rwa [hentry] at hfit
      exact hold.started (Screen.fits_cmds_of_waits hq)
    · -- a screen below waits: the top fits it, and so does what it starts
      have hold := h.flight s (List.mem_cons_of_mem _ hs) q hq
      exact hold.started (Screen.fits_cmds (htopAbove s hs q hq))
  · intro s hs
    rcases List.mem_cons.mp hs with rfl | hs
    · rw [App.forward_top, Screen.wellAsked_update]
      exact h.asked _ htop
    · exact h.asked s (List.mem_cons_of_mem _ hs)

end

/-! ## Runs -/

/-- The condition on a step: a key that asks reaches a `DetailScreen` only while every screen on its way is a
    stream or the dialog of that question, and every `true` on its way the answer to it. -/
def undisturbed (p : Program W) : Act W → Bool
  | .deliver =>
    match p.queue, p.app.top with
    | .key k :: _, .detail d =>
      match k.asks with
      | some a => p.running.all (Cmd.fits ⟨d.entry, a⟩) && p.queue.all (Msg.fits ⟨d.entry, a⟩)
      | none => true
    | _, _ => true
  | _ => true

theorem undisturbed_key {p : Program W} {k : Key} {queue : List (Msg W)} {d : DetailScreen} {a : Action}
    (h : undisturbed p .deliver) (hq : p.queue = .key k :: queue) (hd : p.app.top = .detail d) (hk : k.asks = some a) :
    AllFit ⟨d.entry, a⟩ p.running queue := by
  simp only [undisturbed, hq, hd, hk, Bool.and_eq_true, List.all_eq_true] at h
  exact InFlight.tail h

/-- **Step.** -/
theorem Untangled.step {p p' : Program W} {act : Act W} (h : Untangled p.app p.running p.queue)
    (hstep : Guarded (fun p act => undisturbed p act) Program.Step p act p') : Untangled p'.app p'.running p'.queue := by
  obtain ⟨hguard, hstep⟩ := hstep
  obtain ⟨m, hm, rfl⟩ | ⟨i, c, o, m, session, -, hc, hfin, rfl⟩ | ⟨queue, -, hq, rfl⟩ | ⟨m, queue, rfl, -, hq, rfl⟩ :=
    Program.step_cases hstep
  · apply h.queued
    · intro q
      obtain ⟨k, -, rfl⟩ | ⟨_, _, -, rfl⟩ := hm <;> rfl
    · obtain ⟨k, -, rfl⟩ | ⟨_, _, -, rfl⟩ := hm <;> rfl
  · exact h.finished hc hfin
  · rw [hq] at h
    exact h.tail
  · rw [hq] at h
    unfold Program.handle
    obtain ⟨_, _, rfl, heq⟩ | ⟨rfl, heq⟩ | ⟨s, rfl, heq⟩ | ⟨_, rfl, heq⟩ | ⟨v, _, rfl, heq⟩ | ⟨-, heq⟩ :=
      App.update_cases p.fresh m p.app <;> simp only [heq]
    · simpa using h.tail.resize _ _
    · exact h.tail.started (fun c hc q => by rw [List.mem_singleton.mp hc]; rfl)
        fun c hc => by rw [List.mem_singleton.mp hc]; rfl
    · exact h.push
    · simpa using h.tail.drop
    · -- a result is no key
      apply h.tail.drop.forward
      intro d k b _ hkey
      cases hkey
    · apply h.tail.forward
      rintro d k b hd rfl hk
      exact undisturbed_key hguard hq hd hk

/-- Who confirmed, if the message is a confirming result. -/
def Msg.confirmedBy : Msg W → Option Sender
  | .pop (some (.confirmed true)) sender => sender
  | _ => none

/-- What confirms a command: for an action, a `true` from the dialog that asked for it about this entry, on `y`
    or, for a kill, on the word. -/
def confirms (m : Msg W) : Cmd W → Bool
  | .truncate e => m.confirmedBy = some (.confirm ⟨e, .truncate⟩ (.rune 'y'))
  | .hup e => m.confirmedBy = some (.confirm ⟨e, .hup⟩ (.rune 'y'))
  | .kill e => m.confirmedBy = some (.killConfirm ⟨e, .kill⟩ killConfirmWord)
  | _ => true

/-- Each command that delivering the next message starts is confirmed by that message. -/
def Confirmed (p : Program W) : Prop := ∀ m ∈ p.queue.head?, ∀ c ∈ (p.app.update p.fresh m).cmds, confirms m c

instance (p : Program W) : Decidable (Confirmed p) :=
  inferInstanceAs (Decidable (∀ m ∈ p.queue.head?, ∀ c ∈ (p.app.update p.fresh m).cmds, confirms m c))

/-- A `true` that fits a question and is sound confirms its action. -/
theorem confirms_actionCmd {e : HiddenEntry} {a : Action} {sender : Option Sender}
    (hfits : (Msg.pop (W := W) (some (.confirmed true)) sender).fits ⟨e, a⟩)
    (hsound : (Msg.pop (W := W) (some (.confirmed true)) sender).sound) :
    confirms (.pop (some (.confirmed true)) sender) (DetailScreen.actionCmd (W := W) e a) := by
  cases sender with
  | none => cases hsound
  | some sender =>
      cases sender with
      | detail _ => cases hsound
      | confirm q k =>
          obtain rfl : q = ⟨e, a⟩ := by simpa [Msg.fits, Sender.question] using hfits
          obtain ⟨hne, rfl⟩ : a ≠ .kill ∧ k = .rune 'y' := by simpa [Msg.sound, Sender.confirms] using hsound
          cases a with
          | kill => exact absurd rfl hne
          | truncate => simp [DetailScreen.actionCmd, confirms, Msg.confirmedBy]
          | hup => simp [DetailScreen.actionCmd, confirms, Msg.confirmedBy]
      | killConfirm q typed =>
          obtain rfl : q = ⟨e, a⟩ := by simpa [Msg.fits, Sender.question] using hfits
          obtain ⟨rfl, rfl⟩ : a = .kill ∧ typed = killConfirmWord := by
            simpa [Msg.sound, Sender.confirms] using hsound
          simp [DetailScreen.actionCmd, confirms, Msg.confirmedBy]

/-- Only a `DetailScreen` starts an action, and only on a confirming result. -/
theorem Screen.confirms_cmds {fresh : Nat} {m : Msg W} {s : Screen W} {c : Cmd W} (hc : c ∈ (s.update fresh m).cmds) :
    (∀ m', confirms m' c) ∨
    ∃ d a, s = .detail d ∧ m = .result (.confirmed true) ∧ d.pending = some a ∧ c = DetailScreen.actionCmd d.entry a := by
  cases s with
  | table s =>
      left
      obtain rfl | ⟨-, rfl⟩ | rfl | ⟨_, rfl⟩ | ⟨_, rfl⟩ | ⟨_, rfl⟩ := s.mem_cmds hc <;> exact fun _ => rfl
  | tree s =>
      left
      obtain rfl | ⟨_, rfl⟩ := s.mem_cmds hc <;> exact fun _ => rfl
  | detail d =>
      obtain ⟨hm, a, ha, hca⟩ | hrest := d.mem_cmds hc
      · exact .inr ⟨d, a, rfl, hm, ha, hca⟩
      · left
        obtain ⟨_, rfl⟩ | rfl | ⟨-, rfl⟩ | ⟨_, _, -, -, rfl⟩ := hrest <;> exact fun _ => rfl
  | confirm s =>
      left
      obtain ⟨_, rfl⟩ := s.mem_cmds hc
      exact fun _ => rfl
  | killConfirm s =>
      left
      obtain ⟨_, rfl, -⟩ | ⟨_, rfl⟩ := s.mem_cmds hc <;> exact fun _ => rfl
  | stream s =>
      left
      obtain ⟨-, rfl⟩ | ⟨_, -, rfl⟩ | ⟨_, _, -, rfl⟩ := s.mem_cmds hc <;> exact fun _ => rfl

theorem Untangled.confirmed {p : Program W} (h : Untangled p.app p.running p.queue) : Confirmed p := by
  intro m hm c hc
  obtain ⟨queue, hq⟩ := List.head?_eq_some_iff.mp hm
  rw [hq] at h
  obtain ⟨_, _, rfl, heq⟩ | ⟨rfl, heq⟩ | ⟨s, rfl, heq⟩ | ⟨_, rfl, heq⟩ | ⟨v, sender, rfl, heq⟩ | ⟨-, heq⟩ :=
    App.update_cases p.fresh m p.app <;> rw [heq] at hc
  · simp at hc
  · rw [List.mem_singleton.mp hc]
    rfl
  · obtain ⟨t, -, ht⟩ | ⟨t, -, rfl⟩ | ⟨job, rfl⟩ := Screen.mem_cmds_init hc
    · simp only [TableScreen.init, List.mem_cons, List.not_mem_nil, or_false] at ht
      rcases ht with rfl | rfl <;> rfl
    · rfl
    · rfl
  · simp at hc
  · -- an answer: the screen below the dialog is the one it was meant for
    obtain hany | ⟨d, a, hd, hv, ha, rfl⟩ := Screen.confirms_cmds hc
    · exact hany _
    · obtain rfl : v = .confirmed true := by simpa using hv
      have hdrop := h.drop
      have hfit := hdrop.flight p.app.drop.top List.mem_cons_self ⟨d.entry, a⟩ (by simp [hd, Screen.waits, ha])
      exact confirms_actionCmd (hfit.2 _ List.mem_cons_self) (hdrop.sound.2 _ List.mem_cons_self)
  · obtain hany | ⟨d, a, -, rfl, -, -⟩ := Screen.confirms_cmds hc
    · exact hany _
    · -- no `resultMsg` is ever queued
      have hsound := h.sound.2 _ List.mem_cons_self
      cases hsound

/-- **No answer starts another dialog's action**, in any run in which a key that asks for one is handled
    only while nothing else that could be answered is under way. -/
theorem actions_confirmed (W : Widgets) (minSize onlyPid uidFilter interval : Int) (acts : List (Act W)) (p : Program W)
    (hrun : Run (Guarded (fun p act => undisturbed p act) Program.Step)
      (Program.start W minSize onlyPid uidFilter interval) acts p) : Confirmed p := by
  have huntangled : Untangled p.app p.running p.queue :=
    hrun.invariant (I := fun p => Untangled p.app p.running p.queue) (.start minSize onlyPid uidFilter interval)
      fun _ _ _ h hstep => h.step hstep
  exact huntangled.confirmed

/-- A kill confirmed the way it is meant: `k`, then the word. -/
def killRun : List (Act simpleWidgets) :=
  (openFirst [HiddenEntry.zero]).append
    [ .press (.rune 'k'), .deliver, .finish 1 .done, .deliver, .press (.rune 'K'), .press (.rune 'I'), .press (.rune 'L'),
      .press (.rune 'L'), .press .enter, .deliver, .deliver, .deliver, .deliver, .deliver, .finish 2 .done ]

theorem actions_confirmed_kill :
    ∃ p, Run (Guarded (fun p act => undisturbed p act) Program.Step) (Program.start simpleWidgets 0 0 (-1) 5) killRun p ∧
      (∃ m ∈ p.queue.head?, ∃ c ∈ (p.app.update p.fresh m).cmds, c matches .kill _) ∧ Confirmed p := by
  have hexec : (killRun.foldlM (fun p act => if undisturbed p act then p.next act else none)
      (Program.start simpleWidgets 0 0 (-1) 5)).any (fun p =>
        ∃ m ∈ p.queue.head?, ∃ c ∈ (p.app.update p.fresh m).cmds, c matches .kill _) := by decide +kernel
  obtain ⟨p, hp, hkill⟩ := (Option.any_eq_true _ _).mp hexec
  have hrun := Run.of_exec_guarded hp
  exact ⟨p, hrun, of_decide_eq_true hkill, actions_confirmed _ _ _ _ _ killRun p hrun⟩

/-- Two questions asked before either dialog has opened; the first is answered. -/
def mixedRun : List (Act simpleWidgets) :=
  (openFirst [HiddenEntry.zero]).append
    [ .press (.rune 't'), .press (.rune 'k'), .deliver, .deliver, .finish 1 .done, .finish 1 .done, .deliver, .deliver,
      .press .esc, .deliver, .finish 2 .done, .deliver, .press (.rune 'y'), .deliver, .finish 2 .done ]

/-- **Where dialogs get mixed up**: `t` and `k` in quick succession, Esc on the kill dialog, `y` on the truncate
    dialog under it; the process is killed. -/
theorem dialogs_mixed_up :
    ∃ p, Run Program.Step (Program.start simpleWidgets 0 0 (-1) 5) mixedRun p ∧ ¬ Confirmed p := by
  have hexec : (mixedRun.foldlM Program.next (Program.start simpleWidgets 0 0 (-1) 5)).any (fun p => ¬ Confirmed p) := by
    decide +kernel
  obtain ⟨p, hp, hmixed⟩ := (Option.any_eq_true _ _).mp hexec
  exact ⟨p, Run.of_exec (fun _ _ _ _ h => h) hp, of_decide_eq_true hmixed⟩

end Tui
end Hsed
