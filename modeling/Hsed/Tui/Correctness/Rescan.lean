import Hsed.Tui.Correctness.Updates

/-!
# `Tui.Correctness.Rescan` — the timer of the automatic rescan

`TableScreen.Init` arms a timer, and the table arms the next one when it handles the `tickMsg` of the last.
`App.Update` hands a `tickMsg` to whatever screen is on top, and only the table answers it.

`outstanding` counts the timers that are armed and the queued `tickMsg`s whose turn will find the table on top;
what the queue will have done to the stack by then is known, since it is served in order (`App.ahead`). A delivery
keeps that count (`outstanding_handle`). A timer that fires keeps it too if the table will be on top, and otherwise
loses it for good. The table is the root of the stack, so that this is a matter of the stack's depth and of the
screens that are queued to be pushed or popped (`firesAtRoot`). There is never more than one tick, and exactly one
just in the runs whose timers all fire towards the root (`rescan_alive_iff`).
-/

namespace Hsed
namespace Tui

open CLib Lts
open Client (HiddenEntry)

variable {W : Widgets}

/-! ## Outstanding ticks -/

def Screen.isTable : Screen W → Bool
  | .table _ => true
  | _ => false

def Cmd.isTick : Cmd W → Bool
  | .tick _ => true
  | _ => false

def Msg.isTick : Msg W → Bool
  | .tick => true
  | _ => false

def Msg.isQuit : Msg W → Bool
  | .quit => true
  | _ => false

/-- The stack when the queued messages have had their turn; `tea.Quit` goes past `App.Update`. -/
def App.ahead : Nat → List (Msg W) → App W → App W
  | _, [], a => a
  | fresh, m :: queue, a =>
    if m.isQuit then App.ahead fresh queue a else App.ahead (fresh + 1) queue (a.update fresh m).app

/-- The queued ticks whose turn will find the table on top. -/
def App.ticksAhead : Nat → List (Msg W) → App W → Nat
  | _, [], _ => 0
  | fresh, m :: queue, a =>
    if m.isQuit then App.ticksAhead fresh queue a
    else
      (if m.isTick && a.top.isTable then 1 else 0) + App.ticksAhead (fresh + 1) queue (a.update fresh m).app

/-- The rescan ticks that are outstanding: the armed timers, and the queued ticks that the table will handle. -/
def Program.outstanding (p : Program W) : Nat :=
  p.running.countP Cmd.isTick + p.app.ticksAhead p.fresh p.queue

/-- What a message does to the number of screens above the root. -/
def Msg.depth (m : Msg W) (above : Nat) : Nat :=
  match m with
  | .push _ => above + 1
  | .pop _ _ => above - 1
  | _ => above

/-- The screens above the root, once the queue has had its turn. -/
def screensAbove (above : Nat) (queue : List (Msg W)) : Nat := queue.foldl (fun above m => m.depth above) above

/-- A timer fires only when the queued pushes and pops leave nothing above the root. -/
def Program.firesAtRoot (p : Program W) : Act W → Bool
  | .finish i _ => !(p.running[i]?.any Cmd.isTick) || screensAbove p.app.below.length p.queue == 0
  | _ => true

/-! ## Who starts a timer -/

/-- The root is the only table there will be. -/
def Cmd.bringsTable : Cmd W → Bool
  | .push s => s.isTable
  | _ => false

def Msg.bringsTable : Msg W → Bool
  | .push s => s.isTable
  | _ => false

/-- A command that neither arms a timer nor brings a table. -/
def Cmd.quiet (c : Cmd W) : Prop := c.isTick = false ∧ c.bringsTable = false

theorem Cmd.quiet_widget (job : W.Job) : (Cmd.widget job : Cmd W).quiet := ⟨rfl, rfl⟩

/-- What the table starts, but for a tick's own timer. -/
theorem TableScreen.quiet_cmds {s : TableScreen W} {m : Msg W} (hm : m.isTick = false) :
    ∀ c ∈ (s.update m).2, c.quiet := by
  intro c hc
  rcases TableScreen.mem_cmds hc with rfl | ⟨rfl, -⟩ | rfl | ⟨e, rfl⟩ | ⟨es, rfl⟩ | ⟨job, rfl⟩
  · exact ⟨rfl, rfl⟩
  · cases hm
  · exact ⟨rfl, rfl⟩
  · exact ⟨rfl, rfl⟩
  · exact ⟨rfl, rfl⟩
  · exact Cmd.quiet_widget job

theorem TreeScreen.quiet_cmds {s : TreeScreen} {m : Msg W} : ∀ c ∈ (s.update m).2, c.quiet := by
  intro c hc
  rcases TreeScreen.mem_cmds hc with rfl | ⟨e, rfl⟩
  · exact ⟨rfl, rfl⟩
  · exact ⟨rfl, rfl⟩

theorem DetailScreen.quiet_cmds {fresh : Nat} {s : DetailScreen} {m : Msg W} : ∀ c ∈ (s.update fresh m).2, c.quiet := by
  intro c hc
  rcases DetailScreen.mem_cmds hc with ⟨-, a, -, rfl⟩ | ⟨label, rfl⟩ | rfl | ⟨-, rfl⟩ | ⟨k, a, -, -, rfl⟩
  · cases a <;> exact ⟨rfl, rfl⟩
  · exact ⟨rfl, rfl⟩
  · exact ⟨rfl, rfl⟩
  · exact ⟨rfl, rfl⟩
  · cases a <;> exact ⟨rfl, rfl⟩

theorem ConfirmScreen.quiet_cmds {s : ConfirmScreen} {m : Msg W} : ∀ c ∈ s.update m, c.quiet := by
  intro c hc
  obtain ⟨k, rfl⟩ := ConfirmScreen.mem_cmds hc
  exact ⟨rfl, rfl⟩

theorem KillConfirmScreen.quiet_cmds {s : KillConfirmScreen W} {m : Msg W} : ∀ c ∈ (s.update m).2, c.quiet := by
  intro c hc
  rcases KillConfirmScreen.mem_cmds hc with ⟨b, rfl, -⟩ | ⟨job, rfl⟩
  · exact ⟨rfl, rfl⟩
  · exact Cmd.quiet_widget job

theorem StreamScreen.quiet_cmds {s : StreamScreen} {m : Msg W} : ∀ c ∈ (s.update m).2.1, c.quiet := by
  intro c hc
  rcases StreamScreen.mem_cmds hc with ⟨-, rfl⟩ | ⟨session, -, rfl⟩ | ⟨ev, src, -, rfl⟩
  · exact ⟨rfl, rfl⟩
  · exact ⟨rfl, rfl⟩
  · exact ⟨rfl, rfl⟩

/-- **A screen's commands are quiet**, unless it is the table and the message a tick. -/
theorem Screen.quiet_cmds {fresh : Nat} {s : Screen W} {m : Msg W} (h : (m.isTick && s.isTable) = false) :
    ∀ c ∈ (s.update fresh m).cmds, c.quiet := by
  cases s with
  | table t =>
      have hm : m.isTick = false := by simpa [Screen.isTable] using h
      exact TableScreen.quiet_cmds hm
  | tree t => exact TreeScreen.quiet_cmds
  | detail t => exact DetailScreen.quiet_cmds
  | confirm t => exact ConfirmScreen.quiet_cmds
  | killConfirm t => exact KillConfirmScreen.quiet_cmds
  | stream t => exact StreamScreen.quiet_cmds

theorem Screen.quiet_init {s : Screen W} (h : s.isTable = false) : ∀ c ∈ s.init.2, c.quiet := by
  intro c hc
  rcases Screen.mem_cmds_init hc with ⟨t, rfl, -⟩ | ⟨t, -, rfl⟩ | ⟨job, rfl⟩
  · cases h
  · exact ⟨rfl, rfl⟩
  · exact Cmd.quiet_widget job

theorem Screen.isTable_resize (width height : Int) (s : Screen W) : (s.resize width height).isTable = s.isTable := by
  cases s <;> rfl

/-- What the app starts for any other message than a tick for the table. -/
theorem App.quiet_cmds {fresh : Nat} {m : Msg W} {a : App W} (hm : m.bringsTable = false)
    (htick : (m.isTick && a.top.isTable) = false) : ∀ c ∈ (a.update fresh m).cmds, c.quiet := by
  rcases App.update_cases fresh m a with
    ⟨_, _, -, heq⟩ | ⟨-, heq⟩ | ⟨s, rfl, heq⟩ | ⟨_, -, heq⟩ | ⟨v, _, -, heq⟩ | ⟨-, heq⟩
  · have hcmds : (a.update fresh m).cmds = [] := congrArg App.Updated.cmds heq
    rw [hcmds]
    exact List.forall_mem_nil _
  · have hcmds : (a.update fresh m).cmds = [.quit] := congrArg App.Updated.cmds heq
    rw [hcmds]
    exact List.forall_mem_singleton.mpr ⟨rfl, rfl⟩
  · have hcmds : (a.update fresh (.push s)).cmds = (s.resize a.width a.height).init.2 := congrArg App.Updated.cmds heq
    rw [hcmds]
    apply Screen.quiet_init
    rw [Screen.isTable_resize]
    exact hm
  · have hcmds : (a.update fresh m).cmds = [] := congrArg App.Updated.cmds heq
    rw [hcmds]
    exact List.forall_mem_nil _
  · -- a result is no tick
    rw [heq, App.forward_cmds]
    exact Screen.quiet_cmds rfl
  · rw [heq, App.forward_cmds]
    exact Screen.quiet_cmds htick

/-- A tick for the table: one scan, and the next timer. -/
theorem App.tick_cmds (fresh : Nat) {m : Msg W} {a : App W} (htick : (m.isTick && a.top.isTable) = true) :
    ∃ t : TableScreen W, (a.update fresh m).cmds = [t.scanCmd, .tick t.interval] := by
  rw [Bool.and_eq_true] at htick
  obtain ⟨t, ht⟩ : ∃ t, a.top = .table t := by
    cases hs : a.top with
    | table t => exact ⟨t, rfl⟩
    | _ => rw [hs] at htick; cases htick.2
  obtain rfl : m = .tick := by
    cases m with
    | tick => rfl
    | _ => cases htick.1
  refine ⟨t, ?_⟩
  show (a.top.update fresh .tick).cmds = _
  rw [ht]
  rfl

/-- **`App.Update` starts a timer** for a tick that finds the table on top, and for no other message. -/
theorem App.cmds_update {fresh : Nat} {m : Msg W} {a : App W} (hm : m.bringsTable = false) :
    (∀ c ∈ (a.update fresh m).cmds, c.bringsTable = false) ∧
    (a.update fresh m).cmds.countP Cmd.isTick = if m.isTick && a.top.isTable then 1 else 0 := by
  by_cases htick : (m.isTick && a.top.isTable) = true
  · obtain ⟨t, hcmds⟩ := App.tick_cmds fresh htick
    rw [if_pos htick, hcmds]
    refine ⟨?_, rfl⟩
    intro c hc
    rcases List.mem_cons.mp hc with rfl | hc
    · rfl
    · rw [List.mem_singleton.mp hc]
      rfl
  · have hquiet : ∀ c ∈ (a.update fresh m).cmds, c.quiet := App.quiet_cmds hm (Bool.not_eq_true _ ▸ htick)
    rw [if_neg htick]
    refine ⟨fun c hc => (hquiet c hc).2, List.countP_eq_zero.mpr ?_⟩
    intro c hc
    rw [(hquiet c hc).1]
    exact Bool.false_ne_true

theorem Cmd.finish_kind {c : Cmd W} {i : SessionId} {o : Outcome W} {m : Msg W} {session : Option Session}
    (h : c.finish i o = some (m, session)) : m.isTick = c.isTick ∧ m.bringsTable = c.bringsTable := by
  unfold Cmd.finish at h
  split at h
  case h_16 => cases h
  all_goals
    obtain ⟨rfl, -⟩ := Prod.mk.inj (Option.some.inj h)
    exact ⟨rfl, rfl⟩

/-! ## The root -/

theorem Screen.isTable_update (fresh : Nat) (m : Msg W) (s : Screen W) : (s.update fresh m).screen.isTable = s.isTable := by
  cases s <;> rfl

theorem Screen.isTable_init (s : Screen W) : s.init.1.isTable = s.isTable := by
  cases s <;> rfl

/-- A table at the bottom and no other. -/
def App.Bottomed (a : App W) : Prop := ∃ n, a.stack.map Screen.isTable = List.replicate n false ++ [true]

theorem App.Bottomed.forward {a : App W} (h : a.Bottomed) (fresh : Nat) (m : Msg W) : (a.forward fresh m).app.Bottomed := by
  obtain ⟨n, hn⟩ := h
  refine ⟨n, ?_⟩
  rw [App.stack, List.map_cons, App.forward_top, App.forward_below, Screen.isTable_update, ← List.map_cons]
  exact hn

theorem App.Bottomed.drop {a : App W} (h : a.Bottomed) : a.drop.Bottomed := by
  obtain ⟨n, hn⟩ := h
  rcases a.stack_drop with heq | heq
  · exact ⟨n, by rw [heq]; exact hn⟩
  · cases n with
    | zero =>
        -- the last screen is not dropped
        rw [heq, List.map_cons] at hn
        have hlast := (List.cons.inj hn).2
        exact absurd (List.map_eq_nil_iff.mp hlast) (List.cons_ne_nil _ _)
    | succ n =>
        rw [heq, List.map_cons, List.replicate_succ, List.cons_append] at hn
        exact ⟨n, (List.cons.inj hn).2⟩

theorem App.Bottomed.update {a : App W} (h : a.Bottomed) (fresh : Nat) {m : Msg W} (hm : m.bringsTable = false) :
    (a.update fresh m).app.Bottomed := by
  obtain ⟨width, height, rfl, heq⟩ | ⟨rfl, heq⟩ | ⟨s, rfl, heq⟩ | ⟨sender, rfl, heq⟩ | ⟨v, sender, rfl, heq⟩ | ⟨-, heq⟩ :=
    App.update_cases fresh m a
  · obtain ⟨n, hn⟩ := h
    refine ⟨n, ?_⟩
    rw [heq, ← hn]
    show ((a.top :: a.below).map (·.resize width height)).map Screen.isTable = _
    rw [List.map_map]
    exact List.map_congr_left fun s _ => Screen.isTable_resize width height s
  · rw [heq]
    exact h
  · obtain ⟨n, hn⟩ := h
    refine ⟨n + 1, ?_⟩
    rw [heq, App.stack, List.map_cons, Screen.isTable_init, Screen.isTable_resize, show s.isTable = false from hm,
      List.replicate_succ, List.cons_append, ← hn]
    rfl
  · rw [heq]
    exact h.drop
  · rw [heq]
    exact h.drop.forward fresh _
  · rw [heq]
    exact h.forward fresh m

/-- The table is on top just where nothing is above it. -/
theorem App.Bottomed.isTable_top {a : App W} (h : a.Bottomed) : a.top.isTable = a.below.isEmpty := by
  obtain ⟨n, hn⟩ := h
  cases n with
  | zero =>
      rw [show a.top.isTable = true from (List.cons.inj hn).1, List.map_eq_nil_iff.mp (List.cons.inj hn).2]
      rfl
  | succ n =>
      have hbelow : a.below.map Screen.isTable = List.replicate n false ++ [true] := (List.cons.inj hn).2
      rw [show a.top.isTable = false from (List.cons.inj hn).1]
      cases heq : a.below with
      | nil =>
          rw [heq] at hbelow
          exact absurd hbelow.symm (List.append_ne_nil_of_right_ne_nil _ (List.cons_ne_nil _ _))
      | cons s below => rfl

/-- What `App.Update` does to the depth of the stack. -/
theorem App.depth_update (fresh : Nat) (m : Msg W) (a : App W) :
    (a.update fresh m).app.below.length = m.depth a.below.length := by
  have hdrop : a.drop.below.length = a.below.length - 1 := by
    unfold App.drop
    split
    next heq => rw [heq]; rfl
    next s below heq => rw [heq]; rfl
  cases m with
  | windowSize width height => exact List.length_map _
  | push s => rfl
  | pop result sender =>
      cases result with
      | none => exact hdrop
      | some v => exact hdrop
  | key k => cases k <;> rfl
  | _ => rfl

/-- The depth of the stack when the queued messages have had their turn. -/
theorem App.depth_ahead (fresh : Nat) (queue : List (Msg W)) (a : App W) :
    (a.ahead fresh queue).below.length = screensAbove a.below.length queue := by
  induction queue generalizing fresh a with
  | nil => rfl
  | cons m queue ih =>
      rw [App.ahead, screensAbove, List.foldl_cons]
      split
      next hquit =>
        -- `tea.Quit` leaves the stack alone
        have hdepth : m.depth a.below.length = a.below.length := by
          cases m with
          | quit => rfl
          | _ => cases hquit
        rw [hdepth]
        exact ih fresh a
      next =>
        rw [ih, App.depth_update]
        rfl

theorem App.Bottomed.ahead {queue : List (Msg W)} (hqueue : ∀ m ∈ queue, m.bringsTable = false) :
    ∀ {fresh : Nat} {a : App W}, a.Bottomed → (a.ahead fresh queue).Bottomed := by
  induction queue with
  | nil => exact fun h => h
  | cons m queue ih =>
      intro fresh a h
      rw [List.forall_mem_cons] at hqueue
      rw [App.ahead]
      split
      · exact ih hqueue.2 h
      · exact ih hqueue.2 (h.update fresh hqueue.1)

/-! ## What each step does to the count -/

section

variable {p p' : Program W} {act : Act W} {m : Msg W} {queue : List (Msg W)}

/-- A tick at the end of the queue counts if the table will then be on top. -/
theorem App.ticksAhead_append (fresh : Nat) (queue : List (Msg W)) (m : Msg W) (a : App W) :
    a.ticksAhead fresh (queue ++ [m]) =
      a.ticksAhead fresh queue + if m.isTick && (a.ahead fresh queue).top.isTable then 1 else 0 := by
  induction queue generalizing fresh a with
  | nil =>
      cases m with
      | quit => rfl
      | _ => exact (Nat.add_zero _).trans (Nat.zero_add _).symm
  | cons m' queue ih =>
      rw [List.cons_append]
      unfold App.ticksAhead App.ahead
      split
      · exact ih fresh a
      · rw [ih, Nat.add_assoc]

theorem Program.outstanding_queued (p : Program W) (hm : m.isTick = false) :
    Program.outstanding { p with queue := p.queue ++ [m] } = p.outstanding := by
  unfold Program.outstanding
  rw [App.ticksAhead_append, hm]
  rfl

theorem Program.outstanding_quit (hq : p.queue = .quit :: queue) : (p.quit queue).outstanding = p.outstanding := by
  unfold Program.outstanding
  rw [hq]
  rfl

/-- **A delivery keeps the count**: the table arms the next timer as it handles the tick. -/
theorem Program.outstanding_handle (hq : p.queue = m :: queue) (hquit : m ≠ .quit) (hm : m.bringsTable = false) :
    (p.handle m queue).outstanding = p.outstanding := by
  have hnext : m.isQuit = false := by
    cases m with
    | quit => exact absurd rfl hquit
    | _ => rfl
  have hcmds : (p.app.update p.fresh m).cmds.countP Cmd.isTick = if m.isTick && p.app.top.isTable then 1 else 0 :=
    (App.cmds_update hm).2
  unfold outstanding
  rw [hq]
  show (p.running ++ (p.app.update p.fresh m).cmds).countP Cmd.isTick +
      (p.app.update p.fresh m).app.ticksAhead (p.fresh + 1) queue = _
  rw [List.countP_append, hcmds, App.ticksAhead, hnext, if_neg Bool.false_ne_true, Nat.add_assoc]

/-- **A timer that fires** is lost unless its message will find the table. -/
theorem Program.outstanding_answered {i : Nat} {c : Cmd W} {o : Outcome W} {session : Option Session}
    (hc : p.running[i]? = some c) (hfin : c.finish p.sessions.length o = some (m, session)) :
    (p.answered i m session).outstanding +
        (if !c.isTick || (p.app.ahead p.fresh p.queue).top.isTable then 0 else 1) = p.outstanding := by
  have hrunning :
      (p.running.eraseIdx i).countP Cmd.isTick + (if c.isTick then 1 else 0) = p.running.countP Cmd.isTick := by
    have hperm := List.getElem_cons_eraseIdx_perm (List.getElem?_eq_some_iff.mp hc).1
    rw [(List.getElem?_eq_some_iff.mp hc).2] at hperm
    rw [← hperm.countP_eq, List.countP_cons]
  unfold outstanding
  show (p.running.eraseIdx i).countP _ + p.app.ticksAhead p.fresh (p.queue ++ [m]) + _ = _
  rw [App.ticksAhead_append, (Cmd.finish_kind hfin).1, ← hrunning]
  cases c.isTick <;> cases (p.app.ahead p.fresh p.queue).top.isTable <;> simp <;> omega

/-- No second table is on its way. -/
def Program.OneTable (p : Program W) : Prop :=
  InFlight (fun c => c.bringsTable = false) (fun m => m.bringsTable = false) p.running p.queue

/-- The table is the root, and there is no other. -/
structure Program.Rooted (p : Program W) : Prop where
  bottomed : p.app.Bottomed
  oneTable : p.OneTable

/-- So whether a tick will find the table can be read off the stack's depth and the queue. -/
theorem Program.Rooted.firesAtRoot_eq (h : p.Rooted) {i : Nat} {c : Cmd W} (hc : p.running[i]? = some c)
    (o : Outcome W) :
    p.firesAtRoot (.finish i o) = (!c.isTick || (p.app.ahead p.fresh p.queue).top.isTable) := by
  have htop : (p.app.ahead p.fresh p.queue).top.isTable = (screensAbove p.app.below.length p.queue == 0) := by
    rw [(App.Bottomed.ahead h.oneTable.2 h.bottomed).isTable_top, ← App.depth_ahead p.fresh]
    cases (p.app.ahead p.fresh p.queue).below <;> rfl
  rw [htop, firesAtRoot, hc]
  rfl

/-- **Step**: a timer that fires past the table is the only loss, and nothing is ever gained. -/
theorem Program.outstanding_step (hstep : Step p act p') (h : p.Rooted) :
    p'.outstanding + (if p.firesAtRoot act then 0 else 1) = p.outstanding ∧ p'.Rooted := by
  obtain ⟨hbottom, hone⟩ := h
  obtain ⟨m, hm, rfl⟩ | ⟨i, c, o, m, session, rfl, hc, hfin, rfl⟩ | ⟨queue, rfl, hq, rfl⟩ |
    ⟨m, queue, rfl, hquit, hq, rfl⟩ := step_cases hstep
  · obtain ⟨k, rfl, rfl⟩ | ⟨width, height, rfl, rfl⟩ := hm
    · exact ⟨p.outstanding_queued rfl, hbottom, hone.queued rfl⟩
    · exact ⟨p.outstanding_queued rfl, hbottom, hone.queued rfl⟩
  · rw [Rooted.firesAtRoot_eq ⟨hbottom, hone⟩ hc]
    refine ⟨outstanding_answered hc hfin, hbottom, hone.finished i ?_⟩
    rw [(Cmd.finish_kind hfin).2]
    exact hone.1 c (List.mem_of_getElem? hc)
  · unfold OneTable at hone
    rw [hq] at hone
    exact ⟨outstanding_quit hq, hbottom, hone.tail⟩
  · unfold OneTable at hone
    rw [hq] at hone
    have hm := hone.2 m List.mem_cons_self
    exact ⟨outstanding_handle hq hquit hm, hbottom.update p.fresh hm, hone.tail.started (App.cmds_update hm).1⟩

end

/-! ## Whole runs -/

section

variable {minSize onlyPid uidFilter interval : Int} {acts : List (Act W)} {p : Program W}

theorem Program.outstanding_start :
    (start W minSize onlyPid uidFilter interval).outstanding = 1 ∧
    (start W minSize onlyPid uidFilter interval).Rooted := by
  refine ⟨rfl, ⟨0, rfl⟩, ?_, List.forall_mem_nil _⟩
  intro c hc
  rcases List.mem_cons.mp hc with rfl | hc
  · rfl
  · rw [List.mem_singleton.mp hc]
    rfl

/-- The ticks never multiply. -/
theorem Program.outstanding_le_one (hrun : Run Step (start W minSize onlyPid uidFilter interval) acts p) :
    p.outstanding ≤ 1 ∧ p.Rooted := by
  refine hrun.invariant (I := fun p => p.outstanding ≤ 1 ∧ p.Rooted) ⟨outstanding_start.1.le, outstanding_start.2⟩ ?_
  rintro p act p' ⟨hle, hroot⟩ hstep
  obtain ⟨hcount, hroot'⟩ := outstanding_step hstep hroot
  exact ⟨by omega, hroot'⟩

/-- A run that still has its tick has lost none on the way. -/
theorem Program.guarded_of_outstanding (hrun : Run Step (start W minSize onlyPid uidFilter interval) acts p)
    (htick : p.outstanding = 1) :
    Run (Guarded (fun p act => p.firesAtRoot act) Step) (start W minSize onlyPid uidFilter interval) acts p := by
  induction hrun with
  | nil => exact .nil
  | @snoc acts p₁ p₂ act hrun hstep ih =>
      obtain ⟨hle, hroot⟩ := outstanding_le_one hrun
      have hcount := (outstanding_step hstep hroot).1
      split at hcount
      case isTrue hfires =>
        apply Run.snoc _ ⟨hfires, hstep⟩
        apply ih
        omega
      case isFalse => omega

end

/-- **The rescan.** In every run there is at most one tick outstanding, and there is exactly one just where
    every timer of the run fired when the pushes and pops in the queue left nothing above the root. -/
theorem rescan_alive_iff (minSize onlyPid uidFilter interval : Int) (acts : List (Act W)) (p : Program W)
    (hrun : Run Program.Step (Program.start W minSize onlyPid uidFilter interval) acts p) :
    p.outstanding ≤ 1 ∧
    (p.outstanding = 1 ↔
      Run (Guarded (fun p act => p.firesAtRoot act) Program.Step) (Program.start W minSize onlyPid uidFilter interval)
        acts p) := by
  refine ⟨(Program.outstanding_le_one hrun).1, Program.guarded_of_outstanding hrun, ?_⟩
  intro hguarded
  have hboth : p.outstanding = 1 ∧ p.Rooted := by
    refine hguarded.invariant (I := fun p => p.outstanding = 1 ∧ p.Rooted) Program.outstanding_start ?_
    rintro p act p' ⟨htick, hroot⟩ ⟨hfires, hstep⟩
    obtain ⟨hcount, hroot'⟩ := Program.outstanding_step hstep hroot
    rw [if_pos hfires] at hcount
    exact ⟨hcount.trans htick, hroot'⟩
  exact hboth.1

/-- The timer fires at the table, and again after the table has armed the next one. -/
def tickRun : List (Act simpleWidgets) := [.finish 1 .done, .deliver, .finish 2 .done]

theorem rescan_alive_two_ticks :
    ∃ p, Run Program.Step (Program.start simpleWidgets 0 0 (-1) 5) tickRun p ∧
      (p.queue.length = 1 ∧ p.running.length = 2) ∧ p.outstanding = 1 := by
  have hexec : (tickRun.foldlM (fun p act => if Program.firesAtRoot p act then p.next act else none)
      (Program.start simpleWidgets 0 0 (-1) 5)).any (fun p => p.queue.length = 1 ∧ p.running.length = 2) := by
    decide +kernel
  obtain ⟨p, hp, htick⟩ := (Option.any_eq_true _ _).mp hexec
  have hguarded := Run.of_exec_guarded hp
  have hrun : Run Program.Step (Program.start simpleWidgets 0 0 (-1) 5) tickRun p := hguarded.of_guarded
  exact ⟨p, hrun, of_decide_eq_true htick, (rescan_alive_iff _ _ _ _ tickRun p hrun).2.mpr hguarded⟩

/-- A file is open when the timer fires, and closed again once its message has been handled. -/
def silentRun : List (Act simpleWidgets) :=
  (openFirst [HiddenEntry.zero]).append [ .finish 0 .done, .deliver, .press .esc, .deliver, .finish 0 .done, .deliver ]

/-- **Where the rescan dies**: the tick reaches a `DetailScreen`, which drops it; back at the table nothing is
    armed, running or queued any more. -/
theorem rescan_dies :
    ∃ p, Run Program.Step (Program.start simpleWidgets 0 0 (-1) 5) silentRun p ∧ p.app.top.isTable ∧
      p.outstanding ≠ 1 := by
  have hexec : (silentRun.foldlM Program.next (Program.start simpleWidgets 0 0 (-1) 5)).any (fun p =>
      p.app.top.isTable ∧ p.outstanding ≠ 1) := by decide +kernel
  obtain ⟨p, hp, hdead⟩ := (Option.any_eq_true _ _).mp hexec
  exact ⟨p, Run.of_exec (fun _ _ _ _ h => h) hp, of_decide_eq_true hdead⟩

end Tui
end Hsed
