import Hsed.Tui.Correctness.Updates
import Mathlib.Data.Multiset.Bind

/-!
# `Tui.Correctness.Names` — which screen a session was opened for

A `StreamScreen` has an address of its own and one file, a process and a descriptor. Its `tag` joins the
three, and goes where the screen goes: on its way to the stack, in the command its `Init` starts, in the
session that command opens. In every run an address stands for one file (`Named.agree`), and it is under way
or at a session at most once (`Named.once`), so a screen gets one session in its life.
-/

namespace Hsed
namespace Tui

open CLib Lts
open Client (HiddenEntry WriteEvent)

variable {W : Widgets}

/-- An address, and the process and descriptor it stands for. -/
abbrev Tag := Nat × Int × Int

def StreamScreen.tag (s : StreamScreen) : Tag := (s.id, s.entry.pid, s.entry.fd)

def Session.tag (s : Session) : Tag := (s.owner, s.pid, s.fd)

def Screen.stream? : Screen W → Option StreamScreen
  | .stream s => some s
  | _ => none

def Cmd.tags : Cmd W → List Tag
  | .push s => (s.stream?.map StreamScreen.tag).toList
  | .openStream id e => [(id, e.pid, e.fd)]
  | _ => []

def Msg.tags : Msg W → List Tag
  | .push s => (s.stream?.map StreamScreen.tag).toList
  | _ => []

/-- The tags that are under way or at a session. -/
def bearers (running : List (Cmd W)) (queue : List (Msg W)) (sessions : List Session) : Multiset Tag :=
  ↑(running.flatMap Cmd.tags) + ↑(queue.flatMap Msg.tags) + ↑(sessions.map Session.tag)

/-- The `StreamScreen`s of the stack. -/
def App.streams (a : App W) : List StreamScreen := a.stack.filterMap Screen.stream?

/-- A pushed `StreamScreen` has no session and no lines yet. -/
def Screen.newborn (s : Screen W) : Bool := s.stream?.all fun s => s.session.isNone && s.lines.isEmpty

def Cmd.newborn : Cmd W → Bool
  | .push s => s.newborn
  | _ => true

def Msg.newborn : Msg W → Bool
  | .push s => s.newborn
  | _ => true

/-! ## What the screens keep -/

theorem App.mem_streams {a : App W} {s : StreamScreen} : s ∈ a.streams ↔ .stream s ∈ a.stack := by
  unfold App.streams
  rw [List.mem_filterMap]
  constructor
  · rintro ⟨t, ht, hs⟩
    cases t <;> simp [Screen.stream?] at hs
    rwa [← hs]
  · intro h
    exact ⟨.stream s, h, rfl⟩

theorem App.streams_eq (a : App W) : a.streams = a.top.stream?.toList ++ a.below.filterMap Screen.stream? := by
  unfold App.streams App.stack
  rw [List.filterMap_cons]
  cases a.top.stream? <;> rfl

@[simp] theorem Screen.stream?_resize (width height : Int) (s : Screen W) :
    (s.resize width height).stream? = s.stream? := by
  cases s <;> rfl

@[simp] theorem Screen.stream?_init (s : Screen W) : s.init.1.stream? = s.stream? := by
  cases s <;> rfl

theorem App.streams_resize (a : App W) (width height : Int) :
    App.streams ⟨a.top.resize width height, a.below.map (·.resize width height), width, height⟩ = a.streams := by
  rw [App.streams_eq, App.streams_eq, List.filterMap_map]
  simp

theorem App.streams_drop (a : App W) :
    a.drop.streams = a.streams ∨ a.streams = a.top.stream?.toList ++ a.drop.streams := by
  unfold App.drop
  split
  · exact .inl rfl
  · rename_i s below hbelow
    right
    rw [App.streams_eq a, hbelow]
    rfl

/-- A screen that is no stream stays none, and starts nothing that bears a tag but a new stream. -/
theorem Screen.update_of_not_stream {s : Screen W} (hs : s.stream? = none) (fresh : Nat) (m : Msg W) :
    (s.update fresh m).screen.stream? = none ∧ (s.update fresh m).closes = none ∧
    ((∃ e, (s.update fresh m).cmds = [.push (.stream ⟨fresh, e, none, [], []⟩)]) ∨
      ∀ c ∈ (s.update fresh m).cmds, c.tags = [] ∧ c.newborn ∧ ∀ session, c ≠ .readNext session) := by
  cases s with
  | table s =>
      refine ⟨rfl, rfl, .inr ?_⟩
      intro c hc
      obtain rfl | ⟨-, rfl⟩ | rfl | ⟨_, rfl⟩ | ⟨_, rfl⟩ | ⟨_, rfl⟩ := s.mem_cmds hc <;>
        exact ⟨rfl, rfl, by simp [TableScreen.scanCmd]⟩
  | tree s =>
      refine ⟨rfl, rfl, .inr ?_⟩
      intro c hc
      obtain rfl | ⟨_, rfl⟩ := s.mem_cmds hc <;> exact ⟨rfl, rfl, by simp⟩
  | detail d =>
      refine ⟨rfl, rfl, ?_⟩
      -- only the key `s` makes a `StreamScreen`
      by_cases hkey : m = .key (.rune 's')
      · subst hkey
        exact .inl ⟨d.entry, rfl⟩
      · right
        intro c hc
        obtain ⟨-, a, -, rfl⟩ | ⟨_, rfl⟩ | rfl | ⟨hm, -⟩ | ⟨_, a, -, -, rfl⟩ := d.mem_cmds hc
        · cases a <;> exact ⟨rfl, rfl, by simp [DetailScreen.actionCmd]⟩
        · exact ⟨rfl, rfl, by simp⟩
        · exact ⟨rfl, rfl, by simp⟩
        · exact absurd hm hkey
        · cases a <;> exact ⟨rfl, rfl, by simp⟩
  | confirm s =>
      refine ⟨rfl, rfl, .inr ?_⟩
      intro c hc
      obtain ⟨_, rfl⟩ := s.mem_cmds hc
      exact ⟨rfl, rfl, by simp⟩
  | killConfirm s =>
      refine ⟨rfl, rfl, .inr ?_⟩
      intro c hc
      obtain ⟨_, rfl, -⟩ | ⟨_, rfl⟩ := s.mem_cmds hc <;> exact ⟨rfl, rfl, by simp [KillConfirmScreen.answer]⟩
  | stream s => cases hs

/-! ## The invariant -/

/-- An address stands for one file, older than any to come, and is borne once; a screen on its way is new. -/
structure Named (streams : List StreamScreen) (running : List (Cmd W)) (queue : List (Msg W)) (sessions : List Session)
    (fresh : Nat) : Prop where
  agree : ∀ x ∈ ↑(streams.map StreamScreen.tag) + bearers running queue sessions,
    ∀ y ∈ ↑(streams.map StreamScreen.tag) + bearers running queue sessions, x.1 = y.1 → x = y
  bound : ∀ x ∈ ↑(streams.map StreamScreen.tag) + bearers running queue sessions, x.1 < fresh
  once : ((bearers running queue sessions).map Prod.fst).Nodup
  newborn : InFlight (fun c => c.newborn) (fun m => m.newborn) running queue

section

variable {streams streams' : List StreamScreen} {running running' : List (Cmd W)} {queue queue' : List (Msg W)}
  {sessions sessions' : List Session} {fresh fresh' : Nat} {m : Msg W}

/-- Tags that only move, or go, keep the names. -/
theorem Named.moved (h : Named streams running queue sessions fresh)
    (hstreams : ∀ s ∈ streams', s.tag ∈ (↑(streams.map StreamScreen.tag) + bearers running queue sessions : Multiset Tag))
    (hbearers : bearers running' queue' sessions' ≤ bearers running queue sessions)
    (hnewborn : InFlight (fun c => c.newborn) (fun m => m.newborn) running' queue') (hfresh : fresh ≤ fresh') :
    Named streams' running' queue' sessions' fresh' := by
  have hsub : ∀ x ∈ (↑(streams'.map StreamScreen.tag) + bearers running' queue' sessions' : Multiset Tag),
      x ∈ (↑(streams.map StreamScreen.tag) + bearers running queue sessions : Multiset Tag) := by
    intro x hx
    rcases Multiset.mem_add.mp hx with hx | hx
    · obtain ⟨s, hs, rfl⟩ := List.mem_map.mp (Multiset.mem_coe.mp hx)
      exact hstreams s hs
    · exact Multiset.mem_add.mpr (.inr (Multiset.mem_of_le hbearers hx))
  exact ⟨fun x hx y hy => h.agree x (hsub x hx) y (hsub y hy), fun x hx => (h.bound x (hsub x hx)).trans_le hfresh,
    Multiset.nodup_of_le (Multiset.map_le_map hbearers) h.once, hnewborn⟩

/-- A screen with a new address keeps the names. -/
theorem Named.born (h : Named streams running queue sessions fresh) {x : Tag} (hx : x.1 = fresh)
    (hbearers : bearers running' queue' sessions' = x ::ₘ bearers running queue sessions)
    (hnewborn : InFlight (fun c => c.newborn) (fun m => m.newborn) running' queue') :
    Named streams running' queue' sessions' (fresh + 1) := by
  have hmem : ∀ y ∈ (↑(streams.map StreamScreen.tag) + bearers running' queue' sessions' : Multiset Tag),
      y = x ∨ y ∈ (↑(streams.map StreamScreen.tag) + bearers running queue sessions : Multiset Tag) := by
    intro y hy
    rw [hbearers, Multiset.add_cons] at hy
    exact Multiset.mem_cons.mp hy
  -- the new address is above all the others
  have hlt : ∀ y ∈ (↑(streams.map StreamScreen.tag) + bearers running queue sessions : Multiset Tag), y.1 ≠ x.1 := by
    intro y hy
    have := h.bound y hy
    omega
  refine ⟨?_, ?_, ?_, hnewborn⟩
  · intro y hy z hz hyz
    rcases hmem y hy with rfl | hy
    · rcases hmem z hz with rfl | hz
      · rfl
      · exact absurd hyz.symm (hlt z hz)
    · rcases hmem z hz with rfl | hz
      · exact absurd hyz (hlt y hy)
      · exact h.agree y hy z hz hyz
  · intro y hy
    rcases hmem y hy with rfl | hy
    · omega
    · have := h.bound y hy
      omega
  · rw [hbearers, Multiset.map_cons, Multiset.nodup_cons]
    refine ⟨?_, h.once⟩
    intro hmem
    obtain ⟨y, hy, hyx⟩ := Multiset.mem_map.mp hmem
    exact hlt y (Multiset.mem_add.mpr (.inr hy)) hyx

theorem bearers_queued (hm : m.tags = []) : bearers running (queue ++ [m]) sessions = bearers running queue sessions := by
  simp [bearers, hm]

theorem bearers_cons : bearers running (m :: queue) sessions = ↑m.tags + bearers running queue sessions := by
  simp only [bearers, List.flatMap_cons, ← Multiset.coe_add]
  abel

theorem bearers_started (cmds : List (Cmd W)) :
    bearers (running ++ cmds) queue sessions = ↑(cmds.flatMap Cmd.tags) + bearers running queue sessions := by
  simp only [bearers, List.flatMap_append, ← Multiset.coe_add]
  abel

/-- A finished command hands its tag on to its message or to its session. -/
theorem bearers_finished {c : Cmd W} {i : Nat} {n : SessionId} {o : Outcome W} {session : Option Session}
    (hc : running[i]? = some c) (hfin : c.finish n o = some (m, session)) :
    bearers (running.eraseIdx i) (queue ++ [m]) (sessions ++ session.toList) ≤ bearers running queue sessions := by
  obtain ⟨hi, rfl⟩ := List.getElem?_eq_some_iff.mp hc
  -- the command is taken out of those that run
  have hperm : (↑(running.flatMap Cmd.tags) : Multiset Tag) =
      ↑(running[i].tags) + ↑((running.eraseIdx i).flatMap Cmd.tags) := by
    rw [Multiset.coe_add, Multiset.coe_eq_coe, ← List.flatMap_cons]
    exact (List.getElem_cons_eraseIdx_perm hi).symm.flatMap_right _
  -- what it leaves bears no tag but its own
  have hpass : (↑m.tags + ↑(session.toList.map Session.tag) : Multiset Tag) ≤ ↑(running[i].tags) := by
    obtain ⟨s, heq, rfl, rfl⟩ | ⟨heq, rfl, rfl⟩ | ⟨_, _, heq, rfl, rfl⟩ | ⟨id, e, heq, rfl, rfl⟩ | ⟨_, _, heq, rfl, rfl⟩ |
      ⟨hplain, rfl⟩ := Cmd.finish_cases hfin
    · rw [heq]
      simp [Msg.tags, Cmd.tags]
    · simp [Msg.tags]
    · simp [Msg.tags]
    · rw [heq]
      simp [Msg.tags, Cmd.tags, Session.tag]
    · simp [Msg.tags]
    · cases m <;> simp_all [Msg.tags, Msg.plain]
  calc bearers (running.eraseIdx i) (queue ++ [m]) (sessions ++ session.toList)
      = (↑m.tags + ↑(session.toList.map Session.tag)) +
          (↑((running.eraseIdx i).flatMap Cmd.tags) + ↑(queue.flatMap Msg.tags) + ↑(sessions.map Session.tag)) := by
        simp only [bearers, List.flatMap_append, List.map_append, List.flatMap_cons, List.flatMap_nil, List.append_nil,
          ← Multiset.coe_add]
        abel
    _ ≤ ↑(running[i].tags) +
          (↑((running.eraseIdx i).flatMap Cmd.tags) + ↑(queue.flatMap Msg.tags) + ↑(sessions.map Session.tag)) :=
        add_le_add_left hpass _
    _ = bearers running queue sessions := by
        simp only [bearers, hperm]
        abel

theorem getElem?_closeSession (session : Option SessionId) (sessions : List Session) (i : Nat) :
    (closeSession session sessions)[i]? = sessions[i]?.map fun s => if session = some i then s.close else s := by
  cases session with
  | none => simp [closeSession]
  | some j =>
      rw [closeSession, List.getElem?_modify]
      by_cases hij : j = i
      · simp [hij]
      · simp [hij]

theorem tags_closeSession (session : Option SessionId) (sessions : List Session) :
    (closeSession session sessions).map Session.tag = sessions.map Session.tag := by
  apply List.ext_getElem?
  intro i
  rw [List.getElem?_map, List.getElem?_map, getElem?_closeSession, Option.map_map]
  congr 1
  funext s
  simp only [Function.comp]
  split <;> rfl

theorem bearers_closeSession (session : Option SessionId) :
    bearers running queue (closeSession session sessions) = bearers running queue sessions := by
  rw [bearers, bearers, tags_closeSession]

/-- What closing a session keeps, closing all of them keeps. -/
theorem App.closeAllSessions_induction {P : List Session → Prop} (a : App W)
    (hclose : ∀ session sessions, P sessions → P (closeSession session sessions)) (h : P sessions) :
    P (a.closeAllSessions sessions) := by
  unfold App.closeAllSessions
  induction a.stack generalizing sessions with
  | nil => exact h
  | cons s stack ih =>
      rw [List.foldl_cons]
      apply ih
      split
      · exact hclose _ _ h
      · exact h

theorem Named.start (minSize onlyPid uidFilter interval : Int) :
    Named (Program.start W minSize onlyPid uidFilter interval).app.streams
      (Program.start W minSize onlyPid uidFilter interval).running [] [] 0 := by
  have hbearers : bearers (Program.start W minSize onlyPid uidFilter interval).running [] [] = 0 := by
    simp [bearers, Program.start, TableScreen.init, TableScreen.scanCmd, Cmd.tags]
  have hstreams : (Program.start W minSize onlyPid uidFilter interval).app.streams = [] := rfl
  rw [hstreams]
  refine ⟨by simp [hbearers], by simp [hbearers], by simp [hbearers], ?_, by simp⟩
  simp [Program.start, TableScreen.init, TableScreen.scanCmd, Cmd.newborn]

theorem Cmd.newborn_finish {c : Cmd W} {i : SessionId} {o : Outcome W} {session : Option Session}
    (h : c.finish i o = some (m, session)) (hc : c.newborn) : m.newborn := by
  obtain ⟨s, rfl, rfl, -⟩ | ⟨rfl, rfl, -⟩ | ⟨_, _, rfl, rfl, -⟩ | ⟨_, _, rfl, rfl, -⟩ | ⟨_, _, rfl, rfl, -⟩ |
    ⟨hplain, -⟩ := Cmd.finish_cases h
  · exact hc
  · rfl
  · rfl
  · rfl
  · rfl
  · cases m <;> simp_all [Msg.plain, Msg.newborn]

end

/-! ## Runs -/

variable {p p' : Program W} {act : Act W} {m : Msg W} {queue : List (Msg W)}

theorem StreamScreen.tag_update (s : StreamScreen) (m : Msg W) : (s.update m).1.tag = s.tag := by
  unfold StreamScreen.update
  split <;> rfl

/-- The top screen handles a message: its tag stays, and at most a new stream is pushed. -/
theorem Named.forward {a : App W} {running : List (Cmd W)} {sessions : List Session} {fresh : Nat}
    (h : Named a.streams running queue sessions fresh) :
    Named (a.forward fresh m).app.streams (running ++ (a.forward fresh m).cmds) queue
      (closeSession (a.forward fresh m).closes sessions) (fresh + 1) := by
  cases hs : a.top.stream? with
  | none =>
      -- no stream on top: its `Update` changes no tag
      obtain ⟨hstream, -, hcmds⟩ := Screen.update_of_not_stream hs fresh m
      have hstreams : (a.forward fresh m).app.streams = a.streams := by
        rw [App.streams_eq, App.streams_eq, App.forward_top, App.forward_below, hs, hstream]
      rw [hstreams]
      obtain ⟨e, hcmds⟩ | hcmds := hcmds
      · -- the `StreamScreen` it makes gets the next number
        apply h.born (x := (fresh, e.pid, e.fd)) rfl
        · rw [bearers_closeSession, bearers_started, App.forward_cmds, hcmds]
          rfl
        · apply h.newborn.started
          simp [hcmds, Cmd.newborn, Screen.newborn, Screen.stream?]
      · apply h.moved
        · intro s hs
          exact Multiset.mem_add.mpr (.inl (Multiset.mem_coe.mpr (List.mem_map_of_mem hs)))
        · rw [bearers_closeSession, bearers_started, App.forward_cmds,
            List.flatMap_eq_nil_iff.mpr fun c hc => (hcmds c hc).1]
          simp
        · exact h.newborn.started fun c hc => (hcmds c hc).2.1
        · exact Nat.le_succ fresh
  | some s =>
      obtain hs : a.top = .stream s := by
        cases htop : a.top <;> simp_all [Screen.stream?]
      -- a stream on top starts nothing that brings another
      have hcmds : ∀ c ∈ (a.forward fresh m).cmds, c.tags = [] ∧ c.newborn := by
        intro c hc
        simp only [App.forward, hs] at hc
        obtain ⟨-, rfl⟩ | ⟨_, -, rfl⟩ | ⟨_, _, -, rfl⟩ := s.mem_cmds hc <;> exact ⟨rfl, rfl⟩
      apply h.moved
      · intro s' hs'
        refine Multiset.mem_add.mpr (.inl (Multiset.mem_coe.mpr ?_))
        rw [App.streams_eq] at hs' ⊢
        simp only [App.forward, hs, Screen.update, Screen.stream?, Option.toList_some, List.singleton_append,
          List.mem_cons] at hs' ⊢
        rcases hs' with rfl | hs'
        · rw [s.tag_update]
          simp
        · exact List.mem_map_of_mem (List.mem_cons_of_mem _ hs')
      · rw [bearers_closeSession, bearers_started, List.flatMap_eq_nil_iff.mpr fun c hc => (hcmds c hc).1]
        simp
      · exact h.newborn.started fun c hc => (hcmds c hc).2
      · exact Nat.le_succ fresh

theorem Screen.tags_init (s : Screen W) : s.init.2.flatMap Cmd.tags = (s.stream?.map StreamScreen.tag).toList := by
  cases s with
  | stream s => rfl
  | table s => rfl
  | killConfirm s =>
      simp only [init, List.flatMap_map]
      exact List.flatMap_eq_nil_iff.mpr fun _ _ => rfl
  | tree _ => rfl
  | detail _ => rfl
  | confirm _ => rfl

theorem Screen.newborn_init (s : Screen W) : ∀ c ∈ s.init.2, c.newborn := by
  intro c hc
  obtain ⟨t, -, ht⟩ | ⟨t, -, rfl⟩ | ⟨job, rfl⟩ := Screen.mem_cmds_init hc
  · simp only [TableScreen.init, List.mem_cons, List.not_mem_nil, or_false] at ht
    rcases ht with rfl | rfl <;> rfl
  · rfl
  · rfl

section

variable {streams : List StreamScreen} {running : List (Cmd W)} {sessions : List Session} {fresh : Nat}

theorem mem_tags {s : StreamScreen} {xs : Multiset Tag} (hs : s ∈ streams) :
    s.tag ∈ (↑(streams.map StreamScreen.tag) + xs : Multiset Tag) :=
  Multiset.mem_add.mpr (.inl (Multiset.mem_coe.mpr (List.mem_map_of_mem hs)))

theorem Named.tail (h : Named streams running (m :: queue) sessions fresh) :
    Named streams running queue sessions fresh := by
  apply h.moved (fun s hs => mem_tags hs) _ h.newborn.tail le_rfl
  rw [bearers_cons]
  exact Multiset.le_add_left _ _

theorem Named.drop {a : App W} (h : Named a.streams running queue sessions fresh) :
    Named a.drop.streams running queue sessions fresh := by
  apply h.moved _ le_rfl h.newborn le_rfl
  intro s hs
  apply mem_tags
  rcases a.streams_drop with heq | heq
  · rwa [← heq]
  · rw [heq]
    exact List.mem_append_right _ hs

/-- A screen that arrives takes its tag to the stack, and its `Init` takes it on. -/
theorem Named.push {s : Screen W} (h : Named streams running (.push s :: queue) sessions fresh) (width height : Int) :
    Named (s.stream?.toList ++ streams) (running ++ (s.resize width height).init.2) queue sessions fresh := by
  apply h.moved
  · intro t ht
    rcases List.mem_append.mp ht with ht | ht
    · refine Multiset.mem_add.mpr (.inr ?_)
      rw [bearers_cons]
      refine Multiset.mem_add.mpr (.inl (Multiset.mem_coe.mpr ?_))
      have hs : s.stream? = some t := by simpa using ht
      simp [Msg.tags, hs]
    · exact mem_tags ht
  · rw [bearers_started, bearers_cons, Screen.tags_init, Screen.stream?_resize]
    exact le_rfl
  · exact h.newborn.tail.started (Screen.newborn_init _)
  · exact le_rfl

end

/-- **Step.** -/
theorem Named.step (h : Named p.app.streams p.running p.queue p.sessions p.fresh) (hstep : Program.Step p act p') :
    Named p'.app.streams p'.running p'.queue p'.sessions p'.fresh := by
  obtain ⟨m, hm, rfl⟩ | ⟨i, c, o, m, session, -, hc, hfin, rfl⟩ | ⟨queue, -, hq, rfl⟩ | ⟨m, queue, rfl, -, hq, rfl⟩ :=
    Program.step_cases hstep
  · have hplain : m.tags = [] ∧ m.newborn := by
      obtain ⟨k, -, rfl⟩ | ⟨_, _, -, rfl⟩ := hm <;> exact ⟨rfl, rfl⟩
    exact h.moved (fun s hs => mem_tags hs) (bearers_queued hplain.1).le (h.newborn.queued hplain.2) le_rfl
  · -- a command hands its tag on
    have hborn := h.newborn.1 c (List.mem_of_getElem? hc)
    exact h.moved (fun s hs => mem_tags hs) (bearers_finished hc hfin)
      (h.newborn.finished i (Cmd.newborn_finish hfin hborn)) le_rfl
  · rw [hq] at h
    refine App.closeAllSessions_induction (P := fun sessions => Named p.app.streams p.running queue sessions p.fresh)
      p.app ?_ h.tail
    intro session sessions hs
    exact hs.moved (fun s hs => mem_tags hs) (bearers_closeSession session).le hs.newborn le_rfl
  · rw [hq] at h
    -- the counter of the next `StreamScreen` only grows
    have hnext : ∀ {streams running}, Named streams running queue p.sessions p.fresh →
        Named streams running queue p.sessions (p.fresh + 1) :=
      fun hn => hn.moved (fun s hs => mem_tags hs) le_rfl hn.newborn (Nat.le_succ _)
    unfold Program.handle
    obtain ⟨_, _, rfl, heq⟩ | ⟨rfl, heq⟩ | ⟨s, rfl, heq⟩ | ⟨_, rfl, heq⟩ | ⟨v, _, rfl, heq⟩ | ⟨-, heq⟩ :=
      App.update_cases p.fresh m p.app <;> simp only [heq]
    · rw [App.streams_resize, List.append_nil]
      exact hnext h.tail
    · apply hnext (h.tail.moved (fun s hs => mem_tags hs) _ _ le_rfl)
      · rw [bearers_started]
        simp [Cmd.tags]
      · exact h.tail.newborn.started (by simp [Cmd.newborn])
    · have hpush := hnext (h.push p.app.width p.app.height)
      rw [App.streams_eq]
      simpa [App.streams, App.stack, closeSession] using hpush
    · rw [List.append_nil]
      exact hnext h.tail.drop
    · exact h.tail.drop.forward
    · exact h.tail.forward

/-- **Names**, in every state of every run. -/
theorem named (minSize onlyPid uidFilter interval : Int) {acts : List (Act W)}
    (hrun : Run Program.Step (Program.start W minSize onlyPid uidFilter interval) acts p) :
    Named p.app.streams p.running p.queue p.sessions p.fresh :=
  hrun.invariant (I := fun p => Named p.app.streams p.running p.queue p.sessions p.fresh)
    (.start minSize onlyPid uidFilter interval) fun _ _ _ h hstep => h.step hstep

end Tui
end Hsed
