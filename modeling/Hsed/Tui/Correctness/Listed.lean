import Hsed.Tui.Correctness.Dialogs
import Hsed.Tui.Correctness.Rescan
import Hsed.Tui.Correctness.TreeView

/-!
# `Tui.Correctness.Listed` — where the entries on the screens come from

Most invariants of the program are of one kind: a condition on screens, one on running commands and one on
queued messages, which each `Update`, `Init` and `Resize` keeps. `Keeps` collects these local facts and
`Keeps.run` is the rule for whole runs. Two results come from it:

* `acts_on_listed` — whatever the TUI shows, truncates, signals or streams was returned by a scan before;
* `root_table` — under every stack lies the one `TableScreen` of the start, with its parameters, and what it
  shows is what its filter leaves of the last listing that was handed to it.
-/

namespace Hsed
namespace Tui

open CLib Lts
open Client (HiddenEntry)

variable {W : Widgets}

/-! ## Conditions on screens, commands and messages -/

/-- A program whose commands come to outcomes in `O` keeps `P` on the stacked screens, `C` on the running commands
    and `M` on the queued messages. -/
structure Keeps (O : Cmd W → Outcome W → Prop) (P : Screen W → Prop) (C : Cmd W → Prop) (M : Msg W → Prop) : Prop where
  key : ∀ k, M (.key k)
  windowSize : ∀ width height, M (.windowSize width height)
  result : ∀ v sender, M (.pop (some v) sender) → M (.result v)
  quit : C .quit
  pushed : ∀ s, M (.push s) → P s
  resize : ∀ s width height, P s → P (s.resize width height)
  init : ∀ s, P s → P s.init.1 ∧ ∀ c ∈ s.init.2, C c
  update : ∀ fresh m s, P s → M m → P (s.update fresh m).screen ∧ ∀ c ∈ (s.update fresh m).cmds, C c
  finish : ∀ c i o m session, C c → O c o → c.finish i o = some (m, session) → M m

/-- All parts of a program meet their condition. -/
structure Throughout (P : Screen W → Prop) (C : Cmd W → Prop) (M : Msg W → Prop) (p : Program W) : Prop where
  stack : ∀ s ∈ p.app.stack, P s
  flight : InFlight C M p.running p.queue

/-- If the step finishes a command, it comes to an outcome in `O`. -/
def Act.Comes (O : Cmd W → Outcome W → Prop) (p : Program W) : Act W → Prop
  | .finish i o => ∀ c, p.running[i]? = some c → O c o
  | _ => True

section

variable {O : Cmd W → Outcome W → Prop} {P : Screen W → Prop} {C : Cmd W → Prop} {M : Msg W → Prop}

theorem App.subset_drop (a : App W) : ∀ s ∈ a.drop.stack, s ∈ a.stack := by
  intro s hs
  rcases a.stack_drop with heq | heq
  · rwa [heq] at hs
  · rw [heq]
    exact List.mem_cons_of_mem _ hs

theorem Keeps.forward (hk : Keeps O P C M) {fresh : Nat} {m : Msg W} {a : App W} (ha : ∀ s ∈ a.stack, P s) (hm : M m) :
    (∀ s ∈ (a.forward fresh m).app.stack, P s) ∧ ∀ c ∈ (a.forward fresh m).cmds, C c := by
  rw [App.stack, List.forall_mem_cons] at ha
  obtain ⟨hscreen, hcmds⟩ := hk.update fresh m a.top ha.1 hm
  rw [App.stack, List.forall_mem_cons]
  exact ⟨⟨hscreen, ha.2⟩, hcmds⟩

/-- **`App.Update`** keeps the condition on the stack and starts commands that meet theirs. -/
theorem Keeps.app_update (hk : Keeps O P C M) (fresh : Nat) {m : Msg W} {a : App W} (ha : ∀ s ∈ a.stack, P s)
    (hm : M m) :
    (∀ s ∈ (a.update fresh m).app.stack, P s) ∧ ∀ c ∈ (a.update fresh m).cmds, C c := by
  have hnone : ∀ c ∈ ([] : List (Cmd W)), C c := List.forall_mem_nil _
  obtain ⟨width, height, rfl, heq⟩ | ⟨rfl, heq⟩ | ⟨s, rfl, heq⟩ | ⟨sender, rfl, heq⟩ | ⟨v, sender, rfl, heq⟩ | ⟨-, heq⟩ :=
    App.update_cases fresh m a
  · rw [heq]
    rw [App.stack, List.forall_mem_cons] at ha
    refine ⟨?_, hnone⟩
    rw [App.stack, List.forall_mem_cons, List.forall_mem_map]
    exact ⟨hk.resize _ _ _ ha.1, fun s hs => hk.resize s _ _ (ha.2 s hs)⟩
  · rw [heq]
    exact ⟨ha, List.forall_mem_singleton.mpr hk.quit⟩
  · rw [heq]
    obtain ⟨hscreen, hcmds⟩ := hk.init _ (hk.resize s a.width a.height (hk.pushed s hm))
    exact ⟨List.forall_mem_cons.mpr ⟨hscreen, ha⟩, hcmds⟩
  · rw [heq]
    exact ⟨fun s hs => ha s (a.subset_drop s hs), hnone⟩
  · rw [heq]
    exact hk.forward (fun s hs => ha s (a.subset_drop s hs)) (hk.result v sender hm)
  · rw [heq]
    exact hk.forward ha hm

/-- **Step.** -/
theorem Keeps.step (hk : Keeps O P C M) {p p' : Program W} {act : Act W} (h : Throughout P C M p)
    (hstep : Program.Step p act p') (hact : act.Comes O p) : Throughout P C M p' := by
  obtain ⟨hstack, hflight⟩ := h
  obtain ⟨m, hm, rfl⟩ | ⟨i, c, o, m, session, rfl, hc, hfin, rfl⟩ | ⟨queue, rfl, hq, rfl⟩ |
    ⟨m, queue, rfl, hquit, hq, rfl⟩ := Program.step_cases hstep
  · refine ⟨hstack, hflight.queued ?_⟩
    obtain ⟨k, -, rfl⟩ | ⟨width, height, -, rfl⟩ := hm
    · exact hk.key k
    · exact hk.windowSize width height
  · refine ⟨hstack, hflight.finished i ?_⟩
    exact hk.finish c _ o m session (hflight.1 c (List.mem_of_getElem? hc)) (hact c hc) hfin
  · rw [hq] at hflight
    exact ⟨hstack, hflight.tail⟩
  · rw [hq] at hflight
    obtain ⟨hstack', hcmds⟩ := hk.app_update p.fresh hstack (hflight.2 m List.mem_cons_self)
    exact ⟨hstack', hflight.tail.started hcmds⟩

/-- **Run.** -/
theorem Keeps.run (hk : Keeps O P C M) {p₀ p : Program W} {acts : List (Act W)} (h : Throughout P C M p₀)
    (hrun : Run (Guarded (fun p act => act.Comes O p) Program.Step) p₀ acts p) : Throughout P C M p :=
  hrun.invariant h fun _ _ _ hp hstep => hk.step hp hstep.2 hstep.1

end

/-! ## The table -/

/-- The listing that a message carries. -/
def Msg.listed : Msg W → Option (List HiddenEntry)
  | .scanResult entries _ => some entries
  | _ => none

namespace TableScreen

/-- The test of `applyFilter`. -/
def shows (s : TableScreen W) (e : HiddenEntry) : Bool := s.filterText == [] || s.contains e.comm || s.contains e.path

/-- The rows are what the filter leaves of the entries. -/
def Filtered (s : TableScreen W) : Prop := s.filteredEntries = s.entries.filter s.shows

/-- The parameters of the scans. -/
def scope (s : TableScreen W) : Int × Int × Int × Int := (s.minSize, s.onlyPid, s.uidFilter, s.interval)

theorem filtered_applyFilter (s : TableScreen W) : s.applyFilter.Filtered := rfl

/-- What a screen keeps of itself when the filter, the table and the notices change. -/
structure Same (s s' : TableScreen W) : Prop where
  scope : s'.scope = s.scope
  entries : s'.entries = s.entries
  filtered : s.Filtered → s'.Filtered

theorem same_filtering (s : TableScreen W) (k : Key) : s.Same (s.updateFiltering k).1 := by
  unfold updateFiltering
  split
  · exact ⟨rfl, rfl, fun _ => filtered_applyFilter _⟩
  · exact ⟨rfl, rfl, fun _ => filtered_applyFilter _⟩
  · exact ⟨rfl, rfl, fun h => h⟩

/-- **`TableScreen.Update`**: only a scan's result changes the entries. -/
theorem update_facts (s : TableScreen W) (m : Msg W) :
    s.Same (s.update m).1 ∨ ∃ entries total, m = .scanResult entries total ∧
      (s.update m).1.scope = s.scope ∧ (s.update m).1.entries = entries ∧ (s.update m).1.Filtered := by
  unfold update
  split
  case h_1 entries total => exact .inr ⟨entries, total, rfl, rfl, rfl, filtered_applyFilter _⟩
  case h_6 k =>
    left
    split
    · exact s.same_filtering k
    · split
      case h_5 => split <;> exact ⟨rfl, rfl, fun h => h⟩
      all_goals exact ⟨rfl, rfl, fun h => h⟩
  all_goals exact .inl ⟨rfl, rfl, fun h => h⟩

/-- The entries are those of the listing in the message, if it is one. -/
theorem entries_update (s : TableScreen W) (m : Msg W) : (s.update m).1.entries = m.listed.getD s.entries := by
  rcases s.update_facts m with hsame | ⟨entries, total, rfl, -, hentries, -⟩
  · cases m with
    | scanResult entries total => rfl
    | _ => exact hsame.entries
  · exact hentries

/-- The screens it opens are about what it shows. -/
theorem pushes {s : TableScreen W} {m : Msg W} {c : Cmd W} (h : c ∈ (s.update m).2) :
    c = s.scanCmd ∨ c = .tick s.interval ∨ c = .quit ∨ (∃ e ∈ s.filteredEntries, c = .push (.detail ⟨e, none, []⟩)) ∨
      c = .push (.tree (newTreeScreen s.entries)) ∨ ∃ job, c = .widget job := by
  have hforward : c ∈ (s.forward m).2 → ∃ job, c = .widget job := mem_map_widget
  unfold update at h
  split at h
  case h_3 =>
    rcases List.mem_cons.mp h with h | h
    · exact .inl h
    · exact .inr (.inl (List.mem_singleton.mp h))
  case h_6 =>
    split at h
    · grind [TableScreen.mem_cmds_filtering h]
    · split at h
      case h_3 => grind [mem_map_widget h]
      case h_5 =>
        split at h
        · cases h
        · next e hsel =>
            -- the entry under the cursor is one of the rows
            unfold selected at hsel
            split at hsel
            · cases hsel
            · exact .inr (.inr (.inr (.inl ⟨e, List.mem_of_getElem? hsel, List.mem_singleton.mp h⟩)))
      all_goals grind
  all_goals grind

end TableScreen

/-- A `TreeScreen` opens entries of its own rows. -/
theorem TreeScreen.pushes {s : TreeScreen} {m : Msg W} {c : Cmd W} (h : c ∈ (s.update m).2) :
    c = .pop ∨ ∃ row ∈ s.rows, ∃ e ∈ row.node.entries, c = .push (.detail ⟨e, none, []⟩) := by
  have hopen : ∀ row, c ∈ (TreeScreen.open (W := W) s row).2 →
      ∃ e ∈ row.node.entries, c = .push (.detail ⟨e, none, []⟩) := by
    intro row hrow
    unfold TreeScreen.open at hrow
    split at hrow
    · cases hrow
    · split at hrow
      · cases hrow
      · next e es hes =>
          refine ⟨largest e es, ?_, List.mem_singleton.mp hrow⟩
          rw [hes]
          exact largest_mem e es
  have hselected : ∀ row, s.rows[s.cursor]? = some row → c ∈ (TreeScreen.open (W := W) s row).2 →
      ∃ row ∈ s.rows, ∃ e ∈ row.node.entries, c = .push (.detail ⟨e, none, []⟩) :=
    fun row hrow hc => ⟨row, List.mem_of_getElem? hrow, hopen row hc⟩
  unfold TreeScreen.update at h
  split at h
  case h_7 =>
    split at h
    · cases h
    · exact .inr (hselected _ ‹_› h)
  case h_8 =>
    split at h
    · cases h
    · exact .inr (hselected _ ‹_› h)
  all_goals grind

/-! ## Listed entries -/

section

variable (K : HiddenEntry → Prop)

/-- What a scan returns is in `K`. -/
def Outcome.Listed : Outcome W → Prop
  | .scanned (.ok (entries, _)) => ∀ e ∈ entries, K e
  | _ => True

/-- Every entry the screen shows or acts on is in `K`. -/
def Screen.Listed : Screen W → Prop
  | .table s => s.Filtered ∧ ∀ e ∈ s.entries, K e
  | .tree s => ∃ entries, s.Lists entries ∧ ∀ e ∈ entries, K e
  | .detail s => K s.entry
  | .confirm s => K s.question.entry
  | .killConfirm s => K s.question.entry
  | .stream s => K s.entry

/-- The entry a command acts on is in `K`, and so are those of a screen it brings. -/
def Cmd.Listed : Cmd W → Prop
  | .push s => s.Listed K
  | .truncate e => K e
  | .hup e => K e
  | .kill e => K e
  | .openStream _ e => K e
  | _ => True

def Msg.Listed : Msg W → Prop
  | .push s => s.Listed K
  | .scanResult entries _ => ∀ e ∈ entries, K e
  | _ => True

variable {K}

theorem DetailScreen.listed_dialog {e : HiddenEntry} (h : K e) (a : Action) : (dialog W e a).Listed K := by
  cases a <;> exact h

theorem DetailScreen.listed_actionCmd {e : HiddenEntry} (h : K e) (a : Action) : (actionCmd (W := W) e a).Listed K := by
  cases a <;> exact h

/-- **One `Update`**, screen by screen. -/
theorem Screen.listed_update {fresh : Nat} {m : Msg W} {s : Screen W} (hs : s.Listed K) (hm : m.Listed K) :
    (s.update fresh m).screen.Listed K ∧ ∀ c ∈ (s.update fresh m).cmds, c.Listed K := by
  cases s with
  | table s =>
      obtain ⟨hfilter, hentries⟩ := hs
      constructor
      · rcases s.update_facts m with hsame | ⟨entries, total, rfl, -, hnew, hfilter'⟩
        · exact ⟨hsame.filtered hfilter, fun e he => hentries e (hsame.entries ▸ he)⟩
        · exact ⟨hfilter', fun e he => hm e (hnew ▸ he)⟩
      · intro c hc
        rcases TableScreen.pushes hc with rfl | rfl | rfl | ⟨e, he, rfl⟩ | rfl | ⟨job, rfl⟩
        · exact trivial
        · exact trivial
        · exact trivial
        · rw [hfilter] at he
          exact hentries e (List.mem_of_mem_filter he)
        · exact ⟨s.entries, .rebuild rfl, hentries⟩
        · exact trivial
  | tree s =>
      obtain ⟨entries, hlists, hentries⟩ := hs
      refine ⟨⟨entries, hlists.update m, hentries⟩, ?_⟩
      intro c hc
      rcases TreeScreen.pushes hc with rfl | ⟨row, hrow, e, he, rfl⟩
      · exact trivial
      · exact hentries e (hlists.path_of_entry hrow he).1
  | detail s =>
      have hentry := (DetailScreen.pending_update fresh s m).1
      refine ⟨show K _ by rw [hentry]; exact hs, ?_⟩
      intro c hc
      rcases DetailScreen.mem_cmds hc with ⟨-, a, -, rfl⟩ | ⟨label, rfl⟩ | rfl | ⟨-, rfl⟩ | ⟨k, a, -, -, rfl⟩
      · exact DetailScreen.listed_actionCmd hs a
      · exact trivial
      · exact trivial
      · exact hs
      · exact DetailScreen.listed_dialog hs a
  | confirm s =>
      refine ⟨hs, ?_⟩
      intro c hc
      obtain ⟨k, rfl⟩ := ConfirmScreen.mem_cmds hc
      exact trivial
  | killConfirm s =>
      refine ⟨show K _ by rw [s.question_update m]; exact hs, ?_⟩
      intro c hc
      rcases KillConfirmScreen.mem_cmds hc with ⟨b, rfl, -⟩ | ⟨job, rfl⟩
      · exact trivial
      · exact trivial
  | stream s =>
      have hentry : (s.update m).1.entry = s.entry := by
        unfold StreamScreen.update
        split <;> rfl
      refine ⟨show K _ by rw [hentry]; exact hs, ?_⟩
      intro c hc
      rcases StreamScreen.mem_cmds hc with ⟨-, rfl⟩ | ⟨session, -, rfl⟩ | ⟨ev, src, -, rfl⟩
      · exact trivial
      · exact trivial
      · exact trivial

theorem Screen.listed_resize {s : Screen W} (hs : s.Listed K) (width height : Int) : (s.resize width height).Listed K := by
  cases s with
  | table s =>
      show (if width ≤ 0 then s else _).Filtered ∧ ∀ e ∈ (if width ≤ 0 then s else _).entries, K e
      split <;> exact hs
  | _ => exact hs

theorem Screen.listed_init {s : Screen W} (hs : s.Listed K) : s.init.1.Listed K ∧ ∀ c ∈ s.init.2, c.Listed K := by
  constructor
  · cases s <;> exact hs
  · intro c hc
    rcases Screen.mem_cmds_init hc with ⟨t, -, hc⟩ | ⟨t, rfl, rfl⟩ | ⟨job, rfl⟩
    · rcases List.mem_cons.mp hc with rfl | hc
      · exact trivial
      · rw [List.mem_singleton.mp hc]
        exact trivial
    · exact hs
    · exact trivial

/-- A finished command answers with what it carried, or with what the scan returned. -/
theorem Cmd.listed_finish {c : Cmd W} {i : SessionId} {o : Outcome W} {m : Msg W} {session : Option Session}
    (hc : c.Listed K) (ho : o.Listed K) (h : c.finish i o = some (m, session)) : m.Listed K := by
  unfold Cmd.finish at h
  split at h
  case h_16 => cases h
  all_goals
    obtain ⟨rfl, -⟩ := Prod.mk.inj (Option.some.inj h)
    first
      | exact trivial
      | exact hc
      | exact ho

theorem keeps_listed (K : HiddenEntry → Prop) :
    Keeps (W := W) (fun _ => Outcome.Listed K) (Screen.Listed K) (Cmd.Listed K) (Msg.Listed K) where
  key _ := trivial
  windowSize _ _ := trivial
  result _ _ _ := trivial
  quit := trivial
  pushed _ h := h
  resize _ width height h := Screen.listed_resize h width height
  init _ h := Screen.listed_init h
  update _ _ _ hs hm := Screen.listed_update hs hm
  finish _ _ _ _ _ hc ho h := Cmd.listed_finish hc ho h

/-! ### Sessions -/

/-- The session is one on the file of an entry in `K`. -/
def Session.Listed (K : HiddenEntry → Prop) (x : Session) : Prop := ∃ e, K e ∧ x.pid = e.pid ∧ x.fd = e.fd

theorem listed_closeSession {sessions : List Session} (h : ∀ x ∈ sessions, x.Listed K) (session : Option SessionId) :
    ∀ x ∈ closeSession session sessions, x.Listed K := by
  cases session with
  | none => exact h
  | some i =>
      intro x hx
      obtain ⟨j, hj⟩ := List.getElem?_of_mem hx
      rw [closeSession, List.getElem?_modify] at hj
      obtain ⟨y, hy, rfl⟩ := Option.map_eq_some_iff.mp hj
      obtain ⟨e, he, hfile⟩ := h y (List.mem_of_getElem? hy)
      refine ⟨e, he, ?_⟩
      split <;> exact hfile

theorem listed_closeAllSessions {sessions : List Session} (h : ∀ x ∈ sessions, x.Listed K) (a : App W) :
    ∀ x ∈ a.closeAllSessions sessions, x.Listed K := by
  unfold App.closeAllSessions
  generalize a.stack = stack
  induction stack generalizing sessions with
  | nil => exact h
  | cons s stack ih =>
      rw [List.foldl_cons]
      apply ih
      cases s with
      | stream s => exact listed_closeSession h s.session
      | _ => exact h

/-- Only `OpenStream` makes a session, on the file of its entry. -/
theorem Cmd.listed_session {c : Cmd W} {i : SessionId} {o : Outcome W} {m : Msg W} {session : Option Session}
    (hc : c.Listed K) (h : c.finish i o = some (m, session)) : ∀ x ∈ session.toList, x.Listed K := by
  intro x hx
  obtain ⟨-, -, -, rfl⟩ | ⟨-, -, rfl⟩ | ⟨-, -, -, -, rfl⟩ | ⟨id, e, rfl, -, rfl⟩ | ⟨-, -, -, -, rfl⟩ | ⟨-, rfl⟩ :=
    Cmd.finish_cases h
  case inr.inr.inr.inl =>
    rw [Option.toList_some, List.mem_singleton] at hx
    exact ⟨e, hc, by rw [hx], by rw [hx]⟩
  all_goals cases hx

/-- The entries the scans of a run have returned. -/
def Act.scanned : Act W → List HiddenEntry
  | .finish _ (.scanned (.ok (entries, _))) => entries
  | _ => []

theorem Act.comes_listed {acts : List (Act W)} (h : ∀ e ∈ acts.flatMap Act.scanned, K e) :
    ∀ act ∈ acts, ∀ p, act.Comes (fun _ => Outcome.Listed K) p := by
  intro act hact p
  have hin : ∀ e ∈ act.scanned, K e := fun e he => h e (List.mem_flatMap.mpr ⟨act, hact, he⟩)
  unfold Act.scanned at hin
  unfold Act.Comes
  split
  · intro c _
    unfold Outcome.Listed
    split
    · exact hin
    · exact trivial
  · exact trivial

theorem listed_start (K : HiddenEntry → Prop) (minSize onlyPid uidFilter interval : Int) :
    Throughout (Screen.Listed K) (Cmd.Listed K) (Msg.Listed K) (Program.start W minSize onlyPid uidFilter interval) := by
  refine ⟨List.forall_mem_singleton.mpr ⟨rfl, List.forall_mem_nil _⟩, ?_, List.forall_mem_nil _⟩
  exact List.forall_mem_cons.mpr ⟨trivial, List.forall_mem_singleton.mpr trivial⟩

theorem listed_run {minSize onlyPid uidFilter interval : Int} {acts : List (Act W)} {p : Program W}
    (hrun : Run Program.Step (Program.start W minSize onlyPid uidFilter interval) acts p)
    (h : ∀ e ∈ acts.flatMap Act.scanned, K e) : ∀ x ∈ p.sessions, x.Listed K := by
  induction hrun with
  | nil => exact List.forall_mem_nil _
  | @snoc acts p p' act hrun hstep ih =>
      rw [List.flatMap_append, List.forall_mem_append] at h
      have hbefore := (keeps_listed K).run (listed_start K _ _ _ _) (hrun.guarded (Act.comes_listed h.1))
      have hsessions := ih h.1
      obtain ⟨m, -, rfl⟩ | ⟨i, c, o, m, session, rfl, hc, hfin, rfl⟩ | ⟨queue, -, -, rfl⟩ | ⟨m, queue, -, -, -, rfl⟩ :=
        Program.step_cases hstep
      · exact hsessions
      · intro x hx
        rcases List.mem_append.mp hx with hx | hx
        · exact hsessions x hx
        · exact Cmd.listed_session (hbefore.flight.1 c (List.mem_of_getElem? hc)) hfin x hx
      · exact listed_closeAllSessions hsessions p.app
      · exact listed_closeSession hsessions _

/-- **Only what was listed.** In every run, for any interleaving of keys, timers and answers: every entry on any
    stacked screen, every entry a running command truncates, signals or opens a stream on, and the file of every
    stream session ever opened, was returned by a scan that finished earlier in the run. -/
theorem acts_on_listed (W : Widgets) (minSize onlyPid uidFilter interval : Int) (acts : List (Act W)) (p : Program W)
    (hrun : Run Program.Step (Program.start W minSize onlyPid uidFilter interval) acts p) :
    (∀ s ∈ p.app.stack, s.Listed (· ∈ acts.flatMap Act.scanned)) ∧
      (∀ c ∈ p.running, c.Listed (· ∈ acts.flatMap Act.scanned)) ∧
      ∀ x ∈ p.sessions, x.Listed (· ∈ acts.flatMap Act.scanned) := by
  have hall : ∀ e ∈ acts.flatMap Act.scanned, e ∈ acts.flatMap Act.scanned := fun e he => he
  have hkept := (keeps_listed _).run (listed_start _ _ _ _ _) (hrun.guarded (Act.comes_listed hall))
  exact ⟨hkept.stack, hkept.flight.1, listed_run hrun hall⟩

end

/-- The kill of the listed entry, under way. -/
def killStarted : List (Act simpleWidgets) := killRun ++ [.deliver]

theorem acts_on_listed_kill :
    ∃ p, Run Program.Step (Program.start simpleWidgets 0 0 (-1) 5) killStarted p ∧
      (∃ c ∈ p.running, c matches .kill _) ∧
      ∀ c ∈ p.running, c.Listed (· ∈ killStarted.flatMap Act.scanned) := by
  have hexec : (killStarted.foldlM Program.next (Program.start simpleWidgets 0 0 (-1) 5)).any (fun p =>
      ∃ c ∈ p.running, c matches .kill _) := by decide +kernel
  obtain ⟨p, hp, hkill⟩ := (Option.any_eq_true _ _).mp hexec
  have hrun : Run Program.Step (Program.start simpleWidgets 0 0 (-1) 5) killStarted p :=
    Run.of_exec (fun _ _ _ _ h => h) hp
  exact ⟨p, hrun, of_decide_eq_true hkill, (acts_on_listed _ _ _ _ _ _ p hrun).2.1⟩

/-! ## The root -/

section

variable (scope : Int × Int × Int × Int)

/-- A table on the stack has these parameters and a filter that is applied. -/
def Screen.Scoped : Screen W → Prop
  | .table s => s.scope = scope ∧ s.Filtered
  | _ => True

/-- Scans and timers have these parameters, and no further table is on its way. -/
def Cmd.Scoped : Cmd W → Prop
  | .scan minSize onlyPid uidFilter => (minSize, onlyPid, uidFilter) = (scope.1, scope.2.1, scope.2.2.1)
  | .tick interval => interval = scope.2.2.2
  | .push s => s.isTable = false
  | _ => True

def Msg.Scoped : Msg W → Prop
  | .push s => s.isTable = false
  | _ => True

variable {scope}

theorem Msg.Scoped.bringsTable {m : Msg W} (h : m.Scoped) : m.bringsTable = false := by
  cases m with
  | push s => exact h
  | _ => rfl

theorem Screen.scoped_of_not_table {s : Screen W} (h : s.isTable = false) : s.Scoped scope := by
  cases s with
  | table s => cases h
  | _ => exact trivial

theorem Cmd.scoped_of_quiet {c : Cmd W} (h : c.quiet) (hscan : ∀ a b d, c ≠ .scan a b d) : c.Scoped scope := by
  cases c with
  | scan a b d => exact absurd rfl (hscan a b d)
  | tick interval => cases h.1
  | push s => exact h.2
  | _ => exact trivial

theorem TableScreen.scoped_cmds {s : TableScreen W} (hs : s.scope = scope) {m : Msg W} :
    ∀ c ∈ (s.update m).2, c.Scoped scope := by
  intro c hc
  rcases TableScreen.pushes hc with rfl | rfl | rfl | ⟨e, -, rfl⟩ | rfl | ⟨job, rfl⟩
  · rw [← hs]
    exact rfl
  · rw [← hs]
    exact rfl
  · exact trivial
  · exact rfl
  · exact rfl
  · exact trivial

/-- The others start no scan. -/
theorem Screen.no_scan {fresh : Nat} {m : Msg W} {s : Screen W} (hs : s.isTable = false) :
    ∀ c ∈ (s.update fresh m).cmds, ∀ a b d, c ≠ .scan a b d := by
  intro c hc a b d
  cases s with
  | table s => cases hs
  | tree s =>
      rcases TreeScreen.mem_cmds hc with rfl | ⟨e, rfl⟩
      · intro h; cases h
      · intro h; cases h
  | detail s =>
      rcases DetailScreen.mem_cmds hc with ⟨-, act, -, rfl⟩ | ⟨label, rfl⟩ | rfl | ⟨-, rfl⟩ | ⟨k, act, -, -, rfl⟩
      · cases act <;> intro h <;> cases h
      all_goals intro h; cases h
  | confirm s =>
      obtain ⟨k, rfl⟩ := ConfirmScreen.mem_cmds hc
      intro h; cases h
  | killConfirm s =>
      rcases KillConfirmScreen.mem_cmds hc with ⟨ans, rfl, -⟩ | ⟨job, rfl⟩
      · intro h; cases h
      · intro h; cases h
  | stream s =>
      rcases StreamScreen.mem_cmds hc with ⟨-, rfl⟩ | ⟨session, -, rfl⟩ | ⟨ev, src, -, rfl⟩
      all_goals intro h; cases h

theorem Screen.scoped_update {fresh : Nat} {m : Msg W} {s : Screen W} (hs : s.Scoped scope) :
    (s.update fresh m).screen.Scoped scope ∧ ∀ c ∈ (s.update fresh m).cmds, c.Scoped scope := by
  cases htable : s.isTable with
  | false =>
      refine ⟨Screen.scoped_of_not_table (by rw [Screen.isTable_update, htable]), ?_⟩
      intro c hc
      have hquiet := Screen.quiet_cmds (m := m) (by rw [htable, Bool.and_false]) c hc
      exact Cmd.scoped_of_quiet hquiet (Screen.no_scan htable c hc)
  | true =>
      cases s with
      | table s =>
          refine ⟨?_, TableScreen.scoped_cmds hs.1⟩
          rcases s.update_facts m with hsame | ⟨entries, total, -, hscope, -, hfilter⟩
          · exact ⟨hsame.scope.trans hs.1, hsame.filtered hs.2⟩
          · exact ⟨hscope.trans hs.1, hfilter⟩
      | _ => cases htable

theorem Screen.scoped_init {s : Screen W} (hs : s.Scoped scope) : s.init.1.Scoped scope ∧ ∀ c ∈ s.init.2, c.Scoped scope := by
  constructor
  · cases s <;> exact hs
  · intro c hc
    rcases Screen.mem_cmds_init hc with ⟨t, rfl, hc⟩ | ⟨t, rfl, rfl⟩ | ⟨job, rfl⟩
    · obtain ⟨hscope, -⟩ := hs
      rw [← hscope]
      rcases List.mem_cons.mp hc with rfl | hc
      · exact rfl
      · rw [List.mem_singleton.mp hc]
        exact rfl
    · exact trivial
    · exact trivial

theorem Screen.scoped_resize {s : Screen W} (hs : s.Scoped scope) (width height : Int) :
    (s.resize width height).Scoped scope := by
  cases s with
  | table s =>
      show (if width ≤ 0 then s else _).scope = scope ∧ (if width ≤ 0 then s else _).Filtered
      split <;> exact hs
  | _ => exact trivial

theorem Cmd.scoped_finish {c : Cmd W} {i : SessionId} {o : Outcome W} {m : Msg W} {session : Option Session}
    (hc : c.Scoped scope) (h : c.finish i o = some (m, session)) : m.Scoped := by
  unfold Cmd.finish at h
  split at h
  case h_16 => cases h
  all_goals
    obtain ⟨rfl, -⟩ := Prod.mk.inj (Option.some.inj h)
    first
      | exact trivial
      | exact hc

theorem keeps_scoped (scope : Int × Int × Int × Int) :
    Keeps (W := W) (fun _ _ => True) (Screen.Scoped scope) (Cmd.Scoped scope) Msg.Scoped where
  key _ := trivial
  windowSize _ _ := trivial
  result _ _ _ := trivial
  quit := trivial
  pushed _ h := Screen.scoped_of_not_table h
  resize _ width height h := Screen.scoped_resize h width height
  init _ h := Screen.scoped_init h
  update _ _ _ hs _ := Screen.scoped_update hs
  finish _ _ _ _ _ hc _ h := Cmd.scoped_finish hc h

/-- Where the stack is so, the last screen is the table. -/
theorem App.Bottomed.split {a : App W} (h : a.Bottomed) :
    ∃ above t, a.stack = above ++ [.table t] ∧ ∀ s ∈ above, s.isTable = false := by
  obtain ⟨n, hn⟩ := h
  obtain ⟨above, root, hstack, habove, hroot⟩ := List.map_eq_append_iff.mp hn
  obtain ⟨s, rest, rfl, hs, hrest⟩ := List.map_eq_cons_iff.mp hroot
  obtain rfl := List.map_eq_nil_iff.mp hrest
  cases s with
  | table t =>
      refine ⟨above, t, hstack, ?_⟩
      intro s hs
      have hmem : s.isTable ∈ above.map Screen.isTable := List.mem_map_of_mem hs
      rw [habove] at hmem
      exact List.eq_of_mem_replicate hmem
  | _ => cases hs

/-- A table on the stack has these entries. -/
def Screen.Carries (last : List HiddenEntry) : Screen W → Prop
  | .table s => s.entries = last
  | _ => True

theorem Screen.carries_of_not_table {s : Screen W} (h : s.isTable = false) (last : List HiddenEntry) : s.Carries last := by
  cases s with
  | table s => cases h
  | _ => exact trivial

theorem Screen.carries_resize {s : Screen W} {last : List HiddenEntry} (h : s.Carries last) (width height : Int) :
    (s.resize width height).Carries last := by
  cases s with
  | table s =>
      show (if width ≤ 0 then s else _).entries = last
      split <;> exact h
  | _ => exact trivial

/-- The last listing that the screen on top was handed, if it is the table. -/
def App.handed (a : App W) (m : Msg W) (last : List HiddenEntry) : List HiddenEntry :=
  (if a.top.isTable then m.listed else none).getD last

theorem App.handed_of_unlisted {m : Msg W} (h : m.listed = none) (a : App W) (last : List HiddenEntry) :
    a.handed m last = last := by
  rw [App.handed, h, ite_self]
  rfl

theorem App.carries_forward {a : App W} (h : a.Bottomed) {last : List HiddenEntry}
    (hc : ∀ s ∈ a.stack, s.Carries last) (fresh : Nat) (m : Msg W) :
    ∀ s ∈ (a.forward fresh m).app.stack, s.Carries (a.handed m last) := by
  rw [App.stack, App.forward_top, App.forward_below, App.handed]
  cases htop : a.top.isTable with
  | true =>
      rw [h.isTable_top, List.isEmpty_iff] at htop
      rw [htop, List.forall_mem_singleton]
      have hroot := hc a.top List.mem_cons_self
      cases hscreen : a.top with
      | table s =>
          rw [hscreen] at hroot
          show (s.update m).1.entries = _
          rw [s.entries_update, show s.entries = last from hroot]
          rfl
      | _ => exact trivial
  | false =>
      rw [List.forall_mem_cons]
      refine ⟨Screen.carries_of_not_table ((Screen.isTable_update _ _ _).trans htop) _, ?_⟩
      exact fun s hs => hc s (List.mem_cons_of_mem _ hs)

theorem App.carries_update {a : App W} (h : a.Bottomed) {last : List HiddenEntry}
    (hc : ∀ s ∈ a.stack, s.Carries last) (fresh : Nat) {m : Msg W} (hm : m.Scoped) :
    ∀ s ∈ (a.update fresh m).app.stack, s.Carries (a.handed m last) := by
  obtain ⟨width, height, rfl, heq⟩ | ⟨rfl, heq⟩ | ⟨s, rfl, heq⟩ | ⟨sender, rfl, heq⟩ | ⟨v, sender, rfl, heq⟩ | ⟨-, heq⟩ :=
    App.update_cases fresh m a
  · rw [heq, App.handed_of_unlisted rfl]
    intro s hs
    obtain ⟨s', hs', rfl⟩ := List.mem_map.mp (show s ∈ a.stack.map (·.resize width height) from hs)
    exact Screen.carries_resize (hc s' hs') width height
  · rw [heq, App.handed_of_unlisted rfl]
    exact hc
  · rw [heq, App.handed_of_unlisted rfl]
    show ∀ s' ∈ (s.resize a.width a.height).init.1 :: a.stack, s'.Carries last
    rw [List.forall_mem_cons]
    refine ⟨Screen.carries_of_not_table ?_ last, hc⟩
    rw [Screen.isTable_init, Screen.isTable_resize]
    exact hm
  · rw [heq, App.handed_of_unlisted rfl]
    exact fun s hs => hc s (a.subset_drop s hs)
  · rw [heq, App.handed_of_unlisted rfl]
    have hforward := App.carries_forward h.drop (fun s hs => hc s (a.subset_drop s hs)) fresh (.result v)
    rw [App.handed_of_unlisted rfl] at hforward
    exact hforward
  · rw [heq]
    exact App.carries_forward h hc fresh m

/-- A record of the last listing that the table was handed. One that arrives while another screen is on top is
    dropped, and the record stays. -/
def lastHanded (p : Program W) (act : Act W) (last : List HiddenEntry) : List HiddenEntry :=
  match act, p.queue with
  | .deliver, m :: _ => p.app.handed m last
  | _, _ => last

/-- What holds of the root throughout a run. -/
structure RootOk (scope : Int × Int × Int × Int) (x : Observed (Program W) (List HiddenEntry)) : Prop where
  parts : Throughout (Screen.Scoped scope) (Cmd.Scoped scope) Msg.Scoped x.state
  bottomed : x.state.app.Bottomed
  carries : ∀ s ∈ x.state.app.stack, s.Carries x.seen

theorem RootOk.start (minSize onlyPid uidFilter interval : Int) :
    RootOk (minSize, onlyPid, uidFilter, interval) ⟨Program.start W minSize onlyPid uidFilter interval, []⟩ where
  parts := by
    refine ⟨List.forall_mem_singleton.mpr ⟨rfl, rfl⟩, ?_, List.forall_mem_nil _⟩
    exact List.forall_mem_cons.mpr ⟨rfl, List.forall_mem_singleton.mpr rfl⟩
  bottomed := ⟨0, rfl⟩
  carries := List.forall_mem_singleton.mpr rfl

theorem lastHanded_deliver {p : Program W} {m : Msg W} {queue : List (Msg W)} (hq : p.queue = m :: queue)
    (last : List HiddenEntry) : lastHanded p .deliver last = p.app.handed m last := by
  simp only [lastHanded, hq]

theorem RootOk.step {scope : Int × Int × Int × Int} {x y : Observed (Program W) (List HiddenEntry)} {act : Act W}
    (h : RootOk scope x) (hstep : Observe Program.Step lastHanded x act y) : RootOk scope y := by
  obtain ⟨p, last⟩ := x
  obtain ⟨p', last'⟩ := y
  obtain ⟨hstep, hlast⟩ := hstep
  obtain ⟨hparts, hbottom, hcarries⟩ := h
  dsimp only at hlast hstep hparts hbottom hcarries
  have hcomes : act.Comes (fun _ _ => True) p := by
    cases act with
    | finish i o => exact fun _ _ => trivial
    | _ => exact trivial
  have hparts' := (keeps_scoped _).step hparts hstep hcomes
  obtain ⟨m, hm, rfl⟩ | ⟨i, c, o, m, session, rfl, -, -, rfl⟩ | ⟨queue, rfl, hq, rfl⟩ | ⟨m, queue, rfl, -, hq, rfl⟩ :=
    Program.step_cases hstep
  · -- a key or a resize is queued
    have hsame : last' = last := by
      obtain ⟨k, rfl, -⟩ | ⟨width, height, rfl, -⟩ := hm <;> exact hlast
    subst hsame
    exact ⟨hparts', hbottom, hcarries⟩
  · obtain rfl : last' = last := hlast
    exact ⟨hparts', hbottom, hcarries⟩
  · rw [lastHanded_deliver hq, App.handed_of_unlisted rfl] at hlast
    subst hlast
    exact ⟨hparts', hbottom, hcarries⟩
  · have hm : m.Scoped := by
      apply hparts.flight.2
      rw [hq]
      exact List.mem_cons_self
    rw [lastHanded_deliver hq] at hlast
    subst hlast
    exact ⟨hparts', hbottom.update p.fresh hm.bringsTable, App.carries_update hbottom hcarries p.fresh hm⟩

/-- **The root.** In every run, whatever is pushed, popped, resized, scanned and typed: the bottom of the stack is
    the one `TableScreen` there is, with the parameters the program was started with; every scan and every timer
    under way has them too; its entries are those of the last listing that was handed to it, and its rows are
    exactly those of them that its filter lets through. -/
theorem root_table (W : Widgets) (minSize onlyPid uidFilter interval : Int) (acts : List (Act W)) (p : Program W)
    (last : List HiddenEntry)
    (hrun : Run (Observe Program.Step lastHanded) ⟨Program.start W minSize onlyPid uidFilter interval, []⟩ acts ⟨p, last⟩) :
    (∃ above t, p.app.stack = above ++ [.table t] ∧ (∀ s ∈ above, s.isTable = false) ∧
      t.scope = (minSize, onlyPid, uidFilter, interval) ∧ t.entries = last ∧ t.filteredEntries = last.filter t.shows) ∧
    ∀ c ∈ p.running, c.Scoped (minSize, onlyPid, uidFilter, interval) := by
  obtain ⟨⟨hstack, hflight⟩, hbottom, hcarries⟩ :=
    hrun.invariant (I := RootOk (minSize, onlyPid, uidFilter, interval)) (.start minSize onlyPid uidFilter interval)
      fun _ _ _ h hstep => h.step hstep
  obtain ⟨above, t, hsplit, habove⟩ := hbottom.split
  have hmem : .table t ∈ p.app.stack := by
    rw [hsplit]
    exact List.mem_append_right _ (List.mem_singleton.mpr rfl)
  obtain ⟨hscope, hfiltered⟩ := hstack (.table t) hmem
  have hentries : t.entries = last := hcarries (.table t) hmem
  refine ⟨⟨above, t, hsplit, habove, hscope, hentries, ?_⟩, hflight.1⟩
  rw [← hentries]
  exact hfiltered

end

/-- A listing with one entry, `r`, Enter; and the second listing, an empty one, comes while the entry is open. -/
def lateListing : List (Act simpleWidgets) :=
  [ .finish 0 (.scanned (.ok ([HiddenEntry.zero], 0))), .deliver, .press (.rune 'r'), .deliver, .press .enter, .deliver,
    .finish 2 .done, .deliver, .finish 1 (.scanned (.ok ([], 0))), .deliver ]

/-- With a detail screen on top, the table is still below, with the entries of the first listing. -/
theorem root_table_late :
    ∃ p last, Run (Observe Program.Step lastHanded) ⟨Program.start simpleWidgets 0 0 (-1) 5, []⟩ lateListing ⟨p, last⟩ ∧
      (p.app.stack.length = 2 ∧ last.length = 1) ∧
      ∃ above t, p.app.stack = above ++ [.table t] ∧ (∀ s ∈ above, s.isTable = false) ∧ t.scope = (0, 0, -1, 5) ∧
        t.entries = last ∧ t.filteredEntries = last.filter t.shows := by
  have hexec : (lateListing.foldlM (fun x act => (Program.next x.state act).map fun p =>
      (⟨p, lastHanded x.state act x.seen⟩ : Observed (Program simpleWidgets) (List HiddenEntry)))
      ⟨Program.start simpleWidgets 0 0 (-1) 5, []⟩).any (fun x =>
        x.state.app.stack.length = 2 ∧ x.seen.length = 1) := by decide +kernel
  obtain ⟨⟨p, last⟩, hp, hlen⟩ := (Option.any_eq_true _ _).mp hexec
  have hrun : Run (Observe Program.Step lastHanded) ⟨Program.start simpleWidgets 0 0 (-1) 5, []⟩ lateListing ⟨p, last⟩ :=
    Run.of_exec_observed hp
  exact ⟨p, last, hrun, of_decide_eq_true hlen, (root_table _ _ _ _ _ _ p last hrun).1⟩

end Tui
end Hsed
