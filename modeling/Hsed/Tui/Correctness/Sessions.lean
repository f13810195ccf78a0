import Hsed.Tui.Correctness.Names

/-!
# `Tui.Correctness.Sessions` — who holds a stream session, and whose writes a screen shows

`OpenStream` and `Next` run on their own, and what they answer goes to whatever screen is then on top. A
session whose `streamAttachedMsg` finds another screen there is lost: nobody will close it, and the process
stays traced (`session_lost`).

`sessions_owned` is the other half. A step is `attended` if an attached session reaches the `StreamScreen` whose
`Init` opened it, if no pop takes away a screen whose session is open, and if a `StreamScreen` arrives only
while every stream on the stack and every read under way is of its own file. In a run of such steps every
session is closed, under way or held by its own screen, and every write is shown under its own file.
-/

namespace Hsed
namespace Tui

open CLib Lts
open Client (HiddenEntry WriteEvent)

variable {W : Widgets}

/-- The process and the descriptor a screen watches. -/
def StreamScreen.file (s : StreamScreen) : Int × Int := (s.entry.pid, s.entry.fd)

def Session.file (s : Session) : Int × Int := (s.pid, s.fd)

def fileOf (sessions : List Session) (i : SessionId) : Option (Int × Int) := sessions[i]?.map Session.file

/-- A `Next` that reads from a session for `file`. -/
def Cmd.readsFrom (sessions : List Session) (file : Int × Int) : Cmd W → Bool
  | .readNext (some i) => fileOf sessions i = some file
  | _ => true

/-- A write event that was read from a session for `file`. -/
def Msg.readFrom (sessions : List Session) (file : Int × Int) : Msg W → Bool
  | .streamEvent (some _) src => fileOf sessions src = some file
  | _ => true

/-! ## The property and the condition -/

/-- Every session is closed, under way or held by the screen it was opened for; every write was read from a
    session for the screen's own process and descriptor. -/
structure Owned (p : Program W) : Prop where
  sessions : ∀ i session, p.sessions[i]? = some session →
    session.closed ∨ .streamAttached i ∈ p.queue ∨
    ∃ s, .stream s ∈ p.app.stack ∧ s.id = session.owner ∧ s.session = some i
  lines : ∀ s, .stream s ∈ p.app.stack → ∀ ev src, .write ev src ∈ s.lines →
    ∃ session, p.sessions[src]? = some session ∧ session.pid = s.entry.pid ∧ session.fd = s.entry.fd

/-- The condition on a step. -/
def attended (p : Program W) : Act W → Bool
  | .deliver =>
    match p.queue with
    | .streamAttached i :: _ => p.app.top.stream?.any fun s => p.sessions[i]?.map Session.owner = some s.id
    | .pop _ _ :: _ => p.app.top.stream?.all fun s => (s.session.bind (p.sessions[·]?)).all Session.closed
    | .push (.stream s) :: _ =>
      p.app.streams.all (fun t => t.file = s.file) && p.running.all (Cmd.readsFrom p.sessions s.file) &&
        p.queue.all (Msg.readFrom p.sessions s.file)
    | _ => true
  | _ => true

/-! ## The invariant -/

structure Kept (streams : List StreamScreen) (running : List (Cmd W)) (queue : List (Msg W)) (sessions : List Session) :
    Prop where
  custody : ∀ i session, sessions[i]? = some session →
    session.closed ∨ .streamAttached i ∈ queue ∨ ∃ s ∈ streams, s.id = session.owner ∧ s.session = some i
  held : ∀ s ∈ streams, ∀ i, s.session = some i → sessions[i]?.map Session.owner = some s.id
  same : ∀ s ∈ streams, ∀ t ∈ streams, t.file = s.file
  reading : ∀ s ∈ streams,
    InFlight (fun c => c.readsFrom sessions s.file) (fun m => m.readFrom sessions s.file) running queue
  lines : ∀ s ∈ streams, ∀ ev src, .write ev src ∈ s.lines → fileOf sessions src = some s.file

section

variable {streams : List StreamScreen} {running cmds : List (Cmd W)} {queue : List (Msg W)}
  {sessions sessions' : List Session} {m : Msg W} {fresh : Nat} {file : Int × Int}

theorem Kept.start (minSize onlyPid uidFilter interval : Int) :
    Kept (Program.start W minSize onlyPid uidFilter interval).app.streams
      (Program.start W minSize onlyPid uidFilter interval).running [] [] := by
  have hstreams : (Program.start W minSize onlyPid uidFilter interval).app.streams = [] := rfl
  rw [hstreams]
  constructor <;> simp

/-- The table of sessions has kept its rows: none moves, changes its tag or opens again. -/
def Extends (sessions sessions' : List Session) : Prop :=
  ∀ (i : SessionId) (s : Session), sessions[i]? = some s →
    ∃ s' : Session, sessions'[i]? = some s' ∧ s'.tag = s.tag ∧ (s.closed → s'.closed)

theorem extends_append (sessions more : List Session) : Extends sessions (sessions ++ more) := by
  intro i s hs
  refine ⟨s, ?_, rfl, id⟩
  rw [List.getElem?_append_left (List.getElem?_eq_some_iff.mp hs).1]
  exact hs

theorem extends_closeSession (session : Option SessionId) (sessions : List Session) :
    Extends sessions (closeSession session sessions) := by
  intro i s hs
  rw [getElem?_closeSession, hs]
  by_cases hi : session = some i
  · exact ⟨s.close, by simp [hi], rfl, fun _ => rfl⟩
  · exact ⟨s, by simp [hi], rfl, id⟩

theorem Extends.fileOf (h : Extends sessions sessions') {i : SessionId} (hi : fileOf sessions i = some file) :
    Tui.fileOf sessions' i = some file := by
  obtain ⟨s, hs, rfl⟩ := Option.map_eq_some_iff.mp hi
  obtain ⟨s', hs', htag, -⟩ := h i s hs
  obtain ⟨-, hpid, hfd⟩ : s'.owner = s.owner ∧ s'.pid = s.pid ∧ s'.fd = s.fd := by simpa [Session.tag] using htag
  simp [Tui.fileOf, hs', Session.file, hpid, hfd]

theorem Extends.owner (h : Extends sessions sessions') {i : SessionId} {owner : Nat}
    (hi : sessions[i]?.map Session.owner = some owner) : sessions'[i]?.map Session.owner = some owner := by
  obtain ⟨s, hs, rfl⟩ := Option.map_eq_some_iff.mp hi
  obtain ⟨s', hs', htag, -⟩ := h i s hs
  simp [hs', show s'.owner = s.owner from congrArg Prod.fst htag]

theorem Cmd.readsFrom_extends (h : Extends sessions sessions') {c : Cmd W} (hc : c.readsFrom sessions file) :
    c.readsFrom sessions' file := by
  unfold Cmd.readsFrom at hc ⊢
  split at hc
  · simpa using h.fileOf (by simpa using hc)
  · rfl

theorem Msg.readFrom_extends (h : Extends sessions sessions') (hm : m.readFrom sessions file) :
    m.readFrom sessions' file := by
  unfold Msg.readFrom at hm ⊢
  split at hm
  · simpa using h.fileOf (by simpa using hm)
  · rfl

/-- What the table keeps, the invariant keeps, but for the custody of new rows. -/
theorem Kept.extended (h : Kept streams running queue sessions) (hext : Extends sessions sessions')
    (hcustody : ∀ i session, sessions'[i]? = some session →
      session.closed ∨ .streamAttached i ∈ queue ∨ ∃ s ∈ streams, s.id = session.owner ∧ s.session = some i) :
    Kept streams running queue sessions' := by
  refine ⟨hcustody, ?_, h.same, ?_, ?_⟩
  · intro s hs i hi
    exact hext.owner (h.held s hs i hi)
  · intro s hs
    have hread := h.reading s hs
    exact ⟨fun c hc => Cmd.readsFrom_extends hext (hread.1 c hc), fun m hm => Msg.readFrom_extends hext (hread.2 m hm)⟩
  · intro s hs ev src hline
    exact hext.fileOf (h.lines s hs ev src hline)

theorem Kept.closed (h : Kept streams running queue sessions) (session : Option SessionId) :
    Kept streams running queue (closeSession session sessions) := by
  apply h.extended (extends_closeSession session sessions)
  intro i s hs
  rw [getElem?_closeSession] at hs
  obtain ⟨old, hold, rfl⟩ := Option.map_eq_some_iff.mp hs
  by_cases hi : session = some i
  · left
    simp [hi, Session.close]
  · simpa [hi] using h.custody i old hold

theorem Kept.queued (h : Kept streams running queue sessions) (hm : ∀ file, m.readFrom sessions file) :
    Kept streams running (queue ++ [m]) sessions := by
  refine ⟨?_, h.held, h.same, fun s hs => (h.reading s hs).queued (hm s.file), h.lines⟩
  intro i session hi
  obtain hclosed | hqueue | hheld := h.custody i session hi
  · exact .inl hclosed
  · exact .inr (.inl (List.mem_append_left _ hqueue))
  · exact .inr (.inr hheld)

/-- The head of the queue goes, unless it carries a session. -/
theorem Kept.tail (h : Kept streams running (m :: queue) sessions) (hm : ∀ i, m ≠ .streamAttached i) :
    Kept streams running queue sessions := by
  refine ⟨?_, h.held, h.same, fun s hs => (h.reading s hs).tail, h.lines⟩
  intro i session hi
  obtain hclosed | hqueue | hheld := h.custody i session hi
  · exact .inl hclosed
  · rcases List.mem_cons.mp hqueue with hhead | hqueue
    · exact absurd hhead.symm (hm i)
    · exact .inr (.inl hqueue)
  · exact .inr (.inr hheld)

/-- A message that carries no session and no write may as well be there. -/
theorem Kept.cons (h : Kept streams running queue sessions) (hm : ∀ file, m.readFrom sessions file) :
    Kept streams running (m :: queue) sessions := by
  refine ⟨?_, h.held, h.same, ?_, h.lines⟩
  · intro i session hi
    obtain hclosed | hqueue | hheld := h.custody i session hi
    · exact .inl hclosed
    · exact .inr (.inl (List.mem_cons_of_mem m hqueue))
    · exact .inr (.inr hheld)
  · intro s hs
    refine ⟨(h.reading s hs).1, ?_⟩
    intro m' hm'
    rcases List.mem_cons.mp hm' with rfl | hm'
    · exact hm s.file
    · exact (h.reading s hs).2 m' hm'

theorem Kept.started (h : Kept streams running queue sessions) (hcmds : ∀ c ∈ cmds, ∀ file, c.readsFrom sessions file) :
    Kept streams (running ++ cmds) queue sessions :=
  ⟨h.custody, h.held, h.same, fun s hs => (h.reading s hs).started fun c hc => hcmds c hc s.file, h.lines⟩

theorem Cmd.attached_of_finish {c : Cmd W} {i : SessionId} {o : Outcome W} {session : Session}
    (h : c.finish i o = some (m, some session)) : m = .streamAttached i := by
  obtain ⟨_, -, -, hnone⟩ | ⟨-, -, hnone⟩ | ⟨_, _, -, -, hnone⟩ | ⟨_, _, -, hm, -⟩ | ⟨_, _, -, -, hnone⟩ | ⟨-, hnone⟩ :=
    Cmd.finish_cases h
  case inr.inr.inr.inl => exact hm
  all_goals cases hnone

/-- A command finishes: a new session is under way in its message, a read in its event. -/
theorem Kept.finished (h : Kept streams running queue sessions) {c : Cmd W} {i : Nat} {o : Outcome W}
    {session : Option Session} (hc : running[i]? = some c) (hfin : c.finish sessions.length o = some (m, session)) :
    Kept streams (running.eraseIdx i) (queue ++ [m]) (sessions ++ session.toList) := by
  have hmem : c ∈ running := List.mem_of_getElem? hc
  -- first without the new row of the table
  have hfinished : Kept streams (running.eraseIdx i) (queue ++ [m]) sessions := by
    refine ⟨?_, h.held, h.same, ?_, h.lines⟩
    · intro j session hj
      obtain hclosed | hqueue | hheld := h.custody j session hj
      · exact .inl hclosed
      · exact .inr (.inl (List.mem_append_left _ hqueue))
      · exact .inr (.inr hheld)
    · intro s hs
      have hread := h.reading s hs
      apply hread.finished i
      -- only the event of a read says which session it is from, and its command was of that session
      obtain ⟨_, -, rfl, -⟩ | ⟨-, rfl, -⟩ | ⟨_, _, -, rfl, -⟩ | ⟨_, _, -, rfl, -⟩ | ⟨src, ev, rfl, rfl, -⟩ |
        ⟨hplain, -⟩ := Cmd.finish_cases hfin
      · rfl
      · rfl
      · rfl
      · rfl
      · cases ev with
        | none => rfl
        | some ev => exact hread.1 _ hmem
      · cases m <;> simp_all [Msg.plain, Msg.readFrom]
  apply hfinished.extended (extends_append sessions _)
  intro j new hj
  rcases Nat.lt_or_ge j sessions.length with hlt | hge
  · rw [List.getElem?_append_left hlt] at hj
    exact hfinished.custody j new hj
  · -- the row is new: the message that carries it has just been queued
    rw [List.getElem?_append_right hge] at hj
    cases session with
    | none => simp at hj
    | some session =>
        have hlt := (List.getElem?_eq_some_iff.mp hj).1
        have hjn : j = sessions.length := by
          rw [Option.toList_some, List.length_singleton] at hlt
          exact Nat.le_antisymm (Nat.le_of_sub_eq_zero (Nat.lt_one_iff.mp hlt)) hge
        right
        left
        rw [hjn, Cmd.attached_of_finish hfin]
        exact List.mem_append_right _ List.mem_cons_self

theorem Kept.drop {a : App W} (h : Kept a.streams running queue sessions)
    (hclosed : ∀ s i session, a.top.stream? = some s → s.session = some i → sessions[i]? = some session →
      session.closed) :
    Kept a.drop.streams running queue sessions := by
  rcases a.streams_drop with heq | heq
  · rwa [heq]
  · have hsub : ∀ s ∈ a.drop.streams, s ∈ a.streams := by
      intro s hs
      rw [heq]
      exact List.mem_append_right _ hs
    refine ⟨?_, fun s hs => h.held s (hsub s hs), fun s hs t ht => h.same s (hsub s hs) t (hsub t ht),
      fun s hs => h.reading s (hsub s hs), fun s hs => h.lines s (hsub s hs)⟩
    intro i session hi
    obtain hdone | hqueue | ⟨s, hs, hid, hses⟩ := h.custody i session hi
    · exact .inl hdone
    · exact .inr (.inl hqueue)
    · rw [heq] at hs
      rcases List.mem_append.mp hs with htop | hs
      · exact .inl (hclosed s i session (by simpa using htop) hses hi)
      · exact .inr (.inr ⟨s, hs, hid, hses⟩)

/-- A stream arrives while all that is stacked and all that is read is of its file. -/
theorem Kept.push {s : StreamScreen} (h : Kept streams running queue sessions) (hsession : s.session = none)
    (hlines : s.lines = []) (hsame : ∀ t ∈ streams, t.file = s.file)
    (hreading : InFlight (fun c => c.readsFrom sessions s.file) (fun m => m.readFrom sessions s.file) running queue) :
    Kept (s :: streams) running queue sessions := by
  constructor
  · intro i session hi
    obtain hdone | hqueue | ⟨t, ht, hheld⟩ := h.custody i session hi
    · exact .inl hdone
    · exact .inr (.inl hqueue)
    · exact .inr (.inr ⟨t, List.mem_cons_of_mem s ht, hheld⟩)
  · intro t ht i hi
    rcases List.mem_cons.mp ht with rfl | ht
    · rw [hsession] at hi
      cases hi
    · exact h.held t ht i hi
  · intro t ht u hu
    -- all are of the file of the new one
    have hfile : ∀ v ∈ s :: streams, v.file = s.file := by
      intro v hv
      rcases List.mem_cons.mp hv with rfl | hv
      · rfl
      · exact hsame v hv
    rw [hfile t ht, hfile u hu]
  · intro t ht
    rcases List.mem_cons.mp ht with rfl | ht
    · exact hreading
    · exact h.reading t ht
  · intro t ht ev src hline
    rcases List.mem_cons.mp ht with rfl | ht
    · rw [hlines] at hline
      cases hline
    · exact h.lines t ht ev src hline

variable {s s' : StreamScreen}

/-- The top stream handles a message: what the new screen holds, shows and reads is its own. -/
theorem Kept.replace (h : Kept (s :: streams) running (m :: queue) sessions) (htag : s'.tag = s.tag)
    (hcustody : ∀ i session, sessions[i]? = some session →
      session.closed ∨ .streamAttached i ∈ queue ∨ ∃ t ∈ s' :: streams, t.id = session.owner ∧ t.session = some i)
    (hheld : ∀ i, s'.session = some i → sessions[i]?.map Session.owner = some s.id)
    (hlines : ∀ ev src, .write ev src ∈ s'.lines → fileOf sessions src = some s.file)
    (hcmds : ∀ c ∈ cmds, c.readsFrom sessions s.file) : Kept (s' :: streams) (running ++ cmds) queue sessions := by
  have hid : s'.id = s.id := congrArg Prod.fst htag
  have hfile : s'.file = s.file := congrArg Prod.snd htag
  -- every stacked stream has the file of the top one
  have hall : ∀ t ∈ s' :: streams, t.file = s.file := by
    intro t ht
    rcases List.mem_cons.mp ht with rfl | ht
    · exact hfile
    · exact h.same s List.mem_cons_self t (List.mem_cons_of_mem s ht)
  refine ⟨hcustody, ?_, fun t ht u hu => by rw [hall t ht, hall u hu], ?_, ?_⟩
  · intro t ht i hi
    rcases List.mem_cons.mp ht with rfl | ht
    · rw [hid]
      exact hheld i hi
    · exact h.held t (List.mem_cons_of_mem s ht) i hi
  · intro t ht
    rw [hall t ht]
    exact (h.reading s List.mem_cons_self).tail.started hcmds
  · intro t ht ev src hline
    rcases List.mem_cons.mp ht with rfl | ht
    · rw [hfile]
      exact hlines ev src hline
    · exact h.lines t (List.mem_cons_of_mem s ht) ev src hline

/-- A message that is no session: the screen keeps what it holds. -/
theorem Kept.update (h : Kept (s :: streams) running (m :: queue) sessions) (hm : ∀ i, m ≠ .streamAttached i)
    (htag : s'.tag = s.tag) (hsession : s'.session = s.session)
    (hlines : ∀ ev src, .write ev src ∈ s'.lines → fileOf sessions src = some s.file)
    (hcmds : ∀ c ∈ cmds, c.readsFrom sessions s.file) : Kept (s' :: streams) (running ++ cmds) queue sessions := by
  have hid : s'.id = s.id := congrArg Prod.fst htag
  refine h.replace htag ?_ ?_ hlines hcmds
  · intro i session hi
    obtain hdone | hqueue | ⟨t, ht, htid, htses⟩ := (h.tail hm).custody i session hi
    · exact .inl hdone
    · exact .inr (.inl hqueue)
    · rcases List.mem_cons.mp ht with rfl | ht
      · exact .inr (.inr ⟨s', List.mem_cons_self, hid.trans htid, hsession.trans htses⟩)
      · exact .inr (.inr ⟨t, List.mem_cons_of_mem s' ht, htid, htses⟩)
  · intro i hi
    exact h.held s List.mem_cons_self i (hsession.symm.trans hi)

/-- A session with the address of a stacked stream is for its file. -/
theorem Named.file_of_owner (hn : Named streams running queue sessions fresh) {i : SessionId} (hs : s ∈ streams)
    (hi : sessions[i]?.map Session.owner = some s.id) : fileOf sessions i = some s.file := by
  obtain ⟨session, hsession, howner⟩ := Option.map_eq_some_iff.mp hi
  have hmem : session.tag ∈ (↑(streams.map StreamScreen.tag) + bearers running queue sessions : Multiset Tag) := by
    have : session.tag ∈ sessions.map Session.tag := List.mem_map_of_mem (List.mem_of_getElem? hsession)
    simp [bearers, this]
  have htag : session.tag = s.tag := hn.agree _ hmem _ (mem_tags hs) howner
  have hfile : session.file = s.file := congrArg Prod.snd htag
  simp [fileOf, hsession, hfile]

/-- A screen has at most one session. -/
theorem Named.session_unique (hn : Named streams running queue sessions fresh) {i j : SessionId} {owner : Nat}
    (hi : sessions[i]?.map Session.owner = some owner) (hj : sessions[j]?.map Session.owner = some owner) : i = j := by
  have hnodup : (sessions.map Session.owner).Nodup := by
    have hle : (↑(sessions.map Session.tag) : Multiset Tag) ≤ bearers running queue sessions := Multiset.le_add_left _ _
    have hfst := Multiset.nodup_of_le (Multiset.map_le_map hle) hn.once
    rw [Multiset.map_coe, Multiset.coe_nodup, List.map_map] at hfst
    exact hfst
  rw [← List.getElem?_map] at hi hj
  obtain ⟨hlt, -⟩ := List.getElem?_eq_some_iff.mp hi
  exact (List.getElem?_inj hlt hnodup).mp (hi.trans hj.symm)

/-- **The session arrives** at the screen whose `Init` opened it. -/
theorem Kept.attach {i : SessionId} (h : Kept (s :: streams) running (.streamAttached i :: queue) sessions)
    (hn : Named (s :: streams) running queue sessions fresh)
    (howner : sessions[i]?.map Session.owner = some s.id) (htag : s'.tag = s.tag) (hsession : s'.session = some i)
    (hlines : ∀ ev src, .write ev src ∈ s'.lines → fileOf sessions src = some s.file) :
    Kept (s' :: streams) (running ++ [.readNext (some i)]) queue sessions := by
  have hid : s'.id = s.id := congrArg Prod.fst htag
  have hfile : fileOf sessions i = some s.file := hn.file_of_owner List.mem_cons_self howner
  refine h.replace htag ?_ ?_ hlines ?_
  · intro j session hj
    obtain hdone | hqueue | ⟨t, ht, htid, htses⟩ := h.custody j session hj
    · exact .inl hdone
    · rcases List.mem_cons.mp hqueue with hhead | hqueue
      · cases hhead
        rw [hj, Option.map_some, Option.some.injEq] at howner
        exact .inr (.inr ⟨s', List.mem_cons_self, hid.trans howner.symm, hsession⟩)
      · exact .inr (.inl hqueue)
    · rcases List.mem_cons.mp ht with rfl | ht
      · -- what the screen held before is this very session
        have hji : j = i := hn.session_unique (h.held t List.mem_cons_self j htses) howner
        exact .inr (.inr ⟨s', List.mem_cons_self, hid.trans htid, hji ▸ hsession⟩)
      · exact .inr (.inr ⟨t, List.mem_cons_of_mem s' ht, htid, htses⟩)
  · intro j hj
    obtain rfl : i = j := Option.some.inj (hsession.symm.trans hj)
    exact howner
  · simpa [Cmd.readsFrom] using hfile

theorem StreamScreen.session_update (s : StreamScreen) (hm : ∀ i, m ≠ .streamAttached i) :
    (s.update m).1.session = s.session := by
  unfold StreamScreen.update
  split
  case h_1 i => exact absurd rfl (hm i)
  all_goals rfl

/-- A write that is shown was shown before, or its event has just arrived. -/
theorem StreamScreen.write_mem_update (s : StreamScreen) {ev : WriteEvent} {src : SessionId}
    (h : .write ev src ∈ (s.update m).1.lines) : .write ev src ∈ s.lines ∨ m = .streamEvent (some ev) src := by
  unfold StreamScreen.update at h
  split at h <;> simp [StreamScreen.append] at h <;> grind

/-- The top screen handles a message; a session only where it is the one that asked for it. -/
theorem Kept.forward {a : App W} (h : Kept a.streams running (m :: queue) sessions)
    (hn : Named a.streams running queue sessions fresh)
    (hattach : ∀ i, m = .streamAttached i →
      ∃ s, a.top.stream? = some s ∧ sessions[i]?.map Session.owner = some s.id) :
    Kept (a.forward fresh m).app.streams (running ++ (a.forward fresh m).cmds) queue
      (closeSession (a.forward fresh m).closes sessions) := by
  apply Kept.closed
  cases hs : a.top.stream? with
  | none =>
      obtain ⟨hstream, -, hcmds⟩ := Screen.update_of_not_stream hs fresh m
      have hstreams : (a.forward fresh m).app.streams = a.streams := by
        rw [App.streams_eq, App.streams_eq, App.forward_top, App.forward_below, hs, hstream]
      rw [hstreams, App.forward_cmds]
      have htail : Kept a.streams running queue sessions := by
        apply h.tail
        intro i hm
        obtain ⟨s, htop, -⟩ := hattach i hm
        rw [hs] at htop
        cases htop
      apply htail.started
      intro c hc file
      obtain ⟨e, hcmds⟩ | hcmds := hcmds
      · rw [hcmds, List.mem_singleton] at hc
        rw [hc]
        rfl
      · obtain ⟨-, -, hread⟩ := hcmds c hc
        cases c <;> first | rfl | exact absurd rfl (hread _)
  | some s =>
      obtain htop : a.top = .stream s := by
        cases htop : a.top <;> simp_all [Screen.stream?]
      have hold : a.streams = s :: a.below.filterMap Screen.stream? := by
        rw [App.streams_eq, hs]
        rfl
      have hnew : (a.forward fresh m).app.streams = (s.update m).1 :: a.below.filterMap Screen.stream? := by
        rw [App.streams_eq, App.forward_top, App.forward_below, htop]
        rfl
      have hcmds : (a.forward fresh m).cmds = (s.update m).2.1 := by
        rw [App.forward_cmds, htop]
        rfl
      rw [hold] at h hn
      rw [hnew, hcmds]
      -- a line shown before, or the event just read
      have hlines : ∀ ev src, .write ev src ∈ (s.update m).1.lines → fileOf sessions src = some s.file := by
        intro ev src hline
        rcases s.write_mem_update hline with hline | rfl
        · exact h.lines s List.mem_cons_self ev src hline
        · simpa [Msg.readFrom] using (h.reading s List.mem_cons_self).2 _ List.mem_cons_self
      by_cases hm : ∃ i, m = .streamAttached i
      · obtain ⟨i, rfl⟩ := hm
        obtain ⟨s', hs', howner⟩ := hattach i rfl
        obtain rfl : s = s' := by simpa [hs] using hs'
        exact h.attach hn howner (s.tag_update _) rfl hlines
      · have hno : ∀ i, m ≠ .streamAttached i := fun i hi => hm ⟨i, hi⟩
        apply h.update hno (s.tag_update m) (s.session_update hno) hlines
        -- it reads on from its own session
        intro c hc
        obtain ⟨-, rfl⟩ | ⟨i, hi, -⟩ | ⟨_, _, -, rfl⟩ := s.mem_cmds hc
        · rfl
        · exact absurd hi (hno i)
        · cases hsession : s.session with
          | none => rfl
          | some i =>
              have howner := h.held s List.mem_cons_self i hsession
              simpa [Cmd.readsFrom] using hn.file_of_owner List.mem_cons_self howner

end

/-! ## Runs -/

section

variable {p p' : Program W} {act : Act W} {queue : List (Msg W)}

theorem attended_attach {i : SessionId} (h : attended p .deliver) (hq : p.queue = .streamAttached i :: queue) :
    ∃ s, p.app.top.stream? = some s ∧ p.sessions[i]?.map Session.owner = some s.id := by
  simp only [attended, hq] at h
  obtain ⟨s, hs, howner⟩ := (Option.any_eq_true _ _).mp h
  exact ⟨s, hs, of_decide_eq_true howner⟩

theorem attended_pop {v : Option Result} {sender : Option Sender} (h : attended p .deliver)
    (hq : p.queue = .pop v sender :: queue) {s : StreamScreen} {i : SessionId} {session : Session}
    (hs : p.app.top.stream? = some s) (hi : s.session = some i) (hsession : p.sessions[i]? = some session) :
    session.closed := by
  simpa [attended, hq, hs, hi, hsession] using h

theorem attended_push {s : StreamScreen} (h : attended p .deliver) (hq : p.queue = .push (.stream s) :: queue) :
    (∀ t ∈ p.app.streams, t.file = s.file) ∧
    InFlight (fun c => c.readsFrom p.sessions s.file) (fun m => m.readFrom p.sessions s.file) p.running queue := by
  simp only [attended, hq, Bool.and_eq_true, List.all_eq_true, decide_eq_true_eq] at h
  obtain ⟨⟨hsame, hrunning⟩, hqueue⟩ := h
  exact ⟨hsame, InFlight.tail ⟨hrunning, hqueue⟩⟩

/-- A screen arrives. -/
theorem Kept.arrived {s : Screen W} (h : Kept p.app.streams p.running (.push s :: queue) p.sessions)
    (hnewborn : s.newborn) (hguard : attended p .deliver) (hq : p.queue = .push s :: queue) (width height : Int) :
    Kept (s.stream?.toList ++ p.app.streams) (p.running ++ (s.resize width height).init.2) queue p.sessions := by
  have htail := h.tail (by simp)
  have hinit : ∀ c ∈ (s.resize width height).init.2, ∀ file, c.readsFrom p.sessions file := by
    intro c hc file
    obtain ⟨t, -, ht⟩ | ⟨t, -, rfl⟩ | ⟨job, rfl⟩ := Screen.mem_cmds_init hc
    · simp only [TableScreen.init, List.mem_cons, List.not_mem_nil, or_false] at ht
      rcases ht with rfl | rfl <;> rfl
    · rfl
    · rfl
  cases s with
  | stream t =>
      obtain ⟨hsession, hlines⟩ : t.session = none ∧ t.lines = [] := by
        simpa [Screen.newborn, Screen.stream?] using hnewborn
      obtain ⟨hsame, hreading⟩ := attended_push hguard hq
      exact (htail.push hsession hlines hsame hreading).started hinit
  | _ => exact htail.started hinit

/-- **Step.** -/
theorem Kept.step (h : Kept p.app.streams p.running p.queue p.sessions)
    (hn : Named p.app.streams p.running p.queue p.sessions p.fresh)
    (hstep : Guarded (fun p act => attended p act) Program.Step p act p') :
    Kept p'.app.streams p'.running p'.queue p'.sessions := by
  obtain ⟨hguard, hstep⟩ := hstep
  obtain ⟨m, hm, rfl⟩ | ⟨i, c, o, m, session, -, hc, hfin, rfl⟩ | ⟨queue, -, hq, rfl⟩ | ⟨m, queue, rfl, -, hq, rfl⟩ :=
    Program.step_cases hstep
  · apply h.queued
    intro file
    obtain ⟨k, -, rfl⟩ | ⟨_, _, -, rfl⟩ := hm <;> rfl
  · -- a command finishes
    exact h.finished hc hfin
  · rw [hq] at h
    -- the program ends, and closes what is stacked
    exact App.closeAllSessions_induction (P := fun sessions => Kept p.app.streams p.running queue sessions) p.app
      (fun session _ hs => hs.closed session) (h.tail (by simp))
  · rw [hq] at h hn
    unfold Program.handle
    obtain ⟨_, _, rfl, heq⟩ | ⟨rfl, heq⟩ | ⟨s, rfl, heq⟩ | ⟨_, rfl, heq⟩ | ⟨v, _, rfl, heq⟩ | ⟨-, heq⟩ :=
      App.update_cases p.fresh m p.app <;> simp only [heq]
    · rw [App.streams_resize, List.append_nil]
      exact h.tail (by simp)
    · apply (h.tail (by simp)).started
      intro c hc file
      rw [List.mem_singleton.mp hc]
      rfl
    · have harrived := h.arrived (hn.newborn.2 _ List.mem_cons_self) hguard hq p.app.width p.app.height
      rw [App.streams_eq]
      simpa [App.streams, App.stack, closeSession] using harrived
    · rw [List.append_nil]
      exact (h.tail (by simp)).drop fun s i session => attended_pop hguard hq
    · -- the result goes to the screen below
      have hdrop := (h.tail (by simp)).drop fun s i session => attended_pop hguard hq
      apply (hdrop.cons (m := .result v) fun _ => rfl).forward hn.tail.drop
      simp
    · apply h.forward hn.tail
      -- a session is handed over only to a screen that has none
      rintro i rfl
      exact attended_attach hguard hq

theorem Kept.owned (h : Kept p.app.streams p.running p.queue p.sessions) : Owned p := by
  constructor
  · intro i session hi
    obtain hclosed | hqueue | ⟨s, hs, hheld⟩ := h.custody i session hi
    · exact .inl hclosed
    · exact .inr (.inl hqueue)
    · exact .inr (.inr ⟨s, App.mem_streams.mp hs, hheld⟩)
  · intro s hs ev src hline
    obtain ⟨session, hsession, hfile⟩ := Option.map_eq_some_iff.mp (h.lines s (App.mem_streams.mpr hs) ev src hline)
    exact ⟨session, hsession, congrArg Prod.fst hfile, congrArg Prod.snd hfile⟩

end

/-- **Every session is closed, under way or held by its own screen, and every write is shown under its own
    file**, in any run whose steps are attended. -/
theorem sessions_owned (W : Widgets) (minSize onlyPid uidFilter interval : Int) (acts : List (Act W)) (p : Program W)
    (hrun : Run (Guarded (fun p act => attended p act) Program.Step)
      (Program.start W minSize onlyPid uidFilter interval) acts p) : Owned p := by
  have hboth : Named p.app.streams p.running p.queue p.sessions p.fresh ∧
      Kept p.app.streams p.running p.queue p.sessions := by
    apply hrun.invariant (I := fun p => Named p.app.streams p.running p.queue p.sessions p.fresh ∧
      Kept p.app.streams p.running p.queue p.sessions)
    · exact ⟨.start minSize onlyPid uidFilter interval, .start minSize onlyPid uidFilter interval⟩
    · rintro _ _ _ ⟨hn, hk⟩ hstep
      exact ⟨hn.step hstep.2, hk.step hn hstep⟩
  exact hboth.2.owned

/-- A stream opened, attached and read from once. -/
def streamRun : List (Act simpleWidgets) :=
  (openFirst [HiddenEntry.zero]).append
    [ .press (.rune 's'), .deliver, .finish 1 .done, .deliver, .finish 1 (.opened (.ok ())), .deliver,
      .finish 1 (.read (.ok (some WriteEvent.zero))), .deliver ]

theorem sessions_owned_stream :
    ∃ p, Run (Guarded (fun p act => attended p act) Program.Step) (Program.start simpleWidgets 0 0 (-1) 5) streamRun p ∧
      (p.sessions.length = 1 ∧ p.app.streams.any fun s => s.session = some 0 && s.lines.length = 4) ∧ Owned p := by
  have hexec : (streamRun.foldlM (fun p act => if attended p act then p.next act else none)
      (Program.start simpleWidgets 0 0 (-1) 5)).any (fun p =>
        p.sessions.length = 1 ∧ p.app.streams.any fun s => s.session = some 0 && s.lines.length = 4) := by decide +kernel
  obtain ⟨p, hp, hstream⟩ := (Option.any_eq_true _ _).mp hexec
  have hrun := Run.of_exec_guarded hp
  exact ⟨p, hrun, of_decide_eq_true hstream, sessions_owned _ _ _ _ _ streamRun p hrun⟩

/-- Esc before the session has arrived. -/
def lostRun : List (Act simpleWidgets) :=
  (openFirst [HiddenEntry.zero]).append
    [ .press (.rune 's'), .deliver, .finish 1 .done, .deliver, .press .esc, .deliver, .finish 2 .done, .deliver,
      .finish 1 (.opened (.ok ())), .deliver ]

/-- **Where a session is lost**: Esc leaves the `StreamScreen` while `OpenStream` is still at it, and the session
    reaches the `DetailScreen`, which drops it. -/
theorem session_lost :
    ∃ p, Run Program.Step (Program.start simpleWidgets 0 0 (-1) 5) lostRun p ∧ ¬ Owned p := by
  have hexec : (lostRun.foldlM Program.next (Program.start simpleWidgets 0 0 (-1) 5)).any (fun p =>
      p.sessions.map Session.closed = [false] ∧ p.queue.isEmpty ∧ p.app.streams.isEmpty) := by decide +kernel
  obtain ⟨p, hp, hlost⟩ := (Option.any_eq_true _ _).mp hexec
  obtain ⟨hopen, hqueue, hstreams⟩ := of_decide_eq_true hlost
  refine ⟨p, Run.of_exec (fun _ _ _ _ h => h) hp, ?_⟩
  intro howned
  obtain ⟨session, hsession, hclosed⟩ := List.map_eq_singleton_iff.mp hopen
  obtain hdone | hattached | ⟨s, hs, -⟩ := howned.sessions 0 session (by rw [hsession]; rfl)
  · rw [hclosed] at hdone
    cases hdone
  · rw [List.isEmpty_iff.mp hqueue] at hattached
    cases hattached
  · have hmem := App.mem_streams.mpr hs
    rw [List.isEmpty_iff.mp hstreams] at hmem
    cases hmem

end Tui
end Hsed
