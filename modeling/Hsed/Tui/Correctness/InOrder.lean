import Hsed.Tui.Correctness.Sessions

/-!
# `Tui.Correctness.InOrder` — from `Next` to the lines of a stream

A `StreamScreen` has one errand at a time: its session is being opened, or attached, or read from, or the answer is
in the queue. Each answer sends it on the next one, so that `Next` is never called twice at once and its answers
cannot overtake each other; but the messages do not say whose they are, so all this holds while there is one stream
at a time (`alone`). Then what was read is what is shown and what is under way, in this order: `stream_in_order`.
-/

namespace Hsed
namespace Tui

open CLib Lts
open Client (HiddenEntry WriteEvent)

variable {W : Widgets}

/-- What `Next` returns. -/
abbrev ReadResult := Except Bytes (Option WriteEvent)

/-- It is an event: there may be more to read. -/
def ReadResult.goesOn : ReadResult → Bool
  | .ok (some _) => true
  | _ => false

/-! ## Errands -/

inductive Errand where
  | opening (file : Int × Int)
  | attached (i : SessionId)
  | refused
  | reading (session : Option SessionId)
  /-- An error does not say where it comes from. -/
  | read (src : Option SessionId) (r : ReadResult)

def Cmd.errand : Cmd W → Option Errand
  | .openStream _ e => some (.opening (e.pid, e.fd))
  | .readNext session => some (.reading session)
  | _ => none

def Msg.errand : Msg W → Option Errand
  | .streamAttached i => some (.attached i)
  | .streamAttachErr _ => some .refused
  | .streamEvent ev src => some (.read (some src) (.ok ev))
  | .streamErr err => some (.read none (.error err))
  | _ => none

/-- All that is under way for streams. -/
def errands (running : List (Cmd W)) (queue : List (Msg W)) : List Errand :=
  running.filterMap Cmd.errand ++ queue.filterMap Msg.errand

/-- A result of `Next` that has not been delivered yet. -/
def Errand.result : Errand → Option ReadResult
  | .read _ r => some r
  | _ => none

/-- **The condition on a step.** A screen arrives only while no `StreamScreen` is stacked, and a `StreamScreen` only
    while nothing of an earlier one is under way. -/
def alone (p : Program W) : Act W → Bool
  | .deliver =>
    match p.queue with
    | .push s :: _ => p.app.streams.isEmpty && (s.stream?.isNone || (errands p.running p.queue).isEmpty)
    | _ => true
  | _ => true

/-! ## The record -/

/-- The result of `Next` that a step brings, with its session. -/
def Act.reads (p : Program W) : Act W → List (SessionId × ReadResult)
  | .finish k o =>
    match p.running[k]?, o with
    | some (.readNext (some i)), .read r => [(i, r)]
    | _, _ => []
  | _ => []

/-- All results of `Next` on session `i`. -/
def readsOf (i : SessionId) (reads : List (SessionId × ReadResult)) : List ReadResult :=
  reads.filterMap fun x => if x.1 = i then some x.2 else none

theorem readsOf_append (i : SessionId) (reads more : List (SessionId × ReadResult)) :
    readsOf i (reads ++ more) = readsOf i reads ++ readsOf i more := List.filterMap_append

theorem readsOf_same (i : SessionId) (r : ReadResult) : readsOf i [(i, r)] = [r] := by
  simp [readsOf]

/-- A session that is still to come has not been read from. -/
theorem readsOf_fresh {i : SessionId} {reads : List (SessionId × ReadResult)} (h : ∀ x ∈ reads, x.1 < i) :
    readsOf i reads = [] := by
  rw [readsOf, List.filterMap_eq_nil_iff]
  intro x hx
  exact if_neg (Nat.ne_of_lt (h x hx))

/-! ## What a screen shows -/

def StreamScreen.header (s : StreamScreen) : List StreamLine := [.attached s.entry.pid, .watching s.entry.fd, .blank]

/-- The line for a result of `Next` on session `i`. -/
def resultLine (i : SessionId) : ReadResult → StreamLine
  | .ok (some ev) => .write ev i
  | .ok none => .ended
  | .error err => .failed err

section

variable (sessions : List Session) (reads : List (SessionId × ReadResult))

/-- The errand is one of this screen. -/
def Errand.Serves (s : StreamScreen) (e : Errand) : Prop :=
  match s.session, e with
  | none, .opening file => file = s.file
  | none, .attached i => fileOf sessions i = some s.file ∧ readsOf i reads = []
  | none, .refused => True
  | some i, .reading session => session = some i
  | some i, .read src _ => src = none ∨ src = some i
  | _, _ => False

/-- Without a session nothing is shown; with one, what was read from it is what is shown and what is under way, and
    nothing follows an end or an error. -/
def StreamScreen.Shows (s : StreamScreen) (es : List Errand) : Prop :=
  match s.session with
  | none => s.lines = []
  | some i => fileOf sessions i = some s.file ∧
      ∃ shown, s.lines = s.header ++ shown.map (resultLine i) ∧ readsOf i reads = shown ++ es.filterMap Errand.result ∧
        (∀ r ∈ shown.dropLast, r.goesOn) ∧ (es ≠ [] → ∀ r ∈ shown, r.goesOn)

/-- A session that is attached or read from has a row in the table. -/
def Errand.Known : Errand → Prop
  | .attached i => i < sessions.length
  | .reading (some i) => i < sessions.length
  | _ => True

/-- **The invariant.** -/
structure InOrder (a : App W) (es : List Errand) : Prop where
  below : ∀ s ∈ a.below, s.stream? = none
  single : es.length ≤ 1
  known : ∀ e ∈ es, e.Known sessions
  old : ∀ x ∈ reads, x.1 < sessions.length
  serves : ∀ s, a.top.stream? = some s → ∀ e ∈ es, e.Serves sessions reads s
  shows : ∀ s, a.top.stream? = some s → s.Shows sessions reads es

end

section

variable {a : App W} {es : List Errand} {sessions sessions' : List Session} {reads : List (SessionId × ReadResult)}
  {running cmds : List (Cmd W)} {queue : List (Msg W)} {m : Msg W} {e : Errand}

/-! ## Errands come and go -/

theorem errands_queued (hm : m.errand = none) : errands running (queue ++ [m]) = errands running queue := by
  rw [errands, List.filterMap_append, List.filterMap_cons_none hm, List.filterMap_nil, List.append_nil]
  rfl

theorem errands_tail (hm : m.errand = none) : errands running (m :: queue) = errands running queue := by
  rw [errands, List.filterMap_cons_none hm]
  rfl

theorem errands_started (h : ∀ c ∈ cmds, c.errand = none) : errands (running ++ cmds) queue = errands running queue := by
  rw [errands, List.filterMap_append, List.filterMap_eq_nil_iff.mpr h, List.append_nil]
  rfl

/-- The one errand is the head of the queue: then there is no other. -/
theorem errands_head (h : (errands running (m :: queue)).length ≤ 1) (hm : m.errand = some e) :
    errands running (m :: queue) = [e] ∧ running.filterMap Cmd.errand = [] ∧ queue.filterMap Msg.errand = [] := by
  rw [errands, List.filterMap_cons_some hm] at h ⊢
  rw [List.length_append, List.length_cons] at h
  have hrunning : running.filterMap Cmd.errand = [] := List.length_eq_zero_iff.mp (by omega)
  have hqueue : queue.filterMap Msg.errand = [] := List.length_eq_zero_iff.mp (by omega)
  rw [hrunning, hqueue]
  exact ⟨rfl, rfl, rfl⟩

/-- What remains when the head of the queue is delivered. -/
theorem errands_sublist : (errands running queue).Sublist (errands running (m :: queue)) := by
  apply List.Sublist.append_left
  exact (List.sublist_cons_self m queue).filterMap _

theorem errands_perm {k : Nat} {c : Cmd W} (hc : running[k]? = some c) :
    (errands running queue).Perm (c.errand.toList ++ errands (running.eraseIdx k) queue) := by
  obtain ⟨hk, rfl⟩ := List.getElem?_eq_some_iff.mp hc
  have hperm := ((List.getElem_cons_eraseIdx_perm hk).filterMap Cmd.errand).symm.append_right (queue.filterMap Msg.errand)
  refine hperm.trans ?_
  rw [List.filterMap_cons]
  cases (running[k]).errand <;> exact .refl _

/-- A command that is no errand finishes. -/
theorem errands_erased {k : Nat} {c : Cmd W} (hc : running[k]? = some c) (hnone : c.errand = none)
    (h : (errands running queue).length ≤ 1) : errands (running.eraseIdx k) queue = errands running queue := by
  have hperm := @errands_perm _ running queue k c hc
  rw [hnone, Option.toList_none, List.nil_append] at hperm
  cases hes : errands running queue with
  | nil =>
      rw [hes] at hperm
      exact hperm.nil_eq.symm
  | cons e es =>
      rw [hes, List.length_cons] at h
      obtain rfl := List.length_eq_zero_iff.mp (Nat.le_zero.mp (Nat.le_of_succ_le_succ h))
      rw [hes] at hperm
      exact (List.singleton_perm.mp hperm).symm

/-- The one errand finishes. -/
theorem errands_finished {k : Nat} {c : Cmd W} (hc : running[k]? = some c) (hsome : c.errand = some e)
    (h : (errands running queue).length ≤ 1) :
    errands running queue = [e] ∧ errands (running.eraseIdx k) queue = [] := by
  have hperm := @errands_perm _ running queue k c hc
  rw [hsome, Option.toList_some, List.singleton_append] at hperm
  have hlen := hperm.length_eq
  rw [List.length_cons] at hlen
  have hrest : errands (running.eraseIdx k) queue = [] := List.length_eq_zero_iff.mp (by omega)
  rw [hrest] at hperm
  exact ⟨List.perm_singleton.mp hperm, hrest⟩

theorem errands_answered (hm : m.errand = some e) (h : errands running queue = []) :
    errands running (queue ++ [m]) = [e] := by
  rw [errands, List.append_eq_nil_iff] at h
  rw [errands, List.filterMap_append, h.1, h.2, List.filterMap_cons_some hm]
  rfl

/-- **What a finished command does to the errands.** -/
theorem Cmd.errand_finish {c : Cmd W} {n : SessionId} {o : Outcome W} {session : Option Session}
    (h : c.finish n o = some (m, session)) :
    (c.errand = none ∧ m.errand = none ∧ session = none) ∨
    (∃ id x, c = .openStream id x ∧ m.errand = some (.attached n) ∧ session = some ⟨id, x.pid, x.fd, false⟩) ∨
    (∃ id x, c = .openStream id x ∧ m.errand = some .refused ∧ session = none) ∨
    ∃ i r src, c = .readNext (some i) ∧ o = .read r ∧ m.errand = some (.read src r) ∧ (src = none ∨ src = some i) ∧
      session = none := by
  unfold Cmd.finish at h
  split at h
  case h_16 => cases h
  case h_11 id x err =>
    cases h
    exact .inr (.inr (.inl ⟨id, x, rfl, rfl, rfl⟩))
  case h_12 id x u =>
    cases h
    exact .inr (.inl ⟨id, x, rfl, rfl, rfl⟩)
  case h_13 i err =>
    cases h
    exact .inr (.inr (.inr ⟨i, .error err, none, rfl, rfl, rfl, .inl rfl, rfl⟩))
  case h_14 i ev =>
    cases h
    exact .inr (.inr (.inr ⟨i, .ok ev, some i, rfl, rfl, rfl, .inr rfl, rfl⟩))
  all_goals
    cases h
    exact .inl ⟨rfl, rfl, rfl⟩

/-! ## The table of sessions grows -/

theorem Extends.lt (h : Extends sessions sessions') {i : SessionId} (hi : i < sessions.length) : i < sessions'.length := by
  obtain ⟨s', hs', -⟩ := h i _ (List.getElem?_eq_getElem hi)
  exact (List.getElem?_eq_some_iff.mp hs').1

theorem Errand.Serves.extended (h : Extends sessions sessions') {s : StreamScreen} (he : e.Serves sessions reads s) :
    e.Serves sessions' reads s := by
  unfold Errand.Serves at he ⊢
  split at he
  case h_2 => exact ⟨h.fileOf he.1, he.2⟩
  all_goals exact he

theorem InOrder.extended (h : InOrder sessions reads a es) (hext : Extends sessions sessions') :
    InOrder sessions' reads a es where
  below := h.below
  single := h.single
  known := by
    intro e he
    have hknown := h.known e he
    unfold Errand.Known at hknown ⊢
    split at hknown
    · exact hext.lt hknown
    · exact hext.lt hknown
    · exact trivial
  old x hx := hext.lt (h.old x hx)
  serves s hs e he := (h.serves s hs e he).extended hext
  shows := by
    intro s hs
    have hshows := h.shows s hs
    unfold StreamScreen.Shows at hshows ⊢
    split at hshows
    · exact hshows
    · exact ⟨hext.fileOf hshows.1, hshows.2⟩

/-- One errand gives way to another. -/
theorem StreamScreen.Shows.next {s : StreamScreen} {es' : List Errand} (h : s.Shows sessions reads es) (hes : es ≠ [])
    (hresult : es'.filterMap Errand.result = es.filterMap Errand.result) : s.Shows sessions reads es' := by
  unfold StreamScreen.Shows at h ⊢
  cases hsession : s.session with
  | none => rw [hsession] at h; exact h
  | some i =>
      rw [hsession] at h
      obtain ⟨hfile, shown, hlines, hreads, hlast, hall⟩ := h
      exact ⟨hfile, shown, hlines, hresult ▸ hreads, hlast, fun _ => hall hes⟩

/-! ## Commands finish -/

/-- A session is opened, for the screen that asked. -/
theorem InOrder.opened {file : Int × Int} (h : InOrder sessions reads a [.opening file]) (x : Session)
    (hx : x.file = file) : InOrder (sessions ++ [x]) reads a [.attached sessions.length] where
  below := h.below
  single := Nat.le_refl 1
  known := List.forall_mem_singleton.mpr (by show sessions.length < _; simp)
  old := (h.extended (extends_append sessions [x])).old
  serves := by
    intro s hs
    have hserves := h.serves s hs _ (List.mem_singleton.mpr rfl)
    rw [List.forall_mem_singleton]
    unfold Errand.Serves at hserves ⊢
    cases hsession : s.session with
    | some i => rw [hsession] at hserves; exact hserves
    | none =>
        rw [hsession] at hserves
        refine ⟨?_, readsOf_fresh h.old⟩
        rw [fileOf, List.getElem?_concat_length, Option.map_some, hx, hserves]
  shows := by
    intro s hs
    exact ((h.extended (extends_append sessions [x])).shows s hs).next (List.cons_ne_nil _ _) rfl

/-- `OpenStream` fails. -/
theorem InOrder.refused {file : Int × Int} (h : InOrder sessions reads a [.opening file]) :
    InOrder sessions reads a [.refused] where
  below := h.below
  single := Nat.le_refl 1
  known := List.forall_mem_singleton.mpr trivial
  old := h.old
  serves := by
    intro s hs
    have hserves := h.serves s hs _ (List.mem_singleton.mpr rfl)
    rw [List.forall_mem_singleton]
    unfold Errand.Serves at hserves ⊢
    cases hsession : s.session with
    | some i => rw [hsession] at hserves; exact hserves
    | none => exact trivial
  shows s hs := (h.shows s hs).next (List.cons_ne_nil _ _) rfl

/-- `Next` returns. -/
theorem InOrder.returned {i : SessionId} (h : InOrder sessions reads a [.reading (some i)]) {src : Option SessionId}
    (hsrc : src = none ∨ src = some i) (r : ReadResult) : InOrder sessions (reads ++ [(i, r)]) a [.read src r] where
  below := h.below
  single := Nat.le_refl 1
  known := List.forall_mem_singleton.mpr trivial
  old := by
    rw [List.forall_mem_append, List.forall_mem_singleton]
    exact ⟨h.old, h.known _ (List.mem_singleton.mpr rfl)⟩
  serves := by
    intro s hs
    have hserves := h.serves s hs _ (List.mem_singleton.mpr rfl)
    rw [List.forall_mem_singleton]
    unfold Errand.Serves at hserves ⊢
    cases hsession : s.session with
    | none => rw [hsession] at hserves; exact hserves
    | some j =>
        rw [hsession] at hserves
        obtain rfl := Option.some.inj hserves
        exact hsrc
  shows := by
    intro s hs
    have hserves := h.serves s hs _ (List.mem_singleton.mpr rfl)
    have hshows := h.shows s hs
    unfold Errand.Serves at hserves
    unfold StreamScreen.Shows at hshows ⊢
    cases hsession : s.session with
    | none => rw [hsession] at hserves; exact hserves.elim
    | some j =>
        rw [hsession] at hserves hshows
        obtain rfl := Option.some.inj hserves
        obtain ⟨hfile, shown, hlines, hreads, hlast, hall⟩ := hshows
        refine ⟨hfile, shown, hlines, ?_, hlast, fun _ => hall (List.cons_ne_nil _ _)⟩
        -- the result goes from the connection into the queue
        rw [readsOf_append, readsOf_same, hreads, List.append_assoc]
        rfl

/-! ## Messages are delivered -/

/-- A stack without streams follows what it likes. -/
theorem InOrder.without_stream {a' : App W} {es' : List Errand} (h : InOrder sessions reads a es)
    (hbelow : ∀ s ∈ a'.below, s.stream? = none) (htop : a'.top.stream? = none) (hes : es'.Sublist es) :
    InOrder sessions reads a' es' where
  below := hbelow
  single := Nat.le_trans hes.length_le h.single
  known e he := h.known e (hes.subset he)
  old := h.old
  serves := by
    intro s hs
    rw [htop] at hs
    cases hs
  shows := by
    intro s hs
    rw [htop] at hs
    cases hs

theorem InOrder.drop (h : InOrder sessions reads a es) : InOrder sessions reads a.drop es := by
  unfold App.drop
  split
  · exact h
  next s below hbelow =>
    have hnone := h.below
    rw [hbelow, List.forall_mem_cons] at hnone
    exact h.without_stream hnone.2 hnone.1 (.refl _)

/-- The stream on top has changed, and its errand with it. -/
theorem InOrder.replace {s : StreamScreen} {es' : List Errand} (h : InOrder sessions reads a es) (hsingle : es'.length ≤ 1)
    (hknown : ∀ e ∈ es', e.Known sessions) (hserves : ∀ e ∈ es', e.Serves sessions reads s)
    (hshows : s.Shows sessions reads es') : InOrder sessions reads { a with top := .stream s } es' := by
  refine ⟨h.below, hsingle, hknown, h.old, ?_, ?_⟩
  · rintro t ht
    obtain rfl := Option.some.inj ht
    exact hserves
  · rintro t ht
    obtain rfl := Option.some.inj ht
    exact hshows

theorem InOrder.attach {s : StreamScreen} {i : SessionId} (h : InOrder sessions reads a [.attached i])
    (htop : a.top.stream? = some s) :
    InOrder sessions reads { a with top := .stream (StreamScreen.append { s with session := some i } s.header) }
      [.reading (some i)] := by
  have hserves := h.serves s htop _ (List.mem_singleton.mpr rfl)
  have hshows := h.shows s htop
  unfold Errand.Serves at hserves
  unfold StreamScreen.Shows at hshows
  cases hsession : s.session with
  | some j => rw [hsession] at hserves; exact hserves.elim
  | none =>
      rw [hsession] at hserves hshows
      have hbound : i < sessions.length := h.known (.attached i) (List.mem_singleton.mpr rfl)
      refine h.replace (Nat.le_refl 1) (List.forall_mem_singleton.mpr hbound) ?_ ?_
      · exact List.forall_mem_singleton.mpr rfl
      · refine ⟨hserves.1, [], ?_, hserves.2, List.forall_mem_nil _, fun _ => List.forall_mem_nil _⟩
        show s.lines ++ s.header = s.header ++ []
        rw [hshows, List.nil_append, List.append_nil]

theorem InOrder.refuse {s : StreamScreen} (h : InOrder sessions reads a [.refused]) (htop : a.top.stream? = some s)
    (err : Bytes) : InOrder sessions reads { a with top := .stream { s with attachErr := err } } [] := by
  have hshows : s.Shows sessions reads [] := (h.shows s htop).next (List.cons_ne_nil _ _) rfl
  exact h.replace (Nat.zero_le 1) (List.forall_mem_nil _) (List.forall_mem_nil _) hshows

/-- A result arrives: it is the next one of the screen's own session. -/
theorem InOrder.shown {s : StreamScreen} {src : Option SessionId} {r : ReadResult}
    (h : InOrder sessions reads a [.read src r]) (htop : a.top.stream? = some s) :
    ∃ i, s.session = some i ∧ (src = none ∨ src = some i) ∧ ∀ es', es' = [] ∨ es' = [.reading (some i)] ∧ r.goesOn →
      InOrder sessions reads { a with top := .stream (s.append [resultLine i r]) } es' := by
  have hserves := h.serves s htop _ (List.mem_singleton.mpr rfl)
  have hshows := h.shows s htop
  unfold Errand.Serves at hserves
  unfold StreamScreen.Shows at hshows
  cases hsession : s.session with
  | none => rw [hsession] at hserves; exact hserves.elim
  | some i =>
      rw [hsession] at hserves hshows
      obtain ⟨hfile, shown, hlines, hreads, -, hall⟩ := hshows
      -- something is still under way, so all that is shown goes on
      have hbefore := hall (List.cons_ne_nil _ _)
      refine ⟨i, rfl, hserves, ?_⟩
      have hbound : i < sessions.length := by
        obtain ⟨x, hx, -⟩ := Option.map_eq_some_iff.mp hfile
        exact (List.getElem?_eq_some_iff.mp hx).1
      -- the result moves from what is under way to what is shown
      have hshown : ∀ es' : List Errand, es'.filterMap Errand.result = [] → (es' ≠ [] → r.goesOn) →
          (s.append [resultLine i r]).Shows sessions reads es' := by
        intro es' hes' hgo
        unfold StreamScreen.Shows
        rw [show (s.append [resultLine i r]).session = some i from hsession]
        refine ⟨hfile, shown ++ [r], ?_, ?_, ?_, ?_⟩
        · show s.lines ++ [resultLine i r] = s.header ++ _
          rw [hlines, List.map_append, List.append_assoc]
          rfl
        · rw [hes', List.append_nil]
          exact hreads
        · rw [List.dropLast_concat]
          exact hbefore
        · intro hne
          rw [List.forall_mem_append, List.forall_mem_singleton]
          exact ⟨hbefore, hgo hne⟩
      rintro es' (rfl | ⟨rfl, hgo⟩)
      · refine h.replace (Nat.zero_le 1) (List.forall_mem_nil _) (List.forall_mem_nil _) (hshown _ rfl ?_)
        exact fun hne => absurd rfl hne
      · refine h.replace (Nat.le_refl 1) (List.forall_mem_singleton.mpr hbound) ?_ (hshown _ rfl fun _ => hgo)
        rw [List.forall_mem_singleton]
        unfold Errand.Serves
        rw [show (s.append [resultLine i r]).session = some i from hsession]

/-- **The stream on top** handles a message: what has arrived is shown, and the next read is its own. -/
theorem InOrder.handled {s : StreamScreen} (h : InOrder sessions reads a (errands running (m :: queue)))
    (htop : a.top.stream? = some s) :
    InOrder sessions reads { a with top := .stream (s.update m).1 } (errands (running ++ (s.update m).2.1) queue) := by
  -- the message is the one errand, or no errand
  have hhead : ∀ e, m.errand = some e → InOrder sessions reads a [e] ∧
      ∀ cmds : List (Cmd W), errands (running ++ cmds) queue = cmds.filterMap Cmd.errand := by
    intro e hm
    obtain ⟨hone, hrunning, hqueue⟩ := errands_head h.single hm
    refine ⟨hone ▸ h, ?_⟩
    intro cmds
    rw [errands, List.filterMap_append, hrunning, hqueue, List.nil_append, List.append_nil]
  have hquiet : ∀ cmds : List (Cmd W), m.errand = none → (∀ c ∈ cmds, c.errand = none) →
      InOrder sessions reads { a with top := .stream s } (errands (running ++ cmds) queue) := by
    intro cmds hm hcmds
    rw [errands_started hcmds]
    rw [errands_tail hm] at h
    exact h.replace h.single h.known (h.serves s htop) (h.shows s htop)
  unfold StreamScreen.update
  split
  case h_1 i =>
    obtain ⟨hone, hcmds⟩ := hhead _ rfl
    rw [hcmds]
    exact hone.attach htop
  case h_2 err =>
    obtain ⟨hone, hcmds⟩ := hhead _ rfl
    rw [hcmds]
    exact hone.refuse htop err
  case h_3 src =>
    obtain ⟨hone, hcmds⟩ := hhead _ rfl
    obtain ⟨i, -, -, hshown⟩ := hone.shown htop
    rw [hcmds]
    exact hshown [] (.inl rfl)
  case h_4 ev src =>
    obtain ⟨hone, hcmds⟩ := hhead _ rfl
    obtain ⟨i, hsession, hsrc | hsrc, hshown⟩ := hone.shown htop
    · cases hsrc
    · obtain rfl := Option.some.inj hsrc
      rw [hcmds, hsession]
      exact hshown [.reading (some src)] (.inr ⟨rfl, rfl⟩)
  case h_5 err =>
    obtain ⟨hone, hcmds⟩ := hhead _ rfl
    obtain ⟨i, -, -, hshown⟩ := hone.shown htop
    rw [hcmds]
    exact hshown [] (.inl rfl)
  case h_6 => exact hquiet [.pop] rfl (List.forall_mem_singleton.mpr rfl)
  case h_7 hattached hrefused hended hevent herr hesc =>
    apply hquiet [] _ (List.forall_mem_nil _)
    unfold Msg.errand
    split
    · exact absurd rfl (hattached _)
    · exact absurd rfl (hrefused _)
    next ev src =>
      cases ev with
      | none => exact absurd rfl (hended src)
      | some ev => exact absurd rfl (hevent ev src)
    · exact absurd rfl (herr _)
    · rfl

theorem Cmd.errand_none {c : Cmd W} (htags : c.tags = []) (hread : ∀ session, c ≠ .readNext session) :
    c.errand = none := by
  cases c with
  | openStream id e => cases htags
  | readNext session => exact absurd rfl (hread session)
  | _ => rfl

/-- Only a stream starts errands. -/
theorem Screen.errand_update {s : Screen W} (hs : s.stream? = none) (fresh : Nat) (m : Msg W) :
    ∀ c ∈ (s.update fresh m).cmds, c.errand = none := by
  intro c hc
  obtain ⟨-, -, ⟨e, hcmds⟩ | hcmds⟩ := Screen.update_of_not_stream hs fresh m
  · rw [hcmds, List.mem_singleton] at hc
    rw [hc]
    rfl
  · obtain ⟨htags, -, hread⟩ := hcmds c hc
    exact Cmd.errand_none htags hread

theorem Screen.errand_init {s : Screen W} (hs : s.stream? = none) : ∀ c ∈ s.init.2, c.errand = none := by
  intro c hc
  rcases Screen.mem_cmds_init hc with ⟨t, -, hc⟩ | ⟨t, rfl, -⟩ | ⟨job, rfl⟩
  · rcases List.mem_cons.mp hc with rfl | hc
    · rfl
    · rw [List.mem_singleton.mp hc]
      rfl
  · cases hs
  · rfl

/-- The top screen handles a message. -/
theorem InOrder.forward (h : InOrder sessions reads a (errands running (m :: queue))) (fresh : Nat) :
    InOrder sessions reads (a.forward fresh m).app (errands (running ++ (a.forward fresh m).cmds) queue) := by
  cases htop : a.top.stream? with
  | none =>
      obtain ⟨hstream, -, -⟩ := Screen.update_of_not_stream htop fresh m
      rw [App.forward_cmds, errands_started (Screen.errand_update htop fresh m)]
      exact h.without_stream h.below hstream errands_sublist
  | some s =>
      have hscreen : a.top = .stream s := by
        cases hcases : a.top <;> rw [hcases] at htop <;> cases htop
        rfl
      have happ : (a.forward fresh m).app = { a with top := .stream (s.update m).1 } := by
        rw [App.forward, hscreen]
        rfl
      have hcmds : (a.forward fresh m).cmds = (s.update m).2.1 := by
        rw [App.forward_cmds, hscreen]
        rfl
      rw [happ, hcmds]
      exact h.handled htop

/-- A screen arrives where no stream is stacked. -/
theorem InOrder.push {s : Screen W} (h : InOrder sessions reads a (errands running (.push s :: queue)))
    (hstreams : a.streams = []) (hfree : s.stream? = none ∨ errands running (.push s :: queue) = [])
    (hnew : s.newborn) (width height : Int) :
    InOrder sessions reads { a with top := (s.resize width height).init.1, below := a.top :: a.below }
      (errands (running ++ (s.resize width height).init.2) queue) := by
  rw [App.streams_eq, List.append_eq_nil_iff, Option.toList_eq_nil_iff] at hstreams
  have hbelow : ∀ t ∈ a.top :: a.below, t.stream? = none := List.forall_mem_cons.mpr ⟨hstreams.1, h.below⟩
  rw [errands_tail (show (Msg.push s).errand = none from rfl)] at h hfree
  cases hs : s.stream? with
  | none =>
      rw [errands_started (Screen.errand_init (by rw [Screen.stream?_resize, hs]))]
      -- a screen of another kind: no stream is stacked, and none is under way for it
      exact h.without_stream hbelow (by rw [Screen.stream?_init, Screen.stream?_resize, hs]) (.refl _)
  | some t =>
      have hscreen : s = .stream t := by
        cases s <;> cases hs
        rfl
      subst hscreen
      rw [hs] at hfree
      -- the stream comes when nothing is under way, and opens its session
      have hempty := hfree.resolve_left (Option.some_ne_none t)
      rw [errands, List.append_eq_nil_iff] at hempty
      have hes : errands (running ++ ((Screen.stream t).resize width height).init.2) queue = [.opening t.file] := by
        rw [errands, List.filterMap_append, hempty.1, hempty.2]
        rfl
      obtain ⟨hsession, hlines⟩ : t.session = none ∧ t.lines = [] := by
        simpa [Screen.newborn, Screen.stream?] using hnew
      rw [hes]
      refine ⟨hbelow, Nat.le_refl 1, List.forall_mem_singleton.mpr trivial, h.old, ?_, ?_⟩
      · intro t' ht'
        obtain rfl : t = t' := Option.some.inj ht'
        rw [List.forall_mem_singleton]
        unfold Errand.Serves
        rw [hsession]
      · intro t' ht'
        obtain rfl : t = t' := Option.some.inj ht'
        unfold StreamScreen.Shows
        rw [hsession]
        exact hlines

theorem InOrder.resize (h : InOrder sessions reads a es) (width height : Int) :
    InOrder sessions reads ⟨a.top.resize width height, a.below.map (·.resize width height), width, height⟩ es where
  below := by
    intro s hs
    obtain ⟨t, ht, rfl⟩ := List.mem_map.mp hs
    rw [Screen.stream?_resize]
    exact h.below t ht
  single := h.single
  known := h.known
  old := h.old
  serves s hs := h.serves s (by rw [← hs, Screen.stream?_resize])
  shows s hs := h.shows s (by rw [← hs, Screen.stream?_resize])

/-! ## Steps and runs -/

/-- What the condition says of an arrival. -/
theorem alone_push {p : Program W} {s : Screen W} (h : alone p .deliver) (hq : p.queue = .push s :: queue) :
    p.app.streams = [] ∧ (s.stream? = none ∨ errands p.running (.push s :: queue) = []) := by
  simp only [alone, hq, Bool.and_eq_true, Bool.or_eq_true, List.isEmpty_iff, Option.isNone_iff_eq_none] at h
  exact h

theorem Act.reads_read {p : Program W} {k : Nat} {i : SessionId} (hc : p.running[k]? = some (.readNext (some i)))
    (r : ReadResult) : Act.reads p (.finish k (.read r)) = [(i, r)] := by
  simp only [Act.reads, hc]

theorem Act.reads_other {p : Program W} {k : Nat} {c : Cmd W} (hc : p.running[k]? = some c)
    (hother : ∀ i, c ≠ .readNext (some i)) (o : Outcome W) : Act.reads p (.finish k o) = [] := by
  simp only [Act.reads, hc]
  split
  next i r heq => exact absurd (Option.some.inj heq) (hother i)
  · rfl

/-- A command finishes. -/
theorem InOrder.finished {p : Program W} {k : Nat} {c : Cmd W} {o : Outcome W} {session : Option Session}
    (h : InOrder p.sessions reads p.app (errands p.running p.queue)) (hc : p.running[k]? = some c)
    (hfin : c.finish p.sessions.length o = some (m, session)) :
    InOrder (p.sessions ++ session.toList) (reads ++ Act.reads p (.finish k o)) p.app
      (errands (p.running.eraseIdx k) (p.queue ++ [m])) := by
  obtain ⟨hnone, hm, rfl⟩ | ⟨id, x, rfl, hm, rfl⟩ | ⟨id, x, rfl, hm, rfl⟩ | ⟨i, r, src, rfl, rfl, hm, hsrc, rfl⟩ :=
    Cmd.errand_finish hfin
  · have hother : ∀ i, c ≠ .readNext (some i) := by
      rintro i rfl
      cases hnone
    rw [Act.reads_other hc hother, errands_queued hm, errands_erased hc hnone h.single, Option.toList_none,
      List.append_nil, List.append_nil]
    exact h
  · obtain ⟨hone, hrest⟩ := errands_finished hc rfl h.single
    rw [Act.reads_other hc (by simp), errands_answered hm hrest, List.append_nil]
    rw [hone] at h
    exact h.opened _ rfl
  · obtain ⟨hone, hrest⟩ := errands_finished hc rfl h.single
    rw [Act.reads_other hc (by simp), errands_answered hm hrest, Option.toList_none, List.append_nil, List.append_nil]
    rw [hone] at h
    exact h.refused
  · obtain ⟨hone, hrest⟩ := errands_finished hc rfl h.single
    rw [Act.reads_read hc, errands_answered hm hrest, Option.toList_none, List.append_nil]
    rw [hone] at h
    exact h.returned hsrc r

/-- **Step.** -/
theorem InOrder.step {p p' : Program W} {act : Act W} (h : InOrder p.sessions reads p.app (errands p.running p.queue))
    (hnew : ∀ m ∈ p.queue, m.newborn) (halone : alone p act) (hstep : Program.Step p act p') :
    InOrder p'.sessions (reads ++ act.reads p) p'.app (errands p'.running p'.queue) := by
  obtain ⟨m, hm, rfl⟩ | ⟨k, c, o, m, session, rfl, hc, hfin, rfl⟩ | ⟨queue, rfl, hq, rfl⟩ |
    ⟨m, queue, rfl, -, hq, rfl⟩ := Program.step_cases hstep
  · obtain ⟨k, rfl, rfl⟩ | ⟨width, height, rfl, rfl⟩ := hm
    · show InOrder p.sessions (reads ++ []) p.app (errands p.running (p.queue ++ [_]))
      rw [errands_queued rfl, List.append_nil]
      exact h
    · show InOrder p.sessions (reads ++ []) p.app (errands p.running (p.queue ++ [_]))
      rw [errands_queued rfl, List.append_nil]
      exact h
  · -- a command finishes
    exact h.finished hc hfin
  · show InOrder (p.app.closeAllSessions p.sessions) (reads ++ []) p.app (errands p.running queue)
    rw [hq, errands_tail rfl] at h
    rw [List.append_nil]
    refine p.app.closeAllSessions_induction (P := fun x => InOrder x reads p.app (errands p.running queue)) ?_ h
    -- at the end all sessions are closed, one after the other
    intro session sessions hsessions
    exact hsessions.extended (extends_closeSession session sessions)
  · show InOrder (closeSession (p.app.update p.fresh m).closes p.sessions) (reads ++ []) (p.app.update p.fresh m).app
      (errands (p.running ++ (p.app.update p.fresh m).cmds) queue)
    rw [List.append_nil]
    -- a message is delivered; whether its screen closes a session does not matter here
    apply InOrder.extended _ (extends_closeSession _ _)
    rw [hq] at h
    obtain ⟨width, height, rfl, heq⟩ | ⟨rfl, heq⟩ | ⟨s, rfl, heq⟩ | ⟨sender, rfl, heq⟩ | ⟨v, sender, rfl, heq⟩ | ⟨-, heq⟩ :=
      App.update_cases p.fresh m p.app
    · rw [heq, errands_started (List.forall_mem_nil _)]
      rw [errands_tail rfl] at h
      exact h.resize width height
    · rw [heq, errands_started (List.forall_mem_singleton.mpr rfl)]
      rw [errands_tail rfl] at h
      exact h
    · rw [heq]
      obtain ⟨hstreams, hfree⟩ := alone_push halone hq
      exact h.push hstreams hfree (hnew (.push s) (by rw [hq]; exact List.mem_cons_self)) p.app.width p.app.height
    · rw [heq, errands_started (List.forall_mem_nil _)]
      rw [errands_tail rfl] at h
      exact h.drop
    · rw [heq]
      -- the screen below gets the result instead
      rw [errands_tail rfl, ← errands_tail (m := .result v) rfl] at h
      exact h.drop.forward p.fresh
    · rw [heq]
      exact h.forward p.fresh

theorem InOrder.start (minSize onlyPid uidFilter interval : Int) :
    InOrder [] [] (Program.start W minSize onlyPid uidFilter interval).app
      (errands (Program.start W minSize onlyPid uidFilter interval).running []) where
  below := List.forall_mem_nil _
  single := Nat.zero_le 1
  known := List.forall_mem_nil _
  old := List.forall_mem_nil _
  serves := by
    intro s hs
    cases hs
  shows := by
    intro s hs
    cases hs

end

/-- The program, with a record of what `Next` returned. -/
abbrev Recorded (W : Widgets) := Observed (Program W) (List (SessionId × ReadResult))

def recordedStep : Recorded W → Act W → Recorded W → Prop :=
  Observe (Guarded (fun p act => alone p act) Program.Step) fun p act reads => reads ++ act.reads p

/-- The same, computed. -/
def recordedNext (x : Recorded W) (act : Act W) : Option (Recorded W) :=
  if alone x.state act then (x.state.next act).map fun p => ⟨p, x.seen ++ act.reads x.state⟩ else none

theorem recordedNext_step {x y : Recorded W} {act : Act W} (h : recordedNext x act = some y) : recordedStep x act y := by
  unfold recordedNext at h
  split at h
  next halone =>
    obtain ⟨p, hp, rfl⟩ := Option.map_eq_some_iff.mp h
    exact ⟨⟨halone, hp⟩, rfl⟩
  · cases h

/-- **Run.** -/
theorem inOrder_run {minSize onlyPid uidFilter interval : Int} {acts : List (Act W)} {p : Program W}
    {reads : List (SessionId × ReadResult)}
    (hrun : Run recordedStep ⟨Program.start W minSize onlyPid uidFilter interval, []⟩ acts ⟨p, reads⟩) :
    InOrder p.sessions reads p.app (errands p.running p.queue) := by
  have hinv : Named p.app.streams p.running p.queue p.sessions p.fresh ∧
      InOrder p.sessions reads p.app (errands p.running p.queue) := by
    refine hrun.invariant (I := fun x => Named x.state.app.streams x.state.running x.state.queue x.state.sessions
      x.state.fresh ∧ InOrder x.state.sessions x.seen x.state.app (errands x.state.running x.state.queue))
      ⟨.start minSize onlyPid uidFilter interval, .start minSize onlyPid uidFilter interval⟩ ?_
    rintro x act y ⟨hnamed, hinorder⟩ ⟨⟨halone, hstep⟩, hseen⟩
    refine ⟨hnamed.step hstep, ?_⟩
    rw [hseen]
    exact hinorder.step hnamed.newborn.2 halone hstep
  exact hinv.2

theorem InOrder.stacked {a : App W} {es : List Errand} {sessions : List Session} {reads : List (SessionId × ReadResult)}
    (h : InOrder sessions reads a es) {s : StreamScreen} (hs : .stream s ∈ a.stack) : s.Shows sessions reads es := by
  rcases List.mem_cons.mp hs with htop | hbelow
  · exact h.shows s (by rw [← htop]; rfl)
  · cases h.below _ hbelow

/-- **A stream is shown in order.** In every run with one stream at a time, in any order of keys, resizes, timers
    and answers: at most one command or message is under way for streams, so that `Next` is never called while
    another call of it is still at work; and a stacked `StreamScreen` shows nothing before its session is
    attached, and from then on its header and one line for each result that `Next` has returned on this session,
    which is one for its own process and descriptor, in the order in which they were returned, none missing and
    none twice, but for the one that is still in the queue. After an end or an error nothing more is read. -/
theorem stream_in_order (W : Widgets) (minSize onlyPid uidFilter interval : Int) (acts : List (Act W)) (p : Program W)
    (reads : List (SessionId × ReadResult))
    (hrun : Run recordedStep ⟨Program.start W minSize onlyPid uidFilter interval, []⟩ acts ⟨p, reads⟩) :
    (errands p.running p.queue).length ≤ 1 ∧
      ∀ s, .stream s ∈ p.app.stack → s.Shows p.sessions reads (errands p.running p.queue) := by
  have hinorder := inOrder_run hrun
  exact ⟨hinorder.single, fun s hs => hinorder.stacked hs⟩

/-- A stream is opened, and of two writes that were read the first is shown. -/
def twoReads : List (Act simpleWidgets) :=
  streamRun.append [.finish 1 (.read (.ok (some { WriteEvent.zero with ret := 3 })))]

theorem stream_in_order_two_reads :
    ∃ p reads, Run recordedStep ⟨Program.start simpleWidgets 0 0 (-1) 5, []⟩ twoReads ⟨p, reads⟩ ∧
      ((∃ s ∈ p.app.streams, s.session = some 0 ∧ s.lines.length = 4) ∧ (readsOf 0 reads).length = 2) ∧
      ∀ s, .stream s ∈ p.app.stack → s.Shows p.sessions reads (errands p.running p.queue) := by
  have hexec : (twoReads.foldlM recordedNext ⟨Program.start simpleWidgets 0 0 (-1) 5, []⟩).any (fun x =>
      (∃ s ∈ x.state.app.streams, s.session = some 0 ∧ s.lines.length = 4) ∧ (readsOf 0 x.seen).length = 2) := by
    decide +kernel
  obtain ⟨⟨p, reads⟩, hp, hstream⟩ := (Option.any_eq_true _ _).mp hexec
  have hrun : Run recordedStep ⟨Program.start simpleWidgets 0 0 (-1) 5, []⟩ twoReads ⟨p, reads⟩ :=
    Run.of_exec (fun _ _ _ _ h => recordedNext_step h) hp
  exact ⟨p, reads, hrun, of_decide_eq_true hstream, (stream_in_order _ _ _ _ _ _ p reads hrun).2⟩

end Tui
end Hsed
