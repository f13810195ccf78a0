import Hsed.Tracer.TidTable
import Hsed.Tracer.Correctness.Table

/-!
# `Tracer.Correctness.TidTable` — the array is a bounded finite map

`live` is the list of the slots in use. On it the two functions are those of the list (`live_findOrAddTid`,
`live_removeTid`), so that `lookup` gives the entry of each tid and an operation changes it at its own tid only
(`Use.Ok.step`). Over a whole run an entry is what its history says (`Recorded`): the tid was added where it was
absent and there was room, has not been removed since, and has the state last written for it.
-/

namespace Hsed
namespace Tracer

open Lts

namespace TidTable

/-- The slots in use. -/
def live (s : TidTable) : List TidState := (List.range s.ntids).map s.slots

/-- The state stored for a tid. -/
def entry (s : TidTable) (t : Int) : Option TidState := lookup s.live t

section

variable {s : TidTable} {t : Int} {i : Nat}

@[simp] theorem length_live (s : TidTable) : s.live.length = s.ntids := by simp [live]

theorem getElem?_live (s : TidTable) (i : Nat) : s.live[i]? = if i < s.ntids then some (s.slots i) else none := by
  unfold live
  rw [List.getElem?_map]
  split
  case isTrue h => rw [List.getElem?_range h, Option.map_some]
  case isFalse h => rw [List.getElem?_eq_none (by simpa using h), Option.map_none]

/-- The loop over the array is the search of the list. -/
theorem slotOf_eq (s : TidTable) (t : Int) : s.slotOf t = Tracer.slotOf s.live t := by
  unfold TidTable.slotOf Tracer.slotOf live
  induction s.ntids with
  | zero => rfl
  | succ n ih =>
      rw [List.range_succ, List.map_append, List.find?_append, List.findIdx?_append, ih]
      simp

theorem slotOf_eq_none_iff : s.slotOf t = none ↔ s.entry t = none := by
  rw [slotOf_eq]
  exact Tracer.slotOf_eq_none_iff

theorem slotOf_spec (h : s.slotOf t = some i) : i < s.ntids ∧ (s.slots i).tid = t := by
  have htid := List.find?_some h
  exact ⟨List.mem_range.mp (List.mem_of_find?_eq_some h), of_decide_eq_true htid⟩

/-- A new slot at the end, whatever was left there. -/
theorem live_append_fresh (s : TidTable) (t : Int) :
    live ⟨Function.update s.slots s.ntids (TidState.fresh t), s.ntids + 1⟩ = s.live ++ [TidState.fresh t] := by
  apply List.ext_getElem?
  intro j
  rw [getElem?_live, List.getElem?_append, length_live, getElem?_live]
  dsimp only
  rcases Nat.lt_trichotomy j s.ntids with hlt | rfl | hgt
  · rw [if_pos (Nat.lt_succ_of_lt hlt), if_pos hlt, if_pos hlt, Function.update_of_ne hlt.ne]
  · simp
  · rw [if_neg (Nat.not_lt.mpr hgt), if_neg (Nat.lt_asymm hgt), List.getElem?_eq_none]
    rw [List.length_singleton]
    omega

/-- What `find_or_add_tid` can do: find the slot, fail for lack of room, or take the next one. -/
theorem findOrAddTid_cases (s : TidTable) (t : Int) :
    (∃ i, s.slotOf t = some i ∧ s.findOrAddTid t = (s, some (i, false))) ∨
    (s.slotOf t = none ∧ maxTrackedTids ≤ s.ntids ∧ s.findOrAddTid t = (s, none)) ∨
    (s.slotOf t = none ∧ s.ntids < maxTrackedTids ∧
      s.findOrAddTid t =
        (⟨Function.update s.slots s.ntids (TidState.fresh t), s.ntids + 1⟩, some (s.ntids, true))) := by
  unfold TidTable.findOrAddTid
  cases s.slotOf t with
  | some i => exact .inl ⟨i, rfl, rfl⟩
  | none =>
      dsimp only
      split
      case isTrue hfull => exact .inr (.inl ⟨rfl, hfull, rfl⟩)
      case isFalse hroom => exact .inr (.inr ⟨rfl, Nat.lt_of_not_le hroom, rfl⟩)

/-- The array does what the list does. -/
theorem live_findOrAddTid (s : TidTable) (t : Int) :
    ((s.findOrAddTid t).1.live, (s.findOrAddTid t).2) = Tracer.findOrAddTid s.live t := by
  unfold Tracer.findOrAddTid
  rw [← slotOf_eq, length_live]
  rcases s.findOrAddTid_cases t with ⟨i, hslot, heq⟩ | ⟨hslot, hfull, heq⟩ | ⟨hslot, hroom, heq⟩
  · rw [heq, hslot]
  · rw [heq, hslot]
    exact (if_pos hfull).symm
  · rw [heq, hslot, live_append_fresh]
    exact (if_neg (Nat.not_le.mpr hroom)).symm

theorem live_removeTid (s : TidTable) (t : Int) : (s.removeTid t).live = Tracer.removeTid s.live t := by
  unfold TidTable.removeTid Tracer.removeTid
  rw [← slotOf_eq]
  cases hslot : s.slotOf t with
  | none => rfl
  | some i =>
      obtain ⟨hi, -⟩ := slotOf_spec hslot
      have hlast : s.live.getLast? = some (s.slots (s.ntids - 1)) := by
        rw [List.getLast?_eq_getElem?, length_live, getElem?_live, if_pos (by omega)]
      rw [hlast]
      dsimp only
      apply List.ext_getElem?
      intro j
      rw [getElem?_live, List.getElem?_dropLast, List.length_set, length_live]
      dsimp only
      split
      case isTrue hj =>
        have hj' : j < s.ntids := by omega
        rw [List.getElem?_set, length_live, getElem?_live, if_pos hj']
        by_cases hij : i = j
        · subst hij
          rw [if_pos rfl, if_pos hi, Function.update_self]
        · rw [if_neg hij, Function.update_of_ne (Ne.symm hij)]
      case isFalse => rfl

theorem live_write (s : TidTable) (i : Nat) (ts : TidState) :
    (s.write i ts).live = s.live.set i { ts with tid := (s.slots i).tid } := by
  apply List.ext_getElem?
  intro j
  rw [getElem?_live, List.getElem?_set, length_live, getElem?_live]
  unfold write
  dsimp only
  by_cases hij : i = j
  · subst hij
    rw [if_pos rfl, Function.update_self]
  · rw [if_neg hij, Function.update_of_ne (Ne.symm hij)]

end

end TidTable

/-! ## One operation -/

/-- What an operation does to a finite map with a bound: `room` says whether it has been reached. -/
def TidOp.effect (room : Bool) (m : Int → Option TidState) : TidOp → Int → Option TidState
  | .find t => if m t = none ∧ room then Function.update m t (some (TidState.fresh t)) else m
  | .remove t => Function.update m t none
  | .write _ t ts => Function.update m t (some { ts with tid := t })

theorem TidOp.effect_of_ne {room : Bool} {m : Int → Option TidState} {op : TidOp} {u : Int} (h : u ≠ op.tid) :
    op.effect room m u = m u := by
  cases op with
  | find t =>
      rw [TidOp.effect]
      split
      · exact Function.update_of_ne h _ m
      · rfl
  | remove t => exact Function.update_of_ne h _ m
  | write i t ts => exact Function.update_of_ne h _ m

theorem TidOp.written_of_ne {op : TidOp} {u : Int} (h : u ≠ op.tid) : op.written u = none := by
  cases op with
  | find t => rfl
  | remove t => rfl
  | write i t ts => exact if_neg (Ne.symm h)

/-- The invariant: no tid twice, no slot beyond the array, and pointers point to the entries they are for. -/
structure Use.Ok (s : Use) : Prop where
  distinct : Distinct s.table.live
  bound : s.table.ntids ≤ maxTrackedTids
  pointers : ∀ i t, (i, t) ∈ s.returned → i < s.table.ntids ∧ (s.table.slots i).tid = t

section

variable {s s' : Use} {op : TidOp}

theorem Use.ok_start (stack : Nat → TidState) : (Use.start stack).Ok := by
  refine ⟨List.nodup_nil, Nat.zero_le _, ?_⟩
  intro i t h
  cases h

/-- The list of the slots, as a map, after `find_or_add_tid`. -/
theorem lookup_find (tids : List TidState) (t : Int) :
    lookup (findOrAddTid tids t).1 = (TidOp.find t).effect (tids.length < maxTrackedTids) (lookup tids) := by
  rw [TidOp.effect]
  rcases findOrAddTid_cases tids t with ⟨i, ts, heq, -, hthere⟩ | ⟨habsent, hroom, heq⟩ | ⟨-, hfull, heq⟩
  · rw [heq, if_neg]
    rintro ⟨hnone, -⟩
    rw [hthere] at hnone
    cases hnone
  · rw [heq, if_pos ⟨habsent, decide_eq_true hroom⟩]
    funext u
    rw [lookup_append_fresh habsent, Function.update_apply]
  · rw [heq, if_neg]
    rintro ⟨-, hroom⟩
    exact Nat.not_lt.mpr hfull (of_decide_eq_true hroom)

/-- **`find_or_add_tid`.** -/
theorem Use.Ok.find (h : s.Ok) (t : Int) (hstep : Use.Step s (.find t) s') :
    s'.Ok ∧ s'.table.entry = (TidOp.find t).effect (s.table.ntids < maxTrackedTids) s.table.entry := by
  have htable : s'.table = (s.table.findOrAddTid t).1 := by
    unfold Use.Step Use.next at hstep
    dsimp only at hstep
    split at hstep <;>
      · next heq => rw [← Option.some.inj hstep, heq]
  have hlive : s'.table.live = (Tracer.findOrAddTid s.table.live t).1 := by
    rw [htable, ← TidTable.live_findOrAddTid]
  have hentry : s'.table.entry = (TidOp.find t).effect (s.table.ntids < maxTrackedTids) s.table.entry := by
    have hlookup := lookup_find s.table.live t
    rw [TidTable.length_live] at hlookup
    show lookup s'.table.live = _
    rw [hlive]
    exact hlookup
  refine ⟨⟨?_, ?_, ?_⟩, hentry⟩
  · rw [hlive]
    exact h.distinct.findOrAddTid t
  · rw [← TidTable.length_live, hlive]
    exact length_findOrAddTid_le (by rw [TidTable.length_live]; exact h.bound) t
  · intro j u hmem
    unfold Use.Step Use.next at hstep
    dsimp only at hstep
    rcases s.table.findOrAddTid_cases t with ⟨i, hslot, heq⟩ | ⟨-, -, heq⟩ | ⟨-, hroom, heq⟩
    · -- the slot that is there
      rw [heq] at hstep
      obtain rfl := Option.some.inj hstep
      rcases List.mem_cons.mp hmem with hnew | hmem
      · obtain ⟨rfl, rfl⟩ := Prod.mk.inj hnew
        exact TidTable.slotOf_spec hslot
      · exact h.pointers j u hmem
    · -- no room
      rw [heq] at hstep
      obtain rfl := Option.some.inj hstep
      exact h.pointers j u hmem
    · -- a new slot
      rw [heq] at hstep
      obtain rfl := Option.some.inj hstep
      rcases List.mem_cons.mp hmem with hnew | hmem
      · obtain ⟨rfl, rfl⟩ := Prod.mk.inj hnew
        refine ⟨Nat.lt_succ_self _, ?_⟩
        show (Function.update s.table.slots s.table.ntids (TidState.fresh u) s.table.ntids).tid = u
        rw [Function.update_self]
        rfl
      · obtain ⟨hlt, htid⟩ := h.pointers j u hmem
        refine ⟨Nat.lt_succ_of_lt hlt, ?_⟩
        show (Function.update s.table.slots s.table.ntids (TidState.fresh t) j).tid = u
        rw [Function.update_of_ne hlt.ne]
        exact htid

/-- **`remove_tid`.** -/
theorem Use.Ok.remove (h : s.Ok) (t : Int) (hstep : Use.Step s (.remove t) s') :
    s'.Ok ∧ s'.table.entry = Function.update s.table.entry t none := by
  have htable : s'.table = s.table.removeTid t := by
    unfold Use.Step Use.next at hstep
    dsimp only at hstep
    split at hstep <;> rw [← Option.some.inj hstep]
  have hentry : s'.table.entry = Function.update s.table.entry t none := by
    funext u
    rw [htable]
    show lookup (s.table.removeTid t).live u = _
    rw [TidTable.live_removeTid, lookup_removeTid h.distinct, Function.update_apply]
    rfl
  refine ⟨⟨?_, ?_, ?_⟩, hentry⟩
  · rw [htable, TidTable.live_removeTid]
    exact h.distinct.removeTid t
  · rw [htable]
    unfold TidTable.removeTid
    split
    · exact h.bound
    · exact (Nat.sub_le _ 1).trans h.bound
  · intro j u hmem
    unfold Use.Step Use.next at hstep
    cases hslot : s.table.slotOf t with
    | none =>
        simp only [hslot, TidTable.removeTid] at hstep
        obtain rfl := Option.some.inj hstep
        exact h.pointers j u hmem
    | some i =>
        -- what is left points neither to the hole nor to the slot that moved into it
        simp only [hslot, TidTable.removeTid] at hstep
        obtain rfl := Option.some.inj hstep
        obtain ⟨hold, hkept⟩ := List.mem_filter.mp hmem
        obtain ⟨hi, hlast⟩ := of_decide_eq_true hkept
        obtain ⟨hlt, htid⟩ := h.pointers j u hold
        refine ⟨by dsimp only at hlast ⊢; omega, ?_⟩
        show (Function.update s.table.slots i _ j).tid = u
        rw [Function.update_of_ne hi]
        exact htid

/-- An update goes through a pointer to the entry of its tid. -/
theorem Use.Ok.pointer_of_write (h : s.Ok) {i : Nat} {t : Int} {ts : TidState} (hstep : Use.Step s (.write i t ts) s') :
    s' = ⟨s.table.write i ts, s.returned⟩ ∧ (s.table.slots i).tid = t ∧ s.table.live[i]? = some (s.table.slots i) := by
  unfold Use.Step Use.next at hstep
  dsimp only at hstep
  split at hstep
  case isFalse => cases hstep
  case isTrue hmem =>
    obtain ⟨hlt, htid⟩ := h.pointers i t hmem
    refine ⟨(Option.some.inj hstep).symm, htid, ?_⟩
    rw [TidTable.getElem?_live, if_pos hlt]

theorem Use.Ok.entry_of_write (h : s.Ok) {i : Nat} {t : Int} {ts : TidState} (hstep : Use.Step s (.write i t ts) s') :
    ∃ old, s.table.entry t = some old := by
  obtain ⟨-, htid, hslot⟩ := h.pointer_of_write hstep
  exact ⟨_, (lookup_eq_some_iff h.distinct).mpr ⟨List.mem_of_getElem? hslot, htid⟩⟩

/-- **An update.** -/
theorem Use.Ok.write (h : s.Ok) {i : Nat} {t : Int} {ts : TidState} (hstep : Use.Step s (.write i t ts) s') :
    s'.Ok ∧ s'.table.entry = Function.update s.table.entry t (some { ts with tid := t }) := by
  obtain ⟨rfl, htid, hslot⟩ := h.pointer_of_write hstep
  have hlive := s.table.live_write i ts
  refine ⟨⟨?_, h.bound, ?_⟩, ?_⟩
  · show Distinct (s.table.write i ts).live
    rw [hlive]
    exact h.distinct.set hslot rfl
  · intro j u hmem
    obtain ⟨hlt', htid'⟩ := h.pointers j u hmem
    refine ⟨hlt', ?_⟩
    unfold TidTable.write
    rw [← htid']
    by_cases hji : j = i
    · subst hji
      dsimp only
      rw [Function.update_self]
    · dsimp only
      rw [Function.update_of_ne hji]
  · funext u
    show lookup (s.table.write i ts).live u = _
    have hset : lookup (s.table.live.set i { ts with tid := (s.table.slots i).tid }) u =
        if u = (s.table.slots i).tid then some { ts with tid := (s.table.slots i).tid } else lookup s.table.live u := by
      apply lookup_set h.distinct hslot
      rfl
    rw [hlive, hset, htid, Function.update_apply]
    rfl

/-- **Step.** -/
theorem Use.Ok.step (h : s.Ok) (hstep : Use.Step s op s') :
    s'.Ok ∧ s'.table.entry = op.effect (s.table.ntids < maxTrackedTids) s.table.entry := by
  cases op with
  | find t => exact h.find t hstep
  | remove t => exact h.remove t hstep
  | write i t ts => exact h.write hstep

end

/-! ## Whole runs -/

/-- The history of an entry: its tid was added, absent and with room, and not removed since; `ts` is the state
    last written for it since then, and all zero if none was. -/
def Recorded (stack : Nat → TidState) (ops : List TidOp) (t : Int) (ts : TidState) : Prop :=
  ∃ pre post s, ops = pre ++ .find t :: post ∧ Run Use.Step (Use.start stack) pre s ∧
    s.table.entry t = none ∧ s.table.ntids < maxTrackedTids ∧ .remove t ∉ post ∧
    ts = (post.filterMap (TidOp.written t)).getLastD (TidState.fresh t)

section

variable {stack : Nat → TidState} {ops : List TidOp} {s s' : Use} {op : TidOp} {t : Int} {ts : TidState}

theorem Use.ok_run (hrun : Run Use.Step (Use.start stack) ops s) : s.Ok :=
  hrun.invariant (Use.ok_start stack) fun _ _ _ h hstep => (h.step hstep).1

theorem Use.step_unique (s : Use) (op : TidOp) (s₁ s₂ : Use) (h₁ : Use.Step s op s₁) (h₂ : Use.Step s op s₂) :
    s₁ = s₂ :=
  Option.some.inj (h₁.symm.trans h₂)

/-- What was written last, with one more operation. -/
theorem getLastD_filterMap_snoc {α β : Type} (f : α → Option β) (as : List α) (a : α) (d : β) :
    ((as ++ [a]).filterMap f).getLastD d = (f a).getD ((as.filterMap f).getLastD d) := by
  rw [List.filterMap_append]
  cases h : f a with
  | none => simp [h]
  | some b => simp [h, List.getLastD_eq_getLast?]

/-- One more operation: it adds the tid, or the entry is the one recorded before it. -/
theorem recorded_snoc (hrun : Run Use.Step (Use.start stack) ops s) :
    Recorded stack (ops ++ [op]) t ts ↔
      (op = .find t ∧ s.table.entry t = none ∧ s.table.ntids < maxTrackedTids ∧ ts = TidState.fresh t) ∨
      (op ≠ .remove t ∧ ∃ old, Recorded stack ops t old ∧ ts = (op.written t).getD old) := by
  constructor
  · rintro ⟨pre, post, s₁, hops, hrun₁, habsent, hroom, hkept, rfl⟩
    rcases List.eq_nil_or_concat post with rfl | ⟨post, last, rfl⟩
    · obtain ⟨rfl, hop⟩ := List.append_inj' hops rfl
      obtain rfl := hrun.unique Use.step_unique hrun₁
      exact .inl ⟨by simpa using hop, habsent, hroom, rfl⟩
    · have hsplit : ops ++ [op] = (pre ++ .find t :: post) ++ [last] := by simpa using hops
      obtain ⟨rfl, hop⟩ := List.append_inj' hsplit rfl
      obtain rfl : op = last := by simpa using hop
      rw [List.concat_eq_append, List.mem_append, not_or] at hkept
      refine .inr ⟨?_, _, ⟨pre, post, s₁, rfl, hrun₁, habsent, hroom, hkept.1, rfl⟩, ?_⟩
      · rintro rfl
        exact hkept.2 List.mem_cons_self
      · rw [List.concat_eq_append, getLastD_filterMap_snoc]
  · rintro (⟨rfl, habsent, hroom, rfl⟩ | ⟨hne, old, ⟨pre, post, s₁, rfl, hrun₁, habsent, hroom, hkept, rfl⟩, rfl⟩)
    · exact ⟨ops, [], s, rfl, hrun, habsent, hroom, List.not_mem_nil, rfl⟩
    · refine ⟨pre, post ++ [op], s₁, by simp, hrun₁, habsent, hroom, ?_, ?_⟩
      · rw [List.mem_append, List.mem_singleton, not_or]
        exact ⟨hkept, Ne.symm hne⟩
      · rw [getLastD_filterMap_snoc]

/-- **Run.** An entry is what its history says. -/
theorem entry_iff_recorded (hrun : Run Use.Step (Use.start stack) ops s) (t : Int) (ts : TidState) :
    s.table.entry t = some ts ↔ Recorded stack ops t ts := by
  induction hrun generalizing ts with
  | nil =>
      constructor
      · intro h
        cases h
      · rintro ⟨pre, post, s, hops, -⟩
        simp at hops
  | @snoc ops s s' op hrun hstep ih =>
      rw [recorded_snoc hrun, ((Use.ok_run hrun).step hstep).2]
      simp only [← ih]
      by_cases hother : t ≠ op.tid
      · -- an operation on another tid
        rw [TidOp.effect_of_ne hother, TidOp.written_of_ne hother]
        have hfind : op ≠ .find t := fun h => hother (by rw [h]; rfl)
        have hremove : op ≠ .remove t := fun h => hother (by rw [h]; rfl)
        simp [hfind, hremove]
      · rw [not_not] at hother
        subst hother
        cases op with
        | find u =>
            show (if s.table.entry u = none ∧ _ then _ else _ : Int → Option TidState) u = some ts ↔ _
            split
            case isTrue hnew =>
              -- added: nothing was recorded for it
              rw [Function.update_self]
              simp [hnew.1, of_decide_eq_true hnew.2, TidOp.tid, eq_comm]
            case isFalse hold =>
              simp only [TidOp.tid, TidOp.written, decide_eq_true_eq, not_and] at hold ⊢
              simp only [true_and, ne_eq, reduceCtorEq, not_false_eq_true, Option.getD_none, exists_eq_right']
              constructor
              · exact .inr
              · rintro (⟨habsent, hroom, -⟩ | hentry)
                · exact absurd hroom (hold habsent)
                · exact hentry
        | remove u => simp [TidOp.effect, TidOp.tid]
        | write i u new =>
            -- the pointer is good, so there is an entry
            obtain ⟨old, hold⟩ := (Use.ok_run hrun).entry_of_write hstep
            simp [TidOp.effect, TidOp.tid, TidOp.written, hold, eq_comm]

/-- A slot in use is the entry of its tid. -/
theorem Use.Ok.entry_eq_some_iff (h : s.Ok) (t : Int) (ts : TidState) :
    s.table.entry t = some ts ↔ ∃ i < s.table.ntids, s.table.slots i = ts ∧ ts.tid = t := by
  unfold TidTable.entry
  rw [lookup_eq_some_iff h.distinct]
  unfold TidTable.live
  simp only [List.mem_map, List.mem_range]
  constructor
  · rintro ⟨⟨i, hi, hts⟩, ht⟩
    exact ⟨i, hi, hts, ht⟩
  · rintro ⟨i, hi, hts, ht⟩
    exact ⟨⟨i, hi, hts⟩, ht⟩

theorem Use.Ok.slot_injective (h : s.Ok) {i j : Nat} (hi : i < s.table.ntids) (hj : j < s.table.ntids)
    (htid : (s.table.slots i).tid = (s.table.slots j).tid) : i = j := by
  have hnodup := h.distinct
  unfold Distinct TidTable.live at hnodup
  rw [List.map_map] at hnodup
  exact List.inj_on_of_nodup_map hnodup (List.mem_range.mpr hi) (List.mem_range.mpr hj) htid

/-- `NULL` is for a new tid with no slot left. -/
theorem Use.Ok.findOrAddTid_eq_none_iff (h : s.Ok) (t : Int) :
    (s.table.findOrAddTid t).2 = none ↔ s.table.entry t = none ∧ s.table.ntids = maxTrackedTids := by
  have hbound := h.bound
  rw [← TidTable.slotOf_eq_none_iff]
  rcases s.table.findOrAddTid_cases t with ⟨i, hslot, heq⟩ | ⟨hslot, hfull, heq⟩ | ⟨hslot, hroom, heq⟩
  · simp [heq, hslot]
  · simp [heq, hslot, le_antisymm hbound hfull]
  · simp [heq, hslot, hroom.ne]

/-- A failed call changes nothing. -/
theorem TidTable.findOrAddTid_of_none {table : TidTable} (h : (table.findOrAddTid t).2 = none) :
    (table.findOrAddTid t).1 = table := by
  rcases table.findOrAddTid_cases t with ⟨i, -, heq⟩ | ⟨-, -, heq⟩ | ⟨-, -, heq⟩
  all_goals rw [heq] at h ⊢
  cases h

/-- **The table is a bounded finite map.** After any use of it: no tid has two slots; there are at most
    `MAX_TRACKED_TIDS`; the slots in use are the entries that the history records; an operation on one tid leaves
    the others alone; and `find_or_add_tid` fails just when the tid is new and the table full, changing nothing. -/
theorem tid_table_finite_map (hrun : Run Use.Step (Use.start stack) ops s) :
    (∀ i < s.table.ntids, ∀ j < s.table.ntids, (s.table.slots i).tid = (s.table.slots j).tid → i = j) ∧
    s.table.ntids ≤ maxTrackedTids ∧
    (∀ t ts, (∃ i < s.table.ntids, s.table.slots i = ts ∧ ts.tid = t) ↔ Recorded stack ops t ts) ∧
    (∀ op s', Use.Step s op s' → ∀ u ≠ op.tid, s'.table.entry u = s.table.entry u) ∧
    (∀ t, ((s.table.findOrAddTid t).2 = none ↔ s.table.entry t = none ∧ s.table.ntids = maxTrackedTids) ∧
      ((s.table.findOrAddTid t).2 = none → (s.table.findOrAddTid t).1 = s.table)) := by
  have hok := Use.ok_run hrun
  refine ⟨?_, hok.bound, ?_, ?_, ?_⟩
  · intro i hi j hj htid
    exact hok.slot_injective hi hj htid
  · intro t ts
    rw [← hok.entry_eq_some_iff]
    exact entry_iff_recorded hrun t ts
  · intro op s' hstep u hu
    rw [(hok.step hstep).2]
    exact TidOp.effect_of_ne hu
  · intro t
    exact ⟨hok.findOrAddTid_eq_none_iff t, TidTable.findOrAddTid_of_none⟩

/-- Two threads; the first is marked and removed, so that the second moves, comes back and is marked again. -/
theorem tid_table_finite_map_two_threads :
    ∃ s, Run Use.Step (Use.start fun _ => TidState.fresh 99)
        [.find 7, .find 8, .write 0 7 ⟨7, true, false, false, 0, 0⟩, .write 1 8 ⟨8, true, true, false, 4096, 0⟩,
          .remove 7, .find 7, .find 8, .write 1 7 ⟨7, false, false, true, 0, 3⟩] s ∧
      s.table.ntids = 2 ∧ s.table.slots 0 = ⟨8, true, true, false, 4096, 0⟩ ∧
      s.table.slots 1 = ⟨7, false, false, true, 0, 3⟩ ∧
      (∀ t ts, (∃ i < s.table.ntids, s.table.slots i = ts ∧ ts.tid = t) ↔
        Recorded (fun _ => TidState.fresh 99)
          [.find 7, .find 8, .write 0 7 ⟨7, true, false, false, 0, 0⟩, .write 1 8 ⟨8, true, true, false, 4096, 0⟩,
            .remove 7, .find 7, .find 8, .write 1 7 ⟨7, false, false, true, 0, 3⟩] t ts) := by
  have hexec : (List.foldlM Use.next (Use.start fun _ => TidState.fresh 99)
      [.find 7, .find 8, .write 0 7 ⟨7, true, false, false, 0, 0⟩, .write 1 8 ⟨8, true, true, false, 4096, 0⟩,
        .remove 7, .find 7, .find 8, .write 1 7 ⟨7, false, false, true, 0, 3⟩]).any (fun s =>
      s.table.ntids = 2 ∧ s.table.slots 0 = ⟨8, true, true, false, 4096, 0⟩ ∧
      s.table.slots 1 = ⟨7, false, false, true, 0, 3⟩) = true := by decide +kernel
  obtain ⟨s, hs, hstate⟩ := (Option.any_eq_true _ _).mp hexec
  obtain ⟨hn, h0, h1⟩ := of_decide_eq_true hstate
  have hrun := Run.of_exec (fun _ _ _ _ h => (h : Use.Step _ _ _)) hs
  exact ⟨s, hrun, hn, h0, h1, (tid_table_finite_map hrun).2.2.1⟩

end

end Tracer
end Hsed
