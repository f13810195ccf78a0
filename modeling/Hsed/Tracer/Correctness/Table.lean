import Hsed.Tracer.Tracer

/-!
# `Tracer.Correctness.Table` — the thread table is a finite map

`lookup` reads the table as a partial function from tids to states; `Distinct` says that no tid has two
slots. Under it, each operation changes the map at one tid only (`lookup_findOrAddTid`, `lookup_set`,
`lookup_removeTid`), however slots are found, appended or moved into a hole.
-/

namespace Hsed
namespace Tracer

/-- The state stored for a tid. -/
def lookup (tids : List TidState) (tid : Int) : Option TidState := tids.find? fun ts => ts.tid = tid

/-- No tid has two slots. -/
def Distinct (tids : List TidState) : Prop := (tids.map (·.tid)).Nodup

theorem lookup_tid {tids : List TidState} {t : Int} {ts : TidState} (h : lookup tids t = some ts) :
    ts.tid = t := by
  have hp := List.find?_some h
  simpa using hp

theorem lookup_eq_none_iff {tids : List TidState} {t : Int} :
    lookup tids t = none ↔ ∀ ts ∈ tids, ts.tid ≠ t := by
  simp [lookup, List.find?_eq_none]

theorem lookup_eq_some_iff {tids : List TidState} (hd : Distinct tids) {t : Int} {ts : TidState} :
    lookup tids t = some ts ↔ ts ∈ tids ∧ ts.tid = t := by
  constructor
  · intro h
    exact ⟨List.mem_of_find?_eq_some h, lookup_tid h⟩
  · rintro ⟨hmem, rfl⟩
    cases hl : lookup tids ts.tid with
    | none => exact absurd rfl (lookup_eq_none_iff.mp hl ts hmem)
    | some ts' =>
        -- two slots of one tid are one slot
        have heq := List.inj_on_of_nodup_map hd (List.mem_of_find?_eq_some hl) hmem (lookup_tid hl)
        rw [heq]

theorem slotOf_eq_none_iff {tids : List TidState} {t : Int} :
    slotOf tids t = none ↔ lookup tids t = none := by
  simp [slotOf, lookup, List.findIdx?_eq_none_iff, List.find?_eq_none]

theorem slotOf_spec {tids : List TidState} {t : Int} {i : Nat} (h : slotOf tids t = some i) :
    ∃ ts, tids[i]? = some ts ∧ lookup tids t = some ts := by
  obtain ⟨hlt, hp, hmin⟩ := List.findIdx?_eq_some_iff_getElem.mp h
  refine ⟨tids[i], List.getElem?_eq_getElem hlt, ?_⟩
  rw [lookup, List.find?_eq_some_iff_getElem]
  exact ⟨hp, i, hlt, rfl, fun j hj => by simpa using hmin j hj⟩

/-! ## `find_or_add_tid` -/

/-- The three outcomes: the slot that is there, a fresh one, or a full table. -/
theorem findOrAddTid_cases (tids : List TidState) (t : Int) :
    (∃ i ts, findOrAddTid tids t = (tids, some (i, false)) ∧ tids[i]? = some ts ∧ lookup tids t = some ts) ∨
    (lookup tids t = none ∧ tids.length < maxTrackedTids ∧
      findOrAddTid tids t = (tids ++ [TidState.fresh t], some (tids.length, true))) ∨
    (lookup tids t = none ∧ maxTrackedTids ≤ tids.length ∧ findOrAddTid tids t = (tids, none)) := by
  unfold findOrAddTid
  cases hs : slotOf tids t with
  | some i =>
      obtain ⟨ts, hi, hl⟩ := slotOf_spec hs
      exact .inl ⟨i, ts, rfl, hi, hl⟩
  | none =>
      have hl := slotOf_eq_none_iff.mp hs
      by_cases hfull : maxTrackedTids ≤ tids.length
      · exact .inr (.inr ⟨hl, hfull, by rw [if_pos hfull]⟩)
      · exact .inr (.inl ⟨hl, by omega, by rw [if_neg hfull]⟩)

theorem lookup_append_fresh {tids : List TidState} {t : Int} (h : lookup tids t = none) (u : Int) :
    lookup (tids ++ [TidState.fresh t]) u = if u = t then some (TidState.fresh t) else lookup tids u := by
  unfold lookup at h ⊢
  rw [List.find?_append]
  by_cases hu : u = t
  · subst hu
    rw [if_pos rfl, h]
    simp [TidState.fresh]
  · rw [if_neg hu]
    have hne : ¬ t = u := fun heq => hu heq.symm
    simp [TidState.fresh, hne]

theorem Distinct.append_fresh {tids : List TidState} (hd : Distinct tids) {t : Int}
    (h : lookup tids t = none) : Distinct (tids ++ [TidState.fresh t]) := by
  unfold Distinct at hd ⊢
  rw [List.map_append, List.nodup_append]
  refine ⟨hd, by simp, ?_⟩
  intro a ha b hb
  obtain ⟨ts, hts, rfl⟩ := List.mem_map.mp ha
  have hb' : b = t := by simpa [TidState.fresh] using hb
  rw [hb']
  exact lookup_eq_none_iff.mp h ts hts

/-- Only the tid asked for can change, and only from absent to fresh. -/
theorem lookup_findOrAddTid (tids : List TidState) (t u : Int) :
    lookup (findOrAddTid tids t).1 u = lookup tids u ∨
      (u = t ∧ lookup tids t = none ∧ lookup (findOrAddTid tids t).1 t = some (TidState.fresh t)) := by
  rcases findOrAddTid_cases tids t with ⟨i, ts, heq, -, -⟩ | ⟨hl, -, heq⟩ | ⟨-, -, heq⟩
  · exact .inl (by rw [heq])
  · rw [heq]
    by_cases hu : u = t
    · exact .inr ⟨hu, hl, by rw [lookup_append_fresh hl, if_pos rfl]⟩
    · exact .inl (by rw [lookup_append_fresh hl, if_neg hu])
  · exact .inl (by rw [heq])

theorem length_findOrAddTid_le {tids : List TidState} (h : tids.length ≤ maxTrackedTids) (t : Int) :
    (findOrAddTid tids t).1.length ≤ maxTrackedTids := by
  rcases findOrAddTid_cases tids t with ⟨i, ts, heq, -, -⟩ | ⟨-, hroom, heq⟩ | ⟨-, -, heq⟩
  · rw [heq]; exact h
  · rw [heq, List.length_append, List.length_singleton]
    omega
  · rw [heq]; exact h

theorem Distinct.findOrAddTid {tids : List TidState} (hd : Distinct tids) (t : Int) :
    Distinct (findOrAddTid tids t).1 := by
  rcases findOrAddTid_cases tids t with ⟨i, ts, heq, -, -⟩ | ⟨hl, -, heq⟩ | ⟨-, -, heq⟩
  · rw [heq]; exact hd
  · rw [heq]; exact hd.append_fresh hl
  · rw [heq]; exact hd

/-- Adding threads keeps what is held. -/
theorem held_findOrAddTid {tids : List TidState} {u : Int} (h : lookup tids u ≠ none) (t : Int) :
    lookup (findOrAddTid tids t).1 u ≠ none := by
  rcases lookup_findOrAddTid tids t u with heq | ⟨rfl, -, hfresh⟩
  · rw [heq]; exact h
  · rw [hfresh]; simp

/-- The reporter has a slot once `find_or_add_tid` found room. -/
theorem lookup_self_findOrAddTid {tids : List TidState} {t : Int} (hroom : (findOrAddTid tids t).2 ≠ none) :
    lookup (findOrAddTid tids t).1 t ≠ none := by
  rcases findOrAddTid_cases tids t with ⟨i, ts, heq, -, hl⟩ | ⟨hl, -, heq⟩ | ⟨-, -, heq⟩
  · rw [heq, hl]; simp
  · rw [heq, lookup_append_fresh hl, if_pos rfl]; simp
  · rw [heq] at hroom; exact absurd rfl hroom

theorem findOrAddTid_room {tids : List TidState} (h : tids.length < maxTrackedTids) (t : Int) :
    (findOrAddTid tids t).2 ≠ none := by
  rcases findOrAddTid_cases tids t with ⟨i, ts, heq, -, -⟩ | ⟨-, -, heq⟩ | ⟨-, hfull, -⟩
  · rw [heq]; exact Option.some_ne_none _
  · rw [heq]; exact Option.some_ne_none _
  · omega

/-- With room, just the thread asked for joins the table. -/
theorem held_findOrAddTid_iff {tids : List TidState} (h : tids.length < maxTrackedTids) (t u : Int) :
    lookup (findOrAddTid tids t).1 u ≠ none ↔ u = t ∨ lookup tids u ≠ none := by
  constructor
  · intro hu
    rcases lookup_findOrAddTid tids t u with heq | ⟨ht, -, -⟩
    · rw [heq] at hu
      exact .inr hu
    · exact .inl ht
  · rintro (rfl | hu)
    · exact lookup_self_findOrAddTid (findOrAddTid_room h u)
    · exact held_findOrAddTid hu t

/-! ## Writing a slot -/

theorem Distinct.set {tids : List TidState} (hd : Distinct tids) {i : Nat} {ts ts' : TidState}
    (hi : tids[i]? = some ts) (ht : ts'.tid = ts.tid) : Distinct (tids.set i ts') := by
  obtain ⟨hlt, rfl⟩ := List.getElem?_eq_some_iff.mp hi
  have hmap : (tids.set i ts').map (·.tid) = tids.map (·.tid) := by
    have hself : (tids.map (·.tid)).set i tids[i].tid = tids.map (·.tid) := by
      have h := @List.set_getElem_self _ (tids.map (·.tid)) i (by simpa using hlt)
      simpa using h
    rw [List.map_set, ht, hself]
  unfold Distinct
  rw [hmap]
  exact hd

/-- Writing a slot changes the state of its tid only. -/
theorem lookup_set {tids : List TidState} (hd : Distinct tids) {i : Nat} {ts ts' : TidState}
    (hi : tids[i]? = some ts) (ht : ts'.tid = ts.tid) (u : Int) :
    lookup (tids.set i ts') u = if u = ts.tid then some ts' else lookup tids u := by
  have hd' := hd.set hi ht
  obtain ⟨hlt, rfl⟩ := List.getElem?_eq_some_iff.mp hi
  by_cases hu : u = tids[i].tid
  · rw [if_pos hu, lookup_eq_some_iff hd']
    exact ⟨List.mem_set hlt ts', by rw [ht, hu]⟩
  · rw [if_neg hu]
    have hiff : ∀ x, lookup (tids.set i ts') u = some x ↔ lookup tids u = some x := by
      intro x
      rw [lookup_eq_some_iff hd', lookup_eq_some_iff hd]
      constructor
      · rintro ⟨hmem, rfl⟩
        rcases List.mem_or_eq_of_mem_set hmem with h | rfl
        · exact ⟨h, rfl⟩
        · exact absurd ht hu
      · rintro ⟨hmem, rfl⟩
        obtain ⟨j, hj, rfl⟩ := List.getElem_of_mem hmem
        have hne : i ≠ j := by rintro rfl; exact hu rfl
        refine ⟨?_, rfl⟩
        have hget : (tids.set i ts')[j]? = some tids[j] := by
          rw [List.getElem?_set_ne hne, List.getElem?_eq_getElem hj]
        exact List.mem_of_getElem? hget
    exact Option.ext hiff

/-! ## `remove_tid` -/

/-- Moving the last slot into the hole is erasing the slot, up to order. -/
theorem removeTid_perm {tids : List TidState} {t : Int} {i : Nat} (h : slotOf tids t = some i) :
    (removeTid tids t).Perm (tids.eraseIdx i) := by
  obtain ⟨ts, hi, -⟩ := slotOf_spec h
  obtain ⟨hlt, -⟩ := List.getElem?_eq_some_iff.mp hi
  unfold removeTid
  rw [h]
  rcases List.eq_nil_or_concat tids with rfl | ⟨l, last, rfl⟩
  · simp at hlt
  · simp only [List.concat_eq_append, List.getLast?_append, List.getLast?_singleton, Option.some_or]
    rw [List.concat_eq_append, List.length_append, List.length_singleton] at hlt
    by_cases heq : i = l.length
    · -- the slot removed is the last one
      subst heq
      rw [List.set_append_right _ _ (Nat.le_refl _), List.eraseIdx_append_of_length_le (Nat.le_refl _)]
      simp
    · have hl : i < l.length := by omega
      rw [List.set_append_left _ _ hl, List.dropLast_concat, List.eraseIdx_append_of_lt_length hl,
        List.set_eq_take_append_cons_drop, if_pos hl, List.eraseIdx_eq_take_drop_succ, List.append_assoc]
      exact List.Perm.append_left _ (List.perm_append_singleton _ _).symm

theorem Distinct.removeTid {tids : List TidState} (hd : Distinct tids) (t : Int) :
    Distinct (removeTid tids t) := by
  cases h : slotOf tids t with
  | none => rw [Tracer.removeTid, h]; exact hd
  | some i =>
      have hsub : ((tids.eraseIdx i).map (·.tid)).Sublist (tids.map (·.tid)) :=
        (List.eraseIdx_sublist tids i).map _
      exact ((removeTid_perm h).map (·.tid)).nodup_iff.mpr (hd.sublist hsub)

/-- Removing a tid forgets its state and no other. -/
theorem lookup_removeTid {tids : List TidState} (hd : Distinct tids) (t u : Int) :
    lookup (removeTid tids t) u = if u = t then none else lookup tids u := by
  have hd' := hd.removeTid t
  cases h : slotOf tids t with
  | none =>
      have hl := slotOf_eq_none_iff.mp h
      rw [removeTid, h]
      by_cases hu : u = t
      · rw [if_pos hu, hu, hl]
      · rw [if_neg hu]
  | some i =>
      obtain ⟨ts, hi, hl⟩ := slotOf_spec h
      have hperm := removeTid_perm h
      have ht := lookup_tid hl
      have hmem : ∀ x, x ∈ removeTid tids t ↔ x ∈ tids ∧ x.tid ≠ t := by
        intro x
        rw [hperm.mem_iff, List.mem_eraseIdx_iff_getElem?]
        constructor
        · rintro ⟨j, hne, hj⟩
          refine ⟨List.mem_of_getElem? hj, ?_⟩
          intro hx
          -- a second slot of `t` would have the same index
          have heq : x = ts := List.inj_on_of_nodup_map hd (List.mem_of_getElem? hj)
            (List.mem_of_getElem? hi) (by rw [hx, ht])
          obtain ⟨hjlt, hjx⟩ := List.getElem?_eq_some_iff.mp hj
          obtain ⟨hilt, hix⟩ := List.getElem?_eq_some_iff.mp hi
          have hnd : tids.Nodup := List.Nodup.of_map _ hd
          exact hne (hnd.getElem_inj_iff.mp (by rw [hjx, hix, heq]))
        · rintro ⟨hx, hxt⟩
          obtain ⟨j, hj, rfl⟩ := List.getElem_of_mem hx
          refine ⟨j, ?_, List.getElem?_eq_getElem hj⟩
          rintro rfl
          rw [List.getElem?_eq_getElem hj] at hi
          exact hxt (by rw [Option.some.inj hi, ht])
      refine Option.ext fun x => ?_
      rw [lookup_eq_some_iff hd', hmem]
      by_cases hu : u = t
      · rw [if_pos hu]
        constructor
        · rintro ⟨⟨-, hne⟩, hx⟩; exact absurd (hx.trans hu) hne
        · intro hx; cases hx
      · rw [if_neg hu, lookup_eq_some_iff hd]
        constructor
        · rintro ⟨⟨hx, -⟩, hxu⟩; exact ⟨hx, hxu⟩
        · rintro ⟨hx, rfl⟩; exact ⟨⟨hx, hu⟩, rfl⟩

/-- The table after the exit of a thread: its slot, found or made, is gone. -/
theorem lookup_gone {tids : List TidState} (hd : Distinct tids) (t u : Int) :
    lookup (removeTid (findOrAddTid tids t).1 t) u = if u = t then none else lookup tids u := by
  rw [lookup_removeTid (hd.findOrAddTid t)]
  split
  · rfl
  case isFalse hut =>
    rcases lookup_findOrAddTid tids t u with heq | ⟨heq, -⟩
    · exact heq
    · exact absurd heq hut

theorem isEmpty_iff_lookup {tids : List TidState} : tids.isEmpty = true ↔ ∀ u, lookup tids u = none := by
  rw [List.isEmpty_iff]
  constructor
  · rintro rfl u
    rfl
  · intro h
    by_contra hne
    obtain ⟨ts, hts⟩ := List.exists_mem_of_ne_nil _ hne
    exact lookup_eq_none_iff.mp (h ts.tid) ts hts rfl

/-! ## The seize loop -/

/-- Only the tid that was seized can change, to a fresh slot or to none. -/
theorem lookup_seizeTid {tids : List TidState} (hd : Distinct tids) (t : Int) (resumed : Bool) (u : Int) :
    lookup (seizeTid tids t resumed) u = lookup tids u ∨
      (u = t ∧ (lookup (seizeTid tids t resumed) u = none ∨
        lookup (seizeTid tids t resumed) u = some (TidState.fresh t))) := by
  have hadd := hd.findOrAddTid t
  have hlook := lookup_findOrAddTid tids t u
  rw [seizeTid]
  rcases hf : findOrAddTid tids t with ⟨tids', _ | slot⟩
  · rw [hf] at hlook
    rcases hlook with h | ⟨rfl, -, h⟩
    · exact .inl h
    · exact .inr ⟨rfl, .inr h⟩
  · rw [hf] at hlook hadd
    cases resumed with
    | true =>
        rcases hlook with h | ⟨rfl, -, h⟩
        · exact .inl h
        · exact .inr ⟨rfl, .inr h⟩
    | false =>
        simp only [Bool.false_eq_true, if_false]
        rw [lookup_removeTid hadd]
        by_cases hu : u = t
        · exact .inr ⟨hu, .inl (if_pos hu)⟩
        · rw [if_neg hu]
          rcases hlook with h | ⟨h, -, -⟩
          · exact .inl h
          · exact absurd h hu

theorem Distinct.seizeTid {tids : List TidState} (hd : Distinct tids) (t : Int) (resumed : Bool) :
    Distinct (seizeTid tids t resumed) := by
  have hadd := hd.findOrAddTid t
  rw [Tracer.seizeTid]
  rcases hf : Tracer.findOrAddTid tids t with ⟨tids', _ | slot⟩
  · rw [hf] at hadd; exact hadd
  · rw [hf] at hadd
    cases resumed with
    | true => exact hadd
    | false => exact hadd.removeTid t

end Tracer
end Hsed
