import Hsed.Lib.Json

/-!
# `Lib.JsonCut` — JSON texts that break off

What a parser has read of a text stays read when the text goes on (`parse_append`): only a number can
grow. An object ends with its own brace, so no proper beginning of a printed object is a JSON text
(`unmarshal_prefix`).
-/

namespace Json

open CLib

/-! ## Lexical parts -/

theorem skipWs_append {s t : Bytes} {c : UInt8} (h : skipWs s = c :: t) (u : Bytes) :
    skipWs (s ++ u) = c :: (t ++ u) := by
  have hne : s.dropWhile isWs ≠ [] := by
    intro hnil
    rw [skipWs, hnil] at h
    cases h
  rw [skipWs, dropWhile_prefix_append hne]
  exact congrArg (· ++ u) h

theorem skipWs_append_of_ne_nil {s : Bytes} (h : skipWs s ≠ []) (u : Bytes) : skipWs (s ++ u) = skipWs s ++ u := by
  cases hs : skipWs s with
  | nil => exact absurd hs h
  | cons c t => exact skipWs_append hs u

theorem escapeLen_append {s : Bytes} (h : escapeLen s ≠ 0) (u : Bytes) : escapeLen (s ++ u) = escapeLen s := by
  cases s with
  | nil => exact absurd rfl h
  | cons c s =>
      simp only [escapeLen, List.cons_append] at h ⊢
      split
      · rfl
      next hc =>
        rw [if_neg hc] at h
        split
        next hu =>
          rw [if_pos hu] at h
          -- the four digits are there
          rcases s with _ | ⟨h₁, _ | ⟨h₂, _ | ⟨h₃, _ | ⟨h₄, s⟩⟩⟩⟩
          case cons.cons.cons.cons => rfl
          all_goals exact absurd rfl h
        · rfl

theorem scanAux_append (u : Bytes) {s : Bytes} : ∀ {k : Nat} {raw rest : Bytes},
    scanAux k s = some (raw, rest) → scanAux k (s ++ u) = some (raw, rest ++ u) := by
  induction s with
  | nil => intro k raw rest h; cases k <;> cases h
  | cons b s ih =>
      -- a byte that only passes through
      have hpass : ∀ {k : Nat} {raw rest : Bytes},
          ((scanAux k s).map fun p => (b :: p.1, p.2)) = some (raw, rest) →
          ((scanAux k (s ++ u)).map fun p => (b :: p.1, p.2)) = some (raw, rest ++ u) := by
        intro k raw rest h
        obtain ⟨⟨raw', rest'⟩, hs, heq⟩ := Option.map_eq_some_iff.mp h
        obtain ⟨rfl, rfl⟩ := Prod.mk.inj heq
        rw [ih hs]
        rfl
      intro k raw rest h
      cases k with
      | succ k =>
          rw [List.cons_append, scanAux]
          exact hpass h
      | zero =>
          rw [scanAux] at h
          rw [List.cons_append, scanAux]
          split at h
          next hq =>
            rw [if_pos hq]
            obtain ⟨rfl, rfl⟩ := Prod.mk.inj (Option.some.inj h)
            rfl
          next hq =>
            rw [if_neg hq]
            split at h
            next hesc =>
              rw [if_pos hesc]
              split at h
              · cases h
              next hlen =>
                rw [escapeLen_append hlen, if_neg hlen]
                exact hpass h
            next hesc =>
              rw [if_neg hesc]
              split at h
              · cases h
              next hctl =>
                rw [if_neg hctl]
                exact hpass h

theorem parseStr_append {s str rest : Bytes} (h : parseStr s = some (str, rest)) (u : Bytes) :
    parseStr (s ++ u) = some (str, rest ++ u) := by
  obtain ⟨⟨raw, rest'⟩, hs, heq⟩ := Option.map_eq_some_iff.mp h
  obtain ⟨rfl, rfl⟩ := Prod.mk.inj heq
  rw [parseStr, scanStr, scanAux_append u hs]
  rfl

theorem keyword_append {w s rest : Bytes} (h : keyword w s = some rest) (u : Bytes) :
    keyword w (s ++ u) = some (rest ++ u) := by
  unfold keyword at h ⊢
  split at h
  next hp =>
    rw [List.isPrefixOf_iff_prefix] at hp
    rw [if_pos (List.isPrefixOf_iff_prefix.mpr (hp.trans (List.prefix_append s u))),
      List.drop_append_of_le_length hp.length_le, Option.some.inj h]
  · cases h

/-! ## Numbers: something must follow -/

theorem digits1_append {s ds rest : Bytes} (h : digits1 s = some (ds, rest)) (hne : rest ≠ []) (u : Bytes) :
    digits1 (s ++ u) = some (ds, rest ++ u) := by
  unfold digits1 at h ⊢
  rcases takeWhile_append_eq isDigit s u with ⟨hdrop, htake⟩ | ⟨hself, -, -⟩
  · rw [htake, dropWhile_prefix_append hdrop]
    split at h
    · cases h
    · obtain ⟨rfl, rfl⟩ := Prod.mk.inj (Option.some.inj h)
      rfl
  · -- all digits: nothing is left
    exfalso
    split at h
    · cases h
    · obtain ⟨-, rfl⟩ := Prod.mk.inj (Option.some.inj h)
      apply hne
      have happ := List.takeWhile_append_dropWhile (p := isDigit) (l := s)
      rw [hself] at happ
      exact List.append_right_eq_self.mp happ

theorem intPart_append {s i rest : Bytes} (h : intPart s = some (i, rest)) (hne : rest ≠ []) (u : Bytes) :
    intPart (s ++ u) = some (i, rest ++ u) := by
  cases s with
  | nil => cases h
  | cons b s =>
      rw [intPart] at h
      rw [List.cons_append, intPart]
      split at h
      next hb =>
        rw [if_pos hb]
        obtain ⟨rfl, rfl⟩ := Prod.mk.inj (Option.some.inj h)
        rfl
      next hb =>
        rw [if_neg hb]
        exact digits1_append h hne u

theorem map_digits1_append {g : Bytes → Bytes} {s ds rest : Bytes}
    (h : ((digits1 s).map fun (ds, rest) => (g ds, rest)) = some (ds, rest)) (hne : rest ≠ []) (u : Bytes) :
    ((digits1 (s ++ u)).map fun (ds, rest) => (g ds, rest)) = some (ds, rest ++ u) := by
  obtain ⟨⟨ds', rest'⟩, hs, heq⟩ := Option.map_eq_some_iff.mp h
  obtain ⟨rfl, rfl⟩ := Prod.mk.inj heq
  rw [digits1_append hs hne]
  rfl

theorem fracPart_append {s f rest : Bytes} (h : fracPart s = some (f, rest)) (hne : rest ≠ []) (u : Bytes) :
    fracPart (s ++ u) = some (f, rest ++ u) := by
  cases s with
  | nil =>
      obtain ⟨-, rfl⟩ := Prod.mk.inj (Option.some.inj h)
      exact absurd rfl hne
  | cons b s =>
      rw [fracPart] at h
      rw [List.cons_append, fracPart]
      split at h
      next hb =>
        rw [if_pos hb]
        exact map_digits1_append (g := (b :: ·)) h hne u
      next hb =>
        rw [if_neg hb]
        obtain ⟨rfl, rfl⟩ := Prod.mk.inj (Option.some.inj h)
        rfl

theorem expPart_append {s e rest : Bytes} (h : expPart s = some (e, rest)) (hne : rest ≠ []) (u : Bytes) :
    expPart (s ++ u) = some (e, rest ++ u) := by
  cases s with
  | nil =>
      obtain ⟨-, rfl⟩ := Prod.mk.inj (Option.some.inj h)
      exact absurd rfl hne
  | cons b s =>
      simp only [expPart] at h
      simp only [List.cons_append, expPart]
      split at h
      next hb =>
        rw [if_pos hb]
        cases s with
        | nil => cases h
        | cons c s =>
            simp only [List.cons_append] at h ⊢
            split at h
            next hc =>
              rw [if_pos hc]
              exact map_digits1_append (g := (b :: c :: ·)) h hne u
            next hc =>
              rw [if_neg hc]
              exact map_digits1_append (g := (b :: ·)) h hne u
      next hb =>
        rw [if_neg hb]
        obtain ⟨rfl, rfl⟩ := Prod.mk.inj (Option.some.inj h)
        rfl

/-- The parts of a number only shrink what is left, so something follows each of them. -/
theorem fracPart_ne_nil {s f rest : Bytes} (h : fracPart s = some (f, rest)) (hne : rest ≠ []) : s ≠ [] := by
  rintro rfl
  obtain ⟨-, rfl⟩ := Prod.mk.inj (Option.some.inj h)
  exact hne rfl

theorem expPart_ne_nil {s e rest : Bytes} (h : expPart s = some (e, rest)) (hne : rest ≠ []) : s ≠ [] := by
  rintro rfl
  obtain ⟨-, rfl⟩ := Prod.mk.inj (Option.some.inj h)
  exact hne rfl

theorem parseUnsigned_append {s lit rest : Bytes} (h : parseUnsigned s = some (lit, rest)) (hne : rest ≠ [])
    (u : Bytes) : parseUnsigned (s ++ u) = some (lit, rest ++ u) := by
  unfold parseUnsigned at h ⊢
  obtain ⟨⟨i, s₁⟩, hi, h⟩ := Option.bind_eq_some_iff.mp h
  obtain ⟨⟨f, s₂⟩, hf, h⟩ := Option.bind_eq_some_iff.mp h
  obtain ⟨⟨e, s₃⟩, he, h⟩ := Option.bind_eq_some_iff.mp h
  obtain ⟨rfl, rfl⟩ := Prod.mk.inj (Option.some.inj h)
  have hne₂ := expPart_ne_nil he hne
  have hne₁ := fracPart_ne_nil hf hne₂
  simp only [intPart_append hi hne₁, fracPart_append hf hne₂, expPart_append he hne, Option.bind_eq_bind,
    Option.bind_some]
  rfl

theorem parseNumber_append {s lit rest : Bytes} (h : parseNumber s = some (lit, rest)) (hne : rest ≠ [])
    (u : Bytes) : parseNumber (s ++ u) = some (lit, rest ++ u) := by
  cases s with
  | nil => cases h
  | cons b s =>
      rw [parseNumber] at h
      rw [List.cons_append, parseNumber]
      split at h
      next hb =>
        obtain ⟨⟨lit', rest'⟩, hs, heq⟩ := Option.map_eq_some_iff.mp h
        obtain ⟨rfl, rfl⟩ := Prod.mk.inj heq
        rw [if_pos hb, parseUnsigned_append hs hne]
        rfl
      next hb =>
        rw [if_neg hb]
        exact parseUnsigned_append h hne u

/-! ## Values -/

/-- A value that does not end with its text, unless it carries its own end. -/
def Closed (v : Value) (rest : Bytes) : Prop := (∃ lit, v = .num lit) → rest ≠ []

theorem closed_of_ne_nil {v : Value} {rest : Bytes} (h : rest ≠ []) : Closed v rest := fun _ => h

/-- The three claims of `parse_append` at one amount of fuel. -/
structure Stable (fuel : Nat) : Prop where
  value : ∀ {depth s v rest}, parseValue fuel depth s = some (v, rest) → Closed v rest →
    ∀ k u, parseValue (fuel + k) depth (s ++ u) = some (v, rest ++ u)
  members : ∀ {depth s kvs rest}, parseMembers fuel depth s = some (kvs, rest) →
    ∀ k u, parseMembers (fuel + k) depth (s ++ u) = some (kvs, rest ++ u)
  elems : ∀ {depth s vs rest}, parseElems fuel depth s = some (vs, rest) →
    ∀ k u, parseElems (fuel + k) depth (s ++ u) = some (vs, rest ++ u)

theorem ne_nil_of_skipWs {s t : Bytes} {c : UInt8} (h : skipWs s = c :: t) : s ≠ [] := by
  rintro rfl
  cases h

theorem parseValue_ne_nil {fuel depth : Nat} {s rest : Bytes} {v : Value}
    (h : parseValue fuel depth s = some (v, rest)) : s ≠ [] := by
  rintro rfl
  cases fuel <;> cases h

theorem parseMembers_ne_nil {fuel depth : Nat} {s rest : Bytes} {kvs : List (Bytes × Value)}
    (h : parseMembers fuel depth s = some (kvs, rest)) : s ≠ [] := by
  rintro rfl
  cases fuel <;> cases h

theorem parseElems_ne_nil {fuel depth : Nat} {s rest : Bytes} {vs : List Value}
    (h : parseElems fuel depth s = some (vs, rest)) : s ≠ [] := by
  rintro rfl
  cases fuel with
  | zero => cases h
  | succ fuel => cases fuel <;> cases h

theorem Stable.succ_members {fuel : Nat} (ih : Stable fuel) {depth : Nat} {s rest : Bytes}
    {kvs : List (Bytes × Value)} (h : parseMembers (fuel + 1) depth s = some (kvs, rest)) (k : Nat) (u : Bytes) :
    parseMembers (fuel + 1 + k) depth (s ++ u) = some (kvs, rest ++ u) := by
  rw [Nat.add_right_comm]
  cases s with
  | nil => cases h
  | cons b s =>
      simp only [parseMembers] at h
      simp only [List.cons_append, parseMembers]
      split at h
      · cases h
      next hb =>
        rw [if_neg hb]
        split at h
        · cases h
        next key s₁ hkey =>
          simp only [parseStr_append hkey]
          split at h
          · cases h
          next c s₂ hws =>
            simp only [skipWs_append hws]
            split at h
            · cases h
            next hc =>
              rw [if_neg hc]
              split at h
              · cases h
              next v s₃ hv =>
                split at h
                · cases h
                next d s₄ hws' =>
                  -- the value is followed by the byte `d`
                  have hv' := ih.value hv (closed_of_ne_nil (ne_nil_of_skipWs hws')) k u
                  rw [← skipWs_append_of_ne_nil (parseValue_ne_nil hv)] at hv'
                  simp only [hv', skipWs_append hws']
                  split at h
                  next hd =>
                    rw [if_pos hd]
                    obtain ⟨rfl, rfl⟩ := Prod.mk.inj (Option.some.inj h)
                    rfl
                  next hd =>
                    rw [if_neg hd]
                    split at h
                    next hd' =>
                      rw [if_pos hd']
                      obtain ⟨⟨kvs', rest'⟩, hm, heq⟩ := Option.map_eq_some_iff.mp h
                      obtain ⟨rfl, rfl⟩ := Prod.mk.inj heq
                      rw [skipWs_append_of_ne_nil (parseMembers_ne_nil hm), ih.members hm k u]
                      rfl
                    · cases h

theorem Stable.succ_elems {fuel : Nat} (ih : Stable fuel) {depth : Nat} {s rest : Bytes} {vs : List Value}
    (h : parseElems (fuel + 1) depth s = some (vs, rest)) (k : Nat) (u : Bytes) :
    parseElems (fuel + 1 + k) depth (s ++ u) = some (vs, rest ++ u) := by
  rw [Nat.add_right_comm]
  simp only [parseElems] at h ⊢
  split at h
  · cases h
  next v s₁ hv =>
    split at h
    · cases h
    next c s₂ hws =>
      have hv' := ih.value hv (closed_of_ne_nil (ne_nil_of_skipWs hws)) k u
      simp only [hv', skipWs_append hws]
      split at h
      next hc =>
        rw [if_pos hc]
        obtain ⟨rfl, rfl⟩ := Prod.mk.inj (Option.some.inj h)
        rfl
      next hc =>
        rw [if_neg hc]
        split at h
        next hc' =>
          rw [if_pos hc']
          obtain ⟨⟨vs', rest'⟩, hm, heq⟩ := Option.map_eq_some_iff.mp h
          obtain ⟨rfl, rfl⟩ := Prod.mk.inj heq
          rw [skipWs_append_of_ne_nil (parseElems_ne_nil hm), ih.elems hm k u]
          rfl
        · cases h

/-- Strings, keywords and numbers. -/
theorem parseScalar_append {b : UInt8} {s rest : Bytes} {v : Value}
    (h : (if b = 0x22 then (parseStr s).map fun (str, rest) => (Value.str str, rest)
      else if b = 0x6e then (keyword (ascii "ull") s).map fun rest => (.null, rest)
      else if b = 0x74 then (keyword (ascii "rue") s).map fun rest => (.bool true, rest)
      else if b = 0x66 then (keyword (ascii "alse") s).map fun rest => (.bool false, rest)
      else (parseNumber (b :: s)).map fun (lit, rest) => (.num lit, rest)) = some (v, rest))
    (hc : Closed v rest) (u : Bytes) :
    (if b = 0x22 then (parseStr (s ++ u)).map fun (str, rest) => (Value.str str, rest)
      else if b = 0x6e then (keyword (ascii "ull") (s ++ u)).map fun rest => (.null, rest)
      else if b = 0x74 then (keyword (ascii "rue") (s ++ u)).map fun rest => (.bool true, rest)
      else if b = 0x66 then (keyword (ascii "alse") (s ++ u)).map fun rest => (.bool false, rest)
      else (parseNumber (b :: (s ++ u))).map fun (lit, rest) => (.num lit, rest)) = some (v, rest ++ u) := by
  -- the three keywords
  have hkey : ∀ {w : Bytes} {x : Value}, ((keyword w s).map fun rest => (x, rest)) = some (v, rest) →
      ((keyword w (s ++ u)).map fun rest => (x, rest)) = some (v, rest ++ u) := by
    intro w x hw
    obtain ⟨rest', hk, heq⟩ := Option.map_eq_some_iff.mp hw
    obtain ⟨rfl, rfl⟩ := Prod.mk.inj heq
    rw [keyword_append hk]
    rfl
  split at h
  next hb =>
    rw [if_pos hb]
    obtain ⟨⟨str, rest'⟩, hstr, heq⟩ := Option.map_eq_some_iff.mp h
    obtain ⟨rfl, rfl⟩ := Prod.mk.inj heq
    rw [parseStr_append hstr]
    rfl
  next hb =>
    rw [if_neg hb]
    split at h
    next hn => rw [if_pos hn]; exact hkey h
    next hn =>
      rw [if_neg hn]
      split at h
      next ht => rw [if_pos ht]; exact hkey h
      next ht =>
        rw [if_neg ht]
        split at h
        next hf => rw [if_pos hf]; exact hkey h
        next hf =>
          -- a number ends where something else begins
          obtain ⟨⟨lit, rest'⟩, hnum, heq⟩ := Option.map_eq_some_iff.mp h
          obtain ⟨rfl, rfl⟩ := Prod.mk.inj heq
          have hnum' := parseNumber_append hnum (hc ⟨lit, rfl⟩) u
          rw [List.cons_append] at hnum'
          rw [if_neg hf, hnum']
          rfl

theorem Stable.succ_value {fuel : Nat} (ih : Stable fuel) {depth : Nat} {s rest : Bytes} {v : Value}
    (h : parseValue (fuel + 1) depth s = some (v, rest)) (hc : Closed v rest) (k : Nat) (u : Bytes) :
    parseValue (fuel + 1 + k) depth (s ++ u) = some (v, rest ++ u) := by
  rw [Nat.add_right_comm]
  cases s with
  | nil => cases h
  | cons b s =>
      simp only [parseValue] at h
      simp only [List.cons_append, parseValue]
      split at h
      next hb =>
        -- an object
        rw [if_pos hb]
        split at h
        · cases h
        next hdepth =>
          rw [if_neg hdepth]
          split at h
          · cases h
          next c t hws =>
            simp only [skipWs_append hws]
            split at h
            next hbrace =>
              rw [if_pos hbrace]
              obtain ⟨rfl, rfl⟩ := Prod.mk.inj (Option.some.inj h)
              rfl
            next hbrace =>
              obtain ⟨⟨kvs, rest'⟩, hm, heq⟩ := Option.map_eq_some_iff.mp h
              obtain ⟨rfl, rfl⟩ := Prod.mk.inj heq
              have hm' := ih.members hm k u
              rw [List.cons_append] at hm'
              rw [if_neg hbrace, hm']
              rfl
      next hb =>
        rw [if_neg hb]
        split at h
        next hb₁ =>
          -- an array
          rw [if_pos hb₁]
          split at h
          · cases h
          next hdepth =>
            rw [if_neg hdepth]
            split at h
            · cases h
            next c t hws =>
              simp only [skipWs_append hws]
              split at h
              next hbracket =>
                rw [if_pos hbracket]
                obtain ⟨rfl, rfl⟩ := Prod.mk.inj (Option.some.inj h)
                rfl
              next hbracket =>
                obtain ⟨⟨vs, rest'⟩, hm, heq⟩ := Option.map_eq_some_iff.mp h
                obtain ⟨rfl, rfl⟩ := Prod.mk.inj heq
                have hm' := ih.elems hm k u
                rw [List.cons_append] at hm'
                rw [if_neg hbracket, hm']
                rfl
        next hb₁ =>
          rw [if_neg hb₁]
          exact parseScalar_append h hc u

/-- **More text.** What was read of a text is read of every longer one, unless it was a number at its end. -/
theorem parse_append (fuel : Nat) : Stable fuel := by
  induction fuel with
  | zero =>
      constructor
      · intro depth s v rest h
        cases h
      · intro depth s kvs rest h
        cases h
      · intro depth s vs rest h
        cases h
  | succ fuel ih =>
      constructor
      · intro depth s v rest h hc k u
        exact ih.succ_value h hc k u
      · intro depth s kvs rest h k u
        exact ih.succ_members h k u
      · intro depth s vs rest h k u
        exact ih.succ_elems h k u

/-- What starts with a brace is no number. -/
theorem closed_of_object {fuel depth : Nat} {s rest : Bytes} {v : Value}
    (h : parseValue fuel depth (0x7b :: s) = some (v, rest)) : Closed v rest := by
  rintro ⟨lit, rfl⟩
  cases fuel with
  | zero => cases h
  | succ fuel =>
      simp only [parseValue, if_true] at h
      split at h
      · cases h
      · split at h
        · cases h
        · split at h
          · cases h
          · obtain ⟨⟨kvs, rest'⟩, -, heq⟩ := Option.map_eq_some_iff.mp h
            cases heq

/-- **Broken-off objects.** No proper beginning of a printed object is a JSON text. -/
theorem unmarshal_prefix {ms : List Member} (hne : ms ≠ []) (h : ∀ m ∈ ms, m.Ok) {s : Bytes}
    (hs : s <+: render ms) (hcut : s ≠ render ms) : unmarshal s = none := by
  obtain ⟨t, ht⟩ := hs
  cases s with
  | nil => rfl
  | cons b s =>
      obtain rfl : b = 0x7b := (List.cons.inj ht).1
      have htext := unmarshal_render hne h
      rw [← ht] at htext
      unfold unmarshal at htext ⊢
      rw [List.cons_append, skipWs_cons (by decide), ← List.cons_append] at htext
      rw [skipWs_cons (by decide)]
      split
      · rfl
      next v rest hv =>
        -- read on: the whole text would leave `rest ++ t`, which ends with the brace
        have hv' := (parse_append _).value hv (closed_of_object hv) t.length t
        have hlen : (0x7b :: s ++ t).length + 1 = (0x7b :: s).length + 1 + t.length := by
          rw [List.length_append]
          omega
        rw [hlen, hv'] at htext
        simp only at htext
        split at htext
        next hws =>
          exfalso
          have hne_t : t ≠ [] := by
            rintro rfl
            rw [List.append_nil] at ht
            exact hcut ht
          have hlast : 0x7d ∈ t := by
            have hl : (0x7b :: s ++ t).getLast? = some 0x7d := by
              rw [ht, render, ← List.cons_append, List.getLast?_concat]
            rw [List.getLast?_append_of_ne_nil _ hne_t] at hl
            exact List.mem_of_getLast? hl
          rw [skipWs, List.dropWhile_eq_nil_iff] at hws
          exact absurd (hws 0x7d (List.mem_append_right rest hlast)) (by decide)
        · cases htext

end Json
