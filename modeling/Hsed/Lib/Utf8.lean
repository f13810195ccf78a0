import Hsed.Lib.CLib

/-!
# `Lib.Utf8` — well-formed UTF-8 and what a lenient decoder makes of the rest

`runeLen` recognises the sequence at the head of a byte string (RFC 3629: no overlong forms, no
surrogates, nothing above U+10FFFF). Both readings of a string walk it with the number of bytes still owed
to the current sequence:

* `valid` — every byte belongs to a well-formed sequence;
* `coerce` — each byte that starts no well-formed sequence becomes U+FFFD, the rest is kept; this is how
  Go's decoders treat text.

`coerce_eq_self` is the identity on valid text; `coerce_take` says what is left of a valid text cut
at an arbitrary byte: whole sequences, then one U+FFFD for each byte of the sequence the cut went through.
-/

namespace Utf8

open CLib

/-- `UTF8-tail`. -/
def isTail (b : UInt8) : Bool := 0x80 ≤ b && b ≤ 0xbf

/-- The second byte of a three- or four-byte sequence, given the first. -/
def isSecond (a b : UInt8) : Bool :=
  if a = 0xe0 then 0xa0 ≤ b && b ≤ 0xbf
  else if a = 0xed then 0x80 ≤ b && b ≤ 0x9f
  else if a = 0xf0 then 0x90 ≤ b && b ≤ 0xbf
  else if a = 0xf4 then 0x80 ≤ b && b ≤ 0x8f
  else isTail b

/-- Length of the well-formed sequence at the head, `0` if there is none. -/
def runeLen : Bytes → Nat
  | [] => 0
  | a :: s =>
    if a < 0x80 then 1
    else if 0xc2 ≤ a && a ≤ 0xdf then
      match s with
      | b :: _ => if isTail b then 2 else 0
      | _ => 0
    else if 0xe0 ≤ a && a ≤ 0xef then
      match s with
      | b :: c :: _ => if isSecond a b && isTail c then 3 else 0
      | _ => 0
    else if 0xf0 ≤ a && a ≤ 0xf4 then
      match s with
      | b :: c :: d :: _ => if isSecond a b && isTail c && isTail d then 4 else 0
      | _ => 0
    else 0

/-- U+FFFD. -/
def replacement : Bytes := [0xef, 0xbf, 0xbd]

/-- `coerce` with `k` bytes still owed to the current sequence. -/
def coerceAux : Nat → Bytes → Bytes
  | _, [] => []
  | k + 1, a :: s => a :: coerceAux k s
  | 0, a :: s =>
    match runeLen (a :: s) with
    | 0 => replacement ++ coerceAux 0 s
    | n + 1 => a :: coerceAux n s

def coerce (s : Bytes) : Bytes := coerceAux 0 s

/-- `valid` with `k` bytes still owed to the current sequence. -/
def validAux : Nat → Bytes → Bool
  | 0, [] => true
  | _ + 1, [] => false
  | k + 1, _ :: s => validAux k s
  | 0, a :: s =>
    match runeLen (a :: s) with
    | 0 => false
    | n + 1 => validAux n s

def valid (s : Bytes) : Bool := validAux 0 s

theorem coerceAux_of_validAux {k : Nat} {s : Bytes} (h : validAux k s = true) : coerceAux k s = s := by
  induction s generalizing k with
  | nil => cases k <;> rfl
  | cons a s ih =>
      cases k with
      | succ k =>
          rw [validAux] at h
          rw [coerceAux, ih h]
      | zero =>
          rw [validAux] at h
          rw [coerceAux]
          cases hr : runeLen (a :: s) with
          | zero => rw [hr] at h; cases h
          | succ n =>
              rw [hr] at h
              simp only
              rw [ih h]

/-- Valid text is left alone. -/
theorem coerce_eq_self {s : Bytes} (h : valid s = true) : coerce s = s := coerceAux_of_validAux h

/-- An ASCII byte is a sequence of its own. -/
theorem coerce_cons_ascii {a : UInt8} (h : a < 0x80) (s : Bytes) : coerce (a :: s) = a :: coerce s := by
  unfold coerce
  rw [coerceAux]
  have hr : runeLen (a :: s) = 1 := by simp [runeLen, h]
  rw [hr]

/-! ## Cutting valid text -/

/-- A sequence is recognised by its own bytes alone. -/
theorem runeLen_append {s : Bytes} (h : runeLen s ≠ 0) (t : Bytes) : runeLen (s ++ t) = runeLen s := by
  match s with
  | [] => exact absurd rfl h
  | [a] => simp [runeLen] at h ⊢; grind
  | [a, b] => simp [runeLen] at h ⊢; grind
  | [a, b, c] => simp [runeLen] at h ⊢; grind
  | a :: b :: c :: d :: s => simp [runeLen]

/-- Bytes after the sequence do not matter. -/
theorem runeLen_of_append {s t : Bytes} (h : runeLen (s ++ t) ≤ s.length) :
    runeLen s = runeLen (s ++ t) := by
  match s with
  | [] =>
      simp only [List.nil_append, List.length_nil, nonpos_iff_eq_zero] at h ⊢
      rw [h, runeLen]
  | [a] => simp [runeLen] at h ⊢; grind
  | [a, b] => simp [runeLen] at h ⊢; grind
  | [a, b, c] => simp [runeLen] at h ⊢; grind
  | a :: b :: c :: d :: s => simp [runeLen]

theorem runeLen_le_four (s : Bytes) : runeLen s ≤ 4 := by
  unfold runeLen
  grind

theorem isTail_of_isSecond {a b : UInt8} (h : isSecond a b = true) : isTail b = true := by
  simp only [isSecond, isTail] at h ⊢
  grind

/-- A tail byte starts no sequence. -/
theorem runeLen_tail {b : UInt8} (h : isTail b = true) (s : Bytes) : runeLen (b :: s) = 0 := by
  simp only [isTail] at h
  unfold runeLen
  grind

/-- All bytes of a sequence but its first are tail bytes. -/
theorem isTail_of_runeLen {a b : UInt8} {s : Bytes} (h : 1 < runeLen (a :: b :: s)) :
    isTail b = true ∧ ∀ c t, s = c :: t → 2 < runeLen (a :: b :: s) → isTail c = true := by
  have hsecond := @isTail_of_isSecond a b
  unfold runeLen at h ⊢
  grind

/-- A byte that starts no sequence is replaced. -/
theorem coerce_cons_bad {a : UInt8} {s : Bytes} (h : runeLen (a :: s) = 0) :
    coerce (a :: s) = replacement ++ coerce s := by
  unfold coerce
  rw [coerceAux, h]

/-- A sequence cut before its end is no sequence, and neither is any of its tail bytes: the decoder
    replaces every byte of it. -/
theorem coerce_cut {u q : Bytes} (h : u.length < runeLen (u ++ q)) :
    coerce u = (List.replicate u.length replacement).flatten := by
  have h4 := runeLen_le_four (u ++ q)
  have hbad : runeLen u = 0 := by
    by_contra hne
    rw [runeLen_append hne] at h
    have hle : runeLen u ≤ u.length := by
      unfold runeLen
      grind
    omega
  match u with
  | [] => rfl
  | [a] => rw [coerce_cons_bad hbad]; rfl
  | [a, b] =>
      obtain ⟨hb, -⟩ := isTail_of_runeLen (a := a) (b := b) (s := q) (by simp at h; omega)
      rw [coerce_cons_bad hbad, coerce_cons_bad (runeLen_tail hb [])]
      rfl
  | [a, b, c] =>
      simp only [List.length_cons, List.length_nil, List.cons_append, List.nil_append] at h
      obtain ⟨hb, hc⟩ := isTail_of_runeLen (a := a) (b := b) (s := c :: q) (by omega)
      rw [coerce_cons_bad hbad, coerce_cons_bad (runeLen_tail hb [c]),
        coerce_cons_bad (runeLen_tail (hc c q rfl (by omega)) [])]
      rfl
  | a :: b :: c :: d :: s =>
      simp only [List.length_cons] at h
      omega

theorem coerceAux_append {x : Bytes} (s : Bytes) : coerceAux x.length (x ++ s) = x ++ coerceAux 0 s := by
  induction x with
  | nil => rfl
  | cons a x ih => simp only [List.cons_append, List.length_cons, coerceAux, ih]

theorem validAux_append {x : Bytes} (s : Bytes) : validAux x.length (x ++ s) = validAux 0 s := by
  induction x with
  | nil => rfl
  | cons a x ih => simp only [List.cons_append, List.length_cons, validAux, ih]

/-- Peeling the first sequence off. -/
theorem coerce_append_of_runeLen {a : UInt8} {x s : Bytes} (h : runeLen (a :: x ++ s) = x.length + 1) :
    coerce (a :: x ++ s) = a :: x ++ coerce s := by
  unfold coerce
  rw [List.cons_append, coerceAux, ← List.cons_append, h]
  simp only
  rw [coerceAux_append, List.cons_append]

theorem valid_append_of_runeLen {a : UInt8} {x s : Bytes} (h : runeLen (a :: x ++ s) = x.length + 1) :
    valid (a :: x ++ s) = valid s := by
  unfold valid
  rw [List.cons_append, validAux, ← List.cons_append, h]
  simp only
  rw [validAux_append]

/-- Valid text starts with a sequence. -/
theorem runeLen_pos_of_valid {a : UInt8} {s : Bytes} (h : valid (a :: s) = true) :
    0 < runeLen (a :: s) := by
  unfold valid at h
  rw [validAux] at h
  cases hr : runeLen (a :: s) with
  | zero => rw [hr] at h; cases h
  | succ n => omega

/-- **Cutting valid text.** What the cut leaves is a run of whole sequences and the start `u` of the
    one it went through; the decoder keeps the first and replaces each byte of the second. -/
theorem coerce_take {p q : Bytes} (h : valid (p ++ q) = true) :
    ∃ w u, p = w ++ u ∧ valid w = true ∧
      coerce p = w ++ (List.replicate u.length replacement).flatten ∧
      (u = [] ∨ u.length < runeLen (u ++ q)) := by
  -- induction on the number of bytes left, one sequence at a time
  induction hn : p.length using Nat.strong_induction_on generalizing p with
  | _ n ih =>
      match p with
      | [] => exact ⟨[], [], rfl, rfl, rfl, .inl rfl⟩
      | a :: s =>
          have hpos : 0 < runeLen (a :: s ++ q) := runeLen_pos_of_valid h
          by_cases hcut : (a :: s).length < runeLen (a :: s ++ q)
          · refine ⟨[], a :: s, rfl, rfl, ?_, .inr hcut⟩
            rw [List.nil_append, coerce_cut hcut]
          · have hle : runeLen (a :: s ++ q) ≤ (a :: s).length := by omega
            obtain ⟨m, hm⟩ : ∃ m, runeLen (a :: s ++ q) = m + 1 := ⟨_, (Nat.succ_pred (by omega)).symm⟩
            have hms : m ≤ s.length := by rw [hm, List.length_cons] at hle; omega
            -- the sequence is `a :: x`, the text after it `y`
            obtain ⟨x, y, rfl, hx⟩ : ∃ x y, s = x ++ y ∧ x.length = m :=
              ⟨s.take m, s.drop m, (List.take_append_drop m s).symm, by simp [hms]⟩
            subst hx
            have hself : runeLen (a :: x ++ y) = x.length + 1 := by
              rw [List.cons_append, runeLen_of_append hle, hm]
            have hfull : runeLen (a :: x ++ (y ++ q)) = x.length + 1 := by
              rw [← hm]; simp
            have hv : valid (y ++ q) = true := by
              rw [← valid_append_of_runeLen hfull, ← h]; simp
            obtain ⟨w, u, hy, hw, hc, hu⟩ := ih y.length (by simp at hn; omega) hv rfl
            refine ⟨a :: x ++ w, u, ?_, ?_, ?_, hu⟩
            · rw [hy]; simp
            · have hxw : runeLen (a :: x ++ w) = x.length + 1 := by
                rw [← hself, hy, ← List.append_assoc]
                refine runeLen_of_append ?_
                rw [List.append_assoc, ← hy, hself]
                simp
              rw [valid_append_of_runeLen hxw, hw]
            · rw [← List.cons_append, coerce_append_of_runeLen hself, hc]
              simp

theorem coerceAux_append_of_valid {k : Nat} {w : Bytes} (h : validAux k w = true) (s : Bytes) :
    coerceAux k (w ++ s) = w ++ coerce s := by
  induction w generalizing k with
  | nil =>
      cases k with
      | zero => rfl
      | succ k => cases h
  | cons a w ih =>
      cases k with
      | succ k =>
          rw [validAux] at h
          rw [List.cons_append, coerceAux, ih h, List.cons_append]
      | zero =>
          rw [validAux] at h
          rw [List.cons_append, coerceAux]
          cases hr : runeLen (a :: w) with
          | zero => rw [hr] at h; cases h
          | succ n =>
              rw [hr] at h
              rw [← List.cons_append, runeLen_append (by omega), hr]
              simp only
              rw [ih h, List.cons_append]

theorem coerce_append_of_valid {w : Bytes} (h : valid w = true) (s : Bytes) :
    coerce (w ++ s) = w ++ coerce s :=
  coerceAux_append_of_valid h s

/-- The only valid texts that survive a cut are those that lost two bytes of a final U+FFFD, or one
    byte and a whole U+FFFD: the decoder puts back exactly what is missing. -/
theorem coerce_eq_append_iff {p q : Bytes} (h : valid (p ++ q) = true) (hq : q ≠ []) :
    coerce p = p ++ q ↔
      ∃ w, valid w = true ∧ (p = w ++ [0xef] ∧ q = [0xbf, 0xbd] ∨
        p = w ++ [0xef, 0xbf] ∧ q = [0xbd, 0xef, 0xbf, 0xbd]) := by
  constructor
  · intro heq
    obtain ⟨w, u, rfl, hw, hc, hu⟩ := coerce_take h
    rw [hc, List.append_assoc, List.append_cancel_left_eq] at heq
    refine ⟨w, hw, ?_⟩
    have h4 := runeLen_le_four (u ++ q)
    -- the replacement characters must spell the cut sequence and what followed it
    match u with
    | [] => exact absurd heq.symm hq
    | [a] =>
        simp only [replacement, List.length_cons, List.length_nil, List.replicate_succ,
          List.replicate_zero, List.flatten_cons, List.flatten_nil, List.cons_append, List.nil_append,
          List.cons.injEq] at heq
        exact .inl ⟨by rw [heq.1], heq.2.symm⟩
    | [a, b] =>
        simp only [replacement, List.length_cons, List.length_nil, List.replicate_succ,
          List.replicate_zero, List.flatten_cons, List.flatten_nil, List.cons_append, List.nil_append,
          List.cons.injEq] at heq
        exact .inr ⟨by rw [heq.1, heq.2.1], heq.2.2.symm⟩
    | [a, b, c] =>
        -- three bytes spell U+FFFD, which is a whole sequence
        have hlt := hu.resolve_left (by simp)
        rw [← heq] at hlt
        have hlen : (List.replicate [a, b, c].length replacement).flatten =
            replacement ++ (replacement ++ replacement) := rfl
        rw [hlen] at hlt
        exact absurd hlt (by rw [show [a, b, c].length = 3 from rfl]; decide)
    | a :: b :: c :: d :: u =>
        have hlt := hu.resolve_left (by simp)
        simp only [List.length_cons] at hlt
        omega
  · rintro ⟨w, hw, ⟨rfl, rfl⟩ | ⟨rfl, rfl⟩⟩
    · rw [coerce_append_of_valid hw]
      simp [coerce, coerceAux, runeLen, replacement]
    · rw [coerce_append_of_valid hw, List.append_assoc]
      rfl

end Utf8
