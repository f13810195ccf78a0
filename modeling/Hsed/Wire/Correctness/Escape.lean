import Hsed.Wire.Protocol

/-!
# `Wire.Correctness.Escape` — what survives `hsed_json_escape`

The loop writes whole units (`escUnit`), so its output always spells some text: `kept`, the bytes the
loop had room for. `kept_cases` says how a byte can be lost: a control character is skipped when the
buffer has no room for its six bytes, or the loop stops early and a proper prefix is left. From it,
`coerce_kept_iff` is the exact condition under which a decoder that reads the escaped text gets
back the text it came from: it fits (`fits`), or the cut goes through a final U+FFFD in such a way that the
decoder's own replacement characters restore it (`Restored`).
-/

namespace Hsed
namespace Wire

open CLib

/-! ## Units -/

/-- What one byte is written as. -/
def escUnit (b : UInt8) : Bytes :=
  match shortEscape b with
  | some c => [0x5c, c]
  | none => if b < 0x20 then unicodeText b else [b]

/-- Length of the text escaped in full. -/
def escLen (src : Bytes) : Nat := (src.map fun b => (escUnit b).length).sum

theorem escLen_nil : escLen [] = 0 := rfl

theorem escLen_cons (b : UInt8) (s : Bytes) : escLen (b :: s) = (escUnit b).length + escLen s := by
  simp [escLen]

theorem escLen_append (s t : Bytes) : escLen (s ++ t) = escLen s + escLen t := by
  simp [escLen]

theorem length_flatMap_escUnit (s : Bytes) : (s.flatMap escUnit).length = escLen s := by
  rw [List.length_flatMap, escLen]

theorem escUnit_pos (b : UInt8) : 0 < (escUnit b).length := by
  unfold escUnit
  split
  · simp
  · split <;> simp [unicodeText]

/-- A control character without a short escape takes six bytes, everything else at most two. -/
theorem escUnit_length (b : UInt8) :
    (escUnit b).length = 6 ∧ b < 0x20 ∧ shortEscape b = none ∨ (escUnit b).length ≤ 2 := by
  unfold escUnit
  cases hs : shortEscape b with
  | some c => exact .inr (by simp)
  | none =>
      by_cases hb : b < 0x20
      · exact .inl ⟨by simp [hb, unicodeText], hb, rfl⟩
      · exact .inr (by simp [hb])

theorem hexDigit_isHex (n : Nat) : Json.isHex (hexDigit n) = true ∧ Json.hexVal (hexDigit n) = n % 16 := by
  have hall : ∀ i < 16, Json.isHex ((ascii "0123456789abcdef").getD i 0) = true ∧
      Json.hexVal ((ascii "0123456789abcdef").getD i 0) = i := by decide
  exact hall _ (Nat.mod_lt n (by decide))

/-- Every unit is a well-formed piece of a JSON string that spells its byte. -/
theorem escaped_escUnit (b : UInt8) {raw text : Bytes} (h : Json.Escaped raw text) :
    Json.Escaped (escUnit b ++ raw) (b :: text) := by
  unfold escUnit
  cases hs : shortEscape b with
  | some c =>
      refine Json.Escaped.simple ?_ h
      unfold shortEscape at hs
      repeat' split at hs
      all_goals first
        | (obtain rfl := Option.some.inj hs; subst_vars; rfl)
        | cases hs
  | none =>
      by_cases hb : b < 0x20
      · rw [if_pos hb]
        have hlt : b.toNat < 0x20 := by simpa [UInt8.lt_iff_toNat_lt] using hb
        refine Json.Escaped.control (a := b) ?_ ?_ (UInt8.lt_trans hb (by decide)) h
        · simp only [(hexDigit_isHex _).1, Bool.and_true]
          decide
        · simp only [Json.hex4, (hexDigit_isHex _).2, show Json.hexVal 0x30 = 0 from rfl]
          omega
      · rw [if_neg hb]
        refine Json.Escaped.byte ⟨UInt8.not_lt.mp hb, ?_, ?_⟩ h
        · rintro rfl; cases hs
        · rintro rfl; cases hs

theorem escaped_flatMap (s : Bytes) : Json.Escaped (s.flatMap escUnit) s := by
  induction s with
  | nil => exact .nil
  | cons b s ih => rw [List.flatMap_cons]; exact escaped_escUnit b ih

/-! ## The bytes the loop keeps -/

/-- The bytes of `src` that are written when the loop starts with `o` bytes in the buffer. -/
def kept (dstsize : Nat) : Nat → Bytes → Bytes
  | _, [] => []
  | o, b :: src =>
    if o + 2 < dstsize then
      if (escUnit b).length = 6 ∧ dstsize ≤ o + 6 then kept dstsize o src
      else b :: kept dstsize (o + (escUnit b).length) src
    else []

theorem jsonEscapeLoop_eq (dstsize : Nat) (src : Bytes) : ∀ out : Bytes,
    jsonEscapeLoop dstsize out src = out ++ (kept dstsize out.length src).flatMap escUnit := by
  induction src with
  | nil => intro out; simp [jsonEscapeLoop, kept]
  | cons b src ih =>
      intro out
      rw [jsonEscapeLoop, kept]
      by_cases hroom : out.length + 2 < dstsize
      · rw [if_pos hroom, if_pos hroom]
        cases hs : shortEscape b with
        | some c =>
            have hunit : escUnit b = [0x5c, c] := by simp [escUnit, hs]
            simp only [hunit, ih]
            rw [if_pos hroom, if_neg (by simp), List.flatMap_cons, hunit]
            simp
        | none =>
            by_cases hb : b < 0x20
            · have hunit : escUnit b = unicodeText b := by simp [escUnit, hs, hb]
              have hlen : (unicodeText b).length = 6 := rfl
              simp only [hb, if_true, hunit, hlen, ih]
              by_cases hsix : out.length + 6 < dstsize
              · rw [if_pos hsix, if_neg (by omega), List.flatMap_cons, hunit,
                  snprintf_of_lt (by rw [hlen]; omega), List.length_append, hlen, List.append_assoc]
              · rw [if_neg hsix, if_pos ⟨trivial, by omega⟩]
            · have hunit : escUnit b = [b] := by simp [escUnit, hs, hb]
              simp only [hb, if_false, hunit, ih]
              rw [if_neg (by simp), List.flatMap_cons, hunit]
              simp
      · rw [if_neg hroom, if_neg hroom, List.flatMap_nil, List.append_nil]

/-- The buffer is never overrun. -/
theorem escLen_kept_lt {dstsize : Nat} (src : Bytes) : ∀ o : Nat, o < dstsize →
    o + escLen (kept dstsize o src) < dstsize := by
  induction src with
  | nil => intro o ho; simpa [kept, escLen] using ho
  | cons b src ih =>
      intro o ho
      rw [kept]
      split
      · next hroom =>
          split
          · exact ih o ho
          · next hkeep =>
              have hnext : o + (escUnit b).length < dstsize := by
                rcases escUnit_length b with ⟨hsix, -, -⟩ | hshort
                · omega
                · omega
              rw [escLen_cons, ← Nat.add_assoc]
              exact ih _ hnext
      · simpa [escLen] using ho

/-- `hsed_json_escape` writes the units of the kept bytes. -/
theorem hsedJsonEscape_eq {dstsize : Nat} (hpos : 0 < dstsize) (src : Bytes) :
    hsedJsonEscape dstsize src = (kept dstsize 0 (cstr src)).flatMap escUnit := by
  rw [hsedJsonEscape, jsonEscapeLoop_eq, List.nil_append, List.length_nil]
  refine List.take_of_length_le ?_
  have hlt := escLen_kept_lt (cstr src) 0 hpos
  rw [length_flatMap_escUnit]
  omega

theorem length_hsedJsonEscape_lt {dstsize : Nat} (hpos : 0 < dstsize) (src : Bytes) :
    (hsedJsonEscape dstsize src).length < dstsize := by
  have hlt := escLen_kept_lt (cstr src) 0 hpos
  rw [hsedJsonEscape_eq hpos, length_flatMap_escUnit]
  omega

/-! ## What is lost -/

theorem kept_append {dstsize : Nat} (w r : Bytes) : ∀ o : Nat, o + escLen w + 2 < dstsize →
    kept dstsize o (w ++ r) = w ++ kept dstsize (o + escLen w) r := by
  induction w with
  | nil => intro o _; rfl
  | cons b w ih =>
      intro o ho
      rw [escLen_cons] at ho
      have hpos := escUnit_pos b
      rw [List.cons_append, kept, if_pos (by omega), if_neg (by omega), ih _ (by omega), escLen_cons,
        Nat.add_assoc, List.cons_append]

theorem kept_sublist (dstsize : Nat) (src : Bytes) : ∀ o : Nat, (kept dstsize o src).Sublist src := by
  induction src with
  | nil => intro o; exact List.Sublist.refl _
  | cons b src ih =>
      intro o
      rw [kept]
      split
      · split
        · exact (ih o).cons b
        · exact (ih _).cons_cons b
      · exact List.nil_sublist _

/-- There is room for every byte of `src`, starting with `o` bytes in the buffer: only the last byte
    can be the one that does not fit. -/
def FitsFrom (dstsize o : Nat) (src : Bytes) : Prop :=
  ∀ s b, src = s ++ [b] → o + escLen s + max 2 (escUnit b).length < dstsize

/-- Number of control characters. -/
def ctlCount (s : Bytes) : Nat := s.countP fun b => b < 0x20

/-- The ways a byte is lost: all of `src` is kept; or a control character was skipped; or the loop
    stopped at the first offset that leaves no room for two bytes. -/
theorem kept_cases (dstsize : Nat) (src : Bytes) : ∀ o : Nat,
    (kept dstsize o src = src ∧ FitsFrom dstsize o src) ∨
    ctlCount (kept dstsize o src) < ctlCount src ∨
    ∃ p q, src = p ++ q ∧ q ≠ [] ∧ kept dstsize o src = p ∧ dstsize ≤ o + escLen p + 2 ∧
      ∀ s b, p = s ++ [b] → o + escLen s + 2 < dstsize := by
  induction src with
  | nil =>
      intro o
      refine .inl ⟨rfl, ?_⟩
      intro s b h
      exact absurd h.symm (by simp)
  | cons b src ih =>
      intro o
      rw [kept]
      by_cases hroom : o + 2 < dstsize
      · rw [if_pos hroom]
        by_cases hskip : (escUnit b).length = 6 ∧ dstsize ≤ o + 6
        · -- a skipped byte is a control character
          rw [if_pos hskip]
          refine .inr (.inl ?_)
          have hctl : b < 0x20 := by
            rcases escUnit_length b with ⟨-, hb, -⟩ | hshort
            · exact hb
            · omega
          have hle : ctlCount (kept dstsize o src) ≤ ctlCount src := (kept_sublist dstsize src o).countP_le
          have hcons : ctlCount (b :: src) = ctlCount src + 1 := by
            simp only [ctlCount]
            exact List.countP_cons_of_pos (by simpa using hctl)
          omega
        · -- the byte is written, and what is lost is lost behind it
          rw [if_neg hskip]
          rcases ih (o + (escUnit b).length) with ⟨heq, hfit⟩ | hlt | ⟨p, q, rfl, hq, hp, hfull, hstop⟩
          · refine .inl ⟨by rw [heq], ?_⟩
            intro s c hs
            cases s with
            | nil =>
                obtain ⟨rfl, -⟩ := List.cons.inj hs
                have hlen := escUnit_length b
                rw [escLen_nil]
                omega
            | cons a s =>
                obtain ⟨rfl, htail⟩ := List.cons.inj hs
                have hc := hfit s c htail
                rw [escLen_cons]
                omega
          · refine .inr (.inl ?_)
            simp only [ctlCount, List.countP_cons] at hlt ⊢
            omega
          · refine .inr (.inr ⟨b :: p, q, rfl, hq, by rw [hp], ?_, ?_⟩)
            · rw [escLen_cons]; omega
            · intro s c hs
              cases s with
              | nil => rw [escLen_nil]; omega
              | cons a s =>
                  obtain ⟨rfl, htail⟩ := List.cons.inj hs
                  have hc := hstop s c htail
                  rw [escLen_cons]
                  omega
      · -- the loop stops here
        rw [if_neg hroom]
        refine .inr (.inr ⟨[], b :: src, rfl, by simp, rfl, ?_, ?_⟩)
        · rw [escLen_nil]; omega
        · intro s c hs
          exact absurd hs.symm (by simp)

/-- The decoder's replacement characters are no control characters. -/
theorem ctlCount_coerce_le (s : Bytes) : ctlCount (Utf8.coerce s) ≤ ctlCount s := by
  have haux : ∀ k, ctlCount (Utf8.coerceAux k s) ≤ ctlCount s := by
    induction s with
    | nil => intro k; cases k <;> exact Nat.le_refl _
    | cons a s ih =>
        intro k
        cases k with
        | succ k =>
            have hk := ih k
            simp only [Utf8.coerceAux, ctlCount, List.countP_cons] at hk ⊢
            omega
        | zero =>
            rw [Utf8.coerceAux]
            cases Utf8.runeLen (a :: s) with
            | zero =>
                have hk := ih 0
                have hrep : ctlCount Utf8.replacement = 0 := rfl
                simp only [ctlCount, List.countP_append, List.countP_cons] at hk hrep ⊢
                omega
            | succ n =>
                have hk := ih n
                simp only [ctlCount, List.countP_cons] at hk ⊢
                omega
  exact haux 0

/-- The text fits: its last unit does. -/
def fits (dstsize : Nat) (src : Bytes) : Bool :=
  match src.getLast? with
  | none => true
  | some b => escLen src.dropLast + max 2 (escUnit b).length < dstsize

/-- The text ends in U+FFFD and the buffer ends inside it, where the decoder's own U+FFFD (one for each
    byte left of the cut sequence) completes it again. -/
def Restored (dstsize : Nat) (src : Bytes) : Prop :=
  ∃ w, Utf8.valid w = true ∧
    (src = w ++ Utf8.replacement ∧ escLen w + 3 = dstsize ∨
      src = w ++ (Utf8.replacement ++ Utf8.replacement) ∧ escLen w + 4 = dstsize)

theorem fits_iff {dstsize : Nat} {src : Bytes} : fits dstsize src = true ↔ FitsFrom dstsize 0 src := by
  rcases List.eq_nil_or_concat src with rfl | ⟨s, b, rfl⟩
  · simp [fits, FitsFrom]
  · have hlast : fits dstsize (s.concat b) =
        decide (escLen s + max 2 (escUnit b).length < dstsize) := by
      simp [fits]
    rw [hlast, decide_eq_true_eq, List.concat_eq_append]
    constructor
    · intro h s' b' heq
      obtain ⟨rfl, hb⟩ := List.append_inj' heq rfl
      obtain ⟨rfl, -⟩ := List.cons.inj hb
      omega
    · intro h
      have hs := h s b rfl
      omega

theorem kept_of_fits {dstsize : Nat} {src : Bytes} (h : fits dstsize src = true) :
    kept dstsize 0 src = src := by
  rw [fits_iff] at h
  rcases List.eq_nil_or_concat src with rfl | ⟨s, b, rfl⟩
  · rfl
  · rw [List.concat_eq_append] at h ⊢
    have hs := h s b rfl
    rw [kept_append s [b] 0 (by omega), kept, if_pos (by omega), if_neg (by omega), kept]

/-- **Exact condition.** Valid text comes back from the buffer and the decoder unchanged iff it fits, or
    is restored by accident. -/
theorem coerce_kept_iff {dstsize : Nat} {src : Bytes} (hv : Utf8.valid src = true) :
    Utf8.coerce (kept dstsize 0 src) = src ↔ fits dstsize src = true ∨ Restored dstsize src := by
  constructor
  · intro heq
    rcases kept_cases dstsize src 0 with ⟨-, hfit⟩ | hlt | ⟨p, q, rfl, hq, hp, hfull, hstop⟩
    · exact .inl (fits_iff.mpr hfit)
    · -- a lost control character cannot come back
      have hle := ctlCount_coerce_le (kept dstsize 0 src)
      rw [heq] at hle
      omega
    · -- cut off: the decoder can only have put back what it puts for a broken rune
      rw [hp, Utf8.coerce_eq_append_iff hv hq] at heq
      obtain ⟨w, hw, ⟨rfl, rfl⟩ | ⟨rfl, rfl⟩⟩ := heq
      · refine .inr ⟨w, hw, .inl ⟨by simp [Utf8.replacement], ?_⟩⟩
        have hlt := hstop w 0xef rfl
        have h1 : escLen [0xef] = 1 := by decide
        rw [escLen_append, h1] at hfull
        omega
      · refine .inr ⟨w, hw, .inr ⟨by simp [Utf8.replacement], ?_⟩⟩
        have hlt := hstop (w ++ [0xef]) 0xbf (by simp)
        have h1 : escLen [0xef] = 1 := by decide
        have h2 : escLen [0xef, 0xbf] = 2 := by decide
        rw [escLen_append, h2] at hfull
        rw [escLen_append, h1] at hlt
        omega
  · rintro (hfit | ⟨w, hw, ⟨rfl, hlen⟩ | ⟨rfl, hlen⟩⟩)
    · rw [kept_of_fits hfit, Utf8.coerce_eq_self hv]
    · -- one replacement character, of which one byte fits
      have hunit : (escUnit 0xef).length = 1 := by decide
      have hk : kept dstsize 0 (w ++ Utf8.replacement) = w ++ [0xef] := by
        rw [kept_append w _ 0 (by omega), Utf8.replacement, kept, if_pos (by omega), hunit,
          if_neg (by omega), kept, if_neg (by omega)]
      rw [hk, Utf8.coerce_append_of_valid hw]
      rfl
    · -- two of them, of which two bytes fit
      have hunit : (escUnit 0xef).length = 1 := by decide
      have hunit' : (escUnit 0xbf).length = 1 := by decide
      have hk : kept dstsize 0 (w ++ (Utf8.replacement ++ Utf8.replacement)) = w ++ [0xef, 0xbf] := by
        rw [kept_append w _ 0 (by omega), Utf8.replacement, List.cons_append, List.cons_append, kept,
          if_pos (by omega), hunit, if_neg (by omega), kept, if_pos (by omega), hunit', if_neg (by omega)]
        rw [List.cons_append, kept, if_neg (by omega)]
      rw [hk, Utf8.coerce_append_of_valid hw]
      rfl

end Wire
end Hsed
