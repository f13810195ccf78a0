import Hsed.Lib.CLib

/-!
# `Lib.Base64` — the standard alphabet and its decoder

RFC 4648 §4 as Go's `base64.StdEncoding` reads it: carriage returns and newlines are ignored, padding is
required, bits the padding stands for are not checked, and a bad character ends the decoding with what
was decoded before it (`decodeString` is the data `DecodeString` returns next to its error).

`parse` takes a text as a whole: it has a value only where there is no error, and then `decode` returns it
(`decode_of_parse`). `parse_quantum` / `parse_pad1` / `parse_pad2` are the three shapes a group of four characters
has; an encoder is shown correct by meeting them.
-/

namespace Base64

open CLib

/-- The standard alphabet. -/
def alphabet : Bytes := ascii "ABCDEFGHIJKLMNOPQRSTUVWXYZabcdefghijklmnopqrstuvwxyz0123456789+/"

/-- The value of a character of the alphabet. -/
def sextet (c : UInt8) : Option Nat :=
  if 0x41 ≤ c && c ≤ 0x5a then some (c.toNat - 0x41)
  else if 0x61 ≤ c && c ≤ 0x7a then some (c.toNat - 0x61 + 26)
  else if 0x30 ≤ c && c ≤ 0x39 then some (c.toNat - 0x30 + 52)
  else if c = 0x2b then some 62
  else if c = 0x2f then some 63
  else none

/-- The bytes of a whole group. -/
def quantum (x y z w : Nat) : Bytes :=
  let v := x * 262144 + y * 4096 + z * 64 + w
  [UInt8.ofNat (v / 65536), UInt8.ofNat (v / 256 % 256), UInt8.ofNat (v % 256)]

/-- The groups of four, up to the padding or the first error. -/
def decode : Bytes → Bytes
  | a :: b :: c :: d :: s =>
    match sextet a, sextet b with
    | some x, some y =>
      match sextet c with
      | some z =>
        match sextet d with
        | some w => quantum x y z w ++ decode s
        | none => if d = 0x3d then (quantum x y z 0).take 2 else []
      | none => if c = 0x3d ∧ d = 0x3d then (quantum x y 0 0).take 1 else []
    | _, _ => []
  | _ => []

/-- Strict decoding: the whole text, or nothing. Padding ends the text. -/
def parse : Bytes → Option Bytes
  | [] => some []
  | a :: b :: c :: d :: s =>
    match sextet a, sextet b with
    | some x, some y =>
      match sextet c with
      | some z =>
        match sextet d with
        | some w => (parse s).map (quantum x y z w ++ ·)
        | none => if d = 0x3d ∧ s = [] then some ((quantum x y z 0).take 2) else none
      | none => if c = 0x3d ∧ d = 0x3d ∧ s = [] then some ((quantum x y 0 0).take 1) else none
    | _, _ => none
  | _ => none

/-- The data part of `DecodeString`. -/
def decodeString (s : Bytes) : Bytes := decode (s.filter fun b => b != 0x0a && b != 0x0d)

/-- The character of a value. -/
def char (v : Nat) : UInt8 := alphabet.getD (v % 64) 0

theorem sextet_char (v : Nat) : sextet (char v) = some (v % 64) := by
  have hall : ∀ i < 64, sextet (alphabet.getD i 0) = some i := by decide +kernel
  exact hall _ (Nat.mod_lt v (by decide))

/-- A character of the alphabet is printable ASCII, and neither a quote nor a backslash. -/
theorem char_plain (v : Nat) : 0x20 ≤ char v ∧ char v ≠ 0x22 ∧ char v ≠ 0x5c ∧ char v < 0x80 := by
  have hall : ∀ i < 64, 0x20 ≤ alphabet.getD i 0 ∧ alphabet.getD i 0 ≠ 0x22 ∧
      alphabet.getD i 0 ≠ 0x5c ∧ alphabet.getD i 0 < 0x80 := by decide +kernel
  exact hall _ (Nat.mod_lt v (by decide))

theorem char_mem (v : Nat) : char v ∈ alphabet := by
  have hlt : v % 64 < alphabet.length := Nat.mod_lt v (by decide)
  unfold char
  rw [List.getD_eq_getElem?_getD, List.getElem?_eq_getElem hlt]
  exact List.getElem_mem hlt

theorem parse_quantum (x y z w : Nat) (s : Bytes) :
    parse (char x :: char y :: char z :: char w :: s) =
      (parse s).map (quantum (x % 64) (y % 64) (z % 64) (w % 64) ++ ·) := by
  simp only [parse, sextet_char]

theorem parse_pad1 (x y z : Nat) :
    parse [char x, char y, char z, 0x3d] = some ((quantum (x % 64) (y % 64) (z % 64) 0).take 2) := by
  simp only [parse, sextet_char, show sextet 0x3d = none from rfl, and_self, if_true]

theorem parse_pad2 (x y : Nat) :
    parse [char x, char y, 0x3d, 0x3d] = some ((quantum (x % 64) (y % 64) 0 0).take 1) := by
  simp only [parse, sextet_char, show sextet 0x3d = none from rfl, and_self, if_true]

/-- Text that is well formed is decoded to its end. -/
theorem decode_of_parse {s data : Bytes} (h : parse s = some data) : decode s = data := by
  fun_induction parse s generalizing data with
  | case1 =>
      obtain rfl := Option.some.inj h
      rfl
  | case2 a b c d s x y hb ha z hc w hd ih =>
      obtain ⟨rest, hrest, rfl⟩ := Option.map_eq_some_iff.mp h
      simp only [decode, ha, hb, hc, hd, ih hrest]
  | case3 a b c d s x y hb ha z hc hd hpad =>
      obtain rfl := Option.some.inj h
      simp only [decode, ha, hb, hc, hd, if_pos hpad.1]
  | case5 a b c d s x y hb ha hc hpad =>
      obtain rfl := Option.some.inj h
      simp only [decode, ha, hb, hc, if_pos (And.intro hpad.1 hpad.2.1)]
  | _ => cases h

/-- Text without line breaks is decoded as it stands. -/
theorem decodeString_of_plain {s : Bytes} (h : ∀ b ∈ s, 0x20 ≤ b) : decodeString s = decode s := by
  unfold decodeString
  rw [List.filter_eq_self.mpr]
  intro b hb
  have hlo := h b hb
  have h1 : b ≠ 0x0a := by rintro rfl; exact absurd hlo (by decide)
  have h2 : b ≠ 0x0d := by rintro rfl; exact absurd hlo (by decide)
  simp [h1, h2]

end Base64
