import Mathlib.Data.List.TakeWhile
import Mathlib.Tactic

/-!
# `Lib.CLib` — the fragment of the C library a line-oriented daemon leans on

Byte strings, decimal numerals, the integer conversions and the tokenizer, as the C standard (and
glibc, where the standard leaves it open) describes them:

* **strings** — a C string is the bytes before the first NUL (`cstr`); `snprintf` keeps at most
  `size - 1` bytes (`snprintf`), `strlcpy`-style copies likewise;
* **integers** — two's-complement narrowing (`toInt32`, `toInt64`, `toUInt32`), the `printf` decimals
  (`decNat`, `decInt`) and the `strtol` family (`strtol`, `atoi`, `strtoul`), which saturate;
* **tokens** — `strtok_r` (`strtokR`) and `strcasecmp` (`strcaseeq`).

The two facts everything else rests on are the print/parse inverse (`digitsVal_decNat`, `strtol_decInt`)
and what becomes of a token when a line is cut (`strtokR_append`).
-/

namespace CLib

abbrev Bytes := List UInt8

/-- A string literal of the source, as bytes (ASCII only). -/
def ascii (s : String) : Bytes := s.toList.map fun c => c.toNat.toUInt8

/-! ## Strings and bounded copies -/

/-- The C string stored in a buffer: everything before the first NUL. -/
def cstr (buf : Bytes) : Bytes := buf.takeWhile (· != 0)

/-- What `snprintf(dst, size, …)` leaves in `dst`, given the whole formatted text. -/
def snprintf (size : Nat) (text : Bytes) : Bytes := text.take (size - 1)

/-- `strlcpy`: at most `size - 1` bytes of the source survive. -/
def strlcpy (size : Nat) (src : Bytes) : Bytes := src.take (size - 1)

theorem snprintf_of_lt {size : Nat} {text : Bytes} (h : text.length < size) :
    snprintf size text = text :=
  List.take_of_length_le (by omega)

theorem prefix_of_cstr (buf : Bytes) : cstr buf <+: buf := List.takeWhile_prefix _

theorem cstr_eq_self {buf : Bytes} (h : ∀ b ∈ buf, b ≠ 0) : cstr buf = buf :=
  List.takeWhile_eq_self_iff.mpr (by simpa using h)

/-- Behind a C string stands its NUL, unless the buffer ends with it. -/
theorem cstr_cases (buf : Bytes) : cstr buf = buf ∨ ∃ rest, buf = cstr buf ++ 0 :: rest := by
  have happ := @List.takeWhile_append_dropWhile _ (· != 0) buf
  cases hdrop : buf.dropWhile (· != 0) with
  | nil =>
      rw [hdrop, List.append_nil] at happ
      exact Or.inl happ
  | cons b rest =>
      have hb : b = 0 := by
        have h := List.head_dropWhile_not (· != (0 : UInt8)) (by rw [hdrop]; exact List.cons_ne_nil b rest)
        simpa [hdrop] using h
      rw [hdrop, hb] at happ
      exact Or.inr ⟨rest, happ.symm⟩

/-! ## Fixed-width integers -/

/-- Conversion to a 32-bit signed type (`int`, `pid_t`). -/
def toInt32 (x : Int) : Int := x.bmod (2 ^ 32)

/-- Conversion to a 64-bit signed type (`long`, `long long`). -/
def toInt64 (x : Int) : Int := x.bmod (2 ^ 64)

/-- Conversion to a 32-bit unsigned type (`uid_t`). -/
def toUInt32 (x : Int) : Nat := (x % 2 ^ 32).toNat

theorem toInt32_eq_self {x : Int} (hlo : -(2 ^ 31) ≤ x) (hhi : x < 2 ^ 31) : toInt32 x = x := by
  unfold toInt32
  rw [Int.bmod_eq_iff (by decide)]
  refine ⟨by omega, by omega, by simp⟩

theorem toInt64_eq_self {x : Int} (hlo : -(2 ^ 63) ≤ x) (hhi : x < 2 ^ 63) : toInt64 x = x := by
  unfold toInt64
  rw [Int.bmod_eq_iff (by decide)]
  refine ⟨by omega, by omega, by simp⟩

theorem toInt64_bounds (x : Int) : -(2 ^ 63) ≤ toInt64 x ∧ toInt64 x < 2 ^ 63 := by
  have hlo := Int.le_bmod (x := x) (m := 2 ^ 64) (by decide)
  have hhi := Int.bmod_lt (x := x) (m := 2 ^ 64) (by decide)
  unfold toInt64
  constructor <;> omega

/-! ## Character classes -/

/-- `isspace` in the C locale. -/
def isSpace (b : UInt8) : Bool := b == 0x20 || (0x09 ≤ b && b ≤ 0x0d)

def isDigit (b : UInt8) : Bool := 0x30 ≤ b && b ≤ 0x39

/-- `tolower` in the C locale. -/
def toLower (b : UInt8) : UInt8 := if 0x41 ≤ b && b ≤ 0x5a then b + 0x20 else b

/-- `strcasecmp(a, b) == 0`. -/
def strcaseeq (a b : Bytes) : Bool := a.map toLower == b.map toLower

/-! ## Decimal numerals -/

/-- The value of a run of decimal digits. -/
def digitsVal (ds : Bytes) : Nat := ds.foldl (fun acc b => acc * 10 + (b.toNat - 0x30)) 0

/-- `%u`, `%zu`, `%llu`. -/
def decNat (n : Nat) : Bytes := (Nat.toDigits 10 n).map fun c => c.toNat.toUInt8

/-- `%d`, `%ld`, `%lld`. -/
def decInt (x : Int) : Bytes := if x < 0 then 0x2d :: decNat x.natAbs else decNat x.natAbs

/-- `isdigit` on every byte of a nonempty string. -/
def isAllDigits (s : Bytes) : Bool := !s.isEmpty && s.all isDigit

theorem digitsVal_nil : digitsVal [] = 0 := rfl

theorem digitsVal_append_one (ds : Bytes) (b : UInt8) :
    digitsVal (ds ++ [b]) = digitsVal ds * 10 + (b.toNat - 0x30) := by
  simp [digitsVal, List.foldl_append]

/-- The byte of a decimal digit. -/
theorem digitChar_byte {d : Nat} (h : d < 10) :
    (Nat.digitChar d).toNat.toUInt8 = UInt8.ofNat (0x30 + d) := by
  interval_cases d <;> rfl

/-- The last digit comes off the end. -/
theorem decNat_eq (n : Nat) :
    decNat n = (if n < 10 then [] else decNat (n / 10)) ++ [UInt8.ofNat (0x30 + n % 10)] := by
  unfold decNat
  rw [Nat.toDigits_eq_if (by decide)]
  split
  · next h => simp only [List.map_cons, List.map_nil, List.nil_append, digitChar_byte h,
      Nat.mod_eq_of_lt h]
  · simp only [List.map_append, List.map_cons, List.map_nil,
      digitChar_byte (Nat.mod_lt n (by decide))]

theorem ofNat_digit_toNat {d : Nat} (h : d < 10) : (UInt8.ofNat (0x30 + d)).toNat = 0x30 + d := by
  rw [UInt8.toNat_ofNat']; omega

/-- **Print/parse inverse** for unsigned decimals. -/
theorem digitsVal_decNat (n : Nat) : digitsVal (decNat n) = n := by
  induction n using Nat.strong_induction_on with
  | _ n ih =>
    rw [decNat_eq, digitsVal_append_one, ofNat_digit_toNat (Nat.mod_lt n (by decide))]
    split
    · rw [digitsVal_nil]; omega
    · rw [ih (n / 10) (by omega)]; omega

theorem decNat_ne_nil (n : Nat) : decNat n ≠ [] := by
  rw [decNat_eq]; simp

theorem isDigit_iff {b : UInt8} : isDigit b = true ↔ 0x30 ≤ b.toNat ∧ b.toNat ≤ 0x39 := by
  simp [isDigit, UInt8.le_iff_toNat_le]

theorem isDigit_decNat (n : Nat) : ∀ b ∈ decNat n, isDigit b = true := by
  induction n using Nat.strong_induction_on with
  | _ n ih =>
    intro b hb
    rw [decNat_eq] at hb
    rcases List.mem_append.mp hb with h | h
    · split at h
      · simp at h
      · exact ih (n / 10) (by omega) b h
    · rw [List.mem_singleton.mp h, isDigit_iff, ofNat_digit_toNat (Nat.mod_lt n (by decide))]
      omega

theorem decNat_length_le {n k : Nat} (hk : 0 < k) (h : n < 10 ^ k) : (decNat n).length ≤ k := by
  unfold decNat
  rw [List.length_map]
  exact (Nat.length_toDigits_le_iff (by decide) hk).mpr h

theorem length_decInt_le {x : Int} {k : Nat} (hk : 0 < k) (hlo : -(10 ^ k) < x) (hhi : x < 10 ^ k) :
    (decInt x).length ≤ k + 1 := by
  have habs : x.natAbs < 10 ^ k := by
    have hcast : ((10 ^ k : Nat) : Int) = 10 ^ k := by simp
    omega
  have hlen := decNat_length_le hk habs
  unfold decInt
  split
  · simpa using hlen
  · omega

theorem decInt_ne_nil (x : Int) : decInt x ≠ [] := by
  unfold decInt
  split
  · simp
  · exact decNat_ne_nil _

/-- No leading zero, except for zero itself. -/
theorem decNat_head {n : Nat} (h : 0 < n) : (decNat n).head? ≠ some 0x30 := by
  induction n using Nat.strong_induction_on with
  | _ n ih =>
    rw [decNat_eq]
    split
    · next hlt =>
      intro hc
      rw [List.nil_append, List.head?_cons, Option.some_inj] at hc
      have := congrArg UInt8.toNat hc
      rw [ofNat_digit_toNat (Nat.mod_lt n (by decide)), Nat.mod_eq_of_lt hlt] at this
      have h30 : (0x30 : UInt8).toNat = 0x30 := rfl
      omega
    · rw [List.head?_append_of_ne_nil _ (decNat_ne_nil _)]
      exact ih (n / 10) (by omega) (by omega)

theorem decNat_zero : decNat 0 = [0x30] := by decide

/-! ## The `strtol` family -/

/-- Splits off an optional sign: is it a minus, and what follows. -/
def splitSign : Bytes → Bool × Bytes
  | b :: s => if b = 0x2d then (true, s) else if b = 0x2b then (false, s) else (false, b :: s)
  | [] => (false, [])

/-- The integer `strtol` reads in base 10, before saturation (`0` when there is no digit). -/
def strtolRaw (s : Bytes) : Int :=
  let (neg, t) := splitSign (s.dropWhile isSpace)
  let v : Int := digitsVal (t.takeWhile isDigit)
  if neg then -v else v

/-- Saturation to `long` (64-bit). -/
def clampLong (v : Int) : Int := max (-(2 ^ 63)) (min v (2 ^ 63 - 1))

/-- `strtol(s, NULL, 10)`, also `atol` and `atoll`. -/
def strtol (s : Bytes) : Int := clampLong (strtolRaw s)

/-- `atoi`: `strtol` narrowed to `int`. -/
def atoi (s : Bytes) : Int := toInt32 (strtol s)

/-- `strtoul(s, NULL, 10)`: saturates at `ULONG_MAX`; a minus sign negates modulo `2 ^ 64`. -/
def strtoul (s : Bytes) : Nat :=
  let (neg, t) := splitSign (s.dropWhile isSpace)
  let v := digitsVal (t.takeWhile isDigit)
  if 2 ^ 64 ≤ v then 2 ^ 64 - 1 else if neg then (2 ^ 64 - v) % 2 ^ 64 else v

/-- The value of a complete decimal numeral: an optional sign and at least one digit, nothing else. -/
def decimalValue (s : Bytes) : Option Int :=
  let (neg, t) := splitSign s
  if isAllDigits t then some (if neg then -(digitsVal t : Int) else digitsVal t) else none

theorem isDigit_not_space {b : UInt8} (h : isDigit b = true) : isSpace b = false := by
  rw [isDigit_iff] at h
  simp only [isSpace, Bool.or_eq_false_iff, beq_eq_false_iff_ne, Bool.and_eq_false_iff,
    decide_eq_false_iff_not, UInt8.le_iff_toNat_le]
  refine ⟨fun hb => ?_, Or.inr ?_⟩
  · rw [hb] at h; exact absurd h (by decide)
  · have : (0x0d : UInt8).toNat = 0x0d := rfl
    omega

/-- `strtol` reads a complete numeral to its value (no leading space can be skipped in it). -/
theorem strtolRaw_of_decimalValue {s : Bytes} {v : Int} (h : decimalValue s = some v) :
    strtolRaw s = v := by
  have hns : s.dropWhile isSpace = s := by
    cases s with
    | nil => rfl
    | cons b t =>
      rw [List.dropWhile_cons_of_neg]
      rw [Bool.not_eq_true]
      unfold decimalValue splitSign at h
      by_cases hm : b = 0x2d
      · subst hm; rfl
      · by_cases hp : b = 0x2b
        · subst hp; rfl
        · simp only [if_neg hm, if_neg hp] at h
          split at h
          · next hd =>
            simp only [isAllDigits, List.all_cons, Bool.and_eq_true] at hd
            exact isDigit_not_space hd.2.1
          · cases h
  unfold strtolRaw
  rw [hns]
  unfold decimalValue at h
  generalize splitSign s = p at h ⊢
  obtain ⟨neg, t⟩ := p
  simp only at h ⊢
  split at h
  · next hd =>
    have ht : t.takeWhile isDigit = t := by
      rw [List.takeWhile_eq_self_iff]
      simp only [isAllDigits, Bool.and_eq_true, List.all_eq_true] at hd
      exact hd.2
    rw [ht]
    exact Option.some.inj h
  · cases h

theorem isAllDigits_decNat (n : Nat) : isAllDigits (decNat n) = true := by
  simp only [isAllDigits, Bool.and_eq_true, List.all_eq_true]
  exact ⟨by simp [decNat_ne_nil], isDigit_decNat n⟩

theorem splitSign_of_digit {b : UInt8} {s : Bytes} (h : isDigit b = true) :
    splitSign (b :: s) = (false, b :: s) := by
  have hb := isDigit_iff.mp h
  have hm : b ≠ 0x2d := by rintro rfl; exact absurd hb (by decide)
  have hp : b ≠ 0x2b := by rintro rfl; exact absurd hb (by decide)
  simp [splitSign, hm, hp]

theorem splitSign_decNat (n : Nat) : splitSign (decNat n) = (false, decNat n) := by
  cases h : decNat n with
  | nil => exact absurd h (decNat_ne_nil n)
  | cons b s => exact splitSign_of_digit (isDigit_decNat n b (by rw [h]; simp))

/-- **Print/parse inverse** for signed decimals. -/
theorem decimalValue_decInt (x : Int) : decimalValue (decInt x) = some x := by
  unfold decInt decimalValue
  by_cases h : x < 0
  · simp only [if_pos h, splitSign, if_true, isAllDigits_decNat, digitsVal_decNat, Option.some_inj]
    omega
  · simp only [if_neg h, splitSign_decNat, isAllDigits_decNat, if_true, digitsVal_decNat,
      Bool.false_eq_true, if_false, Option.some_inj]
    omega

theorem strtol_decInt {x : Int} (hlo : -(2 ^ 63) ≤ x) (hhi : x < 2 ^ 63) :
    strtol (decInt x) = x := by
  unfold strtol clampLong
  rw [strtolRaw_of_decimalValue (decimalValue_decInt x)]
  omega

/-- `strtoul` reads a printed `long` modulo `2 ^ 64`. -/
theorem strtoul_decInt {x : Int} (hlo : -(2 ^ 63) ≤ x) (hhi : x < 2 ^ 63) :
    strtoul (decInt x) = (x % 2 ^ 64).toNat := by
  have hdigits : ∀ n, (decNat n).takeWhile isDigit = decNat n := fun n =>
    List.takeWhile_eq_self_iff.mpr (isDigit_decNat n)
  unfold strtoul decInt
  by_cases h : x < 0
  · have hs : ((0x2d : UInt8) :: decNat x.natAbs).dropWhile isSpace = 0x2d :: decNat x.natAbs :=
      List.dropWhile_cons_of_neg (by decide)
    simp only [if_pos h, hs, splitSign, if_true, hdigits, digitsVal_decNat]
    rw [if_neg (by omega)]
    omega
  · have hs : (decNat x.natAbs).dropWhile isSpace = decNat x.natAbs := by
      cases hd : decNat x.natAbs with
      | nil => rfl
      | cons b s =>
        refine List.dropWhile_cons_of_neg ?_
        rw [isDigit_not_space (isDigit_decNat x.natAbs b (by rw [hd]; simp))]
        decide
    simp only [if_neg h, hs, splitSign_decNat, hdigits, digitsVal_decNat, Bool.false_eq_true, if_false]
    rw [if_neg (by omega)]
    omega

/-! ## Tokens -/

/-- One `strtok_r` call: skip delimiters, take the longest run of others, and step over the
    delimiter that ends it. Returns the token and the saved position. -/
def strtokR (delims : Bytes) (s : Bytes) : Option (Bytes × Bytes) :=
  match s.dropWhile (delims.contains ·) with
  | [] => none
  | b :: t => some ((b :: t).takeWhile (!delims.contains ·),
      ((b :: t).dropWhile (!delims.contains ·)).drop 1)

theorem dropWhile_prefix_append {α : Type} {p : α → Bool} {s t : List α}
    (h : s.dropWhile p ≠ []) : (s ++ t).dropWhile p = s.dropWhile p ++ t := by
  induction s with
  | nil => exact absurd rfl h
  | cons a s ih =>
    by_cases ha : p a = true
    · rw [List.dropWhile_cons_of_pos ha] at h ⊢
      rw [List.cons_append, List.dropWhile_cons_of_pos ha, ih h]
    · rw [List.dropWhile_cons_of_neg ha, List.cons_append, List.dropWhile_cons_of_neg ha]

theorem takeWhile_append_eq {α : Type} (p : α → Bool) (s t : List α) :
    (s.dropWhile p ≠ [] ∧ (s ++ t).takeWhile p = s.takeWhile p) ∨
      (s.takeWhile p = s ∧ (s ++ t).takeWhile p = s ++ t.takeWhile p ∧
        (s ++ t).dropWhile p = t.dropWhile p) := by
  induction s with
  | nil => exact .inr ⟨rfl, rfl, rfl⟩
  | cons a s ih =>
    by_cases ha : p a = true
    · simp only [List.cons_append, List.takeWhile_cons_of_pos ha, List.dropWhile_cons_of_pos ha]
      rcases ih with ⟨hne, heq⟩ | ⟨hself, htake, hdrop⟩
      · exact .inl ⟨hne, by rw [heq]⟩
      · exact .inr ⟨by rw [hself], by rw [htake], hdrop⟩
    · simp only [List.cons_append, List.takeWhile_cons_of_neg ha, List.dropWhile_cons_of_neg ha]
      exact .inl ⟨by simp, trivial⟩

/-- **Tokens of a cut line.** If a line has a first token, then with more text after it the token
    stays as it is, unless nothing followed it: then it may grow. -/
theorem strtokR_append {delims s tok save : Bytes} (h : strtokR delims s = some (tok, save)) (u : Bytes) :
    strtokR delims (s ++ u) = some (tok, save ++ u) ∨
      (save = [] ∧ strtokR delims (s ++ u) =
        some (tok ++ u.takeWhile (!delims.contains ·), (u.dropWhile (!delims.contains ·)).drop 1)) := by
  unfold strtokR at h ⊢
  cases hd : s.dropWhile (delims.contains ·) with
  | nil => rw [hd] at h; cases h
  | cons b t =>
    rw [hd] at h
    obtain ⟨rfl, rfl⟩ := Prod.mk.inj (Option.some.inj h)
    rw [dropWhile_prefix_append (by rw [hd]; simp), hd, List.cons_append]
    simp only [← List.cons_append]
    rcases takeWhile_append_eq (!delims.contains ·) (b :: t) u with ⟨hne, heq⟩ | ⟨hself, htake, hdrop⟩
    · refine .inl ?_
      rw [heq, dropWhile_prefix_append hne, List.drop_append_of_le_length]
      exact List.length_pos_iff.mpr hne
    · refine .inr ⟨?_, by rw [htake, hdrop, hself]⟩
      have hlen : (b :: t).dropWhile (!delims.contains ·) = [] := by
        have happ := List.takeWhile_append_dropWhile (p := (!delims.contains ·)) (l := b :: t)
        rw [hself] at happ
        exact List.append_right_eq_self.mp happ
      rw [hlen, List.drop_nil]

/-- The token of a text that starts with one. -/
theorem strtokR_token {delims tok rest : Bytes} (hne : tok ≠ []) (htok : tok.all (!delims.contains ·) = true)
    (hrest : ∀ d ∈ rest.head?, delims.contains d = true) :
    strtokR delims (tok ++ rest) = some (tok, rest.drop 1) := by
  cases tok with
  | nil => exact absurd rfl hne
  | cons b t =>
      have hall : ∀ a ∈ b :: t, (!delims.contains a) = true := List.all_eq_true.mp htok
      have hb : delims.contains b = false := by simpa using hall b List.mem_cons_self
      have htake : rest.takeWhile (!delims.contains ·) = [] := by
        cases rest with
        | nil => rfl
        | cons d r => rw [List.takeWhile_cons_of_neg (by rw [hrest d rfl]; simp)]
      have hdrop : rest.dropWhile (!delims.contains ·) = rest := by
        cases rest with
        | nil => rfl
        | cons d r => rw [List.dropWhile_cons_of_neg (by rw [hrest d rfl]; simp)]
      unfold strtokR
      rw [List.cons_append, List.dropWhile_cons_of_neg (by rw [hb]; simp)]
      simp only [← List.cons_append]
      rw [List.takeWhile_append_of_pos hall, List.dropWhile_append_of_pos hall, htake, hdrop, List.append_nil]

/-- A token is never empty. -/
theorem strtokR_ne_nil {delims s tok save : Bytes} (h : strtokR delims s = some (tok, save)) :
    tok ≠ [] := by
  unfold strtokR at h
  cases hd : s.dropWhile (delims.contains ·) with
  | nil => rw [hd] at h; cases h
  | cons b u =>
    rw [hd] at h
    obtain ⟨rfl, -⟩ := Prod.mk.inj (Option.some.inj h)
    have hb : delims.contains b = false := by
      have := List.head_dropWhile_not (p := (delims.contains ·)) (l := s) (by rw [hd]; simp)
      simpa only [hd, List.head_cons] using this
    rw [List.takeWhile_cons_of_pos (by rw [hb]; rfl)]
    simp

end CLib
