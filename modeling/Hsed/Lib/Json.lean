import Hsed.Lib.Utf8

/-!
# `Lib.Json` — JSON texts as Go's `encoding/json` reads them

A parser for the whole of RFC 8259 over bytes, with the two choices RFC 8259 leaves to the reader made as
`encoding/json` makes them: text inside strings that is not UTF-8 (and lone surrogate escapes) becomes
U+FFFD, and nesting is limited to ten thousand levels. Numbers keep their literal; what an integer field
makes of it is decided by `intField`.

The result a protocol needs is `unmarshal_render`: an object printed member by member (`render`) is read back
member by member.
-/

namespace Json

open CLib

inductive Value where
  | null
  | bool (b : Bool)
  | num (lit : Bytes)
  | str (s : Bytes)
  | arr (vs : List Value)
  | obj (kvs : List (Bytes × Value))
  deriving Repr

/-! ## Lexical parts -/

def isWs (b : UInt8) : Bool := b == 0x20 || b == 0x09 || b == 0x0a || b == 0x0d

def skipWs (s : Bytes) : Bytes := s.dropWhile isWs

def isHex (b : UInt8) : Bool :=
  isDigit b || (0x61 ≤ b && b ≤ 0x66) || (0x41 ≤ b && b ≤ 0x46)

def hexVal (b : UInt8) : Nat :=
  if isDigit b then b.toNat - 0x30 else if 0x61 ≤ b then b.toNat - 0x57 else b.toNat - 0x37

/-- The escapes of one letter: what follows the backslash, and the byte it stands for. -/
def simpleEscape (c : UInt8) : Option UInt8 :=
  if c = 0x22 ∨ c = 0x5c ∨ c = 0x2f then some c
  else if c = 0x62 then some 0x08
  else if c = 0x66 then some 0x0c
  else if c = 0x6e then some 0x0a
  else if c = 0x72 then some 0x0d
  else if c = 0x74 then some 0x09
  else none

/-- The number of bytes an escape has after its backslash, `0` for a bad one. -/
def escapeLen : Bytes → Nat
  | [] => 0
  | c :: s =>
    if (simpleEscape c).isSome then 1
    else if c = 0x75 then
      match s with
      | h₁ :: h₂ :: h₃ :: h₄ :: _ => if isHex h₁ && isHex h₂ && isHex h₃ && isHex h₄ then 5 else 0
      | _ => 0
    else 0

/-- `scanStr` with `k` bytes of the current escape still to pass. -/
def scanAux : Nat → Bytes → Option (Bytes × Bytes)
  | _, [] => none
  | k + 1, b :: s => (scanAux k s).map fun (raw, rest) => (b :: raw, rest)
  | 0, b :: s =>
    if b = 0x22 then some ([], s)
    else if b = 0x5c then
      if escapeLen s = 0 then none else (scanAux (escapeLen s) s).map fun (raw, rest) => (b :: raw, rest)
    else if b < 0x20 then none
    else (scanAux 0 s).map fun (raw, rest) => (b :: raw, rest)

/-- The raw contents of a string, after its opening quote, and what follows the closing one. -/
def scanStr (s : Bytes) : Option (Bytes × Bytes) := scanAux 0 s

/-- UTF-8 encoding of a code point. -/
def encodeRune (r : Nat) : Bytes :=
  if r < 0x80 then [UInt8.ofNat r]
  else if r < 0x800 then [UInt8.ofNat (0xc0 + r / 64), UInt8.ofNat (0x80 + r % 64)]
  else if r < 0x10000 then
    [UInt8.ofNat (0xe0 + r / 4096), UInt8.ofNat (0x80 + r / 64 % 64), UInt8.ofNat (0x80 + r % 64)]
  else
    [UInt8.ofNat (0xf0 + r / 262144), UInt8.ofNat (0x80 + r / 4096 % 64),
      UInt8.ofNat (0x80 + r / 64 % 64), UInt8.ofNat (0x80 + r % 64)]

def hex4 (h₁ h₂ h₃ h₄ : UInt8) : Nat :=
  hexVal h₁ * 4096 + hexVal h₂ * 256 + hexVal h₃ * 16 + hexVal h₄

def isHighSurrogate (r : Nat) : Bool := 0xd800 ≤ r && r < 0xdc00
def isLowSurrogate (r : Nat) : Bool := 0xdc00 ≤ r && r < 0xe000

/-- The code unit of a `uXXXX` escape, after its backslash. -/
def unicodeEscape : Bytes → Option Nat
  | u :: h₁ :: h₂ :: h₃ :: h₄ :: _ =>
    if u == 0x75 && isHex h₁ && isHex h₂ && isHex h₃ && isHex h₄ then some (hex4 h₁ h₂ h₃ h₄) else none
  | _ => none

/-- What a high surrogate `r` makes with the escape after it: the rune and the bytes that escape takes. -/
def surrogatePair (r : Nat) (s : Bytes) : Bytes × Nat :=
  match s with
  | e :: t =>
    match (if e = 0x5c then unicodeEscape t else none) with
    | some l =>
      if isLowSurrogate l then (encodeRune (0x10000 + (r - 0xd800) * 1024 + (l - 0xdc00)), 6)
      else (Utf8.replacement, 0)
    | none => (Utf8.replacement, 0)
  | [] => (Utf8.replacement, 0)

/-- The text an escape stands for, given what follows its backslash, and how many bytes it takes. A
    surrogate that is not part of a pair becomes U+FFFD. -/
def escapeAt : Bytes → Bytes × Nat
  | [] => ([], 0)
  | c :: s =>
    match simpleEscape c with
    | some a => ([a], 1)
    | none =>
      match unicodeEscape (c :: s) with
      | none => ([], 1)
      | some r =>
        if isHighSurrogate r then
          let (out, k) := surrogatePair r (s.drop 4)
          (out, 5 + k)
        else if isLowSurrogate r then (Utf8.replacement, 5)
        else (encodeRune r, 5)

/-- `unescape` with `k` bytes of the current escape still to skip. -/
def unescapeAux : Nat → Bytes → Bytes
  | _, [] => []
  | k + 1, _ :: s => unescapeAux k s
  | 0, b :: s =>
    if b = 0x5c then (escapeAt s).1 ++ unescapeAux (escapeAt s).2 s else b :: unescapeAux 0 s

/-- Resolves the escapes of a scanned string. -/
def unescape (s : Bytes) : Bytes := unescapeAux 0 s

/-- A string value, after its opening quote. -/
def parseStr (s : Bytes) : Option (Bytes × Bytes) :=
  (scanStr s).map fun (raw, rest) => (Utf8.coerce (unescape raw), rest)

/-- A run of at least one digit. -/
def digits1 (s : Bytes) : Option (Bytes × Bytes) :=
  match s.takeWhile isDigit with
  | [] => none
  | ds => some (ds, s.dropWhile isDigit)

/-- The integer part of a number: a single zero, or digits that do not start with one. -/
def intPart : Bytes → Option (Bytes × Bytes)
  | b :: s => if b = 0x30 then some ([b], s) else digits1 (b :: s)
  | [] => none

/-- The optional fraction. -/
def fracPart : Bytes → Option (Bytes × Bytes)
  | b :: s => if b = 0x2e then (digits1 s).map fun (ds, rest) => (b :: ds, rest) else some ([], b :: s)
  | [] => some ([], [])

/-- The optional exponent. -/
def expPart : Bytes → Option (Bytes × Bytes)
  | b :: s =>
    if b = 0x65 ∨ b = 0x45 then
      match s with
      | c :: s =>
        if c = 0x2b ∨ c = 0x2d then (digits1 s).map fun (ds, rest) => (b :: c :: ds, rest)
        else (digits1 (c :: s)).map fun (ds, rest) => (b :: ds, rest)
      | [] => none
    else some ([], b :: s)
  | [] => some ([], [])

/-- A number without its sign. -/
def parseUnsigned (s : Bytes) : Option (Bytes × Bytes) := do
  let (i, s) ← intPart s
  let (f, s) ← fracPart s
  let (e, s) ← expPart s
  pure (i ++ f ++ e, s)

/-- A number literal. -/
def parseNumber : Bytes → Option (Bytes × Bytes)
  | b :: s =>
    if b = 0x2d then (parseUnsigned s).map fun (lit, rest) => (b :: lit, rest) else parseUnsigned (b :: s)
  | [] => none

/-- Strips a keyword. -/
def keyword (w : Bytes) (s : Bytes) : Option Bytes :=
  if w.isPrefixOf s then some (s.drop w.length) else none

/-! ## Values -/

mutual

/-- A value at the head of `s` (no leading white space). `fuel` bounds the recursion, `depth` the
    nesting. -/
def parseValue : Nat → Nat → Bytes → Option (Value × Bytes)
  | 0, _, _ => none
  | _, _, [] => none
  | fuel + 1, depth, b :: s =>
    if b = 0x7b then
      if depth = 0 then none
      else
        match skipWs s with
        | [] => none
        | c :: t =>
          if c = 0x7d then some (.obj [], t)
          else (parseMembers fuel (depth - 1) (c :: t)).map fun (kvs, rest) => (.obj kvs, rest)
    else if b = 0x5b then
      if depth = 0 then none
      else
        match skipWs s with
        | [] => none
        | c :: t =>
          if c = 0x5d then some (.arr [], t)
          else (parseElems fuel (depth - 1) (c :: t)).map fun (vs, rest) => (.arr vs, rest)
    else if b = 0x22 then (parseStr s).map fun (str, rest) => (.str str, rest)
    else if b = 0x6e then (keyword (ascii "ull") s).map fun rest => (.null, rest)
    else if b = 0x74 then (keyword (ascii "rue") s).map fun rest => (.bool true, rest)
    else if b = 0x66 then (keyword (ascii "alse") s).map fun rest => (.bool false, rest)
    else (parseNumber (b :: s)).map fun (lit, rest) => (.num lit, rest)

/-- The members of an object, up to and including its closing brace. -/
def parseMembers : Nat → Nat → Bytes → Option (List (Bytes × Value) × Bytes)
  | 0, _, _ => none
  | _, _, [] => none
  | fuel + 1, depth, b :: s =>
    if b ≠ 0x22 then none
    else
      match parseStr s with
      | none => none
      | some (key, s) =>
        match skipWs s with
        | [] => none
        | c :: s =>
          if c ≠ 0x3a then none
          else
            match parseValue fuel depth (skipWs s) with
            | none => none
            | some (v, s) =>
              match skipWs s with
              | [] => none
              | c :: s =>
                if c = 0x7d then some ([(key, v)], s)
                else if c = 0x2c then
                  (parseMembers fuel depth (skipWs s)).map fun (kvs, rest) => ((key, v) :: kvs, rest)
                else none

/-- The elements of an array, up to and including its closing bracket. -/
def parseElems : Nat → Nat → Bytes → Option (List Value × Bytes)
  | 0, _, _ => none
  | fuel + 1, depth, s =>
    match parseValue fuel depth s with
    | none => none
    | some (v, s) =>
      match skipWs s with
      | [] => none
      | c :: s =>
        if c = 0x5d then some ([v], s)
        else if c = 0x2c then
          (parseElems fuel depth (skipWs s)).map fun (vs, rest) => (v :: vs, rest)
        else none

end

/-- `encoding/json`'s nesting limit. -/
def maxNestingDepth : Nat := 10000

/-- The value of a complete JSON text; `none` is a syntax error. -/
def unmarshal (s : Bytes) : Option Value :=
  match parseValue (s.length + 1) maxNestingDepth (skipWs s) with
  | none => none
  | some (v, rest) => if skipWs rest = [] then some v else none

/-! ## Decoding into a record

`json.Unmarshal` into a struct: members are taken in order, a member finds its field by exact name or
else by a case-insensitive one, unknown members are skipped, `null` stores nothing, and a value of the
wrong type makes the whole call an error. -/

/-- Case folding of a key, as far as it can reach an ASCII name: besides the letters, the Kelvin sign
    folds to `k` and the long s to `s`. -/
def foldName : Bytes → Bytes
  | 0xe2 :: 0x84 :: 0xaa :: s => 0x6b :: foldName s
  | 0xc5 :: 0xbf :: s => 0x73 :: foldName s
  | b :: s => toLower b :: foldName s
  | [] => []

/-- A struct field: its name in the text and how a value is stored. -/
structure Field (σ : Type) where
  name : Bytes
  store : Value → σ → Option σ

def findField {σ : Type} (fields : List (Field σ)) (key : Bytes) : Option (Field σ) :=
  match fields.find? fun f => f.name = key with
  | some f => some f
  | none => fields.find? fun f => foldName f.name = foldName key

def storeMember {σ : Type} (fields : List (Field σ)) (st : σ) (kv : Bytes × Value) : Option σ :=
  match findField fields kv.1 with
  | none => some st
  | some f => f.store kv.2 st

def decodeStruct {σ : Type} (fields : List (Field σ)) (zero : σ) : Value → Option σ
  | .null => some zero
  | .obj kvs => kvs.foldlM (storeMember fields) zero
  | _ => none

/-- A field of type `string`. -/
def stringField {σ : Type} (name : Bytes) (set : Bytes → σ → σ) : Field σ :=
  ⟨name, fun v st => match v with
    | .null => some st
    | .str s => some (set s st)
    | _ => none⟩

/-- A field of type `bool`. -/
def boolField {σ : Type} (name : Bytes) (set : Bool → σ → σ) : Field σ :=
  ⟨name, fun v st => match v with
    | .null => some st
    | .bool b => some (set b st)
    | _ => none⟩

/-- A field of an integer type with values in `[lo, hi)`; the literal must be an integer. -/
def intField {σ : Type} (name : Bytes) (lo hi : Int) (set : Int → σ → σ) : Field σ :=
  ⟨name, fun v st => match v with
    | .null => some st
    | .num lit =>
      match decimalValue lit with
      | some x => if lo ≤ x ∧ x < hi then some (set x st) else none
      | none => none
    | _ => none⟩

/-- A field of type `int` or `int64`. -/
def int64Field {σ : Type} (name : Bytes) (set : Int → σ → σ) : Field σ :=
  intField name (-(2 ^ 63)) (2 ^ 63) set

/-- A field of type `uint64`, whose literal may not have a sign, not even that of `-0`. -/
def uint64Field {σ : Type} (name : Bytes) (set : Int → σ → σ) : Field σ :=
  ⟨name, fun v st => match v with
    | .null => some st
    | .num lit => if isAllDigits lit ∧ digitsVal lit < 2 ^ 64 then some (set (digitsVal lit) st) else none
    | _ => none⟩

/-! ## Strings as a printer writes them -/

/-- A byte that stands for itself inside a string. -/
def plain (b : UInt8) : Prop := 0x20 ≤ b ∧ b ≠ 0x22 ∧ b ≠ 0x5c

instance (b : UInt8) : Decidable (plain b) := inferInstanceAs (Decidable (_ ∧ _ ∧ _))

/-- `Escaped raw text`: the string contents `raw` spell the bytes `text`. -/
inductive Escaped : Bytes → Bytes → Prop where
  | nil : Escaped [] []
  | byte {b : UInt8} {raw text : Bytes} : plain b → Escaped raw text → Escaped (b :: raw) (b :: text)
  | simple {c a : UInt8} {raw text : Bytes} : simpleEscape c = some a → Escaped raw text →
      Escaped (0x5c :: c :: raw) (a :: text)
  | control {h₁ h₂ h₃ h₄ a : UInt8} {raw text : Bytes} :
      (isHex h₁ && isHex h₂ && isHex h₃ && isHex h₄) = true → hex4 h₁ h₂ h₃ h₄ = a.toNat → a < 0x80 →
      Escaped raw text → Escaped (0x5c :: 0x75 :: h₁ :: h₂ :: h₃ :: h₄ :: raw) (a :: text)

theorem Escaped.append {raw text raw' text' : Bytes} (h : Escaped raw text) (h' : Escaped raw' text') :
    Escaped (raw ++ raw') (text ++ text') := by
  induction h with
  | nil => exact h'
  | byte hb _ ih => exact .byte hb ih
  | simple hc _ ih => exact .simple hc ih
  | control hx hv ha _ ih => exact .control hx hv ha ih

theorem Escaped.of_plain {s : Bytes} (h : ∀ b ∈ s, plain b) : Escaped s s := by
  induction s with
  | nil => exact .nil
  | cons b s ih =>
      rw [List.forall_mem_cons] at h
      exact .byte h.1 (ih h.2)

/-- `plain`, for a whole text and by evaluation. -/
def plainText (s : Bytes) : Bool := s.all fun b => decide (plain b)

theorem plain_of_plainText {s : Bytes} (h : plainText s = true) : ∀ b ∈ s, plain b := by
  intro b hb
  exact of_decide_eq_true (List.all_eq_true.mp h b hb)

theorem scanStr_escaped {raw text : Bytes} (h : Escaped raw text) (rest : Bytes) :
    scanStr (raw ++ 0x22 :: rest) = some (raw, rest) := by
  unfold scanStr
  induction h with
  | nil => rfl
  | @byte b raw text hb h ih =>
      obtain ⟨hlo, hq, hs⟩ := hb
      rw [List.cons_append, scanAux, if_neg hq, if_neg hs, if_neg (UInt8.not_lt.mpr hlo), ih]
      rfl
  | @simple c a raw text hc h ih =>
      have hlen : escapeLen (c :: (raw ++ 0x22 :: rest)) = 1 := by simp [escapeLen, hc]
      rw [List.cons_append, List.cons_append, scanAux, if_neg (by decide), if_pos rfl, hlen,
        if_neg (by decide), scanAux, ih]
      rfl
  | @control h₁ h₂ h₃ h₄ a raw text hx hv ha h ih =>
      have hlen : escapeLen (0x75 :: h₁ :: h₂ :: h₃ :: h₄ :: (raw ++ 0x22 :: rest)) = 5 := by
        rw [escapeLen, if_neg (by decide), if_pos rfl]
        exact if_pos hx
      simp only [List.cons_append]
      rw [scanAux, if_neg (by decide), if_pos rfl, hlen, if_neg (by decide)]
      simp only [scanAux, ih, Option.map_some]

theorem encodeRune_ascii {a : UInt8} (h : a < 0x80) : encodeRune a.toNat = [a] := by
  have hlt : a.toNat < 0x80 := by simpa [UInt8.lt_iff_toNat_lt] using h
  unfold encodeRune
  rw [if_pos hlt, UInt8.ofNat_toNat]

theorem unescape_escaped {raw text : Bytes} (h : Escaped raw text) : unescape raw = text := by
  unfold unescape
  induction h with
  | nil => rfl
  | @byte b raw text hb h ih =>
      rw [unescapeAux, if_neg hb.2.2, ih]
  | @simple c a raw text hc h ih =>
      rw [unescapeAux, if_pos rfl]
      simp only [escapeAt, hc, unescapeAux, ih, List.singleton_append]
  | @control h₁ h₂ h₃ h₄ a raw text hx hv ha h ih =>
      have hlt : a.toNat < 0x80 := by simpa [UInt8.lt_iff_toNat_lt] using ha
      have hu : unicodeEscape (0x75 :: h₁ :: h₂ :: h₃ :: h₄ :: raw) = some a.toNat := by
        rw [← hv, unicodeEscape, if_pos]
        simpa [and_assoc] using hx
      have hhi : isHighSurrogate a.toNat = false := by simp [isHighSurrogate]; omega
      have hlo : isLowSurrogate a.toNat = false := by simp [isLowSurrogate]; omega
      have hat : escapeAt (0x75 :: h₁ :: h₂ :: h₃ :: h₄ :: raw) = ([a], 5) := by
        rw [escapeAt]
        simp only [show simpleEscape 0x75 = none from rfl, hu, hhi, hlo, encodeRune_ascii ha]
        rfl
      rw [unescapeAux, if_pos rfl, hat]
      simp only [unescapeAux, ih, List.singleton_append]

theorem parseStr_escaped {raw text : Bytes} (h : Escaped raw text) (rest : Bytes) :
    parseStr (raw ++ 0x22 :: rest) = some (Utf8.coerce text, rest) := by
  rw [parseStr, scanStr_escaped h, Option.map_some]
  simp only [unescape_escaped h]

/-! ## Objects as a printer writes them -/

/-- What ends a value inside an object. -/
def closes (c : UInt8) : Prop := c = 0x2c ∨ c = 0x7d

/-- `text` is read as the value `v`, whatever follows the comma or brace after it. -/
structure Reads (text : Bytes) (v : Value) : Prop where
  head : ∃ b t, text = b :: t ∧ isWs b = false
  parse : ∀ (fuel depth : Nat) (c : UInt8) (rest : Bytes), closes c →
    parseValue (fuel + 1) depth (text ++ c :: rest) = some (v, c :: rest)

theorem skipWs_cons {b : UInt8} (h : isWs b = false) (s : Bytes) : skipWs (b :: s) = b :: s := by
  rw [skipWs, List.dropWhile_cons_of_neg (by simp [h])]

/-- A quoted string. -/
theorem reads_str {raw text : Bytes} (h : Escaped raw text) :
    Reads (0x22 :: (raw ++ [0x22])) (.str (Utf8.coerce text)) where
  head := ⟨_, _, rfl, by decide⟩
  parse := by
    intro fuel depth c rest _
    rw [List.cons_append, List.append_assoc, List.singleton_append, parseValue, if_neg (by decide),
      if_neg (by decide), if_pos rfl, parseStr_escaped h]
    rfl

theorem reads_true : Reads (ascii "true") (.bool true) where
  head := ⟨_, _, rfl, by decide⟩
  parse := fun _ _ _ _ _ => rfl

theorem reads_false : Reads (ascii "false") (.bool false) where
  head := ⟨_, _, rfl, by decide⟩
  parse := fun _ _ _ _ _ => rfl

theorem fracPart_close {c : UInt8} (h : closes c) (rest : Bytes) :
    fracPart (c :: rest) = some ([], c :: rest) := by
  rcases h with rfl | rfl <;> rfl

theorem expPart_close {c : UInt8} (h : closes c) (rest : Bytes) :
    expPart (c :: rest) = some ([], c :: rest) := by
  rcases h with rfl | rfl <;> rfl

theorem not_isDigit_close {c : UInt8} (h : closes c) : isDigit c = false := by
  rcases h with rfl | rfl <;> rfl

/-- Decimal digits are a number. -/
theorem parseUnsigned_decNat (n : Nat) {c : UInt8} (hc : closes c) (rest : Bytes) :
    parseUnsigned (decNat n ++ c :: rest) = some (decNat n, c :: rest) := by
  have hint : intPart (decNat n ++ c :: rest) = some (decNat n, c :: rest) := by
    rcases Nat.eq_zero_or_pos n with rfl | hn
    · rw [decNat_zero]; rfl
    · have hd := isDigit_decNat n
      have hhead := decNat_head hn
      cases hs : decNat n with
      | nil => exact absurd hs (decNat_ne_nil n)
      | cons b s =>
          rw [hs] at hd hhead
          have hne : b ≠ 0x30 := by simpa using hhead
          have hstop : ¬ isDigit c = true := by simp [not_isDigit_close hc]
          rw [List.cons_append, intPart, if_neg hne, ← List.cons_append, digits1,
            List.takeWhile_append_of_pos hd, List.dropWhile_append_of_pos hd,
            List.takeWhile_cons_of_neg hstop, List.dropWhile_cons_of_neg hstop, List.append_nil]
  simp only [parseUnsigned, hint, fracPart_close hc, expPart_close hc, Option.bind_eq_bind,
    Option.bind_some, Option.pure_def, List.append_nil]

/-- A byte that can start a number and nothing else. -/
def numberStart (b : UInt8) : Prop := b = 0x2d ∨ isDigit b = true

theorem parseValue_number {fuel depth : Nat} {b : UInt8} {s lit rest : Bytes} (hb : numberStart b)
    (h : parseNumber (b :: s) = some (lit, rest)) :
    parseValue (fuel + 1) depth (b :: s) = some (.num lit, rest) := by
  have hne : ∀ x : UInt8, ¬ numberStart x → b ≠ x := fun x hx heq => hx (heq ▸ hb)
  rw [parseValue, if_neg (hne 0x7b (by simp [numberStart, isDigit])),
    if_neg (hne 0x5b (by simp [numberStart, isDigit])), if_neg (hne 0x22 (by simp [numberStart, isDigit])),
    if_neg (hne 0x6e (by simp [numberStart, isDigit])), if_neg (hne 0x74 (by simp [numberStart, isDigit])),
    if_neg (hne 0x66 (by simp [numberStart, isDigit])), h]
  rfl

theorem not_isWs_numberStart {b : UInt8} (h : numberStart b) : isWs b = false := by
  simp only [numberStart, isDigit, isWs] at h ⊢
  grind

theorem decNat_cons (n : Nat) : ∃ b s, decNat n = b :: s ∧ isDigit b = true := by
  cases hs : decNat n with
  | nil => exact absurd hs (decNat_ne_nil n)
  | cons b s => exact ⟨b, s, rfl, isDigit_decNat n b (by rw [hs]; simp)⟩

/-- The text `printf` writes for an unsigned integer. -/
theorem reads_decNat (n : Nat) : Reads (decNat n) (.num (decNat n)) := by
  obtain ⟨b, s, hs, hb⟩ := decNat_cons n
  refine ⟨⟨b, s, hs, not_isWs_numberStart (.inr hb)⟩, ?_⟩
  intro fuel depth c rest hc
  have hp := parseUnsigned_decNat n hc rest
  have hne : b ≠ 0x2d := by rintro rfl; cases hb
  rw [hs, List.cons_append] at hp ⊢
  refine parseValue_number (.inr hb) ?_
  rw [parseNumber, if_neg hne, hp]

/-- The text `printf` writes for a signed integer. -/
theorem reads_decInt (x : Int) : Reads (decInt x) (.num (decInt x)) := by
  unfold decInt
  split
  · refine ⟨⟨_, _, rfl, by decide⟩, ?_⟩
    intro fuel depth c rest hc
    refine parseValue_number (.inl rfl) ?_
    show parseNumber (0x2d :: (decNat x.natAbs ++ c :: rest)) = _
    rw [parseNumber, if_pos rfl, parseUnsigned_decNat _ hc]
    rfl
  · exact reads_decNat _

/-- One member of a printed object. -/
structure Member where
  key : Bytes
  text : Bytes
  val : Value

/-- `"key":value`. -/
def Member.render (m : Member) : Bytes := 0x22 :: (m.key ++ 0x22 :: 0x3a :: m.text)

def renderMembers : List Member → Bytes
  | [] => []
  | [m] => m.render
  | m :: ms => m.render ++ 0x2c :: renderMembers ms

/-- An object, member by member, without white space. -/
def render (ms : List Member) : Bytes := 0x7b :: (renderMembers ms ++ [0x7d])

/-- A member the parser reads back: a plain ASCII key and a value text that is read as its value. -/
structure Member.Ok (m : Member) : Prop where
  key : ∀ b ∈ m.key, plain b ∧ b < 0x80
  reads : Reads m.text m.val

theorem coerce_of_ascii {s : Bytes} (h : ∀ b ∈ s, b < 0x80) : Utf8.coerce s = s := by
  induction s with
  | nil => rfl
  | cons b s ih =>
      rw [List.forall_mem_cons] at h
      rw [Utf8.coerce_cons_ascii h.1, ih h.2]

theorem Member.Ok.parseKey {m : Member} (h : m.Ok) (rest : Bytes) :
    parseStr (m.key ++ 0x22 :: rest) = some (m.key, rest) := by
  rw [parseStr_escaped (Escaped.of_plain fun b hb => (h.key b hb).1),
    coerce_of_ascii fun b hb => (h.key b hb).2]

theorem Member.Ok.skipWs_text {m : Member} (h : m.Ok) (rest : Bytes) :
    skipWs (m.text ++ rest) = m.text ++ rest := by
  obtain ⟨b, t, ht, hb⟩ := h.reads.head
  rw [ht, List.cons_append, skipWs_cons hb]

/-- The last member, up to the closing brace. -/
theorem parseMembers_last {m : Member} (h : m.Ok) (fuel depth : Nat) (rest : Bytes) :
    parseMembers (fuel + 2) depth (m.render ++ 0x7d :: rest) = some ([(m.key, m.val)], rest) := by
  simp only [Member.render, List.cons_append, List.append_assoc]
  rw [parseMembers, if_neg (by simp), h.parseKey]
  simp only [skipWs_cons (show isWs 0x3a = false from rfl), h.skipWs_text,
    h.reads.parse fuel depth 0x7d rest (.inr rfl), skipWs_cons (show isWs 0x7d = false from rfl)]
  rfl

/-- A member that is not the last. -/
theorem parseMembers_cons {m : Member} (h : m.Ok) (fuel depth : Nat) (rest : Bytes) :
    parseMembers (fuel + 2) depth (m.render ++ 0x2c :: rest) =
      (parseMembers (fuel + 1) depth (skipWs rest)).map fun (kvs, rest) => ((m.key, m.val) :: kvs, rest) := by
  simp only [Member.render, List.cons_append, List.append_assoc]
  rw [parseMembers, if_neg (by simp), h.parseKey]
  simp only [skipWs_cons (show isWs 0x3a = false from rfl), h.skipWs_text,
    h.reads.parse fuel depth 0x2c rest (.inl rfl), skipWs_cons (show isWs 0x2c = false from rfl)]
  rfl

theorem skipWs_render (m : Member) (s : Bytes) : skipWs (m.render ++ s) = m.render ++ s := by
  rw [Member.render, List.cons_append, skipWs_cons (by decide)]

theorem skipWs_renderMembers {ms : List Member} (hne : ms ≠ []) (s : Bytes) :
    skipWs (renderMembers ms ++ s) = renderMembers ms ++ s := by
  match ms with
  | [] => exact absurd rfl hne
  | [m] => exact skipWs_render m s
  | m :: m' :: ms =>
      rw [renderMembers, List.append_assoc, skipWs_render]
      exact List.cons_ne_nil _ _

theorem parseMembers_render {ms : List Member} (hne : ms ≠ []) (h : ∀ m ∈ ms, m.Ok) (depth : Nat)
    (rest : Bytes) : ∀ fuel, ms.length < fuel →
      parseMembers fuel depth (renderMembers ms ++ 0x7d :: rest) =
        some (ms.map fun m => (m.key, m.val), rest) := by
  induction ms with
  | nil => exact absurd rfl hne
  | cons m ms ih =>
      intro fuel hf
      rw [List.forall_mem_cons] at h
      obtain ⟨fuel, rfl⟩ : ∃ k, fuel = k + 2 := ⟨fuel - 2, by simp at hf; omega⟩
      cases ms with
      | nil => exact parseMembers_last h.1 fuel depth rest
      | cons m' ms =>
          rw [renderMembers, List.append_assoc, List.cons_append, parseMembers_cons h.1,
            skipWs_renderMembers (by simp),
            ih (by simp) h.2 (fuel + 1) (by simp at hf ⊢; omega)]
          · rfl
          · exact List.cons_ne_nil _ _

theorem length_renderMembers (ms : List Member) : ms.length ≤ (renderMembers ms).length := by
  induction ms with
  | nil => exact Nat.le_refl 0
  | cons m ms ih =>
      cases ms with
      | nil => simp [renderMembers, Member.render]
      | cons m' ms =>
          rw [renderMembers]
          · simp only [List.length_append, List.length_cons] at ih ⊢
            omega
          · exact List.cons_ne_nil _ _

theorem renderMembers_head {ms : List Member} (hne : ms ≠ []) (s : Bytes) :
    ∃ t, renderMembers ms ++ s = 0x22 :: t := by
  match ms with
  | [] => exact absurd rfl hne
  | [m] => exact ⟨_, rfl⟩
  | m :: m' :: ms => exact ⟨_, rfl⟩

/-- The value of a text whose members start at `s`. -/
theorem parseValue_object {s : Bytes} (fuel depth : Nat) (h : ∃ t, s = 0x22 :: t) :
    parseValue (fuel + 1) (depth + 1) (0x7b :: s) =
      (parseMembers fuel depth s).map fun (kvs, rest) => (.obj kvs, rest) := by
  obtain ⟨t, rfl⟩ := h
  rw [parseValue, if_pos rfl, if_neg (by omega), skipWs_cons (by decide)]
  simp only
  rw [if_neg (by decide), Nat.add_sub_cancel]

/-- **Round trip.** A printed object is read back member by member. -/
theorem unmarshal_render {ms : List Member} (hne : ms ≠ []) (h : ∀ m ∈ ms, m.Ok) :
    unmarshal (render ms) = some (.obj (ms.map fun m => (m.key, m.val))) := by
  have hlen := length_renderMembers ms
  rw [unmarshal, render, skipWs_cons (by decide), maxNestingDepth,
    parseValue_object _ _ (renderMembers_head hne _),
    parseMembers_render hne h _ [] _ (by simp; omega)]
  rfl

/-! ## Printed objects are printable -/

/-- No control byte, so in particular no line break. -/
def Printable (s : Bytes) : Prop := ∀ b ∈ s, 0x20 ≤ b

theorem printable_of_plainText {s : Bytes} (h : plainText s = true) : Printable s :=
  fun b hb => (plain_of_plainText h b hb).1

theorem printable_append {s t : Bytes} (hs : Printable s) (ht : Printable t) : Printable (s ++ t) := by
  intro b hb
  rcases List.mem_append.mp hb with h | h
  · exact hs b h
  · exact ht b h

theorem printable_cons {a : UInt8} {s : Bytes} (ha : 0x20 ≤ a) (hs : Printable s) : Printable (a :: s) :=
  List.forall_mem_cons.mpr ⟨ha, hs⟩

theorem printable_isHex {h : UInt8} (hh : isHex h = true) : 0x20 ≤ h := by
  simp only [isHex, isDigit] at hh
  grind

theorem printable_simpleEscape {c a : UInt8} (h : simpleEscape c = some a) : 0x20 ≤ c := by
  simp only [simpleEscape] at h
  grind

theorem Escaped.printable {raw text : Bytes} (h : Escaped raw text) : Printable raw := by
  induction h with
  | nil => exact List.forall_mem_nil _
  | byte hb _ ih => exact printable_cons hb.1 ih
  | simple hc _ ih => exact printable_cons (by decide) (printable_cons (printable_simpleEscape hc) ih)
  | control hx _ _ _ ih =>
      simp only [Bool.and_eq_true] at hx
      obtain ⟨⟨⟨h₁, h₂⟩, h₃⟩, h₄⟩ := hx
      exact printable_cons (by decide) (printable_cons (by decide) (printable_cons (printable_isHex h₁)
        (printable_cons (printable_isHex h₂) (printable_cons (printable_isHex h₃)
          (printable_cons (printable_isHex h₄) ih)))))

theorem printable_decNat (n : Nat) : Printable (decNat n) := by
  intro b hb
  have hd := isDigit_iff.mp (isDigit_decNat n b hb)
  rw [UInt8.le_iff_toNat_le]
  exact Nat.le_trans (by decide) hd.1

theorem printable_decInt (x : Int) : Printable (decInt x) := by
  unfold decInt
  split
  · exact printable_cons (by decide) (printable_decNat _)
  · exact printable_decNat _

theorem Member.Ok.printable_render {m : Member} (h : m.Ok) (ht : Printable m.text) :
    Printable m.render :=
  printable_cons (by decide) (printable_append (fun b hb => (h.key b hb).1.1)
    (printable_cons (by decide) (printable_cons (by decide) ht)))

theorem printable_renderMembers {ms : List Member} (h : ∀ m ∈ ms, m.Ok)
    (ht : ∀ m ∈ ms, Printable m.text) : Printable (renderMembers ms) := by
  induction ms with
  | nil => exact List.forall_mem_nil _
  | cons m ms ih =>
      rw [List.forall_mem_cons] at h ht
      cases ms with
      | nil => exact h.1.printable_render ht.1
      | cons m' ms =>
          rw [renderMembers]
          · exact printable_append (h.1.printable_render ht.1) (printable_cons (by decide) (ih h.2 ht.2))
          · exact List.cons_ne_nil _ _

theorem printable_render {ms : List Member} (h : ∀ m ∈ ms, m.Ok) (ht : ∀ m ∈ ms, Printable m.text) :
    Printable (render ms) :=
  printable_cons (by decide) (printable_append (printable_renderMembers h ht)
    (printable_cons (by decide) (List.forall_mem_nil _)))

end Json
