import Hsed.Client.Client

/-!
# `Client.Correctness.Decode` — the client on lines a printer wrote

One lemma for each kind of field (`storeMember_int`, `storeMember_str`, …) and `readEnvelope_line`: a line
without control bytes is handed to `json.Unmarshal` exactly as it was sent.
-/

namespace Hsed
namespace Client

open CLib

/-! ## Fields -/

section
variable {σ : Type} {fields : List (Json.Field σ)} {key : Bytes} {st : σ}

theorem storeMember_int {set : Int → σ → σ} {x : Int}
    (hf : Json.findField fields key = some (Json.int64Field key set))
    (hlo : -(2 ^ 63) ≤ x) (hhi : x < 2 ^ 63) :
    Json.storeMember fields st (key, .num (decInt x)) = some (set x st) := by
  rw [Json.storeMember, hf]
  simp only [Json.int64Field, Json.intField, decimalValue_decInt, if_pos (And.intro hlo hhi)]

theorem decInt_natCast (n : Nat) : decInt (n : Int) = decNat n := by
  rw [decInt, if_neg (by omega), Int.natAbs_natCast]

theorem storeMember_nat {set : Int → σ → σ} {n : Nat}
    (hf : Json.findField fields key = some (Json.int64Field key set)) (hhi : n < 2 ^ 63) :
    Json.storeMember fields st (key, .num (decNat n)) = some (set n st) := by
  rw [← decInt_natCast]
  exact storeMember_int hf (by omega) (by omega)

/-- A number beyond `int64` is a decoding error. -/
theorem storeMember_nat_big {set : Int → σ → σ} {n : Nat}
    (hf : Json.findField fields key = some (Json.int64Field key set)) (hbig : 2 ^ 63 ≤ n) :
    Json.storeMember fields st (key, .num (decNat n)) = none := by
  rw [← decInt_natCast, Json.storeMember, hf]
  simp only [Json.int64Field, Json.intField, decimalValue_decInt]
  rw [if_neg (by omega)]

theorem storeMember_uint {set : Int → σ → σ} {n : Nat}
    (hf : Json.findField fields key = some (Json.uint64Field key set)) (hhi : n < 2 ^ 64) :
    Json.storeMember fields st (key, .num (decNat n)) = some (set n st) := by
  rw [Json.storeMember, hf]
  simp only [Json.uint64Field, digitsVal_decNat]
  rw [if_pos ⟨isAllDigits_decNat n, hhi⟩]

theorem storeMember_str {set : Bytes → σ → σ} {s : Bytes}
    (hf : Json.findField fields key = some (Json.stringField key set)) :
    Json.storeMember fields st (key, .str s) = some (set s st) := by
  rw [Json.storeMember, hf]
  rfl

theorem storeMember_bool {set : Bool → σ → σ} {b : Bool}
    (hf : Json.findField fields key = some (Json.boolField key set)) :
    Json.storeMember fields st (key, .bool b) = some (set b st) := by
  rw [Json.storeMember, hf]
  rfl

/-- Members are stored one after the other. -/
theorem foldlM_storeMember {kv : Bytes × Json.Value} {kvs : List (Bytes × Json.Value)} {st' fin : σ}
    (h : Json.storeMember fields st kv = some st')
    (hrest : kvs.foldlM (Json.storeMember fields) st' = some fin) :
    (kv :: kvs).foldlM (Json.storeMember fields) st = some fin := by
  rw [List.foldlM_cons, h]
  exact hrest

theorem foldlM_storeMember_none {kv kv' : Bytes × Json.Value} {kvs : List (Bytes × Json.Value)} {st' : σ}
    (h : Json.storeMember fields st kv = some st') (hnone : Json.storeMember fields st' kv' = none) :
    (kv :: kv' :: kvs).foldlM (Json.storeMember fields) st = none := by
  rw [List.foldlM_cons, h]
  simp only [Option.bind_eq_bind, Option.bind_some, List.foldlM_cons, hnone, Option.bind_none]

theorem storeMember_unknown {v : Json.Value} (hf : Json.findField fields key = none) :
    Json.storeMember fields st (key, v) = some st := by
  rw [Json.storeMember, hf]

end

/-! ## Lines -/

theorem trimRight_printable {s : Bytes} (h : Json.Printable s) : trimRight s = s := by
  rw [trimRight, List.dropWhile_eq_self_iff.mpr, List.reverse_reverse]
  intro hl
  have hmem : s.reverse[0] ∈ s := List.mem_reverse.mp (List.getElem_mem _)
  have hb := h _ hmem
  generalize s.reverse[0] = b at hb
  simp only [Bool.or_eq_true, beq_iff_eq, not_or]
  constructor
  · rintro rfl; exact absurd hb (by decide)
  · rintro rfl; exact absurd hb (by decide)

theorem trimRight_newline (line : Bytes) : trimRight (line ++ [0x0a]) = trimRight line := by
  rw [trimRight, List.reverse_append, List.reverse_singleton, List.singleton_append,
    List.dropWhile_cons_of_pos (by decide)]
  rfl

theorem newline_notMem_of_printable {line : Bytes} (h : Json.Printable line) : 0x0a ∉ line :=
  fun hm => absurd (h _ hm) (by decide)

theorem bne_newline {line : Bytes} (h : 0x0a ∉ line) : ∀ b ∈ line, (b != 0x0a) = true := by
  intro b hb
  rw [bne_iff_ne]
  rintro rfl
  exact h hb

theorem readString_line {line : Bytes} (h : 0x0a ∉ line) (rest : Bytes) :
    readString (line ++ 0x0a :: rest) = (line ++ [0x0a], false, rest) := by
  have hne := bne_newline h
  rw [readString, List.dropWhile_append_of_pos hne, List.dropWhile_cons_of_neg (by decide),
    List.takeWhile_append_of_pos hne, List.takeWhile_cons_of_neg (by decide), List.append_nil]

/-- `readEnvelope` on a line with its newline. -/
theorem readEnvelope_terminated {line : Bytes} (h : 0x0a ∉ line) (rest : Bytes) :
    readEnvelope (line ++ 0x0a :: rest) =
      (match unmarshalInto Envelope.fields Envelope.zero (trimRight line) with
        | none => .error .malformed
        | some env => .ok (trimRight line, env), rest) := by
  rw [readEnvelope, readString_line h]
  simp only [Bool.false_and, Bool.false_eq_true, if_false, trimRight_newline]
  cases unmarshalInto Envelope.fields Envelope.zero (trimRight line) <;> rfl

/-- `readEnvelope` on the last text of a connection, which no newline ends. -/
theorem readEnvelope_last {s : Bytes} (h : 0x0a ∉ s) :
    readEnvelope s =
      (if s = [] then .error .closed else
        match unmarshalInto Envelope.fields Envelope.zero (trimRight s) with
        | none => .error .malformed
        | some env => .ok (trimRight s, env), []) := by
  have hread : readString s = (s, true, []) := by
    rw [readString, List.dropWhile_eq_nil_iff.mpr (bne_newline h)]
  rw [readEnvelope, hread]
  cases s with
  | nil => rfl
  | cons b s =>
      simp only [List.isEmpty_cons, Bool.and_false, Bool.false_eq_true, if_false, List.cons_ne_nil]
      cases unmarshalInto Envelope.fields Envelope.zero (trimRight (b :: s)) <;> rfl

/-- A printable line reaches `json.Unmarshal` as it was sent. -/
theorem readEnvelope_line {line : Bytes} (h : Json.Printable line) (rest : Bytes) :
    readEnvelope (line ++ 0x0a :: rest) =
      (match unmarshalInto Envelope.fields Envelope.zero line with
        | none => .error .malformed
        | some env => .ok (line, env), rest) := by
  rw [readEnvelope_terminated (newline_notMem_of_printable h), trimRight_printable h]

/-- So does the last text of a connection that was closed in the middle of a line. -/
theorem readEnvelope_unterminated {s : Bytes} (h : Json.Printable s) :
    readEnvelope s =
      (if s = [] then .error .closed else
        match unmarshalInto Envelope.fields Envelope.zero s with
        | none => .error .malformed
        | some env => .ok (s, env), []) := by
  rw [readEnvelope_last (newline_notMem_of_printable h), trimRight_printable h]

/-- A printed object reaches the record decoder member by member. -/
theorem unmarshalInto_render {σ : Type} {fields : List (Json.Field σ)} {zero : σ} {ms : List Json.Member}
    (hne : ms ≠ []) (h : ∀ m ∈ ms, m.Ok) :
    unmarshalInto fields zero (Json.render ms) =
      (ms.map fun m => (m.key, m.val)).foldlM (Json.storeMember fields) zero := by
  rw [unmarshalInto, Json.unmarshal_render hne h]
  rfl

end Client
end Hsed
