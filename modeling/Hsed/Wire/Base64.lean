import Hsed.Lib.Base64

/-!
# `Wire.Base64` — the daemon's encoder (`base64.c`)

`hsed_base64_encode` walks the data three bytes at a time and pads the rest. Its output is decoded back
by the standard decoder (`decode_hsedBase64Encode`), has exactly the announced length
(`length_hsedBase64Encode`) and only characters that need no escape in a JSON string. The loop in C, with its
indices and bit operations, writes this text (`hsedBase64EncodeOut_eq`).
-/

namespace Hsed
namespace Wire

open CLib

/-- `B64_TABLE[v & 0x3F]`. -/
def b64Char (v : Nat) : UInt8 :=
  (ascii "ABCDEFGHIJKLMNOPQRSTUVWXYZabcdefghijklmnopqrstuvwxyz0123456789+/").getD (v % 64) 0

/-- `hsed_base64_encoded_len`. -/
def hsedBase64EncodedLen (len : Nat) : Nat := (len + 2) / 3 * 4 + 1

/-- `hsed_base64_encode`, without the terminating NUL; shifts and masks are divisions and remainders. -/
def hsedBase64Encode : Bytes → Bytes
  | a :: b :: c :: data =>
    let v := a.toNat * 65536 + b.toNat * 256 + c.toNat
    b64Char (v / 262144) :: b64Char (v / 4096) :: b64Char (v / 64) :: b64Char v :: hsedBase64Encode data
  | [a] =>
    let v := a.toNat * 65536
    [b64Char (v / 262144), b64Char (v / 4096), 0x3d, 0x3d]
  | [a, b] =>
    let v := a.toNat * 65536 + b.toNat * 256
    [b64Char (v / 262144), b64Char (v / 4096), b64Char (v / 64), 0x3d]
  | [] => []

theorem b64Char_eq (v : Nat) : b64Char v = Base64.char v := rfl

theorem length_hsedBase64Encode (data : Bytes) :
    (hsedBase64Encode data).length + 1 = hsedBase64EncodedLen data.length := by
  unfold hsedBase64EncodedLen
  fun_induction hsedBase64Encode data with
  | case1 a b c data v ih =>
      simp only [List.length_cons] at ih ⊢
      omega
  | case2 a v => simp
  | case3 a b v => simp
  | case4 => rfl

/-- Every character is plain ASCII. -/
theorem plain_hsedBase64Encode (data : Bytes) :
    ∀ c ∈ hsedBase64Encode data, 0x20 ≤ c ∧ c ≠ 0x22 ∧ c ≠ 0x5c ∧ c < 0x80 := by
  fun_induction hsedBase64Encode data with
  | case1 a b c data v ih =>
      simp only [b64Char_eq, List.forall_mem_cons]
      exact ⟨Base64.char_plain _, Base64.char_plain _, Base64.char_plain _, Base64.char_plain _, ih⟩
  | case2 a v =>
      simp only [b64Char_eq, List.forall_mem_cons]
      exact ⟨Base64.char_plain _, Base64.char_plain _, by decide, by decide, List.forall_mem_nil _⟩
  | case3 a b v =>
      simp only [b64Char_eq, List.forall_mem_cons]
      exact ⟨Base64.char_plain _, Base64.char_plain _, Base64.char_plain _, by decide,
        List.forall_mem_nil _⟩
  | case4 => exact List.forall_mem_nil _

theorem ofNat_eq_of_toNat {n : Nat} {a : UInt8} (h : n = a.toNat) : UInt8.ofNat n = a := by
  rw [h, UInt8.ofNat_toNat]

/-- **Round trip.** The text is well formed, and stands for the encoded bytes. -/
theorem parse_hsedBase64Encode (data : Bytes) : Base64.parse (hsedBase64Encode data) = some data := by
  fun_induction hsedBase64Encode data with
  | case1 a b c data v ih =>
      have ha := a.toNat_lt
      have hb := b.toNat_lt
      have hc := c.toNat_lt
      simp only [b64Char_eq, Base64.parse_quantum, Base64.quantum, ih, Option.map_some, List.cons_append,
        List.nil_append]
      rw [ofNat_eq_of_toNat (a := a) (by omega), ofNat_eq_of_toNat (a := b) (by omega),
        ofNat_eq_of_toNat (a := c) (by omega)]
  | case2 a v =>
      have ha := a.toNat_lt
      simp only [b64Char_eq, Base64.parse_pad2, Base64.quantum, List.take_succ_cons, List.take_zero]
      rw [ofNat_eq_of_toNat (a := a) (by omega)]
  | case3 a b v =>
      have ha := a.toNat_lt
      have hb := b.toNat_lt
      simp only [b64Char_eq, Base64.parse_pad1, Base64.quantum, List.take_succ_cons, List.take_zero]
      rw [ofNat_eq_of_toNat (a := a) (by omega), ofNat_eq_of_toNat (a := b) (by omega)]
  | case4 => rfl

theorem decode_hsedBase64Encode (data : Bytes) : Base64.decode (hsedBase64Encode data) = data :=
  Base64.decode_of_parse (parse_hsedBase64Encode data)

theorem decodeString_hsedBase64Encode (data : Bytes) :
    Base64.decodeString (hsedBase64Encode data) = data := by
  rw [Base64.decodeString_of_plain fun b hb => (plain_hsedBase64Encode data b hb).1,
    decode_hsedBase64Encode]

theorem hsedBase64Encode_injective : Function.Injective hsedBase64Encode := by
  intro data data' h
  apply Option.some.inj
  rw [← parse_hsedBase64Encode, h, parse_hsedBase64Encode]

/-- Only the alphabet, and then the padding. -/
theorem shape_hsedBase64Encode (data : Bytes) :
    ∃ body, hsedBase64Encode data = body ++ List.replicate ((3 - data.length % 3) % 3) 0x3d ∧
      ∀ c ∈ body, c ∈ Base64.alphabet := by
  fun_induction hsedBase64Encode data with
  | case1 a b c data v ih =>
      obtain ⟨body, htext, hbody⟩ := ih
      refine ⟨b64Char (v / 262144) :: b64Char (v / 4096) :: b64Char (v / 64) :: b64Char v :: body, ?_, ?_⟩
      · have hmod : (a :: b :: c :: data).length % 3 = data.length % 3 := Nat.add_mod_right _ 3
        rw [hmod, htext]
        rfl
      · simp only [b64Char_eq, List.forall_mem_cons]
        exact ⟨Base64.char_mem _, Base64.char_mem _, Base64.char_mem _, Base64.char_mem _, hbody⟩
  | case2 a v =>
      refine ⟨[b64Char (v / 262144), b64Char (v / 4096)], rfl, ?_⟩
      simp only [b64Char_eq, List.forall_mem_cons]
      exact ⟨Base64.char_mem _, Base64.char_mem _, List.forall_mem_nil _⟩
  | case3 a b v =>
      refine ⟨[b64Char (v / 262144), b64Char (v / 4096), b64Char (v / 64)], rfl, ?_⟩
      simp only [b64Char_eq, List.forall_mem_cons]
      exact ⟨Base64.char_mem _, Base64.char_mem _, Base64.char_mem _, List.forall_mem_nil _⟩
  | case4 => exact ⟨[], rfl, List.forall_mem_nil _⟩

/-! ## The loop in C

The same function with its indices, which are `size_t`, its shifts and masks, and every byte it stores. -/

/-- `B64_TABLE`. -/
def b64Table : Bytes := ascii "ABCDEFGHIJKLMNOPQRSTUVWXYZabcdefghijklmnopqrstuvwxyz0123456789+/"

/-- `i`, `o`, and the bytes written to `out`, each with its index. -/
structure Encoder where
  i : Nat
  o : Nat
  out : List (UInt8 × Nat)

/-- `out[o++] = c;` -/
def Encoder.put (s : Encoder) (c : UInt8) : Encoder :=
  { s with o := (s.o + 1) % 2 ^ 64, out := s.out ++ [(c, s.o)] }

/-- `out[o++] = B64_TABLE[v & 0x3F];` -/
def Encoder.putSextet (s : Encoder) (v : Nat) : Encoder := s.put (b64Table.getD (v &&& 0x3f) 0)

/-- The loop over whole groups. Reading past the data, like running out of steps, is `none`. -/
def encodeLoop (data : Bytes) : Nat → Encoder → Option Encoder
  | 0, _ => none
  | fuel + 1, s =>
    if (s.i + 3) % 2 ^ 64 ≤ data.length then do
      let a ← data[s.i]?
      let b ← data[(s.i + 1) % 2 ^ 64]?
      let c ← data[(s.i + 2) % 2 ^ 64]?
      let v := a.toNat <<< 16 ||| b.toNat <<< 8 ||| c.toNat
      let s := (((s.putSextet (v >>> 18)).putSextet (v >>> 12)).putSextet (v >>> 6)).putSextet v
      encodeLoop data fuel { s with i := (s.i + 3) % 2 ^ 64 }
    else some s

/-- The one or two bytes that are left. -/
def encodeRest (data : Bytes) (s : Encoder) : Option Encoder :=
  let rem := (data.length + 2 ^ 64 - s.i) % 2 ^ 64
  if rem = 1 then do
    let a ← data[s.i]?
    let v := a.toNat <<< 16
    some ((((s.putSextet (v >>> 18)).putSextet (v >>> 12)).put 0x3d).put 0x3d)
  else if rem = 2 then do
    let a ← data[s.i]?
    let b ← data[(s.i + 1) % 2 ^ 64]?
    let v := a.toNat <<< 16 ||| b.toNat <<< 8
    some ((((s.putSextet (v >>> 18)).putSextet (v >>> 12)).putSextet (v >>> 6)).put 0x3d)
  else some s

/-- `hsed_base64_encode`: the writes to `out`, in order. -/
def hsedBase64EncodeOut (fuel : Nat) (data : Bytes) : Option (List (UInt8 × Nat)) :=
  ((encodeLoop data fuel ⟨0, 0, []⟩).bind (encodeRest data)).map fun s => s.out ++ [(0, s.o)]

/-- `hsed_base64_encoded_len` in `size_t`. -/
def hsedBase64EncodedSize (len : Nat) : Nat := ((len + 2) % 2 ^ 64 / 3 * 4 % 2 ^ 64 + 1) % 2 ^ 64

/-! ### It writes that text -/

section

variable {data : Bytes}

/-- The encoder that has read `i` bytes and written `done`. -/
def Encoder.after (i : Nat) (done : Bytes) : Encoder := ⟨i, done.length, done.zipIdx⟩

theorem Encoder.put_after {i : Nat} {done : Bytes} (h : done.length + 1 < 2 ^ 64) (c : UInt8) :
    (Encoder.after i done).put c = Encoder.after i (done ++ [c]) := by
  unfold Encoder.put Encoder.after
  rw [Nat.mod_eq_of_lt h, List.length_append, List.zipIdx_append]
  simp

theorem b64Table_and (v : Nat) : b64Table.getD (v &&& 0x3f) 0 = b64Char v := by
  show b64Table.getD (v &&& 2 ^ 6 - 1) 0 = b64Char v
  rw [Nat.and_two_pow_sub_one_eq_mod]
  rfl

theorem Encoder.putSextet_eq (s : Encoder) (v : Nat) : s.putSextet v = s.put (b64Char v) := by
  unfold Encoder.putSextet
  rw [b64Table_and]

/-- A group of four characters. -/
theorem Encoder.put_group {i : Nat} {done : Bytes} (h : done.length + 4 < 2 ^ 64) (c₁ c₂ c₃ c₄ : UInt8) :
    ((((Encoder.after i done).put c₁).put c₂).put c₃).put c₄ = Encoder.after i (done ++ [c₁, c₂, c₃, c₄]) := by
  rw [put_after (by omega), put_after (by simp; omega), put_after (by simp; omega), put_after (by simp; omega)]
  simp

/-- Bytes side by side do not overlap. -/
theorem group_bits (a b c : UInt8) :
    a.toNat <<< 16 ||| b.toNat <<< 8 ||| c.toNat = a.toNat * 65536 + b.toNat * 256 + c.toNat := by
  have hb := b.toNat_lt
  have hc := c.toNat_lt
  have h1 : a.toNat <<< 16 ||| b.toNat <<< 8 = 2 ^ 16 * a.toNat + b.toNat * 2 ^ 8 := by
    rw [Nat.two_pow_add_eq_or_of_lt (by omega), Nat.shiftLeft_eq, Nat.shiftLeft_eq, Nat.mul_comm]
  have h2 : 2 ^ 16 * a.toNat + b.toNat * 2 ^ 8 = 2 ^ 8 * (2 ^ 8 * a.toNat + b.toNat) := by omega
  rw [h1, h2, ← Nat.two_pow_add_eq_or_of_lt (by omega)]
  omega

theorem getElem?_of_drop {i k : Nat} {rest : Bytes} (h : data.drop i = rest) : data[i + k]? = rest[k]? := by
  rw [← h, List.getElem?_drop]

/-- The loop stops when less than a group is left. -/
theorem encodeLoop_stop {fuel : Nat} {s : Encoder} (h : data.length < (s.i + 3) % 2 ^ 64) :
    encodeLoop data (fuel + 1) s = some s := by
  rw [encodeLoop, if_neg (Nat.not_le.mpr h)]

/-- The loop takes a whole group. -/
theorem encodeLoop_group {fuel i : Nat} {a b c : UInt8} {rest done : Bytes} (hlen : data.length + 3 < 2 ^ 64)
    (hdrop : data.drop i = a :: b :: c :: rest) (hfit : done.length + 4 < 2 ^ 64) :
    encodeLoop data (fuel + 1) (Encoder.after i done) =
      encodeLoop data fuel (Encoder.after (i + 3) (done ++ hsedBase64Encode [a, b, c])) := by
  have hsize := congrArg List.length hdrop
  simp only [List.length_drop, List.length_cons] at hsize
  have ha : data[i]? = some a := getElem?_of_drop (k := 0) hdrop
  have hb : data[i + 1]? = some b := getElem?_of_drop hdrop
  have hc : data[i + 2]? = some c := getElem?_of_drop hdrop
  have h1 : (i + 1) % 2 ^ 64 = i + 1 := Nat.mod_eq_of_lt (by omega)
  have h2 : (i + 2) % 2 ^ 64 = i + 2 := Nat.mod_eq_of_lt (by omega)
  have h3 : (i + 3) % 2 ^ 64 = i + 3 := Nat.mod_eq_of_lt (by omega)
  have hmore : (i + 3) % 2 ^ 64 ≤ data.length := by omega
  rw [encodeLoop]
  show (if (i + 3) % 2 ^ 64 ≤ data.length then data[i]?.bind _ else _) = _
  rw [if_pos hmore, ha]
  show data[(i + 1) % 2 ^ 64]?.bind _ = _
  rw [h1, hb]
  show data[(i + 2) % 2 ^ 64]?.bind _ = _
  rw [h2, hc]
  show encodeLoop data fuel { Encoder.putSextet _ _ with i := _ } = _
  simp only [Encoder.putSextet_eq]
  rw [Encoder.put_group hfit, group_bits]
  simp only [Nat.shiftRight_eq_div_pow]
  show encodeLoop data fuel (Encoder.after ((i + 3) % 2 ^ 64) _) = _
  rw [h3]
  rfl

/-- The bytes that are left. -/
theorem encodeRest_after {i : Nat} {rest done : Bytes} (hlen : data.length + 3 < 2 ^ 64) (hi : i ≤ data.length)
    (hdrop : data.drop i = rest) (hshort : rest.length < 3)
    (hfit : done.length + (hsedBase64Encode rest).length < 2 ^ 64) :
    encodeRest data (Encoder.after i done) = some (Encoder.after i (done ++ hsedBase64Encode rest)) := by
  have hsize := congrArg List.length hdrop
  rw [List.length_drop] at hsize
  -- the difference of two `size_t`s that do not wrap
  have hrem : (data.length + 2 ^ 64 - (Encoder.after i done).i) % 2 ^ 64 = rest.length := by
    show (data.length + 2 ^ 64 - i) % 2 ^ 64 = rest.length
    omega
  unfold encodeRest
  rw [hrem]
  match rest, hshort with
  | [], _ =>
      rw [hsedBase64Encode, List.append_nil]
      rfl
  -- one byte: two sextets and two signs
  | [a], _ =>
      have hfit : done.length + 4 < 2 ^ 64 := hfit
      show data[i]?.bind _ = _
      rw [← Nat.add_zero i, getElem?_of_drop hdrop]
      show some (((Encoder.putSextet _ _).put _).put _) = _
      simp only [Encoder.putSextet_eq]
      rw [Encoder.put_group hfit]
      simp only [Nat.shiftLeft_eq, Nat.shiftRight_eq_div_pow]
      rfl
  -- two bytes: three sextets and a sign
  | [a, b], _ =>
      have hfit : done.length + 4 < 2 ^ 64 := hfit
      have hgroup := group_bits a b 0
      simp only [UInt8.toNat_zero, Nat.or_zero, Nat.add_zero] at hgroup
      show data[i]?.bind _ = _
      rw [← Nat.add_zero i, getElem?_of_drop hdrop]
      show data[(i + 1) % 2 ^ 64]?.bind _ = _
      rw [Nat.mod_eq_of_lt (by omega), getElem?_of_drop hdrop]
      show some ((Encoder.putSextet _ _).put _) = _
      simp only [Encoder.putSextet_eq]
      rw [Encoder.put_group hfit, hgroup]
      simp only [Nat.shiftRight_eq_div_pow]
      rfl

theorem hsedBase64Encode_group (a b c : UInt8) (rest : Bytes) :
    hsedBase64Encode (a :: b :: c :: rest) = hsedBase64Encode [a, b, c] ++ hsedBase64Encode rest := by
  simp only [hsedBase64Encode, List.cons_append, List.nil_append]

/-- The loop and what follows it, with `i` bytes read and `done` written. -/
theorem encode_after (hlen : data.length + 3 < 2 ^ 64) (fuel : Nat) :
    ∀ (i : Nat) (rest done : Bytes), rest.length < fuel → i ≤ data.length → data.drop i = rest →
      done.length + (hsedBase64Encode rest).length < 2 ^ 64 →
      ∃ i', (encodeLoop data fuel (Encoder.after i done)).bind (encodeRest data) =
        some (Encoder.after i' (done ++ hsedBase64Encode rest)) := by
  induction fuel with
  | zero =>
      intro i rest done hfuel
      exact absurd hfuel (Nat.not_lt_zero _)
  | succ fuel ih =>
      intro i rest done hfuel hi hdrop hfit
      have hsize := congrArg List.length hdrop
      rw [List.length_drop] at hsize
      match rest with
      | a :: b :: c :: rest =>
          have hdrop' : data.drop (i + 3) = rest := by
            rw [← List.drop_drop, hdrop]
            rfl
          simp only [hsedBase64Encode, List.length_cons] at hfit hfuel hsize
          rw [encodeLoop_group hlen hdrop (by omega)]
          obtain ⟨i', hrun⟩ := ih (i + 3) rest (done ++ hsedBase64Encode [a, b, c]) (by omega) (by omega) hdrop'
            (by simp only [hsedBase64Encode, List.length_append, List.length_cons, List.length_nil]; omega)
          refine ⟨i', ?_⟩
          rw [hrun, List.append_assoc, ← hsedBase64Encode_group]
      | [] | [_] | [_, _] =>
          -- less than a group: the loop stops
          have hstop : data.length < (i + 3) % 2 ^ 64 := by
            simp only [List.length_cons, List.length_nil] at hsize
            omega
          refine ⟨i, ?_⟩
          rw [encodeLoop_stop hstop, Option.bind_some]
          exact encodeRest_after hlen hi hdrop (by simp) hfit

/-- **The C encoder writes the text and a NUL**, one byte after the other from the start of `out`. -/
theorem hsedBase64EncodeOut_eq (hfit : hsedBase64EncodedLen data.length < 2 ^ 64) {fuel : Nat}
    (hfuel : data.length < fuel) :
    hsedBase64EncodeOut fuel data = some (hsedBase64Encode data ++ [0]).zipIdx := by
  have hsize := length_hsedBase64Encode data
  have hlen : data.length + 3 < 2 ^ 64 := by
    unfold hsedBase64EncodedLen at hfit
    omega
  obtain ⟨i, hrun⟩ := encode_after hlen fuel 0 data [] hfuel (Nat.zero_le _) rfl (by rw [List.length_nil]; omega)
  unfold hsedBase64EncodeOut
  have hstart : (⟨0, 0, []⟩ : Encoder) = Encoder.after 0 [] := rfl
  rw [hstart, hrun, Option.map_some, List.nil_append, List.zipIdx_append]
  simp [Encoder.after]

theorem hsedBase64EncodedSize_eq {len : Nat} (hfit : hsedBase64EncodedLen len < 2 ^ 64) :
    hsedBase64EncodedSize len = hsedBase64EncodedLen len := by
  unfold hsedBase64EncodedSize
  unfold hsedBase64EncodedLen at hfit ⊢
  have hround : len + 2 < 2 ^ 64 := by omega
  rw [Nat.mod_eq_of_lt hround, Nat.mod_eq_of_lt (Nat.lt_of_succ_lt hfit), Nat.mod_eq_of_lt hfit]

/-- **base64 is lossless and exactly sized.** The call writes `hsed_base64_encoded_len` bytes from the start of `out`
    on, each once: a text and its NUL. The text is of the alphabet, padded at its end only, stands for the data, and
    stands for no other. -/
theorem base64_lossless (data : Bytes) (hfit : hsedBase64EncodedLen data.length < 2 ^ 64) :
    ∃ text writes, (∀ fuel > data.length, hsedBase64EncodeOut fuel data = some writes) ∧
      writes.map Prod.snd = List.range (hsedBase64EncodedSize data.length) ∧ writes.map Prod.fst = text ++ [0] ∧
      (∃ body, text = body ++ List.replicate ((3 - data.length % 3) % 3) 0x3d ∧ ∀ c ∈ body, c ∈ Base64.alphabet) ∧
      Base64.parse text = some data ∧ Base64.decodeString text = data ∧
      ∀ data' fuel writes', hsedBase64EncodedLen data'.length < 2 ^ 64 → data'.length < fuel →
        hsedBase64EncodeOut fuel data' = some writes' → writes'.map Prod.fst = text ++ [0] → data' = data := by
  refine ⟨hsedBase64Encode data, (hsedBase64Encode data ++ [0]).zipIdx, fun _ => hsedBase64EncodeOut_eq hfit, ?_, ?_,
    shape_hsedBase64Encode data, parse_hsedBase64Encode data, decodeString_hsedBase64Encode data, ?_⟩
  · rw [hsedBase64EncodedSize_eq hfit, ← length_hsedBase64Encode]
    simp [List.range_eq_range']
  · exact List.zipIdx_map_fst 0 _
  · intro data' fuel writes' hfit' hfuel hwrites htext
    rw [hsedBase64EncodeOut_eq hfit' hfuel] at hwrites
    rw [← Option.some.inj hwrites, List.zipIdx_map_fst] at htext
    exact hsedBase64Encode_injective (List.append_cancel_right htext)

/-- Four bytes: a whole group and one byte with two signs of padding. -/
theorem base64_lossless_hsed :
    hsedBase64EncodedLen (ascii "hsed").length < 2 ^ 64 ∧
      ∃ text writes, (∀ fuel > 4, hsedBase64EncodeOut fuel (ascii "hsed") = some writes) ∧
        writes.map Prod.fst = text ++ [0] ∧ Base64.parse text = some (ascii "hsed") := by
  have hfit : hsedBase64EncodedLen (ascii "hsed").length < 2 ^ 64 := by decide
  obtain ⟨text, writes, hwrites, -, htext, -, hparse, -⟩ := base64_lossless (ascii "hsed") hfit
  exact ⟨hfit, text, writes, hwrites, htext, hparse⟩

end

end Wire
end Hsed
