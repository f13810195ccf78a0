import Hsed.Client.Correctness.Decode
import Hsed.Lib.JsonCut
import Hsed.Server.Server
import Hsed.Wire.Correctness.Line

/-!
# `Server.Correctness.Replies` — the reply lines as JSON objects

Every reply the handlers format is an object printed member by member (`ObjectLine`): it has no control
byte, so its newline is the only one, and a cut reply is no JSON text any more.
-/

namespace Hsed
namespace Server

open CLib Scan Wire

/-! ## Objects on one line -/

/-- A member that can stand on a line. -/
structure LineMember (m : Json.Member) : Prop where
  ok : m.Ok
  printable : Json.Printable m.text

/-- A text that is a printed object without control bytes. -/
structure ObjectLine (text : Bytes) (ms : List Json.Member) : Prop where
  eq_render : text = Json.render ms
  ne_nil : ms ≠ []
  members : ∀ m ∈ ms, LineMember m

section
variable {text : Bytes} {ms : List Json.Member}

theorem ObjectLine.printable (h : ObjectLine text ms) : Json.Printable text := by
  rw [h.eq_render]
  exact Json.printable_render (fun m hm => (h.members m hm).ok) fun m hm => (h.members m hm).printable

theorem ObjectLine.unmarshal (h : ObjectLine text ms) :
    Json.unmarshal text = some (.obj (ms.map fun m => (m.key, m.val))) := by
  rw [h.eq_render]
  exact Json.unmarshal_render h.ne_nil fun m hm => (h.members m hm).ok

/-- It reaches the client's record decoder member by member. -/
theorem ObjectLine.unmarshalInto (h : ObjectLine text ms) {σ : Type} {fields : List (Json.Field σ)} {zero : σ} :
    Client.unmarshalInto fields zero text =
      (ms.map fun m => (m.key, m.val)).foldlM (Json.storeMember fields) zero := by
  rw [h.eq_render]
  exact Client.unmarshalInto_render h.ne_nil fun m hm => (h.members m hm).ok

theorem ObjectLine.unmarshal_cut (h : ObjectLine text ms) {s : Bytes} (hs : s <+: text) (hne : s ≠ text) :
    Json.unmarshal s = none := by
  rw [h.eq_render] at hs hne
  exact Json.unmarshal_prefix h.ne_nil (fun m hm => (h.members m hm).ok) hs hne

end

theorem lineMember_str {key raw text : Bytes} (hk : plainKey key = true) (h : Json.Escaped raw text) :
    LineMember (strMember key raw text) := ⟨strMember_ok hk h, printable_strMember h⟩

theorem lineMember_plain {key text : Bytes} (hk : plainKey key = true) (h : Json.plainText text = true) :
    LineMember (strMember key text text) := lineMember_str hk (Json.Escaped.of_plain (Json.plain_of_plainText h))

theorem lineMember_nat {key : Bytes} (hk : plainKey key = true) (n : Nat) : LineMember (natMember key n) :=
  ⟨natMember_ok hk n, Json.printable_decNat n⟩

theorem lineMember_int {key : Bytes} (hk : plainKey key = true) (x : Int) : LineMember (intMember key x) :=
  ⟨intMember_ok hk x, Json.printable_decInt x⟩

/-! ## The replies -/

/-- The first member of every reply. -/
def typeMember (type : Bytes) : Json.Member := strMember (ascii "type") type type

theorem lineMember_type {type : Bytes} (h : Json.plainText type = true) : LineMember (typeMember type) :=
  lineMember_plain (by decide) h

def pongText : Bytes := ascii "\x7b\"type\":\"pong\"\x7d"

theorem objectLine_pong : ObjectLine pongText [typeMember (ascii "pong")] where
  eq_render := rfl
  ne_nil := List.cons_ne_nil _ _
  members := by
    rw [List.forall_mem_singleton]
    exact lineMember_type (by decide)

def errorMembers (raw text : Bytes) : List Json.Member :=
  [typeMember (ascii "error"), strMember (ascii "message") raw text]

theorem objectLine_error {raw text : Bytes} (h : Json.Escaped raw text) :
    ObjectLine (errorText raw) (errorMembers raw text) where
  eq_render := by
    delta errorText
    simp only [errorMembers, typeMember, Json.render, Json.renderMembers, Json.Member.render, strMember,
      List.append_assoc, List.cons_append, List.nil_append,
      show ascii "\x7b\"type\":\"error\",\"message\":\"" =
        0x7b :: 0x22 :: (ascii "type" ++ 0x22 :: 0x3a :: 0x22 :: (ascii "error" ++ 0x22 :: 0x2c :: 0x22 ::
          (ascii "message" ++ [0x22, 0x3a, 0x22]))) from rfl,
      show ascii "\"\x7d" = [0x22, 0x7d] from rfl]
  ne_nil := List.cons_ne_nil _ _
  members := by
    simp only [errorMembers, List.forall_mem_cons]
    exact ⟨lineMember_type (by decide), lineMember_str (by decide) h, List.forall_mem_nil _⟩

/-- The reply of `handle_stats`. -/
def statsText (st : Stats) : Bytes :=
  ascii "\x7b\"type\":\"stats\",\"count\":" ++ decNat st.count ++ ascii ",\"total_bytes\":" ++ decInt st.totalBytes ++
    ascii "\x7d"

def statsMembers (st : Stats) : List Json.Member :=
  [typeMember (ascii "stats"), natMember (ascii "count") st.count, intMember (ascii "total_bytes") st.totalBytes]

theorem objectLine_stats (st : Stats) : ObjectLine (statsText st) (statsMembers st) where
  eq_render := by
    delta statsText
    simp only [statsMembers, typeMember, Json.render, Json.renderMembers, Json.Member.render, strMember, natMember,
      intMember, List.append_assoc, List.cons_append, List.nil_append,
      show ascii "\x7b\"type\":\"stats\",\"count\":" =
        0x7b :: 0x22 :: (ascii "type" ++ 0x22 :: 0x3a :: 0x22 :: (ascii "stats" ++ 0x22 :: 0x2c :: 0x22 ::
          (ascii "count" ++ [0x22, 0x3a]))) from rfl,
      show ascii ",\"total_bytes\":" = 0x2c :: 0x22 :: (ascii "total_bytes" ++ [0x22, 0x3a]) from rfl,
      show ascii "\x7d" = [0x7d] from rfl]
  ne_nil := List.cons_ne_nil _ _
  members := by
    simp only [statsMembers, List.forall_mem_cons]
    exact ⟨lineMember_type (by decide), lineMember_nat (by decide) _, lineMember_int (by decide) _,
      List.forall_mem_nil _⟩

/-- The reply of `handle_truncate`. -/
def freedText (freed : Int) : Bytes :=
  ascii "\x7b\"type\":\"result\",\"ok\":true,\"freed\":" ++ decInt freed ++ ascii "\x7d"

/-- `"ok":true`. -/
def okMember : Json.Member := ⟨ascii "ok", ascii "true", .bool true⟩

theorem lineMember_ok : LineMember okMember where
  ok := ⟨plainKey_spec (by decide), Json.reads_true⟩
  printable := Json.printable_of_plainText (by decide)

theorem objectLine_freed (freed : Int) :
    ObjectLine (freedText freed) [typeMember (ascii "result"), okMember, intMember (ascii "freed") freed] where
  eq_render := by
    delta freedText
    simp only [typeMember, okMember, Json.render, Json.renderMembers, Json.Member.render, strMember, intMember,
      List.append_assoc, List.cons_append, List.nil_append,
      show ascii "\x7b\"type\":\"result\",\"ok\":true,\"freed\":" =
        0x7b :: 0x22 :: (ascii "type" ++ 0x22 :: 0x3a :: 0x22 :: (ascii "result" ++ 0x22 :: 0x2c :: 0x22 ::
          (ascii "ok" ++ 0x22 :: 0x3a :: (ascii "true" ++ 0x2c :: 0x22 :: (ascii "freed" ++ [0x22, 0x3a]))))) from rfl,
      show ascii "\x7d" = [0x7d] from rfl]
  ne_nil := List.cons_ne_nil _ _
  members := by
    simp only [List.forall_mem_cons]
    exact ⟨lineMember_type (by decide), lineMember_ok, lineMember_int (by decide) _, List.forall_mem_nil _⟩

/-- The reply of `handle_hup` and `handle_kill`. -/
def okText : Bytes := ascii "\x7b\"type\":\"result\",\"ok\":true\x7d"

theorem objectLine_ok : ObjectLine okText [typeMember (ascii "result"), okMember] where
  eq_render := rfl
  ne_nil := List.cons_ne_nil _ _
  members := by
    simp only [List.forall_mem_cons]
    exact ⟨lineMember_type (by decide), lineMember_ok, List.forall_mem_nil _⟩

/-- The message of a failed scan. -/
theorem escaped_failed {what strerror : Bytes} (hw : Json.plainText what = true)
    (hs : Json.plainText strerror = true) : Json.Escaped (what ++ strerror) (what ++ strerror) :=
  (Json.Escaped.of_plain (Json.plain_of_plainText hw)).append (Json.Escaped.of_plain (Json.plain_of_plainText hs))

end Server
end Hsed
