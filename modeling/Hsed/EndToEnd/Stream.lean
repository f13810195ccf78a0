import Hsed.Client.Correctness.Decode
import Hsed.Lib.JsonCut
import Hsed.Server.Server
import Hsed.Wire.Correctness.Line

/-!
# `EndToEnd.Stream` — a captured write, from `stream_write_cb` to `StreamSession.Next`

The line of a write is an object of six members (`writeMembers`). It travels through the 2048-byte buffer of
`hsed_send_linef`: if it fits, the client gets the event back field by field (`next_write`); if not, what
arrives is a proper beginning of the object and no JSON text (`unmarshal_write_cut`), which `Next` takes
for the end of the stream. `write_event_round_trip_iff` puts the two together.
-/

namespace Hsed
namespace EndToEnd

open CLib Wire Server Client

/-! ## The line -/

/-- The members before the data. -/
def writeHead (tid ret : Int) (buf : Bytes) (isWritev : Bool) : List Json.Member :=
  [ strMember (ascii "type") (ascii "write") (ascii "write"),
    intMember (ascii "tid") tid,
    intMember (ascii "ret") ret,
    natMember (ascii "captured") buf.length,
    ⟨ascii "is_writev", if isWritev then ascii "true" else ascii "false", .bool isWritev⟩ ]

def dataMember (buf : Bytes) : Json.Member :=
  strMember (ascii "data_b64") (hsedBase64Encode buf) (hsedBase64Encode buf)

def writeMembers (tid ret : Int) (buf : Bytes) (isWritev : Bool) : List Json.Member :=
  writeHead tid ret buf isWritev ++ [dataMember buf]

/-- The members before the data, with their commas, and the key of the data. -/
def writePrefix (tid ret : Int) (buf : Bytes) (isWritev : Bool) : Bytes :=
  0x7b :: ((writeHead tid ret buf isWritev).flatMap (fun m => m.render ++ [0x2c]) ++
    0x22 :: (ascii "data_b64" ++ [0x22, 0x3a, 0x22]))

theorem writeText_eq (tid ret : Int) (buf : Bytes) (isWritev : Bool) :
    writeText tid ret buf isWritev =
      writePrefix tid ret buf isWritev ++ (hsedBase64Encode buf ++ [0x22, 0x7d]) := by
  delta writeText
  simp only [writePrefix, writeHead, Json.Member.render, strMember, intMember, natMember,
    List.flatMap_cons, List.flatMap_nil, List.append_assoc, List.cons_append, List.nil_append, List.append_nil,
    show ascii "\x7b\"type\":\"write\",\"tid\":" =
      0x7b :: 0x22 :: (ascii "type" ++ 0x22 :: 0x3a :: 0x22 :: (ascii "write" ++ 0x22 :: 0x2c :: 0x22 ::
        (ascii "tid" ++ [0x22, 0x3a]))) from rfl,
    show ascii ",\"ret\":" = 0x2c :: 0x22 :: (ascii "ret" ++ [0x22, 0x3a]) from rfl,
    show ascii ",\"captured\":" = 0x2c :: 0x22 :: (ascii "captured" ++ [0x22, 0x3a]) from rfl,
    show ascii ",\"is_writev\":" = 0x2c :: 0x22 :: (ascii "is_writev" ++ [0x22, 0x3a]) from rfl,
    show ascii ",\"data_b64\":\"" = 0x2c :: 0x22 :: (ascii "data_b64" ++ [0x22, 0x3a, 0x22]) from rfl,
    show ascii "\"\x7d" = [0x22, 0x7d] from rfl]

theorem writeText_eq_render (tid ret : Int) (buf : Bytes) (isWritev : Bool) :
    writeText tid ret buf isWritev = Json.render (writeMembers tid ret buf isWritev) := by
  rw [writeText_eq]
  simp only [writePrefix, writeMembers, writeHead, dataMember, Json.render, Json.renderMembers,
    Json.Member.render, strMember, List.flatMap_cons, List.flatMap_nil, List.append_assoc, List.cons_append,
    List.nil_append, List.append_nil]

theorem isWritevMember_ok (isWritev : Bool) :
    (⟨ascii "is_writev", if isWritev then ascii "true" else ascii "false", .bool isWritev⟩ :
      Json.Member).Ok := by
  refine ⟨plainKey_spec (show plainKey (ascii "is_writev") = true by decide), ?_⟩
  cases isWritev with
  | true => exact Json.reads_true
  | false => exact Json.reads_false

theorem writeHead_ok (tid ret : Int) (buf : Bytes) (isWritev : Bool) :
    ∀ m ∈ writeHead tid ret buf isWritev, m.Ok := by
  simp only [writeHead, List.forall_mem_cons]
  exact ⟨strMember_ok (by decide) (Json.Escaped.of_plain (Json.plain_of_plainText (by decide))),
    intMember_ok (by decide) _, intMember_ok (by decide) _, natMember_ok (by decide) _, isWritevMember_ok isWritev,
    List.forall_mem_nil _⟩

theorem plain_base64 (buf : Bytes) : ∀ b ∈ hsedBase64Encode buf, Json.plain b := by
  intro b hb
  obtain ⟨hlo, hq, hs, -⟩ := plain_hsedBase64Encode buf b hb
  exact ⟨hlo, hq, hs⟩

theorem dataMember_ok (buf : Bytes) : (dataMember buf).Ok :=
  strMember_ok (by decide) (Json.Escaped.of_plain (plain_base64 buf))

theorem writeMembers_ok (tid ret : Int) (buf : Bytes) (isWritev : Bool) :
    ∀ m ∈ writeMembers tid ret buf isWritev, m.Ok := by
  intro m hm
  rcases List.mem_append.mp hm with h | h
  · exact writeHead_ok tid ret buf isWritev m h
  · rw [List.mem_singleton.mp h]
    exact dataMember_ok buf

theorem printable_boolText (b : Bool) : Json.Printable (if b then ascii "true" else ascii "false") := by
  cases b with
  | true => exact Json.printable_of_plainText (s := ascii "true") (by decide)
  | false => exact Json.printable_of_plainText (s := ascii "false") (by decide)

theorem printable_writeText (tid ret : Int) (buf : Bytes) (isWritev : Bool) :
    Json.Printable (writeText tid ret buf isWritev) := by
  rw [writeText_eq_render]
  refine Json.printable_render (writeMembers_ok tid ret buf isWritev) ?_
  have hdata : Json.Printable (dataMember buf).text :=
    Json.printable_cons (by decide) (Json.printable_append
      (fun b hb => (plain_base64 buf b hb).1) (Json.printable_cons (by decide) (List.forall_mem_nil _)))
  simp only [writeMembers, writeHead, List.cons_append, List.nil_append, List.forall_mem_cons]
  exact ⟨printable_strMember (Json.Escaped.of_plain (Json.plain_of_plainText (by decide))),
    Json.printable_decInt _, Json.printable_decInt _, Json.printable_decNat _, printable_boolText isWritev,
    hdata, List.forall_mem_nil _⟩

/-! ## A line that arrives whole -/

/-- The event the client builds from the line. -/
def writeEvent (tid ret : Int) (buf : Bytes) (isWritev : Bool) : WriteEvent :=
  ⟨tid, ret, buf.length, isWritev, hsedBase64Encode buf⟩

theorem writeEnvelope (tid ret : Int) (buf : Bytes) (isWritev : Bool) :
    unmarshalInto Envelope.fields Envelope.zero (Json.render (writeMembers tid ret buf isWritev)) =
      some { Envelope.zero with type := ascii "write" } := by
  rw [unmarshalInto_render (by simp [writeMembers, writeHead]) (writeMembers_ok tid ret buf isWritev)]
  -- only the type is a field of the envelope
  refine foldlM_storeMember (storeMember_str rfl) ?_
  refine foldlM_storeMember (storeMember_unknown rfl) ?_
  refine foldlM_storeMember (storeMember_unknown rfl) ?_
  refine foldlM_storeMember (storeMember_unknown rfl) ?_
  refine foldlM_storeMember (storeMember_unknown rfl) ?_
  refine foldlM_storeMember (storeMember_unknown rfl) ?_
  rfl

theorem writeEvent_decoded {tid ret : Int} {buf : Bytes} (isWritev : Bool)
    (htid : -(2 ^ 31) ≤ tid ∧ tid < 2 ^ 31) (hret : -(2 ^ 63) ≤ ret ∧ ret < 2 ^ 63)
    (hlen : buf.length ≤ 65536) :
    unmarshalInto WriteEvent.fields WriteEvent.zero (Json.render (writeMembers tid ret buf isWritev)) =
      some (writeEvent tid ret buf isWritev) := by
  have hascii : Utf8.coerce (hsedBase64Encode buf) = hsedBase64Encode buf :=
    Json.coerce_of_ascii fun b hb => (plain_hsedBase64Encode buf b hb).2.2.2
  rw [unmarshalInto_render (by simp [writeMembers, writeHead]) (writeMembers_ok tid ret buf isWritev)]
  refine foldlM_storeMember (storeMember_unknown rfl) ?_
  refine foldlM_storeMember (storeMember_int rfl (by omega) (by omega)) ?_
  refine foldlM_storeMember (storeMember_int rfl hret.1 hret.2) ?_
  refine foldlM_storeMember (storeMember_nat rfl (by omega)) ?_
  refine foldlM_storeMember (storeMember_bool rfl) ?_
  refine foldlM_storeMember (storeMember_str rfl) ?_
  rw [hascii]
  rfl

/-- **A whole line.** `Next` returns the event, and leaves what comes after it. -/
theorem next_write {tid ret : Int} {buf : Bytes} (isWritev : Bool)
    (htid : -(2 ^ 31) ≤ tid ∧ tid < 2 ^ 31) (hret : -(2 ^ 63) ≤ ret ∧ ret < 2 ^ 63)
    (hlen : buf.length ≤ 65536) (later : Bytes) :
    next (writeText tid ret buf isWritev ++ 0x0a :: later) =
      (.ok (some (writeEvent tid ret buf isWritev)), later) := by
  rw [next, nextLoop, readEnvelope_line (printable_writeText tid ret buf isWritev), writeText_eq_render,
    writeEnvelope]
  simp only [if_true, writeEvent_decoded isWritev htid hret hlen]

/-! ## A line that was cut -/

/-- **A cut line.** It is no JSON text. -/
theorem unmarshal_write_cut {tid ret : Int} {buf line : Bytes} (isWritev : Bool)
    (hpre : line <+: writeText tid ret buf isWritev) (hne : line ≠ writeText tid ret buf isWritev) :
    Json.unmarshal line = none := by
  rw [writeText_eq_render] at hpre hne
  exact Json.unmarshal_prefix (by simp [writeMembers, writeHead]) (writeMembers_ok tid ret buf isWritev) hpre hne

/-! ## Lengths -/

/-- Length of the line, from its parts. -/
def writeLen (tid ret : Int) (captured : Nat) (isWritev : Bool) : Nat :=
  69 + (decInt tid).length + (decInt ret).length + (decNat captured).length +
    (if isWritev then 4 else 5) + 4 * ((captured + 2) / 3)

theorem length_writePrefix (tid ret : Int) (buf : Bytes) (isWritev : Bool) :
    (writePrefix tid ret buf isWritev).length + (4 * ((buf.length + 2) / 3) + 2) =
      writeLen tid ret buf.length isWritev := by
  have hbool : (if isWritev then ascii "true" else ascii "false").length = if isWritev then 4 else 5 := by
    cases isWritev <;> rfl
  simp only [writePrefix, writeHead, Json.Member.render, strMember, intMember, natMember, List.flatMap_cons,
    List.flatMap_nil, List.length_append, List.length_cons, List.length_nil, hbool,
    show (ascii "type").length = 4 from rfl, show (ascii "write").length = 5 from rfl,
    show (ascii "tid").length = 3 from rfl, show (ascii "ret").length = 3 from rfl,
    show (ascii "captured").length = 8 from rfl, show (ascii "is_writev").length = 9 from rfl,
    show (ascii "data_b64").length = 8 from rfl, writeLen]
  omega

theorem length_writeText (tid ret : Int) (buf : Bytes) (isWritev : Bool) :
    (writeText tid ret buf isWritev).length = writeLen tid ret buf.length isWritev := by
  have hb := length_hsedBase64Encode buf
  have hp := length_writePrefix tid ret buf isWritev
  rw [writeText_eq, List.length_append, List.length_append]
  simp only [hsedBase64EncodedLen, List.length_cons, List.length_nil] at hb ⊢
  omega

/-! ## The round trip -/

/-- What the peer receives from one `stream_write_cb`. -/
def sentBy (c : Conn) (tid ret : Int) (buf : Bytes) (isWritev mallocOk : Bool) : Bytes :=
  (streamWriteCb c tid ret buf isWritev mallocOk).sock.wire.drop c.sock.wire.length

/-- The line is one complete object, and the client, wherever it stands in the stream, gets the event
    back. -/
def WriteRoundTrip (sent : Bytes) (tid ret : Int) (buf : Bytes) (isWritev : Bool) : Prop :=
  (∃ line kvs, sent = line ++ [0x0a] ∧ Json.unmarshal line = some (.obj kvs)) ∧
  ∀ later, ∃ w, next (sent ++ later) = (.ok (some w), later) ∧
    w.tid = tid ∧ w.ret = ret ∧ w.captured = buf.length ∧ w.isWritev = isWritev ∧ w.data = buf

theorem sentBy_eq {c : Conn} (hc : c.sock.Healthy) (tid ret : Int) (buf : Bytes) (isWritev : Bool)
    {mallocOk : Bool} (hm : hsedBase64EncodedLen buf.length ≤ 1024 ∨ mallocOk = true) :
    sentBy c tid ret buf isWritev mallocOk = (writeText tid ret buf isWritev).take 2047 ++ [0x0a] := by
  obtain ⟨sock', heq, hwire, -, -⟩ := hsedSendLine_ok hc (snprintf 2048 (writeText tid ret buf isWritev))
  rw [sentBy, streamWriteCb, if_pos hm]
  show ((hsedSendLine c.sock (snprintf 2048 _)).2.wire).drop _ = _
  rw [heq]
  show sock'.wire.drop _ = _
  rw [hwire, List.append_assoc, List.drop_left]
  rfl

section
variable {c : Conn} {tid ret : Int} {buf : Bytes} {mallocOk : Bool} (isWritev : Bool)

theorem writeRoundTrip_of_fits (hc : c.sock.Healthy)
    (hm : hsedBase64EncodedLen buf.length ≤ 1024 ∨ mallocOk = true)
    (htid : -(2 ^ 31) ≤ tid ∧ tid < 2 ^ 31) (hret : -(2 ^ 63) ≤ ret ∧ ret < 2 ^ 63)
    (hlen : buf.length ≤ 65536) (hfit : writeLen tid ret buf.length isWritev ≤ 2047) :
    WriteRoundTrip (sentBy c tid ret buf isWritev mallocOk) tid ret buf isWritev := by
  have htotal := length_writeText tid ret buf isWritev
  have hobj : Json.unmarshal (writeText tid ret buf isWritev) =
      some (.obj ((writeMembers tid ret buf isWritev).map fun m => (m.key, m.val))) := by
    rw [writeText_eq_render]
    exact Json.unmarshal_render (by simp [writeMembers, writeHead]) (writeMembers_ok tid ret buf isWritev)
  rw [sentBy_eq hc tid ret buf isWritev hm, List.take_of_length_le (by omega)]
  refine ⟨⟨_, _, rfl, hobj⟩, ?_⟩
  intro later
  refine ⟨writeEvent tid ret buf isWritev, ?_, rfl, rfl, rfl, rfl, decodeString_hsedBase64Encode buf⟩
  rw [List.append_assoc, List.singleton_append]
  exact next_write isWritev htid hret hlen later

theorem not_writeRoundTrip_of_long (hc : c.sock.Healthy)
    (hm : hsedBase64EncodedLen buf.length ≤ 1024 ∨ mallocOk = true) (hlong : 2047 < writeLen tid ret buf.length isWritev) :
    ¬ WriteRoundTrip (sentBy c tid ret buf isWritev mallocOk) tid ret buf isWritev := by
  rw [sentBy_eq hc tid ret buf isWritev hm]
  rintro ⟨⟨line, kvs, hline, hobj⟩, -⟩
  obtain ⟨rfl, -⟩ := List.append_inj' hline rfl
  have htotal := length_writeText tid ret buf isWritev
  have hne : (writeText tid ret buf isWritev).take 2047 ≠ writeText tid ret buf isWritev := by
    intro hall
    have hl := congrArg List.length hall
    rw [List.length_take] at hl
    omega
  rw [unmarshal_write_cut isWritev (List.take_prefix _ _) hne] at hobj
  cases hobj

/-- **Write events.** On a healthy connection, for every thread, return value, flag and capture up to the
    tracer's hard limit, the event survives the wire iff its line fits in the formatting buffer. -/
theorem write_event_round_trip_iff (hc : c.sock.Healthy)
    (hm : hsedBase64EncodedLen buf.length ≤ 1024 ∨ mallocOk = true)
    (htid : -(2 ^ 31) ≤ tid ∧ tid < 2 ^ 31) (hret : -(2 ^ 63) ≤ ret ∧ ret < 2 ^ 63)
    (hlen : buf.length ≤ 65536) :
    WriteRoundTrip (sentBy c tid ret buf isWritev mallocOk) tid ret buf isWritev ↔
      writeLen tid ret buf.length isWritev ≤ 2047 := by
  constructor
  · intro h
    by_contra hlong
    exact not_writeRoundTrip_of_long isWritev hc hm (by omega) h
  · intro hfit
    exact writeRoundTrip_of_fits isWritev hc hm htid hret hlen hfit

end

/-- Three captured bytes arrive. -/
theorem write_event_round_trip_abc :
    WriteRoundTrip (sentBy ⟨[], Sock.fresh, []⟩ 77 3 (ascii "abc") false true) 77 3 (ascii "abc") false :=
  (write_event_round_trip_iff (c := ⟨[], Sock.fresh, []⟩) false Sock.fresh_healthy (.inr rfl) (by decide) (by decide)
    (by decide)).mpr (by decide)

/-- 1500 captured bytes do not: their 2000 characters overrun the 2048-byte buffer. -/
theorem write_event_1500_lost :
    ¬ WriteRoundTrip (sentBy ⟨[], Sock.fresh, []⟩ 77 1500 (List.replicate 1500 0x61) false true) 77 1500
      (List.replicate 1500 0x61) false := by
  refine not_writeRoundTrip_of_long false Sock.fresh_healthy (.inr rfl) ?_
  rw [List.length_replicate]
  decide

end EndToEnd
end Hsed
