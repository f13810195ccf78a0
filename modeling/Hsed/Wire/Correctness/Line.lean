import Hsed.Scan.Correctness.Fields
import Hsed.Wire.Correctness.Escape

/-!
# `Wire.Correctness.Line` — one line, whole, on the wire

`hsedSendLine_ok`: as long as no `send` fails, short counts and interruptions do not matter and the
peer gets the line and one newline. `entryText_eq_render`: what `hsed_format_entry` prints is an object
of fourteen members (`entryMembers`), and `hsedFormatEntry_eq` that its buffer holds all of it. So no
content of a field can break the line (`entry_line_intact`).
-/

namespace Hsed
namespace Wire

open CLib Scan

/-! ## Sending -/

/-- What is offered next, and what of the line is left after it was (partly) accepted. -/
theorem chunk_step {json : Bytes} {sent : Nat} (h : sent < json.length + 1) (n : Nat) :
    let chunk := if sent < json.length then json.drop sent else [0x0a]
    sent + min n chunk.length ≤ json.length + 1 ∧
      chunk.take n ++ (json ++ [0x0a]).drop (sent + min n chunk.length) = (json ++ [0x0a]).drop sent := by
  intro chunk
  obtain ⟨tail, htail⟩ : ∃ tail, (json ++ [0x0a]).drop sent = chunk ++ tail := by
    by_cases hlt : sent < json.length
    · exact ⟨[0x0a], by simp only [chunk, if_pos hlt]; exact List.drop_append_of_le_length (by omega)⟩
    · have heq : sent = json.length := by omega
      exact ⟨[], by simp only [chunk, if_neg hlt]; simp [heq]⟩
  have hlen : sent + chunk.length ≤ json.length + 1 := by
    have hl := congrArg List.length htail
    simp only [List.length_drop, List.length_append, List.length_cons, List.length_nil] at hl
    omega
  refine ⟨by omega, ?_⟩
  rw [← List.drop_drop, htail, List.drop_append_of_le_length (Nat.min_le_right n _), ← List.append_assoc]
  congr 1
  rcases Nat.le_total n chunk.length with hn | hn
  · rw [Nat.min_eq_left hn, List.take_append_drop]
  · rw [Nat.min_eq_right hn, List.drop_length, List.take_of_length_le hn, List.append_nil]

theorem sendLoop_ok (json : Bytes) (rs : List SendRes) : ∀ (sent : Nat) (wire : Bytes),
    (∀ r ∈ rs, r ≠ .err) → sent ≤ json.length + 1 →
    ∃ rest, sendLoop json rs sent wire = (0, wire ++ (json ++ [0x0a]).drop sent, rest) ∧
      ∀ r ∈ rest, r ≠ .err := by
  induction rs with
  | nil => intro sent wire _ _; exact ⟨[], rfl, List.forall_mem_nil _⟩
  | cons r rs ih =>
      intro sent wire hok hle
      obtain ⟨hr, hrs⟩ := List.forall_mem_cons.mp hok
      by_cases hlt : sent < json.length + 1
      · cases r with
        | err => exact absurd rfl hr
        | eintr =>
            rw [sendLoop, if_pos hlt]
            exact ih sent wire hrs hle
        | accept n =>
            obtain ⟨hnext, hdata⟩ := chunk_step hlt n
            obtain ⟨rest, heq, hrest⟩ := ih _ (wire ++ _) hrs hnext
            refine ⟨rest, ?_, hrest⟩
            rw [sendLoop, if_pos hlt]
            show sendLoop json rs _ (wire ++ _) = _
            rw [heq, List.append_assoc, hdata]
      · -- the whole line is out
        refine ⟨r :: rs, ?_, hok⟩
        rw [sendLoop, if_neg hlt, List.drop_of_length_le (by simp; omega), List.append_nil]

/-- No coming `send` fails. -/
def Sock.Healthy (sock : Sock) : Prop := ∀ r ∈ sock.sends, r ≠ .err

/-- A new connection on which every `send` accepts what it is offered. -/
def Sock.fresh : Sock := ⟨[], [], []⟩

theorem Sock.fresh_healthy : Sock.fresh.Healthy := by
  intro r hr
  cases hr

/-- **Delivery.** On a healthy connection the peer gets the line and one newline. -/
theorem hsedSendLine_ok {sock : Sock} (h : sock.Healthy) (json : Bytes) :
    ∃ sock', hsedSendLine sock json = (0, sock') ∧ sock'.wire = sock.wire ++ json ++ [0x0a] ∧
      sock'.lines = sock.lines ++ [json] ∧ sock'.Healthy := by
  obtain ⟨rest, heq, hrest⟩ := sendLoop_ok json sock.sends 0 sock.wire h (Nat.zero_le _)
  refine ⟨⟨_, rest, _⟩, by rw [hsedSendLine, heq], ?_, rfl, hrest⟩
  rw [List.drop_zero, List.append_assoc]

/-- Whatever `send` does, the line is on record. -/
theorem hsedSendLine_lines (sock : Sock) (json : Bytes) :
    (hsedSendLine sock json).2.lines = sock.lines ++ [json] := rfl

/-! ## The line of an entry -/

def strMember (key raw text : Bytes) : Json.Member := ⟨key, 0x22 :: (raw ++ [0x22]), .str (Utf8.coerce text)⟩

def natMember (key : Bytes) (n : Nat) : Json.Member := ⟨key, decNat n, .num (decNat n)⟩

def intMember (key : Bytes) (x : Int) : Json.Member := ⟨key, decInt x, .num (decInt x)⟩

/-- A key of plain ASCII. -/
def plainKey (key : Bytes) : Bool := Json.plainText key && key.all (· < 0x80)

theorem plainKey_spec {key : Bytes} (h : plainKey key = true) : ∀ b ∈ key, Json.plain b ∧ b < 0x80 := by
  intro b hb
  obtain ⟨hplain, hascii⟩ := Bool.and_eq_true_iff.mp h
  exact ⟨Json.plain_of_plainText hplain b hb, of_decide_eq_true (List.all_eq_true.mp hascii b hb)⟩

theorem strMember_ok {key raw text : Bytes} (hk : plainKey key = true) (h : Json.Escaped raw text) :
    (strMember key raw text).Ok :=
  ⟨plainKey_spec hk, Json.reads_str h⟩

theorem natMember_ok {key : Bytes} (hk : plainKey key = true) (n : Nat) : (natMember key n).Ok :=
  ⟨plainKey_spec hk, Json.reads_decNat n⟩

theorem intMember_ok {key : Bytes} (hk : plainKey key = true) (x : Int) : (intMember key x).Ok :=
  ⟨plainKey_spec hk, Json.reads_decInt x⟩

/-- A field escaped into a buffer of `dstsize` bytes. -/
def escMember (key : Bytes) (dstsize : Nat) (src : Bytes) : Json.Member :=
  strMember key (hsedJsonEscape dstsize src) (kept dstsize 0 (cstr src))

theorem escMember_ok {key : Bytes} (hk : plainKey key = true) {dstsize : Nat} (hpos : 0 < dstsize) (src : Bytes) :
    (escMember key dstsize src).Ok := by
  refine strMember_ok hk ?_
  rw [hsedJsonEscape_eq hpos]
  exact escaped_flatMap _

def entryMembers (e : Entry) : List Json.Member :=
  [ strMember (ascii "type") (ascii "entry") (ascii "entry"),
    intMember (ascii "pid") e.pid,
    intMember (ascii "fd") e.fd,
    strMember (ascii "mode") e.mode e.mode,
    intMember (ascii "size") e.size,
    natMember (ascii "uid") e.uid,
    escMember (ascii "user") (hsedNameMax * 2) e.user,
    escMember (ascii "comm") (hsedNameMax * 2) e.comm,
    escMember (ascii "cmdline") (hsedCmdlineMax * 2) e.cmdline,
    escMember (ascii "path") (hsedPathMax * 2) e.path,
    natMember (ascii "inode") e.inode,
    natMember (ascii "dev_major") e.devMajor,
    natMember (ascii "dev_minor") e.devMinor,
    intMember (ascii "mtime") e.mtime ]

theorem entryText_eq_render (e : Entry) : entryText e = Json.render (entryMembers e) := by
  delta entryText
  simp only [entryMembers, Json.render, Json.renderMembers, Json.Member.render, strMember, intMember,
    natMember, escMember, List.append_assoc, List.cons_append, List.nil_append,
    show ascii "\x7b\"type\":\"entry\",\"pid\":" = 0x7b :: 0x22 :: (ascii "type" ++ 0x22 :: 0x3a :: 0x22 ::
      (ascii "entry" ++ 0x22 :: 0x2c :: 0x22 :: (ascii "pid" ++ [0x22, 0x3a]))) from rfl,
    show ascii ",\"fd\":" = 0x2c :: 0x22 :: (ascii "fd" ++ [0x22, 0x3a]) from rfl,
    show ascii ",\"mode\":\"" = 0x2c :: 0x22 :: (ascii "mode" ++ [0x22, 0x3a, 0x22]) from rfl,
    show ascii "\"," = [0x22, 0x2c] from rfl,
    show ascii "\"size\":" = 0x22 :: (ascii "size" ++ [0x22, 0x3a]) from rfl,
    show ascii ",\"uid\":" = 0x2c :: 0x22 :: (ascii "uid" ++ [0x22, 0x3a]) from rfl,
    show ascii ",\"user\":\"" = 0x2c :: 0x22 :: (ascii "user" ++ [0x22, 0x3a, 0x22]) from rfl,
    show ascii "\",\"comm\":\"" = 0x22 :: 0x2c :: 0x22 :: (ascii "comm" ++ [0x22, 0x3a, 0x22]) from rfl,
    show ascii "\"cmdline\":\"" = 0x22 :: (ascii "cmdline" ++ [0x22, 0x3a, 0x22]) from rfl,
    show ascii "\",\"path\":\"" = 0x22 :: 0x2c :: 0x22 :: (ascii "path" ++ [0x22, 0x3a, 0x22]) from rfl,
    show ascii "\",\"inode\":" = 0x22 :: 0x2c :: 0x22 :: (ascii "inode" ++ [0x22, 0x3a]) from rfl,
    show ascii "," = [0x2c] from rfl,
    show ascii "\"dev_major\":" = 0x22 :: (ascii "dev_major" ++ [0x22, 0x3a]) from rfl,
    show ascii ",\"dev_minor\":" = 0x2c :: 0x22 :: (ascii "dev_minor" ++ [0x22, 0x3a]) from rfl,
    show ascii ",\"mtime\":" = 0x2c :: 0x22 :: (ascii "mtime" ++ [0x22, 0x3a]) from rfl,
    show ascii "\x7d" = [0x7d] from rfl]

theorem entryMembers_ok {e : Entry} (h : e.mode ∈ modes) : ∀ m ∈ entryMembers e, m.Ok := by
  have hmodes : ∀ mode ∈ modes, Json.plainText mode = true := by decide
  have htype : Json.Escaped (ascii "entry") (ascii "entry") := Json.Escaped.of_plain (Json.plain_of_plainText (by decide))
  have hmode : Json.Escaped e.mode e.mode := Json.Escaped.of_plain (Json.plain_of_plainText (hmodes e.mode h))
  simp only [entryMembers, List.forall_mem_cons]
  exact ⟨strMember_ok (by decide) htype, intMember_ok (by decide) _,
    intMember_ok (by decide) _, strMember_ok (by decide) hmode,
    intMember_ok (by decide) _, natMember_ok (by decide) _, escMember_ok (by decide) (by decide) _,
    escMember_ok (by decide) (by decide) _, escMember_ok (by decide) (by decide) _,
    escMember_ok (by decide) (by decide) _, natMember_ok (by decide) _, natMember_ok (by decide) _,
    natMember_ok (by decide) _, intMember_ok (by decide) _, List.forall_mem_nil _⟩

theorem printable_strMember {key raw text : Bytes} (h : Json.Escaped raw text) :
    Json.Printable (strMember key raw text).text :=
  Json.printable_cons (by decide) (Json.printable_append h.printable
    (Json.printable_cons (by decide) (List.forall_mem_nil _)))

theorem printable_escMember {key : Bytes} {dstsize : Nat} (hpos : 0 < dstsize) (src : Bytes) :
    Json.Printable (escMember key dstsize src).text := by
  refine printable_strMember ?_
  rw [hsedJsonEscape_eq hpos]
  exact escaped_flatMap _

theorem printable_entryMember {e : Entry} (h : e.mode ∈ modes) : ∀ m ∈ entryMembers e, Json.Printable m.text := by
  have hmode : ∀ mode ∈ modes, Json.plainText mode = true := by decide
  simp only [entryMembers, List.forall_mem_cons]
  exact ⟨printable_strMember (Json.Escaped.of_plain (Json.plain_of_plainText (by decide))), Json.printable_decInt _,
    Json.printable_decInt _, printable_strMember (Json.Escaped.of_plain (Json.plain_of_plainText (hmode e.mode h))),
    Json.printable_decInt _, Json.printable_decNat _, printable_escMember (by decide) _,
    printable_escMember (by decide) _, printable_escMember (by decide) _, printable_escMember (by decide) _,
    Json.printable_decNat _, Json.printable_decNat _, Json.printable_decNat _, Json.printable_decInt _,
    List.forall_mem_nil _⟩

theorem printable_entryLine {e : Entry} (h : e.mode ∈ modes) : Json.Printable (Json.render (entryMembers e)) :=
  Json.printable_render (entryMembers_ok h) (printable_entryMember h)

/-! ## Lengths -/

theorem escLen_le (s : Bytes) : escLen s ≤ 6 * s.length := by
  induction s with
  | nil => exact Nat.le_refl 0
  | cons b s ih =>
      have hb := escUnit_length b
      rw [escLen_cons, List.length_cons]
      omega

theorem length_hsedJsonEscape_le {dstsize : Nat} (hpos : 0 < dstsize) (src : Bytes) :
    (hsedJsonEscape dstsize src).length ≤ 6 * src.length := by
  have hk := (kept_sublist dstsize (cstr src) 0).length_le
  have hc := (prefix_of_cstr src).length_le
  have he := escLen_le (kept dstsize 0 (cstr src))
  rw [hsedJsonEscape_eq hpos, length_flatMap_escUnit]
  omega

theorem length_mode_le {mode : Bytes} (h : mode ∈ modes) :
    mode.length ≤ 2 := by
  revert mode
  decide

/-- `linebuf` holds every entry: with `comm` at fifteen bytes the four escape buffers, the numbers and the
    fixed text stay below it. -/
theorem length_entryText_lt {e : Entry} (h : e.Typed) (hcomm15 : e.comm.length ≤ 15) :
    (entryText e).length < linebufSize := by
  have hpid : (decInt e.pid).length ≤ 11 := length_decInt_le (k := 10) (by decide) (by have hpid := h.pid; omega)
    (by have hpid := h.pid; omega)
  have hfd : (decInt e.fd).length ≤ 11 := length_decInt_le (k := 10) (by decide) (by have hfd := h.fd; omega)
    (by have hfd := h.fd; omega)
  have hsize : (decInt e.size).length ≤ 20 := length_decInt_le (k := 19) (by decide) (by have hsize := h.size; omega)
    (by have hsize := h.size; omega)
  have hmtime : (decInt e.mtime).length ≤ 20 := length_decInt_le (k := 19) (by decide) (by have hmtime := h.mtime; omega)
    (by have hmtime := h.mtime; omega)
  have huid : (decNat e.uid).length ≤ 10 := decNat_length_le (by decide) (by have hlt := h.uid; omega)
  have hino : (decNat e.inode).length ≤ 20 := decNat_length_le (by decide) (by have hlt := h.inode; omega)
  have hmaj : (decNat e.devMajor).length ≤ 10 := decNat_length_le (by decide) (by have hlt := h.devMajor; omega)
  have hmin : (decNat e.devMinor).length ≤ 10 := decNat_length_le (by decide) (by have hlt := h.devMinor; omega)
  have hmode := length_mode_le h.mode
  -- the four texts stay below their buffers; `comm` is far below its own
  have huser := length_hsedJsonEscape_lt (show 0 < hsedNameMax * 2 by decide) e.user
  have hcomm := length_hsedJsonEscape_le (show 0 < hsedNameMax * 2 by decide) e.comm
  have hcmd := length_hsedJsonEscape_lt (show 0 < hsedCmdlineMax * 2 by decide) e.cmdline
  have hpath := length_hsedJsonEscape_lt (show 0 < hsedPathMax * 2 by decide) e.path
  delta entryText
  simp only [List.length_append,
    show (ascii "\x7b\"type\":\"entry\",\"pid\":").length = 22 from rfl,
    show (ascii ",\"fd\":").length = 6 from rfl,
    show (ascii ",\"mode\":\"").length = 9 from rfl,
    show (ascii "\",").length = 2 from rfl,
    show (ascii "\"size\":").length = 7 from rfl,
    show (ascii ",\"uid\":").length = 7 from rfl,
    show (ascii ",\"user\":\"").length = 9 from rfl,
    show (ascii "\",\"comm\":\"").length = 10 from rfl,
    show (ascii "\"cmdline\":\"").length = 11 from rfl,
    show (ascii "\",\"path\":\"").length = 10 from rfl,
    show (ascii "\",\"inode\":").length = 10 from rfl,
    show (ascii ",").length = 1 from rfl,
    show (ascii "\"dev_major\":").length = 12 from rfl,
    show (ascii ",\"dev_minor\":").length = 13 from rfl,
    show (ascii ",\"mtime\":").length = 9 from rfl,
    show (ascii "\x7d").length = 1 from rfl]
  simp only [linebufSize, hsedNameMax, hsedCmdlineMax, hsedPathMax] at *
  omega

/-- The outer `snprintf` of `hsed_format_entry` cuts nothing. -/
theorem hsedFormatEntry_eq {e : Entry} (h : e.Typed) (hcomm : e.comm.length ≤ 15) :
    hsedFormatEntry e linebufSize = Json.render (entryMembers e) := by
  rw [hsedFormatEntry, snprintf_of_lt (length_entryText_lt h hcomm), entryText_eq_render]

/-! ## No field breaks a line -/

/-- The keys of an entry line. -/
def entryKeys : List Bytes :=
  [ascii "type", ascii "pid", ascii "fd", ascii "mode", ascii "size", ascii "uid", ascii "user", ascii "comm",
    ascii "cmdline", ascii "path", ascii "inode", ascii "dev_major", ascii "dev_minor", ascii "mtime"]

/-- The four fields that are escaped, each with the size of its buffer. -/
def escapedFields (e : Entry) : List (Nat × Bytes) :=
  [(hsedNameMax * 2, e.user), (hsedNameMax * 2, e.comm), (hsedCmdlineMax * 2, e.cmdline), (hsedPathMax * 2, e.path)]

/-- A field escaped into a buffer: it ends with its NUL inside the buffer, and is made of whole units, each
    for a byte of the field, so that a JSON string is read from it to its end. -/
structure EscapedWhole (dstsize : Nat) (src : Bytes) : Prop where
  inside : (jsonEscapeLoop dstsize [] (cstr src)).length < dstsize
  uncut : hsedJsonEscape dstsize src = jsonEscapeLoop dstsize [] (cstr src)
  terminated : 0 ∉ hsedJsonEscape dstsize src
  units : ∃ bytes : Bytes, bytes.Sublist src ∧ hsedJsonEscape dstsize src = bytes.flatMap escUnit ∧
    Json.Escaped (hsedJsonEscape dstsize src) bytes

theorem escapedWhole {dstsize : Nat} (hpos : 0 < dstsize) (src : Bytes) : EscapedWhole dstsize src := by
  have hloop : jsonEscapeLoop dstsize [] (cstr src) = (kept dstsize 0 (cstr src)).flatMap escUnit :=
    jsonEscapeLoop_eq dstsize (cstr src) []
  have hesc : Json.Escaped (hsedJsonEscape dstsize src) (kept dstsize 0 (cstr src)) := by
    rw [hsedJsonEscape_eq hpos]
    exact escaped_flatMap _
  refine ⟨?_, ?_, ?_, kept dstsize 0 (cstr src), ?_, hsedJsonEscape_eq hpos src, hesc⟩
  · have hlt := length_hsedJsonEscape_lt hpos src
    rwa [hsedJsonEscape_eq hpos, ← hloop] at hlt
  · rw [hsedJsonEscape_eq hpos, hloop]
  · intro h0
    exact absurd (hesc.printable 0 h0) (by decide)
  · exact (kept_sublist dstsize (cstr src) 0).trans (prefix_of_cstr src).sublist

/-- **No field content can break an entry line.** Whatever bytes the strings of an entry hold, the line buffer
    takes the whole line; it is one JSON object with the fourteen keys in their order and no control byte, and
    no escaped field ends in the middle of a unit. -/
theorem entry_line_intact {e : Entry} (h : e.Typed) (hcomm : e.comm.length ≤ 15) :
    (entryText e).length < linebufSize ∧ hsedFormatEntry e linebufSize = entryText e ∧
    (∃ members, Json.unmarshal (hsedFormatEntry e linebufSize) = some (.obj members) ∧
      members.map (·.1) = entryKeys) ∧
    (∀ b ∈ hsedFormatEntry e linebufSize, 0x20 ≤ b) ∧
    ∀ field ∈ escapedFields e, EscapedWhole field.1 field.2 := by
  refine ⟨length_entryText_lt h hcomm, snprintf_of_lt (length_entryText_lt h hcomm), ?_, ?_, ?_⟩
  · rw [hsedFormatEntry_eq h hcomm]
    exact ⟨_, Json.unmarshal_render (by simp [entryMembers]) (entryMembers_ok h.mode), rfl⟩
  · rw [hsedFormatEntry_eq h hcomm]
    exact printable_entryLine h.mode
  · simp only [escapedFields, List.forall_mem_cons]
    exact ⟨escapedWhole (by decide) _, escapedWhole (by decide) _, escapedWhole (by decide) _,
      escapedWhole (by decide) _, List.forall_mem_nil _⟩

/-- A path of control characters and a `comm` of quotes, each as long as it can be. -/
def hostileEntry : Entry :=
  { pid := 7, fd := 3, mode := ascii "rw", size := 4096, uid := 0, user := ascii "root"
    comm := List.replicate 15 0x22, cmdline := List.replicate 1023 0x5c, path := List.replicate 4085 0x01
    inode := 12, devMajor := 8, devMinor := 1, mtime := 0 }

theorem nul_notMem_replicate (n : Nat) {b : UInt8} (hb : 0 ≠ b) : 0 ∉ List.replicate n b :=
  fun h => hb (List.eq_of_mem_replicate h)

theorem hostileEntry_typed : hostileEntry.Typed :=
  { pid := by decide, fd := by decide, mode := by decide, size := by decide, uid := by decide, user := by decide
    comm := nul_notMem_replicate _ (by decide), cmdline := nul_notMem_replicate _ (by decide)
    path := nul_notMem_replicate _ (by decide)
    inode := by decide, devMajor := by decide, devMinor := by decide, mtime := by decide }

/-- Its line. -/
theorem entry_line_intact_hostile :
    (entryText hostileEntry).length < 11264 ∧ hsedFormatEntry hostileEntry linebufSize = entryText hostileEntry ∧
    (∃ members, Json.unmarshal (hsedFormatEntry hostileEntry linebufSize) = some (.obj members) ∧
      members.map (·.1) = entryKeys) ∧
    (∀ b ∈ hsedFormatEntry hostileEntry linebufSize, 0x20 ≤ b) ∧
    ∀ field ∈ escapedFields hostileEntry, EscapedWhole field.1 field.2 :=
  entry_line_intact hostileEntry_typed (le_of_eq (List.length_replicate))

end Wire
end Hsed
