import Hsed.Client.Correctness.Decode
import Hsed.Server.Correctness.Replies

/-!
# `EndToEnd.Scan` — a listing, from `hsed_scan` to `Client.Scan`

On a healthy connection `handle_scan` sends one line for each entry and an end line (`handleScan_wire`). The
client always gets as many entries back, in order, with the same total (`scan_sent`); each is the
entry `received`, whose strings are what survived the escape buffers. `scan_round_trip_iff` says when
that is the entry itself.
-/

namespace Hsed
namespace EndToEnd

open CLib Scan Wire Server Client

/-! ## What the client makes of one entry -/

/-- The entry as the client's record, field by field. -/
def shown (e : Entry) : HiddenEntry :=
  { pid := e.pid, fd := e.fd, mode := e.mode, size := e.size, uid := e.uid, user := e.user, comm := e.comm
    cmdline := e.cmdline, path := e.path, inode := e.inode, devMajor := e.devMajor
    devMinor := e.devMinor, mtime := e.mtime }

/-- A string as it comes back from an escape buffer of `dstsize` bytes. -/
def echoed (dstsize : Nat) (src : Bytes) : Bytes := Utf8.coerce (kept dstsize 0 (cstr src))

/-- What the client decodes from the entry's line. -/
def received (e : Entry) : HiddenEntry :=
  { shown e with
    user := echoed (hsedNameMax * 2) e.user
    comm := echoed (hsedNameMax * 2) e.comm
    cmdline := echoed (hsedCmdlineMax * 2) e.cmdline
    path := echoed (hsedPathMax * 2) e.path }

theorem entryEnvelope {e : Entry} (h : e.Typed) :
    unmarshalInto Envelope.fields Envelope.zero (Json.render (entryMembers e)) =
      some { Envelope.zero with type := ascii "entry" } := by
  rw [unmarshalInto_render (by simp [entryMembers]) (entryMembers_ok h.mode)]
  -- only the type is a field of the envelope
  refine foldlM_storeMember (storeMember_str rfl) ?_
  iterate 13 refine foldlM_storeMember (storeMember_unknown rfl) ?_
  rfl

theorem coerce_mode {mode : Bytes} (h : mode ∈ modes) : Utf8.coerce mode = mode := by
  revert mode
  decide

/-- The members after the strings. -/
theorem entry_decoded_stat {e : Entry} (h : e.Typed) (st : HiddenEntry) :
    (((entryMembers e).drop 10).map fun m => (m.key, m.val)).foldlM (Json.storeMember HiddenEntry.fields) st =
      some { st with inode := e.inode, devMajor := e.devMajor, devMinor := e.devMinor, mtime := e.mtime } := by
  have hmaj := h.devMajor
  have hmin := h.devMinor
  refine foldlM_storeMember (storeMember_uint rfl h.inode) ?_
  refine foldlM_storeMember (storeMember_nat rfl (by omega)) ?_
  refine foldlM_storeMember (storeMember_nat rfl (by omega)) ?_
  refine foldlM_storeMember (storeMember_int rfl h.mtime.1 h.mtime.2) ?_
  rfl

/-- The four strings. -/
theorem entry_decoded_strings {e : Entry} (h : e.Typed) (st : HiddenEntry) :
    (((entryMembers e).drop 6).map fun m => (m.key, m.val)).foldlM (Json.storeMember HiddenEntry.fields) st =
      some { st with
        user := (received e).user, comm := (received e).comm, cmdline := (received e).cmdline
        path := (received e).path, inode := e.inode, devMajor := e.devMajor
        devMinor := e.devMinor, mtime := e.mtime } := by
  refine foldlM_storeMember (storeMember_str rfl) ?_
  refine foldlM_storeMember (storeMember_str rfl) ?_
  refine foldlM_storeMember (storeMember_str rfl) ?_
  refine foldlM_storeMember (storeMember_str rfl) ?_
  exact entry_decoded_stat h _

theorem entry_decoded {e : Entry} (h : e.Typed) :
    unmarshalInto HiddenEntry.fields HiddenEntry.zero (Json.render (entryMembers e)) = some (received e) := by
  have hpid := h.pid
  have hfd := h.fd
  have huid := h.uid
  rw [unmarshalInto_render (by simp [entryMembers]) (entryMembers_ok h.mode)]
  refine foldlM_storeMember (storeMember_unknown rfl) ?_
  refine foldlM_storeMember (storeMember_int rfl (by omega) (by omega)) ?_
  refine foldlM_storeMember (storeMember_int rfl (by omega) (by omega)) ?_
  refine foldlM_storeMember (storeMember_str rfl) ?_
  refine foldlM_storeMember (storeMember_int rfl h.size.1 h.size.2) ?_
  refine foldlM_storeMember (storeMember_nat rfl (by omega)) ?_
  refine (entry_decoded_strings h _).trans ?_
  rw [coerce_mode h.mode]
  rfl

/-! ## The reply of `handle_scan` -/

/-- The lines of the entries. -/
def entryLines (es : List Entry) : Bytes := es.flatMap fun e => hsedFormatEntry e linebufSize ++ [0x0a]

theorem sendEntries_ok (es : List Entry) : ∀ (sock : Sock) (done : List Entry), sock.Healthy →
    ∃ sock', sendEntries es sock (tally done).totalBytes = (true, sock', (tally (done ++ es)).totalBytes) ∧
      sock'.wire = sock.wire ++ entryLines es ∧ sock'.Healthy := by
  induction es with
  | nil =>
      intro sock done h
      exact ⟨sock, by rw [sendEntries, List.append_nil], by simp [entryLines], h⟩
  | cons e es ih =>
      intro sock done h
      obtain ⟨sock₁, hsend, hwire, -, hok⟩ := hsedSendLine_ok h (hsedFormatEntry e linebufSize)
      obtain ⟨sock₂, heq, hwire₂, hok₂⟩ := ih sock₁ (done ++ [e]) hok
      have htotal : toInt64 ((tally done).totalBytes + e.size) = (tally (done ++ [e])).totalBytes := by
        simp only [tally, List.map_append, List.map_cons, List.map_nil, List.sum_append, List.sum_cons,
          List.sum_nil, toInt64, Int.bmod_add_bmod, Int.add_zero]
      refine ⟨sock₂, ?_, ?_, hok₂⟩
      · rw [sendEntries, hsend]
        simp only [ne_eq, not_true, if_false, htotal, heq, List.append_assoc, List.singleton_append]
      · rw [hwire₂, hwire]
        simp [entryLines, List.append_assoc]

def endMembers (count : Nat) (total : Int) : List Json.Member :=
  [ strMember (ascii "type") (ascii "end") (ascii "end"),
    natMember (ascii "count") count,
    intMember (ascii "total_bytes") total ]

theorem objectLine_end (count : Nat) (total : Int) : ObjectLine (endText count total) (endMembers count total) where
  eq_render := by
    delta endText
    simp only [endMembers, Json.render, Json.renderMembers, Json.Member.render, strMember, intMember, natMember,
      List.append_assoc, List.cons_append, List.nil_append,
      show ascii "\x7b\"type\":\"end\",\"count\":" =
        0x7b :: 0x22 :: (ascii "type" ++ 0x22 :: 0x3a :: 0x22 :: (ascii "end" ++ 0x22 :: 0x2c :: 0x22 ::
          (ascii "count" ++ [0x22, 0x3a]))) from rfl,
      show ascii ",\"total_bytes\":" = 0x2c :: 0x22 :: (ascii "total_bytes" ++ [0x22, 0x3a]) from rfl,
      show ascii "\x7d" = [0x7d] from rfl]
  ne_nil := List.cons_ne_nil _ _
  members := by
    simp only [endMembers, List.forall_mem_cons]
    exact ⟨lineMember_type (by decide), lineMember_nat (by decide) _, lineMember_int (by decide) _,
      List.forall_mem_nil _⟩

theorem length_endText_lt {count : Nat} {total : Int} (hc : count < 2 ^ 63)
    (ht : -(2 ^ 63) ≤ total ∧ total < 2 ^ 63) : (endText count total).length < 2048 := by
  have hcount : (decNat count).length ≤ 19 := decNat_length_le (by decide) (by omega)
  have htotal : (decInt total).length ≤ 20 := length_decInt_le (k := 19) (by decide) (by omega) (by omega)
  delta endText
  simp only [List.length_append, show (ascii "\x7b\"type\":\"end\",\"count\":").length = 22 from rfl,
    show (ascii ",\"total_bytes\":").length = 15 from rfl, show (ascii "\x7d").length = 1 from rfl]
  omega

theorem endEnvelope {count : Nat} {total : Int} (hc : count < 2 ^ 63)
    (ht : -(2 ^ 63) ≤ total ∧ total < 2 ^ 63) :
    unmarshalInto Envelope.fields Envelope.zero (endText count total) =
      some { Envelope.zero with type := ascii "end", totalBytes := total, count := count } := by
  rw [(objectLine_end count total).unmarshalInto]
  refine foldlM_storeMember (storeMember_str rfl) ?_
  refine foldlM_storeMember (storeMember_nat rfl hc) ?_
  refine foldlM_storeMember (storeMember_int rfl ht.1 ht.2) ?_
  rfl

/-- What the peer receives from one `handle_scan`. -/
def sentByScan (env : Env) (c : Conn) (minSize onlyPid : Int) (uidFilter : Nat) : Bytes :=
  (handleScan env c minSize onlyPid uidFilter).sock.wire.drop c.sock.wire.length

theorem handleScan_wire {env : Env} {c : Conn} (hc : c.sock.Healthy) {minSize onlyPid : Int}
    {uidFilter : Nat} {es : List Entry} (h : env.scan minSize onlyPid uidFilter = some es)
    (hlen : es.length < 2 ^ 63) :
    sentByScan env c minSize onlyPid uidFilter =
      entryLines es ++ (endText es.length (tally es).totalBytes ++ [0x0a]) := by
  obtain ⟨sock₁, heq, hwire, hok⟩ := sendEntries_ok es c.sock [] hc
  rw [List.nil_append] at heq
  have htotal := toInt64_bounds (es.map (·.size)).sum
  have hcut : snprintf 2048 (endText es.length (tally es).totalBytes) =
      endText es.length (tally es).totalBytes := snprintf_of_lt (length_endText_lt hlen htotal)
  obtain ⟨sock₂, hsend, hwire₂, -, -⟩ := hsedSendLine_ok hok (endText es.length (tally es).totalBytes)
  have hz : (tally []).totalBytes = 0 := rfl
  rw [hz] at heq
  rw [sentByScan, handleScan, h]
  simp only [heq, Conn.reply, hsedSendLinef, hcut, hsend]
  rw [hwire₂, hwire, List.append_assoc, List.append_assoc, List.drop_left]

/-! ## The client on that reply -/

theorem scanLoop_entry {e : Entry} (h : e.Typed) (hcomm : e.comm.length ≤ 15) (fuel : Nat) (rest : Bytes)
    (entries : List HiddenEntry) :
    scanLoop (fuel + 1) (hsedFormatEntry e linebufSize ++ 0x0a :: rest) entries =
      scanLoop fuel rest (entries ++ [received e]) := by
  rw [hsedFormatEntry_eq h hcomm, scanLoop, readEnvelope_line (printable_entryLine h.mode), entryEnvelope h]
  simp only [if_true, entry_decoded h]

theorem scanLoop_entries {es : List Entry} (ht : ∀ e ∈ es, e.Typed) (hcomm : ∀ e ∈ es, e.comm.length ≤ 15)
    (rest : Bytes) : ∀ (fuel : Nat) (entries : List HiddenEntry),
    scanLoop (fuel + es.length) (entryLines es ++ rest) entries =
      scanLoop fuel rest (entries ++ es.map received) := by
  induction es with
  | nil => intro fuel entries; simp [entryLines]
  | cons e es ih =>
      intro fuel entries
      rw [List.forall_mem_cons] at ht hcomm
      have hline : entryLines (e :: es) ++ rest =
          hsedFormatEntry e linebufSize ++ 0x0a :: (entryLines es ++ rest) := by
        simp [entryLines]
      rw [hline, List.length_cons, ← Nat.add_assoc, scanLoop_entry ht.1 hcomm.1, ih ht.2 hcomm.2,
        List.map_cons, List.append_assoc, List.singleton_append]

theorem scanLoop_end {count : Nat} {total : Int} (hc : count < 2 ^ 63)
    (ht : -(2 ^ 63) ≤ total ∧ total < 2 ^ 63) (fuel : Nat) (entries : List HiddenEntry) :
    scanLoop (fuel + 1) (endText count total ++ [0x0a]) entries = .ok (entries, total) := by
  rw [scanLoop, readEnvelope_line (objectLine_end count total).printable, endEnvelope hc ht]
  rfl

theorem length_entryLines (es : List Entry) : es.length ≤ (entryLines es).length := by
  induction es with
  | nil => exact Nat.le_refl 0
  | cons e es ih =>
      simp only [entryLines, List.flatMap_cons, List.length_append, List.length_cons, List.length_nil] at ih ⊢
      omega

/-- The client reads the entries in one pass each, and comes to what follows them with fuel to spare. -/
theorem scan_entries {es : List Entry} (ht : ∀ e ∈ es, e.Typed) (hcomm : ∀ e ∈ es, e.comm.length ≤ 15) (rest : Bytes) :
    ∃ fuel, Client.scan (entryLines es ++ rest) = scanLoop (fuel + 1) rest (es.map received) := by
  have hlines := length_entryLines es
  have hfuel : (entryLines es ++ rest).length + 1 = (entryLines es ++ rest).length - es.length + 1 + es.length := by
    rw [List.length_append]
    omega
  refine ⟨(entryLines es ++ rest).length - es.length, ?_⟩
  rw [Client.scan, hfuel, scanLoop_entries ht hcomm, List.nil_append]

/-- **The listing arrives**: as many entries, in order, and the same total. -/
theorem scan_sent {es : List Entry} (ht : ∀ e ∈ es, e.Typed) (hcomm : ∀ e ∈ es, e.comm.length ≤ 15)
    (hlen : es.length < 2 ^ 63) :
    Client.scan (entryLines es ++ (endText es.length (tally es).totalBytes ++ [0x0a])) =
      .ok (es.map received, (tally es).totalBytes) := by
  have htotal := toInt64_bounds (es.map (·.size)).sum
  obtain ⟨fuel, hscan⟩ := scan_entries ht hcomm (endText es.length (tally es).totalBytes ++ [0x0a])
  rw [hscan]
  exact scanLoop_end hlen htotal fuel _

/-! ## The round trip -/

/-- A string of `n` bytes' escape buffer comes back: it fits, or is restored by accident. -/
def Survives (dstsize : Nat) (src : Bytes) : Prop := fits dstsize src = true ∨ Restored dstsize src

/-- The strings of an entry are valid UTF-8. -/
def EntryUtf8 (e : Entry) : Prop :=
  Utf8.valid e.user = true ∧ Utf8.valid e.comm = true ∧ Utf8.valid e.cmdline = true ∧
    Utf8.valid e.path = true

theorem echoed_iff {dstsize : Nat} {src : Bytes} (hnul : 0 ∉ src) (hv : Utf8.valid src = true) :
    echoed dstsize src = src ↔ Survives dstsize src := by
  have hc : cstr src = src := cstr_eq_self fun b hb h0 => hnul (h0 ▸ hb)
  rw [echoed, hc]
  exact coerce_kept_iff hv

/-- Fifteen bytes always fit. -/
theorem fits_comm {comm : Bytes} (h : comm.length ≤ 15) : fits (hsedNameMax * 2) comm = true := by
  rw [fits_iff]
  intro s b heq
  have hs := escLen_le s
  have hb := escUnit_length b
  rw [heq, List.length_append, List.length_singleton] at h
  rw [hsedNameMax]
  omega

theorem received_eq_iff {e : Entry} (ht : e.Typed) (hcomm : e.comm.length ≤ 15) (hv : EntryUtf8 e) :
    received e = shown e ↔
      Survives (hsedNameMax * 2) e.user ∧ Survives (hsedCmdlineMax * 2) e.cmdline ∧
        Survives (hsedPathMax * 2) e.path := by
  obtain ⟨hvu, hvc, hvl, hvp⟩ := hv
  have hc : echoed (hsedNameMax * 2) e.comm = e.comm := (echoed_iff ht.comm hvc).mpr (.inl (fits_comm hcomm))
  rw [← echoed_iff ht.user hvu, ← echoed_iff ht.cmdline hvl, ← echoed_iff ht.path hvp]
  constructor
  · intro h
    exact ⟨congrArg HiddenEntry.user h, congrArg HiddenEntry.cmdline h, congrArg HiddenEntry.path h⟩
  · rintro ⟨hu, hl, hp⟩
    rw [received, hu, hc, hl, hp]
    rfl

/-- `sizeof(hsed_entry_t)` on a 64-bit target. -/
def sizeofEntry : Nat := 5688

section
variable {qsort : Qsort} {snap : Snapshot} {alloc : Alloc} {minSize onlyPid numThreads : Int}
  {uidFilter : Nat} {es : List Entry} {env : Env} {c : Conn}

theorem scan_received (hs : snap.Typed) (hp : -(2 ^ 31) ≤ onlyPid ∧ onlyPid < 2 ^ 31)
    (henv : env.scan = fun m p u => hsedScan qsort snap alloc m p u numThreads)
    (h : hsedScan qsort snap alloc minSize onlyPid uidFilter numThreads = some es)
    (hcomm : ∀ e ∈ es, e.comm.length ≤ 15) (hmem : es.length * sizeofEntry < 2 ^ 64)
    (hc : c.sock.Healthy) :
    Client.scan (sentByScan env c minSize onlyPid uidFilter) =
      .ok (es.map received, (tally es).totalBytes) := by
  have hlen : es.length < 2 ^ 63 := by unfold sizeofEntry at hmem; omega
  have hscan : env.scan minSize onlyPid uidFilter = some es := by rw [henv]; exact h
  rw [handleScan_wire hc hscan hlen]
  exact scan_sent (hsedScan_typed hs hp h) hcomm hlen

/-- **Listings.** Every listing `hsed_scan` can return, with valid UTF-8 in its strings and the kernel's
    short `comm`, comes back from a healthy connection unchanged and with the same total iff the user,
    command line and path of each entry survive their escape buffers. -/
theorem scan_round_trip_iff (hs : snap.Typed) (hp : -(2 ^ 31) ≤ onlyPid ∧ onlyPid < 2 ^ 31)
    (henv : env.scan = fun m p u => hsedScan qsort snap alloc m p u numThreads)
    (h : hsedScan qsort snap alloc minSize onlyPid uidFilter numThreads = some es)
    (hv : ∀ e ∈ es, EntryUtf8 e) (hcomm : ∀ e ∈ es, e.comm.length ≤ 15)
    (hmem : es.length * sizeofEntry < 2 ^ 64) (hc : c.sock.Healthy) :
    Client.scan (sentByScan env c minSize onlyPid uidFilter) = .ok (es.map shown, (tally es).totalBytes) ↔
      ∀ e ∈ es, Survives (hsedNameMax * 2) e.user ∧ Survives (hsedCmdlineMax * 2) e.cmdline ∧
        Survives (hsedPathMax * 2) e.path := by
  have htyped := hsedScan_typed hs hp h
  rw [scan_received hs hp henv h hcomm hmem hc]
  simp only [Except.ok.injEq, Prod.mk.injEq, and_true, List.map_inj_left]
  constructor
  · intro heq e he
    exact (received_eq_iff (htyped e he) (hcomm e he) (hv e he)).mp (heq e he)
  · intro hall e he
    exact (received_eq_iff (htyped e he) (hcomm e he) (hv e he)).mpr (hall e he)

end

/-! ## A listing of one process -/

/-- Process 7 holds one deleted file open; `argv` is what it chose as its command line. -/
def oneProcess (argv : Bytes) : Snapshot where
  names := some [ascii "7"]
  proc := fun pid =>
    if pid = 7 then
      { uid := some 1000
        fds := some [⟨ascii "3", some (ascii "/tmp/log (deleted)"), some ⟨4096, 12, 8, 1, 0⟩⟩]
        fdinfo := fun _ => none
        comm := some (ascii "cat\n")
        cmdline := some argv }
    else { uid := none, fds := none, fdinfo := fun _ => none, comm := none, cmdline := none }
  pwName := fun _ => none
  nprocessors := 1

theorem oneProcess_typed (argv : Bytes) : (oneProcess argv).Typed := by
  have hstat : ∀ pid ds d st, ((oneProcess argv).proc pid).fds = some ds → d ∈ ds → d.stat = some st →
      st = ⟨4096, 12, 8, 1, 0⟩ := by
    intro pid ds d st hds hd hst
    simp only [oneProcess] at hds
    split at hds
    · obtain rfl := Option.some.inj hds
      rw [List.mem_singleton.mp hd] at hst
      exact (Option.some.inj hst).symm
    · cases hds
  refine ⟨?_, ?_, ?_, ?_, ?_, ?_, ?_⟩
  · intro pid u hu
    simp only [oneProcess] at hu
    split at hu
    · obtain rfl := Option.some.inj hu; decide
    · cases hu
  · intro u name h; cases h
  all_goals
    intro pid ds d st hds hd hst
    rw [hstat pid ds d st hds hd hst]
    decide

/-- Surroundings whose scan is `hsed_scan` on the snapshot of one process. -/
def oneProcessEnv (argv : Bytes) : Env where
  scan := fun m p u => hsedScan mergeQsort (oneProcess argv) Alloc.ok m p u 1
  stats := fun m u => hsedScanStats (oneProcess argv) Alloc.ok m u 1
  truncate := fun _ _ => .error []
  kill := fun _ _ => .ok
  stream := fun _ _ => ([], none)
  strerror := []

/-- Its one entry. -/
def oneEntry (cmdline : Bytes) : Entry :=
  ⟨7, 3, ascii "?", 4096, 1000, ascii "1000", ascii "cat", cmdline, ascii "/tmp/log", 12, 8, 1, 0⟩

/-- A plain command line comes back. -/
theorem scan_round_trip_cat :
    Client.scan (sentByScan (oneProcessEnv (ascii "cat")) ⟨[], Sock.fresh, []⟩ 0 0 hsedUidAny) =
      .ok ([oneEntry (ascii "cat")].map shown, 4096) := by
  have h : hsedScan mergeQsort (oneProcess (ascii "cat")) Alloc.ok 0 0 hsedUidAny 1 =
      some [oneEntry (ascii "cat")] := by decide +kernel
  refine (scan_round_trip_iff (oneProcess_typed _) (by decide) rfl h ?_ ?_ (by decide) Sock.fresh_healthy).mpr ?_
  · intro e he
    rw [List.mem_singleton.mp he]
    exact ⟨by decide, by decide, by decide, by decide⟩
  · intro e he
    rw [List.mem_singleton.mp he]
    decide
  · intro e he
    rw [List.mem_singleton.mp he]
    exact ⟨.inl (by decide), .inl (by decide), .inl (by decide)⟩

/-- A process that calls itself four hundred times `\x01`. -/
def loudArgv : Bytes := List.replicate 400 0x01

/-- Its command line does not come back: 2400 escaped bytes do not fit in 2048. -/
theorem scan_control_cmdline_lost :
    hsedScan mergeQsort (oneProcess loudArgv) Alloc.ok 0 0 hsedUidAny 1 = some [oneEntry loudArgv] ∧
      EntryUtf8 (oneEntry loudArgv) ∧
      Client.scan (sentByScan (oneProcessEnv loudArgv) ⟨[], Sock.fresh, []⟩ 0 0 hsedUidAny) ≠
        .ok ([oneEntry loudArgv].map shown, 4096) := by
  have h : hsedScan mergeQsort (oneProcess loudArgv) Alloc.ok 0 0 hsedUidAny 1 =
      some [oneEntry loudArgv] := by decide +kernel
  have hcomm : ∀ e ∈ [oneEntry loudArgv], e.comm.length ≤ 15 := by decide
  refine ⟨h, ⟨by decide, by decide, by decide +kernel, by decide⟩, ?_⟩
  rw [scan_received (oneProcess_typed _) (by decide) rfl h hcomm (by decide) Sock.fresh_healthy]
  intro heq
  have hentry := (List.cons.inj (congrArg Prod.fst (Except.ok.inj heq))).1
  have hlen : (received (oneEntry loudArgv)).cmdline.length = loudArgv.length := by rw [hentry]; rfl
  have hshort : (received (oneEntry loudArgv)).cmdline.length < loudArgv.length := by decide +kernel
  omega

end EndToEnd
end Hsed
