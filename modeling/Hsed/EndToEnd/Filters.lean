import Hsed.EndToEnd.Stats
import Hsed.Scan.Correctness.Filter
import Hsed.Server.Correctness.Lines
import Hsed.Server.Correctness.Replies
import Hsed.Server.Correctness.Requests
import Hsed.Wire.Correctness.Send

/-!
# `EndToEnd.Filters` — a filter of the client, as the daemon applies it

A whole call of `Client.Scan` or `Client.Stats`: the request line, the daemon's answer on a connection whose
`send` may fail at any point, and what the client reads of it. A broken-off answer is an error for the
client (`readEnvelope_cut`), so what it returns without one is the whole listing.

The filters cross the wire as decimals of 64-bit numbers and are narrowed to `pid_t` and `uid_t` on arrival,
where one value stands for "no filter". `filters_agree_iff` says for which requests that is harmless.
-/

namespace Hsed
namespace EndToEnd

open CLib Scan Wire Server Client

/-! ## A daemon and its answers -/

/-- A daemon with what it sees of the machine while it answers one request. -/
structure Daemon where
  snap : Snapshot
  qsort : Qsort
  alloc : Alloc
  scanThreads : Int
  env : Env
  scan_eq : env.scan = fun m p u => hsedScan qsort snap alloc m p u scanThreads
  stats_eq : env.stats = fun m u => hsedScanStats snap alloc m u scanThreads
  typed : snap.Typed
  /-- `/proc/<pid>/comm` holds a name shorter than `TASK_COMM_LEN` and a newline. -/
  comm : ∀ pid text, (snap.proc pid).comm = some text → ∃ name, text = name ++ [0x0a] ∧ name.length ≤ 15
  strerror : Json.plainText env.strerror = true

/-- What the peer receives on a connection. -/
def answer (env : Nat → Env) (recv : List Recv) (sock : Sock) : Bytes :=
  (((handleConnection env recv sock).getLast?.map fun sv => sv.after.sock.wire).getD sock.wire).drop
    sock.wire.length

theorem connLoop_nil (env : Nat → Env) (fuel i : Nat) {c : Conn} (h : c.recv = []) : connLoop env fuel i c = [] := by
  cases fuel with
  | zero => rfl
  | succ fuel => rw [connLoop, h, recvLine]

/-- One request on a connection of its own. -/
theorem answer_request {env : Nat → Env} {recv : List Recv} {line : Bytes} (hd : Delivers recv line)
    (hp : Json.Printable line) (hlen : line.length < lineSize) {sock : Sock} {c : Conn}
    (hc : handleLine (env 0) ⟨[], sock, []⟩ line = (true, c)) (hrecv : c.recv = []) :
    answer env (recv ++ [.byte 0x0a]) sock = c.sock.wire.drop sock.wire.length := by
  have hbytes := notMem_of_printable hp
  have hserved : handleConnection env (recv ++ [.byte 0x0a]) sock = [⟨line, ⟨[], sock, []⟩, c⟩] := by
    rw [handleConnection, connLoop_delivers hd hbytes.1 hbytes.2 hlen, hc]
    simp only [if_true, connLoop_nil env _ _ hrecv]
  rw [answer, hserved]
  rfl

/-! ## What goes out, whatever `send` does -/

theorem reply_sent (c : Conn) (text : Bytes) :
    ∃ sent, (c.reply text).sock.wire = c.sock.wire ++ sent ∧ sent <+: framed (snprintf 2048 text) := by
  obtain ⟨k, -, hwire, -, -⟩ := hsedSendLine_spec c.sock (snprintf 2048 text)
  exact ⟨_, hwire, List.take_prefix _ _⟩

theorem sendEntries_sent (es : List Entry) : ∀ (sock : Sock) {total : Int},
    (-(2 ^ 63) ≤ total ∧ total < 2 ^ 63) →
    ∃ ok sock' total' sent, sendEntries es sock total = (ok, sock', total') ∧
      sock'.wire = sock.wire ++ sent ∧ sent <+: entryLines es ∧ (ok = true → sent = entryLines es) ∧
      -(2 ^ 63) ≤ total' ∧ total' < 2 ^ 63 := by
  induction es with
  | nil =>
      intro sock total ht
      exact ⟨true, sock, total, [], rfl, (List.append_nil _).symm, List.prefix_rfl, fun _ => rfl, ht⟩
  | cons e es ih =>
      intro sock total ht
      have hcons : entryLines (e :: es) = framed (hsedFormatEntry e linebufSize) ++ entryLines es := rfl
      obtain ⟨k, hk, hwire, hrc, -⟩ := hsedSendLine_spec sock (hsedFormatEntry e linebufSize)
      rw [sendEntries, hcons]
      generalize hsedSendLine sock (hsedFormatEntry e linebufSize) = r at hwire hrc
      obtain ⟨rc, sock₁⟩ := r
      simp only at hwire hrc ⊢
      by_cases hz : rc = 0
      · rw [if_neg (not_not.mpr hz)]
        -- the line is out, and the loop goes on
        obtain ⟨ok, sock', total', sent, heq, hw, hpre, hall, hb⟩ := ih sock₁ (toInt64_bounds (total + e.size))
        rw [hrc.mp hz, List.take_length] at hwire
        refine ⟨ok, sock', total', framed (hsedFormatEntry e linebufSize) ++ sent, heq, ?_, ?_, ?_, hb⟩
        · rw [hw, hwire, List.append_assoc]
        · exact (List.prefix_append_right_inj _).mpr hpre
        · intro hok
          rw [hall hok]
      · -- the line was cut: the loop ends
        rw [if_pos hz]
        refine ⟨false, sock₁, total, _, rfl, hwire, ?_, by simp, ht⟩
        exact (List.take_prefix _ _).trans (List.prefix_append _ _)

/-- The reply to SCAN, as far as it gets. -/
theorem handleScan_sent (env : Env) (c : Conn) (minSize onlyPid : Int) (uidFilter : Nat) :
    ∃ sent, (handleScan env c minSize onlyPid uidFilter).sock.wire = c.sock.wire ++ sent ∧
      match env.scan minSize onlyPid uidFilter with
      | none => sent <+: framed (snprintf 2048 (errorText (ascii "scan failed: " ++ env.strerror)))
      | some es => ∃ total, (-(2 ^ 63) ≤ total ∧ total < 2 ^ 63) ∧
          sent <+: entryLines es ++ framed (snprintf 2048 (endText es.length total)) := by
  unfold handleScan
  cases env.scan minSize onlyPid uidFilter with
  | none => exact reply_sent c _
  | some es =>
      obtain ⟨ok, sock, total, sent, heq, hwire, hpre, hall, hb⟩ := @sendEntries_sent es c.sock 0 (by decide)
      simp only [heq]
      cases ok with
      | false => exact ⟨sent, hwire, total, hb, hpre.trans (List.prefix_append _ _)⟩
      | true =>
          obtain ⟨last, hlast, hpre'⟩ := reply_sent { c with sock := sock } (endText es.length total)
          refine ⟨sent ++ last, ?_, total, hb, ?_⟩
          · rw [hlast, hwire, List.append_assoc]
          · rw [hall rfl]
            exact (List.prefix_append_right_inj _).mpr hpre'

theorem handleStats_sent (env : Env) (c : Conn) (minSize : Int) (uidFilter : Nat) :
    ∃ sent, (handleStats env c minSize uidFilter).sock.wire = c.sock.wire ++ sent ∧
      sent <+: framed (snprintf 2048 (match env.stats minSize uidFilter with
        | none => errorText (ascii "stats scan failed: " ++ env.strerror)
        | some st => statsText st)) := by
  unfold handleStats
  cases env.stats minSize uidFilter with
  | none => exact reply_sent c _
  | some st => exact reply_sent c _

/-! ## What the client makes of a broken-off answer -/

theorem unmarshalInto_cut {σ : Type} {fields : List (Json.Field σ)} {zero st : σ} {text line : Bytes}
    {ms : List Json.Member} (h : ObjectLine text ms) (hl : line <+: text)
    (hok : unmarshalInto fields zero line = some st) : line = text := by
  by_contra hne
  rw [unmarshalInto, h.unmarshal_cut hl hne] at hok
  cases hok

/-- **Broken-off lines.** Of a line that may have been cut by its buffer and by `send`, the client accepts
    only the whole. -/
theorem readEnvelope_cut {text line s : Bytes} {ms : List Json.Member} (h : ObjectLine text ms)
    (hl : line <+: text) (hs : s <+: framed line) {got : Bytes} {env : Envelope} {rest : Bytes}
    (hok : readEnvelope s = (.ok (got, env), rest)) :
    got = text ∧ unmarshalInto Envelope.fields Envelope.zero text = some env ∧ rest = [] := by
  have hprint : ∀ {t : Bytes}, t <+: text → Json.Printable t := fun ht b hb => h.printable b (ht.subset hb)
  rw [framed, List.prefix_concat_iff] at hs
  rcases hs with rfl | hs
  · rw [readEnvelope_line (hprint hl)] at hok
    obtain ⟨henv, rfl⟩ := Prod.mk.inj hok
    split at henv
    · cases henv
    next env' hu =>
      obtain ⟨rfl, rfl⟩ := Prod.mk.inj (Except.ok.inj henv)
      obtain rfl := unmarshalInto_cut h hl hu
      exact ⟨rfl, hu, rfl⟩
  · have hst := hs.trans hl
    rw [readEnvelope_unterminated (hprint hst)] at hok
    obtain ⟨henv, rfl⟩ := Prod.mk.inj hok
    split at henv
    · cases henv
    split at henv
    · cases henv
    next env' hu =>
      obtain ⟨rfl, rfl⟩ := Prod.mk.inj (Except.ok.inj henv)
      obtain rfl := unmarshalInto_cut h hst hu
      exact ⟨rfl, hu, rfl⟩

theorem readEnvelope_nil : readEnvelope [] = (.error .closed, []) := rfl

theorem scanLoop_nil (fuel : Nat) (entries : List HiddenEntry) :
    scanLoop fuel [] entries = .error .closedDuringScan := by
  cases fuel with
  | zero => rfl
  | succ fuel => rw [scanLoop, readEnvelope_nil]

/-- A result of the loop starts with an accepted line. -/
theorem scanLoop_ok {fuel : Nat} {s : Bytes} {entries hs : List HiddenEntry} {total : Int}
    (h : scanLoop fuel s entries = .ok (hs, total)) :
    ∃ got env rest, readEnvelope s = (.ok (got, env), rest) ∧
      ((env.type = ascii "end" ∧ hs = entries) ∨
        (env.type = ascii "entry" ∧ ∃ fuel' e, scanLoop fuel' rest (entries ++ [e]) = .ok (hs, total))) := by
  cases fuel with
  | zero => cases h
  | succ fuel =>
      rw [scanLoop] at h
      split at h
      · cases h
      next got env rest hread =>
        refine ⟨got, env, rest, hread, ?_⟩
        split at h
        next htype =>
          split at h
          · cases h
          next e he => exact .inr ⟨htype, fuel, e, h⟩
        next htype =>
          split at h
          next hend =>
            cases h
            exact .inl ⟨hend, rfl⟩
          · split at h <;> cases h

/-- A line of type "end" carries a count that the client can hold. -/
theorem endEnvelope_type {n : Nat} {total : Int} (ht : -(2 ^ 63) ≤ total ∧ total < 2 ^ 63) {env : Envelope}
    (h : unmarshalInto Envelope.fields Envelope.zero (endText n total) = some env) : env.type = ascii "end" := by
  by_cases hn : n < 2 ^ 63
  · rw [endEnvelope hn ht, Option.some_inj] at h
    rw [← h]
  · rw [(objectLine_end n total).unmarshalInto] at h
    have hnone := @foldlM_storeMember_none _ Envelope.fields Envelope.zero (ascii "type", .str (ascii "end"))
      (ascii "count", .num (decNat n)) [(ascii "total_bytes", .num (decInt total))] _ (storeMember_str rfl)
      (storeMember_nat_big rfl (Nat.le_of_not_lt hn))
    exact absurd (hnone.symm.trans h) (by simp)

theorem objectLine_entry {e : Entry} (h : e.Typed) : ObjectLine (Json.render (entryMembers e)) (entryMembers e) where
  eq_render := rfl
  ne_nil := List.cons_ne_nil _ _
  members := fun m hm => ⟨entryMembers_ok h.mode m hm, printable_entryMember h.mode m hm⟩

/-- A connection that ends in the line of an entry, or behind it: the read after it fails. -/
theorem scanLoop_entry_cut {e : Entry} (ht : e.Typed) (hcomm : e.comm.length ≤ 15) {s : Bytes}
    (hcut : s <+: framed (hsedFormatEntry e linebufSize)) {fuel : Nat} {entries hes : List HiddenEntry} {total : Int} :
    scanLoop fuel s entries ≠ .ok (hes, total) := by
  intro h
  obtain ⟨got, env, rest, hread, hor⟩ := scanLoop_ok h
  have hline := objectLine_entry ht
  have hwhole := hsedFormatEntry_eq ht hcomm
  obtain ⟨-, hu, rfl⟩ := readEnvelope_cut hline (hwhole ▸ List.prefix_rfl) hcut hread
  rw [entryEnvelope ht, Option.some_inj] at hu
  rcases hor with ⟨htype, -⟩ | ⟨-, fuel', e', h'⟩
  · rw [← hu] at htype
    exact absurd htype (by decide)
  · rw [scanLoop_nil] at h'
    cases h'

/-- **The listing, as far as it arrives**: a result without error is the whole of it. -/
theorem scanLoop_cut {es : List Entry} (ht : ∀ e ∈ es, e.Typed) (hcomm : ∀ e ∈ es, e.comm.length ≤ 15)
    {n : Nat} {total : Int} (htotal : -(2 ^ 63) ≤ total ∧ total < 2 ^ 63) : ∀ {s : Bytes} {fuel : Nat}
    {entries hes : List HiddenEntry} {total' : Int},
    s <+: entryLines es ++ framed (snprintf 2048 (endText n total)) →
    scanLoop fuel s entries = .ok (hes, total') → hes = entries ++ es.map received := by
  induction es with
  -- the end line: if it was read at all, its type ends the loop
  | nil =>
      intro s fuel entries hes total' hs h
      obtain ⟨got, env, rest, hread, hend | ⟨htype, -, -, -⟩⟩ := scanLoop_ok h
      · rw [hend.2, List.map_nil, List.append_nil]
      · obtain ⟨-, hu, -⟩ := readEnvelope_cut (objectLine_end n total) (List.take_prefix _ _) hs hread
        rw [endEnvelope_type htotal hu] at htype
        exact absurd htype (by decide)
  | cons e es ih =>
      intro s fuel entries hes total' hs h
      rw [List.forall_mem_cons] at ht hcomm
      have hcons : entryLines (e :: es) = framed (hsedFormatEntry e linebufSize) ++ entryLines es := rfl
      rw [hcons, List.append_assoc] at hs
      rcases List.prefix_or_prefix_of_prefix hs (List.prefix_append _ _) with hcut | ⟨s', rfl⟩
      · -- cut within this entry, or behind it
        exact absurd h (scanLoop_entry_cut ht.1 hcomm.1 hcut)
      · rw [List.prefix_append_right_inj] at hs
        have hstep : framed (hsedFormatEntry e linebufSize) ++ s' = hsedFormatEntry e linebufSize ++ 0x0a :: s' := by
          rw [framed, List.append_assoc, List.singleton_append]
        cases fuel with
        | zero => cases h
        | succ fuel =>
            rw [hstep, scanLoop_entry ht.1 hcomm.1] at h
            rw [ih ht.2 hcomm.2 hs h, List.map_cons, List.append_assoc, List.singleton_append]

theorem errorEnvelope_type {raw text : Bytes} (h : Json.Escaped raw text) {env : Envelope}
    (henv : unmarshalInto Envelope.fields Envelope.zero (errorText raw) = some env) : env.type = ascii "error" := by
  have hdecoded : unmarshalInto Envelope.fields Envelope.zero (errorText raw) =
      some { Envelope.zero with type := ascii "error", message := Utf8.coerce text } := by
    rw [(objectLine_error h).unmarshalInto]
    refine foldlM_storeMember (storeMember_str rfl) ?_
    refine foldlM_storeMember (storeMember_str rfl) ?_
    rfl
  rw [hdecoded, Option.some_inj] at henv
  rw [← henv]

/-- An error line, cut or not, is no result. -/
theorem scanLoop_error {raw text s : Bytes} (he : Json.Escaped raw text)
    (hs : s <+: framed (snprintf 2048 (errorText raw))) {fuel : Nat} {entries hes : List HiddenEntry} {total : Int} :
    scanLoop fuel s entries ≠ .ok (hes, total) := by
  intro h
  obtain ⟨got, env, rest, hread, hor⟩ := scanLoop_ok h
  obtain ⟨-, hu, -⟩ := readEnvelope_cut (objectLine_error he) (List.take_prefix _ _) hs hread
  rw [errorEnvelope_type he hu] at hor
  rcases hor with ⟨htype, -⟩ | ⟨htype, -⟩
  · exact absurd htype (by decide)
  · exact absurd htype (by decide)

theorem statsEnvelope {st : Stats} (hc : st.count < 2 ^ 63) (ht : -(2 ^ 63) ≤ st.totalBytes ∧ st.totalBytes < 2 ^ 63) :
    unmarshalInto Envelope.fields Envelope.zero (statsText st) =
      some { Envelope.zero with type := ascii "stats", totalBytes := st.totalBytes, count := st.count } := by
  rw [(objectLine_stats st).unmarshalInto]
  refine foldlM_storeMember (storeMember_str rfl) ?_
  refine foldlM_storeMember (storeMember_nat rfl hc) ?_
  refine foldlM_storeMember (storeMember_int rfl ht.1 ht.2) ?_
  rfl

theorem statsEnvelope_some {st : Stats} (ht : -(2 ^ 63) ≤ st.totalBytes ∧ st.totalBytes < 2 ^ 63) {env : Envelope}
    (h : unmarshalInto Envelope.fields Envelope.zero (statsText st) = some env) :
    env.count = st.count ∧ env.totalBytes = st.totalBytes := by
  by_cases hn : st.count < 2 ^ 63
  · rw [statsEnvelope hn ht, Option.some_inj] at h
    rw [← h]
    exact ⟨rfl, rfl⟩
  · rw [(objectLine_stats st).unmarshalInto] at h
    have hnone := @foldlM_storeMember_none _ Envelope.fields Envelope.zero (ascii "type", .str (ascii "stats"))
      (ascii "count", .num (decNat st.count)) [(ascii "total_bytes", .num (decInt st.totalBytes))] _
      (storeMember_str rfl) (storeMember_nat_big rfl (Nat.le_of_not_lt hn))
    exact absurd (hnone.symm.trans h) (by simp)

theorem stats_ok {s : Bytes} {count total : Int} (h : Client.stats s = .ok (count, total)) :
    ∃ got env rest, readEnvelope s = (.ok (got, env), rest) ∧ env.type = ascii "stats" ∧ count = env.count ∧
      total = env.totalBytes := by
  rw [Client.stats] at h
  cases hread : readEnvelope s with
  | mk res rest =>
      rw [hread] at h
      cases res with
      | error e => cases h
      | ok p =>
          obtain ⟨got, env⟩ := p
          simp only at h
          split at h
          · cases h
          split at h
          next htype =>
            obtain ⟨rfl, rfl⟩ := Prod.mk.inj (Except.ok.inj h)
            exact ⟨got, env, rest, rfl, htype, rfl, rfl⟩
          · cases h

/-! ## The two calls -/

theorem length_stripEol_le (s : Bytes) : (stripEol s).length ≤ s.length := by
  have hsub := (List.dropWhile_sublist (fun b => b == 0x0a || b == 0x0d) (l := s.reverse)).length_le
  rw [stripEol, List.length_reverse]
  rwa [List.length_reverse] at hsub

theorem stripEol_newline (s : Bytes) : stripEol (s ++ [0x0a]) = stripEol s := by
  rw [stripEol, List.reverse_append, List.reverse_singleton, List.singleton_append,
    List.dropWhile_cons_of_pos (by decide)]
  rfl

theorem length_readFirstLine_le {name : Bytes} (h : name.length ≤ 15) (buflen : Nat) :
    (readFirstLine (some (name ++ [0x0a])) buflen).length ≤ 15 := by
  rw [readFirstLine]
  cases hf : fgets buflen (name ++ [0x0a]) with
  | none => exact Nat.zero_le _
  | some p =>
      obtain ⟨line, rest⟩ := p
      -- what is read is a beginning of the file
      have hline : cstr line <+: name ++ [0x0a] := by
        refine (prefix_of_cstr line).trans ?_
        unfold fgets at hf
        split at hf
        · cases hf
        · obtain ⟨rfl, -⟩ := Prod.mk.inj (Option.some.inj hf)
          exact List.take_prefix _ _
      show (stripEol (cstr line)).length ≤ 15
      rcases List.prefix_concat_iff.mp hline with heq | hpre
      · rw [heq, stripEol_newline]
        exact (length_stripEol_le name).trans h
      · exact (length_stripEol_le _).trans (hpre.length_le.trans h)

theorem Daemon.comm_le (d : Daemon) {minSize : Int} {uidFilter : Nat} {pid : Int} {e : Entry}
    (h : e ∈ pidEntries d.snap minSize uidFilter pid) : e.comm.length ≤ 15 := by
  rw [pidEntries_eq] at h
  split at h
  · cases h
  next owner ds ho =>
    obtain ⟨fd, -, he⟩ := List.mem_filterMap.mp h
    obtain ⟨⟨fdnum, path, st⟩, -, rfl⟩ := Option.map_eq_some_iff.mp he
    have hfirst : (firstLineOrUnknown (d.snap.proc pid).comm hsedNameMax).length ≤ 15 := by
      have hline : (readFirstLine (d.snap.proc pid).comm hsedNameMax).length ≤ 15 := by
        cases hc : (d.snap.proc pid).comm with
        | none => exact Nat.zero_le _
        | some text =>
            obtain ⟨name, rfl, hname⟩ := d.comm pid text hc
            exact length_readFirstLine_le hname _
      unfold firstLineOrUnknown
      split
      · decide
      · exact hline
    exact (List.length_take_le' _ _).trans hfirst

theorem Daemon.scan_comm_le (d : Daemon) {minSize onlyPid : Int} {uidFilter : Nat} {es : List Entry}
    (h : hsedScan d.qsort d.snap d.alloc minSize onlyPid uidFilter d.scanThreads = some es) :
    ∀ e ∈ es, e.comm.length ≤ 15 := by
  intro e he
  rcases (hsedScan_spec h).2 with ⟨-, hperm⟩ | ⟨-, pids, -, hperm⟩
  · exact d.comm_le (hperm.mem_iff.mp he)
  · obtain ⟨pid, -, he'⟩ := List.mem_flatMap.mp (hperm.mem_iff.mp he)
    exact d.comm_le he'

/-- A pair of requests' numbers is in range: `int64` for all of them. -/
def IsInt64 (x : Int) : Prop := -(2 ^ 63) ≤ x ∧ x < 2 ^ 63

theorem IsInt64.length_decInt_le {x : Int} (h : IsInt64 x) : (decInt x).length ≤ 20 := by
  obtain ⟨hlo, hhi⟩ := h
  exact CLib.length_decInt_le (k := 19) (by decide) (by omega) (by omega)

theorem length_statsText_lt {st : Stats} (hc : st.count < 2 ^ 64) (ht : IsInt64 st.totalBytes) :
    (statsText st).length < 2048 := by
  have hcount : (decNat st.count).length ≤ 20 := decNat_length_le (by decide) (by omega)
  have htotal := ht.length_decInt_le
  delta statsText
  simp only [List.length_append, show (ascii "\x7b\"type\":\"stats\",\"count\":").length = 24 from rfl,
    show (ascii ",\"total_bytes\":").length = 15 from rfl, show (ascii "\x7d").length = 1 from rfl]
  omega

section
variable (d : Daemon) {recv : List Recv} {sock : Sock} {minSize onlyPid uidFilter : Int}

/-- What `Client.Scan` returns is the listing for the narrowed numbers. -/
theorem scan_returned (hm : IsInt64 minSize) (hp : IsInt64 onlyPid) (hu : IsInt64 uidFilter)
    (hd : Delivers recv (scanRequest minSize onlyPid uidFilter)) {hes : List HiddenEntry} {total : Int}
    (h : Client.scan (answer (fun _ => d.env) (recv ++ [.byte 0x0a]) sock) = .ok (hes, total)) :
    ∃ es, hsedScan d.qsort d.snap d.alloc minSize (toInt32 onlyPid) (toUInt32 uidFilter) d.scanThreads = some es ∧
      hes = es.map received := by
  have hline := handleLine_scanRequest d.env ⟨[], sock, []⟩ hm hp hu
  obtain ⟨sent, hwire, hsent⟩ := handleScan_sent d.env ⟨[], sock, []⟩ minSize (toInt32 onlyPid) (toUInt32 uidFilter)
  rw [answer_request hd (printable_scanRequest _ _ _) (length_scanRequest_lt hm hp hu) hline (handleScan_recv ..),
    hwire, List.drop_left, Client.scan] at h
  have hscan : d.env.scan minSize (toInt32 onlyPid) (toUInt32 uidFilter) =
      hsedScan d.qsort d.snap d.alloc minSize (toInt32 onlyPid) (toUInt32 uidFilter) d.scanThreads := by
    rw [d.scan_eq]
  rw [hscan] at hsent
  split at hsent
  · exact absurd h (scanLoop_error (escaped_failed (by decide) d.strerror) hsent)
  next es hes' =>
    obtain ⟨total', ht, hpre⟩ := hsent
    have hrange := toInt32_bounds onlyPid
    exact ⟨es, hes', scanLoop_cut (hsedScan_typed d.typed hrange hes') (d.scan_comm_le hes') ht hpre h⟩

/-- What `Client.Stats` returns is the tally for the narrowed uid. -/
theorem stats_returned (hm : IsInt64 minSize) (hu : IsInt64 uidFilter)
    (hd : Delivers recv (statsRequest minSize uidFilter)) {count total : Int}
    (h : Client.stats (answer (fun _ => d.env) (recv ++ [.byte 0x0a]) sock) = .ok (count, total)) :
    ∃ st, hsedScanStats d.snap d.alloc minSize (toUInt32 uidFilter) d.scanThreads = some st ∧
      count = st.count ∧ total = st.totalBytes := by
  have hline := handleLine_statsRequest d.env ⟨[], sock, []⟩ hm hu
  obtain ⟨sent, hwire, hsent⟩ := handleStats_sent d.env ⟨[], sock, []⟩ minSize (toUInt32 uidFilter)
  rw [answer_request hd (printable_statsRequest _ _) (length_statsRequest_lt hm hu) hline (handleStats_recv ..),
    hwire, List.drop_left] at h
  have hstats : d.env.stats minSize (toUInt32 uidFilter) =
      hsedScanStats d.snap d.alloc minSize (toUInt32 uidFilter) d.scanThreads := by
    rw [d.stats_eq]
  rw [hstats] at hsent
  obtain ⟨got, env, rest, hread, htype, rfl, rfl⟩ := stats_ok h
  split at hsent
  · exfalso
    have he := @escaped_failed (ascii "stats scan failed: ") _ (by decide) d.strerror
    obtain ⟨-, hu', -⟩ := readEnvelope_cut (objectLine_error he) (List.take_prefix _ _) hsent hread
    rw [errorEnvelope_type he hu'] at htype
    exact absurd htype (by decide)
  next st hst =>
    obtain ⟨-, hu', -⟩ := readEnvelope_cut (objectLine_stats st) (List.take_prefix _ _) hsent hread
    obtain ⟨pids, -, rfl⟩ := hsedScanStats_spec hst
    obtain ⟨hcount, htotal⟩ := statsEnvelope_some (toInt64_bounds _) hu'
    exact ⟨_, hst, hcount, htotal⟩

end

/-! ## What the filters promise -/

/-- The client's filters, in its own integers. -/
def wanted (minSize uidFilter : Int) (e : Entry) : Bool :=
  decide (minSize ≤ e.size) && (decide (uidFilter = uidAny) || decide ((e.uid : Int) = uidFilter))

/-- Whatever daemon answers and however much of the answer arrives: `Client.Scan` returns only entries that
    pass its filters. -/
def ScanFiltered (minSize onlyPid uidFilter : Int) : Prop :=
  ∀ (d : Daemon) (recv : List Recv) (sock : Sock), Delivers recv (scanRequest minSize onlyPid uidFilter) →
    ∀ hes total, Client.scan (answer (fun _ => d.env) (recv ++ [.byte 0x0a]) sock) = .ok (hes, total) →
      ∀ h ∈ hes, minSize ≤ h.size ∧ (0 < onlyPid → h.pid = onlyPid) ∧ (uidFilter ≠ uidAny → h.uid = uidFilter)

/-- `Client.Stats` returns the number and the total size (as an `int64`) of exactly the descriptors that pass
    its filters. -/
def StatsFiltered (minSize uidFilter : Int) : Prop :=
  ∀ (d : Daemon) (recv : List Recv) (sock : Sock), Delivers recv (statsRequest minSize uidFilter) →
    ∀ count total, Client.stats (answer (fun _ => d.env) (recv ++ [.byte 0x0a]) sock) = .ok (count, total) →
      ∃ pids, gatherPids (fun _ => true) d.snap = some pids ∧
        let es := (pids.flatMap (unfiltered d.snap)).filter (wanted minSize uidFilter)
        count = es.length ∧ total = toInt64 (es.map (·.size)).sum

/-- Numbers that survive the casts: the pid is a `pid_t`, the uid a `uid_t` other than `HSED_UID_ANY`. -/
def FilterFits (onlyPid uidFilter : Int) : Prop :=
  onlyPid < 2 ^ 31 ∧ (uidFilter = uidAny ∨ (0 ≤ uidFilter ∧ uidFilter < 2 ^ 32 - 1))

theorem meets_eq_wanted {minSize uidFilter : Int}
    (h : uidFilter = uidAny ∨ (0 ≤ uidFilter ∧ uidFilter < 2 ^ 32 - 1)) :
    meets minSize (toUInt32 uidFilter) = wanted minSize uidFilter := by
  funext e
  rcases h with rfl | ⟨hlo, hhi⟩
  · rfl
  · have hany : ¬ uidFilter = uidAny := by
      unfold uidAny
      omega
    have hne : (toUInt32 uidFilter == hsedUidAny) = false := by
      simp only [toUInt32, hsedUidAny, beq_eq_false_iff_ne, ne_eq]
      omega
    have huid : (e.uid == toUInt32 uidFilter) = decide ((e.uid : Int) = uidFilter) := by
      rw [Bool.eq_iff_iff, beq_iff_eq, decide_eq_true_iff, toUInt32]
      omega
    rw [meets, wanted, hne, huid, decide_eq_false hany]

theorem scanFiltered_of_fits {minSize onlyPid uidFilter : Int} (hm : IsInt64 minSize) (hp : IsInt64 onlyPid)
    (hu : IsInt64 uidFilter) (hfit : FilterFits onlyPid uidFilter) : ScanFiltered minSize onlyPid uidFilter := by
  intro d recv sock hd hes total h h' hmem
  obtain ⟨es, hes', rfl⟩ := scan_returned d hm hp hu hd h
  obtain ⟨e, he, rfl⟩ := List.mem_map.mp hmem
  -- the entry comes from the walk of some process
  obtain ⟨pid, hwalk, hpid⟩ : ∃ pid, e ∈ pidEntries d.snap minSize (toUInt32 uidFilter) pid ∧
      (0 < toInt32 onlyPid → pid = toInt32 onlyPid) := by
    rcases (hsedScan_spec hes').2 with ⟨-, hperm⟩ | ⟨hneg, pids, -, hperm⟩
    · exact ⟨_, hperm.mem_iff.mp he, fun _ => rfl⟩
    · obtain ⟨pid, -, he'⟩ := List.mem_flatMap.mp (hperm.mem_iff.mp he)
      exact ⟨pid, he', fun hpos => absurd hpos hneg⟩
  have hpide := pidEntries_pid hwalk
  rw [pidEntries_eq_filter d.typed, List.mem_filter, meets_eq_wanted hfit.2] at hwalk
  have hwant := hwalk.2
  simp only [wanted, Bool.and_eq_true, Bool.or_eq_true, decide_eq_true_eq] at hwant
  refine ⟨hwant.1, ?_, ?_⟩
  · intro hpos
    have hnarrow : toInt32 onlyPid = onlyPid := toInt32_eq_self (by omega) hfit.1
    rw [hnarrow] at hpid
    show e.pid = onlyPid
    rw [hpide, hpid hpos]
  · intro hany
    exact hwant.2.resolve_left hany

theorem statsFiltered_of_fits {minSize uidFilter : Int} (hm : IsInt64 minSize) (hu : IsInt64 uidFilter)
    (hfit : uidFilter = uidAny ∨ (0 ≤ uidFilter ∧ uidFilter < 2 ^ 32 - 1)) : StatsFiltered minSize uidFilter := by
  intro d recv sock hd count total h
  obtain ⟨st, hst, rfl, rfl⟩ := stats_returned d hm hu hd h
  obtain ⟨pids, hg, rfl⟩ := hsedScanStats_spec hst
  have hes : pids.flatMap (pidEntries d.snap minSize (toUInt32 uidFilter)) =
      (pids.flatMap (unfiltered d.snap)).filter (wanted minSize uidFilter) := by
    rw [List.filter_flatMap, ← meets_eq_wanted hfit]
    exact congrArg (pids.flatMap ·) (funext fun pid => pidEntries_eq_filter d.typed _ _ _)
  refine ⟨pids, hg, ?_⟩
  rw [hes]
  exact ⟨rfl, rfl⟩

/-! ## Holders of one file -/

/-- The descriptor of the processes below. -/
def heldFd (size : Int) : FdEnt := ⟨ascii "3", some (ascii "/tmp/log (deleted)"), some ⟨size, 12, 8, 1, 0⟩⟩

/-- A machine where the processes `pids`, of user `owner`, hold one deleted file of `size` bytes open. -/
def holders (pids : List Nat) (owner : Nat) (size : Int) : Snapshot where
  names := some (pids.map decNat)
  proc := fun p =>
    if p ∈ pids.map (fun n => (n : Int)) then
      { uid := some owner, fds := some [heldFd size], fdinfo := fun _ => none, comm := some (ascii "cat\n")
        cmdline := some (ascii "cat") }
    else { uid := none, fds := none, fdinfo := fun _ => none, comm := none, cmdline := none }
  pwName := fun _ => none
  nprocessors := 1

theorem heldFd_of_mem {pids : List Nat} {owner : Nat} {size p : Int} {ds : List FdEnt} {fd : FdEnt} {st : Stat}
    (hds : ((holders pids owner size).proc p).fds = some ds) (hd : fd ∈ ds) (hst : fd.stat = some st) :
    st = ⟨size, 12, 8, 1, 0⟩ := by
  simp only [holders] at hds
  split at hds
  · obtain rfl := Option.some.inj hds
    rw [List.mem_singleton.mp hd] at hst
    exact (Option.some.inj hst).symm
  · cases hds

theorem holders_typed (pids : List Nat) {owner : Nat} (ho : owner < 2 ^ 32) {size : Int} (hsize : IsInt64 size) :
    (holders pids owner size).Typed := by
  refine ⟨?_, ?_, ?_, ?_, ?_, ?_, ?_⟩
  · intro p u hu
    simp only [holders] at hu
    split at hu
    · obtain rfl := Option.some.inj hu
      exact ho
    · cases hu
  · intro u name h
    cases h
  · intro p ds fd st hds hd hst
    rw [heldFd_of_mem hds hd hst]
    exact hsize
  all_goals
    intro p ds fd st hds hd hst
    rw [heldFd_of_mem hds hd hst]
    simp

theorem holders_comm (pids : List Nat) (owner : Nat) (size p : Int) (text : Bytes)
    (h : ((holders pids owner size).proc p).comm = some text) : ∃ name, text = name ++ [0x0a] ∧ name.length ≤ 15 := by
  simp only [holders] at h
  split at h
  · obtain rfl := Option.some.inj h
    exact ⟨ascii "cat", rfl, by decide⟩
  · cases h

/-- The daemon on that machine. -/
def holdersDaemon (pids : List Nat) (owner : Nat) (ho : owner < 2 ^ 32) (size : Int) (hsize : IsInt64 size) : Daemon where
  snap := holders pids owner size
  qsort := mergeQsort
  alloc := Alloc.ok
  scanThreads := 1
  env :=
    { scan := fun m p u => hsedScan mergeQsort (holders pids owner size) Alloc.ok m p u 1
      stats := fun m u => hsedScanStats (holders pids owner size) Alloc.ok m u 1
      truncate := fun _ _ => .error []
      kill := fun _ _ => .ok
      stream := fun _ _ => ([], none)
      strerror := [] }
  scan_eq := rfl
  stats_eq := rfl
  typed := holders_typed pids ho hsize
  comm := holders_comm pids owner size
  strerror := rfl

theorem uid_user : 1000 < 2 ^ 32 := by decide

theorem isInt64_page : IsInt64 4096 := ⟨by decide, by decide⟩

theorem pidEntries_holder {pid owner : Nat} {size minSize : Int} (hsize : minSize ≤ size) {uidFilter : Nat}
    (hu : uidFilter = hsedUidAny ∨ owner = uidFilter) :
    ∃ e, pidEntries (holders [pid] owner size) minSize uidFilter pid = [e] ∧ e.pid = pid ∧ e.uid = owner := by
  have hproc : (holders [pid] owner size).proc pid =
      { uid := some owner, fds := some [heldFd size], fdinfo := fun _ => none, comm := some (ascii "cat\n")
        cmdline := some (ascii "cat") } := if_pos (List.mem_singleton.mpr rfl)
  have hopen : openFds (holders [pid] owner size) uidFilter pid = some (owner, [heldFd size]) := by
    rw [openFds, hproc]
    refine if_neg ?_
    rintro ⟨hne, hother⟩
    rcases hu with h | h
    · exact hne h
    · exact hother h
  have hmatch : matchFd minSize (heldFd size) = some (3, ascii "/tmp/log", ⟨size, 12, 8, 1, 0⟩) :=
    if_neg (not_lt.mpr hsize)
  refine ⟨mkEntry (holders [pid] owner size) pid owner (loaded (holders [pid] owner size) pid owner) 3
    (ascii "/tmp/log") ⟨size, 12, 8, 1, 0⟩, ?_, rfl, rfl⟩
  rw [pidEntries_eq, hopen]
  simp only [List.filterMap_cons, fdEntry, hmatch, Option.map_some, List.filterMap_nil]

theorem gatherPids_holder {pid owner : Nat} (hpid : pid < 2 ^ 31) (size : Int) :
    gatherPids (fun _ => true) (holders [pid] owner size) = some [(pid : Int)] := by
  have hread : toInt32 (strtol (decNat pid)) = pid := by
    rw [← decInt_natCast, strtol_decInt (by omega) (by omega), toInt32_eq_self (by omega) (by omega)]
  simp only [gatherPids, holders, List.map_cons, List.map_nil, gatherLoop, isAllDigits_decNat, Bool.not_true,
    Bool.false_eq_true, if_false, List.length_nil, if_true, List.nil_append, hread]

theorem delivers_map (line : Bytes) : Delivers (line.map .byte) line := by
  rw [Delivers, List.filter_eq_self]
  intro r hr
  obtain ⟨b, -, rfl⟩ := List.mem_map.mp hr
  rfl

/-- On a new connection the whole listing arrives. -/
theorem scan_answered (d : Daemon) {minSize onlyPid uidFilter : Int} (hm : IsInt64 minSize) (hp : IsInt64 onlyPid)
    (hu : IsInt64 uidFilter) {e : Entry}
    (h : hsedScan d.qsort d.snap d.alloc minSize (toInt32 onlyPid) (toUInt32 uidFilter) d.scanThreads = some [e]) :
    ∃ total, Client.scan (answer (fun _ => d.env)
      ((scanRequest minSize onlyPid uidFilter).map .byte ++ [.byte 0x0a]) Sock.fresh) = .ok ([received e], total) := by
  have hline := handleLine_scanRequest d.env ⟨[], Sock.fresh, []⟩ hm hp hu
  have hscan : d.env.scan minSize (toInt32 onlyPid) (toUInt32 uidFilter) = some [e] := by
    rw [d.scan_eq]
    exact h
  have hsent := handleScan_wire (c := ⟨[], Sock.fresh, []⟩) Sock.fresh_healthy hscan (by simp)
  refine ⟨(tally [e]).totalBytes, ?_⟩
  rw [answer_request (delivers_map _) (printable_scanRequest _ _ _) (length_scanRequest_lt hm hp hu) hline
    (handleScan_recv ..)]
  rw [sentByScan] at hsent
  rw [hsent]
  exact scan_sent (hsedScan_typed d.typed (toInt32_bounds _) h) (d.scan_comm_le h) (by simp)

/-- The holder is listed whenever the narrowed filters let it through. -/
theorem scan_holder {pid owner : Nat} (hpid : pid < 2 ^ 31) (ho : owner < 2 ^ 32) {size minSize onlyPid uidFilter : Int}
    (hs : IsInt64 size) (hm : IsInt64 minSize) (hp : IsInt64 onlyPid) (hu : IsInt64 uidFilter) (hsize : minSize ≤ size)
    (hpass : 0 < toInt32 onlyPid → toInt32 onlyPid = pid)
    (hown : toUInt32 uidFilter = hsedUidAny ∨ owner = toUInt32 uidFilter) :
    ∃ h total, Client.scan (answer (fun _ => (holdersDaemon [pid] owner ho size hs).env)
      ((scanRequest minSize onlyPid uidFilter).map .byte ++ [.byte 0x0a]) Sock.fresh) = .ok ([h], total) ∧
      h.pid = pid ∧ h.uid = owner := by
  obtain ⟨e, hwalk, hepid, heuid⟩ := @pidEntries_holder pid owner size minSize hsize _ hown
  have hg := @gatherPids_holder pid owner hpid size
  obtain ⟨es, hes⟩ := hsedScan_ok mergeQsort minSize (toInt32 onlyPid) (toUInt32 uidFilter) 1 (.inr ⟨_, hg⟩)
  -- whichever way the walk goes, it meets this process only
  have hperm : es.Perm [e] := by
    rcases (hsedScan_spec hes).2 with ⟨hpos, hperm⟩ | ⟨-, pids, hg', hperm⟩
    · rw [hpass hpos, hwalk] at hperm
      exact hperm
    · rw [hg, Option.some_inj] at hg'
      rw [← hg', List.flatMap_singleton, hwalk] at hperm
      exact hperm
  rw [List.perm_singleton] at hperm
  rw [hperm] at hes
  obtain ⟨total, hok⟩ := scan_answered (holdersDaemon [pid] owner ho size hs) hm hp hu hes
  refine ⟨received e, total, hok, hepid, ?_⟩
  show ((e.uid : Int) = owner)
  rw [heuid]

/-- Filters that do not fit let a wrong entry through. -/
theorem fits_of_scanFiltered {minSize onlyPid uidFilter : Int} (hm : IsInt64 minSize) (hp : IsInt64 onlyPid)
    (hu : IsInt64 uidFilter) (h : ScanFiltered minSize onlyPid uidFilter) : FilterFits onlyPid uidFilter := by
  have hrange := toInt32_bounds onlyPid
  obtain ⟨hlo, hhi⟩ := hu
  -- a process that the narrowed filters accept
  obtain ⟨pid, hpid, hpass, hnarrow⟩ : ∃ pid : Nat, pid < 2 ^ 31 ∧
      (0 < toInt32 onlyPid → toInt32 onlyPid = pid) ∧ (2 ^ 31 ≤ onlyPid → (pid : Int) ≠ onlyPid) := by
    by_cases hpos : 0 < toInt32 onlyPid
    · exact ⟨(toInt32 onlyPid).toNat, by omega, fun _ => by omega, fun hbig => by omega⟩
    · exact ⟨7, by decide, fun h => absurd h hpos, fun hbig => by omega⟩
  obtain ⟨owner, ho, hown, hother⟩ : ∃ owner : Nat, owner < 2 ^ 32 ∧
      (toUInt32 uidFilter = hsedUidAny ∨ owner = toUInt32 uidFilter) ∧
      (¬ (uidFilter = uidAny ∨ (0 ≤ uidFilter ∧ uidFilter < 2 ^ 32 - 1)) → (owner : Int) ≠ uidFilter) := by
    by_cases hany : toUInt32 uidFilter = hsedUidAny
    · refine ⟨0, by decide, .inl hany, ?_⟩
      intro hno
      omega
    · refine ⟨toUInt32 uidFilter, ?_, .inr rfl, ?_⟩
      · unfold toUInt32
        omega
      · intro hno
        unfold toUInt32 hsedUidAny at hany
        unfold toUInt32
        omega
  have hsize : IsInt64 (max minSize 0) := by
    unfold IsInt64 at hm ⊢
    omega
  obtain ⟨e, total, hok, hepid, heuid⟩ :=
    scan_holder hpid ho hsize hm hp ⟨hlo, hhi⟩ (Int.le_max_left _ _) hpass hown
  obtain ⟨-, hpid', huid'⟩ := h _ _ _ (delivers_map _) _ _ hok e (List.mem_singleton.mpr rfl)
  constructor
  · by_contra hbig
    have hpos : 0 < onlyPid := by omega
    exact hnarrow (by omega) (hepid ▸ hpid' hpos)
  · by_contra hno
    refine hother hno (heuid ▸ huid' ?_)
    exact fun h => hno (.inl h)

/-- **Filters mean the same on both sides of the wire** exactly when they fit: for every minimum size, pid and
    uid the client can be given, `Client.Scan` and `Client.Stats` keep their promises against every daemon iff
    the pid fits in `pid_t` and the uid in `uid_t` without being `HSED_UID_ANY`. -/
theorem filters_agree_iff {minSize onlyPid uidFilter : Int} (hm : IsInt64 minSize) (hp : IsInt64 onlyPid)
    (hu : IsInt64 uidFilter) :
    (ScanFiltered minSize onlyPid uidFilter ∧ StatsFiltered minSize uidFilter) ↔ FilterFits onlyPid uidFilter := by
  constructor
  · intro h
    exact fits_of_scanFiltered hm hp hu h.1
  · intro hfit
    exact ⟨scanFiltered_of_fits hm hp hu hfit, statsFiltered_of_fits hm hu hfit.2⟩

/-- The files of user 1000 in process 7. -/
theorem filters_agree_user : ScanFiltered 0 7 1000 ∧ StatsFiltered 0 1000 :=
  (filters_agree_iff ⟨by decide, by decide⟩ ⟨by decide, by decide⟩ ⟨by decide, by decide⟩).mpr
    ⟨by decide, .inr ⟨by decide, by decide⟩⟩

/-- Asked for the files of uid 4294967295, or of process 4294967296, the daemon lists those of everyone: here
    process 7 of user 1000. -/
theorem filters_widen :
    ¬ ScanFiltered 0 0 4294967295 ∧ ¬ ScanFiltered 0 4294967296 uidAny := by
  have hsize : IsInt64 0 := ⟨by decide, by decide⟩
  constructor
  · intro h
    obtain ⟨e, total, hok, -, heuid⟩ := @scan_holder 7 1000 (by decide) (by decide) 0 0 0 4294967295 hsize hsize hsize
      ⟨by decide, by decide⟩ (by decide) (fun h => absurd h (by decide)) (.inl (by decide))
    obtain ⟨-, -, huid⟩ := h _ _ _ (delivers_map _) _ _ hok e (List.mem_singleton.mpr rfl)
    rw [huid (by decide)] at heuid
    exact absurd heuid (by decide)
  · intro h
    obtain ⟨e, total, hok, hepid, -⟩ := @scan_holder 7 1000 (by decide) (by decide) 0 0 4294967296 uidAny hsize hsize
      ⟨by decide, by decide⟩ ⟨by decide, by decide⟩ (by decide) (fun h => absurd h (by decide)) (.inl (by decide))
    obtain ⟨-, hpid, -⟩ := h _ _ _ (delivers_map _) _ _ hok e (List.mem_singleton.mpr rfl)
    rw [hpid (by decide)] at hepid
    exact absurd hepid (by decide)

end EndToEnd
end Hsed
