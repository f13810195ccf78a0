import Hsed.EndToEnd.Filters

/-!
# `EndToEnd.Cut` — a connection that is cut at any point

`readEnvelope` goes on to parse a line that ended in a read error, so a cut shows only through what the parser
makes of the part that arrived.

* `Client.Scan` is all or nothing (`scan_all_or_nothing`): no proper part of an object is a JSON text, and
  without the whole end line the loop ends in an error.
* `StreamSession.Next` reports every failed read as the end of the stream. `stream_end_genuine_iff` says which
  byte sequences it is right about.
-/

namespace Hsed
namespace EndToEnd

open CLib Scan Wire Server Client

/-! ## `Client.Scan` -/

/-- The reply to SCAN without its last newline: the lines of the entries and the object of the end line. -/
def scanReply (es : List Entry) : Bytes := entryLines es ++ endText es.length (tally es).totalBytes

/-- The end line ends the loop, with or without its newline. -/
theorem scanLoop_end_cut {count : Nat} {total : Int} (hc : count < 2 ^ 63)
    (ht : -(2 ^ 63) ≤ total ∧ total < 2 ^ 63) (k fuel : Nat) (entries : List HiddenEntry) :
    scanLoop (fuel + 1) (endText count total ++ [0x0a].take k) entries = .ok (entries, total) := by
  have hline := objectLine_end count total
  cases k with
  | zero =>
      have hne : endText count total ≠ [] := by
        rw [hline.eq_render]
        exact List.cons_ne_nil _ _
      rw [List.take_zero, List.append_nil, scanLoop, readEnvelope_unterminated hline.printable, if_neg hne,
        endEnvelope hc ht]
      rfl
  | succ k =>
      rw [List.take_succ_cons, List.take_nil]
      exact scanLoop_end hc ht fuel entries

/-- **The whole listing.** The newline of the end line may be missing. -/
theorem scan_whole {es : List Entry} (ht : ∀ e ∈ es, e.Typed) (hcomm : ∀ e ∈ es, e.comm.length ≤ 15)
    (hlen : es.length < 2 ^ 63) (k : Nat) :
    Client.scan (scanReply es ++ [0x0a].take k) = .ok (es.map received, (tally es).totalBytes) := by
  have htotal := toInt64_bounds (es.map (·.size)).sum
  obtain ⟨fuel, hscan⟩ := scan_entries ht hcomm (endText es.length (tally es).totalBytes ++ [0x0a].take k)
  rw [scanReply, List.append_assoc, hscan]
  exact scanLoop_end_cut hlen htotal k fuel _

/-- **A part of the listing** is no result: the loop runs into the cut before it has seen the end line. -/
theorem scanLoop_short {es : List Entry} (ht : ∀ e ∈ es, e.Typed) (hcomm : ∀ e ∈ es, e.comm.length ≤ 15)
    {n : Nat} {total : Int} : ∀ {s : Bytes} {fuel : Nat} {entries hes : List HiddenEntry} {total' : Int},
    s <+: entryLines es ++ endText n total → s ≠ entryLines es ++ endText n total →
    scanLoop fuel s entries ≠ .ok (hes, total') := by
  induction es with
  | nil =>
      intro s fuel entries hes total' hs hne h
      obtain ⟨got, env, rest, hread, -⟩ := scanLoop_ok h
      -- a proper part of the end line is not parsed
      have hline := objectLine_end n total
      have hprint : Json.Printable s := fun b hb => hline.printable b (hs.subset hb)
      rw [readEnvelope_unterminated hprint, unmarshalInto, hline.unmarshal_cut hs hne] at hread
      split at hread <;> cases hread
  | cons e es ih =>
      intro s fuel entries hes total' hs hne h
      rw [List.forall_mem_cons] at ht hcomm
      have hcons : entryLines (e :: es) = framed (hsedFormatEntry e linebufSize) ++ entryLines es := rfl
      rw [hcons, List.append_assoc] at hs hne
      rcases List.prefix_or_prefix_of_prefix hs (List.prefix_append _ _) with hcut | ⟨s', rfl⟩
      · exact scanLoop_entry_cut ht.1 hcomm.1 hcut h
      · rw [List.prefix_append_right_inj] at hs
        have hne' : s' ≠ entryLines es ++ endText n total := fun heq => hne (congrArg _ heq)
        have hstep : framed (hsedFormatEntry e linebufSize) ++ s' = hsedFormatEntry e linebufSize ++ 0x0a :: s' := by
          rw [framed, List.append_assoc, List.singleton_append]
        cases fuel with
        | zero => cases h
        | succ fuel =>
            rw [hstep, scanLoop_entry ht.1 hcomm.1] at h
            exact ih ht.2 hcomm.2 hs hne' h

/-- **All or nothing.** Whatever listing the daemon sends and wherever the connection is cut, `Client.Scan`
    returns an error (and with it no entries) if the last byte of the end line's object did not arrive, and
    every entry in order with the total of the end line if it did. -/
theorem scan_all_or_nothing (d : Daemon) {c : Conn} (hc : c.sock.Healthy) {minSize onlyPid : Int}
    (hp : -(2 ^ 31) ≤ onlyPid ∧ onlyPid < 2 ^ 31) {uidFilter : Nat} {es : List Entry}
    (h : d.env.scan minSize onlyPid uidFilter = some es) (hmem : es.length * sizeofEntry < 2 ^ 64) :
    sentByScan d.env c minSize onlyPid uidFilter = scanReply es ++ [0x0a] ∧
    ∀ k, (k < (scanReply es).length →
        ∃ err, Client.scan ((sentByScan d.env c minSize onlyPid uidFilter).take k) = .error err) ∧
      ((scanReply es).length ≤ k →
        Client.scan ((sentByScan d.env c minSize onlyPid uidFilter).take k) =
          .ok (es.map received, (tally es).totalBytes)) := by
  have hlen : es.length < 2 ^ 63 := by unfold sizeofEntry at hmem; omega
  have hscan : hsedScan d.qsort d.snap d.alloc minSize onlyPid uidFilter d.scanThreads = some es := by
    rw [← h, d.scan_eq]
  have ht := hsedScan_typed d.typed hp hscan
  have hcomm := d.scan_comm_le hscan
  have hsent : sentByScan d.env c minSize onlyPid uidFilter = scanReply es ++ [0x0a] := by
    rw [handleScan_wire hc h hlen, scanReply, List.append_assoc]
  rw [hsent]
  refine ⟨rfl, fun k => ⟨fun hk => ?_, fun hk => ?_⟩⟩
  · rw [List.take_append_of_le_length (le_of_lt hk)]
    -- a proper part of the listing
    have hne : (scanReply es).take k ≠ scanReply es := by
      intro hall
      have hl := congrArg List.length hall
      rw [List.length_take] at hl
      omega
    cases hres : Client.scan ((scanReply es).take k) with
    | error err => exact ⟨err, rfl⟩
    | ok res => exact absurd hres (scanLoop_short ht hcomm (List.take_prefix _ _) hne)
  · rw [List.take_append, List.take_of_length_le hk]
    exact scan_whole ht hcomm hlen _

/-- Process 7 of user 1000 and its 4096 bytes. -/
def oneHolder : Daemon := holdersDaemon [7] 1000 uid_user 4096 isInt64_page

/-- Its listing, cut anywhere. -/
theorem scan_all_or_nothing_one_holder :
    ∃ e : Entry, oneHolder.env.scan 0 7 hsedUidAny = some [e] ∧ e.pid = 7 ∧
      ∀ k, (k < (scanReply [e]).length →
          ∃ err, Client.scan ((sentByScan oneHolder.env ⟨[], Sock.fresh, []⟩ 0 7 hsedUidAny).take k) = .error err) ∧
        ((scanReply [e]).length ≤ k →
          Client.scan ((sentByScan oneHolder.env ⟨[], Sock.fresh, []⟩ 0 7 hsedUidAny).take k) =
            .ok ([received e], (tally [e]).totalBytes)) := by
  obtain ⟨e, hwalk, hpid, -⟩ := @pidEntries_holder 7 1000 4096 0 (by decide) hsedUidAny (.inl rfl)
  obtain ⟨es, hes, hperm, -⟩ := hsedScan_one mergeQsort (holders [7] 1000 4096) (show (0 : Int) < 7 by decide) 0
    hsedUidAny 1
  rw [show pidEntries (holders [7] 1000 4096) 0 hsedUidAny 7 = [e] from hwalk, List.perm_singleton] at hperm
  rw [hperm] at hes
  have hscan : oneHolder.env.scan 0 7 hsedUidAny = some [e] := hes
  refine ⟨e, hscan, hpid, ?_⟩
  exact (scan_all_or_nothing oneHolder Sock.fresh_healthy (by decide) hscan (by simp [sizeofEntry])).2

/-! ## `StreamSession.Next` -/

/-- What is left when the last newline has been read. -/
def unfinished (s : Bytes) : Bytes := (s.splitOn 0x0a).getLastD []

/-- What a line says: nothing for the reader (`attached` and unknown types), a write event, the end of the stream,
    a refusal (an error reply, or a write event that cannot be decoded), or nothing that can be read at all. -/
inductive Said where
  | skipped
  | event (w : WriteEvent)
  | ended
  | refused (e : ClientError)
  | malformed
  deriving DecidableEq

def said (line : Bytes) : Said :=
  match unmarshalInto Envelope.fields Envelope.zero (trimRight line) with
  | none => .malformed
  | some env =>
    if env.type = ascii "write" then
      match unmarshalInto WriteEvent.fields WriteEvent.zero (trimRight line) with
      | none => .refused .malformedWrite
      | some w => .event w
    else if env.type = ascii "stream_end" then .ended
    else if env.type = ascii "error" then .refused (.daemon env.message)
    else .skipped

/-- How a session ends for the reader: with no event and no error, or with an error. -/
inductive Finish where
  | clean
  | failed
  deriving DecidableEq

/-- **A genuine session.** The events of the lines, and a clean end only for a `stream_end` line or a connection
    closed behind a newline; a malformed or unfinished line is a failure. -/
def session : List Bytes → Bytes → List WriteEvent × Finish
  | [], last => ([], if last = [] then .clean else .failed)
  | line :: lines, last =>
    match said line with
    | .skipped => session lines last
    | .event w => (w :: (session lines last).1, (session lines last).2)
    | .ended => ([], .clean)
    | .refused _ => ([], .failed)
    | .malformed => ([], .failed)

/-- Calls of `Next`, as `readNextCmd` makes them, until one returns no event. -/
def drain : Nat → Bytes → List WriteEvent × Finish
  | 0, _ => ([], .clean)
  | fuel + 1, s =>
    match next s with
    | (.error _, _) => ([], .failed)
    | (.ok none, _) => ([], .clean)
    | (.ok (some w), rest) => (w :: (drain fuel rest).1, (drain fuel rest).2)

/-- What a reader sees of these bytes is a genuine session. -/
def Genuine (s : Bytes) : Prop := drain (s.length + 1) s = session (terminated s) (unfinished s)

/-- A line behind which the session does not go on. -/
def stops (line : Bytes) : Bool :=
  match said line with
  | .skipped => false
  | .event _ => false
  | _ => true

/-- The line the session stops at can be read; and if it stops at none, nothing is left behind the last newline,
    or a refusal. -/
def StopsReadably (s : Bytes) : Prop :=
  match (terminated s).find? stops with
  | some line => said line ≠ .malformed
  | none => unfinished s = [] ∨ ∃ e, said (unfinished s) = .refused e

/-! ### Streams by lines -/

theorem unfinished_none {s : Bytes} (h : 0x0a ∉ s) : unfinished s = s := by
  rw [unfinished, List.splitOn_eq_singleton h]
  rfl

theorem unfinished_line {line : Bytes} (h : 0x0a ∉ line) (s : Bytes) :
    unfinished (line ++ 0x0a :: s) = unfinished s := by
  rw [unfinished, unfinished, List.splitOn_append_cons_self_of_not_mem h]
  cases hs : s.splitOn 0x0a with
  | nil => exact absurd hs (List.splitOn_ne_nil _ _)
  | cons a as => rfl

/-- A stream is a text without a newline, or a line and a stream. -/
theorem lines_induction {P : Bytes → Prop} (last : ∀ s, 0x0a ∉ s → P s)
    (line : ∀ l rest, 0x0a ∉ l → P rest → P (l ++ 0x0a :: rest)) (s : Bytes) : P s := by
  induction hn : s.length using Nat.strong_induction_on generalizing s with
  | _ n ih =>
      by_cases hnl : 0x0a ∈ s
      · obtain ⟨l, rest, rfl, hl⟩ := List.eq_append_cons_of_mem hnl
        refine line l rest hl (ih rest.length ?_ rest rfl)
        rw [← hn, List.length_append, List.length_cons]
        omega
      · exact last s hnl

/-! ### What `Next` does with them -/

/-- What `Next` returns for a line of its own. -/
def Said.result : Said → Except ClientError (Option WriteEvent)
  | .event w => .ok (some w)
  | .refused e => .error e
  | _ => .ok none

/-- A pass of the loop over a line, wherever it came from. -/
theorem nextLoop_read {s line rest : Bytes} (fuel : Nat)
    (h : readEnvelope s = (match unmarshalInto Envelope.fields Envelope.zero (trimRight line) with
      | none => .error .malformed
      | some env => .ok (trimRight line, env), rest)) :
    nextLoop (fuel + 1) s =
      if said line = .skipped then nextLoop fuel rest else ((said line).result, rest) := by
  rw [nextLoop, h, said]
  cases unmarshalInto Envelope.fields Envelope.zero (trimRight line) with
  | none => rfl
  | some env =>
      simp only
      by_cases hw : env.type = ascii "write"
      · rw [if_pos hw, if_pos hw]
        cases unmarshalInto WriteEvent.fields WriteEvent.zero (trimRight line) <;> rfl
      · rw [if_neg hw, if_neg hw]
        by_cases he : env.type = ascii "stream_end"
        · rw [if_pos he, if_pos he]
          rfl
        · rw [if_neg he, if_neg he]
          by_cases hm : env.type = ascii "error"
          · rw [if_pos hm, if_pos hm]
            rfl
          · rw [if_neg hm, if_neg hm, if_pos rfl]

theorem nextLoop_line {line : Bytes} (h : 0x0a ∉ line) (fuel : Nat) (rest : Bytes) :
    nextLoop (fuel + 1) (line ++ 0x0a :: rest) =
      if said line = .skipped then nextLoop fuel rest else ((said line).result, rest) :=
  nextLoop_read fuel (readEnvelope_terminated h rest)

theorem nextLoop_nil (fuel : Nat) : nextLoop fuel [] = (.ok none, []) := by
  cases fuel with
  | zero => rfl
  | succ fuel => rw [nextLoop, readEnvelope_nil]

/-- An unfinished line is taken for a line, and the failed read behind it for the end. -/
theorem nextLoop_last {s : Bytes} (h : 0x0a ∉ s) (hne : s ≠ []) (fuel : Nat) :
    nextLoop (fuel + 1) s = ((said s).result, []) := by
  have hread := readEnvelope_last h
  rw [if_neg hne] at hread
  rw [nextLoop_read fuel hread]
  split
  · next hskip => rw [nextLoop_nil, hskip]; rfl
  · rfl

/-- Any fuel beyond the length of the stream gives the same. -/
theorem nextLoop_fuel (s : Bytes) : ∀ f f', s.length < f → s.length < f' → nextLoop f s = nextLoop f' s := by
  induction s using lines_induction with
  | last s h =>
      intro f f' hf hf'
      obtain ⟨g, rfl⟩ : ∃ g, f = g + 1 := ⟨f - 1, by omega⟩
      obtain ⟨g', rfl⟩ : ∃ g', f' = g' + 1 := ⟨f' - 1, by omega⟩
      by_cases hne : s = []
      · rw [hne, nextLoop_nil, nextLoop_nil]
      · rw [nextLoop_last h hne, nextLoop_last h hne]
  | line l rest h ih =>
      intro f f' hf hf'
      rw [List.length_append, List.length_cons] at hf hf'
      obtain ⟨g, rfl⟩ : ∃ g, f = g + 1 := ⟨f - 1, by omega⟩
      obtain ⟨g', rfl⟩ : ∃ g', f' = g' + 1 := ⟨f' - 1, by omega⟩
      rw [nextLoop_line h, nextLoop_line h, ih g g' (by omega) (by omega)]

theorem next_line {line : Bytes} (h : 0x0a ∉ line) (rest : Bytes) :
    next (line ++ 0x0a :: rest) = if said line = .skipped then next rest else ((said line).result, rest) := by
  rw [next, nextLoop_line h, next]
  rw [nextLoop_fuel rest (line ++ 0x0a :: rest).length (rest.length + 1)]
  · rw [List.length_append, List.length_cons]
    omega
  · exact Nat.lt_succ_self _

/-! ### What the reader sees -/

/-- What `Next` makes of the lines of a stream: as a genuine session, but a malformed line is a clean end, and
    an unfinished one is taken for a line. -/
def seen : List Bytes → Bytes → List WriteEvent × Finish
  | [], last =>
    if last = [] then ([], .clean) else
    match said last with
    | .event w => ([w], .clean)
    | .refused _ => ([], .failed)
    | _ => ([], .clean)
  | line :: lines, last =>
    match said line with
    | .skipped => seen lines last
    | .event w => (w :: (seen lines last).1, (seen lines last).2)
    | .refused _ => ([], .failed)
    | _ => ([], .clean)

theorem drain_nil (fuel : Nat) : drain fuel [] = ([], .clean) := by
  cases fuel with
  | zero => rfl
  | succ fuel => rw [drain, next, nextLoop_nil]

/-- **The calls of `Next`**, line by line. -/
theorem drain_eq (s : Bytes) : ∀ fuel, s.length < fuel → drain fuel s = seen (terminated s) (unfinished s) := by
  induction s using lines_induction with
  -- what is left is no whole line: it is read once, and then the connection is at its end
  | last s h =>
      intro fuel hfuel
      obtain ⟨fuel, rfl⟩ : ∃ g, fuel = g + 1 := ⟨fuel - 1, by omega⟩
      rw [terminated_none h, unfinished_none h, seen]
      by_cases hne : s = []
      · rw [if_pos hne, hne, drain_nil]
      · rw [if_neg hne, drain, next, nextLoop_last h hne]
        cases said s with
        | event w => simp only [Said.result, drain_nil]
        | skipped => rfl
        | ended => rfl
        | refused e => rfl
        | malformed => rfl
  | line l rest h ih =>
      intro fuel hfuel
      rw [List.length_append, List.length_cons] at hfuel
      obtain ⟨fuel, rfl⟩ : ∃ g, fuel = g + 1 := ⟨fuel - 1, by omega⟩
      rw [terminated_line h, unfinished_line h, seen, drain, next_line h]
      cases said l with
      -- the same call reads on
      | skipped =>
          rw [if_pos rfl, ← ih (fuel + 1) (by omega), drain]
      -- the call returns, and the next one goes on behind the line
      | event w =>
          rw [if_neg (by simp)]
          simp only [Said.result]
          rw [ih fuel (by omega)]
      | ended => rfl
      | refused e => rfl
      | malformed => rfl

theorem seen_eq_session_iff (lines : List Bytes) (last : Bytes) :
    seen lines last = session lines last ↔
      match lines.find? stops with
      | some line => said line ≠ .malformed
      | none => last = [] ∨ ∃ e, said last = .refused e := by
  induction lines with
  | nil =>
      rw [seen, session, List.find?_nil]
      by_cases hne : last = []
      · simp [hne]
      · simp only [hne, false_or]
        cases said last <;> simp
  | cons line lines ih =>
      rw [seen, session, List.find?_cons, stops]
      cases hl : said line with
      | skipped => exact ih
      | event w =>
          rw [← ih]
          simp [Prod.ext_iff]
      | ended => simp [hl]
      | refused e => simp [hl]
      | malformed => simp [hl]

/-- **A clean end is genuine, exactly when.** Whatever bytes arrive before the connection closes, the calls of
    `Next` return the write events in order and then report the end of the stream as it was, if and only if the
    first line that is neither skipped nor an event can be read, and the connection, if it closed before any such
    line, did not close inside a line (or inside one that is a refusal in itself). -/
theorem stream_end_genuine_iff (s : Bytes) : Genuine s ↔ StopsReadably s := by
  rw [Genuine, drain_eq s _ (Nat.lt_succ_self _), seen_eq_session_iff]
  rfl

/-- Two streams that `Next` ends cleanly: one with a line that is no JSON text, and one cut in the middle of a
    write event. -/
theorem damaged_streams_end_cleanly :
    (drain 100 (ascii "oops\n") = ([], .clean) ∧ ¬ Genuine (ascii "oops\n")) ∧
    drain 100 (ascii "\x7b\"type\":\"write\",\"tid\":7") = ([], .clean) ∧
      ¬ Genuine (ascii "\x7b\"type\":\"write\",\"tid\":7") := by
  unfold Genuine
  decide +kernel

end EndToEnd
end Hsed
