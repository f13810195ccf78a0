import Hsed.EndToEnd.Live
import Hsed.Tui.Correctness.InOrder

/-!
# `EndToEnd.Watching` — from the traced process to the `StreamScreen`

The tracer's captures, the lines of the daemon, the calls of `Next` and the messages of the TUI, one after the other:
what a `StreamScreen` shows is what the process wrote (`screen_shows_writes`), up to where the stream was cut.
-/

namespace Hsed
namespace EndToEnd

open CLib Wire Server Client Lts
open Tracer (WriteCall clampCapture)
open Tui (ReadResult StreamScreen StreamLine SessionId Errand readsOf resultLine recordedStep fileOf)

/-! ## Streams that are cut -/

/-- A line of which the client accepts no proper part. -/
structure Whole (line : Bytes) : Prop where
  printable : Json.Printable line
  cut : ∀ s, s <+: line → s ≠ line → Json.unmarshal s = none

theorem whole_of_objectLine {text : Bytes} {ms : List Json.Member} (h : ObjectLine text ms) : Whole text :=
  ⟨h.printable, fun _ hs hne => h.unmarshal_cut hs hne⟩

theorem whole_callText (w : WriteCall) : Whole (callText w) where
  printable := printable_writeText _ _ _ _
  cut := by
    intro s hs hne
    rw [callText, writeText_eq_render] at hs hne
    exact Json.unmarshal_prefix (List.cons_ne_nil _ _) (writeMembers_ok _ _ _ _) hs hne

theorem said_cut {line s : Bytes} (h : Whole line) (hs : s <+: line) (hne : s ≠ line) : said s = .malformed := by
  have hprint : Json.Printable s := fun b hb => h.printable b (hs.subset hb)
  rw [said, trimRight_printable hprint, unmarshalInto, h.cut s hs hne]
  rfl

/-- The line itself, without its newline, counts as one. -/
theorem seen_unterminated (line : Bytes) : seen [] line = ([], .clean) ∨ seen [] line = seen [line] [] := by
  rw [seen]
  split
  · exact .inl rfl
  · right
    rw [seen]
    cases said line <;> rfl

/-- **A stream that begins with a line** and is cut: nothing of the line is seen, or all of it. -/
theorem seen_prefix {line : Bytes} (h : Whole line) {s more : Bytes} (hs : s <+: framed line ++ more) :
    seen (terminated s) (unfinished s) = ([], .clean) ∨
      ∃ s', s' <+: more ∧ seen (terminated s) (unfinished s) = seen (line :: terminated s') (unfinished s') := by
  have hnl := newline_notMem_of_printable h.printable
  have hwhole : ∀ s', seen (terminated (line ++ 0x0a :: s')) (unfinished (line ++ 0x0a :: s')) =
      seen (line :: terminated s') (unfinished s') := by
    intro s'
    rw [terminated_line hnl, unfinished_line hnl]
  rcases List.prefix_or_prefix_of_prefix hs (List.prefix_append _ _) with hcut | ⟨s', rfl⟩
  · rw [framed, List.prefix_concat_iff] at hcut
    rcases hcut with rfl | hcut
    · exact .inr ⟨[], List.nil_prefix, hwhole []⟩
    · have hnone : 0x0a ∉ s := fun hb => hnl (hcut.subset hb)
      rw [terminated_none hnone, unfinished_none hnone]
      by_cases heq : s = line
      · rw [heq]
        rcases seen_unterminated line with hnothing | hline
        · exact .inl hnothing
        · exact .inr ⟨[], List.nil_prefix, hline⟩
      · left
        rw [seen, said_cut h hcut heq]
        split <;> rfl
  · rw [List.prefix_append_right_inj] at hs
    refine .inr ⟨s', hs, ?_⟩
    rw [framed, List.append_assoc, List.singleton_append]
    exact hwhole s'

/-- The lines of a stream, cut anywhere: the first of its writes, and a clean end. -/
theorem seen_calls_cut {calls : List WriteCall} (h : ∀ w ∈ calls, TypedCall w ∧ w.buf.length ≤ 1452) :
    ∀ {s more : Bytes}, s <+: ((calls.map callText ++ [streamEndText]).map framed).flatten ++ more →
      ∃ k, seen (terminated s) (unfinished s) = ((calls.take k).map callEvent, .clean) := by
  induction calls with
  | nil =>
      intro s more hs
      rcases seen_prefix (whole_of_objectLine objectLine_streamEnd) (by simpa using hs) with hnothing | ⟨s', -, hline⟩
      · exact ⟨0, hnothing⟩
      · refine ⟨0, ?_⟩
        rw [hline, seen, said_streamEnd]
        rfl
  | cons w calls ih =>
      intro s more hs
      rw [List.forall_mem_cons] at h
      rw [List.map_cons, List.cons_append, List.map_cons, List.flatten_cons, List.append_assoc] at hs
      rcases seen_prefix (whole_callText w) hs with hnothing | ⟨s', hs', hline⟩
      · exact ⟨0, hnothing⟩
      · obtain ⟨k, hk⟩ := ih h.2 hs'
        refine ⟨k + 1, ?_⟩
        rw [hline, seen, said_call h.1.1 (by have := h.1.2; omega), hk]
        rfl

theorem seen_live_cut {pid fd : Int} {calls : List WriteCall} (h : ∀ w ∈ calls, TypedCall w ∧ w.buf.length ≤ 1452)
    {s more : Bytes}
    (hs : s <+: ((attachedText pid fd :: calls.map callText ++ [streamEndText]).map framed).flatten ++ more) :
    ∃ k, seen (terminated s) (unfinished s) = ((calls.take k).map callEvent, .clean) := by
  rw [List.cons_append, List.map_cons, List.flatten_cons, List.append_assoc] at hs
  rcases seen_prefix (whole_of_objectLine (objectLine_attached pid fd)) hs with hnothing | ⟨s', hs', hline⟩
  · exact ⟨0, hnothing⟩
  · obtain ⟨k, hk⟩ := seen_calls_cut h hs'
    refine ⟨k, ?_⟩
    rw [hline, seen, said_attached]
    exact hk

/-! ## Calls of `Next` -/

/-- What `n` calls of `Next` return. -/
def nexts : Nat → Bytes → List (Except ClientError (Option WriteEvent))
  | 0, _ => []
  | n + 1, s => (next s).1 :: nexts n (next s).2

/-- All results but the last are events: that is how `readNextCmd` calls it. -/
def UpToEnd (rs : List (Except ClientError (Option WriteEvent))) : Prop := ∀ r ∈ rs.dropLast, ∃ w, r = .ok (some w)

/-- The first of the events, or all of them and then a clean end. -/
def Drains (evs : List WriteEvent) (rs : List (Except ClientError (Option WriteEvent))) : Prop :=
  (∃ k, rs = (evs.take k).map fun w => .ok (some w)) ∨ rs = (evs.map fun w => .ok (some w)) ++ [.ok none]

theorem UpToEnd.tail {r : Except ClientError (Option WriteEvent)} {rs : List (Except ClientError (Option WriteEvent))}
    (h : UpToEnd (r :: rs)) : UpToEnd rs := by
  intro r' hr'
  have hne : rs ≠ [] := by
    rintro rfl
    cases hr'
  apply h r'
  rw [List.dropLast_cons_of_ne_nil hne]
  exact List.mem_cons_of_mem r hr'

/-- Behind a clean end nothing is read. -/
theorem drains_end {s : Bytes} (hnext : (next s).1 = .ok none) (n : Nat) (h : UpToEnd (nexts n s)) :
    Drains [] (nexts n s) := by
  cases n with
  | zero => exact .inl ⟨0, rfl⟩
  | succ n =>
      cases n with
      | zero =>
          right
          rw [nexts, hnext]
          rfl
      | succ n =>
          obtain ⟨w, hw⟩ := h (next s).1 (by rw [nexts, nexts]; exact List.mem_cons_self)
          rw [hnext] at hw
          cases hw

theorem drains_event {s rest : Bytes} {w : WriteEvent} (hnext : next s = (.ok (some w), rest)) {evs : List WriteEvent}
    (hrest : ∀ n, UpToEnd (nexts n rest) → Drains evs (nexts n rest)) (n : Nat) (h : UpToEnd (nexts n s)) :
    Drains (w :: evs) (nexts n s) := by
  cases n with
  | zero => exact .inl ⟨0, rfl⟩
  | succ n =>
      have hsplit : nexts (n + 1) s = .ok (some w) :: nexts n rest := by rw [nexts, hnext]
      rw [hsplit] at h ⊢
      rcases hrest n h.tail with ⟨k, hk⟩ | hall
      · refine .inl ⟨k + 1, ?_⟩
        rw [hk]
        rfl
      · right
        rw [hall]
        rfl

/-- **The calls of `Next`** on what is seen as a session with a clean end. -/
theorem drains_seen (s : Bytes) : ∀ {evs : List WriteEvent} (n : Nat),
    seen (terminated s) (unfinished s) = (evs, .clean) → UpToEnd (nexts n s) → Drains evs (nexts n s) := by
  have hnil : (next []).1 = .ok none := by rw [next, nextLoop_nil]
  induction s using lines_induction with
  | last s hnl =>
      intro evs n hseen h
      rw [terminated_none hnl, unfinished_none hnl, seen] at hseen
      by_cases hne : s = []
      · rw [if_pos hne] at hseen
        cases hseen
        exact drains_end (by rw [hne, hnil]) n h
      · rw [if_neg hne] at hseen
        have hnext : next s = ((said s).result, []) := by rw [next, nextLoop_last hnl hne]
        cases hsaid : said s with
        | event w =>
            rw [hsaid] at hseen hnext
            cases hseen
            exact drains_event hnext (fun n hn => drains_end hnil n hn) n h
        | refused err => rw [hsaid] at hseen; cases hseen
        | skipped => rw [hsaid] at hseen hnext; cases hseen; exact drains_end (by rw [hnext]; rfl) n h
        | ended => rw [hsaid] at hseen hnext; cases hseen; exact drains_end (by rw [hnext]; rfl) n h
        | malformed => rw [hsaid] at hseen hnext; cases hseen; exact drains_end (by rw [hnext]; rfl) n h
  | line l rest hnl ih =>
      intro evs n hseen h
      rw [terminated_line hnl, unfinished_line hnl, seen] at hseen
      have hnext := next_line hnl rest
      cases hsaid : said l with
      | skipped =>
          -- the call goes on with the next line
          rw [hsaid] at hseen hnext
          rw [if_pos rfl] at hnext
          have hsame : nexts n (l ++ 0x0a :: rest) = nexts n rest := by
            cases n with
            | zero => rfl
            | succ n => rw [nexts, nexts, hnext]
          rw [hsame] at h ⊢
          exact ih n hseen h
      | event w =>
          rw [hsaid] at hseen hnext
          rw [if_neg (by simp)] at hnext
          obtain ⟨rfl, hclean⟩ := Prod.mk.inj hseen
          refine drains_event hnext (fun n hn => ih n ?_ hn) n h
          rw [← hclean]
      | refused err => rw [hsaid] at hseen; cases hseen
      | ended =>
          rw [hsaid] at hseen hnext
          cases hseen
          exact drains_end (by rw [hnext]; rfl) n h
      | malformed =>
          rw [hsaid] at hseen hnext
          cases hseen
          exact drains_end (by rw [hnext]; rfl) n h

/-! ## The screen -/

/-- As the TUI sees it: an error is its text. -/
def readResult (text : ClientError → Bytes) (r : Except ClientError (Option WriteEvent)) : ReadResult := r.mapError text

theorem readResult_goesOn {text : ClientError → Bytes} {r : Except ClientError (Option WriteEvent)}
    (h : (readResult text r).goesOn) : ∃ w, r = .ok (some w) := by
  rcases r with err | _ | w
  · cases h
  · cases h
  · exact ⟨w, rfl⟩

section
variable {evs : List WriteEvent} {rs : List (Except ClientError (Option WriteEvent))} {text : ClientError → Bytes}
  {shown pending : List ReadResult}

/-- What a screen has read, it has read up to the end. -/
theorem upToEnd_of_shown (heq : rs.map (readResult text) = shown ++ pending) (hone : pending.length ≤ 1)
    (hlast : ∀ r ∈ shown.dropLast, r.goesOn) (hall : pending ≠ [] → ∀ r ∈ shown, r.goesOn) : UpToEnd rs := by
  intro r hr
  apply @readResult_goesOn text
  have hmem : readResult text r ∈ (rs.map (readResult text)).dropLast := by
    rw [← List.map_dropLast]
    exact List.mem_map_of_mem hr
  rw [heq] at hmem
  cases pending with
  | nil =>
      rw [List.append_nil] at hmem
      exact hlast _ hmem
  | cons q pending =>
      rw [List.length_cons] at hone
      obtain rfl := List.length_eq_zero_iff.mp (Nat.le_zero.mp (Nat.le_of_succ_le_succ hone))
      rw [List.dropLast_concat] at hmem
      exact hall (List.cons_ne_nil _ _) _ hmem

/-- The lines of the results that are shown. -/
theorem lines_of_drains (h : Drains evs rs) (heq : rs.map (readResult text) = shown ++ pending) (i : SessionId) :
    (∃ k, shown.map (resultLine i) = (evs.take k).map (.write · i)) ∨
      shown.map (resultLine i) = evs.map (.write · i) ++ [.ended] := by
  have hlines : ∀ evs : List WriteEvent, ((evs.map fun w => (.ok (some w) : Except ClientError _)).map
      (readResult text)).map (resultLine i) = evs.map (.write · i) := by
    intro evs
    rw [List.map_map, List.map_map]
    rfl
  obtain ⟨m, rfl⟩ : ∃ m, shown = (rs.map (readResult text)).take m := ⟨shown.length, by rw [heq, List.take_left]⟩
  rcases h with ⟨k, rfl⟩ | rfl
  · left
    refine ⟨min m k, ?_⟩
    rw [← List.map_take, ← List.map_take, List.take_take, hlines]
  · rw [List.map_append]
    by_cases hm : m ≤ evs.length
    · left
      refine ⟨m, ?_⟩
      rw [List.take_append_of_le_length (by simpa using hm), ← List.map_take, ← List.map_take, hlines]
    · right
      rw [List.take_of_length_le, List.map_append, hlines]
      · rfl
      · simp
        omega

end

/-- **The screen shows what was written.** A `StreamScreen` of the TUI reads from the session that the request for
    its process and descriptor has opened, of whose bytes any first part may arrive before it is closed or cut;
    the daemon traces as in `stream_delivers_writes`. Then in every run with one stream at a time, whatever is
    typed and in whatever order things finish, what is below the header of the screen are the first of the writes
    that the target completed on this descriptor, in order, each once and with its thread, result, kind and
    captured bytes; and the line that says the stream has ended is the last one, and comes, if nothing was cut,
    behind the last of them. -/
theorem screen_shows_writes {st : Stream} (hp : -(2 ^ 31) ≤ st.pid ∧ st.pid < 2 ^ 31)
    (hf : -(2 ^ 31) ≤ st.fd ∧ st.fd < 2 ^ 31) (hcap : st.maxCapture ≤ 1452) {recv : List Recv}
    (hd : Delivers recv (Action.request st.pid st.fd .openStream)) (rest : List Recv) {sock : Sock}
    (hsock : sock.Healthy) {seized : List (Int × Bool)} {rounds : List Round} {s : Live}
    (hrun : Run (Guarded (LiveAssumed seized) (liveStep st)) (liveStart st seized ⟨rest, sock, []⟩) rounds s)
    {env : Nat → Env} (henv : (env 0).stream st.pid st.fd = (.attached :: rounds.flatMap Round.acts, none))
    {arrived : Bytes} (harrived : arrived <+:
      (finalSock sock (handleConnection env (recv ++ .byte 0x0a :: rest) sock)).wire.drop sock.wire.length)
    {W : Tui.Widgets} {minSize onlyPid uidFilter interval : Int} {acts : List (Tui.Act W)} {p : Tui.Program W}
    {reads : List (SessionId × ReadResult)}
    (htui : Run recordedStep ⟨Tui.Program.start W minSize onlyPid uidFilter interval, []⟩ acts ⟨p, reads⟩)
    {screen : StreamScreen} (hscreen : .stream screen ∈ p.app.stack) {i : SessionId} (hi : screen.session = some i)
    (hfile : fileOf p.sessions i = some (st.pid, st.fd)) {text : ClientError → Bytes} {n : Nat}
    (hreads : readsOf i reads = (nexts n arrived).map (readResult text)) :
    screen.file = (st.pid, st.fd) ∧
      ∃ (evs : List WriteEvent) (k : Nat), evs.map toldEvent =
          ((dueCalls st.sys st.fd (clampCapture st.maxCapture) s.loop.hist).take k).map toldCall ∧
        (screen.lines = screen.header ++ evs.map (.write · i) ∨
          screen.lines = screen.header ++ evs.map (.write · i) ++ [.ended] ∧
            (arrived = (finalSock sock (handleConnection env (recv ++ .byte 0x0a :: rest) sock)).wire.drop
                sock.wire.length →
              (dueCalls st.sys st.fd (clampCapture st.maxCapture) s.loop.hist).length ≤ k)) := by
  have hcalls := dueCalls_bounded hcap hrun
  obtain ⟨more, hbytes⟩ := sent_live hp hf hd rest hsock hrun henv hcalls
  rw [hbytes] at harrived ⊢
  set calls := dueCalls st.sys st.fd (clampCapture st.maxCapture) s.loop.hist with hdue
  have hinorder := Tui.inOrder_run htui
  have hshows := hinorder.stacked hscreen
  unfold StreamScreen.Shows at hshows
  rw [hi] at hshows
  obtain ⟨hown, shown, hlines, hread, hlast, hall⟩ := hshows
  refine ⟨Option.some.inj (hown.symm.trans hfile), ?_⟩
  -- what was read of these bytes
  obtain ⟨k, hseen⟩ := seen_live_cut hcalls harrived
  have hpending : ((Tui.errands p.running p.queue).filterMap Errand.result).length ≤ 1 :=
    Nat.le_trans (List.length_filterMap_le _ _) hinorder.single
  rw [hread] at hreads
  have hend : UpToEnd (nexts n arrived) := by
    refine upToEnd_of_shown hreads.symm hpending hlast fun hne => hall ?_
    rintro hnil
    rw [hnil] at hne
    exact hne rfl
  have htold : ∀ calls : List WriteCall, (calls.map callEvent).map toldEvent = calls.map toldCall := by
    intro calls
    rw [List.map_map]
    exact List.map_congr_left fun w _ => toldEvent_callEvent w
  rcases lines_of_drains (drains_seen arrived n hseen hend) hreads.symm i with ⟨j, hshown⟩ | hshown
  · refine ⟨((calls.take k).map callEvent).take j, min j k, ?_, .inl ?_⟩
    · rw [← List.map_take, htold, List.take_take]
    · rw [hlines, hshown]
  · refine ⟨(calls.take k).map callEvent, k, htold _, .inr ⟨?_, ?_⟩⟩
    · rw [hlines, hshown, List.append_assoc]
    · intro hwhole
      have hevs : (calls.take k).map callEvent = calls.map callEvent :=
        (Prod.mk.inj (hseen.symm.trans (seen_sent hp hf hcalls hwhole))).1
      have hlen := congrArg List.length hevs
      rw [List.length_map, List.length_map, List.length_take] at hlen
      omega

/-- The bytes of the stream of `stream_delivers_three_bytes`. -/
def sevenBytes : Bytes :=
  (finalSock Sock.fresh (handleConnection streamSevenEnv
    ((ascii "STREAM 7 1").map .byte ++ .byte 0x0a :: stopBytes) Sock.fresh)).wire.drop 0

def threeAs : WriteEvent := callEvent ⟨7, 3, [65, 65, 65], false⟩

/-- The descriptor is selected, its stream opened and read to the end. -/
def watchedRun : List (Tui.Act Tui.simpleWidgets) :=
  (Tui.openFirst [{ HiddenEntry.zero with pid := 7, fd := 1 }]).append
    [ .press (.rune 's'), .deliver, .finish 1 .done, .deliver, .finish 1 (.opened (.ok ())), .deliver,
      .finish 1 (.read (.ok (some threeAs))), .deliver, .finish 1 (.read (.ok none)), .deliver ]

theorem screen_shows_three_bytes :
    ∃ p reads screen, Run recordedStep ⟨Tui.Program.start Tui.simpleWidgets 0 0 (-1) 5, []⟩ watchedRun ⟨p, reads⟩ ∧
      .stream screen ∈ p.app.stack ∧ screen.file = (7, 1) ∧ screen.lines.length = 5 ∧
      ∃ (evs : List WriteEvent) (k : Nat),
        evs.map toldEvent = (([⟨7, 3, [65, 65, 65], false⟩] : List WriteCall).take k).map toldCall ∧
        (screen.lines = screen.header ++ evs.map (.write · 0) ∨
          screen.lines = screen.header ++ evs.map (.write · 0) ++ [.ended] ∧ (sevenBytes = sevenBytes → 1 ≤ k)) := by
  have hexec : (watchedRun.foldlM Tui.recordedNext ⟨Tui.Program.start Tui.simpleWidgets 0 0 (-1) 5, []⟩).any (fun x =>
      (∃ s ∈ x.state.app.streams, s.session = some 0 ∧ s.lines.length = 5) ∧
        fileOf x.state.sessions 0 = some (7, 1) ∧ readsOf 0 x.seen = [.ok (some threeAs), .ok none]) := by
    decide +kernel
  obtain ⟨⟨p, reads⟩, hp, hseen⟩ := (Option.any_eq_true _ _).mp hexec
  obtain ⟨⟨screen, hstream, hsession, hlen⟩, hfile, hread⟩ := of_decide_eq_true hseen
  have htui : Run recordedStep ⟨Tui.Program.start Tui.simpleWidgets 0 0 (-1) 5, []⟩ watchedRun ⟨p, reads⟩ :=
    Run.of_exec (fun _ _ _ _ h => Tui.recordedNext_step h) hp
  have hscreen := Tui.App.mem_streams.mp hstream
  have hnexts : nexts 2 sevenBytes = [.ok (some threeAs), .ok none] := by decide +kernel
  have hreads : readsOf 0 reads = (nexts 2 sevenBytes).map (readResult fun _ => []) := by
    rw [hnexts]
    exact hread
  obtain ⟨s, hrun, hdue⟩ := live_seven
  have henv : (streamSevenEnv 0).stream streamSeven.pid streamSeven.fd =
      (.attached :: writeThenStop.flatMap Round.acts, none) := rfl
  have hall := screen_shows_writes (by decide) (by decide) (by decide) delivers_seven stopBytes Sock.fresh_healthy hrun
    henv (List.prefix_refl sevenBytes) htui hscreen hsession hfile hreads
  rw [hdue] at hall
  exact ⟨p, reads, screen, htui, hscreen, hall.1, hlen, hall.2⟩

end EndToEnd
end Hsed
