import Hsed.Server.Correctness.Replies
import Hsed.Server.Correctness.Signals
import Hsed.Wire.Correctness.Send

/-!
# `Server.Correctness.Framing` — the replies of a connection when `send` fails

Every handler is a sequence of `hsed_send_line` calls (`Sent`), so the sending side of a connection is
`sendAll` of the lines handed over so far, and all that matters is what one call does to the wire
(`hsedSendLine_spec`). `handle_scan` gives up after a failed call; every other handler, and the command loop,
ignores the result and goes on with the next line. `framing_survives_iff` says when that does no harm: the
error that cut a line has not cleared at any later call.
-/

namespace Hsed
namespace Server

open CLib Scan Wire

/-! ## A sequence of calls -/

/-- `hsed_send_line` on each line, whatever it returns. -/
def sendAll (s : Sock) (ls : List Bytes) : Sock := ls.foldl (fun s l => (hsedSendLine s l).2) s

theorem sendAll_append (s : Sock) (ls ms : List Bytes) : sendAll s (ls ++ ms) = sendAll (sendAll s ls) ms :=
  List.foldl_append

theorem sendAll_snoc (s : Sock) (ls : List Bytes) (l : Bytes) :
    sendAll s (ls ++ [l]) = (hsedSendLine (sendAll s ls) l).2 := by
  rw [sendAll_append]
  rfl

theorem sendAll_lines (s : Sock) (ls : List Bytes) : (sendAll s ls).lines = s.lines ++ ls := by
  induction ls generalizing s with
  | nil => exact (List.append_nil _).symm
  | cons l ls ih =>
      rw [sendAll, List.foldl_cons]
      refine (ih _).trans ?_
      show (s.lines ++ [l]) ++ ls = s.lines ++ l :: ls
      rw [List.append_assoc, List.singleton_append]

/-- Between the two sending sides there are only calls of `hsed_send_line`. -/
def Sent (s s' : Sock) : Prop := ∃ ls, s' = sendAll s ls

theorem Sent.refl (s : Sock) : Sent s s := ⟨[], rfl⟩

theorem Sent.trans {s s₁ s₂ : Sock} (h : Sent s s₁) (h₁ : Sent s₁ s₂) : Sent s s₂ := by
  obtain ⟨ls, rfl⟩ := h
  obtain ⟨ms, rfl⟩ := h₁
  exact ⟨ls ++ ms, (sendAll_append s ls ms).symm⟩

theorem Sent.line (s : Sock) (l : Bytes) : Sent s (hsedSendLine s l).2 := ⟨[l], rfl⟩

theorem Sent.reply (c : Conn) (text : Bytes) : Sent c.sock (c.reply text).sock := Sent.line _ _

/-! ## The handlers -/

theorem sendEntries_calls (es : List Entry) : ∀ (s : Sock) (total : Int), Sent s (sendEntries es s total).2.1 := by
  induction es with
  | nil => intro s total; exact Sent.refl s
  | cons e es ih =>
      intro s total
      have hline := Sent.line s (hsedFormatEntry e linebufSize)
      rw [sendEntries]
      split
      next heq =>
        rw [heq] at hline
        split
        · exact hline
        · exact hline.trans (ih _ _)

theorem handleScan_calls (env : Env) (c : Conn) (minSize onlyPid : Int) (uidFilter : Nat) :
    Sent c.sock (handleScan env c minSize onlyPid uidFilter).sock := by
  unfold handleScan
  split
  · exact Sent.reply c _
  next es _ =>
    have hentries := sendEntries_calls es c.sock 0
    split
    next heq =>
      rw [heq] at hentries
      exact hentries
    next sock total heq =>
      rw [heq] at hentries
      exact hentries.trans (Sent.reply { c with sock := sock } _)

theorem handleStats_calls (env : Env) (c : Conn) (minSize : Int) (uidFilter : Nat) :
    Sent c.sock (handleStats env c minSize uidFilter).sock := by
  unfold handleStats
  split <;> exact Sent.reply c _

theorem handleTruncate_calls (env : Env) (c : Conn) (pid fd : Int) :
    Sent c.sock (handleTruncate env c pid fd).sock := by
  unfold handleTruncate
  split <;> exact Sent.reply c _

theorem handleSignal_calls (env : Env) (sig : Int) (c : Conn) (pid : Int) :
    Sent c.sock (handleSignal env sig c pid).2.sock := by
  unfold handleSignal hsedSendSignal
  cases env.kill pid sig with
  | ok => exact Sent.reply { c with kills := c.kills ++ [(pid, sig)] } _
  | failed strerror => exact Sent.reply { c with kills := c.kills ++ [(pid, sig)] } _
  | fatal => exact Sent.refl _

theorem streamWriteCb_calls (c : Conn) (tid ret : Int) (buf : Bytes) (isWritev mallocOk : Bool) :
    Sent c.sock (streamWriteCb c tid ret buf isWritev mallocOk).sock := by
  unfold streamWriteCb
  split
  · exact Sent.reply c _
  · exact Sent.refl _

theorem streamLoop_calls (pid fd : Int) (acts : List StreamAct) : ∀ c : Conn,
    Sent c.sock (streamLoop pid fd acts c).2.sock := by
  induction acts with
  | nil => intro c; exact Sent.refl _
  | cons a acts ih =>
      intro c
      cases a with
      | attached => exact (Sent.reply c _).trans (ih _)
      | write tid ret buf isWritev mallocOk => exact (streamWriteCb_calls c tid ret buf isWritev mallocOk).trans (ih _)
      | poll avail =>
          rw [streamLoop]
          split
          next rs _ => exact ih { c with recv := rs }
          · exact Sent.refl _

theorem handleStream_calls (env : Env) (c : Conn) (pid fd : Int) : Sent c.sock (handleStream env c pid fd).sock := by
  have hloop := streamLoop_calls pid fd (env.stream pid fd).1 c
  unfold handleStream
  split
  next c' heq =>
    rw [heq] at hloop
    exact hloop.trans (Sent.reply c' _)
  next c' heq =>
    rw [heq] at hloop
    split <;> exact hloop.trans (Sent.reply c' _)

theorem dispatch_calls (env : Env) (c : Conn) (cmd save : Bytes) : Sent c.sock (dispatch env c cmd save).2.sock := by
  unfold dispatch
  simp only
  split
  · exact Sent.reply c _
  split
  · exact Sent.refl _
  split
  · exact handleScan_calls ..
  split
  · exact handleStats_calls ..
  split
  · split
    · exact handleTruncate_calls ..
    · exact Sent.reply c _
  split
  · split
    · exact handleSignal_calls ..
    · exact Sent.reply c _
  split
  · split
    · exact handleSignal_calls ..
    · exact Sent.reply c _
  split
  · split
    · exact handleStream_calls ..
    · exact Sent.reply c _
  · exact Sent.reply c _

theorem handleLine_calls (env : Env) (c : Conn) (line : Bytes) : Sent c.sock (handleLine env c line).2.sock := by
  unfold handleLine
  split
  · exact Sent.refl _
  · exact dispatch_calls ..

theorem connLoop_calls {env : Nat → Env} {fuel : Nat} : ∀ {i : Nat} {c : Conn} {sv : Served},
    sv ∈ connLoop env fuel i c → Sent c.sock sv.before.sock ∧ Sent c.sock sv.after.sock := by
  induction fuel with
  | zero => intro i c sv h; cases h
  | succ fuel ih =>
      intro i c sv h
      rw [connLoop] at h
      split at h
      · cases h
      next buf rest _ =>
        have hline := handleLine_calls (env i) { c with recv := rest } (cstr buf)
        cases hl : handleLine (env i) { c with recv := rest } (cstr buf) with
        | mk go c' =>
            rw [hl] at h hline
            rcases List.mem_cons.mp h with rfl | h
            · exact ⟨Sent.refl _, hline⟩
            · cases go with
              | true => exact ⟨hline.trans (ih h).1, hline.trans (ih h).2⟩
              | false => cases h

/-- At every moment of a connection its sending side is `sendAll` of the lines handed over. -/
theorem handleConnection_calls {env : Nat → Env} {recv : List Recv} {sends : List SendRes} {sv : Served}
    (h : sv ∈ handleConnection env recv ⟨[], sends, []⟩) :
    sv.after.sock = sendAll ⟨[], sends, []⟩ sv.after.sock.lines := by
  obtain ⟨ls, hls⟩ := (connLoop_calls h).2
  have hlines : sv.after.sock.lines = ls := by
    rw [hls, sendAll_lines]
    rfl
  rw [hlines]
  exact hls

/-! ## What the calls put on the wire -/

/-- The bytes that one call puts on the wire. -/
def put (s : Sock) (l : Bytes) : Bytes := (hsedSendLine s l).2.wire.drop s.wire.length

theorem wire_hsedSendLine (s : Sock) (l : Bytes) : (hsedSendLine s l).2.wire = s.wire ++ put s l := by
  obtain ⟨k, -, hwire, -, -⟩ := hsedSendLine_spec s l
  rw [put, hwire, List.drop_left]

theorem isPrefix_put (s : Sock) (l : Bytes) : put s l <+: framed l := by
  obtain ⟨k, -, hwire, -, -⟩ := hsedSendLine_spec s l
  rw [put, hwire, List.drop_left]
  exact List.take_prefix _ _

theorem put_eq_nil_iff (s : Sock) (l : Bytes) : put s l = [] ↔ refused s.sends = true := by
  obtain ⟨k, hk, hwire, -, hz⟩ := hsedSendLine_spec s l
  have hlen := length_framed l
  rw [put, hwire, List.drop_left, ← hz, List.take_eq_nil_iff]
  constructor
  · rintro (h | h)
    · exact h
    · rw [h] at hlen; cases hlen
  · exact .inl

/-- A call failed part-way through its line: some of it is out, and some is not. -/
def CutShort (s : Sock) (ls : List Bytes) : Prop :=
  ∃ pre l post, ls = pre ++ l :: post ∧ put (sendAll s pre) l ≠ [] ∧ put (sendAll s pre) l ≠ framed l

theorem CutShort.snoc {s : Sock} {ls : List Bytes} (h : CutShort s ls) (l : Bytes) : CutShort s (ls ++ [l]) := by
  obtain ⟨pre, m, post, rfl, hput⟩ := h
  exact ⟨pre, m, post ++ [l], by rw [List.append_assoc, List.cons_append], hput⟩

/-- The error that cut a line is still there at every later call. -/
def Persists (s : Sock) (ls : List Bytes) : Prop :=
  ∀ pre l post, ls = pre ++ l :: post → CutShort s pre → refused (sendAll s pre).sends = true

/-- The invariant of a sequence of calls: the wire is whole lines until one is cut, and then a prefix of whole
    lines. -/
theorem wire_sendAll {s : Sock} {ls : List Bytes} (h : Persists s ls) :
    (¬ CutShort s ls → ∃ ms : List Bytes, ms.Sublist ls ∧ (sendAll s ls).wire = s.wire ++ (ms.map framed).flatten) ∧
      ∃ ms : List Bytes, ms.Sublist ls ∧ (sendAll s ls).wire <+: s.wire ++ (ms.map framed).flatten := by
  induction ls using List.reverseRecOn with
  | nil =>
      have hnil : (sendAll s []).wire = s.wire ++ (([] : List Bytes).map framed).flatten := (List.append_nil _).symm
      exact ⟨fun _ => ⟨[], List.Sublist.refl _, hnil⟩, [], List.Sublist.refl _, hnil ▸ List.prefix_refl _⟩
  | append_singleton ls l ih =>
      have hbefore : Persists s ls := by
        intro pre m post heq hcut
        exact h pre m (post ++ [l]) (by rw [heq, List.append_assoc, List.cons_append]) hcut
      obtain ⟨hwhole, hprefix⟩ := ih hbefore
      rw [sendAll_snoc, wire_hsedSendLine]
      by_cases hcut : CutShort s ls
      · -- the call puts nothing on the wire
        have hnone : put (sendAll s ls) l = [] := (put_eq_nil_iff _ _).mpr (h ls l [] rfl hcut)
        rw [hnone, List.append_nil]
        obtain ⟨ms, hms, hwire⟩ := hprefix
        exact ⟨fun hno => absurd (hcut.snoc l) hno, ms, hms.trans (List.sublist_append_left _ _), hwire⟩
      · -- nothing was cut before: the call sends nothing, its line, or cuts it
        obtain ⟨ms, hms, hwire⟩ := hwhole hcut
        have hone : ((ms ++ [l]).map framed).flatten = (ms.map framed).flatten ++ framed l := by
          rw [List.map_append, List.flatten_append, List.map_singleton, List.flatten_singleton]
        rw [hwire, List.append_assoc]
        constructor
        · intro hno
          by_cases hnone : put (sendAll s ls) l = []
          · refine ⟨ms, hms.trans (List.sublist_append_left _ _), ?_⟩
            rw [hnone, List.append_nil]
          · have hall : put (sendAll s ls) l = framed l := by
              by_contra hpart
              exact hno ⟨ls, l, [], rfl, hnone, hpart⟩
            exact ⟨ms ++ [l], hms.append_right [l], by rw [hall, hone]⟩
        · refine ⟨ms ++ [l], hms.append_right [l], ?_⟩
          rw [hone]
          exact (List.prefix_append_right_inj _).mpr ((List.prefix_append_right_inj _).mpr (isPrefix_put _ _))

/-! ## A connection -/

/-- The framing survives up to the end of a served line: the wire is a prefix of whole reply lines, and after a
    line that was cut part-way no call put anything on it. -/
structure FramingSurvives (sends : List SendRes) (sv : Served) : Prop where
  whole : ∃ ls : List Bytes, ls.Sublist sv.after.sock.lines ∧ sv.after.sock.wire <+: (ls.map framed).flatten
  silent : ∀ pre l post, sv.after.sock.lines = pre ++ l :: post → CutShort ⟨[], sends, []⟩ pre →
    put (sendAll ⟨[], sends, []⟩ pre) l = []

/-- **Framing under failed sends.** On every connection, for every sequence of received bytes, every schedule of
    `send` results and whatever the rest of the system does, the framing survives up to a line iff the error that
    cut a reply was still there at every later call. -/
theorem framing_survives_iff (env : Nat → Env) (recv : List Recv) (sends : List SendRes) :
    ∀ sv ∈ handleConnection env recv ⟨[], sends, []⟩,
      FramingSurvives sends sv ↔ Persists ⟨[], sends, []⟩ sv.after.sock.lines := by
  intro sv hsv
  have hcalls := handleConnection_calls hsv
  constructor
  · intro h pre l post heq hcut
    exact (put_eq_nil_iff _ _).mp (h.silent pre l post heq hcut)
  · intro h
    refine ⟨?_, ?_⟩
    · obtain ⟨ls, hls, hwire⟩ := (wire_sendAll h).2
      rw [← hcalls] at hwire
      exact ⟨ls, hls, hwire⟩
    · intro pre l post heq hcut
      exact (put_eq_nil_iff _ _).mpr (h pre l post heq hcut)

/-- A `PING` cut after five bytes, and a second one that gets nothing through: the error has not cleared. -/
theorem framing_survives_broken :
    ∃ sv ∈ handleConnection (fun _ => idleEnv) (typed "PING\nPING\n") ⟨[], [.accept 5, .err, .eintr, .err], []⟩,
      sv.after.sock.wire = ascii "\x7b\"typ" ∧ FramingSurvives [.accept 5, .err, .eintr, .err] sv := by
  have hserved : ∃ sv ∈ handleConnection (fun _ => idleEnv) (typed "PING\nPING\n")
      ⟨[], [.accept 5, .err, .eintr, .err], []⟩, sv.after.sock.lines = [pongText, pongText] ∧
        sv.after.sock.wire = ascii "\x7b\"typ" := by decide
  obtain ⟨sv, hsv, hlines, hwire⟩ := hserved
  refine ⟨sv, hsv, hwire, (framing_survives_iff _ _ _ sv hsv).mpr ?_⟩
  rw [hlines]
  intro pre l post heq hcut
  rcases pre with _ | ⟨l₁, _ | ⟨l₂, pre⟩⟩
  · obtain ⟨_, _, _, hnil, -⟩ := hcut
    simp at hnil
  · obtain ⟨rfl, -⟩ := List.cons_eq_cons.mp heq
    decide
  · exact absurd (congrArg List.length heq) (by simp)

/-- A `PING` cut after five bytes by an error that then clears: the next reply follows the broken line. -/
theorem framing_breaks :
    ∃ sv ∈ handleConnection (fun _ => idleEnv) (typed "PING\nPING\n") ⟨[], [.accept 5, .err], []⟩,
      sv.after.sock.wire = ascii "\x7b\"typ\x7b\"type\":\"pong\"\x7d\n" ∧ ¬ FramingSurvives [.accept 5, .err] sv := by
  have hserved : ∃ sv ∈ handleConnection (fun _ => idleEnv) (typed "PING\nPING\n") ⟨[], [.accept 5, .err], []⟩,
      sv.after.sock.lines = [pongText, pongText] ∧
        sv.after.sock.wire = ascii "\x7b\"typ\x7b\"type\":\"pong\"\x7d\n" := by decide
  obtain ⟨sv, hsv, hlines, hwire⟩ := hserved
  refine ⟨sv, hsv, hwire, ?_⟩
  intro h
  have hcut : CutShort ⟨[], [.accept 5, .err], []⟩ [pongText] := ⟨[], pongText, [], rfl, by decide, by decide⟩
  exact absurd (h.silent [pongText] pongText [] hlines hcut) (by decide)

end Server
end Hsed
