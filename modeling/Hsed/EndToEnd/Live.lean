import Hsed.EndToEnd.Actions
import Hsed.EndToEnd.Cut
import Hsed.EndToEnd.Stream
import Hsed.Server.Correctness.Lines
import Hsed.Tracer.Correctness.Bounds
import Hsed.Tracer.Correctness.Capture

/-!
# `EndToEnd.Live` — a STREAM from the target's system calls to the client's events

The wait loop of `hsed_trace_fd` and the connection its callbacks serve, as one transition system: a pass
(`Round`) is one `waitpid`, and what it leads to on the socket. The answers of `poll_cb` are those the
connection gives, so the loop ends when the client asks for it, or when no thread is left.

* `streamLoop_live` — a run of the two together is what `handle_stream` does with the callbacks of the run;
* `live_lines` — the lines it sends are one for each call of `write_cb`, between `attached` and `stream_end`;
* `stream_delivers_writes` — for every `--max-capture` up to 1452, the calls of `Next` on the other side
  return the writes that the target completed on the descriptor, in order, and then a clean end.
-/

namespace Hsed
namespace EndToEnd

open CLib Wire Server Client Tracer

/-! ## The loop and its connection -/

/-- The parameters of one STREAM. -/
structure Stream where
  sys : Sysno
  pid : Int
  fd : Int
  maxCapture : Nat

/-- One pass of the wait loop: what `waitpid` brought with the calls it led to, the bytes a poll finds
    waiting, and whether the `malloc` of `stream_write_cb` succeeds. -/
structure Round where
  iter : Iter
  avail : Nat
  mallocOk : Bool

/-- The callbacks of a pass. -/
def Round.acts (r : Round) : List StreamAct :=
  match r.iter.wait with
  | .idle _ => [.poll r.avail]
  | _ => r.iter.calls.map fun w => .write w.tid w.ret w.buf w.isWritev r.mallocOk

structure Live where
  loop : LoopState
  conn : Conn

/-- A pass of the loop on its connection; a poll is answered by what the peer has sent. -/
def liveStep (st : Stream) (s : Live) (r : Round) (s' : Live) : Prop :=
  loopStep st.sys st.fd (clampCapture st.maxCapture) s.loop r.iter s'.loop ∧
    (∀ again, r.iter.wait = .idle again → again = (streamPollCb s.conn.recv r.avail).1) ∧
    s'.conn = (streamLoop st.pid st.fd r.acts s.conn).2

/-- The state a pass leads to. -/
def liveNext (st : Stream) (s : Live) (r : Round) : Live :=
  let pass := loopPass st.sys st.fd (clampCapture st.maxCapture) s.loop.tids r.iter.wait
  ⟨⟨pass.tids, r.iter.wait :: s.loop.hist, pass.returned⟩, (streamLoop st.pid st.fd r.acts s.conn).2⟩

/-- The loop as the seize loop leaves it, after `attached_cb`. -/
def liveStart (st : Stream) (seized : List (Int × Bool)) (c : Conn) : Live :=
  ⟨loopStart seized, streamAttachedCb c st.pid st.fd⟩

/-- The values a report can carry: a `pid_t`, and a 64-bit return value. -/
def TypedWait : Wait → Prop
  | .report t (.leave regs) _ => (-(2 ^ 31) ≤ t ∧ t < 2 ^ 31) ∧ -(2 ^ 63) ≤ regs.ret ∧ regs.ret < 2 ^ 63
  | _ => True

/-- The reports follow ptrace's rules and no allocation fails. -/
def LiveAssumed (seized : List (Int × Bool)) (s : Live) (r : Round) : Prop :=
  Assumed seized s.loop r.iter ∧ TypedWait r.iter.wait ∧ r.mallocOk = true

/-- The calls due over a history, newest first. -/
def dueCalls (sys : Sysno) (fd : Int) (maxCapture : Nat) : List Wait → List WriteCall
  | [] => []
  | w :: hist => dueCalls sys fd maxCapture hist ++ expectedCalls sys fd maxCapture hist w

/-! ## `handle_stream` on the callbacks of a run -/

theorem streamLoop_append (pid fd : Int) (acts acts' : List StreamAct) : ∀ c : Conn,
    streamLoop pid fd (acts ++ acts') c =
      if (streamLoop pid fd acts c).1 then streamLoop pid fd acts c
      else streamLoop pid fd acts' (streamLoop pid fd acts c).2 := by
  induction acts with
  | nil => intro c; rfl
  | cons a acts ih =>
      intro c
      cases a with
      | attached => exact ih _
      | write tid ret buf isWritev mallocOk => exact ih _
      | poll avail =>
          rw [List.cons_append, streamLoop, streamLoop]
          rcases streamPollCb c.recv avail with ⟨_ | _, rs⟩
          · rfl
          · exact ih _

/-- Only a poll stops the callbacks. -/
theorem streamLoop_writes (pid fd : Int) (mallocOk : Bool) (calls : List WriteCall) : ∀ c : Conn,
    (streamLoop pid fd (calls.map fun w => .write w.tid w.ret w.buf w.isWritev mallocOk) c).1 = false := by
  induction calls with
  | nil => intro c; rfl
  | cons w calls ih => intro c; exact ih _

section
variable {st : Stream} {seized : List (Int × Bool)} {c : Conn}

/-- A pass whose poll was refused is the last one. -/
theorem returned_of_stopped {s s' : Live} {r : Round} (hstep : liveStep st s r s')
    (hstop : (streamLoop st.pid st.fd r.acts s.conn).1 = true) : s'.loop.returned = true := by
  obtain ⟨⟨-, -, hloop⟩, hpoll, -⟩ := hstep
  rw [Round.acts] at hstop
  split at hstop
  · next again hidle =>
      have hagain := hpoll again hidle
      rw [streamLoop] at hstop
      rcases hcb : streamPollCb s.conn.recv r.avail with ⟨go, rs⟩
      rw [hcb] at hstop hagain
      cases go with
      | true => cases hstop
      | false =>
          rw [hloop, hidle, hagain]
          rfl
  · rw [streamLoop_writes] at hstop
    cases hstop

/-- **The callbacks of a run** leave the connection where the run leaves it. -/
theorem streamLoop_live {rounds : List Round} {s : Live}
    (hrun : Lts.Run (liveStep st) (liveStart st seized c) rounds s) :
    (streamLoop st.pid st.fd (.attached :: rounds.flatMap Round.acts) c).2 = s.conn ∧
      ((streamLoop st.pid st.fd (.attached :: rounds.flatMap Round.acts) c).1 = true → s.loop.returned = true) := by
  induction hrun with
  | nil => exact ⟨rfl, fun h => by cases h⟩
  | @snoc rounds s s' r _ hstep ih =>
      obtain ⟨hconn, hstopped⟩ := ih
      -- the loop went on, so no poll had been refused
      have hgoing : (streamLoop st.pid st.fd (.attached :: rounds.flatMap Round.acts) c).1 = false := by
        cases hs : (streamLoop st.pid st.fd (.attached :: rounds.flatMap Round.acts) c).1 with
        | false => rfl
        | true =>
            have hret := hstopped hs
            rw [hstep.1.1] at hret
            cases hret
      rw [List.flatMap_append, List.flatMap_singleton, ← List.cons_append, streamLoop_append, hgoing, hconn]
      exact ⟨hstep.2.2.symm, returned_of_stopped hstep⟩

/-! ## The lines -/

/-- The line of `stream_attached_cb`. -/
def attachedText (pid fd : Int) : Bytes :=
  ascii "\x7b\"type\":\"attached\",\"pid\":" ++ decInt pid ++ ascii ",\"fd\":" ++ decInt fd ++ ascii "\x7d"

def streamEndText : Bytes := ascii "\x7b\"type\":\"stream_end\"\x7d"

/-- The line of one call. -/
def callText (w : WriteCall) : Bytes := writeText w.tid w.ret w.buf w.isWritev

/-- The lines up to the end of the loop. -/
def liveLines (pid fd : Int) (calls : List WriteCall) : List Bytes :=
  (attachedText pid fd :: calls.map callText).map (snprintf 2048)

theorem liveLines_append (pid fd : Int) (calls calls' : List WriteCall) :
    liveLines pid fd (calls ++ calls') = liveLines pid fd calls ++ (calls'.map callText).map (snprintf 2048) := by
  rw [liveLines, liveLines, List.map_append, ← List.cons_append, List.map_append]

theorem streamLoop_writes_sock (pid fd : Int) (calls : List WriteCall) : ∀ c : Conn,
    (streamLoop pid fd (calls.map fun w => .write w.tid w.ret w.buf w.isWritev true) c).2.sock =
      sendAll c.sock ((calls.map callText).map (snprintf 2048)) := by
  induction calls with
  | nil => intro c; rfl
  | cons w calls ih =>
      intro c
      rw [List.map_cons, streamLoop, streamWriteCb, if_pos (.inr rfl), ih]
      rfl

/-- A poll sends nothing. -/
theorem streamLoop_poll_sock (pid fd : Int) (avail : Nat) (c : Conn) :
    (streamLoop pid fd [.poll avail] c).2.sock = c.sock := by
  rw [streamLoop]
  rcases streamPollCb c.recv avail with ⟨_ | _, rs⟩ <;> rfl

/-- **One pass** sends the lines of its calls. -/
theorem live_step_sock {s s' : Live} {r : Round} (hstep : liveStep st s r s') (hmalloc : r.mallocOk = true) :
    s'.conn.sock = sendAll s.conn.sock ((r.iter.calls.map callText).map (snprintf 2048)) := by
  obtain ⟨⟨-, hcalls, -⟩, -, hconn⟩ := hstep
  rw [hconn, Round.acts]
  split
  · next again hidle =>
      rw [hidle] at hcalls
      rw [streamLoop_poll_sock, show r.iter.calls = [] from hcalls]
      rfl
  · rw [hmalloc]
    exact streamLoop_writes_sock st.pid st.fd r.iter.calls s.conn

/-- **The lines of a run**, one for each call of `write_cb`, and these are the calls due. -/
theorem live_lines {rounds : List Round} {s : Live}
    (hrun : Lts.Run (Lts.Guarded (LiveAssumed seized) (liveStep st)) (liveStart st seized c) rounds s) :
    LoopInv st.sys st.fd seized s.loop ∧
      s.conn.sock = sendAll c.sock
        (liveLines st.pid st.fd (dueCalls st.sys st.fd (clampCapture st.maxCapture) s.loop.hist)) := by
  induction hrun with
  | nil => exact ⟨loopInv_start, rfl⟩
  | @snoc rounds s s' r _ hst ih =>
      obtain ⟨hinv, hsock⟩ := ih
      obtain ⟨⟨hass, -, hmalloc⟩, hstep⟩ := hst
      obtain ⟨hinv', hhist, hcalls⟩ := loopStep_spec hinv ⟨hass, hstep.1⟩
      refine ⟨hinv', ?_⟩
      rw [live_step_sock hstep hmalloc, hsock, hhist, dueCalls, liveLines_append, sendAll_append, hcalls]

end

/-! ## What the client makes of the lines -/

theorem objectLine_attached (pid fd : Int) :
    ObjectLine (attachedText pid fd)
      [typeMember (ascii "attached"), intMember (ascii "pid") pid, intMember (ascii "fd") fd] where
  eq_render := by
    delta attachedText
    simp only [typeMember, Json.render, Json.renderMembers, Json.Member.render, strMember, intMember,
      List.append_assoc, List.cons_append, List.nil_append,
      show ascii "\x7b\"type\":\"attached\",\"pid\":" =
        0x7b :: 0x22 :: (ascii "type" ++ 0x22 :: 0x3a :: 0x22 :: (ascii "attached" ++ 0x22 :: 0x2c :: 0x22 ::
          (ascii "pid" ++ [0x22, 0x3a]))) from rfl,
      show ascii ",\"fd\":" = 0x2c :: 0x22 :: (ascii "fd" ++ [0x22, 0x3a]) from rfl,
      show ascii "\x7d" = [0x7d] from rfl]
  ne_nil := List.cons_ne_nil _ _
  members := by
    simp only [List.forall_mem_cons]
    exact ⟨lineMember_type (by decide), lineMember_int (by decide) _, lineMember_int (by decide) _,
      List.forall_mem_nil _⟩

theorem objectLine_streamEnd : ObjectLine streamEndText [typeMember (ascii "stream_end")] where
  eq_render := rfl
  ne_nil := List.cons_ne_nil _ _
  members := by
    rw [List.forall_mem_singleton]
    exact lineMember_type (by decide)

theorem length_attachedText_lt {pid fd : Int} (hp : -(2 ^ 31) ≤ pid ∧ pid < 2 ^ 31)
    (hf : -(2 ^ 31) ≤ fd ∧ fd < 2 ^ 31) : (attachedText pid fd).length < 2048 := by
  have hpid := @length_decInt_le pid 10 (by decide) (by omega) (by omega)
  have hfd := @length_decInt_le fd 10 (by decide) (by omega) (by omega)
  delta attachedText
  simp only [List.length_append, show (ascii "\x7b\"type\":\"attached\",\"pid\":").length = 25 from rfl,
    show (ascii ",\"fd\":").length = 6 from rfl, show (ascii "\x7d").length = 1 from rfl]
  omega

theorem said_attached (pid fd : Int) : said (attachedText pid fd) = .skipped := by
  have hline := objectLine_attached pid fd
  have henv : unmarshalInto Envelope.fields Envelope.zero (attachedText pid fd) =
      some { Envelope.zero with type := ascii "attached" } := by
    rw [hline.unmarshalInto]
    refine foldlM_storeMember (storeMember_str rfl) ?_
    refine foldlM_storeMember (storeMember_unknown rfl) ?_
    refine foldlM_storeMember (storeMember_unknown rfl) ?_
    rfl
  rw [said, trimRight_printable hline.printable, henv]
  rfl

theorem said_streamEnd : said streamEndText = .ended := by
  have hline := objectLine_streamEnd
  have henv : unmarshalInto Envelope.fields Envelope.zero streamEndText =
      some { Envelope.zero with type := ascii "stream_end" } := by
    rw [hline.unmarshalInto]
    exact foldlM_storeMember (storeMember_str rfl) rfl
  rw [said, trimRight_printable hline.printable, henv]
  rfl

/-- A call with values of their C types. -/
structure TypedCall (w : WriteCall) : Prop where
  tid : -(2 ^ 31) ≤ w.tid ∧ w.tid < 2 ^ 31
  ret : -(2 ^ 63) ≤ w.ret ∧ w.ret < 2 ^ 63

/-- The event a call becomes. -/
def callEvent (w : WriteCall) : WriteEvent := writeEvent w.tid w.ret w.buf w.isWritev

theorem said_call {w : WriteCall} (h : TypedCall w) (hlen : w.buf.length ≤ 65536) :
    said (callText w) = .event (callEvent w) := by
  have hprint := printable_writeText w.tid w.ret w.buf w.isWritev
  rw [said, callText, trimRight_printable hprint, writeText_eq_render, writeEnvelope,
    writeEvent_decoded w.isWritev h.tid h.ret hlen]
  rfl

/-- Captures up to 1452 bytes make lines that fit in the formatting buffer, whatever the numbers are. -/
theorem length_callText_lt {w : WriteCall} (h : TypedCall w) (hlen : w.buf.length ≤ 1452) :
    (callText w).length < 2048 := by
  have htid := @length_decInt_le w.tid 10 (by decide) (by have := h.tid; omega) (by have := h.tid; omega)
  have hret := @length_decInt_le w.ret 19 (by decide) (by have := h.ret; omega) (by have := h.ret; omega)
  have hcap := @decNat_length_le w.buf.length 4 (by decide) (by omega)
  have hbool : (if w.isWritev then 4 else 5) ≤ 5 := by split <;> omega
  rw [callText, length_writeText, writeLen]
  omega

/-- **The session the client sees** of the lines of a stream: the events of the calls, and a clean end. -/
theorem seen_live {pid fd : Int} {calls : List WriteCall} (h : ∀ w ∈ calls, TypedCall w ∧ w.buf.length ≤ 1452)
    (lines : List Bytes) (last : Bytes) :
    seen (attachedText pid fd :: calls.map callText ++ streamEndText :: lines) last =
      (calls.map callEvent, .clean) := by
  rw [List.cons_append, seen, said_attached]
  induction calls with
  | nil =>
      simp only [List.map_nil, List.nil_append]
      rw [seen, said_streamEnd]
  | cons w calls ih =>
      rw [List.forall_mem_cons] at h
      simp only [List.map_cons, List.cons_append] at ih ⊢
      rw [seen, said_call h.1.1 (by omega), ih h.2]

theorem terminated_framed {lines : List Bytes} (h : ∀ l ∈ lines, 0x0a ∉ l) (s : Bytes) :
    terminated ((lines.map framed).flatten ++ s) = lines ++ terminated s := by
  induction lines with
  | nil => rfl
  | cons l lines ih =>
      rw [List.forall_mem_cons] at h
      rw [List.map_cons, List.flatten_cons, framed, List.append_assoc, List.append_assoc, List.singleton_append,
        terminated_line h.1, ih h.2, List.cons_append]

/-! ## The whole way -/

theorem expectedCalls_typed {sys : Sysno} {fd : Int} {maxCapture : Nat} {hist : List Wait} {wait : Wait}
    (h : TypedWait wait) :
    ∀ w ∈ expectedCalls sys fd maxCapture hist wait, TypedCall w ∧ w.buf.length ≤ maxCapture := by
  intro w hw
  cases wait with
  | idle again => cases hw
  | failed echild => cases hw
  | report t ev mem =>
      cases ev with
      | leave regs =>
          simp only [expectedCalls] at hw
          split at hw
          · cases hw
          · split at hw
            · rw [List.mem_singleton.mp hw]
              exact ⟨⟨h.1, h.2⟩, length_captured_le _ _ _ _ _ _⟩
            · cases hw
      | _ => cases hw

theorem dueCalls_typed {sys : Sysno} {fd : Int} {maxCapture : Nat} {hist : List Wait} (h : ∀ w ∈ hist, TypedWait w) :
    ∀ w ∈ dueCalls sys fd maxCapture hist, TypedCall w ∧ w.buf.length ≤ maxCapture := by
  induction hist with
  | nil => exact List.forall_mem_nil _
  | cons wait hist ih =>
      rw [List.forall_mem_cons] at h
      intro w hw
      rcases List.mem_append.mp hw with hw | hw
      · exact ih h.2 w hw
      · exact expectedCalls_typed h.1 w hw

section
variable {st : Stream} {seized : List (Int × Bool)} {c : Conn} {rounds : List Round} {s : Live}

theorem live_typed (hrun : Lts.Run (Lts.Guarded (LiveAssumed seized) (liveStep st)) (liveStart st seized c) rounds s) :
    ∀ w ∈ s.loop.hist, TypedWait w := by
  refine hrun.invariant (I := fun s => ∀ w ∈ s.loop.hist, TypedWait w) (List.forall_mem_nil _) ?_
  rintro s r s' hs ⟨⟨-, htyped, -⟩, ⟨-, -, hloop⟩, -⟩
  rw [hloop]
  exact List.forall_mem_cons.mpr ⟨htyped, hs⟩

/-- Where `hsed_trace_fd` returns, `handle_stream` adds the last line. -/
theorem handleStream_live {env : Env} (henv : env.stream st.pid st.fd = (.attached :: rounds.flatMap Round.acts, none))
    (hrun : Lts.Run (liveStep st) (liveStart st seized c) rounds s) :
    handleStream env c st.pid st.fd = s.conn.reply streamEndText := by
  have hconn := (streamLoop_live hrun).1
  rw [handleStream, henv]
  rcases hloop : streamLoop st.pid st.fd (.attached :: rounds.flatMap Round.acts) c with ⟨_ | _, c'⟩
  · rw [hloop] at hconn
    rw [← hconn]
    rfl
  · rw [hloop] at hconn
    rw [← hconn]
    rfl

end

theorem clampCapture_le {maxCapture : Nat} (h : maxCapture ≤ 1452) : clampCapture maxCapture ≤ 1452 := by
  unfold clampCapture maxCaptureHardLimit
  dsimp only
  split <;> split <;> omega

/-- The lines of a stream of short captures fit in the formatting buffer, and hold no newline. -/
theorem liveLines_eq {pid fd : Int} (hp : -(2 ^ 31) ≤ pid ∧ pid < 2 ^ 31) (hf : -(2 ^ 31) ≤ fd ∧ fd < 2 ^ 31)
    {calls : List WriteCall} (h : ∀ w ∈ calls, TypedCall w ∧ w.buf.length ≤ 1452) :
    liveLines pid fd calls = attachedText pid fd :: calls.map callText ∧
      ∀ l ∈ attachedText pid fd :: calls.map callText, 0x0a ∉ l := by
  constructor
  · rw [liveLines]
    refine (List.map_congr_left ?_).trans (List.map_id _)
    intro l hl
    rcases List.mem_cons.mp hl with rfl | hl
    · exact snprintf_of_lt (length_attachedText_lt hp hf)
    · obtain ⟨w, hw, rfl⟩ := List.mem_map.mp hl
      exact snprintf_of_lt (length_callText_lt (h w hw).1 (h w hw).2)
  · intro l hl
    rcases List.mem_cons.mp hl with rfl | hl
    · exact newline_notMem_of_printable (objectLine_attached pid fd).printable
    · obtain ⟨w, hw, rfl⟩ := List.mem_map.mp hl
      exact newline_notMem_of_printable (printable_writeText _ _ _ _)

/-- **What the client is sent**: the lines of the stream, and then the replies to whatever it asks for later. -/
theorem sent_live {st : Stream} (hp : -(2 ^ 31) ≤ st.pid ∧ st.pid < 2 ^ 31) (hf : -(2 ^ 31) ≤ st.fd ∧ st.fd < 2 ^ 31)
    {recv : List Recv} (hd : Delivers recv (Action.request st.pid st.fd .openStream)) (rest : List Recv) {sock : Sock}
    (hsock : sock.Healthy) {seized : List (Int × Bool)} {rounds : List Round} {s : Live}
    (hrun : Lts.Run (Lts.Guarded (LiveAssumed seized) (liveStep st)) (liveStart st seized ⟨rest, sock, []⟩) rounds s)
    {env : Nat → Env} (henv : (env 0).stream st.pid st.fd = (.attached :: rounds.flatMap Round.acts, none))
    (hcalls : ∀ w ∈ dueCalls st.sys st.fd (clampCapture st.maxCapture) s.loop.hist, TypedCall w ∧ w.buf.length ≤ 1452) :
    ∃ more, (finalSock sock (handleConnection env (recv ++ .byte 0x0a :: rest) sock)).wire.drop sock.wire.length =
      ((attachedText st.pid st.fd :: (dueCalls st.sys st.fd (clampCapture st.maxCapture) s.loop.hist).map callText ++
        [streamEndText]).map framed).flatten ++ more := by
  obtain ⟨hlines, -⟩ := liveLines_eq hp hf hcalls
  set calls := dueCalls st.sys st.fd (clampCapture st.maxCapture) s.loop.hist with hdue
  -- the first line served is the request, and its replies are the lines of the stream
  have hsent : (handleStream (env 0) ⟨rest, sock, []⟩ st.pid st.fd).sock =
      sendAll sock (attachedText st.pid st.fd :: calls.map callText ++ [streamEndText]) := by
    rw [handleStream_live henv hrun.of_guarded, ← hlines, sendAll_snoc, ← (live_lines hrun).2]
    rfl
  obtain ⟨later, hserved⟩ : ∃ later, handleConnection env (recv ++ .byte 0x0a :: rest) sock =
      ⟨Action.request st.pid st.fd .openStream, ⟨rest, sock, []⟩, handleStream (env 0) ⟨rest, sock, []⟩ st.pid st.fd⟩ ::
        later := ⟨_, connLoop_request hp hf hd _ 0 rest sock []⟩
  refine ⟨((later.flatMap Served.replies).map framed).flatten, ?_⟩
  rw [handleConnection_wire env _ hsock, List.drop_left, hserved, List.flatMap_cons, List.map_append,
    List.flatten_append]
  congr 3
  show (handleStream (env 0) ⟨rest, sock, []⟩ st.pid st.fd).sock.lines.drop sock.lines.length = _
  rw [hsent, sendAll_lines, List.drop_left]

/-- And what the client sees of it. -/
theorem seen_sent {pid fd : Int} (hp : -(2 ^ 31) ≤ pid ∧ pid < 2 ^ 31) (hf : -(2 ^ 31) ≤ fd ∧ fd < 2 ^ 31)
    {calls : List WriteCall} (hcalls : ∀ w ∈ calls, TypedCall w ∧ w.buf.length ≤ 1452) {bytes more : Bytes}
    (hbytes : bytes = ((attachedText pid fd :: calls.map callText ++ [streamEndText]).map framed).flatten ++ more) :
    seen (terminated bytes) (unfinished bytes) = (calls.map callEvent, .clean) := by
  obtain ⟨-, hnl⟩ := liveLines_eq hp hf hcalls
  have hnl' : ∀ l ∈ attachedText pid fd :: calls.map callText ++ [streamEndText], 0x0a ∉ l := by
    intro l hl
    rcases List.mem_append.mp hl with hl | hl
    · exact hnl l hl
    · rw [List.mem_singleton.mp hl]
      exact newline_notMem_of_printable objectLine_streamEnd.printable
  rw [hbytes, terminated_framed hnl', List.append_assoc, List.singleton_append, seen_live hcalls]

/-- The writes of a run, as C's types bound them. -/
theorem dueCalls_bounded {st : Stream} (hcap : st.maxCapture ≤ 1452) {seized : List (Int × Bool)} {c : Conn}
    {rounds : List Round} {s : Live}
    (hrun : Lts.Run (Lts.Guarded (LiveAssumed seized) (liveStep st)) (liveStart st seized c) rounds s) :
    ∀ w ∈ dueCalls st.sys st.fd (clampCapture st.maxCapture) s.loop.hist, TypedCall w ∧ w.buf.length ≤ 1452 := by
  intro w hw
  obtain ⟨htyped, hlen⟩ := dueCalls_typed (live_typed hrun) w hw
  exact ⟨htyped, hlen.trans (clampCapture_le hcap)⟩

/-- What a write is to the one who reads about it: thread, result, whether it was a `writev`, and the bytes. -/
def toldEvent (w : WriteEvent) : Int × Int × Bool × Bytes := (w.tid, w.ret, w.isWritev, w.data)

def toldCall (w : WriteCall) : Int × Int × Bool × Bytes := (w.tid, w.ret, w.isWritev, w.buf)

theorem toldEvent_callEvent (w : WriteCall) : toldEvent (callEvent w) = toldCall w := by
  show (w.tid, w.ret, w.isWritev, Base64.decodeString (hsedBase64Encode w.buf)) = _
  rw [decodeString_hsedBase64Encode]
  rfl

/-- **STREAM delivers what was captured.** The client asks for a descriptor of a process, however `recv` splits its
    request; the daemon traces, with any `--max-capture` up to 1452, in any run of the wait loop whose reports
    follow ptrace's rules and find room in the table and in which no `malloc` fails, until the peer stops it or no
    thread is left. Then repeated calls of `Next` return one event for each write the target completed on the
    descriptor, in the order of their exit stops, with its thread, result, kind and captured bytes (of a long
    write the first, of a `writev` what its segments hold); and after the last a clean end. -/
theorem stream_delivers_writes {st : Stream} (hp : -(2 ^ 31) ≤ st.pid ∧ st.pid < 2 ^ 31)
    (hf : -(2 ^ 31) ≤ st.fd ∧ st.fd < 2 ^ 31) (hcap : st.maxCapture ≤ 1452) {recv : List Recv}
    (hd : Delivers recv (Action.request st.pid st.fd .openStream)) (rest : List Recv) {sock : Sock}
    (hsock : sock.Healthy) {seized : List (Int × Bool)} {rounds : List Round} {s : Live}
    (hrun : Lts.Run (Lts.Guarded (LiveAssumed seized) (liveStep st)) (liveStart st seized ⟨rest, sock, []⟩) rounds s)
    {env : Nat → Env} (henv : (env 0).stream st.pid st.fd = (.attached :: rounds.flatMap Round.acts, none)) :
    let bytes := (finalSock sock (handleConnection env (recv ++ .byte 0x0a :: rest) sock)).wire.drop sock.wire.length
    (drain (bytes.length + 1) bytes).1.map toldEvent =
        (dueCalls st.sys st.fd (clampCapture st.maxCapture) s.loop.hist).map toldCall ∧
      (drain (bytes.length + 1) bytes).2 = .clean := by
  intro bytes
  have hcalls := dueCalls_bounded hcap hrun
  obtain ⟨more, hbytes⟩ := sent_live hp hf hd rest hsock hrun henv hcalls
  have hdrain : drain (bytes.length + 1) bytes =
      ((dueCalls st.sys st.fd (clampCapture st.maxCapture) s.loop.hist).map callEvent, .clean) := by
    rw [drain_eq bytes _ (Nat.lt_succ_self _)]
    exact seen_sent hp hf hcalls hbytes
  rw [hdrain]
  refine ⟨?_, rfl⟩
  rw [List.map_map]
  exact List.map_congr_left fun w _ => toldEvent_callEvent w

/-- A run goes on with the pass that is computed. -/
theorem live_round {st : Stream} {seized : List (Int × Bool)} {s₀ s : Live} {rounds : List Round} {r : Round}
    (hrun : Lts.Run (Lts.Guarded (LiveAssumed seized) (liveStep st)) s₀ rounds s) (hass : LiveAssumed seized s r)
    (hgo : s.loop.returned = false)
    (hcalls : r.iter.calls = (loopPass st.sys st.fd (clampCapture st.maxCapture) s.loop.tids r.iter.wait).calls)
    (hpoll : ∀ again, r.iter.wait = .idle again → again = (streamPollCb s.conn.recv r.avail).1) :
    Lts.Run (Lts.Guarded (LiveAssumed seized) (liveStep st)) s₀ (rounds ++ [r]) (liveNext st s r) :=
  hrun.snoc ⟨hass, ⟨hgo, hcalls, rfl⟩, hpoll, rfl⟩

/-- Descriptor 1 of process 7, with the numbers of x86-64. -/
def streamSeven : Stream := ⟨⟨1, 18, 20⟩, 7, 1, 200⟩

def allA : Memory := fun _ n => some (List.replicate n 65)

/-- Thread 7 enters a `write` of three bytes, -/
def entering : Round := ⟨⟨.report 7 (.enter ⟨1, 1, 4096, 3, 0⟩) allA, []⟩, 0, true⟩

/-- leaves it, -/
def leaving : Round := ⟨⟨.report 7 (.leave ⟨1, 1, 4096, 3, 3⟩) allA, [⟨7, 3, [65, 65, 65], false⟩]⟩, 0, true⟩

/-- and the client stops the stream. -/
def stopping : Round := ⟨⟨.idle false, []⟩, 5, true⟩

def writeThenStop : List Round := [entering, leaving, stopping]

def stopBytes : List Recv := (ascii "STOP\n").map .byte

def streamSevenEnv (i : Nat) : Env :=
  { catEnv i with stream := fun _ _ => (.attached :: writeThenStop.flatMap Round.acts, none) }

theorem live_seven :
    ∃ s, Lts.Run (Lts.Guarded (LiveAssumed [(7, true)]) (liveStep streamSeven))
      (liveStart streamSeven [(7, true)] ⟨stopBytes, Sock.fresh, []⟩) writeThenStop s ∧
      dueCalls streamSeven.sys streamSeven.fd (clampCapture streamSeven.maxCapture) s.loop.hist =
        [⟨7, 3, [65, 65, 65], false⟩] := by
  have hstart : Lts.Run (Lts.Guarded (LiveAssumed [(7, true)]) (liveStep streamSeven))
      (liveStart streamSeven [(7, true)] ⟨stopBytes, Sock.fresh, []⟩) [] _ := .nil
  have hentered := live_round (r := entering) hstart
    ⟨⟨by decide, by decide, by decide⟩, trivial, rfl⟩ rfl rfl fun again h => by cases h
  have hleft := live_round (r := leaving) hentered
    ⟨⟨by decide, by decide, by decide⟩, ⟨by decide, by decide⟩, rfl⟩ rfl rfl fun again h => by cases h
  have hstopped := live_round (r := stopping) hleft ⟨trivial, trivial, rfl⟩ rfl rfl fun again h => by cases h; rfl
  exact ⟨_, hstopped, rfl⟩

theorem delivers_seven :
    Delivers ((ascii "STREAM 7 1").map .byte) (Action.request streamSeven.pid streamSeven.fd .openStream) := rfl

theorem stream_delivers_three_bytes :
    let bytes := (finalSock Sock.fresh (handleConnection streamSevenEnv
      ((ascii "STREAM 7 1").map .byte ++ .byte 0x0a :: stopBytes) Sock.fresh)).wire.drop 0
    (drain (bytes.length + 1) bytes).1.map toldEvent = [(7, 3, false, [65, 65, 65])] ∧
      (drain (bytes.length + 1) bytes).2 = .clean := by
  obtain ⟨s, hrun, hdue⟩ := live_seven
  have henv : (streamSevenEnv 0).stream streamSeven.pid streamSeven.fd =
      (.attached :: writeThenStop.flatMap Round.acts, none) := rfl
  have hall := stream_delivers_writes (by decide) (by decide) (by decide) delivers_seven stopBytes Sock.fresh_healthy
    hrun henv
  rw [hdue] at hall
  exact hall

end EndToEnd
end Hsed
