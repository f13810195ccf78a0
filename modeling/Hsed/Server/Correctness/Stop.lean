import Hsed.Server.Server

/-!
# `Server.Correctness.Stop` — STOP during a STREAM

While a stream runs, each `stream_poll_cb` takes up to 256 bytes off the connection and looks for `STOP` in
them. It keeps nothing between two calls, and whatever it took is gone. So a `STOP` that arrives in two
pieces is not seen, and a command in the same piece behind it is not executed. `stop_handled_iff` says for
which divisions of the client's bytes neither happens.
-/

namespace Hsed
namespace Server

open CLib Wire

def stopWord : Bytes := ascii "STOP"

/-! ## Polls as chunks -/

/-- The sizes `recv` reports to the successive polls. -/
def pollSizes (acts : List StreamAct) : List Nat :=
  acts.filterMap fun a => match a with
    | .poll n => some n
    | _ => none

/-- The polls on chunks: has one asked to stop, and the chunks no poll has taken. -/
def pollChunks : List Bytes → Bool × List Bytes
  | [] => (false, [])
  | chunk :: chunks => if stopWord <:+: chunk then (true, chunks) else pollChunks chunks

theorem leadingBytes_map (s : Bytes) (rest : List Recv) : leadingBytes s.length (s.map .byte ++ rest) = s := by
  induction s with
  | nil => rfl
  | cons b s ih =>
      rw [List.map_cons, List.cons_append, List.length_cons, leadingBytes, ih]

/-- One poll that gets `chunk`. -/
theorem streamPollCb_chunk {chunk : Bytes} (hlen : chunk.length ≤ 256) (rest : List Recv) :
    streamPollCb (chunk.map .byte ++ rest) chunk.length = (!decide (stopWord <:+: chunk), rest) := by
  cases chunk with
  | nil =>
      have hno : ¬ stopWord <:+: [] := by decide
      rw [decide_eq_false hno]
      rfl
  | cons b s =>
      have hlead := leadingBytes_map (b :: s) rest
      rw [List.map_cons, List.cons_append] at hlead ⊢
      rw [streamPollCb, if_neg (by simp)]
      simp only [Nat.min_eq_left hlen, hlead]
      rw [← List.cons_append, ← List.map_cons, ← List.length_map (f := Recv.byte), List.drop_left]
      rfl

theorem streamWriteCb_recv (c : Conn) (tid ret : Int) (buf : Bytes) (isWritev mallocOk : Bool) :
    (streamWriteCb c tid ret buf isWritev mallocOk).recv = c.recv := by
  unfold streamWriteCb
  split <;> rfl

/-- The callbacks of a stream take chunks off the connection until one holds `STOP`. -/
theorem streamLoop_chunks (pid fd : Int) {acts : List StreamAct} : ∀ {chunks : List Bytes} {rest : List Recv} {c : Conn},
    pollSizes acts = chunks.map List.length → (∀ chunk ∈ chunks, chunk.length ≤ 256) →
    c.recv = chunks.flatten.map .byte ++ rest →
    (streamLoop pid fd acts c).1 = (pollChunks chunks).1 ∧
      (streamLoop pid fd acts c).2.recv = (pollChunks chunks).2.flatten.map .byte ++ rest := by
  induction acts with
  | nil =>
      intro chunks rest c hsizes _ hrecv
      obtain rfl : chunks = [] := by simpa [pollSizes] using hsizes.symm
      exact ⟨rfl, hrecv⟩
  | cons a acts ih =>
      intro chunks rest c hsizes hlens hrecv
      cases a with
      | attached => exact ih (c := streamAttachedCb c pid fd) hsizes hlens hrecv
      | write tid ret buf isWritev mallocOk =>
          exact ih (c := streamWriteCb c tid ret buf isWritev mallocOk) hsizes hlens
            ((streamWriteCb_recv c tid ret buf isWritev mallocOk).trans hrecv)
      | poll n =>
          cases chunks with
          | nil => simp [pollSizes] at hsizes
          | cons chunk chunks =>
              obtain ⟨rfl, hsizes'⟩ : n = chunk.length ∧ pollSizes acts = chunks.map List.length := by
                simpa [pollSizes] using hsizes
              obtain ⟨hlen, hlens'⟩ := List.forall_mem_cons.mp hlens
              rw [List.flatten_cons, List.map_append, List.append_assoc] at hrecv
              -- the poll takes the next chunk
              rw [streamLoop, hrecv, streamPollCb_chunk hlen, pollChunks]
              by_cases hstop : stopWord <:+: chunk
              · rw [if_pos hstop, decide_eq_true hstop]
                exact ⟨rfl, rfl⟩
              · rw [if_neg hstop, decide_eq_false hstop]
                exact ih hsizes' hlens' rfl

/-! ## Chunks -/

theorem pollChunks_true {chunks : List Bytes} (h : (pollChunks chunks).1 = true) :
    ∃ pre chunk, chunks = pre ++ chunk :: (pollChunks chunks).2 ∧ (∀ s ∈ pre, ¬ stopWord <:+: s) ∧
      stopWord <:+: chunk := by
  induction chunks with
  | nil => cases h
  | cons chunk chunks ih =>
      rw [pollChunks] at h ⊢
      by_cases hstop : stopWord <:+: chunk
      · rw [if_pos hstop]
        exact ⟨[], chunk, rfl, List.forall_mem_nil _, hstop⟩
      · rw [if_neg hstop] at h ⊢
        obtain ⟨pre, last, heq, hpre, hlast⟩ := ih h
        refine ⟨chunk :: pre, last, ?_, List.forall_mem_cons.mpr ⟨hstop, hpre⟩, hlast⟩
        rw [List.cons_append, ← heq]

theorem pollChunks_false {chunks : List Bytes} :
    (pollChunks chunks).1 = false ↔ ∀ s ∈ chunks, ¬ stopWord <:+: s := by
  induction chunks with
  | nil => simp [pollChunks]
  | cons chunk chunks ih =>
      rw [pollChunks, List.forall_mem_cons, ← ih]
      by_cases hstop : stopWord <:+: chunk <;> simp [hstop]

theorem pollChunks_append {pre : List Bytes} (hpre : ∀ s ∈ pre, ¬ stopWord <:+: s) (chunks : List Bytes) :
    pollChunks (pre ++ chunks) = pollChunks chunks := by
  induction pre with
  | nil => rfl
  | cons chunk pre ih =>
      rw [List.forall_mem_cons] at hpre
      rw [List.cons_append, pollChunks, if_neg hpre.1, ih hpre.2]

theorem not_infix_chunk {pre : List Bytes} (h : ¬ stopWord <:+: pre.flatten) : ∀ s ∈ pre, ¬ stopWord <:+: s :=
  fun _ hs hstop => h (hstop.trans (List.infix_of_mem_flatten hs))

/-- The first chunk after which the text contains `STOP`. -/
theorem first_stop {chunks : List Bytes} (h : stopWord <:+: chunks.flatten) :
    ∃ pre chunk post, chunks = pre ++ chunk :: post ∧ ¬ stopWord <:+: pre.flatten ∧
      stopWord <:+: (pre ++ [chunk]).flatten := by
  induction chunks using List.reverseRecOn with
  | nil => exact absurd h (by decide)
  | append_singleton chunks chunk ih =>
      by_cases hbefore : stopWord <:+: chunks.flatten
      · obtain ⟨pre, last, post, heq, hno, hyes⟩ := ih hbefore
        refine ⟨pre, last, post ++ [chunk], ?_, hno, hyes⟩
        rw [heq, List.append_assoc, List.cons_append]
      · exact ⟨chunks, chunk, [], rfl, hbefore, h⟩

/-- What the polls took. -/
def taken (chunks : List Bytes) : List Bytes := chunks.take (chunks.length - (pollChunks chunks).2.length)

theorem taken_append (chunks : List Bytes) : taken chunks ++ (pollChunks chunks).2 = chunks := by
  have hsuffix : (pollChunks chunks).2 <:+ chunks := by
    induction chunks with
    | nil => exact List.suffix_rfl
    | cons chunk chunks ih =>
        rw [pollChunks]
        split
        · exact List.suffix_cons _ _
        · exact ih.trans (List.suffix_cons _ _)
  exact List.suffix_iff_eq_append.mp hsuffix

theorem taken_of_false {chunks : List Bytes} (h : (pollChunks chunks).1 = false) : taken chunks = chunks := by
  have hrest : (pollChunks chunks).2 = [] := by
    induction chunks with
    | nil => rfl
    | cons chunk chunks ih =>
        rw [pollChunks] at h ⊢
        split at h
        · cases h
        next hno =>
          rw [if_neg hno]
          exact ih h
  rw [taken, hrest, List.length_nil, Nat.sub_zero, List.take_length]

/-- No `STOP` is completed by a chunk that does not hold one whole. -/
def StopWhole (chunks : List Bytes) : Prop :=
  ∀ pre chunk post, chunks = pre ++ chunk :: post → ¬ stopWord <:+: pre.flatten →
    stopWord <:+: (pre ++ [chunk]).flatten → stopWord <:+: chunk

theorem stopWhole_iff (chunks : List Bytes) :
    (∀ cs, cs <+: chunks → ((pollChunks cs).1 = true ↔ stopWord <:+: (taken cs).flatten)) ↔ StopWhole chunks := by
  constructor
  · intro h pre chunk post heq hno hyes
    have hpre : pre ++ [chunk] <+: chunks := ⟨post, by rw [heq, List.append_assoc, List.singleton_append]⟩
    have hrun := pollChunks_append (not_infix_chunk hno) [chunk]
    by_contra hmissed
    -- the polls go on, although the text they took holds `STOP`
    have hon : (pollChunks (pre ++ [chunk])).1 = false := by
      rw [hrun, pollChunks, if_neg hmissed]
      rfl
    have hstop := (h _ hpre).mpr (by rw [taken_of_false hon]; exact hyes)
    rw [hon] at hstop
    cases hstop
  · intro h cs hcs
    cases hb : (pollChunks cs).1 with
    | true =>
        obtain ⟨pre, chunk, heq, -, hchunk⟩ := pollChunks_true hb
        have htaken : taken cs = pre ++ [chunk] := by
          have happ := taken_append cs
          conv at happ => rhs; rw [heq, ← List.singleton_append, ← List.append_assoc]
          exact List.append_cancel_right happ
        rw [htaken]
        refine iff_of_true rfl (hchunk.trans (List.infix_of_mem_flatten ?_))
        exact List.mem_append_right _ (List.mem_singleton.mpr rfl)
    | false =>
        rw [taken_of_false hb]
        refine iff_of_false (by decide) ?_
        intro hyes
        obtain ⟨pre, chunk, post, rfl, hno, hdone⟩ := first_stop hyes
        obtain ⟨more, rfl⟩ := hcs
        have hwhole := h pre chunk (post ++ more) (by rw [List.append_assoc, List.cons_append]) hno hdone
        exact pollChunks_false.mp hb chunk (by simp) hwhole

/-! ## What follows the line of the STOP -/

/-- The text after the line in which the first `STOP` stands. -/
def afterStop : Bytes → Bytes
  | [] => []
  | b :: s => if stopWord <+: b :: s then ((b :: s).dropWhile (· != 0x0a)).drop 1 else afterStop s

/-- The line ends in the text, or it goes on behind it. -/
theorem afterStop_append {s : Bytes} (h : stopWord <:+: s) (r : Bytes) :
    afterStop (s ++ r) = afterStop s ++ r ∨ (afterStop s = [] ∧ afterStop (s ++ r) <:+ r) := by
  induction s with
  | nil => exact absurd h (by decide)
  | cons b s ih =>
      by_cases hpre : stopWord <+: b :: s
      · have hpre' : stopWord <+: b :: (s ++ r) := hpre.trans ⟨r, rfl⟩
        rw [List.cons_append, afterStop, afterStop, if_pos hpre, if_pos hpre', ← List.cons_append]
        by_cases hline : (b :: s).dropWhile (· != 0x0a) = []
        · refine .inr ⟨by rw [hline, List.drop_nil], ?_⟩
          have hall := List.dropWhile_eq_nil_iff.mp hline
          rw [List.dropWhile_append_of_pos hall]
          exact (List.drop_suffix _ _).trans (List.dropWhile_suffix _)
        · refine .inl ?_
          rw [dropWhile_prefix_append hline, List.drop_append_of_le_length (List.length_pos_iff.mpr hline)]
      · have hs : stopWord <:+: s := (List.infix_cons_iff.mp h).resolve_left hpre
        have hpre' : ¬ stopWord <+: b :: (s ++ r) := by
          intro hlong
          have hlen : stopWord.length ≤ (b :: s).length := hs.length_le.trans (Nat.le_succ _)
          exact hpre (List.prefix_of_prefix_length_le hlong ⟨r, rfl⟩ hlen)
        rw [List.cons_append, afterStop, afterStop, if_neg hpre, if_neg hpre']
        exact ih hs

theorem afterStop_suffix_iff {s : Bytes} (h : stopWord <:+: s) (r : Bytes) (tail : List Recv) :
    (afterStop (s ++ r)).map Recv.byte ++ tail <:+ r.map .byte ++ tail ↔ afterStop s = [] := by
  constructor
  · intro hsuf
    rcases afterStop_append h r with heq | ⟨hnil, -⟩
    · have hlen := hsuf.length_le
      rw [heq] at hlen
      simp only [List.length_append, List.length_map] at hlen
      exact List.length_eq_zero_iff.mp (by omega)
    · exact hnil
  · intro hnil
    rcases afterStop_append h r with heq | ⟨-, hsuf⟩
    · rw [heq, hnil, List.nil_append]
    · obtain ⟨u, hu⟩ := hsuf
      refine ⟨u.map .byte, ?_⟩
      rw [← List.append_assoc, ← List.map_append, hu]

/-! ## The stream -/

/-- The bytes taken off the connection between two moments. -/
def consumed (c c' : Conn) : Bytes := leadingBytes (c.recv.length - c'.recv.length) c.recv

/-- STOP is handled: at every moment the stream has been asked to stop iff the bytes taken so far contain `STOP`,
    and when it is, what follows the line of the `STOP` is still there for `handle_connection`. -/
structure StopHandled (env : Env) (c : Conn) (pid fd : Int) (sent : Bytes) (tail : List Recv) : Prop where
  recognised : ∀ acts, acts <+: (env.stream pid fd).1 →
    ((streamLoop pid fd acts c).1 = true ↔ stopWord <:+: consumed c (streamLoop pid fd acts c).2)
  remains : (streamLoop pid fd (env.stream pid fd).1 c).1 = true →
    (afterStop sent).map .byte ++ tail <:+ (handleStream env c pid fd).recv

/-- The chunk that completes the first `STOP` holds one whole, and nothing behind the line of that `STOP`. -/
def StopAlone (chunks : List Bytes) : Prop :=
  ∀ pre chunk post, chunks = pre ++ chunk :: post → ¬ stopWord <:+: pre.flatten →
    stopWord <:+: (pre ++ [chunk]).flatten → stopWord <:+: chunk ∧ afterStop (pre ++ [chunk]).flatten = []

theorem handleStream_recv (env : Env) (c : Conn) (pid fd : Int) :
    (handleStream env c pid fd).recv = (streamLoop pid fd (env.stream pid fd).1 c).2.recv := by
  unfold handleStream
  split
  next heq => rw [heq]; rfl
  next heq =>
    rw [heq]
    split <;> rfl

section
variable {env : Env} {c : Conn} {pid fd : Int} {chunks : List Bytes} {later : Bytes} {tail : List Recv}

theorem consumed_chunks {acts : List StreamAct} {rest : List Recv} (hsizes : pollSizes acts = chunks.map List.length)
    (hlens : ∀ chunk ∈ chunks, chunk.length ≤ 256) (hrecv : c.recv = chunks.flatten.map .byte ++ rest) :
    consumed c (streamLoop pid fd acts c).2 = (taken chunks).flatten := by
  obtain ⟨-, hleft⟩ := streamLoop_chunks pid fd hsizes hlens hrecv
  have hsplit : chunks.flatten = (taken chunks).flatten ++ (pollChunks chunks).2.flatten := by
    rw [← List.flatten_append, taken_append]
  rw [consumed, hleft, hrecv, hsplit, List.map_append, List.append_assoc]
  simp only [List.length_append, List.length_map, Nat.add_sub_cancel]
  exact leadingBytes_map _ _

/-- The moments of a stream are the beginnings of its list of chunks. -/
theorem recognised_iff (hsizes : pollSizes (env.stream pid fd).1 = chunks.map List.length)
    (hlens : ∀ chunk ∈ chunks, chunk.length ≤ 256) (hrecv : c.recv = (chunks.flatten ++ later).map .byte ++ tail) :
    (∀ acts, acts <+: (env.stream pid fd).1 →
      ((streamLoop pid fd acts c).1 = true ↔ stopWord <:+: consumed c (streamLoop pid fd acts c).2)) ↔
      StopWhole chunks := by
  rw [← stopWhole_iff]
  -- one beginning of the callbacks and of the chunks
  have hmoment : ∀ {acts : List StreamAct} {cs : List Bytes}, cs <+: chunks → pollSizes acts = cs.map List.length →
      (((streamLoop pid fd acts c).1 = true ↔ stopWord <:+: consumed c (streamLoop pid fd acts c).2) ↔
        ((pollChunks cs).1 = true ↔ stopWord <:+: (taken cs).flatten)) := by
    intro acts cs hcs hacts
    obtain ⟨more, hmore⟩ := hcs
    have hlens' : ∀ chunk ∈ cs, chunk.length ≤ 256 := fun chunk h => hlens chunk (hmore ▸ List.mem_append_left _ h)
    have hrecv' : c.recv = cs.flatten.map .byte ++ ((more.flatten ++ later).map .byte ++ tail) := by
      rw [hrecv, ← hmore, List.flatten_append]
      simp only [List.map_append, List.append_assoc]
    rw [(streamLoop_chunks pid fd hacts hlens' hrecv').1, consumed_chunks hacts hlens' hrecv']
  constructor
  · intro h cs hcs
    obtain ⟨acts, hacts, heq⟩ := List.prefix_filterMap_iff.mp (hsizes ▸ hcs.map List.length :
      cs.map List.length <+: pollSizes (env.stream pid fd).1)
    exact (hmoment hcs heq.symm).mp (h acts hacts)
  · intro h acts hacts
    have hpre : pollSizes acts <+: chunks.map List.length := hsizes ▸ hacts.filterMap _
    obtain ⟨cs, hcs, heq⟩ := List.prefix_map_iff.mp hpre
    exact (hmoment hcs heq).mpr (h cs hcs)

theorem stopAlone_iff : StopAlone chunks ↔ StopWhole chunks ∧
    ∀ pre chunk post, chunks = pre ++ chunk :: post → ¬ stopWord <:+: pre.flatten →
      stopWord <:+: (pre ++ [chunk]).flatten → afterStop (pre ++ [chunk]).flatten = [] := by
  constructor
  · intro h
    exact ⟨fun pre chunk post heq hno hyes => (h pre chunk post heq hno hyes).1,
      fun pre chunk post heq hno hyes => (h pre chunk post heq hno hyes).2⟩
  · rintro ⟨hwhole, hnone⟩ pre chunk post heq hno hyes
    exact ⟨hwhole pre chunk post heq hno hyes, hnone pre chunk post heq hno hyes⟩

/-- When no `STOP` is missed, the polls stop at the chunk that completes the first one. -/
theorem pollChunks_first (hwhole : StopWhole chunks) {pre post : List Bytes} {chunk : Bytes}
    (heq : chunks = pre ++ chunk :: post) (hno : ¬ stopWord <:+: pre.flatten)
    (hyes : stopWord <:+: (pre ++ [chunk]).flatten) : pollChunks chunks = (true, post) := by
  rw [heq, pollChunks_append (not_infix_chunk hno), pollChunks, if_pos (hwhole pre chunk post heq hno hyes)]

/-- **STOP, however the bytes are split.** A client sends `chunks.flatten ++ later` while its STREAM runs, and the
    polls receive it chunk by chunk. STOP is handled iff the chunk that completes the first `STOP` holds one whole
    and ends with that line at the latest. -/
theorem stop_handled_iff (hsizes : pollSizes (env.stream pid fd).1 = chunks.map List.length)
    (hlens : ∀ chunk ∈ chunks, chunk.length ≤ 256) (hrecv : c.recv = (chunks.flatten ++ later).map .byte ++ tail) :
    StopHandled env c pid fd (chunks.flatten ++ later) tail ↔ StopAlone chunks := by
  have hrec := recognised_iff hsizes hlens hrecv
  have hrecv' : c.recv = chunks.flatten.map .byte ++ (later.map .byte ++ tail) := by
    rw [hrecv, List.map_append, List.append_assoc]
  obtain ⟨hasked, hleft⟩ := streamLoop_chunks pid fd hsizes hlens hrecv'
  -- what remains, once the polls have stopped at `chunk`
  have hremains : ∀ {pre post : List Bytes} {chunk : Bytes}, StopWhole chunks → chunks = pre ++ chunk :: post →
      ¬ stopWord <:+: pre.flatten → stopWord <:+: (pre ++ [chunk]).flatten →
      ((afterStop (chunks.flatten ++ later)).map Recv.byte ++ tail <:+ (handleStream env c pid fd).recv ↔
        afterStop (pre ++ [chunk]).flatten = []) := by
    intro pre post chunk hwhole heq hno hyes
    have hsent : chunks.flatten ++ later = (pre ++ [chunk]).flatten ++ (post.flatten ++ later) := by
      rw [heq, ← List.singleton_append, ← List.append_assoc, List.flatten_append, List.append_assoc]
    have hrest : post.flatten.map Recv.byte ++ (later.map .byte ++ tail) = (post.flatten ++ later).map .byte ++ tail := by
      rw [List.map_append, List.append_assoc]
    rw [handleStream_recv, hleft, pollChunks_first hwhole heq hno hyes, hsent, hrest]
    exact afterStop_suffix_iff hyes _ tail
  rw [stopAlone_iff]
  constructor
  · intro h
    have hwhole := hrec.mp h.recognised
    refine ⟨hwhole, ?_⟩
    intro pre chunk post heq hno hyes
    refine (hremains hwhole heq hno hyes).mp (h.remains ?_)
    rw [hasked, pollChunks_first hwhole heq hno hyes]
  · rintro ⟨hwhole, hnone⟩
    refine ⟨hrec.mpr hwhole, ?_⟩
    intro hstop
    rw [hasked] at hstop
    obtain ⟨p, s, heq', -, hs⟩ := pollChunks_true hstop
    have hyes : stopWord <:+: chunks.flatten :=
      hs.trans (List.infix_of_mem_flatten (by rw [heq']; simp))
    obtain ⟨pre, chunk, post, heq, hno, hdone⟩ := first_stop hyes
    exact (hremains hwhole heq hno hdone).mpr (hnone pre chunk post heq hno hdone)

end

/-- A stream that only polls, and is told how many bytes wait each time. -/
def pollEnv (sizes : List Nat) : Env where
  scan _ _ _ := none
  stats _ _ := none
  truncate _ _ := .error []
  kill _ _ := .ok
  stream _ _ := (sizes.map .poll, none)
  strerror := []

/-- A client that has sent `text`. -/
def talking (text : Bytes) : Conn := ⟨text.map .byte, ⟨[], [], []⟩, []⟩

/-- `STOP` alone in its chunk, and a `PING` behind it. -/
theorem stop_handled_ping :
    StopHandled (pollEnv [0, 5]) (talking (ascii "STOP\nPING\n")) 100 3 (ascii "STOP\nPING\n") [] := by
  refine (@stop_handled_iff _ _ 100 3 [[], ascii "STOP\n"] (ascii "PING\n") [] rfl (by decide) rfl).mpr ?_
  intro pre chunk post heq hno hyes
  rcases pre with _ | ⟨c₁, _ | ⟨c₂, pre⟩⟩
  · obtain ⟨rfl, rfl⟩ := List.cons_eq_cons.mp heq
    exact absurd hyes (by decide)
  · obtain ⟨rfl, hlast⟩ := List.cons_eq_cons.mp heq
    obtain ⟨rfl, rfl⟩ := List.cons_eq_cons.mp hlast
    exact ⟨by decide, by decide⟩
  · exact absurd (congrArg List.length heq) (by simp)

/-- `ST` and `OP` in two chunks go by unseen, and with `STOP` and `PING` in one chunk the `PING` is lost. -/
theorem stop_missed :
    ¬ StopHandled (pollEnv [2, 3]) (talking (ascii "STOP\n")) 100 3 (ascii "STOP\n") [] ∧
    ¬ StopHandled (pollEnv [10]) (talking (ascii "STOP\nPING\n")) 100 3 (ascii "STOP\nPING\n") [] := by
  constructor
  · intro h
    exact absurd (h.recognised _ (List.prefix_refl _)) (by decide)
  · intro h
    exact absurd (h.remains (by decide)) (by decide)

end Server
end Hsed
