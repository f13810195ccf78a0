import Hsed.Wire.Correctness.Line

/-!
# `Wire.Correctness.Send` — what one `hsed_send_line` puts on the wire, whatever `send` does

`hsedSendLine_spec`: a beginning of the line and its newline, all of it exactly when the call returns 0.
Nothing at all goes out exactly when the schedule refuses the first byte (`refused`).

For schedules without an end the call is taken one `send` at a time: `SendState.Ok` is what each of them keeps,
`sendRun_progress` says why the call ends, and `sendLoop_eq_finish` that it is the same call.
-/

namespace Hsed
namespace Wire

open CLib

/-- A line with its newline. -/
def framed (json : Bytes) : Bytes := json ++ [0x0a]

theorem length_framed (json : Bytes) : (framed json).length = json.length + 1 := by
  rw [framed, List.length_append, List.length_singleton]

/-- The next `send` that does not accept zero bytes or get interrupted fails. -/
def refused : List SendRes → Bool
  | .err :: _ => true
  | .eintr :: rs => refused rs
  | .accept 0 :: rs => refused rs
  | _ => false

theorem sendLoop_spec (json : Bytes) (rs : List SendRes) : ∀ (sent : Nat) (wire : Bytes),
    sent ≤ json.length + 1 →
    ∃ k rest, sent + k ≤ json.length + 1 ∧
      sendLoop json rs sent wire =
        (if sent + k = json.length + 1 then 0 else -1, wire ++ ((framed json).drop sent).take k, rest) ∧
      (sent < json.length + 1 → (k = 0 ↔ refused rs = true)) := by
  induction rs with
  -- no more results: the rest is accepted at once
  | nil =>
      intro sent wire hle
      refine ⟨json.length + 1 - sent, [], by omega, ?_, ?_⟩
      · rw [sendLoop, if_pos (by omega), framed, List.take_of_length_le (by simp)]
      · intro hlt
        simp only [refused, Bool.false_eq_true, iff_false]
        omega
  | cons r rs ih =>
      intro sent wire hle
      by_cases hlt : sent < json.length + 1
      · cases r with
        | err =>
            refine ⟨0, rs, hle, ?_, fun _ => by simp [refused]⟩
            have hcut : ¬ sent + 0 = json.length + 1 := by omega
            rw [sendLoop, if_pos hlt, if_neg hcut, List.take_zero, List.append_nil]
        | eintr =>
            obtain ⟨k, rest, hk, heq, hz⟩ := ih sent wire hle
            refine ⟨k, rest, hk, ?_, hz⟩
            rw [sendLoop, if_pos hlt]
            exact heq
        -- what is accepted now, and then what the rest of the loop sends
        | accept n =>
            obtain ⟨hnext, hdata⟩ := chunk_step hlt n
            generalize hchunk : (if sent < json.length then json.drop sent else [0x0a]) = chunk at hnext hdata
            obtain ⟨k, rest, hk, heq, hz⟩ := ih (sent + min n chunk.length) (wire ++ chunk.take n) hnext
            refine ⟨min n chunk.length + k, rest, by omega, ?_, ?_⟩
            · rw [sendLoop, if_pos hlt]
              simp only [hchunk]
              rw [heq, Nat.add_assoc]
              have htake : ((framed json).drop sent).take (min n chunk.length + k) =
                  chunk.take n ++ ((framed json).drop (sent + min n chunk.length)).take k := by
                rw [framed, ← hdata, ← List.length_take, List.take_length_add_append]
              rw [htake, List.append_assoc]
            · intro _
              -- there is something to send, so a positive count sends something
              have hpos : 0 < chunk.length := by
                rw [← hchunk]
                split
                · rw [List.length_drop]; omega
                · exact Nat.zero_lt_one
              cases n with
              | zero =>
                  rw [refused]
                  simpa using hz (by simpa using hlt)
              | succ n =>
                  simp only [refused, Bool.false_eq_true, iff_false]
                  omega
      · -- all is sent
        have heq : sent = json.length + 1 := by omega
        refine ⟨0, r :: rs, hle, ?_, fun h => absurd h hlt⟩
        have hfull : sent + 0 = json.length + 1 := heq
        rw [sendLoop, if_neg hlt, if_pos hfull, List.take_zero, List.append_nil]

/-- **One call.** It puts a beginning of the framed line on the wire: all of it iff it returns 0, nothing iff
    the schedule refuses the first byte. -/
theorem hsedSendLine_spec (sock : Sock) (json : Bytes) :
    ∃ k ≤ (framed json).length, (hsedSendLine sock json).2.wire = sock.wire ++ (framed json).take k ∧
      ((hsedSendLine sock json).1 = 0 ↔ k = (framed json).length) ∧ (k = 0 ↔ refused sock.sends = true) := by
  obtain ⟨k, rest, hk, heq, hz⟩ := sendLoop_spec json sock.sends 0 sock.wire (Nat.zero_le _)
  rw [Nat.zero_add] at hk heq
  rw [length_framed]
  refine ⟨k, hk, ?_, ?_, hz (Nat.succ_pos _)⟩
  · rw [hsedSendLine, heq]
    rfl
  · rw [hsedSendLine, heq]
    by_cases hfull : k = json.length + 1 <;> simp [hfull]

/-! ## One call, one `send` at a time -/

/-- Every call that accepts takes between one byte and what it is offered. -/
def Legal (json : Bytes) (schedule : Nat → SendRes) : Prop :=
  ∀ k sent wire n, sendRun json schedule k = .looping sent wire → schedule k = .accept n →
    1 ≤ n ∧ n ≤ (sendChunk json sent).length

section

variable {json : Bytes} {schedule : Nat → SendRes} {sent : Nat} {wire : Bytes} {rc : Int}

theorem sendRun_succ (json : Bytes) (schedule : Nat → SendRes) (k : Nat) :
    sendRun json schedule (k + 1) = sendNext json (sendRun json schedule k) (schedule k) := by
  unfold sendRun sendAfter
  rw [List.range_succ, List.map_append, List.foldl_append]
  rfl

/-- The invariant: what was accepted is the beginning of the line that `sent` says, and a return tells whether it
    is all. -/
def SendState.Ok (json : Bytes) : SendState → Prop
  | .looping sent wire => sent < (framed json).length ∧ wire = (framed json).take sent
  | .returned rc wire =>
    rc = 0 ∧ wire = framed json ∨ rc = -1 ∧ ∃ k < (framed json).length, wire = (framed json).take k

theorem ok_sendTest (json : Bytes) (sent : Nat) :
    (sendTest json sent ((framed json).take sent)).Ok json := by
  unfold sendTest
  rw [← length_framed]
  split
  case isTrue hlt => exact ⟨hlt, rfl⟩
  case isFalse hend => exact .inl ⟨rfl, List.take_of_length_le (Nat.le_of_not_lt hend)⟩

/-- What an accepting call adds. -/
theorem take_sendChunk (hsent : sent < (framed json).length) (n : Nat) :
    (framed json).take sent ++ (sendChunk json sent).take n =
      (framed json).take (sent + min n (sendChunk json sent).length) := by
  rw [length_framed] at hsent
  obtain ⟨-, hdata⟩ := chunk_step hsent n
  rw [List.take_add, framed, ← hdata]
  show _ ++ (sendChunk json sent).take n =
    _ ++ ((sendChunk json sent).take n ++ _).take (min n (sendChunk json sent).length)
  rw [← List.length_take, List.take_left]

/-- **Step.** -/
theorem SendState.Ok.next {s : SendState} (h : s.Ok json) (r : SendRes) : (sendNext json s r).Ok json := by
  cases s with
  | returned rc wire => exact h
  | looping sent wire =>
      obtain ⟨hsent, rfl⟩ := h
      cases r with
      | err => exact .inr ⟨rfl, sent, hsent, rfl⟩
      | eintr => exact ok_sendTest json sent
      | accept n =>
          have htake := take_sendChunk hsent n
          show (sendTest json _ _).Ok json
          rw [htake]
          exact ok_sendTest json _

/-- **Run.** -/
theorem ok_sendRun (json : Bytes) (schedule : Nat → SendRes) (k : Nat) : (sendRun json schedule k).Ok json := by
  induction k with
  | zero => exact ok_sendTest json 0
  | succ k ih =>
      rw [sendRun_succ]
      exact ih.next (schedule k)

theorem SendState.Ok.wire_isPrefix {s : SendState} (h : s.Ok json) : s.wire <+: framed json := by
  cases s with
  | looping sent wire =>
      obtain ⟨-, rfl⟩ := h
      exact List.take_prefix _ _
  | returned rc wire =>
      rcases h with ⟨-, rfl⟩ | ⟨-, k, -, rfl⟩
      · exact List.prefix_rfl
      · exact List.take_prefix _ _

/-- A full line is told from a cut one. -/
theorem SendState.Ok.rc_eq_zero_iff (h : (SendState.returned rc wire).Ok json) : rc = 0 ↔ wire = framed json := by
  rcases h with ⟨rfl, rfl⟩ | ⟨rfl, k, hk, rfl⟩
  · exact iff_of_true rfl rfl
  · refine iff_of_false (by decide) ?_
    intro hall
    rw [List.take_eq_self_iff] at hall
    omega

/-! ### The return code -/

/-- A `send` of the call has failed before the `k`-th one. -/
def Failed (json : Bytes) (schedule : Nat → SendRes) (k : Nat) : Prop :=
  ∃ j < k, (∃ sent wire, sendRun json schedule j = .looping sent wire) ∧ schedule j = .err

theorem sendTest_ne_failed (json : Bytes) (sent : Nat) (wire wire' : Bytes) :
    sendTest json sent wire ≠ .returned (-1) wire' := by
  unfold sendTest
  split
  · nofun
  · intro h
    cases h

/-- **Run.** A call has returned -1 iff one of its `send`s failed. -/
theorem returned_iff_failed (json : Bytes) (schedule : Nat → SendRes) (k : Nat) :
    (∃ wire, sendRun json schedule k = .returned (-1) wire) ↔ Failed json schedule k := by
  induction k with
  | zero =>
      constructor
      · rintro ⟨wire, h⟩
        exact absurd h (sendTest_ne_failed json 0 [] wire)
      · rintro ⟨j, hj, -⟩
        omega
  | succ k ih =>
      have hlater : Failed json schedule (k + 1) ↔ Failed json schedule k ∨
          (∃ sent wire, sendRun json schedule k = .looping sent wire) ∧ schedule k = .err := by
        unfold Failed
        constructor
        · rintro ⟨j, hj, h⟩
          rcases Nat.lt_succ_iff_lt_or_eq.mp hj with hlt | rfl
          · exact .inl ⟨j, hlt, h⟩
          · exact .inr h
        · rintro (⟨j, hlt, h⟩ | h)
          · exact ⟨j, Nat.lt_succ_of_lt hlt, h⟩
          · exact ⟨k, Nat.lt_succ_self k, h⟩
      rw [hlater, ← ih, sendRun_succ]
      cases hs : sendRun json schedule k with
      | returned rc wire => simp [sendNext]
      | looping sent wire =>
          cases hr : schedule k with
          | err => simp [sendNext]
          | eintr => simp [sendNext, sendTest_ne_failed]
          | accept n => simp [sendNext, sendTest_ne_failed]

/-! ### The call ends -/

/-- Progress: an uninterrupted call is done, or has sent one byte more. -/
theorem sendRun_progress (hlegal : Legal json schedule) {N : Nat} (hN : ∀ k ≥ N, schedule k ≠ .eintr) (d : Nat) :
    (∃ rc wire, sendRun json schedule (N + d) = .returned rc wire) ∨
      ∃ sent wire, sendRun json schedule (N + d) = .looping sent wire ∧ d ≤ sent := by
  induction d with
  | zero =>
      cases hs : sendRun json schedule (N + 0) with
      | returned rc wire => exact .inl ⟨rc, wire, rfl⟩
      | looping sent wire => exact .inr ⟨sent, wire, rfl, Nat.zero_le _⟩
  | succ d ih =>
      rw [← Nat.add_assoc, sendRun_succ]
      rcases ih with ⟨rc, wire, hs⟩ | ⟨sent, wire, hs, hd⟩
      · rw [hs]
        exact .inl ⟨rc, wire, rfl⟩
      · cases hr : schedule (N + d) with
        | eintr => exact absurd hr (hN _ (Nat.le_add_right N d))
        | err =>
            rw [hs]
            exact .inl ⟨-1, wire, rfl⟩
        | accept n =>
            obtain ⟨hpos, hle⟩ := hlegal _ sent wire n hs hr
            rw [hs]
            simp only [sendNext, sendTest, Nat.min_eq_left hle]
            split
            · exact .inr ⟨_, _, rfl, by omega⟩
            · exact .inl ⟨_, _, rfl⟩

theorem sendRun_returns (hlegal : Legal json schedule) (hfin : {k | schedule k = .eintr}.Finite) :
    ∃ k rc wire, sendRun json schedule k = .returned rc wire := by
  obtain ⟨N, hN⟩ := hfin.bddAbove
  have hlater : ∀ k ≥ N + 1, schedule k ≠ .eintr := by
    intro k hk heintr
    have := hN heintr
    omega
  rcases sendRun_progress hlegal hlater ((framed json).length) with ⟨rc, wire, hs⟩ | ⟨sent, wire, hs, hd⟩
  · exact ⟨_, rc, wire, hs⟩
  · have hok := ok_sendRun json schedule (N + 1 + (framed json).length)
    rw [hs] at hok
    exact absurd hok.1 (Nat.not_lt.mpr hd)

/-! ### The whole call -/

/-- The calls that remain accept all they are offered. -/
def SendState.finish (json : Bytes) : SendState → Int × Bytes
  | .looping sent wire => (0, wire ++ (framed json).drop sent)
  | .returned rc wire => (rc, wire)

theorem foldl_sendNext_returned (json : Bytes) (rs : List SendRes) (rc : Int) (wire : Bytes) :
    rs.foldl (sendNext json) (.returned rc wire) = .returned rc wire := by
  induction rs with
  | nil => rfl
  | cons r rs ih => exact ih

/-- The loop with its list of results is the run through them. -/
theorem sendLoop_eq_finish (json : Bytes) (rs : List SendRes) (sent : Nat) (wire₀ wire : Bytes) :
    (sendLoop json rs sent (wire₀ ++ wire)).1 = ((rs.foldl (sendNext json) (sendTest json sent wire)).finish json).1 ∧
    (sendLoop json rs sent (wire₀ ++ wire)).2.1 =
      wire₀ ++ ((rs.foldl (sendNext json) (sendTest json sent wire)).finish json).2 := by
  induction rs generalizing sent wire with
  | nil =>
      rw [sendLoop, List.foldl_nil, sendTest]
      split
      · exact ⟨rfl, List.append_assoc _ _ _⟩
      case isFalse hend =>
        rw [List.drop_of_length_le (by simpa using hend), List.append_nil]
        exact ⟨rfl, rfl⟩
  | cons r rs ih =>
      rw [sendLoop, List.foldl_cons, sendTest]
      split
      case isFalse =>
        rw [sendNext, foldl_sendNext_returned]
        exact ⟨rfl, rfl⟩
      case isTrue =>
        cases r with
        | err =>
            rw [sendNext, foldl_sendNext_returned]
            exact ⟨rfl, rfl⟩
        | eintr => exact ih sent wire
        | accept n =>
            dsimp only
            rw [List.append_assoc]
            exact ih _ _

/-- **`hsedSendLine` is the run**, once the results it is given carry the call to its end. -/
theorem hsedSendLine_of_sendAfter {sock : Sock} (h : sendAfter json sock.sends = .returned rc wire) :
    (hsedSendLine sock json).1 = rc ∧ (hsedSendLine sock json).2.wire = sock.wire ++ wire := by
  obtain ⟨hrc, hwire⟩ := sendLoop_eq_finish json sock.sends 0 sock.wire []
  rw [List.append_nil] at hrc hwire
  unfold sendAfter at h
  rw [h] at hrc hwire
  exact ⟨hrc, hwire⟩

/-- **Exactly one line.** Whatever the `send`s of a call do (take some of what they are offered, get interrupted, fail),
    if interruptions end the call ends; at any time the peer has a beginning of the line and its newline; the call
    returns 0 iff that is all of it and -1 iff a `send` failed, and `hsedSendLine` is this call. -/
theorem send_line_delivers (json : Bytes) (schedule : Nat → SendRes) (hlegal : Legal json schedule)
    (hfin : {k | schedule k = .eintr}.Finite) :
    (∃ k rc wire, sendRun json schedule k = .returned rc wire) ∧
    (∀ k, (sendRun json schedule k).wire <+: json ++ [0x0a]) ∧
    (∀ k rc wire, sendRun json schedule k = .returned rc wire →
      (rc = 0 ↔ wire = json ++ [0x0a]) ∧ (rc = -1 ↔ Failed json schedule k) ∧ (rc = 0 ∨ rc = -1) ∧
      ∀ sock : Sock, sock.sends = (List.range k).map schedule →
        (hsedSendLine sock json).1 = rc ∧ (hsedSendLine sock json).2.wire = sock.wire ++ wire) := by
  refine ⟨sendRun_returns hlegal hfin, fun k => (ok_sendRun json schedule k).wire_isPrefix, ?_⟩
  intro k rc wire hret
  have hok := ok_sendRun json schedule k
  rw [hret] at hok
  refine ⟨hok.rc_eq_zero_iff, ?_, ?_, ?_⟩
  · rw [← returned_iff_failed, hret]
    simp
  · exact hok.imp And.left And.left
  · intro sock hsends
    apply hsedSendLine_of_sendAfter
    rw [hsends]
    exact hret

/-- Interrupted at the start and right before the newline. -/
theorem send_line_delivers_interrupted :
    ∃ schedule : Nat → SendRes, (∃ k, sendRun (ascii "ok") schedule k = .returned 0 (ascii "ok\n")) ∧
      ∀ k, (sendRun (ascii "ok") schedule k).wire <+: ascii "ok" ++ [0x0a] := by
  let results : List SendRes := [.eintr, .accept 1, .accept 1, .eintr, .accept 1]
  let schedule : Nat → SendRes := fun k => results.getD k .err
  have hlate : ∀ k ≥ 5, schedule k = .err := by
    intro k hk
    show results[k]?.getD .err = .err
    rw [List.getElem?_eq_none (show results.length ≤ k from hk)]
    rfl
  have hlegal : Legal (ascii "ok") schedule := by
    intro k sent wire n hrun hn
    by_cases hk : k < 5
    · have hall : ∀ k < 5, (match sendRun (ascii "ok") schedule k, schedule k with
          | .looping sent _, .accept n => decide (1 ≤ n ∧ n ≤ (sendChunk (ascii "ok") sent).length)
          | _, _ => true) = true := by decide +kernel
      have hat := hall k hk
      rw [hrun, hn] at hat
      exact of_decide_eq_true hat
    · rw [hlate k (Nat.le_of_not_lt hk)] at hn
      cases hn
  have hfin : {k | schedule k = .eintr}.Finite := by
    apply (Set.finite_lt_nat 5).subset
    intro k hk
    by_contra hge
    have herr := hlate k (Nat.le_of_not_lt hge)
    rw [hk] at herr
    cases herr
  exact ⟨schedule, ⟨5, by decide +kernel⟩, (send_line_delivers _ schedule hlegal hfin).2.1⟩

end

end Wire
end Hsed
