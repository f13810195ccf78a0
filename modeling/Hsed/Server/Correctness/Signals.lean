import Hsed.Server.Correctness.Dispatch
import Mathlib.Data.List.Infix

/-!
# `Server.Correctness.Signals` — whom HUP and KILL hit

`SignalTargeted` is what one would ask of every line served on a connection: each `kill` it causes goes to a
positive pid that is the whole decimal number the line carries, and a bad or cut-off argument is refused
with an error reply and no signal. The handlers check none of this: `atol` turns anything into a number and
the narrowing cast into a pid. `signal_targeting_iff` is the exact condition on the raw line
(`SignalLineOk`) under which the property holds all the same.
-/

namespace Hsed
namespace Server

open CLib Scan Wire

/-! ## The property -/

/-- The argument of a HUP or KILL line. -/
def signalArg (line : Bytes) : Option Bytes :=
  match strtokR delims line with
  | none => none
  | some (cmd, save) => if isSignalCmd cmd then (strtokR delims save).map (·.1) else none

/-- The argument is a complete decimal number in the range of a positive `pid_t`. -/
def isPid (arg : Bytes) : Bool :=
  match decimalValue arg with
  | none => false
  | some v => 0 < v ∧ v < 2 ^ 31

/-- An error reply. -/
def isErrorReply (line : Bytes) : Bool := (ascii "\x7b\"type\":\"error\",\"message\":\"").isPrefixOf line

/-- What a served line may do with signals. -/
structure SignalTargeted (sv : Served) : Prop where
  /-- A signal goes to a positive pid, the number written on the line. -/
  target : ∀ k ∈ sv.kills, 0 < k.1 ∧ ∃ arg, signalArg sv.raw = some arg ∧ decimalValue arg = some k.1
  /-- An argument that is no pid, or does not survive the cut at 511 bytes, is refused. -/
  refused : ∀ arg, signalArg sv.raw = some arg →
    (isPid arg = false ∨ signalArg (sv.raw.take (lineSize - 1)) ≠ some arg) →
    sv.kills = [] ∧ ∃ reply, sv.replies = [reply] ∧ isErrorReply reply = true

/-- The text the daemon works on: the raw line cut at 511 bytes and at the first NUL. -/
def handled (raw : Bytes) : Bytes := cstr (raw.take (lineSize - 1))

/-- The lines on which the handlers do what is asked: an argument they act on is the line's whole argument
    and a pid, and a HUP or KILL line is not cut to nothing. -/
def SignalLineOk (raw : Bytes) : Prop :=
  (∀ a1, signalArg (handled raw) = some a1 → signalArg raw = some a1 ∧ isPid a1 = true) ∧
    ((signalArg raw).isSome → strtokR delims (handled raw) ≠ none)

/-! ## Cut lines -/

theorem signalArg_append {s a : Bytes} (h : signalArg s = some a) (u : Bytes) :
    signalArg (s ++ u) = some a ∨ signalArg (s ++ u) = some (a ++ u.takeWhile (!delims.contains ·)) := by
  unfold signalArg at h ⊢
  cases hs : strtokR delims s with
  | none => rw [hs] at h; cases h
  | some p =>
      obtain ⟨cmd, save⟩ := p
      rw [hs] at h
      simp only at h
      split at h
      · next hcmd =>
          obtain ⟨⟨tok, rest⟩, hsave, rfl⟩ := Option.map_eq_some_iff.mp h
          -- an argument follows, so the command word is complete
          have hcmdu : strtokR delims (s ++ u) = some (cmd, save ++ u) := by
            rcases strtokR_append hs u with happ | ⟨rfl, -⟩
            · exact happ
            · cases hsave
          rw [hcmdu]
          simp only [hcmd, if_true]
          rcases strtokR_append hsave u with happ | ⟨-, happ⟩
          · exact .inl (by rw [happ]; rfl)
          · exact .inr (by rw [happ]; rfl)
      · cases h

theorem signalArg_mono {s t a : Bytes} (hst : s <+: t) (h : signalArg s = some a) :
    ∃ a', signalArg t = some a' ∧ a <+: a' := by
  obtain ⟨u, rfl⟩ := hst
  rcases signalArg_append h u with happ | happ
  · exact ⟨a, happ, List.prefix_refl a⟩
  · exact ⟨_, happ, List.prefix_append _ _⟩

/-- After a C string comes nothing, or a NUL. -/
theorem cstr_append (buf : Bytes) : ∃ u, buf = cstr buf ++ u ∧ (u = [] ∨ ∃ t, u = 0 :: t) := by
  refine ⟨buf.dropWhile (· != 0), (List.takeWhile_append_dropWhile).symm, ?_⟩
  cases hu : buf.dropWhile (· != 0) with
  | nil => exact .inl rfl
  | cons b t =>
      refine .inr ⟨t, ?_⟩
      have hb := List.head_dropWhile_not (p := (· != 0)) (l := buf) (by rw [hu]; simp)
      simp only [hu, List.head_cons, bne_eq_false_iff_eq] at hb
      rw [hb]

/-- A decimal number holds no NUL. -/
theorem decimalValue_no_nul {s : Bytes} {v : Int} (h : decimalValue s = some v) : 0 ∉ s := by
  unfold decimalValue at h
  -- every byte is a sign or stands behind it
  have hsub : ∀ b ∈ s, b = 0x2d ∨ b = 0x2b ∨ b ∈ (splitSign s).2 := by
    cases s with
    | nil => intro b hb; cases hb
    | cons c t =>
        intro b hb
        rw [splitSign]
        rcases List.mem_cons.mp hb with rfl | hb
        · split
          · exact .inl ‹_›
          · split
            · exact .inr (.inl ‹_›)
            · exact .inr (.inr (List.mem_cons_self))
        · split
          · exact .inr (.inr hb)
          · split
            · exact .inr (.inr hb)
            · exact .inr (.inr (List.mem_cons_of_mem _ hb))
  intro hmem
  rcases hsub 0 hmem with h0 | h0 | h0
  · cases h0
  · cases h0
  · simp only at h
    split at h
    · next hd =>
        simp only [isAllDigits, Bool.and_eq_true, List.all_eq_true] at hd
        exact absurd (hd.2 0 h0) (by decide)
    · cases h

/-- A NUL in the buffer does not change a numeric argument. -/
theorem signalArg_cstr {r a arg : Bytes} {v : Int} (h : signalArg (cstr r) = some a)
    (hr : signalArg r = some arg) (hv : decimalValue arg = some v) : arg = a := by
  obtain ⟨u, hu, hnul⟩ := cstr_append r
  have happ := signalArg_append h u
  rw [← hu, hr] at happ
  rcases happ with happ | happ
  · exact Option.some.inj happ
  · rcases hnul with rfl | ⟨t, rfl⟩
    · rw [Option.some.inj happ]; simp
    · refine absurd ?_ (decimalValue_no_nul hv)
      rw [Option.some.inj happ, List.takeWhile_cons_of_pos (by decide)]
      simp

/-- A line whose C string is blank is no HUP or KILL line. -/
theorem signalArg_of_blank {r : Bytes} (h : strtokR delims (cstr r) = none) : signalArg r = none := by
  obtain ⟨u, hu, hnul⟩ := cstr_append r
  have hblank : ∀ b ∈ cstr r, delims.contains b = true := by
    unfold strtokR at h
    cases hd : (cstr r).dropWhile (delims.contains ·) with
    | nil => exact List.dropWhile_eq_nil_iff.mp hd
    | cons b t => rw [hd] at h; cases h
  unfold signalArg strtokR
  rw [hu, List.dropWhile_append_of_pos hblank]
  rcases hnul with rfl | ⟨t, rfl⟩
  · rfl
  · -- the first token starts with the NUL
    rw [List.dropWhile_cons_of_neg (by decide)]
    simp only
    rw [List.takeWhile_cons_of_pos (by decide), if_neg]
    simp [isSignalCmd, strcaseeq, ascii, toLower]

theorem prefix_of_handled (raw : Bytes) : handled raw <+: raw :=
  (prefix_of_cstr _).trans (List.take_prefix _ _)

/-! ## One line -/

theorem isErrorReply_errorText (message : Bytes) : isErrorReply (snprintf 2048 (errorText message)) = true := by
  rw [isErrorReply, List.isPrefixOf_iff_prefix, errorText, List.append_assoc, snprintf,
    List.take_append, List.take_of_length_le (by decide)]
  exact List.prefix_append _ _

/-- A line answered with one error reply sends nothing and is refused. -/
theorem refused_of_error {raw : Bytes} {c : Conn} (message : Bytes) :
    (⟨raw, c, c.reply (errorText message)⟩ : Served).kills = [] ∧
      ∃ reply, (⟨raw, c, c.reply (errorText message)⟩ : Served).replies = [reply] ∧
        isErrorReply reply = true := by
  refine ⟨by simp [Served.kills, reply_kills], _, ?_, isErrorReply_errorText message⟩
  simp [Served.replies, reply_lines]

/-- The words a cut can make of `HUP` and `KILL`. -/
theorem dispatch_cut_word {cmd : Bytes}
    (h : cmd.map toLower ∈ [ascii "h", ascii "hu", ascii "k", ascii "ki", ascii "kil"])
    (env : Env) (c : Conn) (save : Bytes) :
    dispatch env c cmd save = (true, c.reply (errorText (ascii "unknown command"))) := by
  simp only [List.mem_cons, List.not_mem_nil, or_false] at h
  rcases h with h | h | h | h | h <;>
    · simp only [dispatch, strcaseeq, h]
      rfl

theorem lower_prefix_of_isSignalCmd {cmd x : Bytes} (hne : cmd ≠ []) (h : isSignalCmd (cmd ++ x) = true)
    (hcmd : isSignalCmd cmd = false) :
    cmd.map toLower ∈ [ascii "h", ascii "hu", ascii "k", ascii "ki", ascii "kil"] := by
  have hne' : cmd.map toLower ≠ [] := by simpa using hne
  simp only [isSignalCmd, strcaseeq, Bool.or_eq_true, Bool.or_eq_false_iff, beq_iff_eq,
    beq_eq_false_iff_ne, List.map_append] at h hcmd
  obtain ⟨hhup, hkill⟩ := hcmd
  rcases h with h | h
  · have hmem : cmd.map toLower ∈ ((ascii "HUP").map toLower).inits :=
      (List.mem_inits _ _).mpr ⟨_, h⟩
    have hinits : ((ascii "HUP").map toLower).inits = [[], ascii "h", ascii "hu", (ascii "HUP").map toLower] := rfl
    rw [hinits] at hmem
    simp only [List.mem_cons, List.not_mem_nil, or_false, hne', hhup, false_or] at hmem ⊢
    exact hmem.elim .inl fun hu => .inr (.inl hu)
  · have hmem : cmd.map toLower ∈ ((ascii "KILL").map toLower).inits :=
      (List.mem_inits _ _).mpr ⟨_, h⟩
    have hinits : ((ascii "KILL").map toLower).inits =
        [[], ascii "k", ascii "ki", ascii "kil", (ascii "KILL").map toLower] := rfl
    rw [hinits] at hmem
    simp only [List.mem_cons, List.not_mem_nil, or_false, hne', hkill, false_or] at hmem ⊢
    exact .inr (.inr hmem)

/-- A HUP or KILL line whose command word was cut is an unknown command. -/
theorem dispatch_cut {raw arg cmd save : Bytes} (hraw : signalArg raw = some arg)
    (hh : strtokR delims (handled raw) = some (cmd, save)) (hcmd : isSignalCmd cmd = false)
    (env : Env) (c : Conn) :
    dispatch env c cmd save = (true, c.reply (errorText (ascii "unknown command"))) := by
  obtain ⟨u, hu⟩ := prefix_of_handled raw
  unfold signalArg at hraw
  rw [← hu] at hraw
  rcases strtokR_append hh u with happ | ⟨-, happ⟩
  · rw [happ] at hraw
    simp [hcmd] at hraw
  · rw [happ] at hraw
    simp only at hraw
    split at hraw
    · next hsig =>
        exact dispatch_cut_word (lower_prefix_of_isSignalCmd (strtokR_ne_nil hh) hsig hcmd) env c save
    · cases hraw

theorem strtol_of_isPid {a : Bytes} (h : isPid a = true) :
    0 < toInt32 (strtol a) ∧ decimalValue a = some (toInt32 (strtol a)) := by
  unfold isPid at h
  cases hv : decimalValue a with
  | none => rw [hv] at h; cases h
  | some v =>
      rw [hv] at h
      obtain ⟨hpos, hlt⟩ := of_decide_eq_true h
      have hraw := strtolRaw_of_decimalValue hv
      have hstr : strtol a = v := by
        rw [strtol, clampLong, hraw]
        omega
      rw [hstr, toInt32_eq_self (by omega) hlt]
      exact ⟨hpos, rfl⟩

/-- An argument that is whole in the raw line and in the handled text is whole in the bytes between them. -/
theorem signalArg_take {raw a : Bytes} (hraw : signalArg raw = some a) (harg : signalArg (handled raw) = some a) :
    signalArg (raw.take (lineSize - 1)) = some a := by
  obtain ⟨a', ha', hle⟩ := signalArg_mono (prefix_of_cstr (raw.take (lineSize - 1))) harg
  obtain ⟨a'', ha'', hle'⟩ := signalArg_mono (List.take_prefix (lineSize - 1) raw) ha'
  obtain rfl : a = a'' := Option.some.inj (hraw.symm.trans ha'')
  rw [ha', hle'.eq_of_length (Nat.le_antisymm hle'.length_le hle.length_le)]

/-- The line property, line by line. -/
theorem signalTargeted_line {env : Env} {raw : Bytes} {c c' : Conn} {go : Bool}
    (h : handleLine env c (handled raw) = (go, c')) :
    SignalTargeted ⟨raw, c, c'⟩ ↔ SignalLineOk raw := by
  unfold handleLine at h
  cases hh : strtokR delims (handled raw) with
  | none =>
      -- a blank text: nothing happens, which is wrong only for a HUP or KILL line
      rw [hh] at h
      obtain ⟨-, rfl⟩ := Prod.mk.inj h
      have hblank : signalArg (raw.take (lineSize - 1)) = none := signalArg_of_blank hh
      have hnone : signalArg (handled raw) = none := by rw [signalArg, hh]
      constructor
      · intro ht
        refine ⟨fun a1 ha1 => (by rw [hnone] at ha1; cases ha1), ?_⟩
        intro hsome
        obtain ⟨arg, harg⟩ := Option.isSome_iff_exists.mp hsome
        obtain ⟨-, reply, hreply, -⟩ := ht.refused arg harg (.inr (by rw [hblank]; simp))
        simp [Served.replies] at hreply
      · rintro ⟨-, hok⟩
        refine ⟨fun k hk => ?_, fun arg harg _ => ?_⟩
        · simp [Served.kills] at hk
        · exact absurd hh (hok (by rw [harg]; rfl))
  | some p =>
      obtain ⟨cmd, save⟩ := p
      rw [hh] at h
      simp only at h
      cases hcmd : isSignalCmd cmd with
      | false =>
          have hkills : (⟨raw, c, c'⟩ : Served).kills = [] := by
            have hk := dispatch_kills hcmd env c save
            rw [h] at hk
            show c'.kills.drop c.kills.length = []
            rw [show c'.kills = c.kills from hk, List.drop_length]
          have hnone : signalArg (handled raw) = none := by
            rw [signalArg, hh]; simp [hcmd]
          constructor
          · intro _
            refine ⟨fun a1 ha1 => (by rw [hnone] at ha1; cases ha1), fun _ => by rw [hh]; simp⟩
          · intro _
            refine ⟨fun k hk => (by rw [hkills] at hk; cases hk), fun arg harg _ => ?_⟩
            rw [dispatch_cut harg hh hcmd env c] at h
            obtain ⟨-, rfl⟩ := Prod.mk.inj h
            exact refused_of_error _
      | true =>
          obtain ⟨hsome, husage⟩ := dispatch_signal hcmd env c save
          cases hsave : strtokR delims save with
          | none =>
              obtain ⟨usage, -, hu⟩ := husage hsave
              rw [hu] at h
              obtain ⟨-, rfl⟩ := Prod.mk.inj h
              obtain ⟨hkills, hreply⟩ := @refused_of_error raw c usage
              have hnone : signalArg (handled raw) = none := by
                rw [signalArg, hh]; simp [hcmd, hsave]
              constructor
              · intro _
                refine ⟨fun a1 ha1 => (by rw [hnone] at ha1; cases ha1), fun _ => by rw [hh]; simp⟩
              · intro _
                exact ⟨fun k hk => (by rw [hkills] at hk; cases hk), fun _ _ _ => ⟨hkills, hreply⟩⟩
          | some q =>
              obtain ⟨a1, rest⟩ := q
              rw [hsome a1 rest hsave] at h
              have harg : signalArg (handled raw) = some a1 := by
                rw [signalArg, hh]; simp [hcmd, hsave]
              have hkills : (⟨raw, c, c'⟩ : Served).kills = [(toInt32 (strtol a1), signalOf cmd)] := by
                have hk := handleSignal_kills env (signalOf cmd) c (toInt32 (strtol a1))
                rw [h] at hk
                show c'.kills.drop c.kills.length = _
                rw [show c'.kills = c.kills ++ _ from hk, List.drop_left]
              constructor
              · intro ht
                refine ⟨fun a ha => ?_, fun _ => by rw [hh]; simp⟩
                obtain rfl : a1 = a := Option.some.inj (harg.symm.trans ha)
                obtain ⟨hpos, arg, hraw, hdec⟩ := ht.target _ (by rw [hkills]; exact List.mem_singleton.mpr rfl)
                -- a signal was sent, so the argument was not to be refused
                have hnot : ¬ (isPid arg = false ∨ signalArg (raw.take (lineSize - 1)) ≠ some arg) := by
                  intro hbad
                  have hempty := (ht.refused arg hraw hbad).1
                  rw [hkills] at hempty
                  cases hempty
                obtain ⟨hpid, htake⟩ := not_or.mp hnot
                obtain rfl : arg = a1 := signalArg_cstr harg (not_not.mp htake) hdec
                exact ⟨hraw, by simpa using hpid⟩
              · rintro ⟨hok, -⟩
                obtain ⟨hraw, hpid⟩ := hok a1 harg
                obtain ⟨hpos, hdec⟩ := strtol_of_isPid hpid
                refine ⟨fun k hk => ?_, fun arg hraw' hbad => ?_⟩
                · rw [hkills, List.mem_singleton] at hk
                  subst hk
                  exact ⟨hpos, a1, hraw, hdec⟩
                · obtain rfl : a1 = arg := Option.some.inj (hraw.symm.trans hraw')
                  rcases hbad with hbad | hbad
                  · rw [hpid] at hbad; cases hbad
                  · exact absurd (signalArg_take hraw harg) hbad

/-! ## Every line of every connection -/

/-- Line `j` of a connection was read by `recv_line` and handled in its own surroundings. -/
theorem connLoop_getElem {env : Nat → Env} {fuel : Nat} : ∀ {i : Nat} {c : Conn} {j : Nat} {sv : Served},
    (connLoop env fuel i c)[j]? = some sv →
    ∃ go, handleLine (env (j + i)) sv.before (handled sv.raw) = (go, sv.after) := by
  induction fuel with
  | zero => intro i c j sv h; cases h
  | succ fuel ih =>
      intro i c j sv h
      rw [connLoop] at h
      split at h
      · cases h
      · next buf rest hrecv =>
          cases hl : handleLine (env i) { c with recv := rest } (cstr buf) with
          | mk go c' =>
              rw [hl] at h
              cases j with
              -- the line that is read now
              | zero =>
                  obtain rfl := Option.some.inj h
                  refine ⟨go, ?_⟩
                  have hbuf := recvLine_eq hrecv (Nat.zero_le _)
                  rw [List.nil_append, List.length_nil, Nat.sub_zero] at hbuf
                  rw [handled, ← hbuf, Nat.zero_add]
                  exact hl
              -- a later one, which is read only if the handler lets the loop go on
              | succ j =>
                  rw [List.getElem?_cons_succ] at h
                  cases go with
                  | true =>
                      rw [Nat.succ_add_eq_add_succ]
                      exact ih h
                  | false => cases h

theorem connLoop_mem {env : Nat → Env} {fuel i : Nat} {c : Conn} {sv : Served} (h : sv ∈ connLoop env fuel i c) :
    ∃ j go, handleLine (env j) sv.before (handled sv.raw) = (go, sv.after) := by
  obtain ⟨j, hj⟩ := List.mem_iff_getElem?.mp h
  obtain ⟨go, hline⟩ := connLoop_getElem hj
  exact ⟨j + i, go, hline⟩

/-- **Signal targeting.** On every connection, for every sequence of received bytes and whatever the rest
    of the system does, a served line keeps to its target iff it meets the condition. -/
theorem signal_targeting_iff (env : Nat → Env) (recv : List Recv) (sock : Sock) :
    ∀ sv ∈ handleConnection env recv sock, SignalTargeted sv ↔ SignalLineOk sv.raw := by
  intro sv hsv
  obtain ⟨j, go, h⟩ := connLoop_mem hsv
  exact signalTargeted_line h

/-- Surroundings in which `kill` succeeds and there is nothing to scan, truncate or trace. -/
def idleEnv : Env where
  scan := fun _ _ _ => some []
  stats := fun _ _ => some ⟨0, 0⟩
  truncate := fun _ _ => .ok 0
  kill := fun _ _ => .ok
  stream := fun _ _ => ([], none)
  strerror := []

/-- A peer that sends `text` and closes. -/
def typed (text : String) : List Recv := (ascii text).map .byte

/-- A line that meets the condition. -/
theorem signal_targeting_kill_twelve :
    ∃ sv ∈ handleConnection (fun _ => idleEnv) (typed "KILL 12\n") ⟨[], [], []⟩,
      sv.kills = [(12, sigkill)] ∧ SignalTargeted sv := by
  have hserved : ∃ sv ∈ handleConnection (fun _ => idleEnv) (typed "KILL 12\n") ⟨[], [], []⟩,
      sv.raw = ascii "KILL 12" ∧ sv.kills = [(12, sigkill)] := by decide
  obtain ⟨sv, hsv, hraw, hkills⟩ := hserved
  refine ⟨sv, hsv, hkills, (signal_targeting_iff _ _ _ sv hsv).mpr ?_⟩
  have harg : signalArg (handled (ascii "KILL 12")) = some (ascii "12") := by decide
  rw [hraw]
  refine ⟨fun a1 ha1 => ?_, fun _ => by decide⟩
  obtain rfl := Option.some.inj (harg.symm.trans ha1)
  exact ⟨by decide, by decide⟩

/-- `KILL -1` signals every process the daemon may signal. -/
theorem kill_minus_one_is_sent :
    ¬ ∀ sv ∈ handleConnection (fun _ => idleEnv) (typed "KILL -1\n") ⟨[], [], []⟩, SignalTargeted sv := by
  intro h
  have hkill : ∃ sv ∈ handleConnection (fun _ => idleEnv) (typed "KILL -1\n") ⟨[], [], []⟩,
      (-1, sigkill) ∈ sv.kills := by decide
  obtain ⟨sv, hsv, hmem⟩ := hkill
  have hpos := ((h sv hsv).target _ hmem).1
  exact absurd hpos (by decide)

end Server
end Hsed
