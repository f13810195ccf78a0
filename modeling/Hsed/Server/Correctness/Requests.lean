import Hsed.Client.Requests
import Hsed.Lib.Json
import Hsed.Server.Correctness.Dispatch

/-!
# `Server.Correctness.Requests` — the daemon on the client's request lines

A request is short and free of newlines and NULs, so `recv_line` hands it on whole, however `recv` splits
it (`recvLine_delivers`), and `strtok_r` cuts it back into the numerals the client printed
(`nextArg_argument`).
-/

namespace Hsed
namespace Server

open CLib Client

/-! ## Reception -/

/-- The results of the `recv` calls that bring `line`: its bytes, in order, with interruptions anywhere. -/
def Delivers (recv : List Recv) (line : Bytes) : Prop := recv.filter (· ≠ .eintr) = line.map .byte

theorem recvLine_delivers {bufsize : Nat} {recv : List Recv} (rest : List Recv) : ∀ {line buf : Bytes},
    Delivers recv line → 0x0a ∉ line → buf.length + line.length < bufsize →
    recvLine bufsize (recv ++ .byte 0x0a :: rest) buf = (some (buf ++ line), rest) := by
  induction recv with
  | nil =>
      intro line buf hd _ _
      obtain rfl : line = [] := by simpa [Delivers] using hd.symm
      simp [recvLine]
  | cons r recv ih =>
      intro line buf hd hnl hlen
      cases r with
      | eintr =>
          have hd' : Delivers recv line := by simpa [Delivers] using hd
          rw [List.cons_append, recvLine]
          exact ih hd' hnl hlen
      | byte c =>
          cases line with
          | nil => simp [Delivers] at hd
          | cons b line =>
              obtain ⟨rfl, hd'⟩ : c = b ∧ Delivers recv line := by simpa [Delivers] using hd
              rw [List.mem_cons, not_or] at hnl
              rw [List.length_cons] at hlen
              rw [List.cons_append, recvLine, if_neg (Ne.symm hnl.1), if_pos (by omega), ih hd' hnl.2]
              · rw [List.append_assoc, List.singleton_append]
              · rw [List.length_append, List.length_singleton]
                omega
      | eof => cases line <;> simp [Delivers] at hd
      | err => cases line <;> simp [Delivers] at hd

theorem rawLine_delivers {recv : List Recv} (rest : List Recv) : ∀ {line : Bytes},
    Delivers recv line → 0x0a ∉ line → rawLine (recv ++ .byte 0x0a :: rest) = line := by
  induction recv with
  | nil =>
      intro line hd _
      obtain rfl : line = [] := by simpa [Delivers] using hd.symm
      simp [rawLine]
  | cons r recv ih =>
      intro line hd hnl
      cases r with
      | eintr =>
          rw [List.cons_append, rawLine]
          exact ih (by simpa [Delivers] using hd) hnl
      | byte c =>
          cases line with
          | nil => simp [Delivers] at hd
          | cons b line =>
              obtain ⟨rfl, hd'⟩ : c = b ∧ Delivers recv line := by simpa [Delivers] using hd
              rw [List.mem_cons, not_or] at hnl
              rw [List.cons_append, rawLine, if_neg (Ne.symm hnl.1), ih hd' hnl.2]
      | eof => cases line <;> simp [Delivers] at hd
      | err => cases line <;> simp [Delivers] at hd

/-- **One pass of the connection loop** on a line that fits the buffer and holds no NUL. -/
theorem connLoop_delivers {env : Nat → Env} {recv rest : List Recv} {line : Bytes} (hd : Delivers recv line)
    (hnl : 0x0a ∉ line) (hnul : 0 ∉ line) (hlen : line.length < lineSize) (fuel i : Nat) (sock : Wire.Sock)
    (kills : List (Int × Int)) :
    connLoop env (fuel + 1) i ⟨recv ++ .byte 0x0a :: rest, sock, kills⟩ =
      ⟨line, ⟨rest, sock, kills⟩, (handleLine (env i) ⟨rest, sock, kills⟩ line).2⟩ ::
        (if (handleLine (env i) ⟨rest, sock, kills⟩ line).1 then
          connLoop env fuel (i + 1) (handleLine (env i) ⟨rest, sock, kills⟩ line).2 else []) := by
  have hrecv := @recvLine_delivers lineSize recv rest line [] hd hnl (by simpa using hlen)
  have hc : cstr line = line := cstr_eq_self fun b hb h0 => hnul (h0 ▸ hb)
  rw [List.nil_append] at hrecv
  rw [connLoop]
  simp only [hrecv, hc, rawLine_delivers rest hd hnl]

/-! ## Tokens -/

theorem not_delim_of_isDigit {b : UInt8} (h : isDigit b = true) : delims.contains b = false := by
  have hb := isDigit_iff.mp h
  simp only [delims, List.contains_cons, List.contains_nil, Bool.or_false, Bool.or_eq_false_iff, beq_eq_false_iff_ne]
  refine ⟨?_, ?_, ?_, ?_⟩ <;> rintro rfl <;> exact absurd hb (by decide)

theorem not_delim_decInt (x : Int) : (decInt x).all (!delims.contains ·) = true := by
  have hnat : ∀ n, (decNat n).all (!delims.contains ·) = true := by
    intro n
    rw [List.all_eq_true]
    intro b hb
    rw [not_delim_of_isDigit (isDigit_decNat n b hb)]
    rfl
  unfold decInt
  split
  · rw [List.all_cons, hnat]
    rfl
  · exact hnat _

/-- What follows a token of a request: nothing, or a blank and more. -/
def Follows (rest : Bytes) : Prop := ∀ d ∈ rest.head?, delims.contains d = true

theorem follows_nil : Follows [] := by simp [Follows]

theorem follows_argument (x : Int) (rest : Bytes) : Follows (argument x ++ rest) := by
  simp [Follows, argument, delims]

theorem follows_uidArgument (uidFilter : Int) : Follows (uidArgument uidFilter) := by
  unfold uidArgument
  split
  · rw [← List.append_nil (argument uidFilter)]
    exact follows_argument _ _
  · exact follows_nil

/-- The next token after a blank is the numeral the client printed. -/
theorem nextArg_argument (x : Int) {rest : Bytes} (h : Follows rest) :
    nextArg (some ((argument x ++ rest).drop 1)) = (some (decInt x), some (rest.drop 1)) := by
  have hdrop : (argument x ++ rest).drop 1 = decInt x ++ rest := rfl
  rw [hdrop, nextArg, strtokR_token (decInt_ne_nil x) (not_delim_decInt x) h]

/-- The command word comes off. -/
theorem handleLine_word (env : Env) (c : Conn) {cmd rest : Bytes} (hne : cmd ≠ [])
    (hcmd : cmd.all (!delims.contains ·) = true) (h : Follows rest) :
    handleLine env c (cmd ++ rest) = dispatch env c cmd (rest.drop 1) := by
  rw [handleLine, strtokR_token hne hcmd h]

/-! ## The request lines -/

/-- The handler a request is meant for, and whether the daemon outlives it. -/
def handler (env : Env) (c : Conn) (pid fd : Int) : Action → Bool × Conn
  | .truncate => (true, handleTruncate env c pid fd)
  | .hup => handleHup env c pid
  | .kill => handleKill env c pid
  | .openStream => (true, handleStream env c pid fd)

/-- What the daemon makes of an action's request: its handler, on the numerals read back. -/
theorem handleLine_request (env : Env) (c : Conn) (pid fd : Int) (action : Action) :
    handleLine env c (action.request pid fd) =
      handler env c (toInt32 (strtol (decInt pid))) (atoi (decInt fd)) action := by
  have hlast : ∀ x, nextArg (some ((argument x).drop 1)) = (some (decInt x), some []) := by
    intro x
    have h := nextArg_argument x follows_nil
    rwa [List.append_nil] at h
  have hfirst := nextArg_argument pid (follows_argument fd [])
  rw [List.append_nil] at hfirst
  have hsep : ∀ x, Follows (argument x) := fun x => by simpa using follows_argument x []
  cases action with
  | truncate =>
      rw [Action.request, List.append_assoc, handleLine_word env c (by decide) (by decide) (follows_argument _ _)]
      simp only [dispatch, hfirst, hlast]
      rfl
  | hup =>
      rw [Action.request, handleLine_word env c (by decide) (by decide) (hsep _)]
      simp only [dispatch, hlast]
      rfl
  | kill =>
      rw [Action.request, handleLine_word env c (by decide) (by decide) (hsep _)]
      simp only [dispatch, hlast]
      rfl
  | openStream =>
      rw [Action.request, List.append_assoc, handleLine_word env c (by decide) (by decide) (follows_argument _ _)]
      simp only [dispatch, hfirst, hlast]
      rfl

theorem toUInt32_strtoul_decInt {x : Int} (h : -(2 ^ 63) ≤ x ∧ x < 2 ^ 63) :
    toUInt32 (strtoul (decInt x)) = toUInt32 x := by
  rw [strtoul_decInt h.1 h.2]
  unfold toUInt32
  omega

/-- The listing request: the two numbers, and the uid modulo `2 ^ 32`. `UIDAny` is `HSED_UID_ANY`. -/
theorem handleLine_scanRequest (env : Env) (c : Conn) {minSize onlyPid uidFilter : Int}
    (hm : -(2 ^ 63) ≤ minSize ∧ minSize < 2 ^ 63) (hp : -(2 ^ 63) ≤ onlyPid ∧ onlyPid < 2 ^ 63)
    (hu : -(2 ^ 63) ≤ uidFilter ∧ uidFilter < 2 ^ 63) :
    handleLine env c (scanRequest minSize onlyPid uidFilter) =
      (true, handleScan env c minSize (toInt32 onlyPid) (toUInt32 uidFilter)) := by
  have h1 := nextArg_argument minSize (follows_argument onlyPid (uidArgument uidFilter))
  have h2 := nextArg_argument onlyPid (follows_uidArgument uidFilter)
  rw [scanRequest, List.append_assoc, List.append_assoc,
    handleLine_word env c (by decide) (by decide) (follows_argument _ _)]
  by_cases hany : uidFilter = uidAny
  · have h3 : nextArg (some ((uidArgument uidFilter).drop 1)) = (none, none) := by
      rw [uidArgument, if_neg (by simp [hany])]
      rfl
    simp only [dispatch, h1, h2, h3]
    rw [hany]
    simp only [Option.map_some, Option.getD_some, strtol_decInt hm.1 hm.2, strtol_decInt hp.1 hp.2]
    rfl
  · have h3 : nextArg (some ((uidArgument uidFilter).drop 1)) = (some (decInt uidFilter), some []) := by
      have h := nextArg_argument uidFilter follows_nil
      rwa [uidArgument, if_pos hany, ← List.append_nil (argument uidFilter)]
    simp only [dispatch, h1, h2, h3]
    simp only [Option.map_some, Option.getD_some, strtol_decInt hm.1 hm.2, strtol_decInt hp.1 hp.2,
      toUInt32_strtoul_decInt hu]
    rfl

theorem handleLine_statsRequest (env : Env) (c : Conn) {minSize uidFilter : Int}
    (hm : -(2 ^ 63) ≤ minSize ∧ minSize < 2 ^ 63) (hu : -(2 ^ 63) ≤ uidFilter ∧ uidFilter < 2 ^ 63) :
    handleLine env c (statsRequest minSize uidFilter) =
      (true, handleStats env c minSize (toUInt32 uidFilter)) := by
  have h1 := nextArg_argument minSize (follows_uidArgument uidFilter)
  rw [statsRequest, List.append_assoc, handleLine_word env c (by decide) (by decide) (follows_argument _ _)]
  by_cases hany : uidFilter = uidAny
  · have h2 : nextArg (some ((uidArgument uidFilter).drop 1)) = (none, none) := by
      rw [uidArgument, if_neg (by simp [hany])]
      rfl
    simp only [dispatch, h1, h2]
    rw [hany]
    simp only [Option.map_some, Option.getD_some, strtol_decInt hm.1 hm.2]
    rfl
  · have h2 : nextArg (some ((uidArgument uidFilter).drop 1)) = (some (decInt uidFilter), some []) := by
      have h := nextArg_argument uidFilter follows_nil
      rwa [uidArgument, if_pos hany, ← List.append_nil (argument uidFilter)]
    simp only [dispatch, h1, h2]
    simp only [Option.map_some, Option.getD_some, strtol_decInt hm.1 hm.2, toUInt32_strtoul_decInt hu]
    rfl

/-! ## Lengths and bytes -/

theorem length_argument_le {x : Int} (hlo : -(2 ^ 63) ≤ x) (hhi : x < 2 ^ 63) : (argument x).length ≤ 21 := by
  have hx : (decInt x).length ≤ 20 := length_decInt_le (k := 19) (by decide) (by omega) (by omega)
  rw [argument, List.length_append, List.length_singleton]
  omega

theorem length_request_lt {pid fd : Int} (hp : -(2 ^ 63) ≤ pid ∧ pid < 2 ^ 63) (hf : -(2 ^ 63) ≤ fd ∧ fd < 2 ^ 63)
    (action : Action) : (action.request pid fd).length < lineSize := by
  have hpid := length_argument_le hp.1 hp.2
  have hfd := length_argument_le hf.1 hf.2
  cases action <;> simp [Action.request, lineSize, ascii] <;> omega

theorem printable_argument (x : Int) : Json.Printable (argument x) :=
  Json.printable_cons (by decide) (Json.printable_decInt x)

theorem printable_request (pid fd : Int) (action : Action) : Json.Printable (action.request pid fd) := by
  have harg := printable_argument
  cases action with
  | truncate =>
      exact Json.printable_append (Json.printable_append (Json.printable_of_plainText (by decide)) (harg _)) (harg _)
  | hup => exact Json.printable_append (Json.printable_of_plainText (by decide)) (harg _)
  | kill => exact Json.printable_append (Json.printable_of_plainText (by decide)) (harg _)
  | openStream =>
      exact Json.printable_append (Json.printable_append (Json.printable_of_plainText (by decide)) (harg _)) (harg _)

theorem printable_uidArgument (uidFilter : Int) : Json.Printable (uidArgument uidFilter) := by
  unfold uidArgument
  split
  · exact printable_argument _
  · exact List.forall_mem_nil _

theorem printable_scanRequest (minSize onlyPid uidFilter : Int) :
    Json.Printable (scanRequest minSize onlyPid uidFilter) :=
  Json.printable_append (Json.printable_append (Json.printable_append (Json.printable_of_plainText (by decide))
    (printable_argument _)) (printable_argument _)) (printable_uidArgument _)

theorem printable_statsRequest (minSize uidFilter : Int) : Json.Printable (statsRequest minSize uidFilter) :=
  Json.printable_append (Json.printable_append (Json.printable_of_plainText (by decide)) (printable_argument _))
    (printable_uidArgument _)

theorem length_uidArgument_le {uidFilter : Int} (h : -(2 ^ 63) ≤ uidFilter ∧ uidFilter < 2 ^ 63) :
    (uidArgument uidFilter).length ≤ 21 := by
  unfold uidArgument
  split
  · exact length_argument_le h.1 h.2
  · exact Nat.zero_le _

theorem length_scanRequest_lt {minSize onlyPid uidFilter : Int} (hm : -(2 ^ 63) ≤ minSize ∧ minSize < 2 ^ 63)
    (hp : -(2 ^ 63) ≤ onlyPid ∧ onlyPid < 2 ^ 63) (hu : -(2 ^ 63) ≤ uidFilter ∧ uidFilter < 2 ^ 63) :
    (scanRequest minSize onlyPid uidFilter).length < lineSize := by
  have hm' := length_argument_le hm.1 hm.2
  have hp' := length_argument_le hp.1 hp.2
  have hu' := length_uidArgument_le hu
  simp only [scanRequest, List.length_append, lineSize, show (ascii "SCAN").length = 4 from rfl]
  omega

theorem length_statsRequest_lt {minSize uidFilter : Int} (hm : -(2 ^ 63) ≤ minSize ∧ minSize < 2 ^ 63)
    (hu : -(2 ^ 63) ≤ uidFilter ∧ uidFilter < 2 ^ 63) : (statsRequest minSize uidFilter).length < lineSize := by
  have hm' := length_argument_le hm.1 hm.2
  have hu' := length_uidArgument_le hu
  simp only [statsRequest, List.length_append, lineSize, show (ascii "STATS").length = 5 from rfl]
  omega

theorem notMem_of_printable {s : Bytes} (h : Json.Printable s) : 0x0a ∉ s ∧ 0 ∉ s :=
  ⟨fun hm => absurd (h _ hm) (by decide), fun hm => absurd (h _ hm) (by decide)⟩

end Server
end Hsed
