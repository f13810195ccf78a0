import Hsed.Scan.Correctness.Fields
import Mathlib.Data.List.DropRight

/-!
# `Scan.Correctness.Cmdline` — the command line put together again (`read_cmdline`)

The kernel shows the arguments of a process with a NUL behind each. `read_cmdline` copies them with a space
between two of them, and stops at the first empty one. `shownCmdline` says what the field is for: the non-empty
arguments, or the first line of `comm` when there is none.

`cmdlineLoop_eq` says what the loop leaves in the buffer: the arguments *before* the first empty one, all of
them whole, since the spaces take no more room than the NULs did. The two agree exactly when no empty argument
stands before a non-empty one (`cmdline_shown_iff`).
-/

namespace Hsed
namespace Scan

open CLib

/-! ## What the field should hold -/

/-- The NUL-separated arguments of what was read. -/
def arguments (raw : Bytes) : List Bytes := raw.splitOn 0

/-- The first line of `comm` as a C string, without the carriage returns at its end. -/
def commLine (comm : Option Bytes) : Bytes :=
  stripEol (cstr (((comm.getD []).take (hsedCmdlineMax - 1)).takeWhile (· != 0x0a)))

/-- The command line of a process with these two files. -/
def shownCmdline (text : Bytes) (comm : Option Bytes) : Bytes :=
  let args := (arguments (text.take (hsedCmdlineMax - 1))).filter (· ≠ [])
  if args ≠ [] then [0x20].intercalate args
  else if commLine comm ≠ [] then commLine comm
  else ascii "?"

/-- `read_cmdline` shows the command line `text`, whatever the rest of the process directory, and neither the
    copy loop nor the result needs more than the buffer has. -/
def CmdlineShown (text : Bytes) : Prop :=
  ∀ p : Proc, p.cmdline = some text →
    readCmdline p hsedCmdlineMax = shownCmdline text p.comm ∧
    (readCmdline p hsedCmdlineMax).length < hsedCmdlineMax ∧
    (cmdlineLoop hsedCmdlineMax (text.take (hsedCmdlineMax - 1)).length (text.take (hsedCmdlineMax - 1)) []
      false).1.length < hsedCmdlineMax

/-! ## Lists: the leading members and all members with a property -/

section Lists

variable {α : Type} {p : α → Bool}

theorem takeWhile_prefix_filter (l : List α) : l.takeWhile p <+: l.filter p := by
  induction l with
  | nil => exact List.prefix_rfl
  | cons a l ih =>
      by_cases ha : p a = true
      · rw [List.takeWhile_cons_of_pos ha, List.filter_cons_of_pos ha]
        exact (List.prefix_cons_inj a).mpr ih
      · rw [List.takeWhile_cons_of_neg ha]
        exact List.nil_prefix

theorem takeWhile_eq_filter_iff (l : List α) :
    l.takeWhile p = l.filter p ↔ l.Pairwise fun a b => p b = true → p a = true := by
  induction l with
  | nil => simp
  | cons a l ih =>
      rw [List.pairwise_cons]
      by_cases ha : p a = true
      · rw [List.takeWhile_cons_of_pos ha, List.filter_cons_of_pos ha, List.cons_inj_right, ih]
        exact ⟨fun h => ⟨fun _ _ _ => ha, h⟩, fun h => h.2⟩
      · rw [List.takeWhile_cons_of_neg ha, List.filter_cons_of_neg ha, eq_comm, List.filter_eq_nil_iff]
        constructor
        · intro h
          exact ⟨fun b hb hp => absurd hp (h b hb), List.pairwise_of_forall_mem_list
            fun b hb c hc hp => absurd hp (h c hc)⟩
        · intro h b hb hp
          exact ha (h.1 b hb hp)

theorem intercalate_cons (s : α) (a : List α) (as : List (List α)) :
    [s].intercalate (a :: as) = a ++ as.flatMap (s :: ·) := by
  induction as generalizing a with
  | nil => rw [List.intercalate_singleton, List.flatMap_nil, List.append_nil]
  | cons b as ih =>
      rw [List.intercalate_cons_cons, ih, List.flatMap_cons, List.append_assoc]
      rfl

/-- The length does not depend on what stands between. -/
theorem length_intercalate (s t : α) (as : List (List α)) :
    ([s].intercalate as).length = ([t].intercalate as).length := by
  cases as with
  | nil => rfl
  | cons a as => simp [intercalate_cons, List.length_flatMap]

theorem length_intercalate_le (s : α) {as bs : List (List α)} (h : as <+: bs) :
    ([s].intercalate as).length ≤ ([s].intercalate bs).length := by
  obtain ⟨cs, rfl⟩ := h
  cases as with
  | nil => exact Nat.zero_le _
  | cons a as =>
      rw [List.cons_append, intercalate_cons, intercalate_cons, List.flatMap_append, ← List.append_assoc]
      exact (List.prefix_append _ _).length_le

/-- A longer list of arguments is a longer command line. -/
theorem intercalate_prefix_inj {s : α} {as bs : List (List α)} (hne : as ≠ []) (hpre : as <+: bs)
    (h : [s].intercalate as = [s].intercalate bs) : as = bs := by
  obtain ⟨cs, rfl⟩ := hpre
  obtain ⟨a, as, rfl⟩ := List.exists_cons_of_ne_nil hne
  rw [List.cons_append, intercalate_cons, intercalate_cons, List.flatMap_append, ← List.append_assoc,
    List.self_eq_append_right] at h
  cases cs with
  | nil => rw [List.append_nil]
  | cons c cs => cases h

end Lists

/-! ## The copy loop -/

/-- The arguments the loop copies: those before the first empty one. -/
def copied (raw : Bytes) : List Bytes := (arguments raw).takeWhile (· ≠ [])

theorem arguments_append {arg : Bytes} (h : 0 ∉ arg) (rest : Bytes) :
    arguments (arg ++ 0 :: rest) = arg :: arguments rest :=
  List.splitOn_append_cons_self_of_not_mem h rest

theorem copied_of_empty {raw : Bytes} (h : cstr raw = []) : copied raw = [] := by
  rcases cstr_cases raw with hall | ⟨rest, hrest⟩
  · rw [h] at hall
    rw [← hall]
    rfl
  · -- the first byte is a NUL, so the first argument is empty
    rw [hrest, h, copied, arguments_append List.not_mem_nil]
    rfl

theorem copied_of_ne {raw : Bytes} (h : cstr raw ≠ []) :
    copied raw = cstr raw :: copied (raw.drop ((cstr raw).length + 1)) := by
  have hnul : (0 : UInt8) ∉ cstr raw := nul_notMem_cstr raw
  rcases cstr_cases raw with hall | ⟨rest, hrest⟩
  · -- no NUL was read: the argument is the last one
    rw [hall] at hnul h ⊢
    rw [List.drop_eq_nil_of_le (by omega), copied, arguments, List.splitOn_eq_singleton hnul,
      List.takeWhile_cons_of_pos (by simpa using h)]
    rfl
  · generalize cstr raw = arg at hnul h hrest ⊢
    subst hrest
    have hdrop : (arg ++ 0 :: rest).drop (arg.length + 1) = rest := by
      rw [← List.drop_drop, List.drop_left]
      rfl
    rw [hdrop, copied, arguments_append hnul, List.takeWhile_cons_of_pos (by simpa using h)]
    rfl

/-- What the loop adds for these arguments, depending on whether one was written before. -/
def appended (wroteAny : Bool) (args : List Bytes) : Bytes :=
  if wroteAny then args.flatMap (0x20 :: ·) else [0x20].intercalate args

/-- **The copy loop.** It copies the arguments before the first empty one, and none of them is cut. -/
theorem cmdlineLoop_eq (buflen : Nat) : ∀ (fuel : Nat) (raw out : Bytes) (wroteAny : Bool), raw.length ≤ fuel →
    (raw ≠ [] → out.length + raw.length + (if wroteAny then 1 else 0) < buflen) →
    cmdlineLoop buflen fuel raw out wroteAny =
      (out ++ appended wroteAny (copied raw), wroteAny || !(copied raw).isEmpty) := by
  intro fuel
  induction fuel with
  | zero =>
      intro raw out wroteAny hfuel _
      obtain rfl := List.eq_nil_of_length_eq_zero (Nat.le_zero.mp hfuel)
      rw [cmdlineLoop, copied_of_empty rfl]
      cases wroteAny <;> simp [appended]
  | succ fuel ih =>
      intro raw out wroteAny hfuel hroom
      cases raw with
      | nil =>
          rw [cmdlineLoop, copied_of_empty rfl]
          · cases wroteAny <;> simp [appended]
          · simp
      | cons b raw =>
          have hroom := hroom (by simp)
          have hle := (prefix_of_cstr (b :: raw)).length_le
          simp only [cmdlineLoop]
          by_cases harg : cstr (b :: raw) = []
          · rw [if_pos harg, copied_of_empty harg]
            cases wroteAny <;> simp [appended]
          · rw [if_neg harg, copied_of_ne harg]
            have hpos := List.length_pos_iff.mpr harg
            generalize cstr (b :: raw) = arg at hle hpos
            generalize b :: raw = raw at hle hroom hfuel
            -- the space fits, and the whole argument behind it
            have hsep : (if (wroteAny && decide (out.length + 1 < buflen)) = true then out ++ [0x20] else out) =
                out ++ (if wroteAny then [0x20] else []) := by
              cases wroteAny with
              | false => simp
              | true =>
                  simp only [if_true] at hroom
                  simp only [Bool.true_and, decide_eq_true_eq]
                  rw [if_pos (by omega)]
                  rfl
            have hlen : (out ++ (if wroteAny then [0x20] else [])).length + raw.length < buflen := by
              cases wroteAny <;> simp_all; omega
            rw [hsep]
            generalize hout : out ++ (if wroteAny then [0x20] else []) = out' at hlen
            have hcopy : ¬ buflen ≤ out'.length + arg.length := by omega
            have hfull : out'.length < buflen - 1 := by omega
            rw [if_neg hcopy, if_pos hfull, List.take_length, ih]
            · rw [← hout]
              cases wroteAny <;> simp [appended, intercalate_cons]
            · rw [List.length_drop]
              omega
            · intro hne
              have hmore := List.length_pos_iff.mpr hne
              rw [List.length_drop] at hmore
              rw [List.length_append, List.length_drop, if_pos rfl]
              omega

/-! ## The fallback -/

/-- The newline `fgets` keeps makes no difference once the line is stripped. -/
theorem stripEol_cstr_newline (line : Bytes) : stripEol (cstr (line ++ [0x0a])) = stripEol (cstr line) := by
  rcases cstr_cases line with hall | ⟨rest, hrest⟩
  · have hnul : (0 : UInt8) ∉ line := hall ▸ nul_notMem_cstr line
    have hcstr : cstr (line ++ [0x0a]) = line ++ [0x0a] := by
      apply cstr_eq_self
      intro b hb hb0
      rcases List.mem_append.mp hb with hb | hb
      · exact hnul (hb0 ▸ hb)
      · rw [List.mem_singleton.mp hb] at hb0
        exact absurd hb0 (by decide)
    rw [hcstr, hall]
    exact List.rdropWhile_concat_pos _ _ _ rfl
  · -- the C string ends before the newline
    have hcut : ∀ tail, cstr (cstr line ++ 0 :: tail) = cstr line := by
      intro tail
      rw [cstr, List.takeWhile_append_of_pos (fun b hb => @List.mem_takeWhile_imp _ (· != 0) _ _ hb),
        List.takeWhile_cons_of_neg (by decide), List.append_nil]
    rw [hrest, List.append_assoc, List.cons_append, hcut, hcut]

/-- The line `fgets` reads, as a C string and stripped. -/
theorem readFirstLine_eq (comm : Option Bytes) : readFirstLine comm hsedCmdlineMax = commLine comm := by
  cases comm with
  | none => rfl
  | some text =>
      cases text with
      | nil => rfl
      | cons b text =>
          simp only [readFirstLine, fgets, commLine, Option.getD_some]
          generalize b :: text = text
          have hwin : text.take (hsedCmdlineMax - 1) <+: text := List.take_prefix _ _
          generalize text.take (hsedCmdlineMax - 1) = window at hwin
          obtain ⟨rest, rfl⟩ := hwin
          have happ := @List.takeWhile_append_dropWhile _ (· != 0x0a) window
          cases hdrop : window.dropWhile (· != 0x0a) with
          | nil =>
              -- the window ends before the line does
              rw [hdrop, List.append_nil] at happ
              rw [happ, if_neg (lt_irrefl _), List.take_left]
          | cons c cs =>
              have hc : c = 0x0a := by
                have h := List.head_dropWhile_not (· != (0x0a : UInt8)) (by rw [hdrop]; exact List.cons_ne_nil c cs)
                simpa [hdrop] using h
              rw [hdrop, hc] at happ
              generalize window.takeWhile (· != 0x0a) = line at happ
              subst happ
              have hline : (line ++ 0x0a :: cs ++ rest).take (line.length + 1) = line ++ [0x0a] := by
                rw [List.append_assoc, List.take_length_add_append]
                rfl
              rw [if_pos (by simp), hline, stripEol_cstr_newline]

theorem firstLineOrUnknown_eq (comm : Option Bytes) :
    firstLineOrUnknown comm hsedCmdlineMax = if commLine comm ≠ [] then commLine comm else ascii "?" := by
  rw [firstLineOrUnknown, readFirstLine_eq]
  cases commLine comm with
  | nil => rfl
  | cons b line => rfl

theorem length_commLine_lt (comm : Option Bytes) : (commLine comm).length < hsedCmdlineMax := by
  have hstrip := (List.rdropWhile_prefix (fun b => b == 0x0a || b == 0x0d)
    (cstr (((comm.getD []).take (hsedCmdlineMax - 1)).takeWhile (· != 0x0a)))).length_le
  have hcstr := (prefix_of_cstr (((comm.getD []).take (hsedCmdlineMax - 1)).takeWhile (· != 0x0a))).length_le
  have hline := (List.takeWhile_prefix (l := (comm.getD []).take (hsedCmdlineMax - 1)) (· != 0x0a)).length_le
  have htake := List.length_take_le (hsedCmdlineMax - 1) (comm.getD [])
  have hpos : 0 < hsedCmdlineMax := by decide
  exact lt_of_le_of_lt (hstrip.trans (hcstr.trans (hline.trans htake))) (by omega)

/-! ## `read_cmdline` -/

/-- The copied arguments with their spaces are no longer than what was read with its NULs. -/
theorem length_intercalate_copied (raw : Bytes) : ([0x20].intercalate (copied raw)).length ≤ raw.length := by
  have hpre : copied raw <+: arguments raw := List.takeWhile_prefix _
  calc ([0x20].intercalate (copied raw)).length
      = ([0].intercalate (copied raw)).length := length_intercalate _ _ _
    _ ≤ ([0].intercalate (arguments raw)).length := length_intercalate_le 0 hpre
    _ = raw.length := by rw [arguments, List.intercalate_splitOn]

/-- What the loop leaves, for a command line that was read. -/
theorem cmdlineLoop_read (text : Bytes) :
    cmdlineLoop hsedCmdlineMax (text.take (hsedCmdlineMax - 1)).length (text.take (hsedCmdlineMax - 1)) [] false =
      ([0x20].intercalate (copied (text.take (hsedCmdlineMax - 1))),
        !(copied (text.take (hsedCmdlineMax - 1))).isEmpty) := by
  rw [cmdlineLoop_eq _ _ _ _ _ (le_refl _)]
  · rw [appended, if_neg (by decide), List.nil_append, Bool.false_or]
  · intro _
    have htake := List.length_take_le (hsedCmdlineMax - 1) text
    have hpos : 0 < hsedCmdlineMax := by decide
    simp only [List.length_nil, Bool.false_eq_true, if_false]
    omega

/-- **`read_cmdline`**: the arguments before the first empty one, or `comm` when there is none. -/
theorem readCmdline_eq {p : Proc} {text : Bytes} (h : p.cmdline = some text) :
    readCmdline p hsedCmdlineMax =
      if copied (text.take (hsedCmdlineMax - 1)) ≠ [] then
        [0x20].intercalate (copied (text.take (hsedCmdlineMax - 1)))
      else if commLine p.comm ≠ [] then commLine p.comm else ascii "?" := by
  simp only [readCmdline, h, cmdlineLoop_read]
  have hlen := length_intercalate_copied (text.take (hsedCmdlineMax - 1))
  have htake := List.length_take_le (hsedCmdlineMax - 1) text
  cases hc : copied (text.take (hsedCmdlineMax - 1)) with
  | nil => exact firstLineOrUnknown_eq p.comm
  | cons a as =>
      rw [hc] at hlen
      exact List.take_of_length_le (hlen.trans htake)

theorem length_readCmdline_lt {p : Proc} {text : Bytes} (h : p.cmdline = some text) :
    (readCmdline p hsedCmdlineMax).length < hsedCmdlineMax := by
  rw [readCmdline_eq h]
  split
  · have hlen := length_intercalate_copied (text.take (hsedCmdlineMax - 1))
    have htake := List.length_take_le (hsedCmdlineMax - 1) text
    exact lt_of_le_of_lt (hlen.trans htake) (by decide)
  · split
    · exact length_commLine_lt p.comm
    · decide

/-- A process directory with these two files. -/
def procWith (text : Bytes) (comm : Option Bytes) : Proc :=
  { uid := none, fds := none, fdinfo := fun _ => none, comm := comm, cmdline := some text }

/-- The code agrees with the specification for every `comm` only if it copies all the arguments there are:
    two processes with different `comm` would otherwise have to show the same. -/
theorem copied_eq_of_shown {text : Bytes} (h : CmdlineShown text) :
    copied (text.take (hsedCmdlineMax - 1)) = (arguments (text.take (hsedCmdlineMax - 1))).filter (· ≠ []) := by
  have hpre := takeWhile_prefix_filter (p := (· ≠ [])) (arguments (text.take (hsedCmdlineMax - 1)))
  have hshown : ∀ comm, _ := fun comm =>
    (readCmdline_eq (p := procWith text comm) rfl).symm.trans (h (procWith text comm) rfl).1
  simp only [shownCmdline] at hshown
  change copied _ <+: _ at hpre
  generalize copied (text.take (hsedCmdlineMax - 1)) = ws at hpre hshown
  generalize (arguments (text.take (hsedCmdlineMax - 1))).filter (· ≠ []) = fs at hpre hshown
  by_cases hws : ws = []
  · by_contra hne
    have hfs : fs ≠ [] := fun h => hne (hws.trans h.symm)
    -- `comm` is shown although there are arguments
    have hunknown := hshown none
    have hx := hshown (some (ascii "x"))
    rw [if_neg (not_not.mpr hws), if_pos hfs] at hunknown hx
    have hsame : ascii "x" = ascii "?" := hx.trans hunknown.symm
    exact absurd hsame (by decide)
  · have hfs : fs ≠ [] := fun h => hws (List.prefix_nil.mp (h ▸ hpre))
    have heq := hshown none
    rw [if_pos hws, if_pos hfs] at heq
    exact intercalate_prefix_inj hws hpre heq

/-- **Command line reconstruction, exactly when.** `read_cmdline` shows the non-empty arguments joined by
    spaces, or `comm` for want of any, within its buffer, if and only if no empty argument stands before a
    non-empty one in what it reads. -/
theorem cmdline_shown_iff (text : Bytes) :
    CmdlineShown text ↔ (arguments (text.take (hsedCmdlineMax - 1))).Pairwise fun a b => a = [] → b = [] := by
  have hcopied : copied (text.take (hsedCmdlineMax - 1)) =
      (arguments (text.take (hsedCmdlineMax - 1))).filter (· ≠ []) ↔
      (arguments (text.take (hsedCmdlineMax - 1))).Pairwise fun a b => a = [] → b = [] := by
    rw [copied, takeWhile_eq_filter_iff]
    refine List.Pairwise.iff fun a b => ?_
    simp only [decide_eq_true_eq]
    exact not_imp_not
  rw [← hcopied]
  constructor
  · exact copied_eq_of_shown
  · intro hall p hp
    refine ⟨?_, length_readCmdline_lt hp, ?_⟩
    · rw [readCmdline_eq hp, hall, shownCmdline]
    · rw [cmdlineLoop_read]
      have hlen := length_intercalate_copied (text.take (hsedCmdlineMax - 1))
      have htake := List.length_take_le (hsedCmdlineMax - 1) text
      exact lt_of_le_of_lt (hlen.trans htake) (by decide)

/-- `grep -r '' /srv`: everything behind the empty pattern is lost. -/
theorem cmdline_after_empty_lost : ¬ CmdlineShown (ascii "grep\x00-r\x00\x00/srv\x00") := by
  intro h
  have hshown := (h (procWith _ (some (ascii "grep\n"))) rfl).1
  exact absurd hshown (by decide +kernel)

end Scan
end Hsed
