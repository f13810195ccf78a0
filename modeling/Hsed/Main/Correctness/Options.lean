import Hsed.Main.Main
import Hsed.EndToEnd.Actions
import Hsed.EndToEnd.Filters

/-!
# `Main.Correctness.Options` — what an argument list means

An `Arg` is an option with its value; an argument list that `main` accepts is a sequence of them, and means their
effects in order (`args_read_exactly`). Every configuration the variables can hold can be asked for, in any order
of the options (`options_round_trip`).
-/

namespace Hsed
namespace Main

open CLib Scan Server EndToEnd

/-! ## The grammar -/

inductive Arg where
  | foreground
  | scanOnce
  | statsOnce
  | socket (path : Bytes)
  | pidfile (path : Bytes)
  | maxCapture (text : Bytes)
  | minSize (text : Bytes)
  | uid (text : Bytes)
  | scanThreads (text : Bytes)
  deriving DecidableEq, Repr

/-- The arguments it is written with. -/
def Arg.words : Arg → List Bytes
  | .foreground => [ascii "--foreground"]
  | .scanOnce => [ascii "--scan-once"]
  | .statsOnce => [ascii "--stats-once"]
  | .socket path => [ascii "--socket", path]
  | .pidfile path => [ascii "--pidfile", path]
  | .maxCapture text => [ascii "--max-capture", text]
  | .minSize text => [ascii "--min-size", text]
  | .uid text => [ascii "--uid", text]
  | .scanThreads text => [ascii "--scan-threads", text]

/-- What it sets. -/
def Arg.apply (o : Options) : Arg → Options
  | .foreground => { o with foreground := true }
  | .scanOnce => { o with scanOnce := true }
  | .statsOnce => { o with statsOnce := true }
  | .socket path => { o with socketPath := some path }
  | .pidfile path => { o with pidfile := path }
  | .maxCapture text => { o with maxCapture := strtoul text }
  | .minSize text => { o with minSize := strtol text }
  | .uid text => { o with uidFilter := toUInt32 (strtoul text) }
  | .scanThreads text => { o with scanThreads := atoi text }

def words (args : List Arg) : List Bytes := args.flatMap Arg.words

/-- No option starts here: the word is none, or its value is missing. -/
def Stuck (arg : Bytes) (rest : List Bytes) : Prop :=
  arg ∉ flags.map Prod.fst ∧ (arg ∈ valued.map Prod.fst → rest = [])

/-! ## One option -/

theorem parseArgs_words (a : Arg) (rest : List Bytes) (o : Options) :
    parseArgs (a.words ++ rest) o = parseArgs rest (a.apply o) := by
  cases a <;> rfl

theorem lookup_eq_none {α : Type} {table : List (Bytes × α)} {arg : Bytes} (h : arg ∉ table.map Prod.fst) :
    table.lookup arg = none := by
  rw [List.lookup_eq_none_iff]
  intro p hp
  rw [bne_iff_ne]
  rintro rfl
  exact h (List.mem_map_of_mem hp)

theorem parseArgs_stuck {arg : Bytes} {rest : List Bytes} (h : Stuck arg rest) (o : Options) :
    parseArgs (arg :: rest) o = if arg ∈ helpWords then .help else .unknown arg := by
  have hflag := lookup_eq_none h.1
  by_cases hval : arg ∈ valued.map Prod.fst
  · obtain rfl := h.2 hval
    rw [parseArgs, hflag]
    simp
  · rw [parseArgs, hflag]
    intro set v tail hset
    rw [lookup_eq_none hval] at hset
    cases hset

/-- An argument list is empty, or starts with an option, or is stuck. -/
theorem words_or_stuck (arg : Bytes) (rest : List Bytes) :
    (∃ (a : Arg) (tail : List Bytes), arg :: rest = a.words ++ tail) ∨ Stuck arg rest := by
  by_cases hflag : arg ∈ flags.map Prod.fst
  · simp only [flags, List.map_cons, List.map_nil, List.mem_cons, List.not_mem_nil, or_false] at hflag
    rcases hflag with rfl | rfl | rfl
    · exact .inl ⟨.foreground, rest, rfl⟩
    · exact .inl ⟨.scanOnce, rest, rfl⟩
    · exact .inl ⟨.statsOnce, rest, rfl⟩
  by_cases hval : arg ∈ valued.map Prod.fst
  · cases rest with
    | nil => exact .inr ⟨hflag, fun _ => rfl⟩
    | cons v rest =>
        simp only [valued, List.map_cons, List.map_nil, List.mem_cons, List.not_mem_nil, or_false] at hval
        rcases hval with rfl | rfl | rfl | rfl | rfl | rfl
        · exact .inl ⟨.socket v, rest, rfl⟩
        · exact .inl ⟨.pidfile v, rest, rfl⟩
        · exact .inl ⟨.maxCapture v, rest, rfl⟩
        · exact .inl ⟨.minSize v, rest, rfl⟩
        · exact .inl ⟨.uid v, rest, rfl⟩
        · exact .inl ⟨.scanThreads v, rest, rfl⟩
  · exact .inr ⟨hflag, fun h => absurd h hval⟩

/-! ## Whole argument lists -/

/-- **Options one after the other.** -/
theorem parseArgs_append (args : List Arg) (rest : List Bytes) : ∀ o : Options,
    parseArgs (words args ++ rest) o = parseArgs rest (args.foldl Arg.apply o) := by
  induction args with
  | nil => intro o; rfl
  | cons a args ih =>
      intro o
      rw [words, List.flatMap_cons, List.append_assoc, parseArgs_words]
      exact ih (a.apply o)

/-- Every list is options as far as it can be read, and then nothing or a stuck argument. -/
theorem words_then_stuck (argv : List Bytes) :
    ∃ args, argv = words args ∨ ∃ arg rest, argv = words args ++ arg :: rest ∧ Stuck arg rest := by
  induction hn : argv.length using Nat.strongRecOn generalizing argv with
  | _ n ih =>
      cases argv with
      | nil => exact ⟨[], .inl rfl⟩
      | cons arg rest =>
          rcases words_or_stuck arg rest with ⟨a, tail, heq⟩ | hstuck
          · have hshort : tail.length < n := by
              have hlen := congrArg List.length heq
              have hpos : 0 < a.words.length := by cases a <;> exact Nat.succ_pos _
              rw [List.length_append] at hlen
              omega
            obtain ⟨args, htail⟩ := ih tail.length hshort tail rfl
            refine ⟨a :: args, ?_⟩
            rw [heq, words, List.flatMap_cons]
            rcases htail with rfl | ⟨arg', rest', rfl, hstuck⟩
            · exact .inl rfl
            · exact .inr ⟨arg', rest', (List.append_assoc _ _ _).symm, hstuck⟩
          · exact ⟨[], .inr ⟨arg, rest, rfl, hstuck⟩⟩

/-- What is accepted is a sequence of options. -/
theorem parseArgs_options {argv : List Bytes} {o o' : Options} (h : parseArgs argv o = .options o') :
    ∃ args, argv = words args ∧ o' = args.foldl Arg.apply o := by
  obtain ⟨args, rfl | ⟨arg, rest, rfl, hstuck⟩⟩ := words_then_stuck argv
  · have hread := parseArgs_append args [] o
    rw [List.append_nil, h] at hread
    exact ⟨args, rfl, Parsed.options.inj hread⟩
  · rw [parseArgs_append, parseArgs_stuck hstuck] at h
    split at h <;> cases h

/-- **What an argument list means.** `main` accepts it iff it is a sequence of options, and then its variables
    hold their effects, in order; it prints the usage iff such a sequence is followed by a help word; it complains
    about an argument iff such a sequence is followed by it and it is neither an option with its value nor a help
    word. -/
theorem args_read_exactly (argv : List Bytes) (o : Options) :
    (∀ o', parseArgs argv o = .options o' ↔ ∃ args, argv = words args ∧ o' = args.foldl Arg.apply o) ∧
    (parseArgs argv o = .help ↔ ∃ args arg rest, argv = words args ++ arg :: rest ∧ arg ∈ helpWords) ∧
    ∀ arg, parseArgs argv o = .unknown arg ↔
      ∃ args rest, argv = words args ++ arg :: rest ∧ arg ∉ helpWords ∧ Stuck arg rest := by
  -- a help word is no option
  have hhelp : ∀ {arg : Bytes}, arg ∈ helpWords → ∀ rest, Stuck arg rest := by
    intro arg h rest
    simp only [helpWords, List.mem_cons, List.not_mem_nil, or_false] at h
    rcases h with rfl | rfl
    · exact ⟨by decide, fun hval => absurd hval (by decide)⟩
    · exact ⟨by decide, fun hval => absurd hval (by decide)⟩
  have hread : ∀ args, parseArgs (words args) o = .options (args.foldl Arg.apply o) := by
    intro args
    have happ := parseArgs_append args [] o
    rw [List.append_nil] at happ
    exact happ
  -- at the first word that is none, `main` stops reading
  have hstop : ∀ args {arg : Bytes} {rest : List Bytes}, Stuck arg rest →
      parseArgs (words args ++ arg :: rest) o = if arg ∈ helpWords then .help else .unknown arg := by
    intro args arg rest h
    rw [parseArgs_append, parseArgs_stuck h]
  refine ⟨?_, ?_, ?_⟩
  · intro o'
    refine ⟨parseArgs_options, ?_⟩
    rintro ⟨args, rfl, rfl⟩
    exact hread args
  · constructor
    · intro h
      obtain ⟨args, rfl | ⟨arg, rest, rfl, hstuck⟩⟩ := words_then_stuck argv
      · rw [hread] at h
        cases h
      · rw [hstop args hstuck] at h
        split at h
        next hmem => exact ⟨args, arg, rest, rfl, hmem⟩
        · cases h
    · rintro ⟨args, arg, rest, rfl, hmem⟩
      rw [hstop args (hhelp hmem rest), if_pos hmem]
  · intro arg
    constructor
    · intro h
      obtain ⟨args, rfl | ⟨arg', rest, rfl, hstuck⟩⟩ := words_then_stuck argv
      · rw [hread] at h
        cases h
      · rw [hstop args hstuck] at h
        split at h
        · cases h
        next hmem =>
          obtain rfl := Parsed.unknown.inj h
          exact ⟨args, rest, rfl, hmem, hstuck⟩
    · rintro ⟨args, rest, rfl, hmem, hstuck⟩
      rw [hstop args hstuck, if_neg hmem]

/-! ## Configurations -/

/-- The values the variables can hold. -/
structure Options.Fits (o : Options) : Prop where
  maxCapture : o.maxCapture < 2 ^ 64
  minSize : IsInt64 o.minSize
  uidFilter : o.uidFilter < 2 ^ 32
  scanThreads : -(2 ^ 31) ≤ o.scanThreads ∧ o.scanThreads < 2 ^ 31

theorem strtoul_lt (s : Bytes) : strtoul s < 2 ^ 64 := by
  simp only [strtoul]
  split
  · omega
  · split
    · exact Nat.mod_lt _ (by decide)
    · omega

theorem strtol_isInt64 (s : Bytes) : IsInt64 (strtol s) := by
  simp only [IsInt64, strtol, clampLong]
  omega

theorem toUInt32_lt (x : Int) : toUInt32 x < 2 ^ 32 := by
  rw [toUInt32]
  omega

theorem Options.Fits.apply {o : Options} (h : o.Fits) (a : Arg) : (a.apply o).Fits := by
  cases a with
  | maxCapture text => exact ⟨strtoul_lt text, h.minSize, h.uidFilter, h.scanThreads⟩
  | minSize text => exact ⟨h.maxCapture, strtol_isInt64 text, h.uidFilter, h.scanThreads⟩
  | uid text => exact ⟨h.maxCapture, h.minSize, toUInt32_lt (strtoul text), h.scanThreads⟩
  | scanThreads text => exact ⟨h.maxCapture, h.minSize, h.uidFilter, toInt32_bounds _⟩
  | _ => exact ⟨h.maxCapture, h.minSize, h.uidFilter, h.scanThreads⟩

theorem Options.Fits.init : Options.init.Fits :=
  ⟨by decide, ⟨by decide, by decide⟩, by decide, by decide, by decide⟩

/-- Whatever stands in `argv`, the variables hold what their types can. -/
theorem fits_of_parseArgs {argv : List Bytes} {o : Options} (h : parseArgs argv Options.init = .options o) :
    o.Fits := by
  obtain ⟨args, -, rfl⟩ := parseArgs_options h
  have hrun : ∀ (args : List Arg) (o : Options), o.Fits → (args.foldl Arg.apply o).Fits := by
    intro args
    induction args with
    | nil => intro o ho; exact ho
    | cons a args ih => intro o ho; exact ih (a.apply o) (ho.apply a)
  exact hrun args Options.init Options.Fits.init

/-- The arguments that ask for a configuration, with every number printed. -/
def Options.args (o : Options) : List Arg :=
  (if o.foreground then [.foreground] else []) ++ (if o.scanOnce then [.scanOnce] else []) ++
    (if o.statsOnce then [.statsOnce] else []) ++ o.socketPath.toList.map .socket ++
    [.pidfile o.pidfile, .maxCapture (decNat o.maxCapture), .minSize (decInt o.minSize),
      .uid (decNat o.uidFilter), .scanThreads (decInt o.scanThreads)]

/-- Which variable an argument sets. -/
def Arg.target : Arg → Nat
  | .foreground => 0
  | .scanOnce => 1
  | .statsOnce => 2
  | .socket _ => 3
  | .pidfile _ => 4
  | .maxCapture _ => 5
  | .minSize _ => 6
  | .uid _ => 7
  | .scanThreads _ => 8

/-- Arguments for different variables may be swapped. -/
theorem apply_comm {a b : Arg} (h : a.target ≠ b.target) (o : Options) :
    (b.apply (a.apply o)) = a.apply (b.apply o) := by
  cases a <;> cases b <;> first | rfl | exact absurd rfl h

theorem strtoul_decNat {n : Nat} (h : n < 2 ^ 64) : strtoul (decNat n) = n := by
  have hdigits : (decNat n).takeWhile isDigit = decNat n := List.takeWhile_eq_self_iff.mpr (isDigit_decNat n)
  have hspace : (decNat n).dropWhile isSpace = decNat n := by
    cases hd : decNat n with
    | nil => rfl
    | cons b s =>
        apply List.dropWhile_cons_of_neg
        rw [isDigit_not_space (isDigit_decNat n b (by rw [hd]; exact List.mem_cons_self))]
        exact Bool.false_ne_true
  simp only [strtoul, hspace, splitSign_decNat, hdigits, digitsVal_decNat, Bool.false_eq_true, if_false]
  exact if_neg (Nat.not_le.mpr h)

/-- Read back, the printed numbers are the configuration's. -/
theorem foldl_args {o : Options} (h : o.Fits) : o.args.foldl Arg.apply Options.init = o := by
  have hcapture := strtoul_decNat h.maxCapture
  have hsize : strtol (decInt o.minSize) = o.minSize := strtol_decInt h.minSize.1 h.minSize.2
  have huid : toUInt32 (strtoul (decNat o.uidFilter)) = o.uidFilter := by
    have hlt := h.uidFilter
    rw [strtoul_decNat (by omega), toUInt32]
    omega
  have hthreads := (argument_survives h.scanThreads).2
  obtain ⟨foreground, scanOnce, statsOnce, socketPath, pidfile, maxCapture, minSize, uidFilter, scanThreads⟩ := o
  cases foreground <;> cases scanOnce <;> cases statsOnce <;> cases socketPath <;>
    simp only [Options.args, Options.init, Bool.false_eq_true, if_true, if_false, Option.toList_none,
      Option.toList_some, List.map_nil, List.map_cons, List.nil_append, List.cons_append, List.append_nil,
      List.foldl_cons, List.foldl_nil, Arg.apply, hcapture, hsize, huid, hthreads]

theorem targets_nodup (o : Options) : (o.args.map Arg.target).Nodup := by
  obtain ⟨foreground, scanOnce, statsOnce, socketPath, pidfile, maxCapture, minSize, uidFilter, scanThreads⟩ := o
  cases foreground <;> cases scanOnce <;> cases statsOnce <;> cases socketPath <;>
    simp [Options.args, Arg.target]

/-- **Every configuration can be asked for**, by its own options in any order. -/
theorem options_round_trip {o : Options} (h : o.Fits) {args : List Arg} (hperm : args.Perm o.args) :
    parseArgs (words args) Options.init = .options o := by
  have hnodup : (args.map Arg.target).Nodup := (hperm.map Arg.target).nodup_iff.mpr (targets_nodup o)
  have hfold : args.foldl Arg.apply Options.init = o.args.foldl Arg.apply Options.init := by
    apply hperm.foldl_eq'
    intro a ha b hb o'
    by_cases heq : a.target = b.target
    · rw [List.inj_on_of_nodup_map hnodup ha hb heq]
    · exact apply_comm heq o'
  have hread := parseArgs_append args [] Options.init
  rw [List.append_nil] at hread
  rw [hread, parseArgs, hfold, foldl_args h]

/-- A daemon in the foreground on a socket of its own that captures whole pages. -/
def pageOptions : Options :=
  { Options.init with foreground := true, socketPath := some (ascii "/tmp/s"), maxCapture := 4096 }

theorem options_round_trip_page :
    parseArgs (words [.maxCapture (ascii "4096"), .uid (ascii "4294967295"), .foreground, .socket (ascii "/tmp/s"),
      .pidfile (ascii "/run/hsed.pid"), .scanThreads (ascii "0"), .minSize (ascii "0")]) Options.init =
      .options pageOptions := by
  apply options_round_trip
  · exact ⟨by decide, ⟨by decide, by decide⟩, by decide, by decide, by decide⟩
  · have hargs : pageOptions.args = [.foreground, .socket (ascii "/tmp/s"), .pidfile (ascii "/run/hsed.pid"),
        .maxCapture (ascii "4096"), .minSize (ascii "0"), .uid (ascii "4294967295"), .scanThreads (ascii "0")] := by
      decide
    rw [hargs]
    decide

end Main
end Hsed
