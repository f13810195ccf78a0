import Hsed.Tracer.Correctness.Capture

/-!
# `Tracer.Correctness.Payload` — captured bytes against the bytes that were written

The target's memory has contents everywhere, but `process_vm_readv` reads only part of it (`View`), and stops
at the first byte it cannot read. The payload of a call is made of the contents; the buffer `write_cb` gets is
made of what was read.

For `write` and `pwrite64` the buffer is always a prefix of what was written. `capture_writev` is not told how
much that was, and goes on with the next segment where a read came back short: `captured_truly_iff` says exactly
when this does no harm. `leading` is the part of a list of cells that a reader gets before the first gap;
`captureSegments_unbroken` and `captureSegments_broken` say what the segment loop adds to it.
-/

namespace Hsed
namespace Tracer

open CLib

/-! ## Memory -/

/-- The target's memory as `process_vm_readv` sees it: a byte, or nothing where it cannot read. -/
abbrev View := Nat → Option UInt8

/-- The cells of a range. -/
def cellsAt (view : View) (addr : Nat) : Nat → List (Option UInt8)
  | 0 => []
  | len + 1 => view addr :: cellsAt view (addr + 1) len

/-- The bytes before the first cell that cannot be read. -/
def leading : List (Option UInt8) → Bytes
  | some b :: cells => b :: leading cells
  | _ => []

/-- `read_remote` on such a memory: what can be read of the range, up to its first gap; an error if that is
    nothing. -/
def readRemote (view : View) : Memory := fun addr len =>
  match leading (cellsAt view addr len) with
  | [] => none
  | bs => some bs

/-- What the memory holds, readable or not. -/
abbrev Contents := Nat → UInt8

/-- The view shows these contents where it shows anything. -/
def Shows (view : View) (contents : Contents) : Prop := ∀ addr b, view addr = some b → contents addr = b

/-- The contents of a range. -/
def span (contents : Contents) (addr : Nat) : Nat → Bytes
  | 0 => []
  | len + 1 => contents addr :: span contents (addr + 1) len

/-! ## What was written, and what is captured of it -/

/-- The segments of a `writev`, in order, as the kernel found them in memory. -/
def segments (contents : Contents) (iovAddr iovcnt : Nat) : List (Nat × Nat) :=
  parseIovs iovcnt (span contents iovAddr (iovcnt * 16))

/-- The bytes a call was given to write: the buffer, or the segments one behind the other. -/
def payload (contents : Contents) (isWritev : Bool) (addr n : Nat) : Bytes :=
  if isWritev then (segments contents addr n).flatMap fun (base, len) => span contents base len
  else span contents addr n

/-- The exit stop of a call that was entered with `enter` passes on what was written and nothing else, whatever
    the memory holds where it cannot be read. -/
def CapturedTruly (sys : Sysno) (fd : Int) (maxCapture : Nat) (view : View) (t : Int) (ts : TidState)
    (enter exit : Regs) : Prop :=
  ∀ contents, Shows view contents →
    ∀ call ∈ exitCalls maxCapture (Event.answers (readRemote view) (.leave exit)) t
        (enterStop sys fd (some enter) ts),
      (call.buf.length : Int) ≤ min (max exit.ret 0) maxCapture ∧
      call.buf <+: (payload contents (enter.syscallNr == sys.writev) enter.arg2 enter.arg3).take exit.ret.toNat

/-- The segments `capture_writev` looks at: at most sixteen, and only those whose record it can read. -/
def consulted (view : View) (iovAddr iovcnt : Nat) : List (Nat × Nat) :=
  let bs := leading (cellsAt view iovAddr (min iovcnt maxWritevIovecs * 16))
  parseIovs (bs.length / 16) bs

/-- The cells of some segments. -/
def cells (view : View) (segs : List (Nat × Nat)) : List (Option UInt8) :=
  segs.flatMap fun (base, len) => cellsAt view base len

/-- Behind a gap no segment starts with a byte that can be read. -/
def Unbroken (view : View) (room : Nat) (segs : List (Nat × Nat)) : Prop :=
  ∀ pre post, segs = pre ++ post → none ∈ (cells view pre).take room → ∀ s ∈ post, s.2 = 0 ∨ view s.1 = none

/-- `capture_writev` can be trusted: the call wrote all that can be read of the consulted segments, as far as
    `max_capture` goes and the first gap, and nothing is readable behind that gap. -/
def WritevIntact (view : View) (maxCapture iovAddr iovcnt : Nat) (ret : Int) : Prop :=
  (leading ((cells view (consulted view iovAddr iovcnt)).take maxCapture)).length ≤ ret ∧
    Unbroken view maxCapture (consulted view iovAddr iovcnt)

/-! ## Cells -/

theorem length_cellsAt (view : View) (addr len : Nat) : (cellsAt view addr len).length = len := by
  induction len generalizing addr with
  | zero => rfl
  | succ len ih => rw [cellsAt, List.length_cons, ih]

theorem take_cellsAt (view : View) (addr len n : Nat) :
    (cellsAt view addr len).take n = cellsAt view addr (min len n) := by
  induction len generalizing addr n with
  | zero => rw [Nat.zero_min, cellsAt, List.take_nil]
  | succ len ih =>
      cases n with
      | zero => rfl
      | succ n => rw [cellsAt, List.take_succ_cons, ih, Nat.succ_min_succ, cellsAt]

theorem length_leading_le (cs : List (Option UInt8)) : (leading cs).length ≤ cs.length := by
  induction cs with
  | nil => exact le_refl 0
  | cons c cs ih =>
      cases c with
      | none => exact Nat.zero_le _
      | some b => exact Nat.succ_le_succ ih

/-- Without a gap everything is read, and reading goes on. -/
theorem leading_append_of_full {cs : List (Option UInt8)} (h : none ∉ cs) (ds : List (Option UInt8)) :
    (leading cs).length = cs.length ∧ leading (cs ++ ds) = leading cs ++ leading ds := by
  induction cs with
  | nil => exact ⟨rfl, rfl⟩
  | cons c cs ih =>
      obtain ⟨hc, hcs⟩ := not_or.mp (fun hm => h (List.mem_cons.mpr hm))
      cases c with
      | none => exact absurd rfl hc
      | some b =>
          obtain ⟨hlen, happ⟩ := ih hcs
          exact ⟨congrArg (· + 1) hlen, congrArg (b :: ·) happ⟩

/-- At a gap reading ends. -/
theorem leading_append_of_gap {cs : List (Option UInt8)} (h : none ∈ cs) (ds : List (Option UInt8)) :
    (leading cs).length < cs.length ∧ leading (cs ++ ds) = leading cs := by
  induction cs with
  | nil => cases h
  | cons c cs ih =>
      cases c with
      | none => exact ⟨Nat.succ_pos _, rfl⟩
      | some b =>
          have hcs : none ∈ cs := (List.mem_cons.mp h).resolve_left nofun
          obtain ⟨hlen, happ⟩ := ih hcs
          exact ⟨Nat.succ_lt_succ hlen, congrArg (b :: ·) happ⟩

/-- What stands in front of the first gap, and the gap. -/
theorem split_at_gap {cs : List (Option UInt8)} (h : none ∈ cs) :
    ∃ ds, cs = (leading cs).map some ++ none :: ds := by
  induction cs with
  | nil => cases h
  | cons c cs ih =>
      cases c with
      | none => exact ⟨cs, rfl⟩
      | some b =>
          obtain ⟨ds, hds⟩ := ih ((List.mem_cons.mp h).resolve_left nofun)
          exact ⟨ds, congrArg (some b :: ·) hds⟩

theorem readRemote_getD (view : View) (addr want : Nat) :
    ((readRemote view addr want).getD []).take want = leading (cellsAt view addr want) := by
  have hle := length_leading_le (cellsAt view addr want)
  rw [length_cellsAt] at hle
  have hget : (readRemote view addr want).getD [] = leading (cellsAt view addr want) := by
    unfold readRemote
    split
    · next h => rw [h]; rfl
    · rfl
  rw [hget, List.take_of_length_le hle]

/-! ## The segment loop -/

section Segments

variable {view : View} {maxCapture : Nat}

/-- One turn of the loop. -/
theorem captureSegments_cons (base len : Nat) (segs : List (Nat × Nat)) {capture : Bytes}
    (h : capture.length < maxCapture) :
    captureSegments (readRemote view) maxCapture ((base, len) :: segs) capture =
      captureSegments (readRemote view) maxCapture segs
        (capture ++ leading (cellsAt view base (min len (maxCapture - capture.length)))) := by
  simp only [captureSegments]
  rw [if_pos h]
  split
  · next hzero => rw [hzero, cellsAt, leading, List.append_nil]; simp
  · rw [readRemote_getD]

theorem captureSegments_full (segs : List (Nat × Nat)) {capture : Bytes} (h : ¬ capture.length < maxCapture) :
    captureSegments (readRemote view) maxCapture segs capture = capture := by
  cases segs with
  | nil => rfl
  | cons s segs => simp only [captureSegments, if_neg h]

theorem prefix_captureSegments (segs : List (Nat × Nat)) :
    ∀ capture, capture <+: captureSegments (readRemote view) maxCapture segs capture := by
  induction segs with
  | nil => exact fun capture => List.prefix_rfl
  | cons s segs ih =>
      intro capture
      by_cases h : capture.length < maxCapture
      · rw [captureSegments_cons _ _ _ h]
        exact (List.prefix_append _ _).trans (ih _)
      · rw [captureSegments_full _ h]

/-- Segments of which nothing can be read add nothing. -/
theorem captureSegments_dead {segs : List (Nat × Nat)} (hdead : ∀ s ∈ segs, s.2 = 0 ∨ view s.1 = none)
    (capture : Bytes) : captureSegments (readRemote view) maxCapture segs capture = capture := by
  induction segs with
  | nil => rfl
  | cons s segs ih =>
      obtain ⟨hs, hsegs⟩ := List.forall_mem_cons.mp hdead
      by_cases h : capture.length < maxCapture
      · have hnothing : leading (cellsAt view s.1 (min s.2 (maxCapture - capture.length))) = [] := by
          cases hmin : min s.2 (maxCapture - capture.length) with
          | zero => rfl
          | succ n =>
              have hnone : view s.1 = none := by
                apply hs.resolve_left
                rintro hzero
                rw [hzero, Nat.zero_min] at hmin
                cases hmin
              rw [cellsAt, hnone]
              rfl
        rw [captureSegments_cons _ _ _ h, hnothing, List.append_nil]
        exact ih hsegs
      · exact captureSegments_full _ h

/-- A segment that starts with a readable byte adds to the capture, if there is room. -/
theorem captureSegments_alive {segs : List (Nat × Nat)} {s : Nat × Nat} (hs : s ∈ segs) (hlen : s.2 ≠ 0)
    (hread : view s.1 ≠ none) :
    ∀ capture, capture.length < maxCapture →
      ∃ b rest, captureSegments (readRemote view) maxCapture segs capture = capture ++ b :: rest := by
  induction segs with
  | nil => cases hs
  | cons s' segs ih =>
      intro capture hroom
      rw [captureSegments_cons _ _ _ hroom]
      cases hread' : leading (cellsAt view s'.1 (min s'.2 (maxCapture - capture.length))) with
      | cons b bs =>
          obtain ⟨rest, hrest⟩ := @prefix_captureSegments view maxCapture segs (capture ++ b :: bs)
          exact ⟨b, bs ++ rest, by rw [← hrest, List.append_assoc, List.cons_append]⟩
      | nil =>
          rw [List.append_nil]
          rcases List.mem_cons.mp hs with rfl | hs
          · -- it is this one, and its first byte is read
            obtain ⟨b, hb⟩ := Option.ne_none_iff_exists'.mp hread
            obtain ⟨n, hn⟩ : ∃ n, min s.2 (maxCapture - capture.length) = n + 1 :=
              Nat.exists_eq_succ_of_ne_zero (by omega)
            rw [hn, cellsAt, hb] at hread'
            cases hread'
          · exact ih hs capture hroom

theorem cells_cons (s : Nat × Nat) (segs : List (Nat × Nat)) :
    cells view (s :: segs) = cellsAt view s.1 s.2 ++ cells view segs := rfl

/-- The cells the room allows, taken segment by segment. -/
theorem take_cells_cons (s : Nat × Nat) (segs : List (Nat × Nat)) (room : Nat) :
    (cells view (s :: segs)).take room =
      cellsAt view s.1 (min s.2 room) ++ (cells view segs).take (room - min s.2 room) := by
  rw [cells_cons, List.take_append, take_cellsAt, length_cellsAt]
  congr 2
  omega

/-- Room left after a segment that was read in full. -/
theorem room_after {capture : Bytes} {base len : Nat}
    (h : none ∉ cellsAt view base (min len (maxCapture - capture.length))) :
    maxCapture - (capture ++ leading (cellsAt view base (min len (maxCapture - capture.length)))).length =
      maxCapture - capture.length - min len (maxCapture - capture.length) := by
  rw [List.length_append, (leading_append_of_full h []).1, length_cellsAt]
  omega

/-- **Without a break** the capture is what can be read in front of the first gap. -/
theorem captureSegments_unbroken (segs : List (Nat × Nat)) :
    ∀ capture : Bytes, Unbroken view (maxCapture - capture.length) segs →
      captureSegments (readRemote view) maxCapture segs capture =
        capture ++ leading ((cells view segs).take (maxCapture - capture.length)) := by
  induction segs with
  | nil => intro capture _; simp [captureSegments, cells, leading]
  | cons s segs ih =>
      intro capture hun
      by_cases hroom : capture.length < maxCapture
      · rw [captureSegments_cons _ _ _ hroom, take_cells_cons]
        by_cases hgap : none ∈ cellsAt view s.1 (min s.2 (maxCapture - capture.length))
        · -- the rest is dead
          rw [(leading_append_of_gap hgap _).2]
          apply captureSegments_dead
          refine hun [s] segs rfl ?_
          rw [take_cells_cons]
          exact List.mem_append_left _ hgap
        · rw [(leading_append_of_full hgap _).2, ih, room_after hgap, List.append_assoc]
          rw [room_after hgap]
          intro pre post heq hpre
          refine hun (s :: pre) post (congrArg (s :: ·) heq) ?_
          rw [take_cells_cons]
          exact List.mem_append_right _ hpre
      · have hzero : maxCapture - capture.length = 0 := by omega
        rw [captureSegments_full _ hroom, hzero, List.take_zero, leading, List.append_nil]
        simp

/-- **With a break** something that was read further on stands where the first gap is. -/
theorem captureSegments_broken {post : List (Nat × Nat)} {s : Nat × Nat} (hs : s ∈ post) (hlen : s.2 ≠ 0)
    (hread : view s.1 ≠ none) (pre : List (Nat × Nat)) :
    ∀ capture : Bytes, none ∈ (cells view pre).take (maxCapture - capture.length) →
      ∃ b rest, captureSegments (readRemote view) maxCapture (pre ++ post) capture =
        capture ++ leading ((cells view pre).take (maxCapture - capture.length)) ++ b :: rest := by
  induction pre with
  | nil => intro capture h; simp [cells] at h
  | cons s' pre ih =>
      intro capture h
      have hroom : capture.length < maxCapture := by
        by_contra hno
        rw [Nat.sub_eq_zero_of_le (Nat.not_lt.mp hno), List.take_zero] at h
        cases h
      rw [take_cells_cons] at h ⊢
      rw [List.cons_append, captureSegments_cons _ _ _ hroom]
      by_cases hgap : none ∈ cellsAt view s'.1 (min s'.2 (maxCapture - capture.length))
      · obtain ⟨hshort, hstop⟩ := leading_append_of_gap hgap
          ((cells view pre).take (maxCapture - capture.length - min s'.2 (maxCapture - capture.length)))
        rw [hstop]
        apply captureSegments_alive (List.mem_append_right pre hs) hlen hread
        rw [length_cellsAt] at hshort
        rw [List.length_append]
        omega
      · have hrest := (List.mem_append.mp h).resolve_left hgap
        rw [← room_after hgap] at hrest
        obtain ⟨b, rest, heq⟩ := ih _ hrest
        refine ⟨b, rest, ?_⟩
        rw [heq, room_after hgap, (leading_append_of_full hgap _).2, List.append_assoc capture]

end Segments

/-! ## Against the contents -/

section Contents

variable {view : View} {contents : Contents}

/-- What is read of a range is a prefix of what it holds. -/
theorem leading_prefix_span (h : Shows view contents) (addr len more : Nat) :
    leading (cellsAt view addr len) <+: span contents addr (len + more) := by
  induction len generalizing addr with
  | zero => exact List.nil_prefix
  | succ len ih =>
      rw [Nat.succ_add, span, cellsAt]
      cases hv : view addr with
      | none => exact List.nil_prefix
      | some b =>
          rw [h addr b hv, leading]
          exact (List.prefix_cons_inj b).mpr (ih (addr + 1))

/-- Cells that show the bytes of a list, one for one. -/
theorem prefix_leading_take {cs : List (Option UInt8)} {bs : Bytes}
    (h : List.Forall₂ (fun c b => ∀ b', c = some b' → b = b') cs bs) (n : Nat) : leading (cs.take n) <+: bs := by
  induction h generalizing n with
  | nil => rw [List.take_nil]; exact List.nil_prefix
  | @cons c b cs bs hc _ ih =>
      cases n with
      | zero => exact List.nil_prefix
      | succ n =>
          rw [List.take_succ_cons]
          cases c with
          | none => exact List.nil_prefix
          | some b' =>
              rw [hc b' rfl, leading]
              exact (List.prefix_cons_inj b').mpr (ih n)

theorem cellsAt_shown (h : Shows view contents) (addr len : Nat) :
    List.Forall₂ (fun c b => ∀ b', c = some b' → b = b') (cellsAt view addr len) (span contents addr len) := by
  induction len generalizing addr with
  | zero => exact List.Forall₂.nil
  | succ len ih => exact List.Forall₂.cons (h addr) (ih (addr + 1))

theorem cells_shown (h : Shows view contents) (segs : List (Nat × Nat)) :
    List.Forall₂ (fun c b => ∀ b', c = some b' → b = b') (cells view segs)
      (segs.flatMap fun (base, len) => span contents base len) := by
  induction segs with
  | nil => exact List.Forall₂.nil
  | cons s segs ih => exact List.rel_append (cellsAt_shown h s.1 s.2) ih

/-- Records read from a prefix of the array are its first records. -/
theorem parseIovs_prefix (m : Nat) : ∀ {n : Nat} {bs cs : Bytes}, bs <+: cs → m ≤ n → 16 * m ≤ bs.length →
    parseIovs m bs <+: parseIovs n cs := by
  induction m with
  | zero => exact fun _ _ _ => List.nil_prefix
  | succ m ih =>
      intro n bs cs hpre hmn hlen
      obtain ⟨n, rfl⟩ : ∃ k, n = k + 1 := ⟨n - 1, by omega⟩
      obtain ⟨rest, rfl⟩ := hpre
      rw [parseIovs, parseIovs]
      have hbase : (bs ++ rest).take 8 = bs.take 8 := List.take_append_of_le_length (by omega)
      have hdrop : ∀ k ≤ 16, (bs ++ rest).drop k = bs.drop k ++ rest :=
        fun k hk => List.drop_append_of_le_length (by omega)
      have hcount : ((bs ++ rest).drop 8).take 8 = (bs.drop 8).take 8 := by
        rw [hdrop 8 (by omega), List.take_append_of_le_length]
        rw [List.length_drop]
        omega
      rw [hbase, hcount, hdrop 16 (by omega)]
      refine (List.prefix_cons_inj _).mpr (ih (List.prefix_append _ _) (by omega) ?_)
      rw [List.length_drop]
      omega

/-- The consulted segments are the first ones of the call. -/
theorem consulted_prefix_segments (h : Shows view contents) (iovAddr iovcnt : Nat) :
    consulted view iovAddr iovcnt <+: segments contents iovAddr iovcnt := by
  have hle := length_leading_le (cellsAt view iovAddr (min iovcnt maxWritevIovecs * 16))
  rw [length_cellsAt] at hle
  have hmin : min iovcnt maxWritevIovecs * 16 + (iovcnt * 16 - min iovcnt maxWritevIovecs * 16) = iovcnt * 16 := by
    omega
  have hpre := leading_prefix_span h iovAddr (min iovcnt maxWritevIovecs * 16)
    (iovcnt * 16 - min iovcnt maxWritevIovecs * 16)
  rw [hmin] at hpre
  exact parseIovs_prefix _ hpre (by omega) (by omega)

/-- So their contents are the first bytes of the payload. -/
theorem consulted_prefix_payload (h : Shows view contents) (iovAddr iovcnt : Nat) :
    ((consulted view iovAddr iovcnt).flatMap fun (base, len) => span contents base len) <+:
      payload contents true iovAddr iovcnt := by
  obtain ⟨rest, hrest⟩ := consulted_prefix_segments h iovAddr iovcnt
  rw [payload, if_pos rfl, ← hrest, List.flatMap_append]
  exact List.prefix_append _ _

end Contents

/-- `capture_writev` runs the segment loop over the consulted segments. -/
theorem captureWritev_eq (view : View) (iovAddr iovcnt maxCapture : Nat) :
    captureWritev (readRemote view) iovAddr iovcnt maxCapture =
      captureSegments (readRemote view) maxCapture (consulted view iovAddr iovcnt) [] := by
  unfold captureWritev consulted
  have hmin : (if maxWritevIovecs < iovcnt then maxWritevIovecs else iovcnt) = min iovcnt maxWritevIovecs := by
    rw [Nat.min_def]
    split <;> split <;> omega
  by_cases hzero : iovcnt = 0
  · rw [if_pos hzero, hzero, Nat.zero_min, Nat.zero_mul]
    simp [cellsAt, leading, parseIovs, captureSegments]
  · rw [if_neg hzero, hmin]
    have hget := readRemote_getD view iovAddr (min iovcnt maxWritevIovecs * 16)
    simp only
    cases hread : readRemote view iovAddr (min iovcnt maxWritevIovecs * 16) with
    | none =>
        rw [hread, Option.getD_none, List.take_nil] at hget
        rw [← hget]
        simp [parseIovs, captureSegments]
    | some bs =>
        rw [hread, Option.getD_some] at hget
        simp only [hget]

/-! ## At the exit stop -/

section Truly

variable {view : View}

/-- `write` and `pwrite64`: whatever could be read is what was written. -/
theorem plain_truly {maxCapture addr n : Nat} {ret : Int} (hret : ret ≤ n) {contents : Contents}
    (h : Shows view contents) :
    ((captured (readRemote view) maxCapture false addr 0 ret).length : Int) ≤ min (max ret 0) maxCapture ∧
      captured (readRemote view) maxCapture false addr 0 ret <+: (payload contents false addr n).take ret.toNat := by
  unfold captured payload
  by_cases hpos : 0 < ret
  · rw [if_pos hpos]
    simp only [Bool.false_eq_true, if_false, readRemote_getD]
    have hwant : (if ret.toNat < maxCapture then ret.toNat else maxCapture) ≤ min ret.toNat maxCapture := by
      split <;> omega
    generalize (if ret.toNat < maxCapture then ret.toNat else maxCapture) = want at hwant
    have hlen := length_leading_le (cellsAt view addr want)
    rw [length_cellsAt] at hlen
    have hpre := leading_prefix_span h addr want (n - want)
    rw [Nat.add_sub_cancel' (by omega)] at hpre
    refine ⟨by omega, ?_⟩
    rw [List.prefix_take_iff]
    exact ⟨hpre, by omega⟩
  · rw [if_neg hpos]
    exact ⟨by simp, List.nil_prefix⟩

theorem writev_truly_of_intact {maxCapture iovAddr iovcnt : Nat} {ret : Int}
    (hok : WritevIntact view maxCapture iovAddr iovcnt ret) {contents : Contents} (h : Shows view contents) :
    ((captureWritev (readRemote view) iovAddr iovcnt maxCapture).length : Int) ≤ min (max ret 0) maxCapture ∧
      captureWritev (readRemote view) iovAddr iovcnt maxCapture <+:
        (payload contents true iovAddr iovcnt).take ret.toNat := by
  obtain ⟨hlen, hun⟩ := hok
  rw [captureWritev_eq, captureSegments_unbroken _ _ hun, List.nil_append, List.length_nil, Nat.sub_zero]
  have hmax := length_leading_le ((cells view (consulted view iovAddr iovcnt)).take maxCapture)
  have htake := List.length_take_le maxCapture (cells view (consulted view iovAddr iovcnt))
  have hpre := (prefix_leading_take (cells_shown h (consulted view iovAddr iovcnt)) maxCapture).trans
    (consulted_prefix_payload h iovAddr iovcnt)
  refine ⟨by omega, ?_⟩
  rw [List.prefix_take_iff]
  exact ⟨hpre, by omega⟩

/-- The memory with one byte wherever it cannot be read. -/
def filledWith (view : View) (d : UInt8) : Contents := fun addr => (view addr).getD d

theorem filledWith_shows (view : View) (d : UInt8) : Shows view (filledWith view d) := by
  intro addr b h
  rw [filledWith, h, Option.getD_some]

theorem span_filledWith (d : UInt8) (addr len : Nat) :
    span (filledWith view d) addr len = (cellsAt view addr len).map (·.getD d) := by
  induction len generalizing addr with
  | zero => rfl
  | succ len ih => rw [span, cellsAt, List.map_cons, ih]; rfl

theorem cells_filledWith (d : UInt8) (segs : List (Nat × Nat)) :
    (segs.flatMap fun (base, len) => span (filledWith view d) base len) = (cells view segs).map (·.getD d) := by
  rw [cells, List.map_flatMap]
  exact congrArg segs.flatMap (funext fun s => span_filledWith d s.1 s.2)

theorem eq_of_prefixes {front r r' l : Bytes} {a b : UInt8} (h : front ++ a :: r <+: l)
    (h' : front ++ b :: r' <+: l) : a = b := by
  obtain ⟨t, rfl⟩ := h
  rw [List.append_assoc, List.prefix_append_right_inj, List.cons_append, List.cons_prefix_cons] at h'
  exact h'.1.symm

/-- A byte read from behind a gap is no byte of the payload for some content of the gap. -/
theorem unbroken_of_truly {maxCapture iovAddr iovcnt : Nat}
    (htrue : ∀ contents, Shows view contents →
      captureWritev (readRemote view) iovAddr iovcnt maxCapture <+: payload contents true iovAddr iovcnt) :
    Unbroken view maxCapture (consulted view iovAddr iovcnt) := by
  intro pre post heq hgap s hs
  by_contra hno
  obtain ⟨hlen, hread⟩ := not_or.mp hno
  obtain ⟨b, rest, hbuf⟩ := captureSegments_broken hs hlen hread pre [] hgap
  rw [captureWritev_eq, heq, hbuf, List.nil_append, List.length_nil, Nat.sub_zero] at htrue
  -- the gap is filled with another byte
  have hpre := htrue (filledWith view (b + 1)) (filledWith_shows view (b + 1))
  have hpay := consulted_prefix_payload (filledWith_shows view (b + 1)) iovAddr iovcnt
  obtain ⟨ds, hds⟩ := split_at_gap hgap
  obtain ⟨more, hmore⟩ : (cells view pre).take maxCapture <+: cells view (consulted view iovAddr iovcnt) := by
    rw [heq, show cells view (pre ++ post) = cells view pre ++ cells view post from List.flatMap_append]
    exact (List.take_prefix _ _).trans (List.prefix_append _ _)
  rw [cells_filledWith, ← hmore] at hpay
  generalize leading ((cells view pre).take maxCapture) = front at *
  rw [hds, List.map_append, List.map_append, List.map_map, List.map_cons] at hpay
  have hfront : front.map ((fun c : Option UInt8 => c.getD (b + 1)) ∘ some) = front := List.map_id' front
  rw [hfront, Option.getD_none] at hpay
  rw [List.append_assoc] at hpay
  have hbyte : b = b + 1 := eq_of_prefixes hpre hpay
  simp at hbyte

theorem intact_of_truly {maxCapture iovAddr iovcnt : Nat} {ret : Int}
    (htrue : ∀ contents, Shows view contents →
      ((captureWritev (readRemote view) iovAddr iovcnt maxCapture).length : Int) ≤ min (max ret 0) maxCapture ∧
        captureWritev (readRemote view) iovAddr iovcnt maxCapture <+:
          (payload contents true iovAddr iovcnt).take ret.toNat) (hpos : 0 < ret) :
    WritevIntact view maxCapture iovAddr iovcnt ret := by
  have hun := unbroken_of_truly fun contents h => (htrue contents h).2.trans (List.take_prefix _ _)
  refine ⟨?_, hun⟩
  have hlen := (htrue (filledWith view 0) (filledWith_shows view 0)).1
  rw [captureWritev_eq, captureSegments_unbroken _ _ hun, List.nil_append, List.length_nil, Nat.sub_zero] at hlen
  omega

/-- **Captured bytes are what was written, exactly when.** For a write on the descriptor that returned, the
    buffer `write_cb` gets is a prefix of the bytes that were written and no longer than the capture limit, for
    `write` and `pwrite64` always, and for `writev` if and only if it wrote nothing, or it wrote all that can be
    read of the consulted segments up to the limit and to the first gap, and no consulted segment behind that gap
    starts with a byte that can be read. -/
theorem captured_truly_iff {sys : Sysno} {fd : Int} {enter exit : Regs} (htarget : targets sys fd enter = true)
    (hret : enter.syscallNr ≠ sys.writev → exit.ret ≤ enter.arg3) (maxCapture : Nat) (view : View) (t : Int)
    (ts : TidState) :
    CapturedTruly sys fd maxCapture view t ts enter exit ↔
      (enter.syscallNr = sys.writev → 0 < exit.ret →
        WritevIntact view maxCapture enter.arg2 enter.arg3 exit.ret) := by
  unfold CapturedTruly
  rw [exitCalls_eq (slotOk_enterStop ts enter), if_pos (targets_iff.mp htarget)]
  simp only [List.forall_mem_singleton]
  by_cases hv : enter.syscallNr = sys.writev
  · rw [if_pos (beq_iff_eq.mpr hv), beq_iff_eq.mpr hv]
    simp only [captured, if_true]
    by_cases hpos : 0 < exit.ret
    · simp only [if_pos hpos]
      exact ⟨fun htrue _ _ => intact_of_truly htrue hpos,
        fun hok contents h => writev_truly_of_intact (hok hv hpos) h⟩
    · -- a failed call is passed on with an empty buffer
      simp only [if_neg hpos]
      exact ⟨fun _ _ h => absurd h hpos, fun _ _ _ => ⟨by simp, List.nil_prefix⟩⟩
  · have hplain : (enter.syscallNr == sys.writev) = false := beq_eq_false_iff_ne.mpr hv
    simp only [hplain, Bool.false_eq_true, if_false]
    exact ⟨fun _ h => absurd h hv, fun _ contents h => plain_truly (hret hv) h⟩

end Truly

/-! ### A small target -/

/-- A memory in which these ranges can be read. -/
def readableAt (parts : List (Nat × Bytes)) : View := fun addr =>
  parts.findSome? fun (base, bs) => if base ≤ addr then bs[addr - base]? else none

/-- One record of an iovec array, for small numbers. -/
def record (base len : UInt8) : Bytes := [base, 0, 0, 0, 0, 0, 0, 0, len, 0, 0, 0, 0, 0, 0, 0]

/-- Two segments, `abcde` and `fgh`, both readable. -/
def twoSegments : View :=
  readableAt [(0, record 100 5 ++ record 120 3), (100, ascii "abcde"), (120, ascii "fgh")]

def x86Sysno : Sysno := ⟨1, 18, 20⟩

/-- `writev(4, iov, 2)` with the array at address 0. -/
def enterWritev : Regs := ⟨20, 4, 0, 2, 0⟩

/-- The exit stop, with the value the call returned. -/
def exitWritev (ret : Int) : Regs := ⟨20, 4, 0, 2, ret⟩

theorem captured_truly_two_segments :
    CapturedTruly x86Sysno 4 200 twoSegments 9 (TidState.fresh 9) enterWritev (exitWritev 8) := by
  refine (captured_truly_iff (by decide) (fun h => absurd rfl h) 200 twoSegments 9 _).mpr fun _ _ => ?_
  have hcells : none ∉ cells twoSegments (consulted twoSegments enterWritev.arg2 enterWritev.arg3) := by
    decide +kernel
  refine ⟨by decide +kernel, fun pre post heq hgap => absurd ?_ hcells⟩
  rw [heq, show cells twoSegments (pre ++ post) = cells twoSegments pre ++ cells twoSegments post from
    List.flatMap_append]
  exact List.mem_append_left _ (List.mem_of_mem_take hgap)

/-- Three segments, the middle one out of reach. -/
def middleGone : View :=
  readableAt [(0, record 100 2 ++ record 110 3 ++ record 120 3), (100, ascii "ab"), (120, ascii "fgh")]

/-- A call that wrote three bytes of eight is shown as all eight; and a segment that cannot be read is left
    out as if the next one followed. -/
theorem captured_falsely :
    ¬ CapturedTruly x86Sysno 4 200 twoSegments 9 (TidState.fresh 9) enterWritev (exitWritev 3) ∧
    ¬ CapturedTruly x86Sysno 4 200 middleGone 9 (TidState.fresh 9) ⟨20, 4, 0, 3, 0⟩ ⟨20, 4, 0, 3, 8⟩ := by
  constructor
  · intro h
    have hcall := h (filledWith twoSegments 0) (filledWith_shows _ _) ⟨9, 3, ascii "abcdefgh", true⟩
      (by decide +kernel)
    exact absurd hcall.1 (by decide)
  · intro h
    have hcall := h (filledWith middleGone 0) (filledWith_shows _ _) ⟨9, 8, ascii "abfgh", true⟩ (by decide +kernel)
    exact absurd hcall.2 (by decide +kernel)

end Tracer
end Hsed
