import Hsed.Tui.Correctness.PathTree
import Hsed.Tui.Correctness.Updates

/-!
# `Tui.Correctness.TreeView` — what the tree of paths shows

A row is a directory as soon as its node has a `Children` map. So the entries of a node that some other path goes
through are not shown: their row has no size, and Enter folds it. `tree_shows_all_iff` says that this, and a total
that does not fit its `int64`, are all that can go wrong once every directory is expanded.

`walk` is `childRows` of each child, up to the order of the names (`walk_perm`); the rest is about rows as a set,
each known by the way to its node.
-/

namespace Hsed
namespace Tui

open CLib
open Client (HiddenEntry)

variable {W : Widgets}

/-! ## The rows -/

section

variable {expanded : List Bytes → Bool} {path : List Bytes} {depth : Nat} {node : TreeNode}

/-- The row of a child, and what is shown below it. -/
def childRows (expanded : List Bytes → Bool) (path : List Bytes) (depth : Nat) (x : Bytes × TreeNode) : List TreeRow :=
  ⟨depth, x.1, x.2, x.2.children.isSome, path ++ [x.1]⟩ ::
    if x.2.children.isSome && expanded (path ++ [x.1]) then walk expanded (path ++ [x.1]) (depth + 1) x.2 else []

theorem walkChildren_eq (expanded : List Bytes → Bool) (path : List Bytes) (depth : Nat)
    (cs : List (Bytes × TreeNode)) :
    walkChildren expanded path depth cs = cs.map fun x => (x.1, childRows expanded path depth x) := by
  induction cs with
  | nil => rw [walkChildren, List.map_nil]
  | cons x cs ih =>
      obtain ⟨name, child⟩ := x
      rw [walkChildren, ih]
      rfl

/-- **The rows below a node**, up to their order. -/
theorem walk_perm (expanded : List Bytes → Bool) (path : List Bytes) (depth : Nat) (node : TreeNode) :
    (walk expanded path depth node).Perm (node.branches.flatMap (childRows expanded path depth)) := by
  obtain ⟨nodeName, children, entries⟩ := node
  cases children with
  | none =>
      rw [walk]
      exact .refl _
  | some cs =>
      rw [walk, walkChildren_eq]
      apply ((List.perm_insertionSort _ _).flatMap_right _).trans
      rw [List.flatMap_map]
      exact .refl _

theorem mem_walk {row : TreeRow} :
    row ∈ walk expanded path depth node ↔ ∃ x ∈ node.branches, row ∈ childRows expanded path depth x := by
  rw [(walk_perm expanded path depth node).mem_iff, List.mem_flatMap]

theorem mem_childRows {row : TreeRow} {x : Bytes × TreeNode} :
    row ∈ childRows expanded path depth x ↔
      row = ⟨depth, x.1, x.2, x.2.children.isSome, path ++ [x.1]⟩ ∨
      (x.2.children.isSome ∧ expanded (path ++ [x.1])) ∧ row ∈ walk expanded (path ++ [x.1]) (depth + 1) x.2 := by
  unfold childRows
  rw [List.mem_cons]
  split
  case isTrue h => rw [and_iff_right (by simpa using h)]
  case isFalse h =>
    have hnot : ¬ (x.2.children.isSome = true ∧ expanded (path ++ [x.1]) = true) := by simpa using h
    simp [hnot]

/-- **Induction over a tree**: from the children to the node. -/
theorem TreeNode.branches_induction {P : TreeNode → Prop} (h : ∀ node, (∀ x ∈ node.branches, P x.2) → P node)
    (node : TreeNode) : P node := by
  induction hsize : sizeOf node using Nat.strongRecOn generalizing node with
  | ind size ih =>
      apply h
      intro x hx
      apply ih (sizeOf x.2) _ x.2 rfl
      obtain ⟨nodeName, children, entries⟩ := node
      cases children with
      | none => cases hx
      | some cs =>
          have hmem : sizeOf x < sizeOf cs := List.sizeOf_lt_of_mem hx
          have hpair : sizeOf x.2 < sizeOf x := by
            obtain ⟨name, child⟩ := x
            simp only [Prod.mk.sizeOf_spec]
            omega
          simp only [TreeNode.mk.sizeOf_spec, Option.some.sizeOf_spec] at hsize
          omega

theorem lookup_of_mem {cs : List (Bytes × TreeNode)} (hkeys : (cs.map Prod.fst).Nodup) {x : Bytes × TreeNode}
    (hx : x ∈ cs) : cs.lookup x.1 = some x.2 := by
  induction cs with
  | nil => cases hx
  | cons y cs ih =>
      rw [List.map_cons, List.nodup_cons] at hkeys
      rcases List.mem_cons.mp hx with rfl | hx
      · exact List.lookup_cons_self
      · have hne : x.1 ≠ y.1 := by
          intro heq
          exact hkeys.1 (heq ▸ List.mem_map_of_mem hx)
        rw [List.lookup_cons, beq_eq_false_iff_ne.mpr hne]
        exact ih hkeys.2 hx

/-- The bindings of a map, one by one. -/
theorem TreeNode.Distinct.child (h : node.Distinct) {x : Bytes × TreeNode} (hx : x ∈ node.branches) :
    node.branches.lookup x.1 = some x.2 ∧ x.2.Distinct := by
  obtain ⟨hkeys, hchildren⟩ := TreeNode.distinct_iff.mp h
  have hlookup := lookup_of_mem hkeys hx
  exact ⟨hlookup, hchildren x.1 x.2 hlookup⟩

/-- **Every row is a node** of the tree, found under the way to it. -/
theorem find_of_mem_walk (hnode : node.Distinct) {row : TreeRow} (hrow : row ∈ walk expanded path depth node) :
    row.isDir = row.node.children.isSome ∧ ∃ q, q ≠ [] ∧ row.path = path ++ q ∧ node.find q = some row.node := by
  induction node using TreeNode.branches_induction generalizing path depth with
  | h node ih =>
      obtain ⟨x, hx, hrow⟩ := mem_walk.mp hrow
      obtain ⟨hlookup, hdistinct⟩ := hnode.child hx
      rcases mem_childRows.mp hrow with rfl | ⟨-, hbelow⟩
      · refine ⟨rfl, [x.1], List.cons_ne_nil _ _, rfl, ?_⟩
        rw [TreeNode.find_cons, hlookup]
        rfl
      · obtain ⟨hdir, q, -, hpath, hfind⟩ := ih x hx hdistinct hbelow
        refine ⟨hdir, x.1 :: q, List.cons_ne_nil _ _, ?_, ?_⟩
        · rw [hpath, List.append_assoc, List.singleton_append]
        · rw [TreeNode.find_cons, hlookup]
          exact hfind

theorem mem_branches_of_lookup {part : Bytes} {child : TreeNode} (h : node.branches.lookup part = some child) :
    (part, child) ∈ node.branches := by
  obtain ⟨_, _, hsplit, -⟩ := List.lookup_eq_some_iff.mp h
  rw [hsplit]
  exact List.mem_append_right _ List.mem_cons_self

/-- What is below a node shows that it is a directory. -/
theorem children_of_find_cons {part : Bytes} {q : List Bytes} {below : TreeNode}
    (h : node.find (part :: q) = some below) : node.children.isSome := by
  cases hcs : node.children with
  | some cs => rfl
  | none =>
      rw [TreeNode.find_cons, TreeNode.branches, hcs] at h
      cases h

/-- **Every node has a row** where every directory that is shown is expanded. -/
theorem mem_walk_of_find {q : List Bytes} {below : TreeNode} (hq : q ≠ []) (hfind : node.find q = some below)
    (hexpanded : ∀ row ∈ walk expanded path depth node, row.isDir → expanded row.path) :
    ∃ row ∈ walk expanded path depth node, row.path = path ++ q ∧ row.node = below := by
  induction q generalizing node path depth with
  | nil => exact absurd rfl hq
  | cons part q ih =>
      obtain ⟨child, hchild, hbelow⟩ := Option.bind_eq_some_iff.mp hfind
      have hx := mem_branches_of_lookup hchild
      have hrow : ⟨depth, part, child, child.children.isSome, path ++ [part]⟩ ∈ walk expanded path depth node :=
        mem_walk.mpr ⟨(part, child), hx, mem_childRows.mpr (.inl rfl)⟩
      cases q with
      | nil => exact ⟨_, hrow, rfl, Option.some.inj hbelow⟩
      | cons part' q =>
          -- what is below the child shows that it is a directory, so it is expanded
          have hdir := children_of_find_cons hbelow
          have hopen := hexpanded _ hrow hdir
          have hsub : ∀ row ∈ walk expanded (path ++ [part]) (depth + 1) child,
              row ∈ walk expanded path depth node := by
            intro row hrow
            exact mem_walk.mpr ⟨(part, child), hx, mem_childRows.mpr (.inr ⟨⟨hdir, hopen⟩, hrow⟩)⟩
          obtain ⟨row, hmem, hpath, hnode⟩ :=
            ih (List.cons_ne_nil part' q) hbelow fun row hrow => hexpanded row (hsub row hrow)
          refine ⟨row, hsub row hmem, ?_, hnode⟩
          rw [hpath, List.append_assoc, List.singleton_append]

theorem path_of_mem_childRows {x : Bytes × TreeNode} (hx : x.2.Distinct) {row : TreeRow}
    (hrow : row ∈ childRows expanded path depth x) : ∃ q, row.path = path ++ x.1 :: q := by
  rcases mem_childRows.mp hrow with rfl | ⟨-, hbelow⟩
  · exact ⟨[], rfl⟩
  · obtain ⟨-, q, -, hpath, -⟩ := find_of_mem_walk hx hbelow
    exact ⟨q, by rw [hpath, List.append_assoc, List.singleton_append]⟩

/-- **No two rows** are reached the same way. -/
theorem nodup_walk (hnode : node.Distinct) : ((walk expanded path depth node).map TreeRow.path).Nodup := by
  induction node using TreeNode.branches_induction generalizing path depth with
  | h node ih =>
      rw [((walk_perm expanded path depth node).map TreeRow.path).nodup_iff, List.map_flatMap, List.nodup_flatMap]
      constructor
      · intro x hx
        obtain ⟨-, hdistinct⟩ := hnode.child hx
        unfold childRows
        rw [List.map_cons, List.nodup_cons]
        split
        case isTrue =>
          refine ⟨?_, ih x hx hdistinct⟩
          -- what is below a row is reached by going on
          intro hmem
          obtain ⟨row, hrow, hpath⟩ := List.mem_map.mp hmem
          obtain ⟨-, q, hq, hpath', -⟩ := find_of_mem_walk hdistinct hrow
          rw [hpath] at hpath'
          exact hq (List.self_eq_append_right.mp hpath')
        case isFalse => exact ⟨List.not_mem_nil, List.nodup_nil⟩
      · have hkeys := (TreeNode.distinct_iff.mp hnode).1
        rw [List.Nodup, List.pairwise_map] at hkeys
        apply hkeys.imp_of_mem
        intro x y hx hy hne p hpx hpy
        obtain ⟨row, hrow, rfl⟩ := List.mem_map.mp hpx
        obtain ⟨row', hrow', hsame⟩ := List.mem_map.mp hpy
        obtain ⟨q, hpath⟩ := path_of_mem_childRows (hnode.child hx).2 hrow
        obtain ⟨q', hpath'⟩ := path_of_mem_childRows (hnode.child hy).2 hrow'
        rw [hpath, hpath', List.append_cancel_left_eq] at hsame
        exact hne (List.cons.inj hsame).1.symm

end

/-! ## What is shown -/

/-- The size on a line. -/
def TreeLine.size : TreeLine → Option Int
  | .dir _ _ _ => none
  | .file _ _ total _ => some total

/-- The screen of these entries after some messages. -/
def TreeScreen.after (entries : List HiddenEntry) (ms : List (Msg W)) : TreeScreen :=
  ms.foldl (fun s m => (s.update m).1) (newTreeScreen entries)

/-- Row `i` is of a node with this entry, shows the size of the node's entries, and opens one of them on Enter. -/
def TreeScreen.Shows (W : Widgets) (s : TreeScreen) (i : Nat) (e : HiddenEntry) : Prop :=
  ∃ row, s.rows[i]? = some row ∧ e ∈ row.node.entries ∧
    (s.line row).size = some (row.node.entries.map HiddenEntry.size).sum ∧
    ∃ best ∈ row.node.entries,
      (TreeScreen.update (W := W) { s with cursor := i } (.key .enter)).2 = [.push (.detail ⟨best, none, []⟩)]

/-- **The property**: each entry is shown by one row, and the sizes add up. -/
structure TreeScreen.ShowsAll (W : Widgets) (s : TreeScreen) (entries : List HiddenEntry) : Prop where
  once : ∀ e ∈ entries, ∃! i, s.Shows W i e
  total : (s.view.filterMap TreeLine.size).sum = (entries.map HiddenEntry.size).sum

/-- The entries of one path. -/
def entriesAt (entries : List HiddenEntry) (q : List Bytes) : List HiddenEntry :=
  entries.filter fun e => components e.path = q

/-- No path goes through another, and the sizes of the entries of each path have a sum in an `int64`. -/
structure Showable (entries : List HiddenEntry) : Prop where
  apart : ∀ e ∈ entries, ∀ e' ∈ entries, components e.path <+: components e'.path →
    components e.path = components e'.path
  fits : ∀ e ∈ entries, -(2 ^ 63) ≤ ((entriesAt entries (components e.path)).map HiddenEntry.size).sum ∧
    ((entriesAt entries (components e.path)).map HiddenEntry.size).sum < 2 ^ 63

/-! ## The screen lists its tree -/

structure TreeScreen.Lists (s : TreeScreen) (entries : List HiddenEntry) : Prop where
  root : s.root = buildPathTree entries
  rows : s.rows = walk s.expanded [] 0 s.root

section

variable {s : TreeScreen} {entries : List HiddenEntry} {row : TreeRow}

theorem TreeScreen.Lists.rebuild (hroot : s.root = buildPathTree entries) : s.rebuild.Lists entries := ⟨hroot, rfl⟩

/-- **Step.** -/
theorem TreeScreen.Lists.update (h : s.Lists entries) (m : Msg W) : (s.update m).1.Lists entries := by
  have hopen : ∀ row, (TreeScreen.open (W := W) s row).1.Lists entries := by
    intro row
    unfold TreeScreen.open
    split
    · exact .rebuild h.root
    · split <;> exact h
  unfold TreeScreen.update
  split
  case h_7 => split <;> first | exact h | exact hopen _
  case h_8 => split <;> first | exact h | exact hopen _
  all_goals first | exact h | exact ⟨h.root, h.rows⟩

/-- What a new screen has and each message keeps, every screen has. -/
theorem TreeScreen.after_induction {P : TreeScreen → Prop} (entries : List HiddenEntry)
    (hnew : P (newTreeScreen entries)) (hstep : ∀ s (m : Msg W), P s → P (s.update m).1) (ms : List (Msg W)) :
    P (TreeScreen.after entries ms) := by
  unfold after
  induction ms using List.reverseRecOn with
  | nil => exact hnew
  | append_singleton ms m ih =>
      rw [List.foldl_append, List.foldl_cons, List.foldl_nil]
      exact hstep _ m ih

/-- **Run.** -/
theorem TreeScreen.lists_after (entries : List HiddenEntry) (ms : List (Msg W)) :
    (TreeScreen.after entries ms).Lists entries := by
  apply after_induction (P := fun s => s.Lists entries)
  · exact .rebuild rfl
  · intro s m h
    exact h.update m

/-- **A row** has the entries of its path, and is a directory if some path goes on from there. -/
theorem TreeScreen.Lists.row_facts (h : s.Lists entries) (hrow : row ∈ s.rows) :
    row.node.entries = entriesAt entries row.path ∧
    (row.isDir ↔ ∃ e ∈ entries, row.path <+: components e.path ∧ row.path ≠ components e.path) := by
  rw [h.rows, h.root] at hrow
  obtain ⟨hdir, q, hq, hpath, hfind⟩ := find_of_mem_walk (distinct_buildPathTree entries) hrow
  rw [List.nil_append] at hpath
  rw [hpath, hdir, Option.isSome_iff_ne_none, children_of_find hfind]
  exact ⟨entries_of_find hq hfind, ⟨fun h => h.resolve_left hq, .inr⟩⟩

/-- The row of an entry is at its own path. -/
theorem TreeScreen.Lists.path_of_entry (h : s.Lists entries) (hrow : row ∈ s.rows) {e : HiddenEntry}
    (he : e ∈ row.node.entries) : e ∈ entries ∧ row.path = components e.path := by
  rw [(h.row_facts hrow).1] at he
  obtain ⟨hmem, hpath⟩ := List.mem_filter.mp he
  exact ⟨hmem, (of_decide_eq_true hpath).symm⟩

/-- `total += e.Size` wraps around as one sum does. -/
theorem foldl_toInt64 (es : List HiddenEntry) (total : Int) :
    es.foldl (fun total e => toInt64 (total + e.size)) (toInt64 total) =
      toInt64 (total + (es.map HiddenEntry.size).sum) := by
  induction es generalizing total with
  | nil => rw [List.foldl_nil, List.map_nil, List.sum_nil, Int.add_zero]
  | cons e es ih =>
      have hstep : toInt64 (toInt64 total + e.size) = toInt64 (total + e.size) := Int.bmod_add_bmod ..
      rw [List.foldl_cons, hstep, ih, List.map_cons, List.sum_cons, Int.add_assoc]

theorem TreeScreen.size_line (s : TreeScreen) (row : TreeRow) :
    (s.line row).size =
      if row.isDir then none else some (toInt64 (row.node.entries.map HiddenEntry.size).sum) := by
  unfold TreeScreen.line
  split
  · rfl
  · have hsum := foldl_toInt64 row.node.entries 0
    rw [Int.zero_add] at hsum
    exact congrArg some hsum

theorem largest_mem (best : HiddenEntry) (es : List HiddenEntry) : largest best es ∈ best :: es := by
  unfold largest
  induction es generalizing best with
  | nil => exact List.mem_cons_self
  | cons e es ih =>
      rw [List.foldl_cons]
      rcases List.mem_cons.mp (ih (if e.size > best.size then e else best)) with heq | hmem
      · rw [heq]
        split
        · exact List.mem_cons_of_mem best List.mem_cons_self
        · exact List.mem_cons_self
      · exact List.mem_cons_of_mem best (List.mem_cons_of_mem e hmem)

/-- **Enter on a file** opens one of its entries. -/
theorem TreeScreen.enter_file {i : Nat} {e : HiddenEntry} (hi : s.rows[i]? = some row) (hfile : row.isDir = false)
    (he : e ∈ row.node.entries) :
    ∃ best ∈ row.node.entries,
      (TreeScreen.update (W := W) { s with cursor := i } (.key .enter)).2 = [.push (.detail ⟨best, none, []⟩)] := by
  cases hentries : row.node.entries with
  | nil =>
      rw [hentries] at he
      cases he
  | cons first rest =>
      refine ⟨largest first rest, largest_mem first rest, ?_⟩
      simp only [TreeScreen.update, hi, TreeScreen.open, hfile, hentries, Bool.false_eq_true, if_false]

/-- Sums key by key, the keys all different. -/
theorem sum_filter_keys {α κ : Type} [DecidableEq κ] (f : α → κ) (w : α → Int) {keys : List κ} (hkeys : keys.Nodup)
    {l : List α} (hmem : ∀ a ∈ l, f a ∈ keys) :
    (keys.map fun k => ((l.filter (f · = k)).map w).sum).sum = (l.map w).sum := by
  induction keys generalizing l with
  | nil =>
      obtain rfl : l = [] := List.eq_nil_iff_forall_not_mem.mpr fun a ha => List.not_mem_nil (hmem a ha)
      rfl
  | cons k keys ih =>
      rw [List.nodup_cons] at hkeys
      have hsplit := List.filter_append_perm (f · = k) l
      have hrest : ∀ a ∈ l.filter (fun a => !decide (f a = k)), f a ∈ keys := by
        intro a ha
        obtain ⟨hal, hne⟩ := List.mem_filter.mp ha
        exact (List.mem_cons.mp (hmem a hal)).resolve_left (by simpa using hne)
      -- the other keys do not see what has this one
      have hfilter : ∀ k' ∈ keys, (l.filter fun a => !decide (f a = k)).filter (f · = k') = l.filter (f · = k') := by
        intro k' hk'
        rw [List.filter_filter]
        apply List.filter_congr
        intro a _
        by_cases heq : f a = k'
        · have hne : f a ≠ k := fun h => hkeys.1 (h ▸ heq ▸ hk')
          simp [heq, heq ▸ hne]
        · simp [heq]
      have hsums : (keys.map fun k => ((l.filter (f · = k)).map w).sum) =
          keys.map fun k' => (((l.filter fun a => !decide (f a = k)).filter (f · = k')).map w).sum :=
        List.map_congr_left fun k' hk' => by rw [hfilter k' hk']
      rw [List.map_cons, List.sum_cons, hsums, ih hkeys.2 hrest]
      rw [← (hsplit.map w).sum_eq, List.map_append, List.sum_append]

/-- What is shown can be shown. -/
theorem TreeScreen.Lists.showable (h : s.Lists entries) (hshows : s.ShowsAll W entries) : Showable entries := by
  -- the one row of an entry is a file at its path
  have hrow : ∀ e ∈ entries, ∃ row ∈ s.rows, row.path = components e.path ∧ row.isDir = false ∧
      toInt64 (row.node.entries.map HiddenEntry.size).sum = (row.node.entries.map HiddenEntry.size).sum := by
    intro e he
    obtain ⟨i, ⟨row, hi, hmem, hsize, -⟩, -⟩ := hshows.once e he
    have hrow := List.mem_of_getElem? hi
    rw [s.size_line row] at hsize
    split at hsize
    case isTrue => cases hsize
    case isFalse hfile =>
      exact ⟨row, hrow, (h.path_of_entry hrow hmem).2, Bool.eq_false_iff.mpr hfile, Option.some.inj hsize⟩
  constructor
  · intro e he e' he' hprefix
    obtain ⟨row, hmem, hpath, hfile, -⟩ := hrow e he
    by_contra hne
    have hdir := (h.row_facts hmem).2.mpr ⟨e', he', hpath ▸ hprefix, hpath ▸ hne⟩
    rw [hfile] at hdir
    cases hdir
  · intro e he
    obtain ⟨row, hmem, hpath, -, hsum⟩ := hrow e he
    rw [(h.row_facts hmem).1, hpath] at hsum
    rw [← hsum]
    exact toInt64_bounds _

/-- A file row shows the size of its entries. -/
theorem TreeScreen.Lists.size_file (h : s.Lists entries) (hshowable : Showable entries) (hrow : row ∈ s.rows)
    (hfile : row.isDir = false) : (s.line row).size = some (row.node.entries.map HiddenEntry.size).sum := by
  rw [s.size_line row, hfile, if_neg Bool.false_ne_true]
  congr 1
  cases hentries : row.node.entries with
  | nil => rfl
  | cons e es =>
      have he : e ∈ row.node.entries := by rw [hentries]; exact List.mem_cons_self
      obtain ⟨hmem, hpath⟩ := h.path_of_entry hrow he
      obtain ⟨hlo, hhi⟩ := hshowable.fits e hmem
      rw [← hpath, ← (h.row_facts hrow).1, hentries] at hlo hhi
      exact toInt64_eq_self hlo hhi

/-- The sizes on the screen, path by path. -/
theorem TreeScreen.Lists.sizes_view (h : s.Lists entries) (hshowable : Showable entries) :
    s.view.filterMap TreeLine.size =
      ((s.rows.filter (!·.isDir)).map TreeRow.path).map fun q => ((entriesAt entries q).map HiddenEntry.size).sum := by
  have hrows : ∀ rows : List TreeRow, (∀ row ∈ rows, row ∈ s.rows) → (rows.map s.line).filterMap TreeLine.size =
      ((rows.filter (!·.isDir)).map TreeRow.path).map fun q => ((entriesAt entries q).map HiddenEntry.size).sum := by
    intro rows hsub
    induction rows with
    | nil => rfl
    | cons row rows ih =>
        have hrow := hsub row List.mem_cons_self
        have htail := ih fun row hrow => hsub row (List.mem_cons_of_mem _ hrow)
        cases hdir : row.isDir with
        | true =>
            have hline : (s.line row).size = none := by rw [s.size_line row, hdir, if_pos rfl]
            rw [List.map_cons, List.filterMap_cons_none hline, List.filter_cons_of_neg (by simp [hdir]), htail]
        | false =>
            have hline := h.size_file hshowable hrow hdir
            rw [(h.row_facts hrow).1] at hline
            rw [List.map_cons, List.filterMap_cons_some hline, List.filter_cons_of_pos (by simp [hdir]), htail]
            rfl
  exact hrows s.rows fun _ h => h

variable (h : s.Lists entries) (hshowable : Showable entries) (hpaths : ∀ e ∈ entries, components e.path ≠ [])
  (hexpanded : ∀ row ∈ s.rows, row.isDir → s.expanded row.path)

include h hshowable hpaths hexpanded in
/-- Every entry has a file row at its path. -/
theorem TreeScreen.Lists.exists_row {e : HiddenEntry} (he : e ∈ entries) :
    ∃ row ∈ s.rows, row.path = components e.path ∧ row.isDir = false ∧ e ∈ row.node.entries := by
  obtain ⟨node, hnode⟩ := Option.isSome_iff_exists.mp ((isSome_find (hpaths e he)).mpr ⟨e, he, List.prefix_refl _⟩)
  rw [← h.root] at hnode
  rw [h.rows] at hexpanded
  obtain ⟨row, hrow, hpath, -⟩ := mem_walk_of_find (hpaths e he) hnode hexpanded
  rw [← h.rows] at hrow
  rw [List.nil_append] at hpath
  obtain ⟨hentries, hdir⟩ := h.row_facts hrow
  refine ⟨row, hrow, hpath, ?_, ?_⟩
  · rw [Bool.eq_false_iff, Ne, hdir]
    rintro ⟨e', he', hprefix, hne⟩
    rw [hpath] at hprefix hne
    exact hne (hshowable.apart e he e' he' hprefix)
  · rw [hentries, hpath]
    exact List.mem_filter.mpr ⟨he, decide_eq_true rfl⟩

include h in
theorem TreeScreen.Lists.nodup_paths : (s.rows.map TreeRow.path).Nodup := by
  rw [h.rows, h.root]
  exact nodup_walk (distinct_buildPathTree entries)

include h hshowable hpaths hexpanded in
/-- **What can be shown is shown.** -/
theorem TreeScreen.Lists.showsAll : s.ShowsAll W entries := by
  constructor
  · intro e he
    obtain ⟨row, hrow, hpath, hfile, hmem⟩ := h.exists_row hshowable hpaths hexpanded he
    obtain ⟨i, hi⟩ := List.mem_iff_getElem?.mp hrow
    refine ⟨i, ⟨row, hi, hmem, h.size_file hshowable hrow hfile, TreeScreen.enter_file hi hfile hmem⟩, ?_⟩
    -- another row with this entry is at the same path
    rintro j ⟨row', hj, hmem', -⟩
    have hpath' := (h.path_of_entry (List.mem_of_getElem? hj) hmem').2
    have hi' : (s.rows.map TreeRow.path)[i]? = some (components e.path) := by
      rw [List.getElem?_map, hi, Option.map_some, hpath]
    have hj' : (s.rows.map TreeRow.path)[j]? = some (components e.path) := by
      rw [List.getElem?_map, hj, Option.map_some, hpath']
    obtain ⟨hlt, -⟩ := List.getElem?_eq_some_iff.mp hj'
    exact (List.getElem?_inj hlt h.nodup_paths).mp (hj'.trans hi'.symm)
  · have hkeys : ((s.rows.filter (!·.isDir)).map TreeRow.path).Nodup :=
      h.nodup_paths.sublist ((List.filter_sublist).map _)
    have hall : ∀ e ∈ entries, components e.path ∈ (s.rows.filter (!·.isDir)).map TreeRow.path := by
      intro e he
      obtain ⟨row, hrow, hpath, hfile, -⟩ := h.exists_row hshowable hpaths hexpanded he
      rw [← hpath]
      exact List.mem_map_of_mem (List.mem_filter.mpr ⟨hrow, by rw [hfile]; rfl⟩)
    rw [h.sizes_view hshowable]
    exact sum_filter_keys (fun e : HiddenEntry => components e.path) HiddenEntry.size hkeys hall

end

/-- **The tree shows all its entries** just where no path goes through another, and no path's total overflows. -/
theorem tree_shows_all_iff (entries : List HiddenEntry) (hpaths : ∀ e ∈ entries, components e.path ≠ [])
    (ms : List (Msg W))
    (hexpanded : ∀ row ∈ (TreeScreen.after entries ms).rows,
      row.isDir → (TreeScreen.after entries ms).expanded row.path) :
    (TreeScreen.after entries ms).ShowsAll W entries ↔ Showable entries := by
  have hlists := TreeScreen.lists_after entries ms
  constructor
  · intro hshows
    exact hlists.showable hshows
  · intro hshowable
    exact hlists.showsAll hshowable hpaths hexpanded

/-- The first directory is expanded, and the first one in it. -/
def expandTwo : List (Msg simpleWidgets) := [.key .enter, .key .down, .key .enter]

def logs : List HiddenEntry :=
  [ { HiddenEntry.zero with path := ascii "/var/log/app.log", size := 100 },
    { HiddenEntry.zero with path := ascii "/var/log/other.log", size := 200 } ]

theorem tree_shows_all_logs :
    (TreeScreen.after logs expandTwo).rows.length = 4 ∧
    (TreeScreen.after logs expandTwo).ShowsAll simpleWidgets logs := by
  refine ⟨by decide +kernel, (tree_shows_all_iff logs ?_ expandTwo ?_).mpr ⟨?_, ?_⟩⟩
  · decide +kernel
  · decide +kernel
  · decide +kernel
  · decide +kernel

/-- A deleted file, and another below a directory that took its name. -/
def overlapping : List HiddenEntry :=
  [ { HiddenEntry.zero with path := ascii "/data/a", size := 1 },
    { HiddenEntry.zero with path := ascii "/data/a/b", size := 2 } ]

/-- **Where an entry is hidden**: every directory is expanded, and the sizes shown are those of the second entry
    alone. -/
theorem tree_hides_entry :
    (∀ e ∈ overlapping, components e.path ≠ []) ∧
    (∀ row ∈ (TreeScreen.after overlapping expandTwo).rows,
      row.isDir → (TreeScreen.after overlapping expandTwo).expanded row.path) ∧
    ¬ (TreeScreen.after overlapping expandTwo).ShowsAll simpleWidgets overlapping := by
  refine ⟨by decide +kernel, by decide +kernel, ?_⟩
  intro hshows
  exact absurd hshows.total (by decide +kernel)

end Tui
end Hsed
