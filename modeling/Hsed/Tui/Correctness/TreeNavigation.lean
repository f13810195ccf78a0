import Hsed.Tui.Correctness.TreeView

/-!
# `Tui.Correctness.TreeNavigation` — moving about in the tree of paths

`walk` is `childRows` of each child in the order of the names (`walk_eq`). From this come the order of the rows
(`pairwise_precedes_walk`), which rows there are (`mem_walk_iff`), and that folding or unfolding a row changes
nothing before it (`walk_split`), which keeps the cursor on the directory it toggles. `tree_navigation` puts them
together for the screen after any messages.
-/

namespace Hsed
namespace Tui

open CLib
open Client (HiddenEntry)

variable {W : Widgets}

/-! ## The rows in order -/

/-- The children of a node in the order of their names. -/
def TreeNode.sorted (node : TreeNode) : List (Bytes × TreeNode) := node.branches.insertionSort fun a b => a.1 ≤ b.1

/-- The nodes on the way to a path, other than the root and itself. -/
def ancestors (q : List Bytes) : List (List Bytes) := q.inits.filter fun r => r ≠ [] ∧ r ≠ q

/-- Pre-order: a node comes before those below it, and where two paths part the smaller name comes first. -/
def Precedes (q q' : List Bytes) : Prop :=
  (q <+: q' ∧ q ≠ q') ∨ ∃ common a b r r', q = common ++ a :: r ∧ q' = common ++ b :: r' ∧ a < b

section

variable {expanded expanded' : List Bytes → Bool} {path : List Bytes} {depth : Nat} {node : TreeNode}

/-- **The rows below a node**, in their order. -/
theorem walk_eq (expanded : List Bytes → Bool) (path : List Bytes) (depth : Nat) (node : TreeNode) :
    walk expanded path depth node = node.sorted.flatMap (childRows expanded path depth) := by
  obtain ⟨nodeName, children, entries⟩ := node
  cases children with
  | none =>
      rw [walk]
      rfl
  | some cs =>
      have hsort : (cs.map fun x => (x.1, childRows expanded path depth x)).insertionSort (fun a b => a.1 ≤ b.1) =
          (cs.insertionSort fun a b => a.1 ≤ b.1).map fun x => (x.1, childRows expanded path depth x) := by
        apply (List.map_insertionSort _ _ _ cs _).symm
        intro a _ b _
        exact Iff.rfl
      rw [walk, walkChildren_eq, hsort, List.flatMap_map]
      rfl

theorem TreeNode.mem_sorted {x : Bytes × TreeNode} : x ∈ node.sorted ↔ x ∈ node.branches :=
  List.mem_insertionSort _

/-- A map sorted by its keys goes up. -/
theorem TreeNode.Distinct.sorted_lt (h : node.Distinct) : node.sorted.Pairwise fun a b => a.1 < b.1 := by
  have hle : node.sorted.Pairwise fun a b => a.1 ≤ b.1 := by
    have : Std.Total fun a b : Bytes × TreeNode => a.1 ≤ b.1 := ⟨fun a b => List.le_total a.1 b.1⟩
    have : IsTrans (Bytes × TreeNode) fun a b => a.1 ≤ b.1 := ⟨fun a b c => List.le_trans⟩
    exact List.pairwise_insertionSort _ _
  have hne : node.sorted.Pairwise fun a b => a.1 ≠ b.1 := by
    have hkeys := (TreeNode.distinct_iff.mp h).1
    rw [List.Nodup, List.pairwise_map] at hkeys
    exact ((List.perm_insertionSort _ _).pairwise_iff fun hab => Ne.symm hab).mpr hkeys
  apply (hle.and hne).imp
  intro a b hab
  exact (List.le_iff_lt_or_eq.mp hab.1).resolve_right hab.2

/-! ### Order -/

/-- **Pre-order.** -/
theorem pairwise_precedes_walk (hnode : node.Distinct) :
    (walk expanded path depth node).Pairwise fun row row' => Precedes row.path row'.path := by
  induction node using TreeNode.branches_induction generalizing path depth with
  | h node ih =>
      rw [walk_eq, List.pairwise_flatMap]
      constructor
      · intro x hx
        obtain ⟨-, hdistinct⟩ := hnode.child (TreeNode.mem_sorted.mp hx)
        unfold childRows
        rw [List.pairwise_cons]
        split
        case isFalse => exact ⟨List.forall_mem_nil _, .nil⟩
        case isTrue =>
          refine ⟨?_, ih x (TreeNode.mem_sorted.mp hx) hdistinct⟩
          -- a node and one below it
          intro row hrow
          obtain ⟨-, q, hq, hpath, -⟩ := find_of_mem_walk hdistinct hrow
          rw [hpath]
          exact .inl ⟨List.prefix_append _ _, fun heq => hq (List.self_eq_append_right.mp heq)⟩
      · apply hnode.sorted_lt.imp_of_mem
        intro x y hx hy hlt row hrow row' hrow'
        obtain ⟨q, hpath⟩ := path_of_mem_childRows (hnode.child (TreeNode.mem_sorted.mp hx)).2 hrow
        obtain ⟨q', hpath'⟩ := path_of_mem_childRows (hnode.child (TreeNode.mem_sorted.mp hy)).2 hrow'
        exact .inr ⟨path, x.1, y.1, q, q', hpath, hpath', hlt⟩

/-! ### Exactly the nodes in open directories -/

theorem ancestors_singleton (part : Bytes) : ancestors [part] = [] := by simp [ancestors]

theorem ancestors_cons_cons (part part' : Bytes) (q : List Bytes) :
    ancestors (part :: part' :: q) = [part] :: (ancestors (part' :: q)).map (part :: ·) := by
  unfold ancestors
  simp [List.filter_map, Function.comp_def]

/-- The row of the node `below` at `q`. -/
def rowAt (path : List Bytes) (depth : Nat) (q : List Bytes) (below : TreeNode) : TreeRow :=
  ⟨depth + (ancestors q).length, q.getLastD [], below, below.children.isSome, path ++ q⟩

theorem rowAt_below (path : List Bytes) (depth : Nat) (part part' : Bytes) (q : List Bytes) (below : TreeNode) :
    rowAt (path ++ [part]) (depth + 1) (part' :: q) below = rowAt path depth (part :: part' :: q) below := by
  unfold rowAt
  rw [ancestors_cons_cons, List.length_cons, List.length_map, List.append_assoc, Nat.add_assoc, Nat.add_comm 1]
  rfl

theorem mem_walk_iff (hnode : node.Distinct) {row : TreeRow} :
    row ∈ walk expanded path depth node ↔
      ∃ q ≠ [], ∃ below, node.find q = some below ∧ (∀ r ∈ ancestors q, expanded (path ++ r)) ∧
        row = rowAt path depth q below := by
  induction node using TreeNode.branches_induction generalizing path depth with
  | h node ih =>
      rw [mem_walk]
      constructor
      · rintro ⟨x, hx, hrow⟩
        obtain ⟨hlookup, hdistinct⟩ := hnode.child hx
        rcases mem_childRows.mp hrow with rfl | ⟨⟨-, hopen⟩, hbelow⟩
        · -- the row of a child
          refine ⟨[x.1], List.cons_ne_nil _ _, x.2, ?_, ?_, ?_⟩
          · rw [TreeNode.find_cons, hlookup]
            rfl
          · rw [ancestors_singleton]
            exact List.forall_mem_nil _
          · rw [rowAt, ancestors_singleton]
            rfl
        · -- a row below it, which it shows only when it is expanded
          obtain ⟨q, hq, below, hfind, hexpanded, rfl⟩ := (ih x hx hdistinct).mp hbelow
          obtain ⟨part, q, rfl⟩ := List.exists_cons_of_ne_nil hq
          refine ⟨x.1 :: part :: q, List.cons_ne_nil _ _, below, ?_, ?_, rowAt_below ..⟩
          · rw [TreeNode.find_cons, hlookup]
            exact hfind
          · rw [ancestors_cons_cons, List.forall_mem_cons, List.forall_mem_map]
            refine ⟨hopen, ?_⟩
            intro r hr
            simpa using hexpanded r hr
      · rintro ⟨q, hq, below, hfind, hexpanded, rfl⟩
        -- the way down starts with the key of a child
        obtain ⟨part, q, rfl⟩ := List.exists_cons_of_ne_nil hq
        obtain ⟨child, hchild, hbelow⟩ := Option.bind_eq_some_iff.mp hfind
        have hx := mem_branches_of_lookup hchild
        refine ⟨(part, child), hx, mem_childRows.mpr ?_⟩
        cases q with
        | nil =>
            obtain rfl : child = below := Option.some.inj hbelow
            left
            rw [rowAt, ancestors_singleton]
            rfl
        | cons part' q =>
            rw [ancestors_cons_cons, List.forall_mem_cons, List.forall_mem_map] at hexpanded
            refine .inr ⟨⟨children_of_find_cons hbelow, hexpanded.1⟩, ?_⟩
            apply (ih (part, child) hx (hnode.child hx).2).mpr
            refine ⟨part' :: q, List.cons_ne_nil _ _, below, hbelow, ?_, (rowAt_below ..).symm⟩
            intro r hr
            simpa using hexpanded.2 r hr

/-! ### Toggling -/

/-- A child shows the same rows where nothing below it is expanded or folded. -/
theorem childRows_congr {x : Bytes × TreeNode} (h : ∀ r, expanded (path ++ x.1 :: r) = expanded' (path ++ x.1 :: r)) :
    childRows expanded path depth x = childRows expanded' path depth x := by
  have hwalk : ∀ (node : TreeNode) (q : List Bytes) (depth : Nat),
      walk expanded (path ++ x.1 :: q) depth node = walk expanded' (path ++ x.1 :: q) depth node := by
    intro node
    induction node using TreeNode.branches_induction with
    | h node ih =>
        intro q depth
        rw [walk_eq, walk_eq]
        apply List.flatMap_congr
        intro y hy
        unfold childRows
        rw [List.append_assoc, List.cons_append, h, ih y (TreeNode.mem_sorted.mp hy)]
  unfold childRows
  rw [h [], hwalk]

/-- What comes before a row does not depend on whether it is expanded. -/
theorem walk_split (hnode : node.Distinct) {row : TreeRow} (hrow : row ∈ walk expanded path depth node)
    (h : ∀ q, q ≠ row.path → expanded q = expanded' q) :
    ∃ before after after', walk expanded path depth node = before ++ row :: after ∧
      walk expanded' path depth node = before ++ row :: after' := by
  induction node using TreeNode.branches_induction generalizing path depth with
  | h node ih =>
      rw [walk_eq] at hrow
      obtain ⟨x, hx, hrow⟩ := List.mem_flatMap.mp hrow
      obtain ⟨left, right, hsplit⟩ := List.append_of_mem hx
      obtain ⟨-, hdistinct⟩ := hnode.child (TreeNode.mem_sorted.mp hx)
      -- the children before it show the same rows
      obtain ⟨q, hpath⟩ := path_of_mem_childRows hdistinct hrow
      have hleft : left.flatMap (childRows expanded path depth) = left.flatMap (childRows expanded' path depth) := by
        have hlt := hnode.sorted_lt
        rw [hsplit, List.pairwise_append] at hlt
        apply List.flatMap_congr
        intro y hy
        apply childRows_congr
        intro r
        apply h
        rw [hpath]
        intro heq
        have hsame : y.1 = x.1 := (List.cons.inj (List.append_cancel_left heq)).1
        exact absurd (hsame ▸ hlt.2.2 y hy x List.mem_cons_self) (List.lt_irrefl _)
      have hchild : ∃ before after after', childRows expanded path depth x = before ++ row :: after ∧
          childRows expanded' path depth x = before ++ row :: after' := by
        rcases mem_childRows.mp hrow with rfl | ⟨⟨hdir, hopen⟩, hbelow⟩
        · exact ⟨[], _, _, rfl, rfl⟩
        · obtain ⟨-, q, hq, hpath, -⟩ := find_of_mem_walk hdistinct hbelow
          have hother : path ++ [x.1] ≠ row.path := by
            rw [hpath]
            exact fun heq => hq (List.self_eq_append_right.mp heq)
          obtain ⟨before, after, after', hbefore, hafter⟩ := ih x (TreeNode.mem_sorted.mp hx) hdistinct hbelow
          refine ⟨⟨depth, x.1, x.2, x.2.children.isSome, path ++ [x.1]⟩ :: before, after, after', ?_, ?_⟩
          · rw [childRows, hdir, hopen, hbefore]
            rfl
          · rw [childRows, hdir, ← h _ hother, hopen, hafter]
            rfl
      obtain ⟨before, after, after', hbefore, hafter⟩ := hchild
      refine ⟨left.flatMap (childRows expanded path depth) ++ before,
        after ++ right.flatMap (childRows expanded path depth),
        after' ++ right.flatMap (childRows expanded' path depth), ?_, ?_⟩
      · rw [walk_eq, hsplit, List.flatMap_append, List.flatMap_cons, hbefore]
        simp
      · rw [walk_eq, hsplit, List.flatMap_append, List.flatMap_cons, hafter, hleft]
        simp

end

/-! ## The screen -/

/-- Pre-order listing of the nodes below the root in open directories: which rows there are and what they hold, each
    once, and their order. -/
structure Listing (root : TreeNode) (expanded : List Bytes → Bool) (rows : List TreeRow) : Prop where
  nodes : ∀ row, row ∈ rows ↔ ∃ q ≠ [], ∃ node, root.find q = some node ∧ (∀ r ∈ ancestors q, expanded r) ∧
    row = ⟨(ancestors q).length, q.getLastD [], node, node.children.isSome, q⟩
  once : (rows.map TreeRow.path).Nodup
  ordered : (rows.map TreeRow.path).Pairwise Precedes

theorem listing_walk {root : TreeNode} (h : root.Distinct) (expanded : List Bytes → Bool) :
    Listing root expanded (walk expanded [] 0 root) := by
  refine ⟨?_, nodup_walk h, List.pairwise_map.mpr (pairwise_precedes_walk h)⟩
  intro row
  rw [mem_walk_iff h]
  simp only [rowAt, List.nil_append, Nat.zero_add]

/-- The cursor is on a row. -/
def TreeScreen.OnRow (s : TreeScreen) : Prop := s.cursor < s.rows.length ∨ s.rows = [] ∧ s.cursor = 0

section

variable {s : TreeScreen} {entries : List HiddenEntry} {row : TreeRow}

theorem TreeScreen.onRow_rebuild (s : TreeScreen) : s.rebuild.OnRow := by
  unfold TreeScreen.OnRow TreeScreen.rebuild
  dsimp only
  split
  case isFalse hlt => exact .inl (Nat.lt_of_not_le hlt)
  case isTrue hle =>
    cases hrows : walk s.expanded [] 0 s.root with
    | nil => exact .inr ⟨rfl, rfl⟩
    | cons row rows => exact .inl (Nat.lt_succ_self _)

/-- **Step.** -/
theorem TreeScreen.OnRow.update (h : s.OnRow) (m : Msg W) : (s.update m).1.OnRow := by
  have hopen : ∀ row, (TreeScreen.open (W := W) s row).1.OnRow := by
    intro row
    unfold TreeScreen.open
    split
    · exact onRow_rebuild _
    · split <;> exact h
  unfold TreeScreen.update
  split
  case h_3 | h_4 =>
    show s.cursor - 1 < s.rows.length ∨ s.rows = [] ∧ s.cursor - 1 = 0
    rcases h with hlt | ⟨hrows, hzero⟩
    · exact .inl (Nat.lt_of_le_of_lt (Nat.sub_le _ _) hlt)
    · exact .inr ⟨hrows, by rw [hzero]⟩
  case h_5 | h_6 =>
    unfold TreeScreen.OnRow
    dsimp only
    split
    case isTrue hlt => exact .inl hlt
    case isFalse => exact h
  case h_7 | h_8 => split <;> first | exact h | exact hopen _
  all_goals exact h

/-- **Run.** -/
theorem TreeScreen.onRow_after (entries : List HiddenEntry) (ms : List (Msg W)) :
    (TreeScreen.after entries ms).OnRow := by
  apply after_induction (P := TreeScreen.OnRow)
  · exact onRow_rebuild _
  · intro s m h
    exact h.update m

/-- `s.expanded[row.node] = !s.expanded[row.node]`, and the rows again. -/
def TreeScreen.toggle (s : TreeScreen) (row : TreeRow) : TreeScreen :=
  TreeScreen.rebuild { s with expanded := Function.update s.expanded row.path (!s.expanded row.path) }

theorem TreeScreen.update_toggle (hrow : s.rows[s.cursor]? = some row) (hdir : row.isDir) {key : Key}
    (hkey : key = .enter ∨ key = .rune ' ') : (s.update (W := W) (.key key)).1 = s.toggle row := by
  have hopen : (TreeScreen.open (W := W) s row).1 = s.toggle row := by
    unfold TreeScreen.open
    rw [if_pos hdir]
    rfl
  rcases hkey with rfl | rfl
  all_goals
    simp only [TreeScreen.update, hrow]
    exact hopen

/-- **Toggling the selected directory** leaves the cursor on it. -/
theorem TreeScreen.Lists.toggle_selected (h : s.Lists entries) (hrow : s.rows[s.cursor]? = some row) :
    (s.toggle row).cursor = s.cursor ∧ (s.toggle row).rows[s.cursor]? = some row := by
  have hmem : row ∈ walk s.expanded [] 0 s.root := by
    rw [← h.rows]
    exact List.mem_of_getElem? hrow
  have hother : ∀ q, q ≠ row.path →
      s.expanded q = Function.update s.expanded row.path (!s.expanded row.path) q :=
    fun q hq => (Function.update_of_ne hq _ _).symm
  have hdistinct : s.root.Distinct := by
    rw [h.root]
    exact distinct_buildPathTree entries
  obtain ⟨before, after, after', hrows, hrows'⟩ := walk_split hdistinct hmem hother
  rw [← h.rows] at hrows
  -- the cursor is where the row is
  have hat : s.rows[before.length]? = some row := by
    rw [hrows, List.getElem?_append_right le_rfl, Nat.sub_self]
    rfl
  obtain ⟨hlt, -⟩ := List.getElem?_eq_some_iff.mp hrow
  have hcursor : s.cursor = before.length :=
    (List.getElem?_inj hlt (List.Nodup.of_map _ h.nodup_paths)).mp (hrow.trans hat.symm)
  have hrows'' : (s.toggle row).rows = before ++ row :: after' := hrows'
  have hshort : ¬ (s.toggle row).rows.length ≤ s.cursor := by
    rw [hrows'', hcursor, List.length_append, List.length_cons]
    omega
  refine ⟨if_neg hshort, ?_⟩
  rw [hrows'', hcursor, List.getElem?_append_right le_rfl, Nat.sub_self]
  rfl

/-- Toggling twice changes nothing. -/
theorem TreeScreen.Lists.toggle_toggle (h : s.Lists entries) (hrow : s.rows[s.cursor]? = some row) :
    (s.toggle row).toggle row = s := by
  obtain ⟨hcursor, -⟩ := h.toggle_selected hrow
  obtain ⟨hlt, -⟩ := List.getElem?_eq_some_iff.mp hrow
  have hexpanded : ((s.toggle row).toggle row).expanded = s.expanded := by
    show Function.update (Function.update s.expanded row.path _) row.path
      (!Function.update s.expanded row.path _ row.path) = s.expanded
    rw [Function.update_self, Function.update_idem, Bool.not_not, Function.update_eq_self]
  have hrows : ((s.toggle row).toggle row).rows = s.rows := by
    show walk ((s.toggle row).toggle row).expanded [] 0 s.root = s.rows
    rw [hexpanded, ← h.rows]
  have hcursor' : ((s.toggle row).toggle row).cursor = s.cursor := by
    show (if ((s.toggle row).toggle row).rows.length ≤ (s.toggle row).cursor then _ else (s.toggle row).cursor) = _
    rw [hrows, hcursor, if_neg (Nat.not_le.mpr hlt)]
  calc (s.toggle row).toggle row
      = ⟨s.root, ((s.toggle row).toggle row).expanded, ((s.toggle row).toggle row).rows,
          ((s.toggle row).toggle row).cursor⟩ := rfl
    _ = s := by rw [hexpanded, hrows, hcursor']

end

/-- **Tree navigation.** After any messages the rows are the pre-order listing of the nodes in open directories, the
    cursor is on one of them, and toggling the selected directory leaves it there; toggling it again leads back. -/
theorem tree_navigation (entries : List HiddenEntry) (ms : List (Msg W)) :
    let s := TreeScreen.after entries ms
    Listing (buildPathTree entries) s.expanded s.rows ∧
    (s.cursor < s.rows.length ∨ s.rows = [] ∧ s.cursor = 0) ∧
    ∀ row key, s.rows[s.cursor]? = some row → row.isDir → key = .enter ∨ key = .rune ' ' →
      let s' := (s.update (W := W) (.key key)).1
      s'.expanded = Function.update s.expanded row.path (!s.expanded row.path) ∧
      s'.cursor = s.cursor ∧ s'.rows[s'.cursor]? = some row ∧
      ∀ key', key' = .enter ∨ key' = .rune ' ' → (s'.update (W := W) (.key key')).1 = s := by
  intro s
  have hlists : s.Lists entries := TreeScreen.lists_after entries ms
  refine ⟨?_, TreeScreen.onRow_after entries ms, ?_⟩
  · rw [hlists.rows, hlists.root]
    exact listing_walk (distinct_buildPathTree entries) s.expanded
  · intro row key hrow hdir hkey
    obtain ⟨hcursor, hrow'⟩ := hlists.toggle_selected hrow
    rw [TreeScreen.update_toggle hrow hdir hkey]
    refine ⟨rfl, hcursor, ?_, ?_⟩
    · rw [hcursor]
      exact hrow'
    · intro key' hkey'
      rw [← hcursor] at hrow'
      rw [TreeScreen.update_toggle hrow' hdir hkey']
      exact hlists.toggle_toggle hrow

end Tui
end Hsed
