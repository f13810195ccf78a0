import Hsed.Tui.Tree

/-!
# `Tui.Correctness.PathTree` — what `BuildPathTree` stores, and where

The tree is read by following keys from the root (`find`), and a node by its `place`: its name, its entries and
whether it is a directory. The loop over one path is `hang`, which goes down the components that are not empty and
leaves the entry at the last of them (`insertParts_eq_hang`); `place_hang` says what that does to every place of
the tree. By induction over the list, each place is then the one that `placeOf` gives it, a function of the list of
entries alone (`place_buildPathTree`), and everything else is read off `placeOf`.
-/

namespace Hsed
namespace Tui

open CLib Client

/-! ## Components -/

/-- The components of a path that are not empty. -/
def components (path : Bytes) : List Bytes := (path.splitOn 0x2f).filter (· ≠ [])

theorem components_cons_slash (path : Bytes) : components (0x2f :: path) = components path := by
  unfold components
  rw [List.splitOn_cons_eq_if_modifyHead]
  rfl

theorem components_snoc_slash (path : Bytes) : components (path ++ [0x2f]) = components path := by
  unfold components
  rw [List.splitOn_append_cons_self, List.splitOn_nil, List.filter_append]
  exact List.append_nil _

theorem components_trimSlashes (path : Bytes) : components (trimSlashes path) = components path := by
  have hfront : ∀ path : Bytes, components (path.dropWhile (· == 0x2f)) = components path := by
    intro path
    induction path with
    | nil => rfl
    | cons b path ih =>
        rw [List.dropWhile_cons]
        split
        case isTrue hb =>
          rw [ih, beq_iff_eq.mp hb]
          exact (components_cons_slash path).symm
        case isFalse => rfl
  have hback : ∀ path : Bytes, components (path.reverse.dropWhile (· == 0x2f)).reverse = components path := by
    intro path
    induction path using List.reverseRecOn with
    | nil => rfl
    | append_singleton path b ih =>
        rw [List.reverse_append, List.reverse_singleton, List.singleton_append, List.dropWhile_cons]
        split
        case isTrue hb =>
          rw [ih, beq_iff_eq.mp hb]
          exact (components_snoc_slash path).symm
        case isFalse => rw [List.reverse_cons, List.reverse_reverse]
  unfold trimSlashes
  rw [hback, hfront]

example : components (ascii "//var//log/a.log/") = [ascii "var", ascii "log", ascii "a.log"] := by decide

/-- Text that does not end in the separator does not end in an empty part. -/
theorem getLast?_splitOn_ne_nil {a b : UInt8} (hb : b ≠ a) (init : Bytes) :
    ∀ last ∈ ((init ++ [b]).splitOn a).getLast?, last ≠ [] := by
  induction init with
  | nil =>
      intro last hlast
      rw [List.nil_append, List.splitOn_eq_singleton (by simpa using hb.symm)] at hlast
      obtain rfl : [b] = last := by simpa using hlast
      exact List.cons_ne_nil b []
  | cons x init ih =>
      intro last hlast
      rw [List.cons_append, List.splitOn_cons_eq_if_modifyHead] at hlast
      cases hparts : (init ++ [b]).splitOn a with
      | nil => exact absurd hparts (List.splitOn_ne_nil a _)
      | cons part parts =>
          rw [hparts] at ih hlast
          split at hlast
          · exact ih last (by simpa [List.getLast?_cons] using hlast)
          · cases parts with
            | nil =>
                obtain rfl : x :: part = last := by simpa using hlast
                exact List.cons_ne_nil x part
            | cons part' parts => exact ih last (by simpa [List.getLast?_cons] using hlast)

/-- The parts of a trimmed path: it is empty, or it ends in a component. -/
theorem pathParts_cases (e : HiddenEntry) :
    (pathParts e = [[]] ∧ components e.path = []) ∨
    ((pathParts e).filter (· ≠ []) = components e.path ∧ components e.path ≠ [] ∧
      ∀ last ∈ (pathParts e).getLast?, last ≠ []) := by
  have hfilter : (pathParts e).filter (· ≠ []) = components e.path := components_trimSlashes e.path
  rcases List.eq_nil_or_concat (trimSlashes e.path) with hnil | ⟨init, b, hsnoc⟩
  · left
    have hparts : pathParts e = [[]] := by rw [pathParts, hnil, List.splitOn_nil]
    exact ⟨hparts, by rw [← hfilter, hparts]; rfl⟩
  · right
    rw [List.concat_eq_append] at hsnoc
    -- what `dropWhile` leaves does not begin with a slash
    have hb : b ≠ 0x2f := by
      have hhead := List.head?_dropWhile_not (· == 0x2f) ((e.path.dropWhile (· == 0x2f)).reverse)
      have hrev : ((e.path.dropWhile (· == 0x2f)).reverse).dropWhile (· == 0x2f) = b :: init.reverse := by
        have hrev := congrArg List.reverse hsnoc
        rw [trimSlashes, List.reverse_reverse, List.reverse_append] at hrev
        exact hrev
      rw [hrev] at hhead
      exact beq_eq_false_iff_ne.mp hhead
    have hlast : ∀ last ∈ (pathParts e).getLast?, last ≠ [] := by
      rw [pathParts, hsnoc]
      exact getLast?_splitOn_ne_nil hb init
    refine ⟨hfilter, ?_, hlast⟩
    rw [← hfilter]
    intro hempty
    obtain ⟨last, hmem⟩ := Option.isSome_iff_exists.mp
      (List.getLast?_isSome.mpr (List.splitOn_ne_nil 0x2f (trimSlashes e.path)))
    have hne := hlast last hmem
    rw [List.filter_eq_nil_iff] at hempty
    exact hempty last (List.mem_of_getLast? hmem) (decide_eq_true hne)

/-! ## The loop over one path -/

namespace TreeNode

/-- `node.Children`, empty where it is nil. -/
def branches (node : TreeNode) : List (Bytes × TreeNode) := node.children.getD []

/-- The entry at the end of its path, below `node`; what is missing on the way is made. -/
def hang (e : HiddenEntry) : List Bytes → TreeNode → TreeNode
  | [], node => node.addEntry e
  | part :: parts, node =>
    node.withChildren
      (mapSet part (hang e parts ((node.branches.lookup part).getD (.mk part none []))) node.branches)

@[simp] theorem branches_addEntry (e : HiddenEntry) (node : TreeNode) : (node.addEntry e).branches = node.branches := by
  cases node
  rfl

@[simp] theorem branches_withChildren (cs : List (Bytes × TreeNode)) (node : TreeNode) :
    (node.withChildren cs).branches = cs := by
  cases node
  rfl

/-- A directory is made one without effect on what is hung below it. -/
theorem hang_asDirectory (e : HiddenEntry) {parts : List Bytes} (hparts : parts ≠ []) (node : TreeNode) :
    hang e parts node.asDirectory = hang e parts node := by
  cases parts with
  | nil => exact absurd rfl hparts
  | cons part parts =>
      cases node
      rfl

theorem hang_children (e : HiddenEntry) {parts : List Bytes} (hparts : parts ≠ []) (node : TreeNode) :
    (hang e parts node).children ≠ none := by
  cases parts with
  | nil => exact absurd rfl hparts
  | cons part parts =>
      cases node
      exact Option.some_ne_none _

end TreeNode

/-- Empty parts are passed over; the last part is none of them. -/
theorem insertParts_filter (e : HiddenEntry) {parts : List Bytes} (hlast : ∀ last ∈ parts.getLast?, last ≠ [])
    (node : TreeNode) : insertParts e (parts.filter (· ≠ [])) node = insertParts e parts node := by
  induction parts generalizing node with
  | nil => rfl
  | cons part parts ih =>
      have hlast' : ∀ last ∈ parts.getLast?, last ≠ [] := by
        intro last hmem
        apply hlast last
        rw [List.getLast?_cons, Option.mem_def.mp hmem]
        rfl
      by_cases hpart : part = []
      · rw [List.filter_cons_of_neg (by simpa using hpart), ih hlast', insertParts, if_pos hpart]
      · have hnil : parts.filter (· ≠ []) = [] ↔ parts = [] := by
          refine ⟨?_, fun h => by rw [h]; rfl⟩
          intro hfilter
          cases hp : parts.getLast? with
          | none => exact List.getLast?_eq_none_iff.mp hp
          | some last =>
              rw [List.filter_eq_nil_iff] at hfilter
              exact absurd (decide_eq_true (hlast' last hp)) (hfilter last (List.mem_of_getLast? hp))
        rw [List.filter_cons_of_pos (by simpa using hpart)]
        unfold insertParts
        simp only [hnil, ih hlast']

/-- **The loop over the components of a path** hangs the entry below a directory. -/
theorem insertParts_eq_hang (e : HiddenEntry) {parts : List Bytes} (hparts : parts ≠ [])
    (hne : ∀ part ∈ parts, part ≠ []) (node : TreeNode) (hdir : node.children ≠ none) :
    insertParts e parts node = some (node.hang e parts) := by
  induction parts generalizing node with
  | nil => exact absurd rfl hparts
  | cons part parts ih =>
      obtain ⟨cs, hcs⟩ := Option.ne_none_iff_exists'.mp hdir
      have hbranches : node.branches = cs := by rw [TreeNode.branches, hcs, Option.getD_some]
      rw [insertParts, if_neg (hne part List.mem_cons_self), hcs, TreeNode.hang, hbranches]
      dsimp only
      by_cases hlast : parts = []
      · rw [if_pos hlast, hlast]
        rfl
      · rw [if_neg hlast]
        have hrest := fun child hdir => ih hlast (fun part hpart => hne part (List.mem_cons_of_mem _ hpart)) child hdir
        cases hchild : cs.lookup part with
        | none =>
            show (insertParts e parts (.mk part (some []) [])).map _ = _
            rw [hrest (.mk part (some []) []) (Option.some_ne_none []), Option.map_some, Option.getD_none]
            exact congrArg (fun c => some (node.withChildren (mapSet part c cs)))
              (TreeNode.hang_asDirectory e hlast (.mk part none []))
        | some child =>
            show (insertParts e parts child.asDirectory).map _ = _
            have hdir : child.asDirectory.children ≠ none := by
              cases child
              exact Option.some_ne_none _
            rw [hrest _ hdir, TreeNode.hang_asDirectory e hlast, Option.map_some, Option.getD_some]

/-! ## Places -/

theorem lookup_mapSet {α β : Type} [DecidableEq α] [BEq α] [LawfulBEq α] (key k : α) (value : β) (m : List (α × β)) :
    (mapSet key value m).lookup k = if k = key then some value else m.lookup k := by
  have hcons : ∀ (k' : α) (v : β) (m : List (α × β)),
      ((k', v) :: m).lookup k = if k = k' then some v else m.lookup k := by
    intro k' v m
    by_cases hk : k = k'
    · rw [if_pos hk, hk, List.lookup_cons_self]
    · rw [if_neg hk, List.lookup_cons, beq_eq_false_iff_ne.mpr hk]
  induction m with
  | nil => exact hcons key value []
  | cons kv m ih =>
      obtain ⟨k', v⟩ := kv
      unfold mapSet
      split
      case isTrue hkey =>
        rw [hcons, hcons, hkey]
        split <;> rfl
      case isFalse hkey =>
        rw [hcons, hcons, ih]
        split <;> split <;> simp_all

/-- What is known of a node apart from those below it. -/
structure Place where
  name : Bytes
  entries : List HiddenEntry
  isDir : Bool

namespace TreeNode

/-- The node reached by following the keys. -/
def find : List Bytes → TreeNode → Option TreeNode
  | [], node => some node
  | part :: parts, node => (node.branches.lookup part).bind (find parts)

def place (node : TreeNode) : Place := ⟨node.name, node.entries, node.children.isSome⟩

theorem find_cons (part : Bytes) (parts : List Bytes) (node : TreeNode) :
    node.find (part :: parts) = (node.branches.lookup part).bind (find parts) := rfl

/-- The place of a node that is not there yet. -/
def fresh (name : Bytes) : Place := ⟨name, [], false⟩

end TreeNode

/-- A place on the way of an entry: the last takes it, the others are directories. -/
def Place.visit (e : HiddenEntry) (last : Bool) (p : Place) : Place :=
  if last then { p with entries := p.entries ++ [e] } else { p with isDir := true }

namespace TreeNode

/-- **What one entry does to the places of the tree**: those on its way are visited, the others stay. -/
theorem place_hang (e : HiddenEntry) (parts r : List Bytes) (node : TreeNode) :
    ((node.hang e parts).find r).map place =
      if r <+: parts then
        some ((((node.find r).map place).getD (fresh (r.getLastD node.name))).visit e (r = parts))
      else (node.find r).map place := by
  induction parts generalizing node r with
  | nil =>
      cases r with
      | nil =>
          cases node
          rfl
      | cons part r =>
          rw [if_neg (by simp), hang, find, branches_addEntry]
          rfl
  | cons part parts ih =>
      cases r with
      | nil =>
          cases node
          rfl
      | cons part' r =>
          rw [hang, find, branches_withChildren, lookup_mapSet]
          by_cases hpart : part' = part
          · subst hpart
            rw [if_pos rfl, Option.bind_some, ih]
            simp only [List.cons_prefix_cons, List.cons.injEq, true_and, List.getLastD_cons]
            cases r with
            | nil =>
                rw [if_pos List.nil_prefix, if_pos List.nil_prefix, find_cons part' [] node]
                cases node.branches.lookup part' <;> rfl
            | cons part r =>
                -- a fresh child has nothing below it
                have hbelow : ((node.branches.lookup part').getD (.mk part' none [])).find (part :: r) =
                    node.find (part' :: part :: r) := by
                  rw [find_cons part' (part :: r) node]
                  cases node.branches.lookup part' <;> rfl
                rw [hbelow, List.getLastD_cons, List.getLastD_cons]
          · have hnot : ¬ part' :: r <+: part :: parts := by
              rw [List.cons_prefix_cons]
              exact fun h => hpart h.1
            rw [if_neg hpart, if_neg hnot]
            rfl

end TreeNode

/-! ## The whole list -/

/-- The place that a list of entries gives to a sequence of components: the root is always there and holds
    nothing, and a place is a directory if some path goes on from it. -/
def placeOf (entries : List HiddenEntry) (q : List Bytes) : Option Place :=
  if q = [] then some ⟨[], [], true⟩
  else if ∃ e ∈ entries, q <+: components e.path then
    some ⟨q.getLastD [], entries.filter (fun e => components e.path = q),
      ∃ e ∈ entries, q <+: components e.path ∧ q ≠ components e.path⟩
  else none

section

variable {entries : List HiddenEntry} {e : HiddenEntry} {q : List Bytes}

theorem placeOf_nil (entries : List HiddenEntry) : placeOf entries [] = some ⟨[], [], true⟩ := rfl

/-- A path without components leaves no trace. -/
theorem placeOf_snoc_root (he : components e.path = []) : placeOf (entries ++ [e]) q = placeOf entries q := by
  unfold placeOf
  split
  case isTrue => rfl
  case isFalse hq =>
    have hnot : ¬ q <+: components e.path := by
      rw [he, List.prefix_nil]
      exact hq
    have hne : ¬ components e.path = q := by
      rw [he]
      exact Ne.symm hq
    simp [or_and_right, exists_or, hnot, hne]

theorem placeOf_snoc (he : components e.path ≠ []) :
    placeOf (entries ++ [e]) q =
      if q <+: components e.path then
        some (((placeOf entries q).getD (TreeNode.fresh (q.getLastD []))).visit e (q = components e.path))
      else placeOf entries q := by
  by_cases hq : q = []
  · subst hq
    rw [if_pos List.nil_prefix, placeOf_nil, placeOf_nil, decide_eq_false he.symm]
    rfl
  · by_cases hpre : q <+: components e.path
    · rw [if_pos hpre]
      unfold placeOf
      rw [if_neg hq, if_neg hq, if_pos ⟨e, List.mem_append_right _ List.mem_cons_self, hpre⟩]
      -- where nothing was yet, a fresh place is what the old entries make of it
      have hold : (if ∃ e ∈ entries, q <+: components e.path then
            some (⟨q.getLastD [], entries.filter (fun e => components e.path = q),
              ∃ e ∈ entries, q <+: components e.path ∧ q ≠ components e.path⟩ : Place)
          else none).getD (TreeNode.fresh (q.getLastD [])) =
          ⟨q.getLastD [], entries.filter (fun e => components e.path = q),
            ∃ e ∈ entries, q <+: components e.path ∧ q ≠ components e.path⟩ := by
        split
        case isTrue => rfl
        case isFalse hnone =>
          have hentries : entries.filter (fun e => components e.path = q) = [] := by
            rw [List.filter_eq_nil_iff]
            intro e' he' heq
            exact hnone ⟨e', he', by rw [of_decide_eq_true heq]⟩
          have hdir : ¬ ∃ e ∈ entries, q <+: components e.path ∧ q ≠ components e.path := by
            rintro ⟨e', he', hpre', -⟩
            exact hnone ⟨e', he', hpre'⟩
          rw [hentries, decide_eq_false hdir]
          rfl
      rw [hold]
      unfold Place.visit
      by_cases hlast : q = components e.path
      · simp [hlast, or_and_right, exists_or]
      · simp [hlast, Ne.symm hlast, hpre, or_and_right, exists_or]
    · have hne : ¬ components e.path = q := by
        rintro rfl
        exact hpre (List.prefix_refl _)
      rw [if_neg hpre]
      unfold placeOf
      simp [or_and_right, exists_or, hpre, hne]

end

theorem components_ne_nil (path : Bytes) : ∀ part ∈ components path, part ≠ [] := by
  intro part hpart
  exact of_decide_eq_true (List.mem_filter.mp hpart).2

theorem insertAll_eq_buildPathTree (entries : List HiddenEntry) :
    insertAll entries emptyRoot = some (buildPathTree entries) := (Option.some_get _).symm

/-- **Induction over the list**: an entry with components is hung below the tree so far, any other leaves it. -/
theorem buildPathTree_induction {P : List HiddenEntry → TreeNode → Prop} (hnil : P [] emptyRoot)
    (hroot : ∀ entries e root, components e.path = [] → P entries root → P (entries ++ [e]) root)
    (hhang : ∀ entries e root, components e.path ≠ [] → P entries root →
      P (entries ++ [e]) (root.hang e (components e.path)))
    (entries : List HiddenEntry) : P entries (buildPathTree entries) := by
  suffices hall : ∀ root, insertAll entries emptyRoot = some root → root.children ≠ none ∧ P entries root from
    (hall _ (insertAll_eq_buildPathTree entries)).2
  induction entries using List.reverseRecOn with
  | nil =>
      intro root h
      obtain rfl : emptyRoot = root := by simpa [insertAll] using h
      exact ⟨Option.some_ne_none [], hnil⟩
  | append_singleton entries e ih =>
      intro root h
      unfold insertAll at h
      rw [List.foldlM_append] at h
      obtain ⟨root₁, hroot₁, hlast⟩ := Option.bind_eq_some_iff.mp h
      have hins : insertParts e (pathParts e) root₁ = some root := by simpa using hlast
      obtain ⟨hdir, hP⟩ := ih root₁ hroot₁
      rcases pathParts_cases e with ⟨hparts, he⟩ | ⟨hfilter, he, hend⟩
      · rw [hparts] at hins
        obtain rfl : root₁ = root := Option.some.inj hins
        exact ⟨hdir, hroot entries e root₁ he hP⟩
      · rw [← insertParts_filter e hend, hfilter] at hins
        rw [insertParts_eq_hang e he (components_ne_nil e.path) root₁ hdir] at hins
        obtain rfl : root₁.hang e (components e.path) = root := Option.some.inj hins
        exact ⟨TreeNode.hang_children e he root₁, hhang entries e root₁ he hP⟩

/-- **`BuildPathTree`**, place by place. -/
theorem place_buildPathTree (entries : List HiddenEntry) :
    ∀ q, ((buildPathTree entries).find q).map TreeNode.place = placeOf entries q := by
  apply buildPathTree_induction (P := fun entries root => ∀ q, (root.find q).map TreeNode.place = placeOf entries q)
  · intro q
    cases q with
    | nil => rfl
    | cons part q => rfl
  · intro entries e root he hplaces q
    rw [hplaces, placeOf_snoc_root he]
  · intro entries e root he hplaces q
    have hname : root.name = [] := congrArg Place.name (Option.some.inj (hplaces []))
    rw [TreeNode.place_hang, placeOf_snoc he, hplaces, hname]

/-! ## Maps -/

theorem keys_mapSet {α β : Type} [DecidableEq α] (key : α) (value : β) (m : List (α × β)) :
    (mapSet key value m).map Prod.fst =
      if key ∈ m.map Prod.fst then m.map Prod.fst else m.map Prod.fst ++ [key] := by
  induction m with
  | nil => rfl
  | cons kv m ih =>
      unfold mapSet
      split
      case isTrue hkey => simp [hkey]
      case isFalse hkey =>
        rw [List.map_cons, ih]
        split <;> simp_all [Ne.symm hkey]

theorem nodup_keys_mapSet {α β : Type} [DecidableEq α] (key : α) (value : β) {m : List (α × β)}
    (h : (m.map Prod.fst).Nodup) : ((mapSet key value m).map Prod.fst).Nodup := by
  rw [keys_mapSet]
  split
  case isTrue => exact h
  case isFalse hnew =>
    rw [← List.concat_eq_append]
    exact h.concat hnew

namespace TreeNode

/-- Every node that can be reached binds each key once, as a map does. -/
def Distinct (node : TreeNode) : Prop := ∀ q below, node.find q = some below → (below.branches.map Prod.fst).Nodup

theorem distinct_iff {node : TreeNode} :
    node.Distinct ↔
      (node.branches.map Prod.fst).Nodup ∧ ∀ part child, node.branches.lookup part = some child → child.Distinct := by
  constructor
  · intro h
    refine ⟨h [] node rfl, ?_⟩
    intro part child hchild q below hbelow
    apply h (part :: q) below
    rw [find_cons, hchild]
    exact hbelow
  · rintro ⟨hkeys, hchildren⟩ q below hbelow
    cases q with
    | nil =>
        obtain rfl : node = below := Option.some.inj hbelow
        exact hkeys
    | cons part q =>
        obtain ⟨child, hchild, hfind⟩ := Option.bind_eq_some_iff.mp hbelow
        exact hchildren part child hchild q below hfind

theorem distinct_of_branches_nil {node : TreeNode} (h : node.branches = []) : node.Distinct := by
  rw [distinct_iff, h]
  exact ⟨List.nodup_nil, nofun⟩

theorem Distinct.hang {node : TreeNode} (h : node.Distinct) (e : HiddenEntry) (parts : List Bytes) :
    (node.hang e parts).Distinct := by
  induction parts generalizing node with
  | nil =>
      rw [TreeNode.hang, distinct_iff, branches_addEntry]
      exact distinct_iff.mp h
  | cons part parts ih =>
      obtain ⟨hkeys, hchildren⟩ := distinct_iff.mp h
      rw [TreeNode.hang, distinct_iff, branches_withChildren]
      refine ⟨nodup_keys_mapSet part _ hkeys, ?_⟩
      intro part' child' hchild'
      rw [lookup_mapSet] at hchild'
      split at hchild'
      · obtain rfl := Option.some.inj hchild'
        apply ih
        cases hchild : node.branches.lookup part with
        | none => exact distinct_of_branches_nil rfl
        | some child => exact hchildren part child hchild
      · exact hchildren part' child' hchild'

end TreeNode

theorem distinct_buildPathTree (entries : List HiddenEntry) : (buildPathTree entries).Distinct := by
  apply buildPathTree_induction (P := fun _ root => root.Distinct)
  · exact TreeNode.distinct_of_branches_nil rfl
  · intro _ _ _ _ h
    exact h
  · intro _ e _ _ h
    exact h.hang e _

/-! ## The partition -/

/-- What a tree of paths is for: the entries of a path are at the node of its components and nowhere else. -/
structure Partition (entries : List HiddenEntry) (tree : TreeNode) : Prop where
  maps : tree.Distinct
  root : tree.entries = []
  held : ∀ q node, q ≠ [] → tree.find q = some node → node.entries = entries.filter fun e => components e.path = q
  once : ∀ e ∈ entries, components e.path ≠ [] → ∃! q, ∃ node, tree.find q = some node ∧ e ∈ node.entries
  nodes : ∀ q, q ≠ [] → ((tree.find q).isSome ↔ ∃ e ∈ entries, q <+: components e.path)
  named : ∀ q key node, tree.find (q ++ [key]) = some node → node.name = key
  directories : ∀ q node, tree.find q = some node →
    (node.children ≠ none ↔ q = [] ∨ ∃ e ∈ entries, q <+: components e.path ∧ q ≠ components e.path)

/-- Two nodes that differ in the order of their entries alone, apart from what is below them. -/
def TreeNode.Reordered (node node' : TreeNode) : Prop :=
  node.name = node'.name ∧ node.entries.Perm node'.entries ∧ node.children.isSome = node'.children.isSome

section

variable {entries entries' : List HiddenEntry} {q : List Bytes} {node : TreeNode}

theorem placeOf_of_find (h : (buildPathTree entries).find q = some node) : placeOf entries q = some node.place := by
  rw [← place_buildPathTree, h, Option.map_some]

/-- A place below the root. -/
theorem placeOf_eq_some (hq : q ≠ []) {p : Place} (h : placeOf entries q = some p) :
    (∃ e ∈ entries, q <+: components e.path) ∧
    p = ⟨q.getLastD [], entries.filter (fun e => components e.path = q),
      ∃ e ∈ entries, q <+: components e.path ∧ q ≠ components e.path⟩ := by
  unfold placeOf at h
  rw [if_neg hq] at h
  split at h
  case isTrue hex => exact ⟨hex, (Option.some.inj h).symm⟩
  case isFalse => cases h

theorem isSome_find (hq : q ≠ []) :
    ((buildPathTree entries).find q).isSome ↔ ∃ e ∈ entries, q <+: components e.path := by
  rw [← Option.isSome_map (f := TreeNode.place), place_buildPathTree, placeOf, if_neg hq]
  split
  case isTrue hex => exact ⟨fun _ => hex, fun _ => rfl⟩
  case isFalse hnone => exact ⟨nofun, fun hex => absurd hex hnone⟩

theorem entries_of_find (hq : q ≠ []) (h : (buildPathTree entries).find q = some node) :
    node.entries = entries.filter fun e => components e.path = q :=
  congrArg Place.entries (placeOf_eq_some hq (placeOf_of_find h)).2

theorem children_of_find (h : (buildPathTree entries).find q = some node) :
    node.children ≠ none ↔ q = [] ∨ ∃ e ∈ entries, q <+: components e.path ∧ q ≠ components e.path := by
  rw [← Option.isSome_iff_ne_none]
  show node.place.isDir = true ↔ _
  by_cases hq : q = []
  · subst hq
    obtain hroot : _ = node.place := Option.some.inj ((placeOf_nil entries).symm.trans (placeOf_of_find h))
    rw [← hroot]
    exact ⟨fun _ => .inl rfl, fun _ => rfl⟩
  · rw [(placeOf_eq_some hq (placeOf_of_find h)).2, decide_eq_true_iff]
    exact ⟨.inr, fun h => h.resolve_left hq⟩

theorem partition_buildPathTree (entries : List HiddenEntry) : Partition entries (buildPathTree entries) := by
  have hroot : (buildPathTree entries).entries = [] :=
    congrArg Place.entries (Option.some.inj (place_buildPathTree entries []))
  refine ⟨distinct_buildPathTree entries, hroot, fun q node hq h => entries_of_find hq h, ?_,
    fun q hq => isSome_find hq, ?_, fun q node h => children_of_find h⟩
  · intro e he hcomponents
    obtain ⟨node, hnode⟩ := Option.isSome_iff_exists.mp ((isSome_find hcomponents).mpr ⟨e, he, List.prefix_refl _⟩)
    refine ⟨components e.path, ⟨node, hnode, ?_⟩, ?_⟩
    · rw [entries_of_find hcomponents hnode]
      exact List.mem_filter.mpr ⟨he, decide_eq_true rfl⟩
    · rintro q ⟨node', hnode', hmem⟩
      by_cases hq : q = []
      · subst hq
        obtain rfl : buildPathTree entries = node' := Option.some.inj hnode'
        rw [hroot] at hmem
        cases hmem
      · rw [entries_of_find hq hnode'] at hmem
        exact (of_decide_eq_true (List.mem_filter.mp hmem).2).symm
  · intro q key node h
    have hq : q ++ [key] ≠ [] := List.append_ne_nil_of_right_ne_nil q (List.cons_ne_nil key [])
    have hname := congrArg Place.name (placeOf_eq_some hq (placeOf_of_find h)).2
    rwa [List.getLastD_concat] at hname

/-- The order of the list shows in the order within a node, and nowhere else. -/
theorem reordered_of_perm (h : entries'.Perm entries) (q : List Bytes) :
    Option.Rel TreeNode.Reordered ((buildPathTree entries').find q) ((buildPathTree entries).find q) := by
  have hplaces : Option.Rel (fun p p' : Place => p.name = p'.name ∧ p.entries.Perm p'.entries ∧ p.isDir = p'.isDir)
      (placeOf entries' q) (placeOf entries q) := by
    unfold placeOf
    simp only [h.mem_iff]
    split
    · exact .some ⟨rfl, .refl _, rfl⟩
    · split
      · exact .some ⟨rfl, h.filter _, rfl⟩
      · exact .none
  rw [← place_buildPathTree, ← place_buildPathTree] at hplaces
  cases hfind' : (buildPathTree entries').find q <;> cases hfind : (buildPathTree entries).find q
  all_goals rw [hfind', hfind] at hplaces; cases hplaces
  case none.none => exact .none
  case some.some hsame => exact .some hsame

end

/-- **`BuildPathTree` is a partition** of the entries by their components; it writes to no nil map, and the order
    of the entries shows within the nodes alone. -/
theorem path_tree_partition (entries : List HiddenEntry) :
    insertAll entries emptyRoot = some (buildPathTree entries) ∧ Partition entries (buildPathTree entries) ∧
    ∀ entries', entries'.Perm entries → ∀ q,
      Option.Rel TreeNode.Reordered ((buildPathTree entries').find q) ((buildPathTree entries).find q) :=
  ⟨insertAll_eq_buildPathTree entries, partition_buildPathTree entries, fun _ h q => reordered_of_perm h q⟩

end Tui
end Hsed
