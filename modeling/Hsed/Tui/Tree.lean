import Hsed.Client.Client
import Mathlib.Data.List.Sort

/-!
# `Tui.Tree` — the tree of paths and its screen (`client.go`, `tree_screen.go`)

`BuildPathTree` hangs each entry under the components of its path; `TreeScreen` lists the nodes of that
tree, a directory's children below it where it is expanded. A Go map is the list of its bindings in the
order they were made, and a write to a nil map is `none`. A node is told from the others by the names on
the way to it from the root, in place of its address.
-/

namespace Hsed
namespace Tui

open CLib Client

/-- `TreeNode`; `children` is `none` for a nil map. -/
inductive TreeNode where
  | mk (name : Bytes) (children : Option (List (Bytes × TreeNode))) (entries : List HiddenEntry)

namespace TreeNode

def name : TreeNode → Bytes
  | mk name _ _ => name

def children : TreeNode → Option (List (Bytes × TreeNode))
  | mk _ children _ => children

def entries : TreeNode → List HiddenEntry
  | mk _ _ entries => entries

def withChildren (cs : List (Bytes × TreeNode)) : TreeNode → TreeNode
  | mk name _ entries => mk name (some cs) entries

/-- `child.Entries = append(child.Entries, e)`. -/
def addEntry (e : HiddenEntry) : TreeNode → TreeNode
  | mk name children entries => mk name children (entries ++ [e])

/-- `child.Children`, made if it is nil. -/
def asDirectory : TreeNode → TreeNode
  | mk name children entries => mk name (some (children.getD [])) entries

end TreeNode

/-- `m[key] = value`. -/
def mapSet {α β : Type} [DecidableEq α] (key : α) (value : β) : List (α × β) → List (α × β)
  | [] => [(key, value)]
  | (k, v) :: m => if k = key then (k, value) :: m else (k, v) :: mapSet key value m

/-- The loop over the components of one path, from `node` on; `none` where the code would write to a nil
    map. -/
def insertParts (e : HiddenEntry) : List Bytes → TreeNode → Option TreeNode
  | [], node => some node
  | part :: parts, node =>
    if part = [] then insertParts e parts node
    else
      match node.children with
      | none => none
      | some cs =>
        if parts = [] then
          let child := (cs.lookup part).getD (.mk part none [])
          some (node.withChildren (mapSet part (child.addEntry e) cs))
        else
          let child := ((cs.lookup part).map TreeNode.asDirectory).getD (.mk part (some []) [])
          (insertParts e parts child).map fun child => node.withChildren (mapSet part child cs)

/-- `strings.Trim(path, "/")`. -/
def trimSlashes (path : Bytes) : Bytes :=
  (((path.dropWhile (· == 0x2f)).reverse).dropWhile (· == 0x2f)).reverse

/-- `strings.Split(strings.Trim(e.Path, "/"), "/")`. -/
def pathParts (e : HiddenEntry) : List Bytes := (trimSlashes e.path).splitOn 0x2f

def emptyRoot : TreeNode := .mk [] (some []) []

def insertAll (entries : List HiddenEntry) (root : TreeNode) : Option TreeNode :=
  entries.foldlM (fun root e => insertParts e (pathParts e) root) root

/-- One path goes in below a directory, and leaves it one. -/
theorem insertParts_of_children (e : HiddenEntry) (parts : List Bytes) (node : TreeNode)
    (hdir : node.children ≠ none) : ∃ node', insertParts e parts node = some node' ∧ node'.children ≠ none := by
  induction parts generalizing node with
  | nil => exact ⟨node, rfl, hdir⟩
  | cons part parts ih =>
      unfold insertParts
      split
      · exact ih node hdir
      · obtain ⟨cs, hcs⟩ := Option.ne_none_iff_exists'.mp hdir
        rw [hcs]
        dsimp only
        have hwith : ∀ cs', (node.withChildren cs').children ≠ none := by
          intro cs'
          cases node
          simp [TreeNode.withChildren, TreeNode.children]
        by_cases hlast : parts = []
        · rw [if_pos hlast]
          exact ⟨_, rfl, hwith _⟩
        · -- the next node is a directory too: it was made one on the way
          rw [if_neg hlast]
          have hchild :
              (((cs.lookup part).map TreeNode.asDirectory).getD (.mk part (some []) [])).children ≠ none := by
            cases cs.lookup part with
            | none => simp [TreeNode.children]
            | some child =>
                cases child
                simp [TreeNode.asDirectory, TreeNode.children]
          obtain ⟨child', hins, -⟩ := ih _ hchild
          exact ⟨_, by rw [hins]; rfl, hwith _⟩

theorem insertAll_isSome (entries : List HiddenEntry) (root : TreeNode) (hdir : root.children ≠ none) :
    (insertAll entries root).isSome := by
  induction entries generalizing root with
  | nil => rfl
  | cons e entries ih =>
      obtain ⟨root', hins, hdir'⟩ := insertParts_of_children e (pathParts e) root hdir
      unfold insertAll
      rw [List.foldlM_cons, hins]
      exact ih root' hdir'

/-- `BuildPathTree`: no path writes to a nil map. -/
def buildPathTree (entries : List HiddenEntry) : TreeNode :=
  (insertAll entries emptyRoot).get (insertAll_isSome entries emptyRoot (by simp [emptyRoot, TreeNode.children]))

/-! ## The screen -/

/-- `treeRow`, and the way to its node. -/
structure TreeRow where
  depth : Nat
  label : Bytes
  node : TreeNode
  isDir : Bool
  path : List Bytes

structure TreeScreen where
  root : TreeNode
  expanded : List Bytes → Bool
  rows : List TreeRow
  cursor : Nat

mutual

/-- `walk`: the children in the order of their names, each with what is shown below it. -/
def walk (expanded : List Bytes → Bool) (path : List Bytes) (depth : Nat) : TreeNode → List TreeRow
  | .mk _ none _ => []
  | .mk _ (some cs) _ =>
    ((walkChildren expanded path depth cs).insertionSort (fun a b => a.1 ≤ b.1)).flatMap Prod.snd

/-- The rows of each child, under its name. -/
def walkChildren (expanded : List Bytes → Bool) (path : List Bytes) (depth : Nat) :
    List (Bytes × TreeNode) → List (Bytes × List TreeRow)
  | [] => []
  | (name, child) :: cs =>
    let isDir := child.children.isSome
    let row : TreeRow := ⟨depth, name, child, isDir, path ++ [name]⟩
    (name, row :: if isDir && expanded (path ++ [name]) then walk expanded (path ++ [name]) (depth + 1) child else [])
      :: walkChildren expanded path depth cs

end

/-- `TreeScreen.rebuild`. -/
def TreeScreen.rebuild (s : TreeScreen) : TreeScreen :=
  let rows := walk s.expanded [] 0 s.root
  { s with rows, cursor := if rows.length ≤ s.cursor then rows.length - 1 else s.cursor }

/-- `NewTreeScreen`. -/
def newTreeScreen (entries : List HiddenEntry) : TreeScreen :=
  TreeScreen.rebuild ⟨buildPathTree entries, fun path => path == [], [], 0⟩

/-- A line of `View` before its styling. A file's has the `total` of its entries, and how many they are if they are
    several. -/
inductive TreeLine where
  | dir (depth : Nat) (expanded : Bool) (label : Bytes)
  | file (depth : Nat) (label : Bytes) (total : Int) (fds : Option Nat)

def TreeScreen.line (s : TreeScreen) (row : TreeRow) : TreeLine :=
  if row.isDir then .dir row.depth (s.expanded row.path) row.label
  else
    let entries := row.node.entries
    .file row.depth row.label (entries.foldl (fun total e => toInt64 (total + e.size)) 0)
      (if 1 < entries.length then some entries.length else none)

/-- `TreeScreen.View`, the lines under its header. -/
def TreeScreen.view (s : TreeScreen) : List TreeLine := s.rows.map s.line

/-- The loop that picks the largest of a node's entries, the first of them on a tie. -/
def largest (best : HiddenEntry) (entries : List HiddenEntry) : HiddenEntry :=
  entries.foldl (fun best e => if e.size > best.size then e else best) best

end Tui
end Hsed
