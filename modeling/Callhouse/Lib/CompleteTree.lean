import Mathlib.Tactic

/-
  Complete binary trees laid out in a list, root first: the
  children of node i are nodes 2i+1 and 2i+2. A tree of n
  leaves has 2n-1 nodes, the last n of which are the leaves.

  Main declarations:
    * `CompleteTree.parent`, `CompleteTree.sibling`
    * `CompleteTree.path`
    * `CompleteTree.foldl_path`
    * `CompleteTree.FilledFrom`
-/

----
-- Paths to the Root
----

namespace CompleteTree

section

variable {α : Type}

def parent
    (p : Nat) : Nat :=
  (p - 1) / 2

def sibling
    (p : Nat) : Nat :=
  if p % 2 = 0 then p - 1 else p + 1

variable {p : Nat}

theorem parent_lt
    (hPos : 0 < p) :
    parent p < p := by
  unfold parent
  omega

/- The siblings met on the way from a node to the root. -/
def path
    (node : Nat → α)
    (p : Nat) : List α :=
  if 0 < p then node (sibling p) :: path node (parent p)
  else []
termination_by p
decreasing_by exact parent_lt ‹0 < p›

variable {n : Nat}

theorem sibling_lt
    (hPos : 0 < p)
    (hNode : p + 1 < 2 * n) :
    sibling p + 1 < 2 * n := by
  unfold sibling
  split <;> omega

theorem parent_inner
    (hPos : 0 < p)
    (hNode : p + 1 < 2 * n) :
    parent p + 1 < n := by
  unfold parent
  omega

/- A node and its sibling are the parent's two children. -/
theorem children_parent
    (hPos : 0 < p) :
    (p = 2 * parent p + 1 ∧
      sibling p = 2 * parent p + 2) ∨
    (p = 2 * parent p + 2 ∧
      sibling p = 2 * parent p + 1) := by
  unfold parent sibling
  split <;> omega

/- Every inner node is what its two children combine to. -/
def Combined
    (op : α → α → α)
    (n : Nat)
    (node : Nat → α) : Prop :=
  ∀ i, i + 1 < n →
    node i = op (node (2 * i + 1)) (node (2 * i + 2))

/-
  Combining a node with the siblings on its path gives the
  root, whatever the level the node is on.
-/
theorem foldl_path
    {op : α → α → α}
    {node : Nat → α}
    (hComm : ∀ a b, op a b = op b a)
    (hTree : Combined op n node)
    (p : Nat)
    (hNode : p + 1 < 2 * n) :
    (path node p).foldl op (node p) = node 0 := by
  induction p using path.induct with
  | case1 p hPos ih =>
      have hInner := parent_inner hPos hNode
      have hParent :
          op (node p) (node (sibling p)) =
            node (parent p) := by
        rw [hTree (parent p) hInner]
        rcases children_parent hPos with
          ⟨hLeft, hRight⟩ | ⟨hRight, hLeft⟩
        · rw [← hLeft, ← hRight]
        · rw [← hLeft, ← hRight, hComm]
      rw [path, if_pos hPos, List.foldl_cons, hParent]
      apply ih
      omega
  | case2 p hRoot =>
      have hZero : p = 0 := by omega
      rw [path, if_neg hRoot, hZero]
      rfl

end

----
-- Filling from the Leaves
----

variable {α : Type}

/- The nodes from k on are there, and combined. -/
structure FilledFrom
    (op : α → α → α)
    (n k : Nat)
    (tree : List (Option α))
    (node : Nat → α) : Prop where
  length_eq : tree.length + 1 = 2 * n
  get_eq :
    ∀ i, k ≤ i → i + 1 < 2 * n →
      tree[i]? = some (some (node i))
  combined :
    ∀ i, k ≤ i → i + 1 < n →
      node i = op (node (2 * i + 1)) (node (2 * i + 2))

theorem FilledFrom.set
    {op : α → α → α}
    {n k : Nat}
    {tree : List (Option α)}
    {node : Nat → α}
    (h : FilledFrom op n (k + 1) tree node) :
    let v := op (node (2 * k + 1)) (node (2 * k + 2))
    FilledFrom op n k (tree.set k (some v))
      (Function.update node k v) := by
  have hLength := h.length_eq
  constructor
  · rw [List.length_set]
    exact hLength
  · intro i hFrom hNode
    rcases hFrom.lt_or_eq with hLater | hEq
    · rw [List.getElem?_set_ne hLater.ne,
        h.get_eq i hLater hNode,
        Function.update_of_ne hLater.ne']
    · subst hEq
      rw [List.getElem?_set_self (by omega),
        Function.update_self]
  · intro i hFrom hNode
    rw [Function.update_of_ne (by omega : 2 * i + 1 ≠ k),
      Function.update_of_ne (by omega : 2 * i + 2 ≠ k)]
    rcases hFrom.lt_or_eq with hLater | hEq
    · rw [Function.update_of_ne hLater.ne']
      exact h.combined i hLater hNode
    · subst hEq
      rw [Function.update_self]

/- A tree that is filled from its root on is combined. -/
theorem FilledFrom.combined_all
    {op : α → α → α}
    {n : Nat}
    {tree : List (Option α)}
    {node : Nat → α}
    (h : FilledFrom op n 0 tree node) :
    Combined op n node := by
  intro i hInner
  exact h.combined i (Nat.zero_le i) hInner

end CompleteTree
