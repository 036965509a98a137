import Mathlib.Tactic
import Mathlib.Data.Fin.Basic
import Callhouse.Lib.CompleteTree
import Callhouse.Lib.OrderedMap

/-
  indexer/scripts/lib/epoch-merkle.mjs: the Merkle tree of an
  epoch's reward entries.

  keccak256 is a parameter, and so is everything it digests:
  a leaf tuple is four words, a leaf's inner digest one word,
  a pair of nodes two. A digest's hex text is lower case and
  of one length, so texts are ordered as the words are.

  Main declarations:
    * `leaf`, `pair`, `merkle`
    * `merkle_verifies`
-/

----
-- Building the Tree
----

namespace Callhouse.Indexer

section

/- Thirty-two bytes: an encoded argument, or a digest. -/
abbrev Word := Fin (2 ^ 256)

abbrev Address := Fin (2 ^ 160)

instance address_neZero : NeZero (2 ^ 160) := ⟨by decide⟩

instance : LawfulBEq Address := inferInstance

structure Entry where
  index : Word
  account : Address
  amount : Word
deriving DecidableEq

/- An entry beside the hash of its leaf. -/
structure HashedEntry where
  entry : Entry
  hash : Word
deriving DecidableEq

structure MerkleTree where
  root : Option Word
  proofs : OrderedMap Word (List (Option Word))

/- The left-padded word of an address. -/
def addressWord
    (account : Address) : Word :=
  ⟨account.val,
    account.isLt.trans (by norm_num)⟩

/- Reading a hole, or past the end, gives `undefined`. -/
def readNode
    (tree : List (Option Word))
    (i : Nat) : Option Word :=
  tree[i]?.join

def checkIndices
    (indices : List Word) :
    List Entry → Except String Unit
  | [] => .ok ()
  | entry :: rest =>
      if entry.index ∈ indices then
        let index := entry.index.val
        .error
          (s!"duplicate index {index}: " ++
            "two leaves would share one claim slot")
      else checkIndices (entry.index :: indices) rest

/- Write the hashes into the last nodes, from the end on. -/
def placeLeaves
    (tree : List (Option Word))
    (i : Nat) : List Word → List (Option Word)
  | [] => tree
  | hash :: rest =>
      placeLeaves (tree.set (tree.length - 1 - i) (some hash))
        (i + 1) rest

/- The siblings from a position up to the root. -/
def proofOf
    (tree : List (Option Word))
    (position : Nat) : List (Option Word) :=
  if 0 < position then
    readNode tree
        (if position % 2 = 0 then position - 1
        else position + 1) ::
      proofOf tree ((position - 1) / 2)
  else []
termination_by position
decreasing_by omega

def collectProofs
    (tree : List (Option Word))
    (i : Nat) :
    List HashedEntry →
    OrderedMap Word (List (Option Word)) →
    OrderedMap Word (List (Option Word))
  | [], proofs => proofs
  | leaf :: rest, proofs =>
      collectProofs tree (i + 1) rest
        (proofs.set leaf.entry.index
          (proofOf tree (tree.length - 1 - i)))

variable (keccak256 : List Word → Word)

def leaf
    (epoch : Word)
    (entry : Entry) : Word :=
  let inner :=
    keccak256
      [epoch, entry.index, addressWord entry.account,
        entry.amount]
  keccak256 [inner]

def pair
    (left right : Word) : Word :=
  keccak256
    (if left < right then [left, right] else [right, left])

/- The nodes below k, from the last one down to the root. -/
def fillNodes
    (tree : List (Option Word)) :
    Nat → Except String (List (Option Word))
  | 0 => .ok tree
  | k + 1 =>
      match readNode tree (2 * k + 1),
        readNode tree (2 * k + 2) with
      | some left, some right =>
          fillNodes
            (tree.set k (some (pair keccak256 left right))) k
      | _, _ =>
          .error
            ("Cannot read properties of undefined " ++
              "(reading 'toLowerCase')")

def sortedLeaves
    (epoch : Word)
    (entries : List Entry) : List HashedEntry :=
  (entries.map
    (fun entry =>
      { entry := entry
        hash := leaf keccak256 epoch entry })).insertionSort
    (fun a b => a.hash ≤ b.hash)

def merkle
    (epoch : Word)
    (entries : List Entry) : Except String MerkleTree :=
  match checkIndices [] entries with
  | .error e => .error e
  | .ok () =>
      let sorted := sortedLeaves keccak256 epoch entries
      let n := sorted.length
      if n = 0 then .error "no allocated entries"
      else
        let tree := List.replicate (2 * n - 1) none
        let tree :=
          placeLeaves tree 0
            (sorted.map (fun value => value.hash))
        match fillNodes keccak256 tree (n - 1) with
        | .error e => .error e
        | .ok tree =>
            .ok
              { root := readNode tree 0
                proofs :=
                  collectProofs tree 0 sorted
                    OrderedMap.empty }

end

----
-- The Index Check
----

/- The check passes exactly when no index comes twice. -/
theorem checkIndices_ok_iff
    (indices : List Word)
    (entries : List Entry) :
    checkIndices indices entries = .ok () ↔
      (entries.map (fun entry => entry.index)).Nodup ∧
      ∀ entry ∈ entries, entry.index ∉ indices := by
  induction entries generalizing indices with
  | nil => simp [checkIndices]
  | cons entry rest ih =>
      unfold checkIndices
      split
      · next hOld =>
          simp [hOld]
      · next hNew =>
          rw [ih, List.map_cons, List.nodup_cons]
          simp only [List.mem_cons, List.mem_map, not_or,
            not_exists, not_and]
          constructor
          · intro hRest
            rcases hRest with ⟨hNodup, hFresh⟩
            refine ⟨⟨?_, hNodup⟩, ?_⟩
            · intro other hOther
              exact (hFresh other hOther).1
            · intro other hOther
              rcases hOther with hSame | hOther
              · rw [hSame]
                exact hNew
              · exact (hFresh other hOther).2
          · intro hAll
            rcases hAll with ⟨⟨hFirst, hNodup⟩, hFresh⟩
            refine ⟨hNodup, ?_⟩
            intro other hOther
            exact
              ⟨hFirst other hOther,
                hFresh other (Or.inr hOther)⟩

variable {entries : List Entry}

----
-- Leaves and Nodes
----

section

open CompleteTree

theorem pair_comm
    (keccak256 : List Word → Word)
    (left right : Word) :
    pair keccak256 left right = pair keccak256 right left := by
  unfold pair
  rcases lt_trichotomy left right with hLess | hEq | hMore
  · rw [if_pos hLess, if_neg hLess.not_gt]
  · rw [hEq]
  · rw [if_neg hMore.not_gt, if_pos hMore]

variable {tree : List (Option Word)}

theorem readNode_eq
    {i : Nat}
    {v : Word}
    (hGet : tree[i]? = some (some v)) :
    readNode tree i = some v := by
  rw [readNode, hGet]
  rfl

theorem length_placeLeaves
    (tree : List (Option Word))
    (i : Nat)
    (hashes : List Word) :
    (placeLeaves tree i hashes).length = tree.length := by
  induction hashes generalizing tree i with
  | nil => rfl
  | cons hash rest ih =>
      rw [placeLeaves, ih, List.length_set]

/- The loop only writes at and before its first place. -/
theorem placeLeaves_get_after
    {i p : Nat}
    (hashes : List Word)
    (hAfter : tree.length < p + i + 1)
    (hRoom : i + hashes.length ≤ tree.length) :
    (placeLeaves tree i hashes)[p]? = tree[p]? := by
  induction hashes generalizing tree i with
  | nil => rfl
  | cons hash rest ih =>
      rw [List.length_cons] at hRoom
      rw [placeLeaves, ih]
      · rw [List.getElem?_set_ne (by omega)]
      · rw [List.length_set]
        omega
      · rw [List.length_set]
        omega

theorem placeLeaves_get
    (tree : List (Option Word))
    (i : Nat)
    {j : Nat}
    {hashes : List Word}
    {hash : Word}
    (hGet : hashes[j]? = some hash)
    (hRoom : i + hashes.length ≤ tree.length) :
    (placeLeaves tree i hashes)[tree.length - 1 - (i + j)]? =
      some (some hash) := by
  induction hashes generalizing tree i j with
  | nil => simp at hGet
  | cons first rest ih =>
      rw [List.length_cons] at hRoom
      rw [placeLeaves]
      cases j with
      | zero =>
          simp only [List.getElem?_cons_zero,
            Option.some.injEq] at hGet
          subst hGet
          rw [placeLeaves_get_after]
          · rw [Nat.add_zero,
              List.getElem?_set_self (by omega)]
          · rw [List.length_set]
            omega
          · rw [List.length_set]
            omega
      | succ j =>
          rw [List.getElem?_cons_succ] at hGet
          have hRest :=
            ih (tree.set (tree.length - 1 - i) (some first))
              (i + 1) hGet
          rw [List.length_set] at hRest
          rw [← hRest (by omega)]
          congr 1
          omega

/- Once the leaves are there, so are all the nodes above. -/
theorem fillNodes_filled
    {keccak256 : List Word → Word}
    {n k : Nat}
    {node : Nat → Word}
    (hInner : k < n)
    (hTree :
      FilledFrom (pair keccak256) n k tree node) :
    ∃ tree' node',
      fillNodes keccak256 tree k = .ok tree' ∧
      FilledFrom (pair keccak256) n 0 tree' node' ∧
      ∀ i, k ≤ i → node' i = node i := by
  induction k generalizing tree node with
  | zero =>
      exact ⟨tree, node, rfl, hTree, fun i _ => rfl⟩
  | succ k ih =>
      have hLeft :
          readNode tree (2 * k + 1) =
            some (node (2 * k + 1)) :=
        readNode_eq
          (hTree.get_eq _ (by omega) (by omega))
      have hRight :
          readNode tree (2 * k + 2) =
            some (node (2 * k + 2)) :=
        readNode_eq
          (hTree.get_eq _ (by omega) (by omega))
      rcases ih (by omega) hTree.set with
        ⟨tree', node', hFill, hFilled, hSame⟩
      refine ⟨tree', node', ?_, hFilled, ?_⟩
      · rw [fillNodes, hLeft, hRight]
        exact hFill
      · intro i hFrom
        rw [hSame i (by omega),
          Function.update_of_ne (by omega)]

/- The n leaves alone: no inner node is claimed yet. -/
theorem placeLeaves_filled
    (op : Word → Word → Word)
    {hashes : List Word}
    (hSome : 0 < hashes.length) :
    FilledFrom op hashes.length (hashes.length - 1)
      (placeLeaves
        (List.replicate (2 * hashes.length - 1) none) 0 hashes)
      (fun i =>
        hashes.getD (2 * hashes.length - 2 - i) 0) := by
  constructor
  · rw [length_placeLeaves, List.length_replicate]
    omega
  · intro i hFrom hNode
    have hLeaf : 2 * hashes.length - 2 - i < hashes.length := by
      omega
    have hGet :
        hashes[2 * hashes.length - 2 - i]? =
          some
            (hashes.getD (2 * hashes.length - 2 - i) 0) := by
      rw [List.getD_eq_getElem?_getD,
        List.getElem?_eq_getElem hLeaf]
      rfl
    have hPlaced :=
      placeLeaves_get
        (List.replicate (2 * hashes.length - 1) none) 0 hGet
        (by rw [List.length_replicate]; omega)
    rw [List.length_replicate] at hPlaced
    rw [← hPlaced]
    congr 1
    omega
  · intro i hFrom hInner
    omega

/- A position's proof is its path in the filled tree. -/
theorem proofOf_eq_path
    {op : Word → Word → Word}
    {n : Nat}
    {node : Nat → Word}
    (hTree : FilledFrom op n 0 tree node)
    (position : Nat)
    (hNode : position + 1 < 2 * n) :
    proofOf tree position =
      (path node position).map some := by
  induction position using path.induct with
  | case1 position hPos ih =>
      rw [proofOf, path, if_pos hPos, if_pos hPos,
        List.map_cons, ← ih]
      · congr 1
        apply readNode_eq
        exact
          hTree.get_eq (sibling position) (Nat.zero_le _)
            (sibling_lt hPos hNode)
      · have hLess := parent_lt hPos
        omega
  | case2 position hRoot =>
      rw [proofOf, path, if_neg hRoot, if_neg hRoot]
      rfl

end

----
-- Proofs by Index
----

section

variable (tree : List (Option Word))

/- What the loop writes, leaf by leaf. -/
def proofEntries
    (i : Nat)
    (sorted : List HashedEntry) :
    List (Word × List (Option Word)) :=
  sorted.mapIdx
    (fun j v =>
      (v.entry.index,
        proofOf tree (tree.length - 1 - (i + j))))

theorem collectProofs_eq
    (i : Nat)
    (sorted : List HashedEntry)
    (proofs : OrderedMap Word (List (Option Word))) :
    collectProofs tree i sorted proofs =
      proofs.setAll (proofEntries tree i sorted) := by
  induction sorted generalizing i proofs with
  | nil => rfl
  | cons first rest ih =>
      have hRest :
          proofEntries tree (i + 1) rest =
            rest.mapIdx
              (fun j v =>
                (v.entry.index,
                  proofOf tree
                    (tree.length - 1 - (i + (j + 1))))) := by
        unfold proofEntries
        congr 1
        funext j v
        congr 3
        omega
      rw [collectProofs, ih, hRest, proofEntries,
        List.mapIdx_cons]
      rfl

theorem keys_proofEntries
    (i : Nat)
    (sorted : List HashedEntry) :
    (proofEntries tree i sorted).map Prod.fst =
      sorted.map (fun v => v.entry.index) := by
  apply List.ext_getElem?
  intro j
  simp [proofEntries, Function.comp_def]

/- Distinct indices are written one after the other. -/
theorem entries_collectProofs
    {sorted : List HashedEntry}
    (hDistinct :
      (sorted.map (fun v => v.entry.index)).Nodup) :
    (collectProofs tree 0 sorted OrderedMap.empty).entries =
      proofEntries tree 0 sorted := by
  rw [collectProofs_eq, OrderedMap.entries_setAll]
  · rfl
  · rw [keys_proofEntries]
    exact hDistinct
  · intro e _
    rfl

theorem get?_collectProofs
    {j : Nat}
    {sorted : List HashedEntry}
    {value : HashedEntry}
    (hDistinct :
      (sorted.map (fun v => v.entry.index)).Nodup)
    (hGet : sorted[j]? = some value) :
    (collectProofs tree 0 sorted OrderedMap.empty).get?
        value.entry.index =
      some (proofOf tree (tree.length - 1 - j)) := by
  rw [← OrderedMap.mem_entries_iff,
    entries_collectProofs tree hDistinct]
  apply List.mem_iff_getElem?.mpr
  refine ⟨j, ?_⟩
  simp [proofEntries, hGet]

end

----
-- Verification
----

open CompleteTree

variable (keccak256 : List Word → Word)

theorem sortedLeaves_perm
    (epoch : Word)
    (entries : List Entry) :
    (sortedLeaves keccak256 epoch entries).Perm
      (entries.map
        (fun entry =>
          { entry := entry
            hash := leaf keccak256 epoch entry })) :=
  List.perm_insertionSort _ _

theorem sortedLeaves_indices_perm
    (epoch : Word)
    (entries : List Entry) :
    ((sortedLeaves keccak256 epoch entries).map
        (fun v => v.entry.index)).Perm
      (entries.map (fun entry => entry.index)) := by
  have hPerm :=
    (sortedLeaves_perm keccak256 epoch entries).map
      (fun v => v.entry.index)
  rw [List.map_map] at hPerm
  exact hPerm

/- Sorting forgets the order the hashes come in. -/
theorem sortedLeaves_hashes_eq
    (epoch : Word)
    {entries' : List Entry}
    (hPerm : entries'.Perm entries) :
    (sortedLeaves keccak256 epoch entries').map
        (fun v => v.hash) =
      (sortedLeaves keccak256 epoch entries).map
        (fun v => v.hash) := by
  have hSorted :
      ∀ l : List Entry,
        ((sortedLeaves keccak256 epoch l).map
          (fun v => v.hash)).Pairwise (fun a b => a ≤ b) := by
    intro l
    rw [List.pairwise_map]
    have : Std.Total
        (fun a b : HashedEntry => a.hash ≤ b.hash) :=
      ⟨fun a b => le_total a.hash b.hash⟩
    have : IsTrans HashedEntry
        (fun a b => a.hash ≤ b.hash) :=
      ⟨fun a b c => le_trans⟩
    exact List.pairwise_insertionSort _ _
  apply List.Perm.eq_of_pairwise
  · intro a b _ _ hLess hMore
    exact le_antisymm hLess hMore
  · exact hSorted entries'
  · exact hSorted entries
  · apply List.Perm.map
    apply (sortedLeaves_perm keccak256 epoch entries').trans
    apply (hPerm.map _).trans
    exact (sortedLeaves_perm keccak256 epoch entries).symm

/- What a checked, non-empty list of entries is built into. -/
theorem merkle_filled
    (epoch : Word)
    (hSome : entries ≠ [])
    (hDistinct :
      (entries.map (fun entry => entry.index)).Nodup) :
    let sorted := sortedLeaves keccak256 epoch entries
    let hashes := sorted.map (fun v => v.hash)
    ∃ tree node,
      fillNodes keccak256
          (placeLeaves
            (List.replicate (2 * hashes.length - 1) none) 0
            hashes) (hashes.length - 1) =
        .ok tree ∧
      FilledFrom (pair keccak256) hashes.length 0 tree node ∧
      (∀ (j : Nat) hash, hashes[j]? = some hash →
        node (2 * hashes.length - 2 - j) = hash) ∧
      merkle keccak256 epoch entries =
        .ok
          { root := some (node 0)
            proofs :=
              collectProofs tree 0 sorted
                OrderedMap.empty } := by
  intro sorted hashes
  have hLength : sorted.length = hashes.length := by
    rw [List.length_map]
  have hCount : sorted.length = entries.length := by
    have hPerm := sortedLeaves_perm keccak256 epoch entries
    rw [hPerm.length_eq, List.length_map]
  have hPos : 0 < hashes.length := by
    rw [← hLength, hCount]
    exact List.length_pos_iff.mpr hSome
  have hPlaced := placeLeaves_filled (pair keccak256) hPos
  rcases fillNodes_filled (by omega) hPlaced with
    ⟨tree, node, hFill, hFilled, hSame⟩
  refine ⟨tree, node, hFill, hFilled, ?_, ?_⟩
  · intro j hash hGet
    have hIn : j < hashes.length :=
      (List.getElem?_eq_some_iff.mp hGet).1
    rw [hSame _ (by omega)]
    have hBack :
        2 * hashes.length - 2 -
          (2 * hashes.length - 2 - j) = j := by
      omega
    rw [hBack, List.getD_eq_getElem?_getD, hGet]
    rfl
  · have hCheck : checkIndices [] entries = .ok () := by
      rw [checkIndices_ok_iff]
      refine ⟨hDistinct, ?_⟩
      intro entry _ hOld
      cases hOld
    have hRoot : readNode tree 0 = some (node 0) :=
      readNode_eq
        (hFilled.get_eq 0 (le_refl 0) (by omega))
    unfold merkle
    rw [hCheck]
    simp only
    rw [if_neg (by omega : ¬ sorted.length = 0)]
    rw [hLength, hFill]
    simp only
    rw [hRoot]

/-
  Entries with indices of their own get a root and one proof
  each, every proof leads from its leaf to the root, and the
  order of the entries does not move the root.
-/
theorem merkle_verifies
    (epoch : Word)
    (entries : List Entry)
    (hSome : entries ≠ [])
    (hDistinct :
      (entries.map (fun entry => entry.index)).Nodup) :
    ∃ root proofs,
      merkle keccak256 epoch entries =
        .ok { root := some root, proofs := proofs } ∧
      (proofs.entries.map Prod.fst).Perm
        (entries.map (fun entry => entry.index)) ∧
      (∀ entry ∈ entries, ∃ proof : List Word,
        proofs.get? entry.index = some (proof.map some) ∧
        proof.foldl (pair keccak256)
            (leaf keccak256 epoch entry) =
          root) ∧
      ∀ entries', entries'.Perm entries →
        ∃ proofs',
          merkle keccak256 epoch entries' =
            .ok { root := some root, proofs := proofs' } := by
  rcases merkle_filled keccak256 epoch hSome hDistinct with
    ⟨tree, node, hFill, hFilled, hLeaves, hMerkle⟩
  have hPerm := sortedLeaves_indices_perm keccak256 epoch entries
  have hSortedDistinct := hPerm.nodup_iff.mpr hDistinct
  refine ⟨node 0, _, hMerkle, ?_, ?_, ?_⟩
  · rw [entries_collectProofs _ hSortedDistinct,
      keys_proofEntries]
    exact hPerm
  · intro entry hEntry
    have hIn :
        { entry := entry
          hash := leaf keccak256 epoch entry } ∈
          sortedLeaves keccak256 epoch entries := by
      rw [(sortedLeaves_perm keccak256 epoch
        entries).mem_iff]
      exact List.mem_map_of_mem hEntry
    rcases List.mem_iff_getElem?.mp hIn with ⟨j, hGet⟩
    have hBound := (List.getElem?_eq_some_iff.mp hGet).1
    have hLength := hFilled.length_eq
    rw [List.length_map] at hLength hFilled hLeaves
    let n := (sortedLeaves keccak256 epoch entries).length
    have hPosition : 2 * n - 2 - j + 1 < 2 * n := by
      omega
    have hProof := get?_collectProofs tree hSortedDistinct hGet
    have hPlace : tree.length - 1 - j = 2 * n - 2 - j := by
      omega
    have hLeaf :
        node (2 * n - 2 - j) =
          leaf keccak256 epoch entry := by
      apply hLeaves j
      rw [List.getElem?_map, hGet]
      rfl
    rw [hPlace, proofOf_eq_path hFilled _ hPosition] at hProof
    refine ⟨path node (2 * n - 2 - j), hProof, ?_⟩
    rw [← hLeaf]
    exact
      foldl_path (pair_comm keccak256) hFilled.combined_all _
        hPosition
  · intro entries' hPermuted
    have hSome' : entries' ≠ [] := by
      intro hNone
      rw [hNone] at hPermuted
      exact hSome hPermuted.symm.eq_nil
    have hDistinct' :=
      (hPermuted.map
        (fun entry => entry.index)).nodup_iff.mpr hDistinct
    rcases
      merkle_filled keccak256 epoch hSome' hDistinct' with
      ⟨tree', node', hFill', hFilled', _, hMerkle'⟩
    rw [sortedLeaves_hashes_eq keccak256 epoch hPermuted,
      hFill] at hFill'
    cases hFill'
    have hRoot : node' 0 = node 0 := by
      have hLength := hFilled.length_eq
      have hGet := hFilled.get_eq 0 (le_refl 0) (by omega)
      have hLength' := hFilled'.length_eq
      have hGet' := hFilled'.get_eq 0 (le_refl 0) (by omega)
      rw [hGet] at hGet'
      injection hGet' with hInner
      injection hInner with hEq
      exact hEq.symm
    rw [← hRoot]
    exact ⟨_, hMerkle'⟩

/- A digest for trying the tree out. -/
def weightedSum
    (words : List Word) : Word :=
  words.foldl (fun digest word => digest * 31 + word) 7

def threeEntries : List Entry :=
  [{ index := 0
     account := 0xa01
     amount := 700000 },
   { index := 1
     account := 0xa02
     amount := 600000 },
   { index := 2
     account := 0xa03
     amount := 450001 }]

theorem threeEntries_verify :
    ∃ root proofs,
      merkle weightedSum 2958 threeEntries =
        .ok { root := some root, proofs := proofs } ∧
      (proofs.entries.map Prod.fst).Perm
        (threeEntries.map (fun entry => entry.index)) ∧
      (∀ entry ∈ threeEntries, ∃ proof : List Word,
        proofs.get? entry.index = some (proof.map some) ∧
        proof.foldl (pair weightedSum)
            (leaf weightedSum 2958 entry) =
          root) ∧
      ∀ entries', entries'.Perm threeEntries →
        ∃ proofs',
          merkle weightedSum 2958 entries' =
            .ok { root := some root, proofs := proofs' } :=
  merkle_verifies weightedSum 2958 threeEntries
    (List.cons_ne_nil _ _) (by decide)

end Callhouse.Indexer
