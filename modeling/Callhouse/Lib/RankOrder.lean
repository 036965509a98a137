import Mathlib.Tactic
import Mathlib.Data.List.Sort

/-
  Ranking by a score, the highest first, with a key for the
  ties: a total preorder, and one ranking only of entries
  whose keys are distinct.

  Main declarations:
    * `RankOrder`
    * `RankOrder.total`, `RankOrder.trans`
    * `RankOrder.eq_of_perm`
    * `RankOrder.insertionSort_eq_of_perm`
-/

----
-- Ranking
----

variable {α κ : Type} [LinearOrder κ]

def RankOrder
    (score : α → Int)
    (key : α → κ)
    (a b : α) : Prop :=
  if score a = score b then key a ≤ key b
  else score a > score b

namespace RankOrder

instance
    (score : α → Int)
    (key : α → κ) :
    DecidableRel (RankOrder score key) :=
  fun a b => by
    unfold RankOrder
    infer_instance

variable (score : α → Int) (key : α → κ)

theorem total
    (a b : α) :
    RankOrder score key a b ∨ RankOrder score key b a := by
  unfold RankOrder
  rcases lt_trichotomy (score a) (score b) with
    hLess | hEq | hMore
  · right
    rw [if_neg hLess.ne']
    exact hLess
  · rw [if_pos hEq, if_pos hEq.symm]
    exact le_total _ _
  · left
    rw [if_neg hMore.ne']
    exact hMore

theorem trans
    (a b c : α)
    (hFirst : RankOrder score key a b)
    (hSecond : RankOrder score key b c) :
    RankOrder score key a c := by
  unfold RankOrder at *
  grind

variable {score key}

theorem antisymm
    {a b : α}
    (hLess : RankOrder score key a b)
    (hMore : RankOrder score key b a) :
    key a = key b := by
  unfold RankOrder at *
  grind

/- Entries with distinct keys have one ranking. -/
theorem eq_of_perm
    {rows rows' : List α}
    (hDistinct : (rows.map key).Nodup)
    (hPerm : rows'.Perm rows)
    (hRanked : rows.Pairwise (RankOrder score key))
    (hRanked' : rows'.Pairwise (RankOrder score key)) :
    rows' = rows := by
  apply hPerm.eq_of_pairwise ?_ hRanked' hRanked
  intro a b hA hB hLess hMore
  exact
    List.inj_on_of_nodup_map hDistinct
      (hPerm.mem_iff.mp hA) hB (antisymm hLess hMore)

variable (score key) in
/- Sorting by a ranking forgets the order of the entries. -/
theorem insertionSort_eq_of_perm
    {r : α → α → Prop}
    [DecidableRel r]
    (hOrder : ∀ a b, r a b ↔ RankOrder score key a b)
    {rows rows' : List α}
    (hDistinct : (rows.map key).Nodup)
    (hPerm : rows'.Perm rows) :
    rows'.insertionSort r = rows.insertionSort r := by
  have hSame : r = RankOrder score key := by
    funext a b
    exact propext (hOrder a b)
  subst hSame
  have : Std.Total (RankOrder score key) := ⟨total score key⟩
  have : IsTrans α (RankOrder score key) := ⟨trans score key⟩
  have hSorted := List.perm_insertionSort (RankOrder score key)
  apply
    eq_of_perm
      ((hSorted rows).map key |>.nodup_iff.mpr hDistinct)
  · exact
      (hSorted rows').trans
        (hPerm.trans (hSorted rows).symm)
  · exact List.pairwise_insertionSort _ rows
  · exact List.pairwise_insertionSort _ rows'

end RankOrder
