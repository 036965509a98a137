import Callhouse.Lib.RankOrder
import Mathlib.Data.List.Nodup

/-
  Items brought together by a key, the keys in the order in
  which they first appear and the items of a key in their own
  order; and the stable sort that does it.

  Main declarations:
    * `GroupedOrder.firsts`, `GroupedOrder.grouped`
    * `GroupedOrder.sorted`
    * `GroupedOrder.sorted_eq_grouped`
-/

----
-- Keys by First Appearance
----

namespace GroupedOrder

section

variable {α κ : Type} [DecidableEq κ]

def addKey
    (keys : List κ)
    (k : κ) : List κ :=
  if k ∈ keys then keys else keys ++ [k]

def firsts
    (key : α → κ)
    (items : List α) : List κ :=
  (items.map key).foldl addKey []

/- Key by key, in the order of the keys' first appearance. -/
def grouped
    (key : α → κ)
    (items : List α) : List α :=
  (firsts key items).flatMap
    (fun k => items.filter (fun x => decide (key x = k)))

/- By the place of the key, then by the place of the item. -/
def before
    (keys : List κ)
    (key : α → κ)
    (a b : α × Nat) : Prop :=
  keys.idxOf (key a.1) < keys.idxOf (key b.1) ∨
    keys.idxOf (key a.1) = keys.idxOf (key b.1) ∧ a.2 ≤ b.2

instance
    (keys : List κ)
    (key : α → κ) :
    DecidableRel (before keys key) :=
  fun _ _ => inferInstanceAs (Decidable (_ ∨ _ ∧ _))

def sorted
    (key : α → κ)
    (items : List α) : List α :=
  (items.zipIdx.insertionSort
    (before (firsts key items) key)).map Prod.fst

theorem mem_foldl_addKey
    {seen ks : List κ}
    {k : κ} :
    k ∈ ks.foldl addKey seen ↔ k ∈ seen ∨ k ∈ ks := by
  induction ks generalizing seen with
  | nil => simp
  | cons x rest ih =>
      rw [List.foldl_cons, ih]
      unfold addKey
      split
      · next hIn =>
          constructor
          · rintro (h | h)
            · exact .inl h
            · exact .inr (List.mem_cons_of_mem _ h)
          · rintro (h | h)
            · exact .inl h
            · rcases List.mem_cons.mp h with rfl | h
              · exact .inl hIn
              · exact .inr h
      · simp [or_assoc]

theorem nodup_foldl_addKey
    {seen ks : List κ}
    (h : seen.Nodup) :
    (ks.foldl addKey seen).Nodup := by
  induction ks generalizing seen with
  | nil => exact h
  | cons x rest ih =>
      rw [List.foldl_cons]
      apply ih
      unfold addKey
      split
      · exact h
      · next hNew => simpa using h.concat hNew

theorem mem_firsts
    (key : α → κ)
    {items : List α}
    {x : α}
    (h : x ∈ items) :
    key x ∈ firsts key items :=
  mem_foldl_addKey.mpr (.inr (List.mem_map_of_mem h))

theorem firsts_nodup
    (key : α → κ)
    (items : List α) :
    (firsts key items).Nodup :=
  nodup_foldl_addKey List.nodup_nil

end

----
-- The Sort Groups
----

variable {α κ : Type} [DecidableEq κ]

/- The grouped items with the places they came from. -/
def groupedPlaces
    (key : α → κ)
    (items : List α) : List (α × Nat) :=
  (firsts key items).flatMap
    (fun k =>
      items.zipIdx.filter (fun p => decide (key p.1 = k)))

theorem map_fst_groupedPlaces
    (key : α → κ)
    (items : List α) :
    (groupedPlaces key items).map Prod.fst =
      grouped key items := by
  unfold groupedPlaces grouped
  rw [List.map_flatMap]
  congr 1
  funext k
  have hFilter :=
    List.filter_map (f := Prod.fst) (l := items.zipIdx)
      (p := fun x => decide (key x = k))
  rw [List.zipIdx_map_fst] at hFilter
  rw [hFilter]
  rfl

theorem zipIdx_places
    (items : List α) :
    items.zipIdx.Pairwise (fun a b => a.2 < b.2) := by
  have hPlaces :
      (items.zipIdx.map Prod.snd).Pairwise (· < ·) := by
    rw [List.zipIdx_map_snd]
    exact List.pairwise_lt_range'
  exact List.pairwise_map.mp hPlaces

theorem zipIdx_nodup
    (items : List α) :
    items.zipIdx.Nodup := by
  apply (zipIdx_places items).imp
  rintro a b h rfl
  exact absurd h (Nat.lt_irrefl _)

theorem idxOf_lt_of_nodup
    {keys : List κ}
    (h : keys.Nodup) :
    keys.Pairwise (fun a b => keys.idxOf a < keys.idxOf b) := by
  rw [List.pairwise_iff_getElem]
  intro i j hi hj hLt
  rw [h.idxOf_getElem i hi, h.idxOf_getElem j hj]
  exact hLt

theorem groupedPlaces_before
    (key : α → κ)
    (items : List α) :
    (groupedPlaces key items).Pairwise
      (before (firsts key items) key) := by
  apply List.pairwise_flatMap.mpr
  constructor
  · intro k _
    apply List.Pairwise.imp_of_mem _
      ((zipIdx_places items).sublist List.filter_sublist)
    intro a b ha hb hPlace
    have hA := of_decide_eq_true (List.mem_filter.mp ha).2
    have hB := of_decide_eq_true (List.mem_filter.mp hb).2
    right
    rw [hA, hB]
    exact ⟨rfl, hPlace.le⟩
  · apply (idxOf_lt_of_nodup (firsts_nodup key items)).imp
    intro k k' hLt a ha b hb
    have hA := of_decide_eq_true (List.mem_filter.mp ha).2
    have hB := of_decide_eq_true (List.mem_filter.mp hb).2
    left
    rw [hA, hB]
    exact hLt

theorem mem_groupedPlaces
    (key : α → κ)
    (items : List α)
    (p : α × Nat) :
    p ∈ groupedPlaces key items ↔ p ∈ items.zipIdx := by
  unfold groupedPlaces
  simp only [List.mem_flatMap, List.mem_filter,
    decide_eq_true_eq]
  constructor
  · rintro ⟨_, _, hp, _⟩
    exact hp
  · intro hp
    refine ⟨key p.1, ?_, hp, rfl⟩
    exact mem_firsts key (List.fst_mem_of_mem_zipIdx hp)

theorem before_iff_rankOrder
    (keys : List κ)
    (key : α → κ)
    (a b : α × Nat) :
    before keys key a b ↔
      RankOrder (fun p => -(keys.idxOf (key p.1) : Int))
        (fun p : α × Nat => p.2) a b := by
  unfold before RankOrder
  simp only [neg_inj, Int.natCast_inj, gt_iff_lt, neg_lt_neg_iff,
    Int.ofNat_lt]
  grind

theorem groupedPlaces_perm
    (key : α → κ)
    (items : List α) :
    (groupedPlaces key items).Perm items.zipIdx := by
  apply
    (List.perm_ext_iff_of_nodup _ (zipIdx_nodup items)).mpr
      (mem_groupedPlaces key items)
  apply List.nodup_flatMap.mpr
  constructor
  · intro k _
    exact (zipIdx_nodup items).filter _
  · apply (firsts_nodup key items).imp
    intro k k' hNe p hp hp'
    have hKey := of_decide_eq_true (List.mem_filter.mp hp).2
    have hKey' := of_decide_eq_true (List.mem_filter.mp hp').2
    exact hNe (hKey.symm.trans hKey')

theorem sorted_eq_grouped
    (key : α → κ)
    (items : List α) :
    sorted key items = grouped key items := by
  have hPerm := groupedPlaces_perm key items
  have hDistinct :
      ((groupedPlaces key items).map Prod.snd).Nodup := by
    rw [(hPerm.map Prod.snd).nodup_iff, List.zipIdx_map_snd]
    exact List.nodup_range'
  have hSort :
      items.zipIdx.insertionSort
          (before (firsts key items) key) =
        groupedPlaces key items := by
    rw [RankOrder.insertionSort_eq_of_perm
      (fun p => -((firsts key items).idxOf (key p.1) : Int))
      (fun p : α × Nat => p.2)
      (before_iff_rankOrder (firsts key items) key) hDistinct
      hPerm.symm]
    exact (groupedPlaces_before key items).insertionSort_eq
  unfold sorted
  rw [hSort, map_fst_groupedPlaces]

end GroupedOrder
