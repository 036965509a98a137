import Mathlib.Tactic
import Mathlib.Data.List.Infix
import Mathlib.Order.Lattice

/-
  Runs that first never raise a measure and then never lower
  it: every state on the way is bounded by one of the ends.

  Main declarations:
    * `Valley.inv_foldl`
    * `Valley.foldl_le`, `Valley.le_foldl`
    * `Valley.prefix_le_max`
-/

----
-- One-Way Runs
----

namespace Valley

section

variable {σ α M : Type} (exec : σ → α → σ) (Inv : σ → Prop)

theorem inv_foldl
    (actions : List α)
    (hKeep :
      ∀ s, ∀ a ∈ actions, Inv s → Inv (exec s a))
    {s : σ}
    (hs : Inv s) :
    Inv (actions.foldl exec s) := by
  induction actions generalizing s with
  | nil => exact hs
  | cons a rest ih =>
      rw [List.foldl_cons]
      apply ih
      · intro s' b hb
        exact hKeep s' b (List.mem_cons_of_mem _ hb)
      · exact hKeep s a (List.mem_cons_self ..) hs

variable [Preorder M] (m : σ → M)

theorem foldl_le
    (actions : List α)
    (hKeep :
      ∀ s, ∀ a ∈ actions, Inv s → Inv (exec s a))
    (hFall :
      ∀ s, ∀ a ∈ actions, Inv s → m (exec s a) ≤ m s)
    {s : σ}
    (hs : Inv s) :
    m (actions.foldl exec s) ≤ m s := by
  induction actions generalizing s with
  | nil => exact le_refl _
  | cons a rest ih =>
      have hMem : a ∈ a :: rest := List.mem_cons_self ..
      rw [List.foldl_cons]
      refine le_trans ?_ (hFall s a hMem hs)
      apply ih
      · intro s' b hb
        exact hKeep s' b (List.mem_cons_of_mem _ hb)
      · intro s' b hb
        exact hFall s' b (List.mem_cons_of_mem _ hb)
      · exact hKeep s a hMem hs

theorem le_foldl
    (actions : List α)
    (hKeep :
      ∀ s, ∀ a ∈ actions, Inv s → Inv (exec s a))
    (hRise :
      ∀ s, ∀ a ∈ actions, Inv s → m s ≤ m (exec s a))
    {s : σ}
    (hs : Inv s) :
    m s ≤ m (actions.foldl exec s) :=
  @foldl_le σ α Mᵒᵈ exec Inv _ (fun s => OrderDual.toDual (m s))
    actions hKeep hRise s hs

end

----
-- Valleys
----

variable {σ α M : Type} (exec : σ → α → σ) (Inv : σ → Prop)
variable [LinearOrder M]
variable (m : σ → M)

/-
  No cut of a falling and then rising run leaves its ends.
  Only the actions of the cut itself have to fall.
-/
theorem prefix_le_max
    (down up : List α)
    {done : List α}
    (hDone : done <+: down ++ up)
    (hKeep :
      ∀ s, ∀ a ∈ down ++ up, Inv s → Inv (exec s a))
    (hFall :
      ∀ s, ∀ a ∈ down, a ∈ done → Inv s →
        m (exec s a) ≤ m s)
    (hRise :
      ∀ s, ∀ a ∈ up, Inv s → m s ≤ m (exec s a))
    {s : σ}
    (hs : Inv s) :
    m (done.foldl exec s) ≤
      max (m s) (m ((down ++ up).foldl exec s)) := by
  rcases List.prefix_or_prefix_of_prefix hDone
      (List.prefix_append down up) with hEarly | hLate
  · apply le_max_of_le_left
    apply foldl_le exec Inv m done _ _ hs
    · intro s' a ha
      exact hKeep s' a (hDone.subset ha)
    · intro s' a ha
      exact hFall s' a (hEarly.subset ha) ha
  · rcases hDone with ⟨rest, hRest⟩
    apply le_max_of_le_right
    rw [← hRest, List.foldl_append]
    have hRestUp : ∀ a ∈ rest, a ∈ up := by
      rcases hLate with ⟨risen, rfl⟩
      rw [List.append_assoc, List.append_cancel_left_eq]
        at hRest
      intro a ha
      rw [← hRest]
      exact List.mem_append_right _ ha
    apply le_foldl exec Inv m rest
    · intro s' a ha
      exact hKeep s' a
        (List.mem_append_right _ (hRestUp a ha))
    · intro s' a ha
      exact hRise s' a (hRestUp a ha)
    · apply inv_foldl exec Inv done _ hs
      intro s' a ha
      apply hKeep s' a
      rw [← hRest]
      exact List.mem_append_left _ ha

end Valley
