import Mathlib.Data.Int.Order.Basic
import Mathlib.Data.List.Basic
import Mathlib.Tactic

/-
  A quota over a sliding window: stamped events, each admitted
  while fewer than the quota are younger than the window.

  Main declarations:
    * `SlidingWindow.count`, `SlidingWindow.Within`
    * `SlidingWindow.Within.add`
-/

namespace SlidingWindow

/- The stamps in the window of the given width after `lo`. -/
def count
    (width lo : Int)
    (stamps : List Int) : Nat :=
  stamps.countP (fun t => decide (lo < t ∧ t ≤ lo + width))

/- The stamps younger than the window at the given time. -/
def recent
    (width now : Int)
    (stamps : List Int) : Nat :=
  stamps.countP (fun t => decide (now - width < t))

def Within
    (width : Int)
    (quota : Nat)
    (stamps : List Int) : Prop :=
  ∀ lo, count width lo stamps ≤ quota

theorem Within.perm
    {width : Int}
    {quota : Nat}
    {stamps stamps' : List Int}
    (h : Within width quota stamps)
    (hPerm : stamps'.Perm stamps) :
    Within width quota stamps' := by
  intro lo
  unfold count
  rw [hPerm.countP_eq]
  exact h lo

/-
  Every window that holds the new stamp holds, besides it, only
  stamps that were recent when it was made.
-/
theorem Within.add
    {width : Int}
    {quota : Nat}
    {stamps : List Int}
    (h : Within width quota stamps)
    {now : Int}
    (hRoom : recent width now stamps < quota) :
    Within width quota (now :: stamps) := by
  intro lo
  unfold count
  rw [List.countP_cons]
  split
  · next hIn =>
      have hIn' := of_decide_eq_true hIn
      have hLe :
          stamps.countP
              (fun t => decide (lo < t ∧ t ≤ lo + width)) ≤
            recent width now stamps := by
        apply List.countP_mono_left
        intro t _ ht
        have ht' := of_decide_eq_true ht
        exact decide_eq_true (by omega)
      omega
  · exact h lo

theorem within_nil
    (width : Int)
    (quota : Nat) :
    Within width quota [] := by
  intro lo
  exact Nat.zero_le quota

end SlidingWindow
