import Mathlib.Tactic

/-
  Functions that fall and then rise along a linear order: on
  an interval such a function is at most the larger of its
  values at the ends.

  Main declarations:
    * `ValleyOn`
    * `ValleyOn.le_max_ends`
    * `valleyOn_clamped_fall`, `valleyOn_clamped_rise`
-/

----
-- Valleys
----

/-
  `falling` holds on the way down: up to a point where it
  holds the function falls, after one where it fails it
  rises.
-/
structure ValleyOn
    {α β : Type}
    [LinearOrder α]
    [LinearOrder β]
    (f : α → β)
    (s : Set α)
    (falling : α → Prop) : Prop where
  falls :
    ∀ x ∈ s, ∀ y ∈ s, x ≤ y → falling y → f y ≤ f x
  rises :
    ∀ x ∈ s, ∀ y ∈ s, x ≤ y → ¬ falling x → f x ≤ f y

theorem ValleyOn.le_max_ends
    {α β : Type}
    [LinearOrder α]
    [LinearOrder β]
    {f : α → β}
    {s : Set α}
    {falling : α → Prop}
    (h : ValleyOn f s falling)
    {lo x hi : α}
    (hLo : lo ∈ s)
    (hx : x ∈ s)
    (hHi : hi ∈ s)
    (hFrom : lo ≤ x)
    (hTo : x ≤ hi) :
    f x ≤ max (f lo) (f hi) := by
  by_cases hFalling : falling x
  · exact (h.falls lo hLo x hx hFrom hFalling).trans
      (le_max_left _ _)
  · exact (h.rises x hx hi hHi hTo hFalling).trans
      (le_max_right _ _)

----
-- A Clamped Part and a Rising One
----

section

variable {α β : Type} [LinearOrder α]
variable [AddCommGroup β] [LinearOrder β]
variable [IsOrderedAddMonoid β] {part base : α → β} {s : Set α}

theorem clamped_rise
    (hBase : MonotoneOn base s)
    {x y : α}
    (hx : x ∈ s)
    (hy : y ∈ s)
    (hxy : x ≤ y)
    (hPart : max 0 (part x) ≤ max 0 (part y)) :
    max 0 (part x) + base x ≤ max 0 (part y) + base y :=
  add_le_add hPart (hBase hx hy hxy)

/- Both parts rise: there is no way down. -/
theorem valleyOn_clamped_rise
    (hPart : MonotoneOn part s)
    (hBase : MonotoneOn base s) :
    ValleyOn (fun x => max 0 (part x) + base x) s
      (fun _ => False) :=
  { falls := fun _ _ _ _ _ hNone => hNone.elim
    rises := fun _ hx _ hy hxy _ =>
      clamped_rise hBase hx hy hxy
        (max_le_max (le_refl 0) (hPart hx hy hxy)) }

/-
  The clamped part falls at least as fast as the other rises:
  the way down is where the clamp does not bind.
-/
theorem valleyOn_clamped_fall
    (hFast :
      ∀ x ∈ s, ∀ y ∈ s, x ≤ y →
        base y - base x ≤ part x - part y)
    (hBase : MonotoneOn base s) :
    ValleyOn (fun x => max 0 (part x) + base x) s
      (fun x => 0 < part x) := by
  constructor
  · intro x hx y hy hxy hPos
    have hSum : part y + base y ≤ part x + base x := by
      have hStep := hFast x hx y hy hxy
      rw [sub_le_sub_iff, add_comm] at hStep
      exact hStep
    calc max 0 (part y) + base y
        = part y + base y := by rw [max_eq_right hPos.le]
      _ ≤ part x + base x := hSum
      _ ≤ max 0 (part x) + base x :=
        add_le_add (le_max_right _ _) (le_refl _)
  · intro x hx y hy hxy hClamped
    refine clamped_rise hBase hx hy hxy ?_
    rw [max_eq_left (not_lt.mp hClamped)]
    exact le_max_left _ _

end
