import Mathlib.Algebra.Order.Group.Unbundled.Abs
import Mathlib.Tactic

/-
  The range a net exposure can reach: its lower end if every
  admitted decrease happens, its upper end if every admitted
  increase does. A change is refused when the end it moves
  would leave the limit and come further from zero.

  Main declarations:
    * `ExposureRange.Breaches`, `ExposureRange.widen`
    * `ExposureRange.Bounded`, `ExposureRange.Bounded.widen`
    * `ExposureRange.contains_widen`
    * `ExposureRange.Breaches.beyond`
    * `ExposureRange.start_foldl_widen`
-/

namespace ExposureRange

variable {α : Type} [AddCommGroup α] [LinearOrder α]

structure Range (α : Type) where
  lo : α
  hi : α
deriving DecidableEq

/- The end a change moves. -/
def Range.start
    (r : Range α)
    (change : α) : α :=
  if change < 0 then r.lo else r.hi

def Breaches
    (r : Range α)
    (change limit : α) : Prop :=
  0 < limit ∧ change ≠ 0 ∧ limit < |r.start change + change| ∧
    |r.start change| < |r.start change + change|

def widen
    (r : Range α)
    (change : α) : Range α :=
  if change < 0 then { r with lo := r.lo + change }
  else { r with hi := r.hi + change }

/- Some part of the change, none and all of it included. -/
def Part
    (part change : α) : Prop :=
  (0 ≤ part ∧ part ≤ change) ∨ (change ≤ part ∧ part ≤ 0)

def Range.Contains
    (r : Range α)
    (net : α) : Prop :=
  r.lo ≤ net ∧ net ≤ r.hi

/- Both ends within the limit, or no further than the start. -/
structure Bounded
    (limit start : α)
    (r : Range α) : Prop where
  lo_le : r.lo ≤ start
  le_hi : start ≤ r.hi
  lo_bound : |r.lo| ≤ max limit |start|
  hi_bound : |r.hi| ≤ max limit |start|

variable {limit start net change part : α} {r : Range α}

theorem Bounded.point
    (limit start : α) :
    Bounded limit start { lo := start, hi := start } where
  lo_le := le_refl _
  le_hi := le_refl _
  lo_bound := le_max_right _ _
  hi_bound := le_max_right _ _

variable [IsOrderedAddMonoid α]

theorem Bounded.widen
    (h : Bounded limit start r)
    (hLimit : 0 < limit)
    (hAdmitted : ¬ Breaches r change limit) :
    Bounded limit start (widen r change) := by
  have hEnd :
      ∀ x : α, |x| ≤ max limit |start| →
        (change ≠ 0 → limit < |x + change| →
          ¬ |x| < |x + change|) →
          |x + change| ≤ max limit |start| := by
    intro x hx hMove
    by_cases hZero : change = 0
    · rwa [hZero, add_zero]
    · by_cases hOut : limit < |x + change|
      · exact (not_lt.mp (hMove hZero hOut)).trans hx
      · exact (not_lt.mp hOut).trans (le_max_left _ _)
  unfold ExposureRange.widen
  by_cases hDown : change < 0
  · rw [if_pos hDown]
    refine ⟨?_, h.le_hi, ?_, h.hi_bound⟩
    · exact (add_le_of_nonpos_right hDown.le).trans h.lo_le
    · apply hEnd r.lo h.lo_bound
      intro hZero hOut hFar
      apply hAdmitted
      unfold Breaches Range.start
      rw [if_pos hDown]
      exact ⟨hLimit, hZero, hOut, hFar⟩
  · rw [if_neg hDown]
    refine ⟨h.lo_le, ?_, h.lo_bound, ?_⟩
    · exact
        h.le_hi.trans (le_add_of_nonneg_right (not_lt.mp hDown))
    · apply hEnd r.hi h.hi_bound
      intro hZero hOut hFar
      apply hAdmitted
      unfold Breaches Range.start
      rw [if_neg hDown]
      exact ⟨hLimit, hZero, hOut, hFar⟩

theorem contains_widen
    (h : r.Contains net)
    (hPart : Part part change) :
    (widen r change).Contains (net + part) := by
  rcases h with ⟨hLo, hHi⟩
  unfold widen Range.Contains
  split
  · next hDown =>
      rcases hPart with ⟨hNonneg, hLe⟩ | ⟨hGe, hNonpos⟩
      · exact absurd (hNonneg.trans hLe) (not_le.mpr hDown)
      · exact
          ⟨add_le_add hLo hGe,
            (add_le_of_nonpos_right hNonpos).trans hHi⟩
  · next hUp =>
      rcases hPart with ⟨hNonneg, hLe⟩ | ⟨hGe, hNonpos⟩
      · exact
          ⟨hLo.trans (le_add_of_nonneg_right hNonneg),
            add_le_add hHi hLe⟩
      · have hZero : part = 0 :=
          le_antisymm hNonpos ((not_lt.mp hUp).trans hGe)
        rw [hZero, add_zero]
        exact
          ⟨hLo,
            hHi.trans
              (le_add_of_nonneg_right (not_lt.mp hUp))⟩

theorem Bounded.net_le
    (h : Bounded limit start r)
    (hNet : r.Contains net) :
    |net| ≤ max limit |start| :=
  abs_le.mpr
    ⟨(neg_le_of_abs_le h.lo_bound).trans hNet.1,
      hNet.2.trans (le_of_abs_le h.hi_bound)⟩

/- A wider range is further out on both sides. -/
def Range.Within
    (r r' : Range α) : Prop :=
  r'.lo ≤ r.lo ∧ r.hi ≤ r'.hi

theorem within_widen
    (r : Range α)
    (change : α) :
    r.Within (widen r change) := by
  unfold widen Range.Within
  split
  · next hDown =>
      exact ⟨add_le_of_nonpos_right hDown.le, le_refl _⟩
  · next hUp =>
      exact
        ⟨le_refl _,
          le_add_of_nonneg_right (not_lt.mp hUp)⟩

omit [AddCommGroup α] [IsOrderedAddMonoid α] in
theorem Range.Within.trans
    {r' r'' : Range α}
    (h : r.Within r')
    (h' : r'.Within r'') :
    r.Within r'' :=
  ⟨h'.1.trans h.1, h.2.trans h'.2⟩

/-
  A refused change would leave the limit from any wider range
  too: it moves its end away from zero, past the limit.
-/
theorem Breaches.beyond
    (h : Breaches r change limit)
    {r' : Range α}
    (hWithin : r.Within r') :
    limit < |r'.start change + change| := by
  rcases h with ⟨hLimit, _, hOut, hFar⟩
  unfold Range.start at *
  by_cases hDown : change < 0
  · rw [if_pos hDown] at *
    have hNeg : r.lo + change < 0 := by
      by_contra hPos
      have hTo := not_lt.mp hPos
      have hLess : r.lo + change ≤ r.lo :=
        add_le_of_nonpos_right hDown.le
      rw [abs_of_nonneg hTo, abs_of_nonneg (hTo.trans hLess)]
        at hFar
      exact absurd hLess (not_le.mpr hFar)
    have hFurther : r'.lo + change ≤ r.lo + change :=
      add_le_add_left hWithin.1 _
    rw [abs_of_neg hNeg] at hOut
    rw [abs_of_neg (hFurther.trans_lt hNeg)]
    exact hOut.trans_le (neg_le_neg hFurther)
  · rw [if_neg hDown] at *
    have hUp := not_lt.mp hDown
    have hPos : 0 < r.hi + change := by
      by_contra hNeg
      have hTo := not_lt.mp hNeg
      have hMore : r.hi ≤ r.hi + change :=
        le_add_of_nonneg_right hUp
      rw [abs_of_nonpos hTo, abs_of_nonpos (hMore.trans hTo)]
        at hFar
      exact absurd (neg_le_neg hMore) (not_le.mpr hFar)
    have hFurther : r.hi + change ≤ r'.hi + change :=
      add_le_add_left hWithin.2 _
    rw [abs_of_pos hPos] at hOut
    rw [abs_of_pos (hPos.trans_le hFurther)]
    exact hOut.trans_le hFurther

/- Each end moves by the changes of its own direction. -/
omit [IsOrderedAddMonoid α] in
theorem start_foldl_widen
    (r : Range α)
    (changes : List α)
    (change : α) :
    (changes.foldl ExposureRange.widen r).start change =
      r.start change +
        (changes.filter
          (fun c => decide (c < 0 ↔ change < 0))).sum := by
  induction changes generalizing r with
  | nil => simp
  | cons c rest ih =>
      rw [List.foldl_cons, ih, List.filter_cons]
      unfold ExposureRange.widen Range.start
      by_cases hDown : c < 0
      · by_cases hSame : change < 0
        · simp [hDown, hSame, add_assoc]
        · simp [hDown, hSame]
      · by_cases hSame : change < 0
        · simp [hDown, hSame]
        · simp [hDown, hSame, add_assoc]

end ExposureRange
