import Mathlib.Tactic
import Callhouse.Lib.TruncDiv

/-
  Leaky buckets that drain linearly: a level is kept scaled by
  the window, drains by the cap a second, and is read rounded
  up.

  Main declarations:
    * `LeakyBucket`, `LeakyBucket.refill`, `LeakyBucket.charge`
    * `LeakyBucket.charge_level_le`
    * `LeakyBucket.refill_refill`
    * `LeakyBucket.used_le_of_drained`
-/

----
-- Buckets
----

/- A level times the window, as it stood at `since`. -/
@[ext] structure LeakyBucket where
  level : Int
  since : Int
  nonneg : 0 ≤ level

namespace LeakyBucket

section

def refill
    (cap now : Int)
    (b : LeakyBucket) : LeakyBucket :=
  { level := max (b.level - cap * (now - b.since)) 0
    since := now
    nonneg := le_max_right _ _ }

/- A charge adds, and a credit stops at an empty bucket. -/
def charge
    (window delta : Int)
    (b : LeakyBucket) : LeakyBucket :=
  { level := max (b.level + delta * window) 0
    since := b.since
    nonneg := le_max_right _ _ }

/- The level in its own unit, rounded up. -/
def used
    (window : Int)
    (b : LeakyBucket) : Int :=
  ⌈(b.level : ℚ) / window⌉

variable {window : Int} {b : LeakyBucket}

section

variable (hWindow : 0 < window)
include hWindow

theorem used_le_iff
    {k : Int} :
    b.used window ≤ k ↔ b.level ≤ k * window :=
  TruncDiv.ceil_div_le_iff hWindow

theorem level_le_used :
    b.level ≤ b.used window * window :=
  (used_le_iff hWindow).mp (le_refl _)

theorem used_nonneg :
    0 ≤ b.used window := by
  have hWindow' : (0 : ℚ) < window := by
    exact_mod_cast hWindow
  have hLevel : (0 : ℚ) ≤ b.level := by
    exact_mod_cast b.nonneg
  exact Int.ceil_nonneg (div_nonneg hLevel hWindow'.le)

/- A whole unit charged moves a whole bound by that unit. -/
theorem charge_level_le
    (delta : Int)
    {k : Int}
    (h : b.level ≤ k * window) :
    (b.charge window delta).level ≤
      max (k + delta) 0 * window := by
  apply max_le
  · calc
      b.level + delta * window ≤
          k * window + delta * window :=
        add_le_add_left h _
      _ = (k + delta) * window := (add_mul _ _ _).symm
      _ ≤ max (k + delta) 0 * window :=
        mul_le_mul_of_nonneg_right (le_max_left _ _)
          hWindow.le
  · exact mul_nonneg (le_max_right _ _) hWindow.le

end

end

----
-- Draining
----

variable {window : Int} {b : LeakyBucket} {least cap : Int}

/- Draining at a cap drains at least at any smaller one. -/
theorem refill_level_le
    {now : Int}
    (hLeast : least ≤ cap)
    (hTime : b.since ≤ now) :
    (b.refill cap now).level ≤
      max (b.level - least * (now - b.since)) 0 := by
  have hDrain : least * (now - b.since) ≤ cap * (now - b.since) :=
    mul_le_mul_of_nonneg_right hLeast
      (sub_nonneg.mpr hTime)
  exact max_le_max_right 0 (sub_le_sub_left hDrain _)

theorem refill_level_le_self
    {now : Int}
    (hCap : 0 ≤ cap)
    (hTime : b.since ≤ now) :
    (b.refill cap now).level ≤ b.level := by
  apply max_le _ b.nonneg
  exact sub_le_self _
    (mul_nonneg hCap (sub_nonneg.mpr hTime))

/- A look in between at the same cap leaves no trace. -/
theorem refill_refill
    {middle now : Int}
    (hCap : 0 ≤ cap)
    (hFirst : b.since ≤ middle)
    (hThen : middle ≤ now) :
    (b.refill cap middle).refill cap now =
      b.refill cap now := by
  have hBefore : 0 ≤ cap * (middle - b.since) :=
    mul_nonneg hCap (sub_nonneg.mpr hFirst)
  have hAfter : 0 ≤ cap * (now - middle) :=
    mul_nonneg hCap (sub_nonneg.mpr hThen)
  have hSplit :
      cap * (now - b.since) =
        cap * (middle - b.since) + cap * (now - middle) := by
    ring
  ext
  · change
      max (max (b.level - cap * (middle - b.since)) 0 -
          cap * (now - middle)) 0 =
        max (b.level - cap * (now - b.since)) 0
    rw [hSplit]
    omega
  · rfl

/- Two caps in a row drain at least at the smaller of them. -/
theorem refill_refill_level_le
    {cap' middle now : Int}
    (hNonneg : 0 ≤ least)
    (hLeast : least ≤ cap)
    (hLeast' : least ≤ cap')
    (hFirst : b.since ≤ middle)
    (hThen : middle ≤ now) :
    ((b.refill cap middle).refill cap' now).level ≤
      max (b.level - least * (now - b.since)) 0 := by
  have hLast :=
    refill_level_le (b := b.refill cap middle) hLeast' hThen
  have hStart := refill_level_le hLeast hFirst
  refine hLast.trans ?_
  apply max_le _ (le_max_right _ _)
  have hSince : (b.refill cap middle).since = middle := rfl
  rw [hSince]
  have hSplit :
      least * (now - b.since) =
        least * (middle - b.since) +
          least * (now - middle) := by
    ring
  rcases le_max_iff.mp hStart with hSome | hNone
  · apply le_max_of_le_left
    rw [hSplit]
    linarith
  · apply le_max_of_le_right
    have hLater : 0 ≤ least * (now - middle) :=
      mul_nonneg hNonneg (sub_nonneg.mpr hThen)
    linarith

/-
  A level under `k`, drained for at least `elapsed` at `least`
  or more, reads at most `k` less the whole units drained.
-/
theorem used_le_of_drained
    (hWindow : 0 < window)
    {k elapsed level : Int}
    (hLevel : level ≤ k * window)
    (hDrained : 0 ≤ least * elapsed)
    (h : b.level ≤ max (level - least * elapsed) 0) :
    b.used window ≤
      max (k - (least * elapsed).tdiv window) 0 := by
  rw [used_le_iff hWindow]
  refine h.trans (max_le ?_ ?_)
  · have hWhole := TruncDiv.tdiv_mul_le hDrained hWindow
    calc
      level - least * elapsed ≤
          k * window -
            (least * elapsed).tdiv window * window :=
        sub_le_sub hLevel hWhole
      _ = (k - (least * elapsed).tdiv window) * window :=
        (sub_mul _ _ _).symm
      _ ≤ max (k - (least * elapsed).tdiv window) 0 *
            window :=
        mul_le_mul_of_nonneg_right (le_max_left _ _)
          hWindow.le
  · exact mul_nonneg (le_max_right _ _) hWindow.le

end LeakyBucket
