import Callhouse.Lib.TruncDiv

/-
  Rounding onto the multiples of a step, up and down, with
  divisions that truncate.

  Main declarations:
    * `Grid.ceilDiv`, `Grid.roundUp`, `Grid.roundDown`
    * `Grid.ceilDiv_le_iff`
    * `Grid.roundUp_le_iff`, `Grid.le_roundDown_iff`
-/

----
-- Ceilings
----

namespace Grid

section

variable {a b k : Int}

def ceilDiv
    (a b : Int) : Int :=
  (a + b - 1).tdiv b

theorem ceilDiv_le_iff
    (ha : 0 ≤ a)
    (hb : 0 < b) :
    ceilDiv a b ≤ k ↔ a ≤ k * b := by
  unfold ceilDiv
  rw [TruncDiv.add_pred_tdiv ha hb, TruncDiv.ceil_div_le_iff hb]

theorem ceilDiv_nonneg
    (ha : 0 ≤ a)
    (hb : 0 < b) :
    0 ≤ ceilDiv a b :=
  TruncDiv.tdiv_nonneg (by omega) hb

end

----
-- Multiples of a Step
----

variable {step x p : Int}

def roundUp
    (step x : Int) : Int :=
  ceilDiv x step * step

def roundDown
    (step x : Int) : Int :=
  x.tdiv step * step

theorem dvd_roundUp
    (step x : Int) :
    step ∣ roundUp step x :=
  Dvd.intro_left _ rfl

theorem dvd_roundDown
    (step x : Int) :
    step ∣ roundDown step x :=
  Dvd.intro_left _ rfl

/- The least multiple at or above `x`. -/
theorem roundUp_le_iff
    (hx : 0 ≤ x)
    (hStep : 0 < step)
    (hp : step ∣ p) :
    roundUp step x ≤ p ↔ x ≤ p := by
  rcases hp with ⟨k, rfl⟩
  unfold roundUp
  rw [mul_comm step k, mul_le_mul_iff_left₀ hStep,
    ceilDiv_le_iff hx hStep]

/- The greatest multiple at or below `x`. -/
theorem le_roundDown_iff
    (hx : 0 ≤ x)
    (hStep : 0 < step)
    (hp : step ∣ p) :
    p ≤ roundDown step x ↔ p ≤ x := by
  rcases hp with ⟨k, rfl⟩
  unfold roundDown
  rw [mul_comm step k, mul_le_mul_iff_left₀ hStep,
    TruncDiv.le_tdiv_iff hx hStep]

theorem le_roundUp
    (hx : 0 ≤ x)
    (hStep : 0 < step) :
    x ≤ roundUp step x :=
  (roundUp_le_iff hx hStep (dvd_roundUp step x)).mp (le_refl _)

theorem roundDown_le
    (hx : 0 ≤ x)
    (hStep : 0 < step) :
    roundDown step x ≤ x :=
  (le_roundDown_iff hx hStep (dvd_roundDown step x)).mp
    (le_refl _)

/-
  A ceiling of a quotient, rounded up onto the step: the step's
  multiples above it are those above the exact quotient.
-/
theorem roundUp_ceilDiv_le_iff
    {a b : Int}
    (ha : 0 ≤ a)
    (hb : 0 < b)
    (hStep : 0 < step)
    (hp : step ∣ p) :
    roundUp step (ceilDiv a b) ≤ p ↔ a ≤ p * b := by
  rw [roundUp_le_iff (ceilDiv_nonneg ha hb) hStep hp,
    ceilDiv_le_iff ha hb]

theorem le_roundDown_tdiv_iff
    {a b : Int}
    (ha : 0 ≤ a)
    (hb : 0 < b)
    (hStep : 0 < step)
    (hp : step ∣ p) :
    p ≤ roundDown step (a.tdiv b) ↔ p * b ≤ a := by
  rw [le_roundDown_iff (TruncDiv.tdiv_nonneg ha hb) hStep hp,
    TruncDiv.le_tdiv_iff ha hb]

end Grid
