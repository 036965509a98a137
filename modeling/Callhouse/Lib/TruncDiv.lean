import Mathlib.Tactic
import Mathlib.Data.Rat.Floor

/-
  Integer division that truncates towards zero: as a floor
  of a non-negative numerator, as the two usual spellings of
  a ceiling, and as a rounding of a signed numerator.

  Main declarations:
    * `TruncDiv.le_tdiv_iff`
    * `TruncDiv.pred_tdiv_add_one`
    * `TruncDiv.add_pred_tdiv`
    * `TruncDiv.abs_sub_mul_tdiv_lt`
-/

----
-- Non-Negative Numerators
----

namespace TruncDiv

section

variable {a b k : Int}

/- Truncation is the floor below a non-negative numerator. -/
theorem le_tdiv_iff
    (ha : 0 ≤ a)
    (hb : 0 < b) :
    k ≤ a.tdiv b ↔ k * b ≤ a := by
  rw [Int.tdiv_eq_ediv_of_nonneg ha]
  exact Int.le_ediv_iff_mul_le hb

theorem tdiv_nonneg
    (ha : 0 ≤ a)
    (hb : 0 < b) :
    0 ≤ a.tdiv b := by
  rw [le_tdiv_iff ha hb]
  simpa using ha

theorem tdiv_nonpos
    (ha : a ≤ 0)
    (hb : 0 ≤ b) :
    a.tdiv b ≤ 0 := by
  have hNeg : 0 ≤ (-a).tdiv b := Int.tdiv_nonneg (by omega) hb
  rw [Int.neg_tdiv] at hNeg
  omega

theorem tdiv_mul_le
    (ha : 0 ≤ a)
    (hb : 0 < b) :
    a.tdiv b * b ≤ a :=
  (le_tdiv_iff ha hb).mp (le_refl _)

theorem lt_tdiv_add_one_mul
    (ha : 0 ≤ a)
    (hb : 0 < b) :
    a < (a.tdiv b + 1) * b := by
  by_contra hNot
  have hLe : a.tdiv b + 1 ≤ a.tdiv b :=
    (le_tdiv_iff ha hb).mpr (not_lt.mp hNot)
  omega

/- A quotient is bounded by any bound on the numerator. -/
theorem tdiv_le_of_le_mul
    (ha : 0 ≤ a)
    (hb : 0 < b)
    (h : a ≤ k * b) :
    a.tdiv b ≤ k := by
  have hMul : a.tdiv b * b ≤ k * b := (tdiv_mul_le ha hb).trans h
  exact le_of_mul_le_mul_right hMul hb

theorem tdiv_le_tdiv
    {a' : Int}
    (ha : 0 ≤ a)
    (hb : 0 < b)
    (h : a ≤ a') :
    a.tdiv b ≤ a'.tdiv b := by
  rw [le_tdiv_iff (ha.trans h) hb]
  exact (tdiv_mul_le ha hb).trans h

/- Less a part of at most the whole, more leaves more. -/
theorem sub_tdiv_le_sub_tdiv
    {rate a' : Int}
    (hRate : 0 ≤ rate)
    (hMost : rate ≤ b)
    (hb : 0 < b)
    (ha : 0 ≤ a)
    (h : a ≤ a') :
    a - (a * rate).tdiv b ≤ a' - (a' * rate).tdiv b := by
  have hNonneg : 0 ≤ a * rate := mul_nonneg ha hRate
  have hNonneg' : 0 ≤ a' * rate := mul_nonneg (ha.trans h) hRate
  have hPart : (a' - a) * rate ≤ (a' - a) * b :=
    mul_le_mul_of_nonneg_left hMost (sub_nonneg.mpr h)
  have hPaid := tdiv_mul_le hNonneg' hb
  have hLess :
      (a' * rate).tdiv b - (a' - a) ≤ (a * rate).tdiv b := by
    rw [le_tdiv_iff hNonneg hb, sub_mul]
    rw [sub_mul] at hPart
    omega
  omega

end

----
-- Ceilings
----

section

variable {a b k : Int}

theorem ceil_div_le_iff
    (hb : 0 < b) :
    ⌈(a : ℚ) / b⌉ ≤ k ↔ a ≤ k * b := by
  have hb' : (0 : ℚ) < b := by exact_mod_cast hb
  rw [Int.ceil_le, div_le_iff₀ hb']
  exact_mod_cast Iff.rfl

/- The ceiling of a positive numerator, one below and one up. -/
theorem pred_tdiv_add_one
    (ha : 0 < a)
    (hb : 0 < b) :
    (a - 1).tdiv b + 1 = ⌈(a : ℚ) / b⌉ := by
  apply eq_of_forall_ge_iff
  intro k
  rw [ceil_div_le_iff hb,
    Int.tdiv_eq_ediv_of_nonneg (by omega),
    Int.add_one_le_iff, Int.ediv_lt_iff_lt_mul hb]
  omega

/- The ceiling as a floor of a raised numerator. -/
theorem add_pred_tdiv
    (ha : 0 ≤ a)
    (hb : 0 < b) :
    (a + b - 1).tdiv b = ⌈(a : ℚ) / b⌉ := by
  apply eq_of_forall_ge_iff
  intro k
  rw [ceil_div_le_iff hb,
    Int.tdiv_eq_ediv_of_nonneg (by omega),
    ← Int.lt_add_one_iff, Int.ediv_lt_iff_lt_mul hb,
    add_one_mul]
  omega

/- The quotient against the division it rounds. -/
theorem tdiv_le_div
    (ha : 0 ≤ a)
    (hb : 0 < b) :
    (a.tdiv b : ℚ) ≤ a / b := by
  have hb' : (0 : ℚ) < b := by exact_mod_cast hb
  rw [le_div_iff₀ hb']
  exact_mod_cast tdiv_mul_le ha hb

theorem div_lt_tdiv_add_one
    (ha : 0 ≤ a)
    (hb : 0 < b) :
    (a : ℚ) / b < a.tdiv b + 1 := by
  have hb' : (0 : ℚ) < b := by exact_mod_cast hb
  rw [div_lt_iff₀ hb']
  exact_mod_cast lt_tdiv_add_one_mul ha hb

end

----
-- Signed Numerators
----

variable {a b : Int}

/-
  Truncation towards zero moves a quotient by less than one,
  whatever the sign of its numerator.
-/
theorem abs_sub_mul_tdiv_lt
    (a : Int)
    (hb : 0 < b) :
    |a - b * a.tdiv b| < b := by
  have hSplit := Int.mul_tdiv_add_tmod a b
  have hRest : a - b * a.tdiv b = a.tmod b := by omega
  rw [hRest, abs_lt]
  constructor
  · have hNeg := Int.tmod_lt_of_pos (-a) hb
    rw [Int.neg_tmod] at hNeg
    omega
  · exact Int.tmod_lt_of_pos a hb

end TruncDiv
