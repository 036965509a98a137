import Callhouse.Spec.WriteCost

/-
  keeper/src/v2/mintFee.ts: the collateral rent a mint
  charges, what one fill of a write-on-fill ask consumes,
  and the exact inverse the bot sizes with.

  Main declarations:
    * `mintFee`, `collateralNeeded`, `maxWriteUnits`
    * `collateralNeeded_eq_cost`
    * `maxWriteUnits_isCapacity`
    * `collateralNeeded_le_of_le_maxWriteUnits`
-/

----
-- Rent and Need
----

namespace Callhouse.Keeper

def ppm : Int := 1000000

def mintFeePeriodS : Int := 7 * 86400

def denom : Int := ppm * mintFeePeriodS

def nonNegative
    (x : Int) : Int :=
  if x > 0 then x else 0

def mintFee
    (collateral feePpm remaining : Int) : Int :=
  let num :=
    nonNegative collateral * nonNegative feePpm *
      nonNegative remaining
  if num = 0 then 0 else (num - 1).tdiv denom + 1

def remainingLife
    (expiry now : Int) : Int :=
  if expiry > now then expiry - now else 0

def collateralNeeded
    (units collateralPerUnit feePpm remaining : Int) : Int :=
  let collateral :=
    nonNegative units * nonNegative collateralPerUnit
  collateral + mintFee collateral feePpm remaining

def maxWriteUnits
    (free collateralPerUnit feePpm remaining : Int) : Int :=
  if collateralPerUnit ≤ 0 ∨ free ≤ 0 then 0
  else
    let hi := free.tdiv collateralPerUnit
    if feePpm ≤ 0 ∨ remaining ≤ 0 then hi
    else
      searchMax
        (fun mid =>
          collateralNeeded mid collateralPerUnit feePpm
            remaining ≤ free)
        0 hi

----
-- Agreement With the Write Cost
----

theorem nonNegative_nonneg
    (x : Int) : 0 ≤ nonNegative x := by
  unfold nonNegative
  split <;> omega

theorem nonNegative_of_nonneg
    {x : Int}
    (h : 0 ≤ x) : nonNegative x = x := by
  unfold nonNegative
  split <;> omega

theorem nonNegative_of_nonpos
    {x : Int}
    (h : x ≤ 0) : nonNegative x = 0 := by
  unfold nonNegative
  split <;> omega

theorem denom_eq :
    denom = WriteCost.rentDenominator := by
  decide

/- Every rate and every life the code reads is clamped at zero. -/
theorem mintFee_eq_rent
    {collateral : Int}
    (feePpm remaining : Int)
    (hCollateral : 0 ≤ collateral) :
    mintFee collateral feePpm remaining =
      WriteCost.rent collateral (nonNegative feePpm)
        (nonNegative remaining) := by
  have hPpm := nonNegative_nonneg feePpm
  have hRemaining := nonNegative_nonneg remaining
  have hNum :
      0 ≤ collateral * nonNegative feePpm *
        nonNegative remaining := by
    positivity
  unfold mintFee
  rw [nonNegative_of_nonneg hCollateral]
  by_cases hZero :
      collateral * nonNegative feePpm *
        nonNegative remaining = 0
  · simp only [hZero, if_true]
    exact (WriteCost.rent_eq_zero_of_mul_eq_zero hZero).symm
  · simp only [hZero, if_false]
    have hPos :
        0 < collateral * nonNegative feePpm *
          nonNegative remaining := by
      omega
    rw [denom_eq]
    exact TruncDiv.pred_tdiv_add_one hPos
      WriteCost.rentDenominator_pos

theorem collateralNeeded_eq_cost
    {units cpu : Int}
    (feePpm remaining : Int)
    (hUnits : 0 ≤ units)
    (hCpu : 0 ≤ cpu) :
    collateralNeeded units cpu feePpm remaining =
      WriteCost.cost cpu (nonNegative feePpm)
        (nonNegative remaining) units := by
  unfold collateralNeeded WriteCost.cost
  rw [nonNegative_of_nonneg hUnits,
    nonNegative_of_nonneg hCpu]
  simp only
  rw [mintFee_eq_rent feePpm remaining
    (mul_nonneg hUnits hCpu)]

@[simp] theorem collateralNeeded_zero
    (cpu feePpm remaining : Int) :
    collateralNeeded 0 cpu feePpm remaining = 0 := by
  simp [collateralNeeded, mintFee, nonNegative]

----
-- The Exact Inverse
----

variable {free cpu : Int}

/-
  The early exits agree with the search: an empty balance
  covers nothing, and without rent the quotient is exact.
-/
theorem maxWriteUnits_isCapacity
    (feePpm remaining : Int)
    (hFree : 0 ≤ free)
    (hCpu : 0 < cpu) :
    WriteCost.IsCapacity free cpu (nonNegative feePpm)
      (nonNegative remaining)
      (maxWriteUnits free cpu feePpm remaining) := by
  have hPpm := nonNegative_nonneg feePpm
  have hRemaining := nonNegative_nonneg remaining
  have hHi := TruncDiv.tdiv_nonneg hFree hCpu
  have hSearch :=
    WriteCost.searchMax_isCapacity hFree hCpu hPpm hRemaining
  unfold maxWriteUnits
  by_cases hEmpty : cpu ≤ 0 ∨ free ≤ 0
  · rw [if_pos hEmpty]
    have hZero : free = 0 := by omega
    subst hZero
    have hWindow : (0 : Int).tdiv cpu = 0 := by simp
    rw [hWindow, searchMax, if_neg (lt_irrefl 0)] at hSearch
    exact hSearch
  · rw [if_neg hEmpty]
    simp only
    by_cases hNoRent : feePpm ≤ 0 ∨ remaining ≤ 0
    · rw [if_pos hNoRent]
      have hProduct :
          nonNegative feePpm * nonNegative remaining = 0 := by
        rcases hNoRent with h | h
        · simp [nonNegative_of_nonpos h]
        · simp [nonNegative_of_nonpos h]
      refine ⟨?_, ?_⟩
      · have hRent :
            WriteCost.rent (free.tdiv cpu * cpu)
              (nonNegative feePpm)
              (nonNegative remaining) = 0 := by
          apply WriteCost.rent_eq_zero_of_mul_eq_zero
          rw [mul_assoc, hProduct, mul_zero]
        change _ + _ ≤ free
        rw [hRent, add_zero]
        exact TruncDiv.tdiv_mul_le hFree hCpu
      · intro n hn
        have hBelow := hSearch.2 hn
        have hTop :=
          (WriteCost.searchMax_covers_isGreatest hFree
            hCpu.le hPpm hRemaining hHi).1.1
        exact hBelow.trans hTop
    · rw [if_neg hNoRent]
      rw [SearchMax.searchMax_congr _
        (WriteCost.covers free cpu (nonNegative feePpm)
          (nonNegative remaining))]
      · exact hSearch
      · intro n hn _
        rw [collateralNeeded_eq_cost feePpm remaining hn.le
          hCpu.le]
        rfl

theorem maxWriteUnits_nonneg
    (free cpu feePpm remaining : Int) :
    0 ≤ maxWriteUnits free cpu feePpm remaining := by
  by_cases h : cpu ≤ 0 ∨ free ≤ 0
  · simp [maxWriteUnits, h]
  · have hCpu : 0 < cpu := by omega
    have hFree : 0 ≤ free := by omega
    exact WriteCost.capacity_nonneg hFree
      (maxWriteUnits_isCapacity feePpm remaining hFree hCpu)

/- Any write up to the inverse fits in the balance. -/
theorem collateralNeeded_le_of_le_maxWriteUnits
    {units : Int}
    (feePpm remaining : Int)
    (hFree : 0 ≤ free)
    (hCpu : 0 < cpu)
    (hUnits : 0 ≤ units)
    (h : units ≤ maxWriteUnits free cpu feePpm remaining) :
    collateralNeeded units cpu feePpm remaining ≤ free := by
  rw [collateralNeeded_eq_cost feePpm remaining hUnits
    hCpu.le]
  exact (WriteCost.cost_le_iff_le_capacity hCpu.le
    (nonNegative_nonneg feePpm)
    (nonNegative_nonneg remaining)
    (maxWriteUnits_isCapacity feePpm remaining hFree
      hCpu)).mpr h

end Callhouse.Keeper
