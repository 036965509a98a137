import Callhouse.Spec.WriteCost

/-
  indexer/lib/v2/rent.ts: the collateral rent of a mint as
  the indexer computes it, and the largest single fill a
  balance covers.  A thrown RangeError is its message.

  Main declarations:
    * `mintRent`, `collateralWithRent`, `rentCapacity`
    * `collateralWithRent_eq_cost`
    * `rentCapacity_eq`
    * `rentCapacity_isGreatest`
-/

----
-- Rent and Capacity
----

namespace Callhouse.Indexer

def mintFeePeriod : Int := 604800

def mintFeeCeilPpm : Int := 5000

def denominator : Int := 1000000 * mintFeePeriod

/- 2^64 - 1. -/
def maxUnits : Int := 18446744073709551615

def mintRent
    (collateral ppm remaining : Int) : Except String Int :=
  if collateral < 0 ∨ ppm < 0 ∨ ppm > mintFeeCeilPpm then
    .error "invalid collateral rent input"
  else if remaining ≤ 0 ∨ ppm = 0 ∨ collateral = 0 then
    .ok 0
  else
    let numerator := collateral * ppm * remaining
    .ok ((numerator - 1).tdiv denominator + 1)

def collateralWithRent
    (units perUnit ppm remaining : Int) :
    Except String Int :=
  if units < 0 ∨ perUnit ≤ 0 then
    .error "invalid collateral requirement"
  else
    let collateral := units * perUnit
    match mintRent collateral ppm remaining with
    | .error e => .error e
    | .ok rent => .ok (collateral + rent)

/- Whether a fill of `mid` units is covered, or the error. -/
def rentCovers
    (free perUnit ppm remaining mid : Int) :
    Except String Bool :=
  match collateralWithRent mid perUnit ppm remaining with
  | .error e => .error e
  | .ok need => .ok (need ≤ free)

def rentCapacity
    (free perUnit ppm remaining cap : Int) :
    Except String Int :=
  if free < 0 ∨ perUnit ≤ 0 ∨ cap < 0 then
    .error "invalid collateral capacity"
  else
    let affordable := free.tdiv perUnit
    let capped :=
      if affordable < cap then affordable else cap
    let hi := if capped > maxUnits then maxUnits else capped
    searchMaxE (rentCovers free perUnit ppm remaining) 0 hi

----
-- Agreement With the Write Cost
----

section

variable {free perUnit ppm remaining : Int}

theorem denominator_eq :
    denominator = WriteCost.rentDenominator := by
  decide

theorem mintRent_eq_rent
    {collateral : Int}
    (hCollateral : 0 ≤ collateral)
    (hPpm : 0 ≤ ppm)
    (hCeil : ppm ≤ mintFeeCeilPpm)
    (hRemaining : 0 ≤ remaining) :
    mintRent collateral ppm remaining =
      .ok (WriteCost.rent collateral ppm remaining) := by
  unfold mintRent
  rw [if_neg (by omega)]
  split
  · next hFreeOfRent =>
      have hZero : collateral * ppm * remaining = 0 := by
        rcases hFreeOfRent with hOver | hNoRate | hNothing
        · rw [le_antisymm hOver hRemaining, mul_zero]
        · rw [hNoRate, mul_zero, zero_mul]
        · rw [hNothing, zero_mul, zero_mul]
      rw [WriteCost.rent_eq_zero_of_mul_eq_zero hZero]
  · next hCharged =>
      have hPos : 0 < collateral * ppm * remaining := by
        have hCollateral' : 0 < collateral := by omega
        have hPpm' : 0 < ppm := by omega
        have hRemaining' : 0 < remaining := by omega
        positivity
      rw [denominator_eq]
      exact congrArg Except.ok
        (TruncDiv.pred_tdiv_add_one hPos
          WriteCost.rentDenominator_pos)

theorem collateralWithRent_eq_cost
    {units : Int}
    (hUnits : 0 ≤ units)
    (hPerUnit : 0 < perUnit)
    (hPpm : 0 ≤ ppm)
    (hCeil : ppm ≤ mintFeeCeilPpm)
    (hRemaining : 0 ≤ remaining) :
    collateralWithRent units perUnit ppm remaining =
      .ok (WriteCost.cost perUnit ppm remaining units) := by
  unfold collateralWithRent
  rw [if_neg (by omega)]
  simp only
  rw [mintRent_eq_rent (mul_nonneg hUnits hPerUnit.le) hPpm
    hCeil hRemaining]
  rfl

theorem rentCovers_eq_covers
    {mid : Int}
    (hMid : 0 ≤ mid)
    (hPerUnit : 0 < perUnit)
    (hPpm : 0 ≤ ppm)
    (hCeil : ppm ≤ mintFeeCeilPpm)
    (hRemaining : 0 ≤ remaining) :
    rentCovers free perUnit ppm remaining mid =
      .ok (WriteCost.covers free perUnit ppm remaining
        mid) := by
  unfold rentCovers
  rw [collateralWithRent_eq_cost hMid hPerUnit hPpm hCeil
    hRemaining]
  rfl

/- The window is cut at the cap and at 2^64 - 1. -/
theorem rentCapacity_eq
    {cap k : Int}
    (hFree : 0 ≤ free)
    (hPerUnit : 0 < perUnit)
    (hPpm : 0 ≤ ppm)
    (hCeil : ppm ≤ mintFeeCeilPpm)
    (hRemaining : 0 ≤ remaining)
    (hCap : 0 ≤ cap)
    (hCapacity :
      WriteCost.IsCapacity free perUnit ppm remaining k) :
    rentCapacity free perUnit ppm remaining cap =
      .ok (min (min cap maxUnits) k) := by
  have hBelow :=
    WriteCost.capacity_le_tdiv hFree hPerUnit hPpm
      hRemaining hCapacity
  have hAffordable := TruncDiv.tdiv_nonneg hFree hPerUnit
  have hMax : 0 ≤ maxUnits := by decide
  unfold rentCapacity
  rw [if_neg (by omega)]
  simp only
  generalize hHi :
    (if (if free.tdiv perUnit < cap then free.tdiv perUnit
        else cap) > maxUnits
      then maxUnits
      else
        if free.tdiv perUnit < cap then free.tdiv perUnit
        else cap) = hi
  have hWindow :
      hi = min (min (free.tdiv perUnit) cap) maxUnits := by
    omega
  rw [SearchMax.searchMaxE_eq_ok _
      (WriteCost.covers free perUnit ppm remaining),
    WriteCost.searchMax_eq_min hFree hPerUnit.le hPpm
      hRemaining (by omega) hCapacity]
  · congr 1
    omega
  · intro n hn _
    exact rentCovers_eq_covers hn.le hPerUnit hPpm hCeil
      hRemaining

end

----
-- The Largest Covered Fill
----

variable {free perUnit ppm remaining : Int}

/- A fill, of a `uint64` of units, that the balance covers. -/
def CoveredUnits
    (free perUnit ppm remaining n : Int) : Prop :=
  0 ≤ n ∧ n ≤ maxUnits ∧
    (n = 0 ∨
      ∃ need,
        collateralWithRent n perUnit ppm remaining =
            .ok need ∧
          need ≤ free)

/- A fill priced without an error is priced by a legal rate. -/
theorem ppm_of_collateralWithRent
    {n need : Int}
    (h :
      collateralWithRent n perUnit ppm remaining =
        .ok need) :
    0 ≤ ppm ∧ ppm ≤ mintFeeCeilPpm := by
  unfold collateralWithRent at h
  split at h
  · cases h
  · simp only at h
    cases hRent : mintRent (n * perUnit) ppm remaining with
    | error e =>
        rw [hRent] at h
        cases h
    | ok rent =>
        unfold mintRent at hRent
        split at hRent
        · cases hRent
        · omega

/-
  A capacity that is returned is the largest covered fill,
  whatever the balance and the rate were.
-/
theorem rentCapacity_isGreatest
    {k : Int}
    (hRemaining : 0 ≤ remaining)
    (h :
      rentCapacity free perUnit ppm remaining maxUnits =
        .ok k) :
    0 ≤ free ∧ 0 < perUnit ∧
      IsGreatest
        {n | CoveredUnits free perUnit ppm remaining n}
        k := by
  have hInputs : 0 ≤ free ∧ 0 < perUnit := by
    unfold rentCapacity at h
    split at h
    · cases h
    · omega
  rcases hInputs with ⟨hFree, hPerUnit⟩
  refine ⟨hFree, hPerUnit, ?_⟩
  have hMax : 0 ≤ maxUnits := by decide
  rcases Decidable.em (0 ≤ ppm ∧ ppm ≤ mintFeeCeilPpm) with
    ⟨hPpm, hCeil⟩ | hIllegal
  · have hCapacity :=
      WriteCost.capacity_isCapacity hFree hPerUnit hPpm
        hRemaining
    have hNonneg := WriteCost.capacity_nonneg hFree hCapacity
    rw [rentCapacity_eq hFree hPerUnit hPpm hCeil hRemaining
      hMax hCapacity, min_self] at h
    cases h
    constructor
    · refine ⟨le_min hMax hNonneg, min_le_left _ _, ?_⟩
      right
      refine ⟨_, collateralWithRent_eq_cost
        (le_min hMax hNonneg) hPerUnit hPpm hCeil
        hRemaining, ?_⟩
      exact (WriteCost.cost_le_iff_le_capacity hPerUnit.le
        hPpm hRemaining hCapacity).mpr (min_le_right _ _)
    · rintro n ⟨hn, hUnits, hZero | ⟨need, hNeed, hLe⟩⟩
      · rw [hZero]
        exact le_min hMax hNonneg
      · rw [collateralWithRent_eq_cost hn hPerUnit hPpm
          hCeil hRemaining] at hNeed
        cases hNeed
        exact le_min hUnits (hCapacity.2 hLe)
  · -- No fill is priced, so nothing was ever tested.
    have hNone :
        ∀ n need,
          collateralWithRent n perUnit ppm remaining ≠
            .ok need :=
      fun n need hOk => hIllegal (ppm_of_collateralWithRent hOk)
    have hZero : k = 0 := by
      unfold rentCapacity at h
      rw [if_neg (by omega)] at h
      simp only at h
      generalize
        (if (if free.tdiv perUnit < maxUnits then
              free.tdiv perUnit
            else maxUnits) > maxUnits
          then maxUnits
          else
            if free.tdiv perUnit < maxUnits then
              free.tdiv perUnit
            else maxUnits) = hi at h
      rcases lt_or_ge 0 hi with hInside | hEmpty
      · rcases SearchMax.searchMaxE_test h hInside with
          ⟨n, b, _, _, hTest⟩
        unfold rentCovers at hTest
        split at hTest
        · cases hTest
        · next need hOk => exact absurd hOk (hNone n need)
      · rw [searchMaxE, if_neg (by omega)] at h
        cases h
        rfl
    rw [hZero]
    constructor
    · exact ⟨le_refl _, hMax, .inl rfl⟩
    · rintro n ⟨_, _, hZero' | ⟨need, hNeed, _⟩⟩
      · exact hZero'.le
      · exact absurd hNeed (hNone n need)

/- Up to the largest covered fill, every fill is priced. -/
theorem collateralWithRent_le_of_covered
    {k n need : Int}
    (hRemaining : 0 ≤ remaining)
    (hPerUnit : 0 < perUnit)
    (hCovered : CoveredUnits free perUnit ppm remaining k)
    (hn : 0 < n)
    (hLe : n ≤ k)
    (hNeed :
      collateralWithRent n perUnit ppm remaining =
        .ok need) :
    need ≤ free := by
  rcases ppm_of_collateralWithRent hNeed with ⟨hPpm, hCeil⟩
  rcases hCovered with ⟨_, _, hZero | ⟨need', hNeed', hLe'⟩⟩
  · omega
  · rw [collateralWithRent_eq_cost hn.le hPerUnit hPpm hCeil
      hRemaining] at hNeed
    rw [collateralWithRent_eq_cost (hn.le.trans hLe)
      hPerUnit hPpm hCeil hRemaining] at hNeed'
    cases hNeed
    cases hNeed'
    exact (WriteCost.cost_mono hPerUnit.le hPpm hRemaining
      hLe).trans hLe'

end Callhouse.Indexer
