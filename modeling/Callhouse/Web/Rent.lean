import Callhouse.Spec.WriteCost

/-
  web/lib/v2/rent.ts: the writer's collateral need and
  capacity as the app computes them, at the balance's pinned
  timestamp.  A thrown RangeError is its message.

  Main declarations:
    * `mintRent`, `writerCollateralNeed`, `writerCapacity`
    * `writerCollateralNeed_eq_cost`
    * `writerCapacity_eq`
-/

----
-- Rent and Capacity
----

namespace Callhouse.Web

structure RentTerms where
  collateralPerUnit : Int
  mintFeePpm : Int
  expiry : Int
  snapshotTimestamp : Int
  mintCutoff : Option Int
deriving DecidableEq

def mintFeePeriod : Int := 604800

def denominator : Int := 1000000 * mintFeePeriod

/- 2^64 - 1. -/
def maxUnits : Int := 18446744073709551615

/- Number.isSafeInteger, of a number that is an integer. -/
def isSafeInteger
    (x : Int) : Bool :=
  decide (-9007199254740991 ≤ x ∧ x ≤ 9007199254740991)

def mintRent
    (units : Int)
    (terms : RentTerms) : Except String Int :=
  if units < 0 ∨ units > maxUnits ∨
      terms.collateralPerUnit ≤ 0 ∨
      isSafeInteger terms.mintFeePpm = false ∨
      terms.mintFeePpm < 0 ∨ terms.mintFeePpm > 5000 ∨
      isSafeInteger terms.expiry = false ∨
      isSafeInteger terms.snapshotTimestamp = false ∨
      terms.snapshotTimestamp < 0 then
    .error "Invalid writer rent terms"
  else
    let remaining :=
      max 0 (terms.expiry - terms.snapshotTimestamp)
    let numerator :=
      units * terms.collateralPerUnit * terms.mintFeePpm *
        remaining
    .ok ((numerator + denominator - 1).tdiv denominator)

def writerCollateralNeed
    (units : Int)
    (terms : RentTerms) : Except String Int :=
  match mintRent units terms with
  | .error e => .error e
  | .ok rent => .ok (units * terms.collateralPerUnit + rent)

/- At or past expiry, or the mint cutoff when there is one. -/
def RentTerms.closed
    (terms : RentTerms) : Bool :=
  decide (terms.snapshotTimestamp ≥ terms.expiry) ||
    match terms.mintCutoff with
    | none => false
    | some mintCutoff =>
        decide (terms.snapshotTimestamp ≥ mintCutoff)

def writerCovers
    (free : Int)
    (terms : RentTerms)
    (mid : Int) : Except String Bool :=
  match writerCollateralNeed mid terms with
  | .error e => .error e
  | .ok need => .ok (need ≤ free)

def writerCapacity
    (free : Int)
    (terms : RentTerms)
    (maximum : Int) : Except String Int :=
  match mintRent 0 terms with
  | .error e => .error e
  | .ok _ =>
      if free < 0 ∨ maximum < 0 ∨ maximum > maxUnits then
        .error "Invalid writer budget"
      else if terms.closed then .ok 0
      else
        let affordable := free.tdiv terms.collateralPerUnit
        let hi :=
          if affordable < maximum then affordable
          else maximum
        searchMaxE (writerCovers free terms) 0 hi

----
-- Agreement With the Write Cost
----

variable {terms : RentTerms}

/- Terms that the app prices: what mintRent lets through. -/
structure RentTerms.Valid
    (terms : RentTerms) : Prop where
  cpu_pos : 0 < terms.collateralPerUnit
  ppm_nonneg : 0 ≤ terms.mintFeePpm
  ppm_le : terms.mintFeePpm ≤ 5000
  expiry_safe : isSafeInteger terms.expiry = true
  snapshot_safe :
    isSafeInteger terms.snapshotTimestamp = true
  snapshot_nonneg : 0 ≤ terms.snapshotTimestamp

/- The life left at the snapshot. -/
def RentTerms.life
    (terms : RentTerms) : Int :=
  max 0 (terms.expiry - terms.snapshotTimestamp)

theorem life_nonneg : 0 ≤ terms.life :=
  le_max_left _ _

theorem denominator_eq :
    denominator = WriteCost.rentDenominator := by
  decide

theorem mintRent_eq_rent
    {units : Int}
    (hTerms : terms.Valid)
    (hUnits : 0 ≤ units)
    (hMax : units ≤ maxUnits) :
    mintRent units terms =
      .ok (WriteCost.rent (units * terms.collateralPerUnit)
        terms.mintFeePpm terms.life) := by
  have hSafe : isSafeInteger terms.mintFeePpm = true := by
    have hLow := hTerms.ppm_nonneg
    have hHigh := hTerms.ppm_le
    unfold isSafeInteger
    rw [decide_eq_true_eq]
    omega
  have hAccepted :
      ¬ (units < 0 ∨ units > maxUnits ∨
        terms.collateralPerUnit ≤ 0 ∨
        isSafeInteger terms.mintFeePpm = false ∨
        terms.mintFeePpm < 0 ∨ terms.mintFeePpm > 5000 ∨
        isSafeInteger terms.expiry = false ∨
        isSafeInteger terms.snapshotTimestamp = false ∨
        terms.snapshotTimestamp < 0) := by
    rw [hSafe, hTerms.expiry_safe, hTerms.snapshot_safe]
    have hCpu := hTerms.cpu_pos
    have hLow := hTerms.ppm_nonneg
    have hHigh := hTerms.ppm_le
    have hSnapshot := hTerms.snapshot_nonneg
    simp only [Bool.true_eq_false, false_or]
    omega
  unfold mintRent
  rw [if_neg hAccepted, denominator_eq]
  apply congrArg Except.ok
  apply TruncDiv.add_pred_tdiv _ WriteCost.rentDenominator_pos
  have hLife : 0 ≤ terms.life := life_nonneg
  have hCpu := hTerms.cpu_pos
  have hPpm := hTerms.ppm_nonneg
  have hProduct :
      0 ≤ units * terms.collateralPerUnit *
        terms.mintFeePpm * terms.life := by
    positivity
  exact hProduct

theorem writerCollateralNeed_eq_cost
    {units : Int}
    (hTerms : terms.Valid)
    (hUnits : 0 ≤ units)
    (hMax : units ≤ maxUnits) :
    writerCollateralNeed units terms =
      .ok (WriteCost.cost terms.collateralPerUnit
        terms.mintFeePpm terms.life units) := by
  unfold writerCollateralNeed
  rw [mintRent_eq_rent hTerms hUnits hMax]
  rfl

/- A need is only given of terms and units that are valid. -/
theorem valid_of_need
    {units need : Int}
    (h : writerCollateralNeed units terms = .ok need) :
    terms.Valid ∧ 0 ≤ units ∧ units ≤ maxUnits := by
  unfold writerCollateralNeed mintRent at h
  split at h
  · cases h
  · next rent hRent =>
      split at hRent
      · cases hRent
      · next hAccepted =>
          simp only [not_or, not_lt, gt_iff_lt, not_le,
            Bool.not_eq_false] at hAccepted
          rcases hAccepted with
            ⟨hLow, hHigh, hCpu, _, hPpm, hMost, hExpiry,
              hSnapshot, hNonneg⟩
          exact
            ⟨{ cpu_pos := hCpu
               ppm_nonneg := hPpm
               ppm_le := hMost
               expiry_safe := hExpiry
               snapshot_safe := hSnapshot
               snapshot_nonneg := hNonneg }, hLow, hHigh⟩

theorem writerCovers_eq_covers
    {free mid : Int}
    (hTerms : terms.Valid)
    (hMid : 0 ≤ mid)
    (hMax : mid ≤ maxUnits) :
    writerCovers free terms mid =
      .ok (WriteCost.covers free terms.collateralPerUnit
        terms.mintFeePpm terms.life mid) := by
  unfold writerCovers
  rw [writerCollateralNeed_eq_cost hTerms hMid hMax]
  rfl

theorem writerCapacity_eq
    {free maximum k : Int}
    (hTerms : terms.Valid)
    (hOpen : terms.closed = false)
    (hFree : 0 ≤ free)
    (hMaximum : 0 ≤ maximum)
    (hMax : maximum ≤ maxUnits)
    (hCapacity :
      WriteCost.IsCapacity free terms.collateralPerUnit
        terms.mintFeePpm terms.life k) :
    writerCapacity free terms maximum =
      .ok (min maximum k) := by
  have hBelow :=
    WriteCost.capacity_le_tdiv hFree hTerms.cpu_pos
      hTerms.ppm_nonneg life_nonneg hCapacity
  have hAffordable := TruncDiv.tdiv_nonneg hFree hTerms.cpu_pos
  have hZero : (0 : Int) ≤ maxUnits := by decide
  unfold writerCapacity
  rw [mintRent_eq_rent hTerms (le_refl 0) hZero]
  simp only
  rw [if_neg (by omega), hOpen, if_neg (by decide)]
  generalize hHi :
    (if free.tdiv terms.collateralPerUnit < maximum
      then free.tdiv terms.collateralPerUnit
      else maximum) = hi
  have hWindow :
      hi =
        min (free.tdiv terms.collateralPerUnit)
          maximum := by
    omega
  rw [SearchMax.searchMaxE_eq_ok _
      (WriteCost.covers free terms.collateralPerUnit
        terms.mintFeePpm terms.life),
    WriteCost.searchMax_eq_min hFree hTerms.cpu_pos.le
      hTerms.ppm_nonneg life_nonneg (by omega) hCapacity]
  · congr 1
    omega
  · intro n hn hle
    exact writerCovers_eq_covers hTerms hn.le (by omega)

end Callhouse.Web
