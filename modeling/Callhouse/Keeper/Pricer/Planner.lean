import Callhouse.Lib.Grid

/-
  keeper/src/v2/pricer/planner.ts: the prices that one reprice
  of an ask may set, and the price the pricer aims at.

  Main declarations:
    * `priceBand`, `inBand`, `repriceFloor`, `stepFloor`
    * `priceBand_spec`, `inBand_iff_mem_band`
    * `targetPrice_spec`
-/

----
-- Ticks
----

namespace Callhouse.Keeper.Pricer

def bps : Int := 10000

def priceTick : Int := 100

def maxRepriceDropBps : Int := 2500

def pricerMaxStepDropBps : Int := 1900

theorem bps_pos : 0 < bps := by
  decide

theorem priceTick_pos : 0 < priceTick := by
  decide

/- cranker/planner.ts's arithmetic. -/
def ceilDiv
    (a b : Int) : Int :=
  (a + b - 1).tdiv b

def roundUpToTick
    (value tick : Int) : Int :=
  ceilDiv value tick * tick

def roundDownToTick
    (value tick : Int) : Int :=
  value.tdiv tick * tick

----
-- The Band
----

structure Band where
  min : Int
  max : Int
deriving DecidableEq

/- The least accepted tick, the book refusing a zero price. -/
def bandMin
    (spot minAskBps : Int) : Int :=
  let min :=
    roundUpToTick (ceilDiv (spot * minAskBps) bps) priceTick
  if min = 0 then priceTick else min

def bandMax
    (spot maxAskBps : Int) : Int :=
  roundDownToTick ((spot * maxAskBps).tdiv bps) priceTick

def priceBand
    (spot minAskBps maxAskBps : Int) : Option Band :=
  if spot ≤ 0 ∨ minAskBps > maxAskBps then none
  else if bandMin spot minAskBps > bandMax spot maxAskBps then
    none
  else
    some
      { min := bandMin spot minAskBps
        max := bandMax spot maxAskBps }

def inBand
    (price spot minAskBps maxAskBps : Int) : Bool :=
  if price ≤ 0 ∨ price.tmod priceTick ≠ 0 then false
  else
    decide (price * bps ≥ spot * minAskBps) &&
      decide (price * bps ≤ spot * maxAskBps)

def repriceFloor
    (live : Int) : Int :=
  if live ≤ 0 then 0
  else
    roundUpToTick (ceilDiv (live * (bps - maxRepriceDropBps)) bps)
      priceTick

def stepFloor
    (live : Int) : Int :=
  if live ≤ 0 then 0
  else
    let own :=
      roundUpToTick
        (ceilDiv (live * (bps - pricerMaxStepDropBps)) bps)
        priceTick
    if own > repriceFloor live then own else repriceFloor live

variable {spot p : Int}

theorem le_bandMin_iff
    {minAskBps : Int}
    (hSpot : 0 ≤ spot)
    (hMin : 0 ≤ minAskBps)
    (hp : priceTick ∣ p) :
    bandMin spot minAskBps ≤ p ↔
      0 < p ∧ spot * minAskBps ≤ p * bps := by
  have hScaled : 0 ≤ spot * minAskBps := mul_nonneg hSpot hMin
  have hUp :
      roundUpToTick (ceilDiv (spot * minAskBps) bps) priceTick ≤
          p ↔
        spot * minAskBps ≤ p * bps :=
    Grid.roundUp_ceilDiv_le_iff hScaled bps_pos priceTick_pos hp
  have hTick : priceTick ≤ p ↔ 0 < p := by
    constructor
    · intro h
      exact lt_of_lt_of_le priceTick_pos h
    · exact fun h => Int.le_of_dvd h hp
  unfold bandMin
  dsimp only
  split
  · next hZero =>
      rw [hZero] at hUp
      rw [hTick]
      constructor
      · intro h
        exact ⟨h, hUp.mp (le_of_lt h)⟩
      · exact fun h => h.1
  · next hPos =>
      rw [hUp]
      constructor
      · intro h
        refine ⟨?_, h⟩
        have hLe := hUp.mpr h
        have hNonneg :
            0 ≤
              roundUpToTick (ceilDiv (spot * minAskBps) bps)
                priceTick :=
          mul_nonneg
            (Grid.ceilDiv_nonneg
              (Grid.ceilDiv_nonneg hScaled bps_pos)
              priceTick_pos)
            (le_of_lt priceTick_pos)
        omega
      · exact fun h => h.2

theorem le_bandMax_iff
    {maxAskBps : Int}
    (hSpot : 0 ≤ spot)
    (hMax : 0 ≤ maxAskBps)
    (hp : priceTick ∣ p) :
    p ≤ bandMax spot maxAskBps ↔ p * bps ≤ spot * maxAskBps :=
  Grid.le_roundDown_tdiv_iff (mul_nonneg hSpot hMax) bps_pos
    priceTick_pos hp

theorem dvd_bandMin
    (spot minAskBps : Int) :
    priceTick ∣ bandMin spot minAskBps := by
  unfold bandMin
  dsimp only
  split
  · exact dvd_refl priceTick
  · exact Grid.dvd_roundUp _ _

theorem dvd_bandMax
    (spot maxAskBps : Int) :
    priceTick ∣ bandMax spot maxAskBps :=
  Grid.dvd_roundDown _ _

/-
  A tick lies in the band exactly when it passes the contract's
  own check; and there is no band exactly when no tick does.
-/
theorem priceBand_spec
    {minAskBps maxAskBps : Int}
    (hSpot : 0 < spot)
    (hMin : 0 ≤ minAskBps)
    (hBps : minAskBps ≤ maxAskBps)
    (hp : priceTick ∣ p) :
    (∃ band, priceBand spot minAskBps maxAskBps = some band ∧
        band.min ≤ p ∧ p ≤ band.max) ↔
      0 < p ∧ spot * minAskBps ≤ p * bps ∧
        p * bps ≤ spot * maxAskBps := by
  have hLow := le_bandMin_iff (le_of_lt hSpot) hMin hp
  have hHigh :=
    le_bandMax_iff (le_of_lt hSpot) (hMin.trans hBps) hp
  have hAsked : ¬ (spot ≤ 0 ∨ minAskBps > maxAskBps) := by
    omega
  unfold priceBand
  rw [if_neg hAsked]
  constructor
  · rintro ⟨band, hBand, hFrom, hTo⟩
    split at hBand
    · cases hBand
    · cases hBand
      rcases hLow.mp hFrom with ⟨hPos, hAbove⟩
      exact ⟨hPos, hAbove, hHigh.mp hTo⟩
  · rintro ⟨hPos, hAbove, hBelow⟩
    have hFrom := hLow.mpr ⟨hPos, hAbove⟩
    have hTo := hHigh.mpr hBelow
    rw [if_neg (not_lt.mpr (hFrom.trans hTo))]
    exact ⟨_, rfl, hFrom, hTo⟩

theorem inBand_iff
    {price spot minAskBps maxAskBps : Int} :
    inBand price spot minAskBps maxAskBps = true ↔
      priceTick ∣ price ∧ 0 < price ∧
        spot * minAskBps ≤ price * bps ∧
          price * bps ≤ spot * maxAskBps := by
  unfold inBand
  have hDvd : priceTick ∣ price ↔ price.tmod priceTick = 0 :=
    Int.dvd_iff_tmod_eq_zero
  split
  · next hBad =>
      constructor
      · intro h
        cases h
      · rintro ⟨hTick, hPos, _⟩
        rw [hDvd] at hTick
        rcases hBad with h | h
        · omega
        · exact absurd hTick h
  · next hGood =>
      rw [not_or, not_not] at hGood
      rw [Bool.and_eq_true, decide_eq_true_eq, decide_eq_true_eq]
      constructor
      · rintro ⟨hAbove, hBelow⟩
        exact ⟨hDvd.mpr hGood.2, by omega, hAbove, hBelow⟩
      · exact fun h => h.2.2

/- The contract's bound on the drop of one reprice. -/
theorem repriceFloor_le_iff
    {live : Int}
    (hLive : 0 < live)
    (hp : priceTick ∣ p) :
    repriceFloor live ≤ p ↔
      live * (bps - maxRepriceDropBps) ≤ p * bps := by
  have hKept : 0 ≤ bps - maxRepriceDropBps := by
    decide
  unfold repriceFloor
  rw [if_neg (not_le.mpr hLive)]
  exact
    Grid.roundUp_ceilDiv_le_iff
      (mul_nonneg (le_of_lt hLive) hKept) bps_pos priceTick_pos hp

/- A step of the pricer is one that the contract accepts. -/
theorem repriceFloor_le_stepFloor
    (live : Int) :
    repriceFloor live ≤ stepFloor live := by
  unfold stepFloor
  split
  · next hLive =>
      unfold repriceFloor
      rw [if_pos hLive]
  · dsimp only
    split <;> omega

theorem dvd_repriceFloor
    (live : Int) :
    priceTick ∣ repriceFloor live := by
  unfold repriceFloor
  split
  · exact dvd_zero priceTick
  · exact Grid.dvd_roundUp _ _

theorem dvd_stepFloor
    (live : Int) :
    priceTick ∣ stepFloor live := by
  have hContract := dvd_repriceFloor live
  unfold stepFloor
  dsimp only
  split
  · exact dvd_zero priceTick
  · split
    · exact Grid.dvd_roundUp _ _
    · exact hContract

/- The pricer's own bound is the stricter of the two. -/
theorem stepFloor_le_iff
    {live : Int}
    (hLive : 0 < live)
    (hp : priceTick ∣ p) :
    stepFloor live ≤ p ↔
      live * (bps - pricerMaxStepDropBps) ≤ p * bps := by
  have hOwn :
      roundUpToTick
            (ceilDiv (live * (bps - pricerMaxStepDropBps)) bps)
            priceTick ≤
          p ↔
        live * (bps - pricerMaxStepDropBps) ≤ p * bps :=
    Grid.roundUp_ceilDiv_le_iff
      (mul_nonneg hLive.le (by decide)) bps_pos priceTick_pos hp
  have hContract := repriceFloor_le_iff hLive hp
  have hStricter :
      live * (bps - maxRepriceDropBps) ≤
        live * (bps - pricerMaxStepDropBps) :=
    mul_le_mul_of_nonneg_left (by decide) hLive.le
  unfold stepFloor
  rw [if_neg (not_le.mpr hLive)]
  dsimp only
  split
  · exact hOwn
  · next hLess =>
      constructor
      · intro h
        exact hOwn.mp ((not_lt.mp hLess).trans h)
      · intro h
        exact hContract.mpr (hStricter.trans h)

/- No step goes up. -/
theorem stepFloor_le_live
    {live : Int}
    (hLive : 0 < live)
    (hTick : priceTick ∣ live) :
    stepFloor live ≤ live := by
  rw [stepFloor_le_iff hLive hTick]
  exact mul_le_mul_of_nonneg_left (by decide) hLive.le

/- The band holds exactly the prices that pass the check. -/
theorem inBand_iff_mem_band
    {minAskBps maxAskBps : Int}
    (hSpot : 0 < spot)
    (hMin : 0 ≤ minAskBps)
    (hBps : minAskBps ≤ maxAskBps) :
    inBand p spot minAskBps maxAskBps = true ↔
      priceTick ∣ p ∧
        ∃ band, priceBand spot minAskBps maxAskBps = some band ∧
          band.min ≤ p ∧ p ≤ band.max := by
  rw [inBand_iff]
  constructor
  · rintro ⟨hp, hIn⟩
    exact ⟨hp, (priceBand_spec hSpot hMin hBps hp).mpr hIn⟩
  · rintro ⟨hp, hIn⟩
    exact ⟨hp, (priceBand_spec hSpot hMin hBps hp).mp hIn⟩

----
-- The Target
----

inductive Clamp where
  | floor
  | ceiling
deriving DecidableEq

structure TargetPrice where
  price : Int
  raw : Int
  band : Band
  clamped : Option Clamp
deriving DecidableEq

structure TargetInput where
  fair : Int
  edgeBps : Int
  spot : Int
  minAskBps : Int
  maxAskBps : Int
deriving DecidableEq

def TargetInput.raw
    (input : TargetInput) : Int :=
  let factor := bps + input.edgeBps
  let fair := if input.fair < 0 then 0 else input.fair
  if factor ≤ 0 then 0
  else roundUpToTick (ceilDiv (fair * factor) bps) priceTick

/- None where the band is empty. -/
def targetPrice
    (input : TargetInput) : Option TargetPrice :=
  match priceBand input.spot input.minAskBps input.maxAskBps with
  | none => none
  | some band =>
      if input.raw < band.min then
        some
          { price := band.min
            raw := input.raw
            band := band
            clamped := some .floor }
      else if input.raw > band.max then
        some
          { price := band.max
            raw := input.raw
            band := band
            clamped := some .ceiling }
      else
        some
          { price := input.raw
            raw := input.raw
            band := band
            clamped := none }

theorem TargetInput.dvd_raw
    (input : TargetInput) :
    priceTick ∣ input.raw := by
  unfold TargetInput.raw
  dsimp only
  split
  · exact dvd_zero priceTick
  · exact Grid.dvd_roundUp _ _

variable {band : Band}

theorem priceBand_eq_some
    {minAskBps maxAskBps : Int}
    (h : priceBand spot minAskBps maxAskBps = some band) :
    band.min = bandMin spot minAskBps ∧
      band.max = bandMax spot maxAskBps ∧ band.min ≤ band.max := by
  unfold priceBand at h
  split at h
  · cases h
  · split at h
    · cases h
    · next hOrder =>
        cases h
        exact ⟨rfl, rfl, not_lt.mp hOrder⟩

/- There is a band only where one is asked for. -/
theorem asked_of_priceBand
    {minAskBps maxAskBps : Int}
    (h : priceBand spot minAskBps maxAskBps = some band) :
    0 < spot ∧ minAskBps ≤ maxAskBps := by
  unfold priceBand at h
  split at h
  · cases h
  · next hAsked =>
      omega

/- The target is a tick of its band. -/
theorem targetPrice_spec
    {input : TargetInput}
    {target : TargetPrice}
    (h : targetPrice input = some target) :
    priceBand input.spot input.minAskBps input.maxAskBps =
        some target.band ∧
      priceTick ∣ target.price ∧
      target.band.min ≤ target.price ∧
      target.price ≤ target.band.max := by
  unfold targetPrice at h
  cases hBand :
      priceBand input.spot input.minAskBps input.maxAskBps with
  | none =>
      rw [hBand] at h
      cases h
  | some band =>
      rw [hBand] at h
      rcases priceBand_eq_some hBand with ⟨hLow, hHigh, hOrder⟩
      dsimp only at h
      split at h
      · cases h
        exact ⟨rfl, hLow ▸ dvd_bandMin _ _, le_refl _, hOrder⟩
      · next hFrom =>
          split at h
          · cases h
            exact
              ⟨rfl, hHigh ▸ dvd_bandMax _ _, hOrder, le_refl _⟩
          · next hTo =>
              cases h
              exact
                ⟨rfl, input.dvd_raw, not_lt.mp hFrom,
                  not_lt.mp hTo⟩

theorem targetPrice_isSome
    {input : TargetInput}
    (h :
      priceBand input.spot input.minAskBps input.maxAskBps =
        some band) :
    ∃ target,
      targetPrice input = some target ∧ target.band = band := by
  unfold targetPrice
  rw [h]
  dsimp only
  split
  · exact ⟨_, rfl, rfl⟩
  · split
    · exact ⟨_, rfl, rfl⟩
    · exact ⟨_, rfl, rfl⟩

end Callhouse.Keeper.Pricer
