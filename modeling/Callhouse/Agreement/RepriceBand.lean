import Callhouse.Keeper.Pricer.Planner
import Callhouse.Indexer.AutoRoller
import Callhouse.Web.SmartPricing

/-
  The pricer, the indexer and the app agree on the prices that
  AutoRoller.reprice accepts.

  Main declarations:
    * `InRates`, `Accepts`
    * `RepriceAgreement`
    * `reprice_prices_agree`
-/

----
-- The Contract's Rule
----

namespace Callhouse.Agreement

open Keeper.Pricer (Band priceTick)

/- A strategy that the indexer admits. -/
structure Admitted
    (strategy : Indexer.AutoRoller.StrategyTerms) : Prop where
  active : strategy.active = true
  smartPricing : strategy.smartPricing = true
  floor : 50 ≤ strategy.minAskBps
  low : strategy.minAskBps ≤ strategy.askBps
  high : strategy.askBps ≤ strategy.maxAskBps
  ceiling : strategy.maxAskBps ≤ 1000

/- The price is inside the strategy's rates of the spot. -/
structure InRates
    (strategy : Indexer.AutoRoller.StrategyTerms)
    (spot p : Int) : Prop where
  pos : 0 < p
  low : p * 10000 ≥ spot * strategy.minAskBps
  high : p * 10000 ≤ spot * strategy.maxAskBps

/- What one reprice of a live ask may set. -/
structure Accepts
    (strategy : Indexer.AutoRoller.StrategyTerms)
    (spot live p : Int) : Prop where
  rates : InRates strategy spot p
  drop : p * 10000 ≥ live * (10000 - 2500)

def indexerPair
    (band : Indexer.AutoRoller.PriceBand) : Band :=
  { min := band.min
    max := band.max }

def appPair
    (prices : Web.SmartPricing.SmartPricingPrices) : Band :=
  { min := prices.min
    max := prices.max }

def appBps
    (strategy : Indexer.AutoRoller.StrategyTerms) :
    Web.SmartPricing.StrategyBps :=
  { askBps := strategy.askBps
    minAskBps := strategy.minAskBps
    maxAskBps := strategy.maxAskBps }

variable {strategy : Indexer.AutoRoller.StrategyTerms}
variable {spot live p : Int}

section

variable (h : Admitted strategy)
include h

/- With a positive rate no band starts at zero. -/
theorem Admitted.bandMin_pos
    (hSpot : 0 < spot) :
    0 <
      Grid.roundUp priceTick
        (Grid.ceilDiv (spot * strategy.minAskBps)
          Keeper.Pricer.bps) := by
  have hFloor := h.floor
  have hScaled : 0 < spot * strategy.minAskBps :=
    mul_pos hSpot (by omega)
  by_contra hNot
  have hZero :=
    (Grid.roundUp_ceilDiv_le_iff (le_of_lt hScaled)
      Keeper.Pricer.bps_pos Keeper.Pricer.priceTick_pos
      (dvd_zero priceTick)).mp (not_lt.mp hNot)
  omega

theorem Admitted.priceBand_eq
    (hSpot : 0 < spot) :
    Keeper.Pricer.priceBand spot strategy.minAskBps
        strategy.maxAskBps =
      let min :=
        Grid.roundUp priceTick
          (Grid.ceilDiv (spot * strategy.minAskBps)
            Keeper.Pricer.bps)
      let max :=
        Grid.roundDown priceTick
          ((spot * strategy.maxAskBps).tdiv Keeper.Pricer.bps)
      if min > max then none
      else some { min := min, max := max } := by
  have hPos := h.bandMin_pos hSpot
  have hMin :
      Keeper.Pricer.bandMin spot strategy.minAskBps =
        Grid.roundUp priceTick
          (Grid.ceilDiv (spot * strategy.minAskBps)
            Keeper.Pricer.bps) := by
    unfold Keeper.Pricer.bandMin
    exact if_neg (ne_of_gt hPos)
  have hLow := h.low
  have hHigh := h.high
  unfold Keeper.Pricer.priceBand
  rw [if_neg (by omega), hMin]
  rfl

theorem Admitted.strategyPriceBand_eq
    (hSpot : 0 < spot) :
    (Indexer.AutoRoller.strategyPriceBand spot strategy).map
        indexerPair =
      Keeper.Pricer.priceBand spot strategy.minAskBps
        strategy.maxAskBps := by
  have hAsked :
      ¬ Indexer.AutoRoller.StrategyTerms.Refused strategy
          spot := by
    unfold Indexer.AutoRoller.StrategyTerms.Refused
    rw [h.active, h.smartPricing]
    rintro (h' | h' | h' | h' | h' | h' | h')
    · cases h'
    · cases h'
    · omega
    · exact absurd h.floor (not_le.mpr h')
    · exact absurd h.ceiling (not_le.mpr h')
    · exact absurd h.low (not_le.mpr h')
    · exact absurd h.high (not_le.mpr h')
  rw [h.priceBand_eq hSpot]
  unfold Indexer.AutoRoller.strategyPriceBand
  rw [if_neg hAsked]
  have hPos := h.bandMin_pos hSpot
  change
    Option.map indexerPair
        (if Grid.roundUp priceTick
              (Grid.ceilDiv (spot * strategy.minAskBps)
                Keeper.Pricer.bps) > 0 ∧
            Grid.roundUp priceTick
                (Grid.ceilDiv (spot * strategy.minAskBps)
                  Keeper.Pricer.bps) ≤
              Grid.roundDown priceTick
                ((spot * strategy.maxAskBps).tdiv
                  Keeper.Pricer.bps) then
          some
            { min :=
                Grid.roundUp priceTick
                  (Grid.ceilDiv (spot * strategy.minAskBps)
                    Keeper.Pricer.bps)
              max :=
                Grid.roundDown priceTick
                  ((spot * strategy.maxAskBps).tdiv
                    Keeper.Pricer.bps) }
        else none) = _
  dsimp only
  split
  · next hIn =>
      rw [if_neg (not_lt.mpr hIn.2)]
      rfl
  · next hOut =>
      rw [if_pos (not_le.mp (fun hLe => hOut ⟨hPos, hLe⟩))]
      rfl

theorem Admitted.smartPricingPrices_eq
    (hSpot : 0 < spot) :
    (Web.SmartPricing.smartPricingPrices spot
        (appBps strategy)).map appPair =
      Keeper.Pricer.priceBand spot strategy.minAskBps
        strategy.maxAskBps := by
  have hAsked : ¬ (appBps strategy).Refused spot := by
    unfold Web.SmartPricing.StrategyBps.Refused
    rintro (h' | h' | h' | h' | h')
    · omega
    · exact absurd h.floor (not_le.mpr h')
    · exact absurd h.ceiling (not_le.mpr h')
    · exact absurd h.low (not_le.mpr h')
    · exact absurd h.high (not_le.mpr h')
  rw [h.priceBand_eq hSpot]
  unfold Web.SmartPricing.smartPricingPrices
  rw [if_neg hAsked]
  have hPos := h.bandMin_pos hSpot
  change
    Option.map appPair
        (if Grid.roundUp priceTick
              (Grid.ceilDiv (spot * strategy.minAskBps)
                Keeper.Pricer.bps) ≤ 0 ∨
            Grid.roundUp priceTick
                (Grid.ceilDiv (spot * strategy.minAskBps)
                  Keeper.Pricer.bps) >
              Grid.roundDown priceTick
                ((spot * strategy.maxAskBps).tdiv
                  Keeper.Pricer.bps) then none
        else
          some
            { start :=
                Web.SmartPricing.autoRollStartPrice spot
                  strategy.askBps
              min :=
                Grid.roundUp priceTick
                  (Grid.ceilDiv (spot * strategy.minAskBps)
                    Keeper.Pricer.bps)
              max :=
                Grid.roundDown priceTick
                  ((spot * strategy.maxAskBps).tdiv
                    Keeper.Pricer.bps) }) = _
  dsimp only
  split
  · next hOut =>
      rw [if_pos (hOut.resolve_left (not_le.mpr hPos))]
      rfl
  · next hIn =>
      rw [not_or] at hIn
      rw [if_neg hIn.2]
      rfl

end

theorem repriceFloor_eq
    (hLive : 0 < live) :
    Keeper.Pricer.repriceFloor live =
      Indexer.AutoRoller.repriceDropFloor live := by
  unfold Keeper.Pricer.repriceFloor
  rw [if_neg (not_le.mpr hLive)]
  rfl

theorem inRates_iff_band
    (h : Admitted strategy)
    (hSpot : 0 < spot)
    (hp : priceTick ∣ p) :
    (∃ band,
        Keeper.Pricer.priceBand spot strategy.minAskBps
            strategy.maxAskBps =
          some band ∧ band.min ≤ p ∧ p ≤ band.max) ↔
      InRates strategy spot p := by
  have hFloor := h.floor
  have hLow := h.low
  have hHigh := h.high
  rw [Keeper.Pricer.priceBand_spec hSpot (by omega) (by omega) hp]
  exact
    ⟨fun hIn => ⟨hIn.1, hIn.2.1, hIn.2.2⟩,
      fun hIn => ⟨hIn.pos, hIn.low, hIn.high⟩⟩

/-
  One band in the three packages, one drop floor in the two,
  and together they are the contract's rule.
-/
structure RepriceAgreement
    (strategy : Indexer.AutoRoller.StrategyTerms)
    (spot live : Int) : Prop where
  indexer :
    (Indexer.AutoRoller.strategyPriceBand spot strategy).map
        indexerPair =
      Keeper.Pricer.priceBand spot strategy.minAskBps
        strategy.maxAskBps
  app :
    (Web.SmartPricing.smartPricingPrices spot
        (appBps strategy)).map appPair =
      Keeper.Pricer.priceBand spot strategy.minAskBps
        strategy.maxAskBps
  floor :
    Keeper.Pricer.repriceFloor live =
      Indexer.AutoRoller.repriceDropFloor live
  accepted :
    ∀ p, priceTick ∣ p →
      ((∃ band,
          Keeper.Pricer.priceBand spot strategy.minAskBps
              strategy.maxAskBps =
            some band ∧
          max band.min (Keeper.Pricer.repriceFloor live) ≤ p ∧
            p ≤ band.max) ↔
        Accepts strategy spot live p)
  inBand :
    ∀ p, priceTick ∣ p →
      (Keeper.Pricer.inBand p spot strategy.minAskBps
            strategy.maxAskBps =
          true ↔
        InRates strategy spot p)

theorem reprice_prices_agree
    (spot live : Int)
    (strategy : Indexer.AutoRoller.StrategyTerms)
    (hSpot : 0 < spot)
    (hLive : 0 < live)
    (hAdmitted : Admitted strategy) :
    RepriceAgreement strategy spot live where
  indexer := hAdmitted.strategyPriceBand_eq hSpot
  app := hAdmitted.smartPricingPrices_eq hSpot
  floor := repriceFloor_eq hLive
  accepted := by
    intro p hp
    have hRates := inRates_iff_band hAdmitted hSpot hp
    have hDrop := Keeper.Pricer.repriceFloor_le_iff hLive hp
    constructor
    · rintro ⟨band, hBand, hFrom, hTo⟩
      rw [max_le_iff] at hFrom
      exact
        ⟨hRates.mp ⟨band, hBand, hFrom.1, hTo⟩,
          hDrop.mp hFrom.2⟩
    · intro h
      rcases hRates.mpr h.rates with ⟨band, hBand, hFrom, hTo⟩
      exact ⟨band, hBand, max_le hFrom (hDrop.mpr h.drop), hTo⟩
  inBand := by
    intro p hp
    rw [Keeper.Pricer.inBand_iff]
    constructor
    · rintro ⟨_, hPos, hLow, hHigh⟩
      exact ⟨hPos, hLow, hHigh⟩
    · intro h
      exact ⟨hp, h.pos, h.low, h.high⟩

def midStrategy : Indexer.AutoRoller.StrategyTerms :=
  { active := true
    smartPricing := true
    askBps := 200
    minAskBps := 50
    maxAskBps := 800 }

theorem midStrategy_prices_agree :
    RepriceAgreement midStrategy 230000000 4600000 :=
  reprice_prices_agree 230000000 4600000 midStrategy
    (by decide) (by decide)
    { active := rfl
      smartPricing := rfl
      floor := by decide
      low := by decide
      high := by decide
      ceiling := by decide }

end Callhouse.Agreement
