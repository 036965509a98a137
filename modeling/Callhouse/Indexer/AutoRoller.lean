import Callhouse.Lib.Grid
import Callhouse.Keeper.Mm.Constants

/-
  indexer/lib/v2/autoRoller.ts: the prices AutoRoller.reprice
  accepts for a strategy, and for a position whose ask the
  index still tracks.

  Main declarations:
    * `strategyPriceBand`, `repriceDropFloor`
    * `eligibleStrategyPriceBand`
    * `eligibleStrategyPriceBand_spec`
-/

----
-- Strategies
----

namespace Callhouse.Indexer.AutoRoller

section

open Keeper.Mm (OrderKindName lc)

def bps : Int := 10000

def priceTick : Int := 100

def minAskBps : Int := 50

def maxAskBps : Int := 1000

def maxRepriceDropBps : Int := 2500

/- The terms the band reads. -/
structure StrategyTerms where
  active : Bool
  smartPricing : Bool
  askBps : Int
  minAskBps : Int
  maxAskBps : Int
deriving DecidableEq

structure PriceBand where
  min : Int
  max : Int
deriving DecidableEq

def ceilDiv
    (value divisor : Int) : Int :=
  (value + divisor - 1).tdiv divisor

/- The strategy refusals, before the band is computed. -/
def StrategyTerms.Refused
    (strategy : StrategyTerms)
    (spot : Int) : Prop :=
  strategy.active = false ∨ strategy.smartPricing = false ∨
    spot ≤ 0 ∨ strategy.minAskBps < AutoRoller.minAskBps ∨
      strategy.maxAskBps > AutoRoller.maxAskBps ∨
        strategy.minAskBps > strategy.askBps ∨
          strategy.askBps > strategy.maxAskBps

instance
    (strategy : StrategyTerms)
    (spot : Int) : Decidable (strategy.Refused spot) := by
  unfold StrategyTerms.Refused
  infer_instance

def strategyPriceBand
    (spot : Int)
    (strategy : StrategyTerms) : Option PriceBand :=
  if strategy.Refused spot then none
  else
    let min :=
      ceilDiv (ceilDiv (spot * strategy.minAskBps) bps) priceTick *
        priceTick
    let max :=
      ((spot * strategy.maxAskBps).tdiv bps).tdiv priceTick *
        priceTick
    if min > 0 ∧ min ≤ max then some { min := min, max := max }
    else none

def repriceDropFloor
    (current : Int) : Int :=
  ceilDiv (ceilDiv (current * (bps - maxRepriceDropBps)) bps)
      priceTick *
    priceTick

end

----
-- Positions
----

open Keeper.Mm (OrderKindName lc)

inductive OrderStatus where
  | opened
  | other
deriving DecidableEq

structure IndexedAutoRollerOrder where
  orderId : Int
  maker : String
  longId : Int
  kind : OrderKindName
  status : OrderStatus
  price : Int
  units : Int
  filled : Int
  validUntil : Int
deriving DecidableEq

structure IndexedAutoRollerSeries where
  longId : Int
  isPut : Bool
  strike : Int
deriving DecidableEq

structure EligibleInput where
  writer : String
  strategy : StrategyTerms
  currentLongId : Option Int
  orderId : Option Int
  order : Option IndexedAutoRollerOrder
  series : Option IndexedAutoRollerSeries
  spot : Option Int
  tradingPaused : Bool
  delegateApproved : Bool
  now : Int
deriving DecidableEq

/- The tracked ask, where it is live. -/
def trackedAutoRollerAskLive
    (input : EligibleInput) : Option IndexedAutoRollerOrder :=
  match input.currentLongId, input.orderId, input.order with
  | some longId, some orderId, some order =>
      if longId > 0 ∧ orderId > 0 ∧ order.orderId = orderId ∧
          order.longId = longId ∧
          lc order.maker = lc input.writer ∧
          order.kind = .AskWrite ∧ order.status = .opened ∧
          order.filled < order.units ∧
          input.now < order.validUntil then some order
      else none
  | _, _, _ => none

def overtaken
    (series : IndexedAutoRollerSeries)
    (spot : Int) : Bool :=
  if series.isPut = true then decide (spot ≤ series.strike)
  else decide (spot ≥ series.strike)

def eligibleStrategyPriceBand
    (input : EligibleInput) : Option PriceBand :=
  if input.tradingPaused = true ∨ input.delegateApproved = false
      then none
  else
    match input.spot, input.series, trackedAutoRollerAskLive input
      with
    | some spot, some series, some order =>
        if some series.longId ≠ input.currentLongId then none
        else if overtaken series spot = true then none
        else
          match strategyPriceBand spot input.strategy with
          | none => none
          | some band =>
              let floor := repriceDropFloor order.price
              let min := if band.min > floor then band.min else floor
              if min ≤ band.max then
                some { min := min, max := band.max }
              else none
    | _, _, _ => none

/-
  Where the position is eligible, its interval is the band's
  prices that are not below the drop floor of its ask.
-/
theorem eligibleStrategyPriceBand_spec
    {input : EligibleInput}
    {interval : PriceBand}
    (h : eligibleStrategyPriceBand input = some interval) :
    ∃ spot order band,
      input.spot = some spot ∧ input.order = some order ∧
        strategyPriceBand spot input.strategy = some band ∧
          interval.min =
              max band.min (repriceDropFloor order.price) ∧
            interval.max = band.max ∧
              interval.min ≤ interval.max := by
  unfold eligibleStrategyPriceBand at h
  split at h
  · cases h
  · split at h
    · next spot series order hSpot hSeries hLive =>
        have hOrder : input.order = some order := by
          unfold trackedAutoRollerAskLive at hLive
          split at hLive
          · next hSome =>
              split at hLive
              · cases hLive
                exact hSome
              · cases hLive
          · cases hLive
        split at h
        · cases h
        · split at h
          · cases h
          · cases hBand :
                strategyPriceBand spot input.strategy with
            | none =>
                rw [hBand] at h
                cases h
            | some band =>
                rw [hBand] at h
                dsimp only at h
                have hMax :
                    (if band.min > repriceDropFloor order.price
                        then band.min
                      else repriceDropFloor order.price) =
                      max band.min
                        (repriceDropFloor order.price) := by
                  rw [max_def]
                  split <;> split <;> omega
                rw [hMax] at h
                split at h
                · next hLe =>
                    cases h
                    exact
                      ⟨spot, order, band, hSpot, hOrder, hBand,
                        rfl, rfl, hLe⟩
                · cases h
    · cases h

end Callhouse.Indexer.AutoRoller
