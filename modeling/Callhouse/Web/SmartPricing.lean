import Callhouse.Lib.Grid

/-
  web/lib/v2/smartPricing.ts: the prices that a strategy's
  rates stand for at a spot.

  Main declarations:
    * `strategyPriceAtBps`
    * `smartPricingPrices`
-/

----
-- Strategy Prices
----

namespace Callhouse.Web.SmartPricing

def bps : Int := 10000

def priceTick : Int := 100

def minAskBps : Int := 50

def maxAskBps : Int := 1000

def ceilDiv
    (value divisor : Int) : Int :=
  (value + divisor - 1).tdiv divisor

def roundUpToTick
    (value : Int) : Int :=
  ceilDiv value priceTick * priceTick

def roundDownToTick
    (value : Int) : Int :=
  value.tdiv priceTick * priceTick

inductive StrategyPriceField where
  | start
  | minimum
  | maximum
deriving DecidableEq

def strategyPriceAtBps
    (spot rate : Int)
    (field : StrategyPriceField) : Option Int :=
  if spot ≤ 0 ∨ rate < minAskBps ∨ rate > maxAskBps then none
  else if field = .maximum then
    some (roundDownToTick ((spot * rate).tdiv bps))
  else some (roundUpToTick (ceilDiv (spot * rate) bps))

def autoRollStartPrice
    (spot askBps : Int) : Option Int :=
  strategyPriceAtBps spot askBps .start

structure StrategyBps where
  askBps : Int
  minAskBps : Int
  maxAskBps : Int
deriving DecidableEq

structure SmartPricingPrices where
  start : Option Int
  min : Int
  max : Int
deriving DecidableEq

def StrategyBps.Refused
    (strategy : StrategyBps)
    (spot : Int) : Prop :=
  spot ≤ 0 ∨ strategy.minAskBps < SmartPricing.minAskBps ∨
    strategy.maxAskBps > SmartPricing.maxAskBps ∨
      strategy.minAskBps > strategy.askBps ∨
        strategy.askBps > strategy.maxAskBps

instance
    (strategy : StrategyBps)
    (spot : Int) : Decidable (strategy.Refused spot) := by
  unfold StrategyBps.Refused
  infer_instance

def smartPricingPrices
    (spot : Int)
    (strategy : StrategyBps) : Option SmartPricingPrices :=
  if strategy.Refused spot then none
  else
    let min :=
      roundUpToTick (ceilDiv (spot * strategy.minAskBps) bps)
    let max :=
      roundDownToTick ((spot * strategy.maxAskBps).tdiv bps)
    if min ≤ 0 ∨ min > max then none
    else
      some
        { start := autoRollStartPrice spot strategy.askBps
          min := min
          max := max }

end Callhouse.Web.SmartPricing
