import Mathlib.Data.List.Sort
import Mathlib.Tactic

/-
  indexer/lib/v2/pnl.ts, integrity.ts, writer.ts and the ranks
  of windows.ts: one holder's totals in one series.

  Main declarations:
    * `buyPosition`, `sellPosition`, `redeemPosition`
    * `closePosition`, `rankTotals`
    * `nearbyVwap`, `assignedValue`
-/

----
-- Position Totals
----

namespace Callhouse.Indexer.Positions

structure PositionTotals where
  unitsBought : Int
  costUsdg : Int
  unitsSold : Int
  proceedsUsdg : Int
  unitsTransferredOut : Int
  unitsRedeemed : Int
  payoutUsdgValue : Int
  realisedUsdg : Int
  multiple : Option String
  multiplePpm : Option Int
  closedAt : Option Int
  selfFill : Bool
  belowMinCost : Bool
  offMarket : Bool
  transferIn : Bool
  transferredOut : Bool
deriving DecidableEq

def emptyPosition : PositionTotals :=
  { unitsBought := 0
    costUsdg := 0
    unitsSold := 0
    proceedsUsdg := 0
    unitsTransferredOut := 0
    unitsRedeemed := 0
    payoutUsdgValue := 0
    realisedUsdg := 0
    multiple := none
    multiplePpm := none
    closedAt := none
    selfFill := false
    belowMinCost := false
    offMarket := false
    transferIn := false
    transferredOut := false }

def padStart
    (width : Nat)
    (digits : String) : String :=
  String.ofList (List.replicate (width - digits.length) '0') ++
    digits

/- The text and the millionths of what the cost came back as. -/
def multipleOf
    (position : PositionTotals) : Option String × Option Int :=
  if position.costUsdg ≤ 0 then (none, none)
  else
    let ppm :=
      ((position.proceedsUsdg + position.payoutUsdgValue) *
        1000000).tdiv position.costUsdg
    (some
        s!"{ppm.tdiv 1000000}.{padStart 6 (toString (ppm.tmod 1000000))}",
      some ppm)

def withMultiple
    (position : PositionTotals) : PositionTotals :=
  { position with
    multiple := (multipleOf position).1
    multiplePpm := (multipleOf position).2 }

def buyPosition
    (position : PositionTotals)
    (units cost : Int)
    (selfFill offMarket : Bool) :
    Except String PositionTotals :=
  if units ≤ 0 ∨ cost < 0 then .error "invalid buy"
  else
    .ok
      (withMultiple
        { position with
          unitsBought := position.unitsBought + units
          costUsdg := position.costUsdg + cost
          selfFill := position.selfFill || selfFill
          offMarket := position.offMarket || offMarket
          closedAt := none })

def sellPosition
    (position : PositionTotals)
    (units proceeds consumedCost : Int)
    (transferIn : Bool) : Except String PositionTotals :=
  if units ≤ 0 ∨ proceeds < 0 ∨ consumedCost < 0 then
    .error "invalid sale"
  else
    .ok
      (withMultiple
        { position with
          unitsSold := position.unitsSold + units
          proceedsUsdg := position.proceedsUsdg + proceeds
          realisedUsdg :=
            position.realisedUsdg + proceeds - consumedCost
          transferIn := position.transferIn || transferIn })

def redeemPosition
    (position : PositionTotals)
    (units payout consumedCost : Int)
    (transferIn : Bool) : Except String PositionTotals :=
  if units ≤ 0 ∨ payout < 0 ∨ consumedCost < 0 then
    .error "invalid redemption"
  else
    .ok
      (withMultiple
        { position with
          unitsRedeemed := position.unitsRedeemed + units
          payoutUsdgValue := position.payoutUsdgValue + payout
          realisedUsdg :=
            position.realisedUsdg + payout - consumedCost
          transferIn := position.transferIn || transferIn })

def transferOutPosition
    (position : PositionTotals)
    (units : Int) : Except String PositionTotals :=
  if units ≤ 0 then .error "invalid transfer quantity"
  else
    .ok
      { position with
        unitsTransferredOut :=
          position.unitsTransferredOut + units
        transferredOut := true }

def markTransferIn
    (position : PositionTotals) : PositionTotals :=
  { position with transferIn := true }

def closePosition
    (position : PositionTotals)
    (at' : Int) : Except String PositionTotals :=
  if at' < 0 then .error "negative close timestamp"
  else
    .ok
      (withMultiple
        { position with
          closedAt := some at'
          belowMinCost := decide (position.costUsdg < 100000) })

def isExcludedFromLeaderboard
    (position : PositionTotals) : Bool :=
  position.selfFill || position.belowMinCost ||
    position.offMarket || position.transferIn ||
    position.transferredOut || decide (position.costUsdg ≤ 0)

----
-- Ranks
----

structure RankPosition where
  id : String
  closedAt : Int
  multiplePpm : Option Int
  realisedUsdg : Int
  excluded : Bool
deriving DecidableEq

structure RankTotals where
  bestMultiplePpm : Int
  absoluteRealisedUsdg : Int
  streak : Int
  wins : Int
  losses : Int
  bestWinId : Option String
deriving DecidableEq

def rankPosition
    (totals : RankTotals)
    (position : RankPosition) : RankTotals :=
  if position.excluded then totals
  else if position.multiplePpm.getD 0 > 1000000 then
    let best := position.multiplePpm.getD 0
    { totals with
      wins := totals.wins + 1
      streak := totals.streak + 1
      bestMultiplePpm :=
        if best > totals.bestMultiplePpm then best
        else totals.bestMultiplePpm
      bestWinId :=
        if best > totals.bestMultiplePpm then some position.id
        else totals.bestWinId
      absoluteRealisedUsdg :=
        if position.realisedUsdg > totals.absoluteRealisedUsdg then
          position.realisedUsdg
        else totals.absoluteRealisedUsdg }
  else
    { totals with
      losses := totals.losses + 1
      streak := 0 }

/- The oldest closes first; `before` is localeCompare. -/
def rankTotals
    (before : String → String → Prop)
    [DecidableRel before]
    (positions : List RankPosition) : RankTotals :=
  (positions.insertionSort
    (fun a b =>
      a.closedAt < b.closedAt ∨
        a.closedAt = b.closedAt ∧ before a.id b.id)).foldl
    rankPosition
    { bestMultiplePpm := 0
      absoluteRealisedUsdg := 0
      streak := 0
      wins := 0
      losses := 0
      bestWinId := none }

----
-- Fair Prices and Writers
----

structure NearbyFill where
  taker : String
  ts : Int
  units : Int
  premium : Int
deriving DecidableEq

/- Other takers' fills within an hour count. -/
def isNearby
    (taker : String)
    (at' : Int)
    (fill : NearbyFill) : Bool :=
  decide (fill.taker.toLower ≠ taker.toLower) &&
    decide
      ((if fill.ts > at' then fill.ts - at' else at' - fill.ts) ≤
        3600) &&
    decide (0 < fill.units)

def nearbyVwap
    (fills : List NearbyFill)
    (taker : String)
    (at' : Int) : Option Int :=
  let counted := fills.filter (isNearby taker at')
  let premium := (counted.map (fun fill => fill.premium)).sum
  let units := (counted.map (fun fill => fill.units)).sum
  if units = 0 then none else some ((premium * 100).tdiv units)

def isOffMarket
    (price : Int)
    (fair : Option Int) : Bool :=
  fair.any (fun fair => fair > 0 && price * 4 < fair)

def collateralValue
    (units strike : Int) : Except String Int :=
  if units < 0 ∨ strike < 0 then
    .error "negative writer collateral"
  else .ok ((units * strike).tdiv 100)

def assignedValue
    (units strike settlementPrice : Int)
    (isPut : Bool)
    (shortPayoutUsdg : Int) : Except String Int :=
  if units < 0 ∨ shortPayoutUsdg < 0 ∨ settlementPrice < 0 then
    .error "negative writer payout"
  else do
    let collateral ←
      collateralValue units
        (if isPut then strike else settlementPrice)
    return if collateral > shortPayoutUsdg then
        collateral - shortPayoutUsdg
      else 0

def primaryPremiumReceived
    (premium sellerFee makerRebate takerFee : Int)
    (sellerIsMaker sellerIsTaker : Bool) : Int :=
  premium - sellerFee +
      (if sellerIsMaker then makerRebate else 0) -
    (if sellerIsTaker then takerFee else 0)

end Callhouse.Indexer.Positions
