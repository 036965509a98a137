import Callhouse.Keeper.MintFee
import Callhouse.Keeper.Mm.Constants
import Callhouse.Lib.Loop
import Callhouse.Lib.OrderedMap

/-
  keeper/src/v2/mm/risk.ts: quote sizes inside the vault's
  guards and the bot's own caps.

  `planSizes` runs one loop over the series in priority
  order.  The loop's variables are the record `Budgets`; its
  body is `sizeSeries`, in three parts: the cap on the series
  (`seriesRoom`), the ask side (`planAsk`) and the bid side
  (`planBid`).
-/

----
-- Inputs and Outputs
----

namespace Callhouse.Keeper.Mm

structure SizeSeries where
  longId : Int
  strike : Int
  longs : Int
  resale : Int
  shorts : Int
  seriesNotional : Int
  collateralAsset : String
  collateralPerUnit : Int
  mintFeePpm : Int
  expiry : Int
  bidPrice : Option Int
  askPrice : Option Int
  writeAllowed : Bool

structure SizeLimits where
  now : Int
  vaultMaxSeriesUnits : Int
  botMaxSeriesUnits : Int
  vaultMaxTotalNotional : Int
  botMaxTotalNotional : Int
  totalNotional : Int
  usdgBudget : Int
  outflowBudget : Int
  freeCollateral : OrderedMap String Int
  writeOversubscribeBps : Option Int
  bidUnits : Int
  askUnits : Int
  maxExpiryNotional : Option Int
  expiryNotional : Option (OrderedMap Int Int)
  expiryNotionalUnread : Option (Finset Int)

def writeOversubscribeBpsExact : Int := 10000

/- Why a size was cut; the greek gate adds the last two later. -/
inductive SizeCap where
  | seriesUnits
  | totalNotional
  | usdg
  | collateral
  | outflow
  | expiryNotional
  | delta
  | gamma
deriving DecidableEq

structure SeriesSizes where
  longId : Int
  bid : Int
  write : Int
  resale : Int
  exposure : Int
  notional : Int
  capped : List SizeCap
deriving DecidableEq

/- `Set.add`: a cap is recorded once, in order of discovery. -/
def addCap
    (capped : List SizeCap)
    (cap : SizeCap) : List SizeCap :=
  if cap ∈ capped then capped else capped ++ [cap]

/- A cap where 0 means none. -/
def combine
    (vault bot : Int) : Int :=
  if bot > 0 then min vault bot else vault

def exposureUnits
    (longs resale shorts bid write resaleOrder : Int) : Int :=
  let totalLongs := longs + resale
  let up := totalLongs + bid - shorts
  let down := shorts + write - (totalLongs - resaleOrder)
  max (max up down) 0

def notionalOf
    (units strike : Int) : Int :=
  (units * strike).tdiv unitsPerShare

/- mm/outflow.ts: the USDG a bid escrows at placement. -/
def bidEscrowOf
    (price units : Int) : Int :=
  (price * units).tdiv unitsPerShare

/- Asset keys are hexadecimal addresses, so ASCII. -/
def toLowerCase
    (asset : String) : String :=
  asset.toLower

def SizeSeries.totalLongs
    (s : SizeSeries) : Int :=
  s.longs + s.resale

def SizeSeries.asset
    (s : SizeSeries) : String :=
  toLowerCase s.collateralAsset

def SizeLimits.seriesCap
    (limits : SizeLimits) : Int :=
  combine limits.vaultMaxSeriesUnits
    limits.botMaxSeriesUnits

def SizeLimits.totalCap
    (limits : SizeLimits) : Int :=
  combine limits.vaultMaxTotalNotional
    limits.botMaxTotalNotional

def SizeLimits.expiryCap
    (limits : SizeLimits) : Int :=
  limits.maxExpiryNotional.getD 0

def SizeLimits.oversubscribe
    (limits : SizeLimits) : Int :=
  limits.writeOversubscribeBps.getD
    writeOversubscribeBpsExact

----
-- The Loop's Budgets
----

/- What the loop runs down or carries from series to series. -/
structure Budgets where
  running : Int
  runningByExpiry : OrderedMap Int Int
  usdgLeft : Int
  outflowLeft : Int
  collateralLeft : OrderedMap String Int

/- The collateral the chain holds, by lower-case asset. -/
def freeActual
    (limits : SizeLimits) : OrderedMap String Int :=
  limits.freeCollateral.entries.foldl
    (fun m entry => m.set (toLowerCase entry.1) entry.2)
    .empty

/- The oversubscribed budget the asks are sized against. -/
def sizingCollateral
    (limits : SizeLimits) : OrderedMap String Int :=
  limits.freeCollateral.entries.foldl
    (fun m entry =>
      m.set (toLowerCase entry.1)
        ((entry.2 * limits.oversubscribe).tdiv
          writeOversubscribeBpsExact))
    .empty

def initialBudgets
    (limits : SizeLimits) : Budgets :=
  { running := limits.totalNotional
    runningByExpiry := limits.expiryNotional.getD .empty
    usdgLeft := limits.usdgBudget
    outflowLeft := max limits.outflowBudget 0
    collateralLeft := sizingCollateral limits }

----
-- One Series
----

/- The stored notional of every other series. -/
def Budgets.others
    (st : Budgets)
    (s : SizeSeries) : Int :=
  st.running - s.seriesNotional

/-
  The stored notional of the expiry's other series; without
  a stored sum the series' own notional stands for it.
-/
def Budgets.expiryOthers
    (st : Budgets)
    (s : SizeSeries) : Int :=
  st.runningByExpiry.getD s.expiry s.seriesNotional -
    s.seriesNotional

variable (limits : SizeLimits)

def byNotional
    (st : Budgets)
    (s : SizeSeries) : Int :=
  let others := st.others s
  let room :=
    if limits.totalCap > others then
      limits.totalCap - others
    else 0
  if s.strike > 0 then
    (room * unitsPerShare).tdiv s.strike
  else 0

/- An expiry whose sum is unread has no room. -/
def expiryRoom
    (st : Budgets)
    (s : SizeSeries) : Int :=
  let unread :=
    match limits.expiryNotionalUnread with
    | none => false
    | some unread => decide (s.expiry ∈ unread)
  if unread = false ∧
      limits.expiryCap > st.expiryOthers s then
    limits.expiryCap - st.expiryOthers s
  else 0

def byExpiry
    (st : Budgets)
    (s : SizeSeries) : Option Int :=
  if limits.expiryCap > 0 then
    some
      (if s.strike > 0 then
        (expiryRoom limits st s * unitsPerShare).tdiv
          s.strike
      else 0)
  else none

/- The tightest cap on the series' exposure, and its name. -/
def seriesRoom
    (st : Budgets)
    (s : SizeSeries) : Int × SizeCap :=
  let cap := min limits.seriesCap (byNotional limits st s)
  let binding :=
    if byNotional limits st s < limits.seriesCap then
      SizeCap.totalNotional
    else SizeCap.seriesUnits
  match byExpiry limits st s with
  | none => (cap, binding)
  | some expiry =>
      if expiry < cap then (expiry, SizeCap.expiryNotional)
      else (cap, binding)

structure AskSide where
  write : Int
  resale : Int
  capped : List SizeCap

/- Cut writes first, then inventory, down to the room. -/
def cutAsk
    (binding : SizeCap)
    (downRoom : Int)
    (ask : AskSide) : AskSide :=
  if ask.write + ask.resale > downRoom then
    let excess := ask.write + ask.resale - downRoom
    let cutWrite := min ask.write excess
    { write := ask.write - cutWrite
      resale := ask.resale - (excess - cutWrite)
      capped := addCap ask.capped binding }
  else ask

/-
  Collateral plus rent: what is left of the sizing budget,
  and never above what one fill finds on chain.
-/
def affordableWrite
    (st : Budgets)
    (s : SizeSeries) : Int :=
  let remaining := remainingLife s.expiry limits.now
  let left := st.collateralLeft.getD s.asset 0
  let single :=
    maxWriteUnits ((freeActual limits).getD s.asset 0)
      s.collateralPerUnit s.mintFeePpm remaining
  min
    (maxWriteUnits left s.collateralPerUnit s.mintFeePpm
      remaining)
    single

/- What the book takes for one fill of the series' write ask. -/
def writeNeed
    (s : SizeSeries)
    (write : Int) : Int :=
  collateralNeeded write s.collateralPerUnit s.mintFeePpm
    (remainingLife s.expiry limits.now)

def fundWrite
    (st : Budgets)
    (s : SizeSeries)
    (ask : AskSide) :
    AskSide × OrderedMap String Int :=
  if ask.write > 0 ∧ s.collateralPerUnit > 0 then
    let affordable := affordableWrite limits st s
    let left := st.collateralLeft.getD s.asset 0
    let funded :=
      if affordable < ask.write then
        { ask with
          write := affordable
          capped := addCap ask.capped .collateral }
      else ask
    (funded,
      st.collateralLeft.set s.asset
        (left - writeNeed limits s funded.write))
  else if ask.write > 0 then
    ({ ask with
        write := 0
        capped := addCap ask.capped .collateral },
      st.collateralLeft)
  else (ask, st.collateralLeft)

/- The ask wanted before any cap: inventory, then writes. -/
def wantedAsk
    (s : SizeSeries) : AskSide :=
  let resale := min limits.askUnits s.totalLongs
  { write :=
      if s.writeAllowed then limits.askUnits - resale else 0
    resale := resale
    capped := [] }

def planAsk
    (st : Budgets)
    (s : SizeSeries) :
    AskSide × OrderedMap String Int :=
  let room := seriesRoom limits st s
  if s.askPrice.isSome ∧ limits.askUnits > 0 then
    let downRoom := max (room.1 + s.totalLongs - s.shorts) 0
    fundWrite limits st s
      (cutAsk room.2 downRoom (wantedAsk limits s))
  else
    ({ write := 0, resale := 0, capped := [] },
      st.collateralLeft)

/- Lower a bid to a bound, naming the bound when it binds. -/
def cutBid
    (cap : SizeCap)
    (bound : Int)
    (bid : Int × List SizeCap) : Int × List SizeCap :=
  if bound < bid.1 then (bound, addCap bid.2 cap) else bid

def planBid
    (st : Budgets)
    (s : SizeSeries)
    (capped : List SizeCap) : Int × List SizeCap :=
  let room := seriesRoom limits st s
  match s.bidPrice with
  | none => (0, capped)
  | some bidPrice =>
      if bidPrice > 0 ∧ limits.bidUnits > 0 then
        let upRoom :=
          max (room.1 + s.shorts - s.totalLongs) 0
        let affordable :=
          (st.usdgLeft * unitsPerShare).tdiv bidPrice
        let withinOutflow :=
          (st.outflowLeft * unitsPerShare).tdiv bidPrice
        cutBid .outflow withinOutflow
          (cutBid .usdg affordable
            (cutBid room.2 upRoom (limits.bidUnits, capped)))
      else (0, capped)

/- The escrow a planned bid charges to both USDG budgets. -/
def bidEscrow
    (s : SizeSeries)
    (bid : Int) : Int :=
  bidEscrowOf (s.bidPrice.getD 0) bid

/- The loop body: size one series and run the budgets down. -/
def sizeSeries
    (st : Budgets)
    (s : SizeSeries) : SeriesSizes × Budgets :=
  let ask := planAsk limits st s
  let bid := planBid limits st s ask.1.capped
  let exposure :=
    exposureUnits s.longs s.resale s.shorts bid.1
      ask.1.write ask.1.resale
  let notional := notionalOf exposure s.strike
  ({ longId := s.longId
     bid := bid.1
     write := ask.1.write
     resale := ask.1.resale
     exposure := exposure
     notional := notional
     capped := bid.2 },
    { running := st.others s + notional
      runningByExpiry :=
        st.runningByExpiry.set s.expiry
          (st.expiryOthers s + notional)
      usdgLeft := st.usdgLeft - bidEscrow s bid.1
      outflowLeft := st.outflowLeft - bidEscrow s bid.1
      collateralLeft := ask.2 })

----
-- The Whole Plan
----

/- Sizes for every series, in the given (priority) order. -/
def planSizes
    (series : List SizeSeries)
    (limits : SizeLimits) : List SeriesSizes :=
  (Loop.run (sizeSeries limits) (initialBudgets limits)
    series).1

/- The budgets once the first `i` series are sized. -/
def budgetsAt
    (series : List SizeSeries)
    (limits : SizeLimits)
    (i : Nat) : Budgets :=
  Loop.stateAt (sizeSeries limits) (initialBudgets limits)
    series i

end Callhouse.Keeper.Mm
