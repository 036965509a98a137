import Callhouse.Indexer.Positions
import Callhouse.Indexer.Reconcile
import Callhouse.Indexer.SelfTrade

/-
  indexer/src/v2/pnl.ts and pnlInput.ts: the PnL clock.  A tick
  books the logs of its blocks in log order, measures the
  self-traded units and moves the cursor; a tick that would
  change nothing moves the cursor only.

  A table is its rows in some order.  The window starts come
  from the time zone data, and a spot from the series' oracle;
  a tick that throws writes nothing.

  Main declarations:
    * `Inputs`, `Ledger`, `Stored`
    * `handleFill`, `handleItem`, `updateSelfTrade`
    * `fullTick`, `pnlTick`
-/

----
-- What the Handlers Write
----

namespace Callhouse.Indexer.PnlClock

section

open Reconcile SelfTrade

structure TransferRow where
  id : String
  tx : String
  longId : Int
  sender : String
  recipient : String
  units : Int
  block : Int
  logIndex : Int
  ts : Int
deriving DecidableEq

structure FillRow where
  id : String
  tx : String
  longId : Int
  maker : String
  taker : String
  recipient : String
  buyer : String
  seller : String
  units : Int
  price : Int
  premium : Int
  sellerFee : Int
  makerRebate : Int
  primary : Bool
  takerIsBuyer : Bool
  block : Int
  logIndex : Int
  ts : Int
deriving DecidableEq

structure TakeRow where
  call : TakenCall
  block : Int
deriving DecidableEq

structure MintRow where
  id : String
  tx : String
  longId : Int
  writer : String
  longTo : String
  units : Int
  block : Int
  logIndex : Int
  ts : Int
deriving DecidableEq

structure CloseRow where
  id : String
  tx : String
  longId : Int
  account : String
  units : Int
  block : Int
  logIndex : Int
  ts : Int
deriving DecidableEq

inductive Side where
  | long
  | short
deriving DecidableEq

structure RedemptionRow where
  id : String
  tx : String
  longId : Int
  holder : String
  side : Side
  units : Int
  asset : String
  amount : Int
  block : Int
  logIndex : Int
  ts : Int
deriving DecidableEq

structure CashFlowRow where
  account : String
  actor : String
  block : Int
deriving DecidableEq

/- A link map's entries: an address, and whether it is enabled. -/
structure AccountRow where
  account : String
  operators : List (String × Bool)
  approvals : List (String × Bool)
  delegates : List (String × Bool)
deriving DecidableEq

structure SeriesRow where
  longId : Int
  oracle : String
  underlying : String
  expiry : Int
  strike : Int
  isPut : Bool
  settlementPrice : Option Int
deriving DecidableEq

/- The tables that the clock reads. -/
structure Inputs where
  transfers : List TransferRow
  fills : List FillRow
  takes : List TakeRow
  mints : List MintRow
  closes : List CloseRow
  redemptions : List RedemptionRow
  cashFlows : List CashFlowRow
  accounts : List AccountRow
  series : List SeriesRow

def Inputs.findSeries
    (inputs : Inputs)
    (longId : Int) : Option SeriesRow :=
  inputs.series.find? (fun row => row.longId = longId)

def TransferRow.indexed
    (row : TransferRow) : IndexedTransfer :=
  { id := row.id
    tx := row.tx
    longId := row.longId
    sender := row.sender
    recipient := row.recipient
    units := row.units
    logIndex := row.logIndex }

def FillRow.indexed
    (row : FillRow) : IndexedFill :=
  { id := row.id
    tx := row.tx
    longId := row.longId
    buyer := row.buyer
    seller := row.seller
    takerIsBuyer := row.takerIsBuyer
    units := row.units
    logIndex := row.logIndex
    primary := row.primary }

def FillRow.feeFill
    (row : FillRow) : FeeFill :=
  { id := row.id
    tx := row.tx
    longId := row.longId
    taker := row.taker
    takerIsBuyer := row.takerIsBuyer
    units := row.units
    premium := row.premium
    logIndex := row.logIndex }

def MintRow.indexed
    (row : MintRow) : IndexedMint :=
  { id := row.id
    tx := row.tx
    longId := row.longId
    longTo := row.longTo
    units := row.units
    logIndex := row.logIndex }

def CloseRow.exit
    (row : CloseRow) : IndexedExit :=
  { id := row.id
    tx := row.tx
    longId := row.longId
    holder := row.account
    units := row.units
    logIndex := row.logIndex }

def RedemptionRow.exit
    (row : RedemptionRow) : IndexedExit :=
  { id := row.id
    tx := row.tx
    longId := row.longId
    holder := row.holder
    units := row.units
    logIndex := row.logIndex }

end

----
-- What the Clock Writes
----

section

open SelfTrade

def address
    (value : String) : String :=
  value.toLower

structure PositionRow where
  totals : Positions.PositionTotals
  spotAtEntry : Option Int
  closedTx : Option String
deriving DecidableEq

def emptyRow : PositionRow :=
  { totals := Positions.emptyPosition
    spotAtEntry := none
    closedTx := none }

structure LotRow where
  longId : Int
  holder : String
  seq : Nat
  units : Int
  unitsRemaining : Int
  costUsdg : Int
  costRemainingUsdg : Int
  acquiredAt : Int
  source : Fifo.LotSource
  sourceId : String
deriving DecidableEq

def LotRow.view
    (lot : LotRow) : Fifo.CostLot :=
  { unitsRemaining := lot.unitsRemaining
    costRemainingUsdg := lot.costRemainingUsdg
    source := lot.source }

inductive Window where
  | week
  | month
  | all
deriving DecidableEq

structure WriterStats where
  premiumUsdg : Int
  collateralUsdg : Int
  assignedUsdg : Int
  realisedYieldUsdg : Int
  updatedAt : Int
deriving DecidableEq

structure LeaderboardRow where
  totals : Positions.RankTotals
  updatedAt : Int
deriving DecidableEq

/- The rank columns of an account. -/
structure AccountRanks where
  wins : Int
  losses : Int
  streak : Int
  bestStreak : Int
  realisedUsdg : Int
deriving DecidableEq

/- What the loop over the logs writes. -/
structure Ledger where
  positions : OrderedMap (Int × String) PositionRow
  lots : List LotRow
  fairAtFill : OrderedMap String Int
  fillDeltas : OrderedMap String Int
  closeDeltas : OrderedMap String Int
  redemptionDeltas : OrderedMap String Int
  writerStats : OrderedMap (Window × Int × String) WriterStats
  seriesPremiums : OrderedMap (Int × String) Int
  leaderboard :
    OrderedMap (Window × Int × String) LeaderboardRow
  ranks : OrderedMap String AccountRanks

structure StoredMaker where
  units : Int
  updatedAt : Int
  updatedBlock : Int
deriving DecidableEq

structure StoredUnseen where
  units : Int
  fills : Int
  updatedAt : Int
  updatedBlock : Int
deriving DecidableEq

structure SelfTradeTables where
  links : OrderedMap (String × String) SelfTradeLink
  lots : OrderedMap String SelfTradeLot
  makers : OrderedMap String StoredMaker
  unseen : OrderedMap SelfTradeUnseenReason StoredUnseen

structure PnlInput where
  block : Int
  nextLotExpiry : Option Int
deriving DecidableEq

structure Stored where
  ledger : Ledger
  selfTrade : SelfTradeTables
  cursor : Option Int
  input : Option PnlInput

structure WindowStarts where
  week : Int
  month : Int
deriving DecidableEq

/- The deployment, the time zone data and the chain's oracles. -/
structure Env where
  orderBook : String
  usdg : String
  startBlock : Int
  protocolAddresses : List (Option String)
  locale : SelfTrade.Locale
  windowStarts : Int → WindowStarts
  trySpot : String → String → Int → Bool × Int

end

----
-- Lots and Positions
----

section

open Reconcile SelfTrade

variable (ledger : Ledger)

/- The row of a holder, or the one that is inserted for it. -/
def Ledger.position
    (longId : Int)
    (holder : String) : PositionRow :=
  ledger.positions.getD (longId, address holder) emptyRow

def Ledger.setPosition
    (longId : Int)
    (holder : String)
    (row : PositionRow) : Ledger :=
  { ledger with
    positions :=
      ledger.positions.set (longId, address holder) row }

def Ledger.savePosition
    (longId : Int)
    (holder : String)
    (totals : Positions.PositionTotals) : Ledger :=
  ledger.setPosition longId holder
    { ledger.position longId holder with totals := totals }

def LotRow.isOf
    (longId : Int)
    (holder : String)
    (lot : LotRow) : Bool :=
  decide (lot.longId = longId) &&
    decide (lot.holder = address holder)

/- One past the last of the holder's lots of the series. -/
def nextSeq
    (lots : List LotRow)
    (longId : Int)
    (holder : String) : Nat :=
  match
    ((lots.filter (LotRow.isOf longId holder)).insertionSort
      (fun a b => a.seq ≤ b.seq)).getLast?
  with
  | none => 0
  | some previous => previous.seq + 1

def addLot
    (longId : Int)
    (holder : String)
    (units cost : Int)
    (source : Fifo.LotSource)
    (sourceId : String)
    (at' : Int) : Except String Ledger :=
  if units ≤ 0 ∨ cost < 0 then
    .error s!"invalid lot {sourceId}"
  else
    .ok
      { ledger with
        lots :=
          ledger.lots ++
            [{ longId := longId
               holder := address holder
               seq := nextSeq ledger.lots longId holder
               units := units
               unitsRemaining := units
               costUsdg := cost
               costRemainingUsdg := cost
               acquiredAt := at'
               source := source
               sourceId := sourceId }] }

/- `${longId}-${holder}-${seq}`. -/
def LotRow.key
    (lot : LotRow) : Int × String × Nat :=
  (lot.longId, lot.holder, lot.seq)

/- The holder's open lots of the series, oldest first. -/
def openLots
    (lots : List LotRow)
    (longId : Int)
    (holder : String) : List LotRow :=
  (lots.filter
    (fun lot =>
      lot.isOf longId holder &&
        decide (lot.unitsRemaining > 0))).insertionSort
    (fun a b => a.seq ≤ b.seq)

def takeLot
    (lots : List LotRow)
    (taken : Fifo.ConsumedLot LotRow) : List LotRow :=
  lots.map
    (fun lot =>
      if lot.key = taken.lot.key then
        { lot with
          unitsRemaining :=
            taken.lot.unitsRemaining - taken.units
          costRemainingUsdg :=
            taken.lot.costRemainingUsdg - taken.costUsdg }
      else lot)

def consume
    (longId : Int)
    (holder : String)
    (units : Int) :
    Except String (Ledger × Fifo.Consumed LotRow) := do
  let result ←
    Fifo.consumeFifo LotRow.view
      (openLots ledger.lots longId holder) units
  return ({ ledger with
            lots := result.consumed.foldl takeLot ledger.lots },
    result)

def windowStart
    (starts : WindowStarts) : Window → Int
  | .week => starts.week
  | .month => starts.month
  | .all => 0

def windows : List Window :=
  [.week, .month, .all]

def rankPosition
    (longId : Int)
    (holder : String)
    (closedAt : Int)
    (totals : Positions.PositionTotals) :
    Positions.RankPosition :=
  { id := s!"{longId}-{holder}"
    closedAt := closedAt
    multiplePpm := totals.multiplePpm
    realisedUsdg := totals.realisedUsdg
    excluded := Positions.isExcludedFromLeaderboard totals }

/- The holder's closed positions, with when they closed. -/
def closedPositions
    (holder : String) : List Positions.RankPosition :=
  ledger.positions.entries.filterMap
    (fun entry =>
      match entry.2.totals.closedAt with
      | none => none
      | some closedAt =>
          if entry.1.2 = address holder ∧ closedAt ≥ 0 then
            some
              (rankPosition entry.1.1 entry.1.2 closedAt
                entry.2.totals)
          else none)

variable (env : Env)

def refreshWindow
    (inputs : Inputs)
    (holder : String)
    (at' : Int)
    (closed : List Positions.RankPosition)
    (ledger : Ledger)
    (window : Window) : Ledger :=
  let start := windowStart (env.windowStarts at') window
  let relevant :=
    closed.filter
      (fun row =>
        decide (row.closedAt ≥ start) &&
          decide (row.closedAt ≤ at'))
  let totals := Positions.rankTotals env.locale.before relevant
  let ranked : Ledger :=
    { ledger with
      leaderboard :=
        ledger.leaderboard.set (window, start, address holder)
          { totals := totals, updatedAt := at' } }
  if window = .all ∧
      inputs.accounts.any
        (fun row => row.account = address holder) = true then
    let account :=
      ledger.ranks.getD (address holder)
        { wins := 0
          losses := 0
          streak := 0
          bestStreak := 0
          realisedUsdg := 0 }
    { ranked with
      ranks :=
        ranked.ranks.set (address holder)
          { wins := totals.wins
            losses := totals.losses
            streak := totals.streak
            bestStreak := max account.bestStreak totals.streak
            realisedUsdg :=
              (relevant.map (fun row => row.realisedUsdg)).sum } }
  else ranked

def refreshRanks
    (inputs : Inputs)
    (ledger : Ledger)
    (holder : String)
    (at' : Int) : Ledger :=
  windows.foldl
    (refreshWindow env inputs holder at'
      (closedPositions ledger holder))
    ledger

def maybeClose
    (inputs : Inputs)
    (ledger : Ledger)
    (longId : Int)
    (holder : String)
    (at' : Int)
    (tx : String) : Except String Ledger :=
  if openLots ledger.lots longId holder ≠ [] then .ok ledger
  else
    let current := ledger.position longId holder
    if current.totals.closedAt ≠ none ∨
        current.totals.unitsBought = 0 ∧
          current.totals.unitsTransferredOut = 0 ∧
          current.totals.unitsSold = 0 ∧
          current.totals.unitsRedeemed = 0 then .ok ledger
    else do
      let closed ← Positions.closePosition current.totals at'
      let ledger :=
        ledger.setPosition longId holder
          { current with
            totals := closed
            closedTx := some tx }
      return refreshRanks env inputs ledger holder at'

/- The ranks of a holder whose closed position is open again. -/
def refreshIfClosed
    (inputs : Inputs)
    (previous : PositionRow)
    (ledger : Ledger)
    (holder : String)
    (at' : Int) : Ledger :=
  if previous.totals.closedAt ≠ none then
    refreshRanks env inputs ledger holder at'
  else ledger

def writerWindow
    (writer : String)
    (ts premium collateral assigned : Int)
    (ledger : Ledger)
    (window : Window) : Ledger :=
  let id :=
    (window, windowStart (env.windowStarts ts) window,
      address writer)
  let current :=
    ledger.writerStats.getD id
      { premiumUsdg := 0
        collateralUsdg := 0
        assignedUsdg := 0
        realisedYieldUsdg := 0
        updatedAt := 0 }
  { ledger with
    writerStats :=
      ledger.writerStats.set id
        { premiumUsdg := current.premiumUsdg + premium
          collateralUsdg := current.collateralUsdg + collateral
          assignedUsdg := current.assignedUsdg + assigned
          realisedYieldUsdg :=
            current.realisedYieldUsdg + premium - assigned
          updatedAt := ts } }

def writerStats
    (ledger : Ledger)
    (writer : String)
    (ts premium collateral assigned : Int) : Ledger :=
  windows.foldl
    (writerWindow env writer ts premium collateral assigned)
    ledger

end

----
-- The Logs of a Range
----

section

open Reconcile SelfTrade

/- The price other takers paid for the series nearby. -/
def priceReference
    (inputs : Inputs)
    (fill : FillRow) : Option Int :=
  let nearby :=
    (inputs.fills.filter
      (fun row =>
        decide (row.longId = fill.longId) &&
          decide (row.ts ≥ fill.ts - 3600) &&
          decide (row.ts ≤ fill.ts + 3600))).map
      (fun row =>
        { taker := row.taker
          ts := row.ts
          units := row.units
          premium := row.premium : Positions.NearbyFill })
  Positions.nearbyVwap nearby fill.taker fill.ts

variable (env : Env)

def spotAtFill
    (series : SeriesRow)
    (block : Int) : Option Int :=
  let spot :=
    env.trySpot (address series.oracle)
      (address series.underlying) block
  if spot.1 ∧ spot.2 > 0 then some spot.2 else none

def fillProceeds
    (fill : FillRow)
    (takerFee : Int) : Int :=
  fill.premium - fill.sellerFee +
      (if address fill.seller = address fill.maker then
        fill.makerRebate
      else 0) -
    (if address fill.seller = address fill.taker then takerFee
    else 0)

def fillCost
    (fill : FillRow)
    (takerFee : Int) : Int :=
  fill.premium +
      (if address fill.buyer = address fill.taker then takerFee
      else 0) -
    (if address fill.buyer = address fill.maker then
      fill.makerRebate
    else 0)

/- A resale takes the units from the seller's lots. -/
def sellFill
    (inputs : Inputs)
    (ledger : Ledger)
    (fill : FillRow)
    (takerFee : Int)
    (selfFill offMarket : Bool) : Except String Ledger := do
  let (ledger, consumed) ←
    consume ledger fill.longId fill.seller fill.units
  let proceeds := fillProceeds fill takerFee
  let current :=
    (ledger.position fill.longId fill.seller).totals
  let ledger : Ledger :=
    { ledger with
      fillDeltas :=
        ledger.fillDeltas.set fill.id
          (proceeds - consumed.costUsdg) }
  let sold ←
    Positions.sellPosition
      { current with
        selfFill := current.selfFill || selfFill
        offMarket := current.offMarket || offMarket }
      fill.units proceeds consumed.costUsdg
      consumed.transferIn
  maybeClose env inputs
    (ledger.savePosition fill.longId fill.seller sold)
    fill.longId fill.seller fill.ts fill.tx

/- A primary fill is its writer's premium. -/
def writeFill
    (ledger : Ledger)
    (fill : FillRow)
    (takerFee : Int) : Ledger :=
  let premium :=
    Positions.primaryPremiumReceived fill.premium fill.sellerFee
      fill.makerRebate takerFee
      (decide (address fill.seller = address fill.maker))
      (decide (address fill.seller = address fill.taker))
  let ledger :=
    writerStats env ledger fill.seller fill.ts premium 0 0
  let id := (fill.longId, address fill.seller)
  { ledger with
    seriesPremiums :=
      ledger.seriesPremiums.set id
        (ledger.seriesPremiums.getD id 0 + premium) }

def buyFill
    (inputs : Inputs)
    (ledger : Ledger)
    (series : SeriesRow)
    (fill : FillRow)
    (takerFee : Int)
    (selfFill offMarket : Bool) : Except String Ledger :=
  let buyerCost := fillCost fill takerFee
  if buyerCost < 0 then
    .error s!"fill {fill.id}: negative buyer cost"
  else do
    let ledger ←
      addLot ledger fill.longId fill.buyer fill.units buyerCost
        .fill fill.id fill.ts
    let current := ledger.position fill.longId fill.buyer
    let needsEntrySpot :=
      decide (current.totals.unitsBought = 0) &&
        decide (current.spotAtEntry = none)
    let spot :=
      if needsEntrySpot then spotAtFill env series fill.block
      else none
    let bought ←
      Positions.buyPosition current.totals fill.units buyerCost
        selfFill offMarket
    let ledger :=
      ledger.setPosition fill.longId fill.buyer
        { current with
          totals := bought
          spotAtEntry :=
            if spot = none then current.spotAtEntry else spot }
    return refreshIfClosed env inputs current ledger fill.buyer
      fill.ts

def handleFill
    (inputs : Inputs)
    (ledger : Ledger)
    (fill : FillRow)
    (takerFee : Int) : Except String Ledger :=
  match inputs.findSeries fill.longId with
  | none => .error s!"fill {fill.id}: unknown series"
  | some series => do
      let fair := priceReference inputs fill
      let ledger : Ledger :=
        match fair with
        | none => ledger
        | some fair =>
            { ledger with
              fairAtFill := ledger.fairAtFill.set fill.id fair }
      let offMarket := Positions.isOffMarket fill.price fair
      let selfFill :=
        decide (address fill.maker = address fill.taker)
      let ledger ←
        if fill.primary then
          .ok (writeFill env ledger fill takerFee)
        else
          sellFill env inputs ledger fill takerFee selfFill
            offMarket
      buyFill env inputs ledger series fill takerFee selfFill
        offMarket

def handleMint
    (inputs : Inputs)
    (matchedMints : List String)
    (ledger : Ledger)
    (row : MintRow) : Except String Ledger :=
  match inputs.findSeries row.longId with
  | none => .error s!"mint {row.id}: unknown series"
  | some series => do
      let collateral ←
        Positions.collateralValue row.units series.strike
      let ledger :=
        writerStats env ledger row.writer row.ts 0 collateral 0
      if row.id ∈ matchedMints then return ledger
      else
        let ledger ←
          addLot ledger row.longId row.longTo row.units 0 .mint
            row.id row.ts
        let previous := ledger.position row.longId row.longTo
        return refreshIfClosed env inputs previous
          (ledger.savePosition row.longId row.longTo
            (Positions.markTransferIn previous.totals))
          row.longTo row.ts

/- The units leave a wallet. -/
def sendUnits
    (inputs : Inputs)
    (ledger : Ledger)
    (row : TransferRow) : Except String Ledger := do
  let (ledger, spent) ←
    consume ledger row.longId row.sender row.units
  let moved ←
    Positions.transferOutPosition
      (ledger.position row.longId row.sender).totals row.units
  let ledger := ledger.savePosition row.longId row.sender moved
  let ledger :=
    if spent.transferIn then
      ledger.savePosition row.longId row.sender
        (Positions.markTransferIn
          (ledger.position row.longId row.sender).totals)
    else ledger
  maybeClose env inputs ledger row.longId row.sender row.ts
    row.tx

/- The units reach a wallet, without a cost. -/
def receiveUnits
    (inputs : Inputs)
    (ledger : Ledger)
    (row : TransferRow) : Except String Ledger := do
  let isMint := decide (address row.sender = zero)
  let ledger ←
    addLot ledger row.longId row.recipient row.units 0
      (if isMint then .mint else .transfer) row.id row.ts
  if isMint then return ledger
  else
    let previous := ledger.position row.longId row.recipient
    return refreshIfClosed env inputs previous
      (ledger.savePosition row.longId row.recipient
        (Positions.markTransferIn previous.totals))
      row.recipient row.ts

def handleTransfer
    (inputs : Inputs)
    (matchedTransfers : List String)
    (ledger : Ledger)
    (row : TransferRow) : Except String Ledger :=
  if row.id ∈ matchedTransfers ∨ row.units = 0 then .ok ledger
  else if address row.sender = address env.orderBook ∨
      address row.recipient = address env.orderBook then
    .ok ledger
  else do
    let ledger ←
      if address row.sender = zero then .ok ledger
      else sendUnits env inputs ledger row
    if address row.recipient = zero then return ledger
    else receiveUnits env inputs ledger row

def handleClose
    (inputs : Inputs)
    (ledger : Ledger)
    (row : CloseRow) : Except String Ledger := do
  let (ledger, spent) ←
    consume ledger row.longId row.account row.units
  let previous := ledger.position row.longId row.account
  let ledger : Ledger :=
    { ledger with
      closeDeltas :=
        ledger.closeDeltas.set row.id (-spent.costUsdg) }
  let sold ←
    Positions.sellPosition previous.totals row.units 0
      spent.costUsdg true
  maybeClose env inputs
    (ledger.savePosition row.longId row.account sold)
    row.longId row.account row.ts row.tx

/- The final price of a redeemed series. -/
def settledPrice
    (inputs : Inputs)
    (longId : Int) : Option (SeriesRow × Int) :=
  (inputs.findSeries longId).bind
    (fun series =>
      series.settlementPrice.map (fun price => (series, price)))

def redeemShort
    (inputs : Inputs)
    (ledger : Ledger)
    (row : RedemptionRow) : Except String Ledger :=
  match settledPrice inputs row.longId with
  | none => .error s!"short redemption {row.id}: unsettled series"
  | some (series, price) => do
      let payout ←
        Fifo.payoutValueUsdg row.amount price
          (decide (address row.asset = address env.usdg))
      let assigned ←
        Positions.assignedValue row.units series.strike price
          series.isPut payout
      return writerStats env ledger row.holder row.ts 0 0 assigned

def redeemLong
    (inputs : Inputs)
    (ledger : Ledger)
    (row : RedemptionRow) : Except String Ledger := do
  let (ledger, spent) ←
    consume ledger row.longId row.holder row.units
  match settledPrice inputs row.longId with
  | none => .error s!"redemption {row.id}: unsettled series"
  | some (_, price) => do
      let payout ←
        Fifo.payoutValueUsdg row.amount price
          (decide (address row.asset = address env.usdg))
      let previous := ledger.position row.longId row.holder
      let ledger : Ledger :=
        { ledger with
          redemptionDeltas :=
            ledger.redemptionDeltas.set row.id
              (payout - spent.costUsdg) }
      let redeemed ←
        Positions.redeemPosition previous.totals row.units payout
          spent.costUsdg spent.transferIn
      maybeClose env inputs
        (ledger.savePosition row.longId row.holder redeemed)
        row.longId row.holder row.ts row.tx

end

----
-- One Range in Log Order
----

section

open Reconcile SelfTrade

inductive Item where
  | transfer (row : TransferRow)
  | fill (row : FillRow)
  | mint (row : MintRow)
  | close (row : CloseRow)
  | redeem (row : RedemptionRow)
deriving DecidableEq

def Item.block : Item → Int
  | .transfer row => row.block
  | .fill row => row.block
  | .mint row => row.block
  | .close row => row.block
  | .redeem row => row.block

def Item.logIndex : Item → Int
  | .transfer row => row.logIndex
  | .fill row => row.logIndex
  | .mint row => row.logIndex
  | .close row => row.logIndex
  | .redeem row => row.logIndex

def Item.id : Item → String
  | .transfer row => row.id
  | .fill row => row.id
  | .mint row => row.id
  | .close row => row.id
  | .redeem row => row.id

def itemBefore
    (locale : SelfTrade.Locale)
    (a b : Item) : Prop :=
  a.block < b.block ∨
    a.block = b.block ∧
      (a.logIndex < b.logIndex ∨
        a.logIndex = b.logIndex ∧ locale.before a.id b.id)

instance (locale : SelfTrade.Locale) :
    DecidableRel (itemBefore locale) :=
  fun a b =>
    inferInstanceAs
      (Decidable
        (a.block < b.block ∨
          a.block = b.block ∧
            (a.logIndex < b.logIndex ∨
              a.logIndex = b.logIndex ∧
                locale.before a.id b.id)))

/- The rows of the six range tables, and the cash flows. -/
structure RangeRows where
  transfers : List TransferRow
  fills : List FillRow
  takes : List TakeRow
  mints : List MintRow
  closes : List CloseRow
  redemptions : List RedemptionRow
  cashFlows : List CashFlowRow
deriving DecidableEq

def inRange
    (after through block : Int) : Bool :=
  decide (block > after) && decide (block ≤ through)

def Inputs.range
    (inputs : Inputs)
    (after through : Int) : RangeRows :=
  { transfers :=
      inputs.transfers.filter
        (fun row => inRange after through row.block)
    fills :=
      inputs.fills.filter
        (fun row => inRange after through row.block)
    takes :=
      inputs.takes.filter
        (fun row => inRange after through row.block)
    mints :=
      inputs.mints.filter
        (fun row => inRange after through row.block)
    closes :=
      inputs.closes.filter
        (fun row => inRange after through row.block)
    redemptions :=
      inputs.redemptions.filter
        (fun row => inRange after through row.block)
    cashFlows :=
      inputs.cashFlows.filter
        (fun row => inRange after through row.block) }

def longRedemptions
    (rows : List RedemptionRow) : List RedemptionRow :=
  rows.filter (fun row => decide (row.side = .long))

def RangeRows.deliveries
    (rows : RangeRows)
    (book : String) : Except String Deliveries :=
  matchDeliveries
    (rows.transfers.map TransferRow.indexed)
    (rows.fills.map FillRow.indexed)
    (rows.mints.map MintRow.indexed)
    (rows.closes.map CloseRow.exit ++
      (longRedemptions rows.redemptions).map RedemptionRow.exit)
    book

def RangeRows.fees
    (rows : RangeRows) : Except String (OrderedMap String Int) :=
  matchTakeFees (rows.fills.map FillRow.feeFill)
    (rows.takes.map TakeRow.call)

def RangeRows.items
    (rows : RangeRows)
    (locale : SelfTrade.Locale) : List Item :=
  (rows.transfers.map Item.transfer ++
      rows.fills.map Item.fill ++ rows.mints.map Item.mint ++
      rows.closes.map Item.close ++
      rows.redemptions.map Item.redeem).insertionSort
    (itemBefore locale)

def handleItem
    (env : Env)
    (inputs : Inputs)
    (deliveries : Deliveries)
    (fees : OrderedMap String Int)
    (ledger : Ledger) : Item → Except String Ledger
  | .fill row =>
      handleFill env inputs ledger row (fees.getD row.id 0)
  | .mint row =>
      handleMint env inputs deliveries.matchedMints ledger row
  | .transfer row =>
      handleTransfer env inputs deliveries.matchedTransfers
        ledger row
  | .close row => handleClose env inputs ledger row
  | .redeem row =>
      match row.side with
      | .short => redeemShort env inputs ledger row
      | .long => redeemLong env inputs ledger row

def handleItems
    (env : Env)
    (inputs : Inputs)
    (deliveries : Deliveries)
    (fees : OrderedMap String Int)
    (items : List Item)
    (ledger : Ledger) : Except String Ledger :=
  items.foldlM (handleItem env inputs deliveries fees) ledger

end

----
-- The Self-Trade Tables
----

section

open Reconcile SelfTrade

def flags
    (links : List (String × Bool)) : List String :=
  (links.filter (fun entry => entry.2)).map Prod.fst

def accountLinks
    (row : AccountRow) : List SelfTradeLinkEvidence :=
  (flags row.operators ++ flags row.approvals ++
      flags row.delegates).map
    (fun other => { left := row.account, right := other })

def cashFlowLink
    (row : CashFlowRow) : Option SelfTradeLinkEvidence :=
  if key row.account ≠ key row.actor then
    some { left := row.account, right := row.actor }
  else none

def indexedSelfTradeLinks
    (accounts : List AccountRow)
    (cashFlows : List CashFlowRow) :
    List SelfTradeLinkEvidence :=
  cashFlows.filterMap cashFlowLink ++
    accounts.flatMap accountLinks

def TransferRow.event
    (row : TransferRow) : SelfTradeEvent :=
  { id := row.id
    block := row.block
    logIndex := row.logIndex
    ts := row.ts
    longId := row.longId
    units := row.units
    kind := .transfer row.sender row.recipient }

def FillRow.event
    (row : FillRow) : SelfTradeEvent :=
  { id := row.id
    block := row.block
    logIndex := row.logIndex
    ts := row.ts
    longId := row.longId
    units := row.units
    kind :=
      .fill
        { maker := row.maker
          taker := row.taker
          recipient := row.recipient
          buyer := row.buyer
          seller := row.seller
          price := row.price
          primary := row.primary
          takerIsBuyer := row.takerIsBuyer } }

def MintRow.event
    (row : MintRow) : SelfTradeEvent :=
  { id := row.id
    block := row.block
    logIndex := row.logIndex
    ts := row.ts
    longId := row.longId
    units := row.units
    kind := .mint row.longTo }

def CloseRow.event
    (row : CloseRow) : SelfTradeEvent :=
  { id := row.id
    block := row.block
    logIndex := row.logIndex
    ts := row.ts
    longId := row.longId
    units := row.units
    kind := .close row.account }

def RedemptionRow.event
    (row : RedemptionRow) : SelfTradeEvent :=
  { id := row.id
    block := row.block
    logIndex := row.logIndex
    ts := row.ts
    longId := row.longId
    units := row.units
    kind := .redemption row.holder }

def RangeRows.events
    (rows : RangeRows)
    (matchedMints : List String) : List SelfTradeEvent :=
  rows.transfers.map TransferRow.event ++
    rows.fills.map FillRow.event ++
    (rows.mints.filter
      (fun row => decide (row.id ∉ matchedMints))).map
        MintRow.event ++
    rows.closes.map CloseRow.event ++
    (longRedemptions rows.redemptions).map RedemptionRow.event

def Inputs.expiries
    (inputs : Inputs) : List SeriesExpiry :=
  inputs.series.map
    (fun row => { longId := row.longId, expiry := row.expiry })

def SelfTradeTables.state
    (tables : SelfTradeTables)
    (cursor : Int) : SelfTradeState :=
  { cursor := cursor
    links := tables.links.values
    lots := tables.lots.values
    makers :=
      tables.makers.entries.map
        (fun entry =>
          { writer := entry.1, units := entry.2.units })
    unseen :=
      tables.unseen.entries.map
        (fun entry =>
          { reason := entry.1
            units := entry.2.units
            fills := entry.2.fills }) }

def selfTradeBatch
    (env : Env)
    (inputs : Inputs)
    (rows : RangeRows)
    (deliveries : Deliveries)
    (through throughTimestamp : Int) : SelfTradeBatch :=
  { through := through
    throughTimestamp := throughTimestamp
    events := rows.events deliveries.matchedMints
    linkEvidence :=
      indexedSelfTradeLinks inputs.accounts rows.cashFlows
    seriesExpiries := inputs.expiries
    matchedTransferIds := deliveries.matchedTransfers
    protocolAddresses := env.protocolAddresses }

/- A link that is stored already is left as it is. -/
def storeLink
    (links : OrderedMap (String × String) SelfTradeLink)
    (row : SelfTradeLink) :
    OrderedMap (String × String) SelfTradeLink :=
  let id := (row.left, row.right)
  if links.has id then links
  else
    links.set id
      { left := address row.left
        right := address row.right }

/- `old` is the table before the tick. -/
def storeLot
    (old : OrderedMap String SelfTradeLot)
    (lots : OrderedMap String SelfTradeLot)
    (row : SelfTradeLot) :
    Except String (OrderedMap String SelfTradeLot) :=
  let values :=
    { row with
      holder := address row.holder
      writer := row.writer.map address }
  match old.get? row.id with
  | none =>
      if lots.has row.id then
        .error s!"unique constraint: v2_self_trade_lot {row.id}"
      else .ok (lots.set row.id values)
  | some previous =>
      if previous.remaining ≠ row.remaining then
        .ok (lots.set row.id values)
      else .ok lots

def makerUnits
    (makers : OrderedMap String StoredMaker) :
    OrderedMap String Int :=
  OrderedMap.empty.setAll
    (makers.entries.map
      (fun entry => (entry.1.toLower, entry.2.units)))

def storeMaker
    (through throughTimestamp : Int)
    (old : OrderedMap String Int)
    (makers : OrderedMap String StoredMaker)
    (row : SelfTradeMaker) : OrderedMap String StoredMaker :=
  if old.get? row.writer = some row.units then makers
  else
    makers.set (address row.writer)
      { units := row.units
        updatedAt := throughTimestamp
        updatedBlock := through }

def storeUnseen
    (through throughTimestamp : Int)
    (old unseen :
      OrderedMap SelfTradeUnseenReason StoredUnseen)
    (row : SelfTradeUnseen) :
    OrderedMap SelfTradeUnseenReason StoredUnseen :=
  if (old.get? row.reason).any
      (fun previous =>
        decide (previous.units = row.units) &&
          decide (previous.fills = row.fills)) = true then
    unseen
  else
    unseen.set row.reason
      { units := row.units
        fills := row.fills
        updatedAt := throughTimestamp
        updatedBlock := through }

/- The earlier of an expiry and that of an open lot. -/
def earlierExpiry
    (expiries : List SeriesExpiry)
    (next : Option Int)
    (lot : SelfTradeLot) : Option Int :=
  if lot.remaining = 0 then next
  else
    match expiryOf expiries lot.longId, next with
    | none, _ => next
    | some expiry, none => some expiry
    | some expiry, some earliest =>
        if expiry < earliest then some expiry else next

/- The earliest expiry of an open lot of a known series. -/
def nextOpenLotExpiry
    (lots : List SelfTradeLot)
    (expiries : List SeriesExpiry) : Option Int :=
  lots.foldl (earlierExpiry expiries) none

def updateSelfTrade
    (env : Env)
    (inputs : Inputs)
    (rows : RangeRows)
    (deliveries : Deliveries)
    (tables : SelfTradeTables)
    (after through throughTimestamp : Int) :
    Except String (SelfTradeTables × Option Int) :=
  match
    reduceSelfTrade env.locale (tables.state after)
      (selfTradeBatch env inputs rows deliveries through
        throughTimestamp)
  with
  | none => .error "Negative units"
  | some next => do
      let lots ←
        next.lots.foldlM (storeLot tables.lots) tables.lots
      return ({ links := next.links.foldl storeLink tables.links
                lots := lots
                makers :=
                  next.makers.foldl
                    (storeMaker through throughTimestamp
                      (makerUnits tables.makers))
                    tables.makers
                unseen :=
                  next.unseen.foldl
                    (storeUnseen through throughTimestamp
                      tables.unseen)
                    tables.unseen },
        nextOpenLotExpiry next.lots inputs.expiries)

end

----
-- The Tick
----

open Reconcile SelfTrade

def markPnlInput
    (input : Option PnlInput)
    (block : Int) : PnlInput :=
  match input with
  | none => { block := block, nextLotExpiry := none }
  | some current => { current with block := block }

def recordNextLotExpiry
    (input : Option PnlInput)
    (nextLotExpiry : Option Int) : PnlInput :=
  match input with
  | none => { block := -1, nextLotExpiry := nextLotExpiry }
  | some current => { current with nextLotExpiry := nextLotExpiry }

def pnlTickIsNoop
    (input : Option PnlInput)
    (cursor : Option Int)
    (after timestamp : Int) : Bool :=
  match input, cursor with
  | some input, some _ =>
      if input.block ≥ after then false
      else
        match input.nextLotExpiry with
        | none => true
        | some expiry => decide (timestamp < expiry)
  | _, _ => false

/- The last block that has been booked. -/
def Stored.after
    (env : Env)
    (stored : Stored) : Int :=
  stored.cursor.getD (env.startBlock - 1)

/- The tick that reads its range and books it. -/
def bookRange
    (env : Env)
    (inputs : Inputs)
    (stored : Stored)
    (through throughTimestamp : Int) : Except String Stored := do
  let after := stored.after env
  let rows := inputs.range after through
  let deliveries ← rows.deliveries env.orderBook
  let fees ← rows.fees
  let ledger ←
    handleItems env inputs deliveries fees
      (rows.items env.locale) stored.ledger
  let (selfTrade, nextLotExpiry) ←
    updateSelfTrade env inputs rows deliveries stored.selfTrade
      after through throughTimestamp
  return { ledger := ledger
           selfTrade := selfTrade
           cursor := some through
           input :=
            some (recordNextLotExpiry stored.input nextLotExpiry) }

/- The same, with the ticks that are not ahead of the cursor. -/
def fullTick
    (env : Env)
    (inputs : Inputs)
    (stored : Stored)
    (through throughTimestamp : Int) : Except String Stored :=
  if through ≤ stored.after env then .ok stored
  else bookRange env inputs stored through throughTimestamp

def pnlTick
    (env : Env)
    (inputs : Inputs)
    (stored : Stored)
    (through throughTimestamp : Int) : Except String Stored :=
  if through ≤ stored.after env then .ok stored
  else if pnlTickIsNoop stored.input stored.cursor
      (stored.after env) throughTimestamp = true then
    .ok { stored with cursor := some through }
  else bookRange env inputs stored through throughTimestamp

end Callhouse.Indexer.PnlClock
