import Callhouse.Indexer.Projection.Tables
import Callhouse.Lib.LockStep

/-
  indexer/lib/v2/clearinghouse.ts and
  indexer/src/v2/clearinghouse.ts: what the Clearinghouse's
  logs do to the tables.  What a handler reads off the chain
  comes with its log, and a thrown error is its message.

  Main declarations:
    * `positionId`, `walletDeltas`, `openInterestDelta`
    * `transfer`, `transferBatch`
    * `minted`, `closed`, `mintFeesAccrued`
    * `transfer_eq_ok`, `ledgerDelta_eq_ok`
-/

----
-- Transfers
----

namespace Callhouse.Indexer.Projection

open LockStep RowTable

/- The low bit of a token's id tells the side. -/
def positionId
    (tokenId : Int) : Int × PositionSide :=
  (tokenId - tokenId % 2,
    if tokenId % 2 = 0 then .long else .short)

def balanceId
    (tokenId : Int)
    (holder : String) : Int × String :=
  (tokenId, addressKey holder)

def ledgerId
    (account asset : String) : String × String :=
  (addressKey account, addressKey asset)

def isWallet
    (address escrow : String) : Bool :=
  addressKey address ≠ zeroAddress ∧
    addressKey address ≠ addressKey escrow

structure TokenTransfer where
  sender : String
  recipient : String
  tokenId : Int
  units : Int
deriving DecidableEq

/- Wallets only: the book's escrow has no balance rows. -/
def walletDeltas
    (input : TokenTransfer)
    (escrow : String) :
    Except String (List (String × Int)) :=
  if input.units < 0 then .error "negative ERC-1155 transfer"
  else if addressKey input.sender = addressKey input.recipient then
    .ok []
  else
    .ok
      ((if isWallet input.sender escrow then
          [(input.sender, -input.units)] else []) ++
        (if isWallet input.recipient escrow then
          [(input.recipient, input.units)] else []))

/- Long mints and burns only. -/
def openInterestDelta
    (input : TokenTransfer) : Int :=
  if (positionId input.tokenId).2 = .short then 0
  else if addressKey input.sender = zeroAddress ∧
      addressKey input.recipient ≠ zeroAddress then
    input.units
  else if addressKey input.recipient = zeroAddress ∧
      addressKey input.sender ≠ zeroAddress then
    -input.units
  else 0

def addNonnegative
    (current delta : Int)
    (label : String) : Except String Int :=
  if current + delta < 0 then
    .error s!"{label} underflow: {current} + {delta}"
  else .ok (current + delta)

def balanceUnits
    (db : IndexDb)
    (id : Int × String) : Int :=
  ((db.balances.get? id).map (fun row => row.units)).getD 0

/- One pass of the loop over the wallets' deltas. -/
def balanceDelta
    (tokenId : Int)
    (db : IndexDb)
    (change : String × Int) : Except String IndexDb := do
  let holder := addressKey change.1
  let id := balanceId tokenId change.1
  let units ←
    addNonnegative (balanceUnits db id) change.2
      s!"balance {tokenId}-{holder}"
  return { db with
           balances := db.balances.set id
             { tokenId := tokenId
               holder := holder
               longId := (positionId tokenId).1
               side := (positionId tokenId).2
               units := units } }

def recordTransfer
    (db : IndexDb)
    (input : TokenTransfer)
    (event : LogMeta)
    (batchIndex : Int) : Except String IndexDb :=
  if (positionId input.tokenId).2 = .long then do
    let transfers ←
      RowTable.insert db.transfers
        (event.tx, event.logIndex, batchIndex)
        { tokenId := input.tokenId
          longId := (positionId input.tokenId).1
          sender := addressKey input.sender
          recipient := addressKey input.recipient
          units := input.units
          log := event }
    return { db with transfers := transfers }
  else return db

def openInterest
    (db : IndexDb)
    (longId delta : Int) : Except String IndexDb := do
  let row ←
    RowTable.require (db.series.get? longId)
      s!"ERC-1155 mint/burn for unknown series {longId}"
  let market ←
    RowTable.require (db.markets.get? row.underlying)
      s!"series {longId} has unregistered market {row.underlying}"
  let seriesUnits ←
    addNonnegative row.openInterestUnits delta
      s!"series {longId} OI"
  let marketUnits ←
    addNonnegative market.openInterestUnits delta
      s!"market {row.underlying} OI"
  return { db with
           series := db.series.set longId
             { row with openInterestUnits := seriesUnits }
           markets := db.markets.set row.underlying
             { market with openInterestUnits := marketUnits } }

def transfer
    (escrow : String)
    (db : IndexDb)
    (input : TokenTransfer)
    (event : LogMeta)
    (batchIndex : Int) : Except String IndexDb := do
  let recorded ← recordTransfer db input event batchIndex
  let deltas ← walletDeltas input escrow
  let held ←
    deltas.foldlM (balanceDelta input.tokenId) recorded
  if openInterestDelta input = 0 then return held
  else
    openInterest held (positionId input.tokenId).1
      (openInterestDelta input)

/- Clearinghouse:TransferBatch, once its lengths agree. -/
def transferAll
    (escrow : String)
    (sender recipient : String)
    (event : LogMeta) :
    IndexDb → Int → List (Int × Int) → Except String IndexDb
  | db, _, [] => .ok db
  | db, i, (tokenId, units) :: rest => do
      let db' ←
        transfer escrow db
          { sender := sender
            recipient := recipient
            tokenId := tokenId
            units := units } event i
      transferAll escrow sender recipient event db' (i + 1) rest

def transferBatch
    (escrow : String)
    (db : IndexDb)
    (sender recipient : String)
    (ids values : List Int)
    (event : LogMeta) : Except String IndexDb :=
  if ids.length ≠ values.length then
    .error "ERC-1155 TransferBatch ids/values length mismatch"
  else
    transferAll escrow sender recipient event db 0
      (ids.zip values)

----
-- Markets and Series
----

def marketStatus
    (enabled : Bool) : MarketStatus :=
  if enabled then .live else .paused

/- The ticker is read off the token's symbol. -/
def marketRegistered
    (db : IndexDb)
    (underlying ticker : String)
    (config : MarketConfig)
    (event : LogMeta) : Except String IndexDb := do
  let id := addressKey underlying
  let markets ←
    RowTable.insert db.markets id
      { underlying := id
        ticker := ticker
        config :=
          { config with oracle := addressKey config.oracle }
        status := marketStatus config.enabled
        seriesCreated := 0
        seriesOpen := 0
        openInterestUnits := 0
        volumeUnits := 0
        volumeUsdg := 0
        premiumUsdg := 0
        feesUsdg := 0
        registered := event
        lastBlock := event.number
        lastTimestamp := event.timestamp }
  return { db with markets := markets }

def marketConfigSet
    (db : IndexDb)
    (underlying : String)
    (config : MarketConfig)
    (event : LogMeta) : Except String IndexDb := do
  let id := addressKey underlying
  let market ←
    RowTable.require (db.markets.get? id)
      s!"MarketConfigSet before MarketRegistered: {id}"
  return { db with
           markets := db.markets.set id
             { market with
               config :=
                 { config with oracle := addressKey config.oracle }
               status := marketStatus config.enabled
               lastBlock := event.number
               lastTimestamp := event.timestamp } }

def mintPausedSet
    (db : IndexDb)
    (underlying : String)
    (paused : Bool)
    (event : LogMeta) : Except String IndexDb := do
  let id := addressKey underlying
  let market ←
    RowTable.require (db.markets.get? id)
      s!"MintPausedSet before MarketRegistered: {id}"
  return { db with
           markets := db.markets.set id
             { market with
               config := { market.config with mintPaused := paused }
               lastBlock := event.number
               lastTimestamp := event.timestamp } }

def seriesTenor
    (isWeekly specialAllowed : Bool) : String :=
  if isWeekly then "weekly"
  else if specialAllowed then "special" else "daily"

/- SeriesCreated, with the answers of the handler's reads. -/
structure SeriesCreated where
  longId : Int
  underlying : String
  isPut : Bool
  strike : Int
  expiry : Int
  oracle : String
  exerciseFeeBps : Int
  mintFeePpm : Int
  weekly : Bool
  special : Bool
  mintCutoff : Int
deriving DecidableEq

def SeriesCreated.row
    (args : SeriesCreated)
    (ticker : String)
    (event : LogMeta) : SeriesRow :=
  { longId := args.longId
    underlying := addressKey args.underlying
    ticker := ticker
    isPut := args.isPut
    strike := args.strike
    expiry := args.expiry
    tenor := seriesTenor args.weekly args.special
    mintCutoff := args.mintCutoff
    oracle := addressKey args.oracle
    exerciseFeeBps := args.exerciseFeeBps
    mintFeePpm := args.mintFeePpm
    mintFeesHeld := 0
    mintFeesAccrued := 0
    status := .open
    settlementPrice := none
    payouts := none
    settled := none
    openInterestUnits := 0
    volumeUnits := 0
    volumeUsdg := 0
    lastPrice := none
    created := event }

def seriesCreated
    (db : IndexDb)
    (args : SeriesCreated)
    (event : LogMeta) : Except String IndexDb := do
  let id := addressKey args.underlying
  let market ←
    RowTable.require (db.markets.get? id)
      s!"SeriesCreated before MarketRegistered: {id}"
  let series ←
    RowTable.insert db.series args.longId
      (args.row market.ticker event)
  return { db with
           series := series
           markets := db.markets.set id
             { market with
               seriesCreated := market.seriesCreated + 1
               seriesOpen := market.seriesOpen + 1
               lastBlock := event.number
               lastTimestamp := event.timestamp } }

/- A market that is not there is passed over. -/
def countSettled
    (markets : OrderedMap String MarketRow)
    (underlying : String)
    (event : LogMeta) : OrderedMap String MarketRow :=
  match markets.get? underlying with
  | none => markets
  | some market =>
      markets.set underlying
        { market with
          seriesOpen := max 0 (market.seriesOpen - 1)
          lastBlock := event.number
          lastTimestamp := event.timestamp }

def seriesSettled
    (db : IndexDb)
    (longId : Int)
    (payouts : Payouts)
    (event : LogMeta) : Except String IndexDb := do
  let row ←
    RowTable.require (db.series.get? longId)
      s!"SeriesSettled for unknown series {longId}"
  return { db with
           series := db.series.set longId
             { row with
               status := .settled
               settlementPrice := some payouts.settlementPrice
               payouts := some payouts
               settled := some event }
           markets := countSettled db.markets row.underlying event }

----
-- The Ledger and the Rent
----

def freeUnits
    (db : IndexDb)
    (id : String × String) : Int :=
  ((db.ledger.get? id).map (fun row => row.free)).getD 0

def ledgerDelta
    (db : IndexDb)
    (account asset : String)
    (delta : Int) : Except String IndexDb := do
  let holder := addressKey account
  let token := addressKey asset
  let id := ledgerId account asset
  let free ←
    addNonnegative (freeUnits db id) delta
      s!"ledger {holder}-{token}"
  return { db with
           ledger := db.ledger.set id
             { account := holder
               asset := token
               free := free } }

structure Minted where
  longId : Int
  writer : String
  longTo : String
  units : Int
  collateral : Int
  fee : Int
  collateralAsset : String
deriving DecidableEq

def minted
    (db : IndexDb)
    (args : Minted)
    (event : LogMeta) : Except String IndexDb := do
  let paid ←
    ledgerDelta db args.writer args.collateralAsset
      (-(args.collateral + args.fee))
  let row ←
    RowTable.require (paid.series.get? args.longId)
      s!"Minted for unknown series {args.longId}"
  let mints ←
    RowTable.insert paid.mints (logId event)
      { longId := args.longId
        writer := addressKey args.writer
        longTo := addressKey args.longTo
        units := args.units
        collateral := args.collateral
        fee := args.fee
        log := event }
  return { paid with
           series := paid.series.set args.longId
             { row with mintFeesHeld := row.mintFeesHeld + args.fee }
           mints := mints }

structure Closed where
  longId : Int
  account : String
  units : Int
  collateralFreed : Int
  feeRefund : Int
  collateralAsset : String
deriving DecidableEq

def closed
    (db : IndexDb)
    (args : Closed)
    (event : LogMeta) : Except String IndexDb := do
  let paid ←
    ledgerDelta db args.account args.collateralAsset
      (args.collateralFreed + args.feeRefund)
  let row ←
    RowTable.require (paid.series.get? args.longId)
      s!"Closed for unknown series {args.longId}"
  let mintFeesHeld ←
    addNonnegative row.mintFeesHeld (-args.feeRefund)
      s!"series {args.longId} held rent"
  let closes ←
    RowTable.insert paid.closes (logId event)
      { longId := args.longId
        account := addressKey args.account
        units := args.units
        collateralFreed := args.collateralFreed
        feeRefund := args.feeRefund
        log := event }
  return { paid with
           series := paid.series.set args.longId
             { row with mintFeesHeld := mintFeesHeld }
           closes := closes }

structure Redeemed where
  tokenId : Int
  holder : String
  recipient : String
  units : Int
  asset : String
  amount : Int
  amountInKind : Int
  toLedger : Bool
deriving DecidableEq

def redeemed
    (db : IndexDb)
    (args : Redeemed)
    (event : LogMeta) : Except String IndexDb := do
  let redemptions ←
    RowTable.insert db.redemptions (logId event)
      { tokenId := args.tokenId
        longId := (positionId args.tokenId).1
        side := (positionId args.tokenId).2
        holder := addressKey args.holder
        recipient := addressKey args.recipient
        units := args.units
        asset := addressKey args.asset
        amount := args.amount
        amountInKind := args.amountInKind
        toLedger := args.toLedger
        log := event }
  let db' := { db with redemptions := redemptions }
  if args.toLedger then
    ledgerDelta db' args.holder args.asset args.amount
  else return db'

/- Deposited and Withdrawn, `delta` the amount with its sign. -/
def cashFlow
    (kind : CashFlowKind)
    (db : IndexDb)
    (account asset : String)
    (amount delta : Int)
    (actor : String)
    (event : LogMeta) : Except String IndexDb := do
  let paid ← ledgerDelta db account asset delta
  let cashFlows ←
    RowTable.insert paid.cashFlows (logId event)
      { kind := kind
        account := addressKey account
        actor := addressKey actor
        asset := addressKey asset
        amount := amount
        log := event }
  return { paid with cashFlows := cashFlows }

def deposited
    (db : IndexDb)
    (account asset : String)
    (amount : Int)
    (sender : String)
    (event : LogMeta) : Except String IndexDb :=
  cashFlow .deposit db account asset amount amount sender event

def withdrawn
    (db : IndexDb)
    (account asset : String)
    (amount : Int)
    (recipient : String)
    (event : LogMeta) : Except String IndexDb :=
  cashFlow .withdrawal db account asset amount (-amount)
    recipient event

/- The rent that a settled series still holds, and no other. -/
def accrueHeld
    (usdg : String)
    (db : IndexDb)
    (row : SeriesRow)
    (longId : Int)
    (asset : String)
    (amount : Int)
    (event : LogMeta) : Except String IndexDb :=
  if row.status ≠ .settled ∨ row.mintFeesHeld ≠ amount ∨
      addressKey asset ≠
        addressKey (if row.isPut then usdg else row.underlying) then
    .error
      s!"MintFeesAccrued does not match settled held rent for {longId}"
  else do
    let accruals ←
      RowTable.insert db.accruals (logId event)
        { longId := longId
          asset := addressKey asset
          amount := amount
          log := event }
    return { db with
             series := db.series.set longId
               { row with
                 mintFeesHeld := 0
                 mintFeesAccrued := row.mintFeesAccrued + amount }
             accruals := accruals }

def mintFeesAccrued
    (usdg : String)
    (db : IndexDb)
    (longId : Int)
    (asset : String)
    (amount : Int)
    (event : LogMeta) : Except String IndexDb := do
  let row ←
    RowTable.require (db.series.get? longId)
      s!"MintFeesAccrued for unknown series {longId}"
  accrueHeld usdg db row longId asset amount event

----
-- What Transfers Return
----

section

variable {db db' : IndexDb} {event : LogMeta}

theorem addNonnegative_eq_ok
    {current delta next : Int}
    {label : String} :
    addNonnegative current delta label = .ok next ↔
      0 ≤ current + delta ∧ next = current + delta := by
  unfold addNonnegative
  split
  · next hLess =>
      constructor
      · exact fun h => by cases h
      · exact fun h => absurd hLess (not_lt.mpr h.1)
  · next hLess =>
      constructor
      · exact fun h =>
          ⟨not_lt.mp hLess, (Except.ok.inj h).symm⟩
      · exact fun h => congrArg Except.ok h.2.symm

/- A wallet's row, with the units it holds now. -/
def IndexDb.withBalance
    (db : IndexDb)
    (tokenId : Int)
    (holder : String)
    (units : Int) : IndexDb :=
  { db with
    balances := db.balances.set (balanceId tokenId holder)
      { tokenId := tokenId
        holder := addressKey holder
        longId := (positionId tokenId).1
        side := (positionId tokenId).2
        units := units } }

theorem balanceDelta_eq_ok
    {tokenId : Int}
    {change : String × Int} :
    balanceDelta tokenId db change = .ok db' ↔
      0 ≤ balanceUnits db (balanceId tokenId change.1) +
          change.2 ∧
        db' =
          db.withBalance tokenId change.1
            (balanceUnits db (balanceId tokenId change.1) +
              change.2) := by
  unfold balanceDelta
  simp only [bind_eq_ok, addNonnegative_eq_ok, pure_eq_ok]
  constructor
  · rintro ⟨_, ⟨hUnits, rfl⟩, rfl⟩
    exact ⟨hUnits, rfl⟩
  · rintro ⟨hUnits, rfl⟩
    exact ⟨_, ⟨hUnits, rfl⟩, rfl⟩

/- Only the rows of long transfers are kept. -/
theorem recordTransfer_keeps
    {input : TokenTransfer}
    {batchIndex : Int}
    (h : recordTransfer db input event batchIndex = .ok db') :
    db' = { db with transfers := db'.transfers } := by
  unfold recordTransfer at h
  split at h
  · rcases bind_eq_ok.mp h with ⟨transfers, _, hNext⟩
    cases hNext
    rfl
  · cases h
    rfl

theorem openInterest_eq_ok
    {longId delta : Int} :
    openInterest db longId delta = .ok db' ↔
      ∃ row market,
        db.series.get? longId = some row ∧
        db.markets.get? row.underlying = some market ∧
        0 ≤ row.openInterestUnits + delta ∧
        0 ≤ market.openInterestUnits + delta ∧
        db' =
          { db with
            series := db.series.set longId
              { row with
                openInterestUnits :=
                  row.openInterestUnits + delta }
            markets := db.markets.set row.underlying
              { market with
                openInterestUnits :=
                  market.openInterestUnits + delta } } := by
  unfold openInterest
  simp only [bind_eq_ok, require_eq_ok, addNonnegative_eq_ok,
    pure_eq_ok]
  constructor
  · rintro
      ⟨row, hRow, market, hMarket, _, ⟨hSeries, rfl⟩, _,
        ⟨hUnits, rfl⟩, rfl⟩
    exact ⟨row, market, hRow, hMarket, hSeries, hUnits, rfl⟩
  · rintro
      ⟨row, market, hRow, hMarket, hSeries, hUnits, rfl⟩
    exact
      ⟨row, hRow, market, hMarket, _, ⟨hSeries, rfl⟩, _,
        ⟨hUnits, rfl⟩, rfl⟩

theorem transfer_eq_ok
    {escrow : String}
    {input : TokenTransfer}
    {batchIndex : Int} :
    transfer escrow db input event batchIndex = .ok db' ↔
      ∃ recorded deltas held,
        recordTransfer db input event batchIndex = .ok recorded ∧
        walletDeltas input escrow = .ok deltas ∧
        deltas.foldlM (balanceDelta input.tokenId) recorded =
          .ok held ∧
        (if openInterestDelta input = 0 then .ok held
          else
            openInterest held (positionId input.tokenId).1
              (openInterestDelta input)) = .ok db' := by
  unfold transfer
  simp only [bind_eq_ok]
  constructor
  · rintro ⟨recorded, hRecorded, deltas, hDeltas, held, hHeld, h⟩
    exact ⟨recorded, deltas, held, hRecorded, hDeltas, hHeld, h⟩
  · rintro ⟨recorded, deltas, held, hRecorded, hDeltas, hHeld, h⟩
    exact ⟨recorded, hRecorded, deltas, hDeltas, held, hHeld, h⟩

end

----
-- What the Other Handlers Return
----

variable {db db' : IndexDb} {event : LogMeta}
variable {underlying : String}

theorem marketRegistered_eq_ok
    {ticker : String}
    {config : MarketConfig} :
    marketRegistered db underlying ticker config event = .ok db' ↔
      db.markets.get? (addressKey underlying) = none ∧
        db' =
          { db with
            markets := db.markets.set (addressKey underlying)
              { underlying := addressKey underlying
                ticker := ticker
                config :=
                  { config with oracle := addressKey config.oracle }
                status := marketStatus config.enabled
                seriesCreated := 0
                seriesOpen := 0
                openInterestUnits := 0
                volumeUnits := 0
                volumeUsdg := 0
                premiumUsdg := 0
                feesUsdg := 0
                registered := event
                lastBlock := event.number
                lastTimestamp := event.timestamp } } := by
  unfold marketRegistered
  simp only [bind_eq_ok, insert_eq_ok, pure_eq_ok]
  constructor
  · rintro ⟨_, ⟨hNew, rfl⟩, rfl⟩
    exact ⟨hNew, rfl⟩
  · rintro ⟨hNew, rfl⟩
    exact ⟨_, ⟨hNew, rfl⟩, rfl⟩

theorem marketConfigSet_eq_ok
    {config : MarketConfig} :
    marketConfigSet db underlying config event = .ok db' ↔
      ∃ market,
        db.markets.get? (addressKey underlying) = some market ∧
        db' =
          { db with
            markets := db.markets.set (addressKey underlying)
              { market with
                config :=
                  { config with oracle := addressKey config.oracle }
                status := marketStatus config.enabled
                lastBlock := event.number
                lastTimestamp := event.timestamp } } := by
  unfold marketConfigSet
  simp only [bind_eq_ok, require_eq_ok, pure_eq_ok]

theorem mintPausedSet_eq_ok
    {paused : Bool} :
    mintPausedSet db underlying paused event = .ok db' ↔
      ∃ market,
        db.markets.get? (addressKey underlying) = some market ∧
        db' =
          { db with
            markets := db.markets.set (addressKey underlying)
              { market with
                config :=
                  { market.config with mintPaused := paused }
                lastBlock := event.number
                lastTimestamp := event.timestamp } } := by
  unfold mintPausedSet
  simp only [bind_eq_ok, require_eq_ok, pure_eq_ok]

theorem seriesCreated_eq_ok
    {args : SeriesCreated} :
    seriesCreated db args event = .ok db' ↔
      ∃ market,
        db.markets.get? (addressKey args.underlying) =
          some market ∧
        db.series.get? args.longId = none ∧
        db' =
          { db with
            series := db.series.set args.longId
              (args.row market.ticker event)
            markets := db.markets.set (addressKey args.underlying)
              { market with
                seriesCreated := market.seriesCreated + 1
                seriesOpen := market.seriesOpen + 1
                lastBlock := event.number
                lastTimestamp := event.timestamp } } := by
  unfold seriesCreated
  simp only [bind_eq_ok, require_eq_ok, insert_eq_ok, pure_eq_ok]
  constructor
  · rintro ⟨market, hMarket, _, ⟨hNew, rfl⟩, rfl⟩
    exact ⟨market, hMarket, hNew, rfl⟩
  · rintro ⟨market, hMarket, hNew, rfl⟩
    exact ⟨market, hMarket, _, ⟨hNew, rfl⟩, rfl⟩

theorem seriesSettled_eq_ok
    {longId : Int}
    {payouts : Payouts} :
    seriesSettled db longId payouts event = .ok db' ↔
      ∃ row,
        db.series.get? longId = some row ∧
        db' =
          { db with
            series := db.series.set longId
              { row with
                status := .settled
                settlementPrice := some payouts.settlementPrice
                payouts := some payouts
                settled := some event }
            markets :=
              countSettled db.markets row.underlying event } := by
  unfold seriesSettled
  simp only [bind_eq_ok, require_eq_ok, pure_eq_ok]

def IndexDb.withFree
    (db : IndexDb)
    (account asset : String)
    (free : Int) : IndexDb :=
  { db with
    ledger := db.ledger.set (ledgerId account asset)
      { account := addressKey account
        asset := addressKey asset
        free := free } }

theorem ledgerDelta_eq_ok
    {account asset : String}
    {delta : Int} :
    ledgerDelta db account asset delta = .ok db' ↔
      0 ≤ freeUnits db (ledgerId account asset) + delta ∧
        db' =
          db.withFree account asset
            (freeUnits db (ledgerId account asset) + delta) := by
  unfold ledgerDelta
  simp only [bind_eq_ok, addNonnegative_eq_ok, pure_eq_ok]
  constructor
  · rintro ⟨_, ⟨hFree, rfl⟩, rfl⟩
    exact ⟨hFree, rfl⟩
  · rintro ⟨hFree, rfl⟩
    exact ⟨_, ⟨hFree, rfl⟩, rfl⟩

theorem minted_eq_ok
    {args : Minted} :
    minted db args event = .ok db' ↔
      ∃ paid row,
        ledgerDelta db args.writer args.collateralAsset
          (-(args.collateral + args.fee)) = .ok paid ∧
        db.series.get? args.longId = some row ∧
        db.mints.get? (logId event) = none ∧
        db' =
          { paid with
            series := db.series.set args.longId
              { row with
                mintFeesHeld := row.mintFeesHeld + args.fee }
            mints := db.mints.set (logId event)
              { longId := args.longId
                writer := addressKey args.writer
                longTo := addressKey args.longTo
                units := args.units
                collateral := args.collateral
                fee := args.fee
                log := event } } := by
  unfold minted
  simp only [bind_eq_ok, require_eq_ok, insert_eq_ok, pure_eq_ok,
    ledgerDelta_eq_ok]
  constructor
  · rintro ⟨_, ⟨hFree, rfl⟩, row, hRow, _, ⟨hNew, rfl⟩, rfl⟩
    exact ⟨_, row, ⟨hFree, rfl⟩, hRow, hNew, rfl⟩
  · rintro ⟨_, row, ⟨hFree, rfl⟩, hRow, hNew, rfl⟩
    exact ⟨_, ⟨hFree, rfl⟩, row, hRow, _, ⟨hNew, rfl⟩, rfl⟩

theorem closed_eq_ok
    {args : Closed} :
    closed db args event = .ok db' ↔
      ∃ paid row,
        ledgerDelta db args.account args.collateralAsset
          (args.collateralFreed + args.feeRefund) = .ok paid ∧
        db.series.get? args.longId = some row ∧
        0 ≤ row.mintFeesHeld + -args.feeRefund ∧
        db.closes.get? (logId event) = none ∧
        db' =
          { paid with
            series := db.series.set args.longId
              { row with
                mintFeesHeld :=
                  row.mintFeesHeld + -args.feeRefund }
            closes := db.closes.set (logId event)
              { longId := args.longId
                account := addressKey args.account
                units := args.units
                collateralFreed := args.collateralFreed
                feeRefund := args.feeRefund
                log := event } } := by
  unfold closed
  simp only [bind_eq_ok, require_eq_ok, insert_eq_ok, pure_eq_ok,
    ledgerDelta_eq_ok, addNonnegative_eq_ok]
  constructor
  · rintro
      ⟨_, ⟨hFree, rfl⟩, row, hRow, _, ⟨hHeld, rfl⟩, _,
        ⟨hNew, rfl⟩, rfl⟩
    exact ⟨_, row, ⟨hFree, rfl⟩, hRow, hHeld, hNew, rfl⟩
  · rintro ⟨_, row, ⟨hFree, rfl⟩, hRow, hHeld, hNew, rfl⟩
    exact
      ⟨_, ⟨hFree, rfl⟩, row, hRow, _, ⟨hHeld, rfl⟩, _,
        ⟨hNew, rfl⟩, rfl⟩

/- What the log pays is credited only where it goes to the ledger. -/
theorem redeemed_eq_ok
    {args : Redeemed} :
    redeemed db args event = .ok db' ↔
      ∃ redemptions,
        RowTable.insert db.redemptions (logId event)
          { tokenId := args.tokenId
            longId := (positionId args.tokenId).1
            side := (positionId args.tokenId).2
            holder := addressKey args.holder
            recipient := addressKey args.recipient
            units := args.units
            asset := addressKey args.asset
            amount := args.amount
            amountInKind := args.amountInKind
            toLedger := args.toLedger
            log := event } = .ok redemptions ∧
        (if args.toLedger then
            ledgerDelta { db with redemptions := redemptions }
              args.holder args.asset args.amount
          else .ok { db with redemptions := redemptions }) =
          .ok db' := by
  unfold redeemed
  simp only [bind_eq_ok]
  rfl

theorem cashFlow_eq_ok
    {kind : CashFlowKind}
    {account asset actor : String}
    {amount delta : Int} :
    cashFlow kind db account asset amount delta actor event =
        .ok db' ↔
      ∃ paid,
        ledgerDelta db account asset delta = .ok paid ∧
        db.cashFlows.get? (logId event) = none ∧
        db' =
          { paid with
            cashFlows := db.cashFlows.set (logId event)
              { kind := kind
                account := addressKey account
                actor := addressKey actor
                asset := addressKey asset
                amount := amount
                log := event } } := by
  unfold cashFlow
  simp only [bind_eq_ok, insert_eq_ok, pure_eq_ok,
    ledgerDelta_eq_ok]
  constructor
  · rintro ⟨_, ⟨hFree, rfl⟩, _, ⟨hNew, rfl⟩, rfl⟩
    exact ⟨_, ⟨hFree, rfl⟩, hNew, rfl⟩
  · rintro ⟨_, ⟨hFree, rfl⟩, hNew, rfl⟩
    exact ⟨_, ⟨hFree, rfl⟩, _, ⟨hNew, rfl⟩, rfl⟩

theorem mintFeesAccrued_eq_ok
    {usdg asset : String}
    {longId amount : Int} :
    mintFeesAccrued usdg db longId asset amount event = .ok db' ↔
      ∃ row,
        db.series.get? longId = some row ∧
        row.status = .settled ∧
        row.mintFeesHeld = amount ∧
        addressKey asset =
          addressKey (if row.isPut then usdg else row.underlying) ∧
        db.accruals.get? (logId event) = none ∧
        db' =
          { db with
            series := db.series.set longId
              { row with
                mintFeesHeld := 0
                mintFeesAccrued := row.mintFeesAccrued + amount }
            accruals := db.accruals.set (logId event)
              { longId := longId
                asset := addressKey asset
                amount := amount
                log := event } } := by
  unfold mintFeesAccrued
  simp only [bind_eq_ok, require_eq_ok]
  constructor
  · rintro ⟨row, hRow, h⟩
    unfold accrueHeld at h
    by_cases hMatch :
      row.status = .settled ∧ row.mintFeesHeld = amount ∧
        addressKey asset =
          addressKey (if row.isPut then usdg else row.underlying)
    · rw [if_neg (by simpa only [not_or, not_not] using hMatch)]
        at h
      simp only [bind_eq_ok, insert_eq_ok, pure_eq_ok] at h
      rcases h with ⟨_, ⟨hNew, rfl⟩, rfl⟩
      exact
        ⟨row, hRow, hMatch.1, hMatch.2.1, hMatch.2.2, hNew, rfl⟩
    · rw [if_pos (by
        simpa only [not_and_or] using hMatch)] at h
      cases h
  · rintro ⟨row, hRow, hSettled, hHeld, hAsset, hNew, rfl⟩
    refine ⟨row, hRow, ?_⟩
    unfold accrueHeld
    rw [if_neg (by
      simp only [not_or, not_not]
      exact ⟨hSettled, hHeld, hAsset⟩)]
    simp only [bind_eq_ok, insert_eq_ok, pure_eq_ok]
    exact ⟨_, ⟨hNew, rfl⟩, rfl⟩

end Callhouse.Indexer.Projection
