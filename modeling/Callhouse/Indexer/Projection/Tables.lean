import Callhouse.Indexer.Book
import Callhouse.Lib.LowerCase
import Callhouse.Lib.RowTable

/-
  indexer/ponder.schema.ts: the tables that the exchange's
  handlers write.  A row's id that is made of a transaction
  and a log index is the pair of them, and a row keeps the log
  it was written by.

  Main declarations:
    * `LogMeta`, `logId`
    * `SeriesRow`, `MarketRow`, `OrderRow`, `FillRow`
    * `IndexDb`
-/

----
-- Logs and Addresses
----

namespace Callhouse.Indexer.Projection

/- A log's block, transaction and place. -/
structure LogMeta where
  timestamp : Int
  number : Int
  tx : String
  logIndex : Int
deriving DecidableEq

def logId
    (event : LogMeta) : String × Int :=
  (event.tx, event.logIndex)

def zeroAddress : String :=
  "0x0000000000000000000000000000000000000000"

/- `key` and `lower`; hex columns are kept in lower case. -/
def addressKey
    (address : String) : String :=
  address.toLower

@[simp]
theorem addressKey_addressKey
    (address : String) :
    addressKey (addressKey address) = addressKey address :=
  LowerCase.toLower_toLower address

----
-- Rows
----

structure MarketConfig where
  enabled : Bool
  mintPaused : Bool
  strikeTick : Int
  exerciseFeeBps : Int
  mintFeePpm : Int
  oracle : String
deriving DecidableEq

inductive MarketStatus where
  | live
  | paused
deriving DecidableEq

structure MarketRow where
  underlying : String
  ticker : String
  config : MarketConfig
  status : MarketStatus
  seriesCreated : Int
  seriesOpen : Int
  openInterestUnits : Int
  volumeUnits : Int
  volumeUsdg : Int
  premiumUsdg : Int
  feesUsdg : Int
  registered : LogMeta
  lastBlock : Int
  lastTimestamp : Int
deriving DecidableEq

/- What Clearinghouse:SeriesSettled says. -/
structure Payouts where
  settlementPrice : Int
  longPayoutPerUnit : Int
  feePerUnit : Int
  shortPayoutPerUnit : Int
deriving DecidableEq

structure SeriesRow where
  longId : Int
  underlying : String
  ticker : String
  isPut : Bool
  strike : Int
  expiry : Int
  tenor : String
  mintCutoff : Int
  oracle : String
  exerciseFeeBps : Int
  mintFeePpm : Int
  mintFeesHeld : Int
  mintFeesAccrued : Int
  status : SeriesStatus
  settlementPrice : Option Int
  payouts : Option Payouts
  settled : Option LogMeta
  openInterestUnits : Int
  volumeUnits : Int
  volumeUsdg : Int
  lastPrice : Option Int
  created : LogMeta
deriving DecidableEq

structure OrderRow where
  orderId : Int
  maker : String
  longId : Int
  kind : BookKind
  price : Int
  units : Int
  filled : Int
  validUntil : Int
  status : OrderStatus
  placed : LogMeta
  updatedAt : Int
  cancelledTx : Option String
  cancelledLogIndex : Option Int
  replacedBy : Option Int
  placedBy : Option String
deriving DecidableEq

structure FillRow where
  orderId : Int
  longId : Int
  maker : String
  taker : String
  recipient : String
  units : Int
  price : Int
  premium : Int
  sellerFee : Int
  makerRebate : Int
  primary : Bool
  takerIsBuyer : Bool
  buyer : String
  seller : String
  log : LogMeta
deriving DecidableEq

structure TakeRow where
  taker : String
  longId : Int
  buying : Bool
  units : Int
  premium : Int
  takerFee : Int
  log : LogMeta
deriving DecidableEq

inductive PositionSide where
  | long
  | short
deriving DecidableEq

structure BalanceRow where
  tokenId : Int
  holder : String
  longId : Int
  side : PositionSide
  units : Int
deriving DecidableEq

structure TransferRow where
  tokenId : Int
  longId : Int
  sender : String
  recipient : String
  units : Int
  log : LogMeta
deriving DecidableEq

structure LedgerRow where
  account : String
  asset : String
  free : Int
deriving DecidableEq

structure MintRow where
  longId : Int
  writer : String
  longTo : String
  units : Int
  collateral : Int
  fee : Int
  log : LogMeta
deriving DecidableEq

structure CloseRow where
  longId : Int
  account : String
  units : Int
  collateralFreed : Int
  feeRefund : Int
  log : LogMeta
deriving DecidableEq

structure RedemptionRow where
  tokenId : Int
  longId : Int
  side : PositionSide
  holder : String
  recipient : String
  units : Int
  asset : String
  amount : Int
  amountInKind : Int
  toLedger : Bool
  log : LogMeta
deriving DecidableEq

inductive CashFlowKind where
  | deposit
  | withdrawal
deriving DecidableEq

structure CashFlowRow where
  kind : CashFlowKind
  account : String
  actor : String
  asset : String
  amount : Int
  log : LogMeta
deriving DecidableEq

structure AccrualRow where
  longId : Int
  asset : String
  amount : Int
  log : LogMeta
deriving DecidableEq

----
-- Settlements
----

inductive SettlementStatus where
  | None
  | Pending
  | Finalized
  | Held
deriving DecidableEq

structure SourceRecord where
  ok : Bool
  price : Int
  recordedAt : Int
deriving DecidableEq

/- The recorded sources are kept as an object under their index. -/
structure SettlementState where
  status : SettlementStatus
  price : Option Int
  sourceIndex : Option Int
  corroborated : Option Bool
  candidatePrice : Option Int
  candidateSourceIndex : Option Int
  candidateDisagreed : Option Bool
  candidateAt : Option Int
  finalizableAt : Option Int
  recordedSources : OrderedMap Int SourceRecord
  finalizedAt : Option Int
  finalizedTx : Option String
  heldAt : Option Int

structure SettlementRow where
  underlying : String
  expiry : Int
  state : SettlementState
  finalizedBlock : Option Int
  finalizedLogIndex : Option Int

def emptySettlement : SettlementState :=
  { status := .None
    price := none
    sourceIndex := none
    corroborated := none
    candidatePrice := none
    candidateSourceIndex := none
    candidateDisagreed := none
    candidateAt := none
    finalizableAt := none
    recordedSources := .empty
    finalizedAt := none
    finalizedTx := none
    heldAt := none }

----
-- The Database
----

structure IndexDb where
  markets : OrderedMap String MarketRow
  series : OrderedMap Int SeriesRow
  orders : OrderedMap Int OrderRow
  fills : OrderedMap (String × Int) FillRow
  takes : OrderedMap (String × Int) TakeRow
  transfers : OrderedMap (String × Int × Int) TransferRow
  balances : OrderedMap (Int × String) BalanceRow
  ledger : OrderedMap (String × String) LedgerRow
  mints : OrderedMap (String × Int) MintRow
  closes : OrderedMap (String × Int) CloseRow
  redemptions : OrderedMap (String × Int) RedemptionRow
  cashFlows : OrderedMap (String × Int) CashFlowRow
  accruals : OrderedMap (String × Int) AccrualRow
  settlements : OrderedMap (String × Int) SettlementRow

def emptyDb : IndexDb :=
  { markets := .empty
    series := .empty
    orders := .empty
    fills := .empty
    takes := .empty
    transfers := .empty
    balances := .empty
    ledger := .empty
    mints := .empty
    closes := .empty
    redemptions := .empty
    cashFlows := .empty
    accruals := .empty
    settlements := .empty }

end Callhouse.Indexer.Projection
