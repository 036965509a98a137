import Callhouse.Indexer.Projection.Tables
import Callhouse.Lib.LockStep

/-
  indexer/lib/v2/houseVault.ts and indexer/src/v2/houseVault.ts:
  the House vaults' tables and what their logs do to them.  What
  a handler reads off the chain comes with its log, and a read
  that fails is none.

  Main declarations:
    * `HouseDb`, `HouseEvent`, `HouseLog`
    * `recordVaultCreated`, `epochRolled`, `epochOpened`
    * `closeQueue`, `closeMaturedQueue`, `requested`
    * `shareTransfer`, `applyHouse`, `runHouse`
-/

----
-- Rows
----

namespace Callhouse.Indexer.House

open Projection (LogMeta logId zeroAddress)

def lower
    (value : String) : String :=
  value.toLower

@[simp]
theorem lower_lower
    (value : String) :
    lower (lower value) = lower value :=
  LowerCase.toLower_toLower value

inductive HouseVaultKind where
  | weekly
  | daily
  | unknown
deriving DecidableEq

/- `weekly` is what VaultCreated states, if it does. -/
def houseVaultKind
    (legacy kinded : List String)
    (factory : String)
    (weekly readWeekly : Option Bool) : HouseVaultKind :=
  match weekly with
  | some weekly => if weekly then .weekly else .daily
  | none =>
      if lower factory ∈ legacy then .weekly
      else if lower factory ∉ kinded then .unknown
      else
        match readWeekly with
        | some weekly => if weekly then .weekly else .daily
        | none => .unknown

structure HouseVaultRow where
  vault : String
  underlying : String
  sharesToken : String
  factory : String
  kind : HouseVaultKind
  name : String
  symbol : String
  created : LogMeta
  sharesSupply : Option Int
  currentEpochId : Option Int
  currentEpochEnd : Option Int
deriving DecidableEq

inductive EpochStatus where
  | running
  | rolled
deriving DecidableEq

structure HouseEpochRow where
  vault : String
  epochId : Int
  start : Option Int
  closesAt : Option Int
  status : EpochStatus
  rolled : Option LogMeta
deriving DecidableEq

structure EpochOpenedRow where
  epochId : Int
  epochEnd : Int
  log : LogMeta
deriving DecidableEq

inductive QueueStatus where
  | queued
  | cancelled
  | claimed
deriving DecidableEq

/- A request of either side, for an amount of its kind. -/
structure QueueRow
    (A : Type) where
  vault : String
  account : String
  epochId : Int
  amount : A
  status : QueueStatus
  requested : LogMeta
  closed : Option LogMeta
deriving DecidableEq

@[ext]
structure DepositAmount where
  usdgAmount : Int
  stockAmount : Int
deriving DecidableEq

instance : Add DepositAmount where
  add amount more :=
    { usdgAmount := amount.usdgAmount + more.usdgAmount
      stockAmount := amount.stockAmount + more.stockAmount }

structure ClaimRow where
  vault : String
  account : String
  shares : Int
  usdgAmount : Int
  stockAmount : Int
  log : LogMeta
deriving DecidableEq

structure EpochRolled where
  epochId : Int
  epochEnd : Int
  price : Int
  nav : Int
  supply : Int
  sharesMinted : Int
  sharesBurned : Int
  performanceFee : Int
  nextEnd : Option Int
  owedBefore : Option Int
  owedAfter : Option Int
deriving DecidableEq

structure NavRow where
  vault : String
  epochId : Int
  settlementPrice : Int
  navUsdg : Int
  supply : Int
  sharesMinted : Int
  sharesBurned : Int
  performanceFee : Int
  log : LogMeta
deriving DecidableEq

structure QueueSettlementRow where
  vault : String
  epochId : Int
  sharesMinted : Int
  sharesBurned : Int
  performanceFee : Int
  log : LogMeta
deriving DecidableEq

structure PerformanceFeeRow where
  vault : String
  epochId : Int
  amount : Int
  owedBefore : Option Int
  owedAfter : Option Int
  paid : Option Int
  log : LogMeta
deriving DecidableEq

structure ShareBalanceRow where
  vault : String
  account : String
  shares : Int
  updated : LogMeta
deriving DecidableEq

structure HouseDb where
  vaults : OrderedMap String HouseVaultRow
  epochs : OrderedMap (String × Int) HouseEpochRow
  epochsOpened : OrderedMap String EpochOpenedRow
  depositQueue : OrderedMap (String × String) (QueueRow DepositAmount)
  withdrawQueue : OrderedMap (String × String) (QueueRow Int)
  claims : OrderedMap (String × Int) ClaimRow
  navs : OrderedMap (String × Int) NavRow
  queueSettlements : OrderedMap (String × Int) QueueSettlementRow
  performanceFees : OrderedMap (String × Int) PerformanceFeeRow
  shareBalances : OrderedMap (String × String) ShareBalanceRow

def emptyHouse : HouseDb :=
  { vaults := .empty
    epochs := .empty
    epochsOpened := .empty
    depositQueue := .empty
    withdrawQueue := .empty
    claims := .empty
    navs := .empty
    queueSettlements := .empty
    performanceFees := .empty
    shareBalances := .empty }

----
-- Vaults and Epochs
----

/- The factories that the registry knows. -/
structure HouseEnv where
  legacy : List String
  kinded : List String

/- VaultCreated, with what `epochEnd` and `epochId` answered. -/
structure VaultCreated where
  underlying : String
  vault : String
  name : String
  symbol : String
  weekly : Option Bool
  epoch : Option (Int × Int)
  readWeekly : Option Bool
deriving DecidableEq

/- The log of the epoch's opening goes before the answers. -/
def firstEpoch
    (opened : Option EpochOpenedRow)
    (answer : Option (Int × Int)) : Option Int × Int :=
  match opened with
  | some row => (some row.epochEnd, row.epochId)
  | none =>
      match answer with
      | some (epochEnd, epochId) => (some epochEnd, epochId)
      | none => (none, 0)

def recordVaultCreated
    (env : HouseEnv)
    (db : HouseDb)
    (address : String)
    (args : VaultCreated)
    (event : LogMeta) : Except String HouseDb := do
  let vault := lower args.vault
  let factory := lower address
  let first := firstEpoch (db.epochsOpened.get? vault) args.epoch
  let vaults ←
    RowTable.insert db.vaults vault
      { vault := vault
        underlying := lower args.underlying
        sharesToken := vault
        factory := factory
        kind :=
          houseVaultKind env.legacy env.kinded factory args.weekly
            args.readWeekly
        name := args.name
        symbol := args.symbol
        created := event
        sharesSupply := none
        currentEpochId := some first.2
        currentEpochEnd := first.1 }
  let epochs ←
    RowTable.insert db.epochs (vault, first.2)
      { vault := vault
        epochId := first.2
        start := some event.timestamp
        closesAt := first.1
        status := .running
        rolled := none }
  return { db with
           vaults := vaults
           epochs := epochs }

/- A row of the vault that is not there is not updated. -/
def updateVault
    (vaults : OrderedMap String HouseVaultRow)
    (vault : String)
    (change : HouseVaultRow → HouseVaultRow) :
    OrderedMap String HouseVaultRow :=
  match vaults.get? vault with
  | none => vaults
  | some row => vaults.set vault (change row)

def closedEpoch
    (closedRow : Option HouseEpochRow)
    (vault : String)
    (args : EpochRolled)
    (event : LogMeta) : HouseEpochRow :=
  { vault := vault
    epochId := args.epochId
    start := closedRow.bind (fun row => row.start)
    closesAt := some args.epochEnd
    status := .rolled
    rolled := some event }

/- What the boundary paid, if both reads answered. -/
def feePaid
    (performanceFee : Int)
    (owedBefore owedAfter : Option Int) : Option Int :=
  match owedBefore, owedAfter with
  | some before, some after => some (performanceFee + before - after)
  | _, _ => none

variable (db : HouseDb)

def epochRolled
    (address : String)
    (args : EpochRolled)
    (event : LogMeta) : Except String HouseDb := do
  let vault := lower address
  let closed := args.epochId
  let rolled :=
    db.epochs.set (vault, closed)
      (closedEpoch (db.epochs.get? (vault, closed)) vault args event)
  let nextId := closed + 1
  let epochs ←
    RowTable.insert rolled (vault, nextId)
      { vault := vault
        epochId := nextId
        start := some event.timestamp
        closesAt := args.nextEnd
        status := .running
        rolled := none }
  let navs ←
    RowTable.insert db.navs (logId event)
      { vault := vault
        epochId := closed
        settlementPrice := args.price
        navUsdg := args.nav
        supply := args.supply
        sharesMinted := args.sharesMinted
        sharesBurned := args.sharesBurned
        performanceFee := args.performanceFee
        log := event }
  let queueSettlements ←
    RowTable.insert db.queueSettlements (logId event)
      { vault := vault
        epochId := closed
        sharesMinted := args.sharesMinted
        sharesBurned := args.sharesBurned
        performanceFee := args.performanceFee
        log := event }
  let performanceFees ←
    RowTable.insert db.performanceFees (logId event)
      { vault := vault
        epochId := closed
        amount := args.performanceFee
        owedBefore := args.owedBefore
        owedAfter := args.owedAfter
        paid :=
          feePaid args.performanceFee args.owedBefore args.owedAfter
        log := event }
  return { db with
           vaults :=
             updateVault db.vaults vault (fun row =>
               { row with
                 currentEpochId := some nextId
                 currentEpochEnd := args.nextEnd })
           epochs := epochs
           navs := navs
           queueSettlements := queueSettlements
           performanceFees := performanceFees }

/- A null end is filled in. -/
def fillEnd
    (epochs : OrderedMap (String × Int) HouseEpochRow)
    (key : String × Int)
    (epochEnd : Int) : OrderedMap (String × Int) HouseEpochRow :=
  match epochs.get? key with
  | none => epochs
  | some row =>
      if row.closesAt = none then
        epochs.set key { row with closesAt := some epochEnd }
      else epochs

def openEpoch
    (epochId epochEnd : Int)
    (row : HouseVaultRow) : HouseVaultRow :=
  if row.currentEpochId = none ∨ row.currentEpochId = some epochId then
    { row with
      currentEpochId := some epochId
      currentEpochEnd := some epochEnd }
  else row

def epochOpened
    (address : String)
    (epochId epochEnd : Int)
    (event : LogMeta) : HouseDb :=
  let vault := lower address
  { db with
    epochsOpened :=
      db.epochsOpened.set vault
        { epochId := epochId, epochEnd := epochEnd, log := event }
    epochs := fillEnd db.epochs (vault, epochId) epochEnd
    vaults := updateVault db.vaults vault (openEpoch epochId epochEnd) }

----
-- Queues
----

abbrev Queue
    (A : Type) : Type :=
  OrderedMap (String × String) (QueueRow A)

def queueId
    (vault account : String) : String × String :=
  (lower vault, lower account)

variable {A : Type}

def closeQueue
    (queue : Queue A)
    (id : String × String)
    (status : QueueStatus)
    (event : LogMeta) : Queue A :=
  match queue.get? id with
  | none => queue
  | some row =>
      if row.status ≠ .queued then queue
      else
        queue.set id { row with status := status, closed := some event }

/- A request of the open epoch is not retired by a claim. -/
def closeMaturedQueue
    (queue : Queue A)
    (id : String × String)
    (current : Option Int)
    (event : LogMeta) : Queue A :=
  match current with
  | none => queue
  | some current =>
      match queue.get? id with
      | none => queue
      | some row =>
          if row.status ≠ .queued then queue
          else if row.epochId ≥ current then queue
          else closeQueue queue id .claimed event

/- A row is topped up only in the epoch that it was opened in. -/
def requested
    [Add A]
    (queue : Queue A)
    (vault account : String)
    (epochId : Int)
    (amount : A)
    (event : LogMeta) : Queue A :=
  let id := queueId vault account
  queue.set id
    { vault := lower vault
      account := lower account
      epochId := epochId
      amount :=
        match queue.get? id with
        | none => amount
        | some existing =>
            if existing.status = .queued ∧
                existing.epochId = epochId then
              existing.amount + amount
            else amount
      status := .queued
      requested := event
      closed := none }

def depositRequested
    (address account : String)
    (usdgAmount stockAmount epochId : Int)
    (event : LogMeta) : HouseDb :=
  { db with
    depositQueue :=
      requested db.depositQueue address account epochId
        { usdgAmount := usdgAmount, stockAmount := stockAmount }
        event }

def depositRequestCancelled
    (address account : String)
    (event : LogMeta) : HouseDb :=
  { db with
    depositQueue :=
      closeQueue db.depositQueue (queueId address account) .cancelled
        event }

def withdrawRequested
    (address account : String)
    (shares epochId : Int)
    (event : LogMeta) : HouseDb :=
  { db with
    withdrawQueue :=
      requested db.withdrawQueue address account epochId shares
        event }

def withdrawRequestCancelled
    (address account : String)
    (event : LogMeta) : HouseDb :=
  { db with
    withdrawQueue :=
      closeQueue db.withdrawQueue (queueId address account)
        .cancelled event }

def claimed
    (address account : String)
    (shares usdgAmount stockAmount : Int)
    (event : LogMeta) : Except String HouseDb := do
  let vault := lower address
  let claims ←
    RowTable.insert db.claims (logId event)
      { vault := vault
        account := lower account
        shares := shares
        usdgAmount := usdgAmount
        stockAmount := stockAmount
        log := event }
  let current :=
    (db.vaults.get? vault).bind (fun row => row.currentEpochId)
  return { db with
           claims := claims
           depositQueue :=
             closeMaturedQueue db.depositQueue
               (queueId vault account) current event
           withdrawQueue :=
             closeMaturedQueue db.withdrawQueue
               (queueId vault account) current event }

----
-- Shares
----

def nextShareBalance
    (previous : Option Int)
    (delta : Int) : Except String Int :=
  if previous.getD 0 + delta < 0 then
    .error "house vault share balance went negative"
  else .ok (previous.getD 0 + delta)

def applyTransferSupply
    (previous : Option Int)
    (sender recipient : String)
    (value : Int) : Except String Int :=
  if lower sender = zeroAddress then .ok (previous.getD 0 + value)
  else if lower recipient = zeroAddress then
    if previous.getD 0 - value < 0 then
      .error "house vault share supply went negative"
    else .ok (previous.getD 0 - value)
  else .ok (previous.getD 0)

/- One side of a transfer; the zero address holds nothing. -/
def bump
    (vault account : String)
    (delta : Int)
    (event : LogMeta)
    (balances : OrderedMap (String × String) ShareBalanceRow) :
    Except String (OrderedMap (String × String) ShareBalanceRow) :=
  if account = zeroAddress then .ok balances
  else do
    let id := queueId vault account
    let shares ←
      nextShareBalance
        ((balances.get? id).map (fun row => row.shares)) delta
    return balances.set id
      { vault := vault
        account := account
        shares := shares
        updated := event }

def moveSupply
    (vaults : OrderedMap String HouseVaultRow)
    (vault sender recipient : String)
    (value : Int) : Except String (OrderedMap String HouseVaultRow) :=
  match vaults.get? vault with
  | none => .ok vaults
  | some row => do
      let supply ←
        applyTransferSupply row.sharesSupply sender recipient value
      return vaults.set vault { row with sharesSupply := some supply }

def shareTransfer
    (address sender recipient : String)
    (value : Int)
    (event : LogMeta) : Except String HouseDb := do
  let vault := lower address
  let payer := lower sender
  let payee := lower recipient
  let vaults ← moveSupply db.vaults vault payer payee value
  let paid ← bump vault payer (-value) event db.shareBalances
  let shareBalances ← bump vault payee value event paid
  return { db with
           vaults := vaults
           shareBalances := shareBalances }

----
-- Logs
----

inductive HouseEvent where
  | vaultCreated (args : VaultCreated)
  | epochOpened (epochId epochEnd : Int)
  | epochRolled (args : EpochRolled)
  | depositRequested
      (account : String)
      (usdgAmount stockAmount epochId : Int)
  | depositRequestCancelled (account : String)
  | withdrawRequested
      (account : String)
      (shares epochId : Int)
  | withdrawRequestCancelled (account : String)
  | claimed
      (account : String)
      (shares usdgAmount stockAmount : Int)
  | transfer (sender recipient : String) (value : Int)
deriving DecidableEq

/- A log, with the contract that emitted it. -/
structure HouseLog where
  address : String
  event : HouseEvent
  log : LogMeta
deriving DecidableEq

def applyHouse
    (env : HouseEnv)
    (db : HouseDb)
    (entry : HouseLog) : Except String HouseDb :=
  match entry.event with
  | .vaultCreated args =>
      recordVaultCreated env db entry.address args entry.log
  | .epochOpened epochId epochEnd =>
      .ok (epochOpened db entry.address epochId epochEnd entry.log)
  | .epochRolled args => epochRolled db entry.address args entry.log
  | .depositRequested account usdgAmount stockAmount epochId =>
      .ok
        (depositRequested db entry.address account usdgAmount
          stockAmount epochId entry.log)
  | .depositRequestCancelled account =>
      .ok (depositRequestCancelled db entry.address account entry.log)
  | .withdrawRequested account shares epochId =>
      .ok
        (withdrawRequested db entry.address account shares epochId
          entry.log)
  | .withdrawRequestCancelled account =>
      .ok (withdrawRequestCancelled db entry.address account entry.log)
  | .claimed account shares usdgAmount stockAmount =>
      claimed db entry.address account shares usdgAmount stockAmount
        entry.log
  | .transfer sender recipient value =>
      shareTransfer db entry.address sender recipient value entry.log

def runHouse
    (env : HouseEnv)
    (db : HouseDb)
    (logs : List HouseLog) : Except String HouseDb :=
  logs.foldlM (applyHouse env) db

end Callhouse.Indexer.House
