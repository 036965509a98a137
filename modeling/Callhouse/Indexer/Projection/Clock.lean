import Callhouse.Indexer.Projection.Tables

/-
  indexer/lib/v2/clock.ts, indexer/lib/v2/oracle.ts and their
  handlers: what time alone does to series and orders, and
  what a settlement's verdict does to the series that expire
  with it.

  Main declarations:
    * `seriesStatusAt`, `orderExpiresAt`, `clockTick`, `tick`
    * `reduceOracle`, `seriesStatusOnVerdict`, `record`
-/

----
-- Time-Derived Status
----

namespace Callhouse.Indexer.Projection

/- The oracle's and the Clearinghouse's verdicts come first. -/
def seriesStatusAt
    (status : SeriesStatus)
    (mintCutoff expiry now : Int) : SeriesStatus :=
  match status with
  | .settling | .held | .settled => status
  | _ =>
      if now ≥ expiry then .expired
      else if now ≥ mintCutoff then .cutoff
      else status

def orderExpiresAt
    (kind : BookKind)
    (validUntil mintCutoff expiry now : Int) : Bool :=
  now ≥ validUntil ∨ now ≥ expiry ∨
    (kind = .AskWrite ∧ now ≥ mintCutoff)

/- An open order, with the deadlines of its series if known. -/
structure ClockOrder where
  order : OrderRow
  deadlines : Option (Int × Int)
deriving DecidableEq

structure ClockTick where
  seriesStatus : List (Int × SeriesStatus)
  expiredOrders : List Int
  liveSeries : List SeriesRow
  openOrders : List OrderRow
deriving DecidableEq

def SeriesRow.statusAt
    (row : SeriesRow)
    (now : Int) : SeriesStatus :=
  seriesStatusAt row.status row.mintCutoff row.expiry now

def ClockOrder.expires
    (entry : ClockOrder)
    (now : Int) : Bool :=
  match entry.deadlines with
  | none => false
  | some (mintCutoff, expiry) =>
      orderExpiresAt entry.order.kind entry.order.validUntil
        mintCutoff expiry now

def clockTick
    (now : Int)
    (series : List SeriesRow)
    (orders : List ClockOrder) : ClockTick :=
  { seriesStatus :=
      (series.filter (fun row => row.statusAt now ≠ row.status)).map
        (fun row => (row.longId, row.statusAt now))
    expiredOrders :=
      (orders.filter (fun entry => entry.expires now)).map
        (fun entry => entry.order.orderId)
    liveSeries :=
      (series.filter (fun row =>
        (row.statusAt now = .open ∨ row.statusAt now = .cutoff) ∧
          row.expiry > now)).map
        (fun row => { row with status := row.statusAt now })
    openOrders :=
      (orders.filter (fun entry => !entry.expires now)).map
        (fun entry => entry.order) }

----
-- Verdicts
----

def settlementId
    (underlying : String)
    (expiry : Int) : String × Int :=
  (addressKey underlying, expiry)

inductive OracleEvent where
  | SourceRecorded (sourceIndex : Int) (ok : Bool) (price : Int)
  | SettlementCandidate
      (price sourceIndex : Int)
      (disagreed : Bool)
      (finalizableAt : Int)
  | SettlementFinalized
      (price sourceIndex : Int)
      (corroborated : Bool)
      (tx : String)
  | SettlementResolved (price : Int) (tx : String)
  | SettlementVetoed
  | SettlementUnvetoed (finalizableAt : Int)
deriving DecidableEq

/- What a final verdict leaves of a candidate: nothing. -/
def SettlementState.finalize
    (current : SettlementState)
    (price : Int)
    (sourceIndex : Option Int)
    (corroborated : Option Bool)
    (tx : String)
    (now : Int) : SettlementState :=
  { current with
    status := .Finalized
    price := some price
    sourceIndex := sourceIndex
    corroborated := corroborated
    candidatePrice := none
    candidateSourceIndex := none
    candidateDisagreed := none
    candidateAt := none
    finalizableAt := none
    finalizedAt := some now
    finalizedTx := some tx
    heldAt := none }

def reduceOracle
    (current : SettlementState)
    (event : OracleEvent)
    (now : Int) : SettlementState :=
  match event with
  | .SourceRecorded sourceIndex ok price =>
      { current with
        recordedSources := current.recordedSources.set sourceIndex
          { ok := ok, price := price, recordedAt := now } }
  | .SettlementCandidate price sourceIndex disagreed finalizableAt =>
      { current with
        status := .Pending
        candidatePrice := some price
        candidateSourceIndex := some sourceIndex
        candidateDisagreed := some disagreed
        candidateAt := some now
        finalizableAt := some finalizableAt
        heldAt := none }
  | .SettlementFinalized price sourceIndex corroborated tx =>
      current.finalize price (some sourceIndex) (some corroborated)
        tx now
  | .SettlementResolved price tx =>
      current.finalize price none none tx now
  | .SettlementVetoed =>
      { current with
        status := .Held
        heldAt := some now }
  | .SettlementUnvetoed finalizableAt =>
      { current with
        status := .Pending
        candidateAt := some now
        finalizableAt := some finalizableAt
        heldAt := none }

def oracleSeriesStatus
    (current : SeriesStatus)
    (settlement : SettlementStatus) : SeriesStatus :=
  if current = .settled then current
  else
    match settlement with
    | .Held => .held
    | .Pending | .Finalized => .settling
    | .None => current

/- Before expiry a verdict does not stop a series trading. -/
def seriesStatusOnVerdict
    (current : SeriesStatus)
    (settlement : Option SettlementStatus)
    (expiry now : Int) : SeriesStatus :=
  if now < expiry ∧ (current = .open ∨ current = .cutoff) then
    current
  else
    match settlement with
    | none => current
    | some verdict => oracleSeriesStatus current verdict

----
-- The Oracle's Logs and the Clock's Ticks
----

variable (db : IndexDb)

def verdictOf
    (id : String × Int) : Option SettlementStatus :=
  (db.settlements.get? id).map (fun row => row.state.status)

def getSettlement
    (underlying : String)
    (expiry : Int) : SettlementRow :=
  (db.settlements.get? (settlementId underlying expiry)).getD
    { underlying := underlying
      expiry := expiry
      state := emptySettlement
      finalizedBlock := none
      finalizedLogIndex := none }

def OracleEvent.isFinal : OracleEvent → Bool
  | .SettlementFinalized .. => true
  | .SettlementResolved .. => true
  | _ => false

def OracleEvent.isSource : OracleEvent → Bool
  | .SourceRecorded .. => true
  | _ => false

def SeriesRow.judged
    (row : SeriesRow)
    (state : SettlementState)
    (now : Int) : SeriesRow :=
  { row with
    status :=
      seriesStatusOnVerdict row.status (some state.status) row.expiry
        now
    settlementPrice :=
      if state.status = .Finalized then state.price
      else row.settlementPrice }

def record
    (underlying : String)
    (expiry : Int)
    (change : OracleEvent)
    (event : LogMeta) : IndexDb :=
  let key := addressKey underlying
  let previous := getSettlement db key expiry
  let next := reduceOracle previous.state change event.timestamp
  let settlements :=
    db.settlements.set (settlementId key expiry)
      { previous with
        state := next
        finalizedBlock :=
          if change.isFinal then some event.number
          else previous.finalizedBlock
        finalizedLogIndex :=
          if change.isFinal then some event.logIndex
          else previous.finalizedLogIndex }
  { db with
    settlements := settlements
    series :=
      if change.isSource then db.series
      else
        RowTable.updateWhere
          (fun row => row.underlying = key ∧ row.expiry = expiry)
          (fun row => row.judged next event.timestamp)
          db.series }

/- A verdict that arrived before expiry takes effect with it. -/
def tickStatus
    (now : Int)
    (row : SeriesRow) : SeriesStatus :=
  if row.statusAt now = .expired then
    seriesStatusOnVerdict .expired
      (verdictOf db (settlementId row.underlying row.expiry))
      row.expiry now
  else row.statusAt now

def clockSeries
    (db : IndexDb) : List SeriesRow :=
  db.series.values.filter
    (fun row => row.status = .open ∨ row.status = .cutoff)

def clockOrders
    (db : IndexDb) : List ClockOrder :=
  (db.orders.values.filter
    (fun order => order.status = .open)).map
      (fun order =>
        { order := order
          deadlines :=
            (db.series.get? order.longId).map
              (fun row => (row.mintCutoff, row.expiry)) })

/- V2Clock:block: the writes that one tick asks for. -/
def tick
    (now : Int) : IndexDb :=
  let changes := clockTick now (clockSeries db) (clockOrders db)
  { db with
    series :=
      RowTable.updateWhere
        (fun row => row.longId ∈ changes.seriesStatus.map Prod.fst)
        (fun row => { row with status := tickStatus db now row })
        db.series
    orders :=
      RowTable.updateWhere
        (fun order => order.orderId ∈ changes.expiredOrders)
        (fun order =>
          { order with status := .expired, updatedAt := now })
        db.orders }

end Callhouse.Indexer.Projection
