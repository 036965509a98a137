import Callhouse.Indexer.Projection.Clearinghouse
import Callhouse.Indexer.Projection.Clock
import Callhouse.Indexer.Projection.Orders

/-
  The exchange's index as a whole: the logs of the
  Clearinghouse, the OrderBook and the SettlementOracle, the
  AutoRoller's Repriced and the clock's ticks, one after
  another, and which tables a log leaves alone.

  Main declarations:
    * `IndexEvent`, `IndexLog`, `apply`, `runLogs`
    * `runLogs_invariant`, `runLogs_history`
    * `orders_of_not_writesOrders`
    * `indexed`, `sampleBook`
-/

----
-- Logs
----

namespace Callhouse.Indexer.Projection

inductive IndexEvent where
  | marketRegistered
      (underlying ticker : String)
      (config : MarketConfig)
  | marketConfigSet (underlying : String) (config : MarketConfig)
  | mintPausedSet (underlying : String) (paused : Bool)
  | seriesCreated (args : SeriesCreated)
  | transferSingle (input : TokenTransfer)
  | transferBatch
      (sender recipient : String)
      (ids values : List Int)
  | minted (args : Minted)
  | closed (args : Closed)
  | seriesSettled (longId : Int) (payouts : Payouts)
  | redeemed (args : Redeemed)
  | deposited
      (account asset : String)
      (amount : Int)
      (sender : String)
  | withdrawn
      (account asset : String)
      (amount : Int)
      (recipient : String)
  | mintFeesAccrued (longId : Int) (asset : String) (amount : Int)
  | orderPlaced (args : OrderPlaced)
  | orderPlacedBy (orderId : Int) (placer : String)
  | orderFilled (args : OrderFilled)
  | orderCancelled
      (orderId unitsRemaining : Int)
      (pruned : Bool)
  | taken (args : Taken)
  | repriced (oldOrderId newOrderId : Int)
  | oracle
      (underlying : String)
      (expiry : Int)
      (change : OracleEvent)
  | clock
deriving DecidableEq

structure IndexLog where
  event : IndexEvent
  log : LogMeta
deriving DecidableEq

/- The deployment's addresses. -/
structure IndexEnv where
  orderBook : String
  usdg : String
deriving DecidableEq

def apply
    (env : IndexEnv)
    (db : IndexDb)
    (entry : IndexLog) : Except String IndexDb :=
  match entry.event with
  | .marketRegistered underlying ticker config =>
      marketRegistered db underlying ticker config entry.log
  | .marketConfigSet underlying config =>
      marketConfigSet db underlying config entry.log
  | .mintPausedSet underlying paused =>
      mintPausedSet db underlying paused entry.log
  | .seriesCreated args => seriesCreated db args entry.log
  | .transferSingle input =>
      transfer env.orderBook db input entry.log 0
  | .transferBatch sender recipient ids values =>
      transferBatch env.orderBook db sender recipient ids values
        entry.log
  | .minted args => minted db args entry.log
  | .closed args => closed db args entry.log
  | .seriesSettled longId payouts =>
      seriesSettled db longId payouts entry.log
  | .redeemed args => redeemed db args entry.log
  | .deposited account asset amount sender =>
      deposited db account asset amount sender entry.log
  | .withdrawn account asset amount recipient =>
      withdrawn db account asset amount recipient entry.log
  | .mintFeesAccrued longId asset amount =>
      mintFeesAccrued env.usdg db longId asset amount entry.log
  | .orderPlaced args => orderPlaced db args entry.log
  | .orderPlacedBy orderId placer =>
      orderPlacedBy db orderId placer entry.log
  | .orderFilled args => orderFilled db args entry.log
  | .orderCancelled orderId unitsRemaining pruned =>
      orderCancelled db orderId unitsRemaining pruned entry.log
  | .taken args => taken db args entry.log
  | .repriced oldOrderId newOrderId =>
      .ok (repriced db oldOrderId newOrderId)
  | .oracle underlying expiry change =>
      .ok (record db underlying expiry change entry.log)
  | .clock => .ok (tick db entry.log.timestamp)

/- A log that a handler refuses stops the index. -/
def runLogs
    (env : IndexEnv)
    (db : IndexDb)
    (logs : List IndexLog) : Except String IndexDb :=
  logs.foldlM (apply env) db

variable {env : IndexEnv} {db db' : IndexDb}
variable {logs : List IndexLog}

/- What every log keeps, every run keeps. -/
theorem runLogs_invariant
    (inv : IndexDb → Prop)
    (hStep :
      ∀ db db' entry, inv db → apply env db entry = .ok db' →
        inv db')
    (hStart : inv db)
    (h : runLogs env db logs = .ok db') :
    inv db' := by
  induction logs generalizing db with
  | nil =>
      cases h
      exact hStart
  | cons entry rest ih =>
      rw [runLogs, List.foldlM_cons, LockStep.bind_eq_ok] at h
      rcases h with ⟨mid, hMid, hRest⟩
      exact ih (hStep db mid entry hStart hMid) hRest

/- The same, where the past may be spoken of. -/
theorem runLogs_history
    (inv : List IndexLog → IndexDb → Prop)
    (hStep :
      ∀ past db db' entry, inv past db →
        apply env db entry = .ok db' → inv (past ++ [entry]) db')
    {past : List IndexLog}
    (hStart : inv past db)
    (h : runLogs env db logs = .ok db') :
    inv (past ++ logs) db' := by
  induction logs generalizing past db with
  | nil =>
      cases h
      rw [List.append_nil]
      exact hStart
  | cons entry rest ih =>
      rw [runLogs, List.foldlM_cons, LockStep.bind_eq_ok] at h
      rcases h with ⟨mid, hMid, hRest⟩
      have hNow := ih (hStep past db mid entry hStart hMid) hRest
      rwa [List.append_assoc] at hNow

theorem runLogs_append
    {logs later : List IndexLog} :
    runLogs env db (logs ++ later) = .ok db' ↔
      ∃ mid, runLogs env db logs = .ok mid ∧
        runLogs env mid later = .ok db' := by
  unfold runLogs
  rw [List.foldlM_append, LockStep.bind_eq_ok]

theorem runLogs_singleton
    {entry : IndexLog} :
    runLogs env db [entry] = .ok db' ↔
      apply env db entry = .ok db' := by
  unfold runLogs
  rw [List.foldlM_cons, LockStep.bind_eq_ok]
  constructor
  · rintro ⟨mid, hMid, hEnd⟩
    cases hEnd
    exact hMid
  · exact fun h => ⟨db', h, rfl⟩

----
-- What a Log Leaves Alone
----

section

open LockStep

variable {event : LogMeta}

/- Only wallets' rows are written by a transfer's loop. -/
theorem balanceDelta_run_keeps
    {tokenId : Int}
    {deltas : List (String × Int)}
    (h : deltas.foldlM (balanceDelta tokenId) db = .ok db') :
    db' = { db with balances := db'.balances } := by
  induction deltas generalizing db with
  | nil =>
      cases h
      rfl
  | cons change rest ih =>
      rw [List.foldlM_cons, bind_eq_ok] at h
      rcases h with ⟨mid, hMid, hRest⟩
      have hNow := balanceDelta_eq_ok.mp hMid
      rw [ih hRest, hNow.2]
      rfl

variable {escrow : String}

/- What a transfer writes: rows, balances and open interest. -/
theorem transfer_keeps
    {input : TokenTransfer}
    {batchIndex : Int}
    (h : transfer escrow db input event batchIndex = .ok db') :
    db' =
      { db with
        transfers := db'.transfers
        balances := db'.balances
        series := db'.series
        markets := db'.markets } := by
  rcases transfer_eq_ok.mp h with
    ⟨recorded, deltas, held, hRecorded, _, hHeld, hInterest⟩
  have hRecorded' := recordTransfer_keeps hRecorded
  have hHeld' := balanceDelta_run_keeps hHeld
  split at hInterest
  · cases hInterest
    rw [hHeld', hRecorded']
  · rcases openInterest_eq_ok.mp hInterest with
      ⟨_, _, _, _, _, _, rfl⟩
    rw [hHeld', hRecorded']

theorem transferAll_keeps
    {sender recipient : String}
    {items : List (Int × Int)}
    {i : Int}
    (h :
      transferAll escrow sender recipient event db i items =
        .ok db') :
    db' =
      { db with
        transfers := db'.transfers
        balances := db'.balances
        series := db'.series
        markets := db'.markets } := by
  induction items generalizing db i with
  | nil =>
      cases h
      rfl
  | cons item rest ih =>
      rcases bind_eq_ok.mp h with ⟨mid, hMid, hRest⟩
      have hNow := transfer_keeps hMid
      rw [ih hRest, hNow]

theorem transferBatch_eq_ok
    {sender recipient : String}
    {ids values : List Int} :
    transferBatch escrow db sender recipient ids values event =
        .ok db' ↔
      ids.length = values.length ∧
        transferAll escrow sender recipient event db 0
          (ids.zip values) = .ok db' := by
  unfold transferBatch
  split
  · next hOff =>
      constructor
      · exact fun h => by cases h
      · exact fun h => absurd h.1 hOff
  · next hSame =>
      exact ⟨fun h => ⟨not_not.mp hSame, h⟩, fun h => h.2⟩

theorem ledgerDelta_keeps
    {account asset : String}
    {delta : Int}
    (h : ledgerDelta db account asset delta = .ok db') :
    db' = { db with ledger := db'.ledger } := by
  rw [(ledgerDelta_eq_ok.mp h).2]
  rfl

theorem redeemed_keeps
    {args : Redeemed}
    (h : redeemed db args event = .ok db') :
    db' =
      { db with
        redemptions := db'.redemptions
        ledger := db'.ledger } := by
  rcases redeemed_eq_ok.mp h with ⟨redemptions, _, hPaid⟩
  split at hPaid
  · rw [ledgerDelta_keeps hPaid]
  · cases hPaid
    rfl

theorem cashFlow_keeps
    {kind : CashFlowKind}
    {account asset actor : String}
    {amount delta : Int}
    (h :
      cashFlow kind db account asset amount delta actor event =
        .ok db') :
    db' =
      { db with
        cashFlows := db'.cashFlows
        ledger := db'.ledger } := by
  rcases cashFlow_eq_ok.mp h with ⟨paid, hPaid, _, rfl⟩
  rw [ledgerDelta_keeps hPaid]

def IndexEvent.writesOrders : IndexEvent → Bool
  | .orderPlaced _ => true
  | .orderPlacedBy _ _ => true
  | .orderFilled _ => true
  | .orderCancelled _ _ _ => true
  | .repriced _ _ => true
  | .clock => true
  | _ => false

theorem orders_of_not_writesOrders
    {entry : IndexLog}
    (h : apply env db entry = .ok db')
    (hNot : entry.event.writesOrders = false) :
    db'.orders = db.orders ∧ db'.fills = db.fills := by
  rcases entry with ⟨event, log⟩
  unfold apply at h
  cases event with
  | marketRegistered underlying ticker config =>
      rcases marketRegistered_eq_ok.mp h with ⟨_, rfl⟩
      exact ⟨rfl, rfl⟩
  | marketConfigSet underlying config =>
      rcases marketConfigSet_eq_ok.mp h with ⟨_, _, rfl⟩
      exact ⟨rfl, rfl⟩
  | mintPausedSet underlying paused =>
      rcases mintPausedSet_eq_ok.mp h with ⟨_, _, rfl⟩
      exact ⟨rfl, rfl⟩
  | seriesCreated args =>
      rcases seriesCreated_eq_ok.mp h with ⟨_, _, _, rfl⟩
      exact ⟨rfl, rfl⟩
  | transferSingle input =>
      rw [transfer_keeps h]
      exact ⟨rfl, rfl⟩
  | transferBatch sender recipient ids values =>
      rw [transferAll_keeps (transferBatch_eq_ok.mp h).2]
      exact ⟨rfl, rfl⟩
  | minted args =>
      rcases minted_eq_ok.mp h with ⟨paid, _, hPaid, _, _, rfl⟩
      rw [ledgerDelta_keeps hPaid]
      exact ⟨rfl, rfl⟩
  | closed args =>
      rcases closed_eq_ok.mp h with ⟨paid, _, hPaid, _, _, _, rfl⟩
      rw [ledgerDelta_keeps hPaid]
      exact ⟨rfl, rfl⟩
  | seriesSettled longId payouts =>
      rcases seriesSettled_eq_ok.mp h with ⟨_, _, rfl⟩
      exact ⟨rfl, rfl⟩
  | redeemed args =>
      rw [redeemed_keeps h]
      exact ⟨rfl, rfl⟩
  | deposited account asset amount sender =>
      rw [cashFlow_keeps h]
      exact ⟨rfl, rfl⟩
  | withdrawn account asset amount recipient =>
      rw [cashFlow_keeps h]
      exact ⟨rfl, rfl⟩
  | mintFeesAccrued longId asset amount =>
      rcases mintFeesAccrued_eq_ok.mp h with
        ⟨_, _, _, _, _, _, rfl⟩
      exact ⟨rfl, rfl⟩
  | taken args =>
      rcases taken_eq_ok.mp h with ⟨_, _, _, _, _, rfl⟩
      exact ⟨rfl, rfl⟩
  | oracle underlying expiry change =>
      cases h
      exact ⟨rfl, rfl⟩
  | orderPlaced | orderPlacedBy | orderFilled | orderCancelled
  | repriced | clock => cases hNot

end

----
-- A Small Book
----

/- What the index holds after logs that it does not refuse. -/
@[irreducible]
def indexed
    (env : IndexEnv)
    (logs : List IndexLog) : IndexDb :=
  (runLogs env emptyDb logs).toOption.getD emptyDb

theorem runLogs_indexed
    (h : (runLogs env emptyDb logs).isOk = true) :
    runLogs env emptyDb logs = .ok (indexed env logs) := by
  unfold indexed
  cases hRun : runLogs env emptyDb logs with
  | error message =>
      rw [hRun] at h
      cases h
  | ok db => rfl

def sampleEnv : IndexEnv :=
  { orderBook := "0xb0"
    usdg := "0xd0" }

def sampleMeta
    (tx : String)
    (logIndex : Int) : LogMeta :=
  { timestamp := 10
    number := 1
    tx := tx
    logIndex := logIndex }

def sampleListing : List IndexLog :=
  [ { event :=
        .marketRegistered "0xaa" "NVDA"
          { enabled := true
            mintPaused := false
            strikeTick := 1
            exerciseFeeBps := 10
            mintFeePpm := 20
            oracle := "0x0a" }
      log := sampleMeta "0x1" 0 },
    { event :=
        .seriesCreated
          { longId := 2
            underlying := "0xaa"
            isPut := true
            strike := 100
            expiry := 1000
            oracle := "0x0a"
            exerciseFeeBps := 10
            mintFeePpm := 20
            weekly := true
            special := false
            mintCutoff := 900 }
      log := sampleMeta "0x1" 1 } ]

def samplePlaced
    (orderId units : Int) : OrderPlaced :=
  { orderId := orderId
    maker := "0xa1"
    longId := 2
    kind := 1
    price := 7
    units := units
    validUntil := 0 }

def sampleFilled : OrderFilled :=
  { orderId := 1
    longId := 2
    taker := "0xa2"
    maker := "0xa1"
    units := 2
    price := 7
    premium := 14
    sellerFee := 1
    makerRebate := 0
    primary := false
    takerIsBuyer := true
    recipient := "0xa2" }

/- An order of five, of which two are taken. -/
def sampleBook : List IndexLog :=
  sampleListing ++
    [ { event := .orderPlaced (samplePlaced 1 5)
        log := sampleMeta "0x2" 0 },
      { event := .orderFilled sampleFilled
        log := sampleMeta "0x3" 0 } ]

/- The rest of it, cancelled and placed again at once. -/
def sampleCancel : IndexLog :=
  { event := .orderCancelled 1 3 false
    log := sampleMeta "0x4" 0 }

def samplePlace : IndexLog :=
  { event := .orderPlaced (samplePlaced 2 3)
    log := sampleMeta "0x4" 1 }

end Callhouse.Indexer.Projection
