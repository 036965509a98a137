import Callhouse.Keeper.Mm.Engine
import Callhouse.Keeper.Mm.Outflow
import Callhouse.Keeper.Mm.Pnl
import Callhouse.Keeper.Mm.SellerFee
import Callhouse.Lib.KeyedTable
import Mathlib.Data.List.Sort

/-
  keeper/src/v2/mm/mm-store.ts: the market maker's durable
  state, as the rows of `v2_mm_orders` and `v2_mm_ledger` in
  insertion order and the `mm:` keys of `v2_meta`.

  Main declarations:
    * `MmDb`, `trackOrder`, `recordOrderProgress`,
      `recordSettlement`
    * `MmDb.Keyed`
-/

----
-- Rows and Keys
----

namespace Callhouse.Keeper.Mm

/- pnl.ts: an order with the `filled` the bot last saw. -/
structure TrackedOrder where
  orderId : Int
  longId : Int
  kind : OrderKindName
  price : Int
  units : Int
  filledSeen : Int
deriving DecidableEq

/- The rows of the pre-vault binary carry the vault `''`. -/
structure OrderRow where
  order : TrackedOrder
  closed : Bool
  seenAt : Int
  vault : String
deriving DecidableEq

/-
  The ledger's unique texts: `fill:<orderId>:<filled>`,
  `settle:<longId>` and `settle:<vault>:<longId>`.
-/
inductive LedgerUniq where
  | fill (orderId filled : Int)
  | settle (longId : String)
  | settleFor (vault longId : String)
deriving DecidableEq

structure LedgerRow where
  event : LedgerEvent
  uniq : LedgerUniq
  vault : String
deriving DecidableEq

/- The last complete look at a vault's open orders. -/
structure FillCheckpoint extends FeeRegime where
  block : Int
  timestamp : Int
deriving DecidableEq

/- `LEGACY_SCOPED_KEYS`, in the source's order. -/
inductive ScopedKey where
  | makerIndex
  | lastSync
  | outflow
  | fillCheckpoint
deriving DecidableEq

def legacyScopedKeys : List ScopedKey :=
  [.makerIndex, .lastSync, .outflow, .fillCheckpoint]

/- What the text under a scoped key holds. -/
inductive ScopedValue where
  | index (n : Int)
  | time (t : Int)
  | projection (p : Projection)
  | checkpoint (c : FillCheckpoint)
deriving DecidableEq

/- A kill record, or the stored `null` of a resume. -/
structure KilledState where
  timestamp : Int
  reason : String
deriving DecidableEq

structure MmCore where
  chainId : Int
  clearinghouse : String
  orderBook : String
deriving DecidableEq

/- The text `chain:clearinghouse:orderBook:v1,v2`. -/
structure DeploymentId where
  core : MmCore
  vaults : List String
deriving DecidableEq

/- The `mm:` keys of `v2_meta`. -/
structure MmMeta where
  deployment : Option DeploymentId
  anchor : Option String
  scannedTo : Option Int
  unsuffixed : ScopedKey → Option ScopedValue
  perVault : ScopedKey → String → Option ScopedValue
  killed : Option (Option KilledState)
  killedVault : String → Option (Option KilledState)
  legacyVault : Option String
  lossStopAlerted : String → Option String

/- A file no deployment was bound to. -/
def MmMeta.empty : MmMeta :=
  { deployment := none
    anchor := none
    scannedTo := none
    unsuffixed := fun _ => none
    perVault := fun _ _ => none
    killed := none
    killedVault := fun _ => none
    legacyVault := none
    lossStopAlerted := fun _ => none }

structure MmDb where
  orders : List OrderRow
  ledger : List LedgerRow
  store : MmMeta

----
-- Reads and Writes
----

/- The vault column: `''` when the call names no vault. -/
def vaultColumn : Option String → String
  | none => ""
  | some vault => lc vault

def settlementUniq
    (longId : String) : Option String → LedgerUniq
  | none => .settle longId
  | some vault => .settleFor (lc vault) longId

def MmMeta.get
    (m : MmMeta)
    (key : ScopedKey) :
    Option String → Option ScopedValue
  | none => m.unsuffixed key
  | some vault => m.perVault key (lc vault)

def MmMeta.setUnsuffixed
    (m : MmMeta)
    (key : ScopedKey)
    (value : Option ScopedValue) : MmMeta :=
  { m with
    unsuffixed := fun k =>
      if k = key then value else m.unsuffixed k }

def MmMeta.setPerVault
    (m : MmMeta)
    (key : ScopedKey)
    (vault : String)
    (value : Option ScopedValue) : MmMeta :=
  { m with
    perVault := fun k v =>
      if k = key ∧ v = vault then value
      else m.perVault k v }

def MmMeta.set
    (m : MmMeta)
    (key : ScopedKey)
    (vault : Option String)
    (value : ScopedValue) : MmMeta :=
  match vault with
  | none => m.setUnsuffixed key value
  | some v => m.setPerVault key (lc v) value

def OrderRow.orderId
    (r : OrderRow) : Int :=
  r.order.orderId

def insertOrder
    (db : MmDb)
    (row : OrderRow) : MmDb :=
  { db with
    orders :=
      KeyedTable.insertOrIgnore OrderRow.orderId db.orders
        row }

def insertLedger
    (db : MmDb)
    (event : LedgerEvent)
    (uniq : LedgerUniq)
    (vault : Option String) : MmDb :=
  { db with
    ledger :=
      KeyedTable.insertOrIgnore LedgerRow.uniq db.ledger
        { event := event
          uniq := uniq
          vault := vaultColumn vault } }

def trackOrder
    (db : MmDb)
    (order : TrackedOrder)
    (closed : Bool)
    (now : Int)
    (vault : Option String) : MmDb :=
  insertOrder db
    { order := order
      closed := closed
      seenAt := now
      vault := vaultColumn vault }

/- New vault orders and the index after them. -/
def ingestOrders
    (db : MmDb)
    (rows : List (TrackedOrder × Bool))
    (index now : Int)
    (vault : Option String) : MmDb :=
  let tracked :=
    rows.foldl
      (fun acc r => trackOrder acc r.1 r.2 now vault) db
  { tracked with
    store :=
      tracked.store.set .makerIndex vault (.index index) }

/- The vault's orders that can still fill, by id. -/
def openOrders
    (db : MmDb)
    (vault : Option String) : List TrackedOrder :=
  ((db.orders.filter (fun r =>
      !r.closed &&
        match vault with
        | none => true
        | some v => decide (r.vault = lc v))).map
    (fun r => r.order)).insertionSort
      (fun a b => a.orderId ≤ b.orderId)

/- `UPDATE … SET filled_seen, closed WHERE order_id`. -/
def OrderRow.progress
    (orderId filled : Int)
    (closed : Bool)
    (r : OrderRow) : OrderRow :=
  if r.orderId = orderId then
    { r with
      order := { r.order with filledSeen := filled }
      closed := closed }
  else r

/- A fill and the order's new `filled`, in one transaction. -/
def recordOrderProgress
    (db : MmDb)
    (orderId filled : Int)
    (closed : Bool)
    (event : Option LedgerEvent)
    (vault : Option String) : MmDb :=
  let booked :=
    match event with
    | none => db
    | some e =>
        insertLedger db e (.fill orderId filled) vault
  { booked with
    orders :=
      booked.orders.map
        (OrderRow.progress orderId filled closed) }

def recordSettlement
    (db : MmDb)
    (event : SettleEvent)
    (vault : Option String) : MmDb :=
  insertLedger db (.settle event)
    (settlementUniq event.longId vault) vault

def fillCheckpoint
    (db : MmDb)
    (vault : Option String) : Option FillCheckpoint :=
  match db.store.get .fillCheckpoint vault with
  | some (.checkpoint c) => some c
  | _ => none

def setFillCheckpoint
    (db : MmDb)
    (c : FillCheckpoint)
    (vault : Option String) : MmDb :=
  { db with
    store :=
      db.store.set .fillCheckpoint vault (.checkpoint c) }

def setLastSync
    (db : MmDb)
    (t : Int)
    (vault : Option String) : MmDb :=
  { db with
    store := db.store.set .lastSync vault (.time t) }

def setOutflowProjection
    (db : MmDb)
    (p : Projection)
    (vault : Option String) : MmDb :=
  { db with
    store := db.store.set .outflow vault (.projection p) }

/- Setting to `none` stores the text `null`. -/
def setKilled
    (db : MmDb)
    (state : Option KilledState) : MmDb :=
  { db with
    store := { db.store with killed := some state } }

def setKilledFor
    (db : MmDb)
    (vault : String)
    (state : Option KilledState) : MmDb :=
  { db with
    store :=
      { db.store with
        killedVault := fun v =>
          if v = lc vault then some state
          else db.store.killedVault v } }

----
-- The Unique Columns
----

/- What SQLite's two key constraints enforce. -/
structure MmDb.Keyed
    (db : MmDb) : Prop where
  orders : (db.orders.map OrderRow.orderId).Nodup
  ledger : (db.ledger.map LedgerRow.uniq).Nodup

@[simp] theorem OrderRow.orderId_progress
    (orderId filled : Int)
    (closed : Bool)
    (r : OrderRow) :
    (r.progress orderId filled closed).orderId =
      r.orderId := by
  unfold OrderRow.progress
  split <;> rfl

theorem map_orderId_progress
    (orderId filled : Int)
    (closed : Bool)
    (rows : List OrderRow) :
    (rows.map (OrderRow.progress orderId filled closed)).map
        OrderRow.orderId =
      rows.map OrderRow.orderId := by
  rw [List.map_map]
  congr 1
  funext r
  exact OrderRow.orderId_progress orderId filled closed r

theorem orders_recordOrderProgress
    (db : MmDb)
    (orderId filled : Int)
    (closed : Bool)
    (event : Option LedgerEvent)
    (vault : Option String) :
    (recordOrderProgress db orderId filled closed event
        vault).orders =
      db.orders.map
        (OrderRow.progress orderId filled closed) := by
  cases event <;> rfl

variable {db : MmDb}

theorem MmDb.Keyed.insertOrder
    (h : db.Keyed)
    (row : OrderRow) :
    (insertOrder db row).Keyed :=
  { orders := KeyedTable.nodup_insertOrIgnore h.orders row
    ledger := h.ledger }

theorem MmDb.Keyed.insertLedger
    (h : db.Keyed)
    (event : LedgerEvent)
    (uniq : LedgerUniq)
    (vault : Option String) :
    (insertLedger db event uniq vault).Keyed :=
  { orders := h.orders
    ledger := KeyedTable.nodup_insertOrIgnore h.ledger _ }

theorem MmDb.Keyed.recordOrderProgress
    (h : db.Keyed)
    (orderId filled : Int)
    (closed : Bool)
    (event : Option LedgerEvent)
    (vault : Option String) :
    (recordOrderProgress db orderId filled closed event
      vault).Keyed := by
  have hBooked :
      (match event with
        | none => db
        | some e =>
            Mm.insertLedger db e (.fill orderId filled)
              vault).Keyed := by
    cases event with
    | none => exact h
    | some e => exact h.insertLedger e _ vault
  refine { orders := ?_, ledger := hBooked.ledger }
  simp only [Mm.recordOrderProgress]
  rw [map_orderId_progress]
  exact hBooked.orders

theorem MmDb.Keyed.ingestOrders
    (h : db.Keyed)
    (rows : List (TrackedOrder × Bool))
    (index now : Int)
    (vault : Option String) :
    (ingestOrders db rows index now vault).Keyed := by
  have hTracked :
      (rows.foldl
        (fun acc r => trackOrder acc r.1 r.2 now vault)
        db).Keyed := by
    induction rows generalizing db with
    | nil => exact h
    | cons r rest ih => exact ih (h.insertOrder _)
  exact
    { orders := hTracked.orders
      ledger := hTracked.ledger }

end Callhouse.Keeper.Mm
