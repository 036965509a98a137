import Callhouse.Indexer.Projection.Tables
import Callhouse.Lib.LockStep

/-
  indexer/lib/v2/orderBook.ts and indexer/src/v2/orderBook.ts:
  what the OrderBook's logs do to the tables, and what the
  AutoRoller's Repriced does to an order.  A thrown error is
  its message.

  Main declarations:
    * `placeOrder`, `fillOrder`, `cancelOrder`
    * `replacementPredecessor`
    * `orderPlaced`, `orderFilled`, `orderCancelled`, `taken`
    * `fillOrder_eq_ok`, `cancelOrder_eq_ok`
    * `orderPlaced_eq_ok`, `orderFilled_eq_ok`
-/

----
-- One Order
----

namespace Callhouse.Indexer.Projection

def orderKind
    (value : Int) : Except String BookKind :=
  if value = 0 then .ok .Bid
  else if value = 1 then .ok .AskResale
  else if value = 2 then .ok .AskWrite
  else .error s!"Unknown OrderKind {value}"

/- Zero stands for the deadline of the order's kind. -/
def orderValidUntil
    (kind : BookKind)
    (specified mintCutoff expiry : Int) : Except String Int :=
  if specified < 0 ∨ mintCutoff < 0 ∨ expiry < 0 then
    .error "Negative order time"
  else
    let deadline := if kind = .AskWrite then mintCutoff else expiry
    .ok
      (if specified = 0 then deadline
        else if specified < deadline then specified
        else deadline)

structure OrderView where
  units : Int
  filled : Int
  status : OrderStatus
deriving DecidableEq

def statusText : OrderStatus → String
  | .open => "open"
  | .filled => "filled"
  | .cancelled => "cancelled"
  | .pruned => "pruned"
  | .expired => "expired"

def placeOrder
    (units : Int) : Except String OrderView :=
  if units ≤ 0 then .error "Order units must be positive"
  else .ok { units := units, filled := 0, status := .open }

def fillOrder
    (order : OrderView)
    (units : Int) : Except String OrderView :=
  if order.status ≠ .open then
    let status := statusText order.status
    .error s!"Cannot fill {status} order"
  else if units ≤ 0 ∨ order.filled + units > order.units then
    .error "Order fill outside remaining units"
  else
    .ok
      { order with
        filled := order.filled + units
        status :=
          if order.filled + units = order.units then .filled
          else .open }

/- The clock may have marked it expired before it is pruned. -/
def cancelOrder
    (order : OrderView)
    (remaining : Int)
    (pruned : Bool) : Except String OrderView :=
  if order.status ≠ .open ∧ order.status ≠ .expired then
    let status := statusText order.status
    .error s!"Cannot cancel {status} order"
  else if remaining ≠ order.units - order.filled then
    .error "Order cancellation remaining units mismatch"
  else
    .ok
      { order with
        status := if pruned then .pruned else .cancelled }

def OrderRow.view
    (order : OrderRow) : OrderView :=
  { units := order.units
    filled := order.filled
    status := order.status }

----
-- Replacements
----

/- What a new order is matched by. -/
structure PlacedOrder where
  maker : String
  longId : Int
  tx : String
  logIndex : Int
deriving DecidableEq

/- Cancelled before, by its maker, in the order's transaction. -/
def IsCandidate
    (placed : PlacedOrder)
    (candidate : OrderRow) : Prop :=
  candidate.status = .cancelled ∧
    candidate.replacedBy = none ∧
    candidate.cancelledTx.map addressKey =
      some (addressKey placed.tx) ∧
    addressKey candidate.maker = addressKey placed.maker ∧
    candidate.longId = placed.longId ∧
    ∃ i ∈ candidate.cancelledLogIndex, i < placed.logIndex

instance
    (placed : PlacedOrder)
    (candidate : OrderRow) :
    Decidable (IsCandidate placed candidate) :=
  inferInstanceAs (Decidable (_ ∧ _))

/- The later cancellation; the one found first stays on a tie. -/
def laterCancelled
    (match? : Option OrderRow)
    (candidate : OrderRow) : Option OrderRow :=
  match match? with
  | none => some candidate
  | some current =>
      if candidate.cancelledLogIndex.getD 0 >
          current.cancelledLogIndex.getD 0 then
        some candidate
      else some current

/- Nearest preceding, unused cancellation. -/
def replacementPredecessor
    (candidates : List OrderRow)
    (placed : PlacedOrder) : Option Int :=
  ((candidates.filter
    (fun candidate => decide (IsCandidate placed candidate))).foldl
      laterCancelled none).map (fun order => order.orderId)

/- The query: the last of the candidates, by its log. -/
def candidatesFor
    (db : IndexDb)
    (placed : PlacedOrder) : List OrderRow :=
  ((db.orders.values.filter
    (fun order => decide (IsCandidate placed order))).foldl
      laterCancelled none).toList

----
-- The OrderBook's Logs
----

structure OrderPlaced where
  orderId : Int
  maker : String
  longId : Int
  kind : Int
  price : Int
  units : Int
  validUntil : Int
deriving DecidableEq

def OrderPlaced.row
    (args : OrderPlaced)
    (kind : BookKind)
    (initial : OrderView)
    (validUntil : Int)
    (event : LogMeta) : OrderRow :=
  { orderId := args.orderId
    maker := addressKey args.maker
    longId := args.longId
    kind := kind
    price := args.price
    units := initial.units
    filled := initial.filled
    validUntil := validUntil
    status := initial.status
    placed := event
    updatedAt := event.timestamp
    cancelledTx := none
    cancelledLogIndex := none
    replacedBy := none
    placedBy := none }

def OrderPlaced.placed
    (args : OrderPlaced)
    (event : LogMeta) : PlacedOrder :=
  { maker := args.maker
    longId := args.longId
    tx := event.tx
    logIndex := event.logIndex }

/- A predecessor is an order of the table. -/
def markReplaced
    (orders : OrderedMap Int OrderRow)
    (predecessor : Option Int)
    (orderId : Int) :
    Except String (OrderedMap Int OrderRow) :=
  match predecessor with
  | none => .ok orders
  | some old => do
      let order ←
        RowTable.require (orders.get? old) "RecordNotFoundError"
      return orders.set old
        { order with replacedBy := some orderId }

def orderPlaced
    (db : IndexDb)
    (args : OrderPlaced)
    (event : LogMeta) : Except String IndexDb := do
  let orderId := args.orderId
  let longId := args.longId
  let series ←
    RowTable.require (db.series.get? longId)
      s!"Order {orderId}: unknown series {longId}"
  let kind ← orderKind args.kind
  let initial ← placeOrder args.units
  let validUntil ←
    orderValidUntil kind args.validUntil series.mintCutoff
      series.expiry
  let orders ←
    RowTable.insert db.orders orderId
      (args.row kind initial validUntil event)
  let placed := { db with orders := orders }
  let linked ←
    markReplaced orders
      (replacementPredecessor
        (candidatesFor placed (args.placed event))
        (args.placed event)) orderId
  return { db with orders := linked }

def orderPlacedBy
    (db : IndexDb)
    (orderId : Int)
    (placer : String)
    (event : LogMeta) : Except String IndexDb := do
  let order ←
    RowTable.require (db.orders.get? orderId)
      s!"OrderPlacedBy {orderId}: unknown order"
  return { db with
           orders := db.orders.set orderId
             { order with
               placedBy := some (addressKey placer)
               updatedAt := event.timestamp } }

/- A buyer names where its longs go; a bid's maker is the buyer. -/
def fillParties
    (maker taker recipient : String)
    (takerIsBuyer : Bool) : String × String :=
  if takerIsBuyer then (recipient, maker) else (maker, taker)

structure OrderFilled where
  orderId : Int
  longId : Int
  taker : String
  maker : String
  units : Int
  price : Int
  premium : Int
  sellerFee : Int
  makerRebate : Int
  primary : Bool
  takerIsBuyer : Bool
  recipient : String
deriving DecidableEq

def OrderFilled.row
    (args : OrderFilled)
    (event : LogMeta) : FillRow :=
  let parties :=
    fillParties args.maker args.taker args.recipient
      args.takerIsBuyer
  { orderId := args.orderId
    longId := args.longId
    maker := addressKey args.maker
    taker := addressKey args.taker
    recipient := addressKey args.recipient
    units := args.units
    price := args.price
    premium := args.premium
    sellerFee := args.sellerFee
    makerRebate := args.makerRebate
    primary := args.primary
    takerIsBuyer := args.takerIsBuyer
    buyer := addressKey parties.1
    seller := addressKey parties.2
    log := event }

def SeriesRow.traded
    (series : SeriesRow)
    (args : OrderFilled) : SeriesRow :=
  { series with
    volumeUnits := series.volumeUnits + args.units
    volumeUsdg := series.volumeUsdg + args.premium
    lastPrice := some args.price }

def MarketRow.traded
    (market : MarketRow)
    (args : OrderFilled)
    (event : LogMeta) : MarketRow :=
  { market with
    volumeUnits := market.volumeUnits + args.units
    volumeUsdg := market.volumeUsdg + args.premium
    premiumUsdg :=
      market.premiumUsdg + (if args.primary then args.premium else 0)
    feesUsdg := market.feesUsdg + args.sellerFee - args.makerRebate
    lastBlock := event.number
    lastTimestamp := event.timestamp }

/- The order that a fill's log names, if the log agrees with it. -/
def filledOrder
    (db : IndexDb)
    (args : OrderFilled) : Except String OrderRow :=
  let orderId := args.orderId
  let message :=
    s!"OrderFilled {orderId}: missing or inconsistent order"
  match db.orders.get? orderId with
  | none => .error message
  | some order =>
      if order.longId ≠ args.longId ∨
          addressKey order.maker ≠ addressKey args.maker then
        .error message
      else .ok order

def orderFilled
    (db : IndexDb)
    (args : OrderFilled)
    (event : LogMeta) : Except String IndexDb := do
  let orderId := args.orderId
  let longId := args.longId
  let order ← filledOrder db args
  let next ← fillOrder order.view args.units
  let fills ←
    RowTable.insert db.fills (logId event) (args.row event)
  let series ←
    RowTable.require (db.series.get? longId)
      s!"OrderFilled {orderId}: unknown series {longId}"
  let underlying := series.underlying
  let market ←
    RowTable.require (db.markets.get? underlying)
      s!"OrderFilled {orderId}: unknown market {underlying}"
  return { db with
           orders := db.orders.set orderId
             { order with
               filled := next.filled
               status := next.status
               updatedAt := event.timestamp }
           fills := fills
           series := db.series.set longId (series.traded args)
           markets := db.markets.set underlying
             (market.traded args event) }

def orderCancelled
    (db : IndexDb)
    (orderId unitsRemaining : Int)
    (pruned : Bool)
    (event : LogMeta) : Except String IndexDb := do
  let order ←
    RowTable.require (db.orders.get? orderId)
      s!"OrderCancelled {orderId}: unknown order"
  let next ← cancelOrder order.view unitsRemaining pruned
  return { db with
           orders := db.orders.set orderId
             { order with
               status := next.status
               updatedAt := event.timestamp
               cancelledTx := some (addressKey event.tx)
               cancelledLogIndex := some event.logIndex } }

/-
  indexer/src/v2/autoRoller.ts, Repriced: an order that is
  there is linked to the new one, whatever it is.
-/
def repriced
    (db : IndexDb)
    (oldOrderId newOrderId : Int) : IndexDb :=
  { db with
    orders :=
      match db.orders.get? oldOrderId with
      | none => db.orders
      | some order =>
          db.orders.set oldOrderId
            { order with replacedBy := some newOrderId } }

structure Taken where
  taker : String
  longId : Int
  buying : Bool
  units : Int
  premium : Int
  takerFee : Int
deriving DecidableEq

def taken
    (db : IndexDb)
    (args : Taken)
    (event : LogMeta) : Except String IndexDb := do
  let longId := args.longId
  let takes ←
    RowTable.insert db.takes (logId event)
      { taker := addressKey args.taker
        longId := longId
        buying := args.buying
        units := args.units
        premium := args.premium
        takerFee := args.takerFee
        log := event }
  let series ←
    RowTable.require (db.series.get? longId)
      s!"Taken: unknown series {longId}"
  let underlying := series.underlying
  let market ←
    RowTable.require (db.markets.get? underlying)
      s!"Taken: unknown market {underlying}"
  return { db with
           takes := takes
           markets := db.markets.set underlying
             { market with
               feesUsdg := market.feesUsdg + args.takerFee
               lastBlock := event.number
               lastTimestamp := event.timestamp } }

----
-- What Becomes of One Order
----

theorem placeOrder_eq_ok
    {units : Int}
    {view : OrderView} :
    placeOrder units = .ok view ↔
      0 < units ∧
        view = { units := units, filled := 0, status := .open } := by
  unfold placeOrder
  split
  · next hNone =>
      constructor
      · exact fun h => by cases h
      · exact fun h => absurd h.1 (not_lt.mpr hNone)
  · next hSome =>
      constructor
      · exact fun h =>
          ⟨not_le.mp hSome, (Except.ok.inj h).symm⟩
      · exact fun h => congrArg Except.ok h.2.symm

theorem fillOrder_eq_ok
    {order next : OrderView}
    {units : Int} :
    fillOrder order units = .ok next ↔
      order.status = .open ∧ 0 < units ∧
        order.filled + units ≤ order.units ∧
        next =
          { order with
            filled := order.filled + units
            status :=
              if order.filled + units = order.units then .filled
              else .open } := by
  unfold fillOrder
  by_cases hOpen : order.status = .open
  · rw [if_neg (by simpa using hOpen)]
    split
    · next hOutside =>
        constructor
        · exact fun h => by cases h
        · intro h
          omega
    · next hInside =>
        constructor
        · exact fun h =>
            ⟨hOpen, by omega, by omega, (Except.ok.inj h).symm⟩
        · exact fun h => congrArg Except.ok h.2.2.2.symm
  · rw [if_pos hOpen]
    constructor
    · exact fun h => by cases h
    · exact fun h => absurd h.1 hOpen

theorem cancelOrder_eq_ok
    {order next : OrderView}
    {remaining : Int}
    {pruned : Bool} :
    cancelOrder order remaining pruned = .ok next ↔
      (order.status = .open ∨ order.status = .expired) ∧
        remaining = order.units - order.filled ∧
        next =
          { order with
            status := if pruned then .pruned else .cancelled } := by
  unfold cancelOrder
  by_cases hLive : order.status = .open ∨ order.status = .expired
  · rw [if_neg (by tauto)]
    split
    · next hOff =>
        constructor
        · exact fun h => by cases h
        · exact fun h => absurd h.2.1 hOff
    · next hExact =>
        constructor
        · exact fun h =>
            ⟨hLive, not_not.mp hExact, (Except.ok.inj h).symm⟩
        · exact fun h => congrArg Except.ok h.2.2.symm
  · rw [if_pos (by tauto)]
    constructor
    · exact fun h => by cases h
    · exact fun h => absurd h.1 hLive

----
-- What the Handlers Return
----

open LockStep RowTable

variable {db db' : IndexDb} {event : LogMeta}

/- The new order, and the order it replaces if there is one. -/
theorem orderPlaced_eq_ok
    {args : OrderPlaced} :
    orderPlaced db args event = .ok db' ↔
      ∃ series kind initial validUntil linked,
        db.series.get? args.longId = some series ∧
        orderKind args.kind = .ok kind ∧
        placeOrder args.units = .ok initial ∧
        orderValidUntil kind args.validUntil series.mintCutoff
          series.expiry = .ok validUntil ∧
        db.orders.get? args.orderId = none ∧
        markReplaced
          (db.orders.set args.orderId
            (args.row kind initial validUntil event))
          (replacementPredecessor
            (candidatesFor
              { db with
                orders := db.orders.set args.orderId
                  (args.row kind initial validUntil event) }
              (args.placed event))
            (args.placed event))
          args.orderId = .ok linked ∧
        db' = { db with orders := linked } := by
  unfold orderPlaced
  simp only [bind_eq_ok, require_eq_ok, insert_eq_ok, pure_eq_ok]
  constructor
  · rintro
      ⟨series, hSeries, kind, hKind, initial, hInitial, validUntil,
        hUntil, _, ⟨hNew, rfl⟩, linked, hLinked, rfl⟩
    exact
      ⟨series, kind, initial, validUntil, linked, hSeries, hKind,
        hInitial, hUntil, hNew, hLinked, rfl⟩
  · rintro
      ⟨series, kind, initial, validUntil, linked, hSeries, hKind,
        hInitial, hUntil, hNew, hLinked, rfl⟩
    exact
      ⟨series, hSeries, kind, hKind, initial, hInitial, validUntil,
        hUntil, _, ⟨hNew, rfl⟩, linked, hLinked, rfl⟩

theorem orderPlacedBy_eq_ok
    {orderId : Int}
    {placer : String} :
    orderPlacedBy db orderId placer event = .ok db' ↔
      ∃ order,
        db.orders.get? orderId = some order ∧
        db' =
          { db with
            orders := db.orders.set orderId
              { order with
                placedBy := some (addressKey placer)
                updatedAt := event.timestamp } } := by
  unfold orderPlacedBy
  simp only [bind_eq_ok, require_eq_ok, pure_eq_ok]

theorem filledOrder_eq_ok
    {args : OrderFilled}
    {order : OrderRow} :
    filledOrder db args = .ok order ↔
      db.orders.get? args.orderId = some order ∧
        order.longId = args.longId ∧
        addressKey order.maker = addressKey args.maker := by
  unfold filledOrder
  dsimp only
  cases db.orders.get? args.orderId with
  | none =>
      constructor
      · exact fun h => by cases h
      · exact fun h => by cases h.1
  | some order' =>
      dsimp only
      split
      · next hOff =>
          constructor
          · exact fun h => by cases h
          · rintro ⟨hSame, hLong, hMaker⟩
            cases hSame
            tauto
      · next hAgree =>
          rw [not_or, not_not, not_not] at hAgree
          constructor
          · intro h
            cases h
            exact ⟨rfl, hAgree⟩
          · exact fun h =>
              congrArg Except.ok (Option.some.inj h.1)

theorem orderFilled_eq_ok
    {args : OrderFilled} :
    orderFilled db args event = .ok db' ↔
      ∃ order next series market,
        filledOrder db args = .ok order ∧
        fillOrder order.view args.units = .ok next ∧
        db.fills.get? (logId event) = none ∧
        db.series.get? args.longId = some series ∧
        db.markets.get? series.underlying = some market ∧
        db' =
          { db with
            orders := db.orders.set args.orderId
              { order with
                filled := next.filled
                status := next.status
                updatedAt := event.timestamp }
            fills := db.fills.set (logId event) (args.row event)
            series := db.series.set args.longId
              (series.traded args)
            markets := db.markets.set series.underlying
              (market.traded args event) } := by
  unfold orderFilled
  simp only [bind_eq_ok, require_eq_ok, insert_eq_ok, pure_eq_ok]
  constructor
  · rintro
      ⟨order, hOrder, next, hNext, _, ⟨hNew, rfl⟩, series, hSeries,
        market, hMarket, rfl⟩
    exact
      ⟨order, next, series, market, hOrder, hNext, hNew, hSeries,
        hMarket, rfl⟩
  · rintro
      ⟨order, next, series, market, hOrder, hNext, hNew, hSeries,
        hMarket, rfl⟩
    exact
      ⟨order, hOrder, next, hNext, _, ⟨hNew, rfl⟩, series, hSeries,
        market, hMarket, rfl⟩

theorem repriced_cases
    (db : IndexDb)
    (oldOrderId newOrderId : Int) :
    repriced db oldOrderId newOrderId = db ∨
      ∃ order, db.orders.get? oldOrderId = some order ∧
        repriced db oldOrderId newOrderId =
          { db with
            orders := db.orders.set oldOrderId
              { order with
                replacedBy := some newOrderId } } := by
  unfold repriced
  cases hOrder : db.orders.get? oldOrderId with
  | none => exact .inl rfl
  | some order => exact .inr ⟨order, rfl, rfl⟩

theorem orderCancelled_eq_ok
    {orderId unitsRemaining : Int}
    {pruned : Bool} :
    orderCancelled db orderId unitsRemaining pruned event =
        .ok db' ↔
      ∃ order next,
        db.orders.get? orderId = some order ∧
        cancelOrder order.view unitsRemaining pruned = .ok next ∧
        db' =
          { db with
            orders := db.orders.set orderId
              { order with
                status := next.status
                updatedAt := event.timestamp
                cancelledTx := some (addressKey event.tx)
                cancelledLogIndex := some event.logIndex } } := by
  unfold orderCancelled
  simp only [bind_eq_ok, require_eq_ok, pure_eq_ok]
  constructor
  · rintro ⟨order, hOrder, next, hNext, rfl⟩
    exact ⟨order, next, hOrder, hNext, rfl⟩
  · rintro ⟨order, next, hOrder, hNext, rfl⟩
    exact ⟨order, hOrder, next, hNext, rfl⟩

theorem taken_eq_ok
    {args : Taken} :
    taken db args event = .ok db' ↔
      ∃ series market,
        db.takes.get? (logId event) = none ∧
        db.series.get? args.longId = some series ∧
        db.markets.get? series.underlying = some market ∧
        db' =
          { db with
            takes := db.takes.set (logId event)
              { taker := addressKey args.taker
                longId := args.longId
                buying := args.buying
                units := args.units
                premium := args.premium
                takerFee := args.takerFee
                log := event }
            markets := db.markets.set series.underlying
              { market with
                feesUsdg := market.feesUsdg + args.takerFee
                lastBlock := event.number
                lastTimestamp := event.timestamp } } := by
  unfold taken
  simp only [bind_eq_ok, require_eq_ok, insert_eq_ok, pure_eq_ok]
  constructor
  · rintro
      ⟨_, ⟨hNew, rfl⟩, series, hSeries, market, hMarket, rfl⟩
    exact ⟨series, market, hNew, hSeries, hMarket, rfl⟩
  · rintro ⟨series, market, hNew, hSeries, hMarket, rfl⟩
    exact
      ⟨_, ⟨hNew, rfl⟩, series, hSeries, market, hMarket, rfl⟩

end Callhouse.Indexer.Projection
