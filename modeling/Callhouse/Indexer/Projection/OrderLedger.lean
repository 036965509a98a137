import Callhouse.Indexer.Projection.Run

/-
  Orders over whole runs of the index: each order's fills add
  up to what it says is filled, it is never filled beyond its
  units, and once it has ended it stays as it is.  Its link to
  the order that replaced it is rewritten by Repriced alone.

  Main declarations:
    * `OrdersOk`, `OrderRow.Follows`, `RepricedTo`
    * `ordersOk_apply`, `follows_apply`
    * `orders_match_fills`, `ended_orders_stay`
-/

----
-- Orders and Fills
----

namespace Callhouse.Indexer.Projection

section

abbrev OrderTable := OrderedMap Int OrderRow

abbrev FillTable := OrderedMap (String × Int) FillRow

/- What the recorded fills of an order add up to. -/
def filledUnits
    (fills : FillTable)
    (orderId : Int) : Int :=
  RowTable.sumBy
    (fun fill => if fill.orderId = orderId then fill.units else 0)
    fills

structure OrderOk
    (fills : FillTable)
    (orderId : Int)
    (order : OrderRow) : Prop where
  key : order.orderId = orderId
  maker : addressKey order.maker = order.maker
  units : 0 < order.units
  filled : order.filled = filledUnits fills orderId
  nonneg : 0 ≤ order.filled
  bound : order.filled ≤ order.units
  status : order.status = .filled ↔ order.filled = order.units

/- A fill names an order, and agrees with it. -/
structure FillOk
    (orders : OrderTable)
    (fill : FillRow) : Prop where
  units : 0 < fill.units
  order :
    ∃ order, orders.get? fill.orderId = some order ∧
      order.longId = fill.longId ∧ order.maker = fill.maker

structure OrdersOk
    (orders : OrderTable)
    (fills : FillTable) : Prop where
  order :
    ∀ orderId order, orders.get? orderId = some order →
      OrderOk fills orderId order
  fill :
    ∀ key fill, fills.get? key = some fill → FillOk orders fill

/- Kept by a rewriting that leaves terms and fills alone. -/
structure OrderRow.SameTerms
    (order order' : OrderRow) : Prop where
  orderId : order'.orderId = order.orderId
  maker : order'.maker = order.maker
  longId : order'.longId = order.longId
  units : order'.units = order.units
  filled : order'.filled = order.filled

variable {orders : OrderTable} {fills : FillTable}
variable {orderId : Int} {order order' : OrderRow}
variable {fill : FillRow}

theorem FillOk.set
    (h : FillOk orders fill)
    (hOrder : orders.get? orderId = some order)
    (hMaker : order'.maker = order.maker)
    (hLong : order'.longId = order.longId) :
    FillOk (orders.set orderId order') fill := by
  rcases h with ⟨hUnits, named, hNamed, hLongId, hMade⟩
  refine ⟨hUnits, ?_⟩
  by_cases hSame : orderId = fill.orderId
  · rw [← hSame, hOrder] at hNamed
    cases hNamed
    refine ⟨order', ?_, hLong.trans hLongId, hMaker.trans hMade⟩
    rw [← hSame, OrderedMap.get?_set_self]
  · refine ⟨named, ?_, hLongId, hMade⟩
    rw [OrderedMap.get?_set_of_ne _ _ hSame, hNamed]

theorem OrdersOk.rewrite
    (h : OrdersOk orders fills)
    (hOrder : orders.get? orderId = some order)
    (hSame : order.SameTerms order')
    (hStatus :
      order'.status = .filled ↔ order.status = .filled) :
    OrdersOk (orders.set orderId order') fills := by
  have hOk := h.order orderId order hOrder
  constructor
  · intro id found hFound
    rw [OrderedMap.get?_set] at hFound
    split at hFound
    · next hId =>
        cases hFound
        subst hId
        exact
          { key := hSame.orderId.trans hOk.key
            maker := by rw [hSame.maker, hOk.maker]
            units := by rw [hSame.units]; exact hOk.units
            filled := by rw [hSame.filled]; exact hOk.filled
            nonneg := by rw [hSame.filled]; exact hOk.nonneg
            bound := by
              rw [hSame.filled, hSame.units]
              exact hOk.bound
            status := by
              rw [hStatus, hSame.filled, hSame.units]
              exact hOk.status }
    · exact h.order id found hFound
  · intro key fill hFill
    exact
      (h.fill key fill hFill).set hOrder hSame.maker hSame.longId

/- Nothing is filled of an order that is not there. -/
theorem OrdersOk.filledUnits_of_none
    (h : OrdersOk orders fills)
    (hNone : orders.get? orderId = none) :
    filledUnits fills orderId = 0 := by
  apply RowTable.sumBy_eq_zero
  intro key fill hFill
  rcases (h.fill key fill hFill).order with ⟨named, hNamed, _, _⟩
  rw [if_neg]
  intro hSame
  rw [hSame, hNone] at hNamed
  cases hNamed

theorem OrdersOk.place
    (h : OrdersOk orders fills)
    (hNone : orders.get? orderId = none)
    (hId : order.orderId = orderId)
    (hMaker : addressKey order.maker = order.maker)
    (hUnits : 0 < order.units)
    (hFilled : order.filled = 0)
    (hStatus : order.status = .open) :
    OrdersOk (orders.set orderId order) fills := by
  constructor
  · intro id found hFound
    rw [OrderedMap.get?_set] at hFound
    split at hFound
    · next hSame =>
        cases hFound
        subst hSame
        exact
          { key := hId
            maker := hMaker
            units := hUnits
            filled :=
              hFilled.trans (h.filledUnits_of_none hNone).symm
            nonneg := hFilled.ge
            bound := hFilled.trans_le hUnits.le
            status := by
              rw [hStatus, hFilled]
              simp [hUnits.ne] }
    · exact h.order id found hFound
  · intro key fill hFill
    rcases h.fill key fill hFill with
      ⟨hPositive, named, hNamed, hRest⟩
    exact
      ⟨hPositive, named,
        RowTable.get?_set_of_get? hNone hNamed, hRest⟩

theorem filledUnits_set
    {key : String × Int}
    (h : fills.get? key = none)
    (id : Int) :
    filledUnits (fills.set key fill) id =
      filledUnits fills id +
        (if fill.orderId = id then fill.units else 0) :=
  RowTable.sumBy_insert _ fill h

/- A fill of an open order, within what remains of it. -/
theorem OrdersOk.fillOrder
    {key : String × Int}
    (h : OrdersOk orders fills)
    (hOrder : orders.get? orderId = some order)
    (hNew : fills.get? key = none)
    (hId : order'.orderId = order.orderId)
    (hMaker : order'.maker = order.maker)
    (hLong : order'.longId = order.longId)
    (hUnits : order'.units = order.units)
    (hFilled : order'.filled = order.filled + fill.units)
    (hStatus :
      order'.status = .filled ↔ order'.filled = order'.units)
    (hPositive : 0 < fill.units)
    (hBound : order.filled + fill.units ≤ order.units)
    (hNames : fill.orderId = orderId)
    (hLongId : order.longId = fill.longId)
    (hMade : order.maker = fill.maker) :
    OrdersOk (orders.set orderId order')
      (fills.set key fill) := by
  have hOk := h.order orderId order hOrder
  constructor
  · intro id found hFound
    rw [OrderedMap.get?_set] at hFound
    split at hFound
    · next hSame =>
        cases hFound
        subst hSame
        exact
          { key := hId.trans hOk.key
            maker := by rw [hMaker, hOk.maker]
            units := by rw [hUnits]; exact hOk.units
            filled := by
              rw [filledUnits_set hNew, if_pos hNames, hFilled,
                hOk.filled]
            nonneg := by
              have hBefore := hOk.nonneg
              omega
            bound := by omega
            status := hStatus }
    · next hOther =>
        have hFoundOk := h.order id found hFound
        exact
          { hFoundOk with
            filled := by
              rw [filledUnits_set hNew, hNames, if_neg hOther,
                add_zero]
              exact hFoundOk.filled }
  · intro key' fill' hFill
    rw [OrderedMap.get?_set] at hFill
    split at hFill
    · cases hFill
      refine ⟨hPositive, order', ?_, ?_, ?_⟩
      · rw [hNames, OrderedMap.get?_set_self]
      · rw [hLong, hLongId]
      · rw [hMaker, hMade]
    · exact (h.fill key' fill' hFill).set hOrder hMaker hLong

end

----
-- The Clock's Orders
----

section

variable {db : IndexDb} {fills : FillTable}

/- Open, and past a deadline of its own or of its series. -/
def IndexDb.expires
    (db : IndexDb)
    (now : Int)
    (order : OrderRow) : Bool :=
  decide (order.status = .open) &&
    match db.series.get? order.longId with
    | none => false
    | some row =>
        orderExpiresAt order.kind order.validUntil row.mintCutoff
          row.expiry now

theorem mem_expiredOrders
    (hKeys :
      ∀ orderId order, db.orders.get? orderId = some order →
        order.orderId = orderId)
    {now : Int}
    {orderId : Int}
    {order : OrderRow}
    (hOrder : db.orders.get? orderId = some order) :
    order.orderId ∈
        (clockTick now (clockSeries db)
          (clockOrders db)).expiredOrders ↔
      db.expires now order = true := by
  unfold clockTick clockOrders IndexDb.expires
  simp only [List.mem_map, List.mem_filter, Bool.and_eq_true,
    decide_eq_true_eq]
  constructor
  · rintro ⟨entry, ⟨⟨found, ⟨hFound, hOpen⟩, rfl⟩, hExpires⟩, hId⟩
    rcases db.orders.mem_values_iff.mp hFound with ⟨key, hKey⟩
    have hSame : key = orderId := by
      rw [← hKeys key found hKey, ← hKeys orderId order hOrder]
      exact hId
    rw [hSame, hOrder] at hKey
    cases hKey
    refine ⟨hOpen, ?_⟩
    unfold ClockOrder.expires at hExpires
    cases hRow : db.series.get? order.longId with
    | none =>
        rw [hRow] at hExpires
        cases hExpires
    | some row =>
        rw [hRow] at hExpires
        exact hExpires
  · rintro ⟨hOpen, hExpires⟩
    refine
      ⟨_, ⟨⟨order,
        ⟨db.orders.mem_values_iff.mpr ⟨orderId, hOrder⟩, hOpen⟩,
        rfl⟩, ?_⟩, rfl⟩
    unfold ClockOrder.expires
    cases hRow : db.series.get? order.longId with
    | none =>
        rw [hRow] at hExpires
        cases hExpires
    | some row =>
        rw [hRow] at hExpires
        exact hExpires

theorem get?_tick_orders
    (hKeys :
      ∀ orderId order, db.orders.get? orderId = some order →
        order.orderId = orderId)
    (now orderId : Int) :
    (tick db now).orders.get? orderId =
      (db.orders.get? orderId).map (fun order =>
        if db.expires now order then
          { order with status := .expired, updatedAt := now }
        else order) := by
  unfold tick
  dsimp only
  rw [RowTable.get?_updateWhere]
  cases hOrder : db.orders.get? orderId with
  | none => rfl
  | some order =>
      have hIff :=
        @mem_expiredOrders db hKeys now orderId order hOrder
      simp only [Option.map_some, decide_eq_true_eq, hIff]

theorem expires_open
    {now : Int}
    {order : OrderRow}
    (h : db.expires now order = true) :
    order.status = .open := by
  unfold IndexDb.expires at h
  simp only [Bool.and_eq_true, decide_eq_true_eq] at h
  exact h.1

/- An order that the clock ends is open, so it is not filled. -/
theorem OrdersOk.tick
    (h : OrdersOk db.orders fills)
    (now : Int) :
    OrdersOk (tick db now).orders fills := by
  have hKeys :=
    fun orderId order hOrder => (h.order orderId order hOrder).key
  constructor
  · intro orderId found hFound
    rw [get?_tick_orders hKeys] at hFound
    rcases Option.map_eq_some_iff.mp hFound with
      ⟨order, hOrder, rfl⟩
    have hOk := h.order orderId order hOrder
    split
    · next hExpires =>
        have hOpen := expires_open hExpires
        exact
          { hOk with
            status := by
              rw [← hOk.status, hOpen]
              simp }
    · exact hOk
  · intro key fill hFill
    rcases h.fill key fill hFill with
      ⟨hUnits, named, hNamed, hLong, hMaker⟩
    have hAfter := get?_tick_orders hKeys now fill.orderId
    rw [hNamed, Option.map_some] at hAfter
    refine ⟨hUnits, _, hAfter, ?_, ?_⟩
    · split <;> exact hLong
    · split <;> exact hMaker

end

----
-- Every Log Keeps the Orders in Step with Their Fills
----

section

variable {env : IndexEnv} {db db' : IndexDb} {event : LogMeta}

/- What is found by the query is an order of the table. -/
theorem foldl_laterCancelled_mem
    {candidates : List OrderRow}
    {start : Option OrderRow}
    {found : OrderRow}
    (h : candidates.foldl laterCancelled start = some found) :
    start = some found ∨ found ∈ candidates := by
  induction candidates generalizing start with
  | nil => exact .inl h
  | cons candidate rest ih =>
      rw [List.foldl_cons] at h
      rcases ih h with hStart | hRest
      · unfold laterCancelled at hStart
        cases start with
        | none =>
            cases hStart
            exact .inr List.mem_cons_self
        | some current =>
            dsimp only at hStart
            split at hStart
            · cases hStart
              exact .inr List.mem_cons_self
            · exact .inl hStart
      · exact .inr (List.mem_cons_of_mem _ hRest)

variable {placed : PlacedOrder}

theorem mem_candidatesFor
    {found : OrderRow}
    (h : found ∈ candidatesFor db placed) :
    found ∈ db.orders.values ∧ IsCandidate placed found := by
  unfold candidatesFor at h
  rw [Option.mem_toList] at h
  rcases foldl_laterCancelled_mem h with hNone | hMem
  · cases hNone
  · simpa using List.mem_filter.mp hMem

theorem replacementPredecessor_mem
    {candidates : List OrderRow}
    {old : Int}
    (h : replacementPredecessor candidates placed = some old) :
    ∃ found ∈ candidates, IsCandidate placed found ∧
      found.orderId = old := by
  unfold replacementPredecessor at h
  rcases Option.map_eq_some_iff.mp h with ⟨found, hFound, rfl⟩
  rcases foldl_laterCancelled_mem hFound with hNone | hMem
  · cases hNone
  · have hBoth := List.mem_filter.mp hMem
    exact ⟨found, hBoth.1, of_decide_eq_true hBoth.2, rfl⟩

/- A link is written on a cancelled order of the table. -/
theorem markReplaced_cases
    {orders linked : OrderTable}
    {orderId : Int}
    (hKeys :
      ∀ key order, orders.get? key = some order →
        order.orderId = key)
    (h :
      markReplaced orders
        (replacementPredecessor
          (candidatesFor { db with orders := orders } placed)
          placed) orderId = .ok linked) :
    linked = orders ∨
      ∃ old order,
        replacementPredecessor
          (candidatesFor { db with orders := orders } placed)
          placed = some old ∧
        orders.get? old = some order ∧
        IsCandidate placed order ∧
        linked =
          orders.set old
            { order with replacedBy := some orderId } := by
  cases hOld :
      replacementPredecessor
        (candidatesFor { db with orders := orders } placed)
        placed with
  | none =>
      rw [hOld] at h
      cases h
      exact .inl rfl
  | some old =>
      rw [hOld] at h
      rcases LockStep.bind_eq_ok.mp h with ⟨order, hOrder, hLinked⟩
      rw [RowTable.require_eq_ok] at hOrder
      cases hLinked
      rcases replacementPredecessor_mem hOld with
        ⟨found, hFound, hCandidate, hId⟩
      rcases mem_candidatesFor hFound with ⟨hValue, _⟩
      rcases orders.mem_values_iff.mp hValue with ⟨key, hKey⟩
      have hSame : key = old := by
        rw [← hKeys key found hKey, hId]
      rw [hSame, hOrder] at hKey
      cases hKey
      exact .inr ⟨old, order, rfl, hOrder, hCandidate, rfl⟩

theorem OrdersOk.keys
    {orders : OrderTable}
    {fills : FillTable}
    (h : OrdersOk orders fills)
    (key : Int)
    (order : OrderRow)
    (hOrder : orders.get? key = some order) :
    order.orderId = key :=
  (h.order key order hOrder).key

theorem OrdersOk.orderPlaced
    {args : OrderPlaced}
    (h : OrdersOk db.orders db.fills)
    (hApply : Projection.orderPlaced db args event = .ok db') :
    OrdersOk db'.orders db'.fills := by
  rcases orderPlaced_eq_ok.mp hApply with
    ⟨series, kind, initial, validUntil, linked, _, _, hInitial, _,
      hNew, hLinked, rfl⟩
  rcases placeOrder_eq_ok.mp hInitial with ⟨hUnits, rfl⟩
  have hPlaced :
      OrdersOk
        (db.orders.set args.orderId
          (args.row kind
            { units := args.units, filled := 0, status := .open }
            validUntil event))
        db.fills :=
    h.place hNew rfl (addressKey_addressKey _) hUnits rfl rfl
  rcases markReplaced_cases hPlaced.keys hLinked with
    rfl | ⟨old, order, _, hOrder, _, rfl⟩
  · exact hPlaced
  · exact hPlaced.rewrite hOrder ⟨rfl, rfl, rfl, rfl, rfl⟩ Iff.rfl

theorem OrdersOk.orderFilled
    {args : OrderFilled}
    (h : OrdersOk db.orders db.fills)
    (hApply : Projection.orderFilled db args event = .ok db') :
    OrdersOk db'.orders db'.fills := by
  rcases orderFilled_eq_ok.mp hApply with
    ⟨order, next, series, market, hFound, hNext, hNew, _, _, rfl⟩
  rcases filledOrder_eq_ok.mp hFound with
    ⟨hOrder, hLong, hMaker⟩
  rcases fillOrder_eq_ok.mp hNext with
    ⟨_, hPositive, hBound, rfl⟩
  have hOk := h.order args.orderId order hOrder
  have hStatus :
      (if order.filled + args.units = order.units
          then OrderStatus.filled else .open) = .filled ↔
        order.filled + args.units = order.units := by
    split
    · next hFull => simp [hFull]
    · next hPart => simp [hPart]
  have hMade : order.maker = (args.row event).maker := by
    rw [← hOk.maker]
    exact hMaker
  refine
    h.fillOrder hOrder hNew ?_ ?_ ?_ ?_ ?_ hStatus hPositive hBound
      ?_ hLong hMade
  all_goals rfl

theorem OrdersOk.orderCancelled
    {orderId unitsRemaining : Int}
    {pruned : Bool}
    (h : OrdersOk db.orders db.fills)
    (hApply :
      Projection.orderCancelled db orderId unitsRemaining pruned
        event = .ok db') :
    OrdersOk db'.orders db'.fills := by
  rcases orderCancelled_eq_ok.mp hApply with
    ⟨order, next, hOrder, hNext, rfl⟩
  rcases cancelOrder_eq_ok.mp hNext with ⟨hLive, _, rfl⟩
  change order.status = _ ∨ order.status = _ at hLive
  have hStatus :
      (if pruned then OrderStatus.pruned else .cancelled) =
          .filled ↔
        order.status = .filled := by
    rcases hLive with hOpen | hExpired
    · rw [hOpen]
      cases pruned <;> simp
    · rw [hExpired]
      cases pruned <;> simp
  refine h.rewrite hOrder ?_ hStatus
  exact ⟨rfl, rfl, rfl, rfl, rfl⟩

theorem OrdersOk.repriced
    (h : OrdersOk db.orders db.fills)
    (oldOrderId newOrderId : Int) :
    OrdersOk
      (Projection.repriced db oldOrderId newOrderId).orders
      db.fills := by
  rcases repriced_cases db oldOrderId newOrderId with
    hSame | ⟨order, hOrder, hNow⟩
  · rw [hSame]
    exact h
  · rw [hNow]
    exact h.rewrite hOrder ⟨rfl, rfl, rfl, rfl, rfl⟩ Iff.rfl

theorem ordersOk_apply
    {entry : IndexLog}
    (h : OrdersOk db.orders db.fills)
    (hApply : apply env db entry = .ok db') :
    OrdersOk db'.orders db'.fills := by
  cases hWrites : entry.event.writesOrders with
  | false =>
      rcases orders_of_not_writesOrders hApply hWrites with
        ⟨hOrders, hFills⟩
      rw [hOrders, hFills]
      exact h
  | true =>
      rcases entry with ⟨event, log⟩
      unfold apply at hApply
      cases event with
      | orderPlaced args => exact h.orderPlaced hApply
      | orderPlacedBy orderId placer =>
          rcases orderPlacedBy_eq_ok.mp hApply with
            ⟨order, hOrder, rfl⟩
          exact
            h.rewrite hOrder ⟨rfl, rfl, rfl, rfl, rfl⟩ Iff.rfl
      | orderFilled args => exact h.orderFilled hApply
      | orderCancelled orderId unitsRemaining pruned =>
          exact h.orderCancelled hApply
      | repriced oldOrderId newOrderId =>
          cases hApply
          exact h.repriced oldOrderId newOrderId
      | clock =>
          cases hApply
          exact h.tick log.timestamp
      | _ => cases hWrites

theorem ordersOk_empty :
    OrdersOk emptyDb.orders emptyDb.fills := by
  constructor
  · intro orderId order hOrder
    cases hOrder
  · intro key fill hFill
    cases hFill

/-
  Whatever logs the index has taken, an order's recorded fills
  add up to what it says is filled, within its units, it is
  filled exactly when nothing remains of it, and every fill is
  of an order of its maker and series.
-/
theorem orders_match_fills
    (env : IndexEnv)
    (logs : List IndexLog)
    (db : IndexDb)
    (h : runLogs env emptyDb logs = .ok db) :
    (∀ orderId order, db.orders.get? orderId = some order →
        order.filled = filledUnits db.fills orderId ∧
        0 ≤ order.filled ∧ order.filled ≤ order.units ∧
        0 < order.units ∧
        (order.status = .filled ↔ order.filled = order.units)) ∧
      ∀ key fill, db.fills.get? key = some fill →
        0 < fill.units ∧
        ∃ order, db.orders.get? fill.orderId = some order ∧
          order.longId = fill.longId ∧
          order.maker = fill.maker := by
  have hOk :=
    runLogs_invariant (fun db => OrdersOk db.orders db.fills)
      (fun _ _ _ => ordersOk_apply) ordersOk_empty h
  constructor
  · intro orderId order hOrder
    have hOrderOk := hOk.order orderId order hOrder
    exact
      ⟨hOrderOk.filled, hOrderOk.nonneg, hOrderOk.bound,
        hOrderOk.units, hOrderOk.status⟩
  · intro key fill hFill
    have hFillOk := hOk.fill key fill hFill
    exact ⟨hFillOk.units, hFillOk.order⟩

theorem orders_match_fills_small :
    ∃ order,
      (indexed sampleEnv sampleBook).orders.get? 1 = some order ∧
        order.filled =
          filledUnits (indexed sampleEnv sampleBook).fills 1 := by
  have hSome :
      ((indexed sampleEnv sampleBook).orders.get? 1).isSome =
        true := by
    decide +kernel
  rcases Option.isSome_iff_exists.mp hSome with ⟨order, hOrder⟩
  have hAll :=
    orders_match_fills sampleEnv sampleBook _
      (runLogs_indexed (by decide +kernel))
  exact ⟨order, hOrder, (hAll.1 1 order hOrder).1⟩

end

----
-- An Order's Life
----

section

/- Filled, or taken off the book. -/
def ended : OrderStatus → Bool
  | .filled => true
  | .cancelled => true
  | .pruned => true
  | _ => false

/-
  What may become of an order's row later on, where Repriced
  logs name `targets` as its replacements.
-/
structure OrderRow.Follows
    (targets : Int → Prop)
    (order order' : OrderRow) : Prop where
  orderId : order'.orderId = order.orderId
  maker : order'.maker = order.maker
  longId : order'.longId = order.longId
  kind : order'.kind = order.kind
  price : order'.price = order.price
  units : order'.units = order.units
  validUntil : order'.validUntil = order.validUntil
  placed : order'.placed = order.placed
  filled : order.filled ≤ order'.filled
  ended :
    ended order.status = true →
      order'.status = order.status ∧
        order'.filled = order.filled ∧
        order'.cancelledTx = order.cancelledTx ∧
        order'.cancelledLogIndex = order.cancelledLogIndex
  expired :
    order.status = .expired →
      order'.filled = order.filled ∧
        (order'.status = .expired ∨ order'.status = .cancelled ∨
          order'.status = .pruned)
  linked :
    ∀ orderId, order.replacedBy = some orderId →
      order'.replacedBy = some orderId ∨
        ∃ target, targets target ∧
          order'.replacedBy = some target

theorem OrderRow.Follows.refl
    (targets : Int → Prop)
    (order : OrderRow) :
    order.Follows targets order :=
  { orderId := rfl
    maker := rfl
    longId := rfl
    kind := rfl
    price := rfl
    units := rfl
    validUntil := rfl
    placed := rfl
    filled := le_refl _
    ended := fun _ => ⟨rfl, rfl, rfl, rfl⟩
    expired := fun h => ⟨rfl, .inl h⟩
    linked := fun _ h => .inl h }

theorem OrderRow.Follows.mono
    {targets targets' : Int → Prop}
    {order order' : OrderRow}
    (h : order.Follows targets order')
    (hMore : ∀ target, targets target → targets' target) :
    order.Follows targets' order' :=
  { h with
    linked := by
      intro orderId hLink
      rcases h.linked orderId hLink with
        hKept | ⟨target, hTarget, hNow⟩
      · exact .inl hKept
      · exact .inr ⟨target, hMore target hTarget, hNow⟩ }

theorem OrderRow.Follows.trans
    {targets : Int → Prop}
    {first second third : OrderRow}
    (h : first.Follows targets second)
    (h' : second.Follows targets third) :
    first.Follows targets third :=
  { orderId := h'.orderId.trans h.orderId
    maker := h'.maker.trans h.maker
    longId := h'.longId.trans h.longId
    kind := h'.kind.trans h.kind
    price := h'.price.trans h.price
    units := h'.units.trans h.units
    validUntil := h'.validUntil.trans h.validUntil
    placed := h'.placed.trans h.placed
    filled := h.filled.trans h'.filled
    ended := by
      intro hEnded
      rcases h.ended hEnded with ⟨hStatus, hFilled, hTx, hLog⟩
      rw [← hStatus] at hEnded
      rcases h'.ended hEnded with ⟨hStatus', hFilled', hTx', hLog'⟩
      exact
        ⟨hStatus'.trans hStatus, hFilled'.trans hFilled,
          hTx'.trans hTx, hLog'.trans hLog⟩
    expired := by
      intro hExpired
      rcases h.expired hExpired with ⟨hFilled, hStatus⟩
      rcases hStatus with hStill | hTaken
      · rcases h'.expired hStill with ⟨hFilled', hStatus'⟩
        exact ⟨hFilled'.trans hFilled, hStatus'⟩
      · have hEnded : Projection.ended second.status = true := by
          rcases hTaken with hCancelled | hPruned
          · rw [hCancelled]
            rfl
          · rw [hPruned]
            rfl
        rcases h'.ended hEnded with ⟨hStatus', hFilled', _, _⟩
        rw [hStatus']
        exact ⟨hFilled'.trans hFilled, .inr hTaken⟩
    linked := by
      intro orderId hLink
      rcases h.linked orderId hLink with
        hKept | ⟨target, hTarget, hNow⟩
      · exact h'.linked orderId hKept
      · rcases h'.linked target hNow with
          hThen | ⟨other, hOther, hLast⟩
        · exact .inr ⟨target, hTarget, hThen⟩
        · exact .inr ⟨other, hOther, hLast⟩ }

/- No row is lost, and each is followed by a later one. -/
def TableFollows
    (targets : Int → Int → Prop)
    (orders orders' : OrderTable) : Prop :=
  ∀ orderId order, orders.get? orderId = some order →
    ∃ order', orders'.get? orderId = some order' ∧
      order.Follows (targets orderId) order'

variable {targets : Int → Int → Prop}
variable {orders orders' orders'' : OrderTable}
variable {orderId : Int} {order order' : OrderRow}

theorem TableFollows.refl
    (targets : Int → Int → Prop)
    (orders : OrderTable) :
    TableFollows targets orders orders :=
  fun _ order h => ⟨order, h, .refl _ order⟩

theorem TableFollows.mono
    {targets' : Int → Int → Prop}
    (h : TableFollows targets orders orders')
    (hMore : ∀ id target, targets id target → targets' id target) :
    TableFollows targets' orders orders' := by
  intro id order hOrder
  rcases h id order hOrder with ⟨order', hOrder', hFollows⟩
  exact ⟨order', hOrder', hFollows.mono (hMore id)⟩

theorem TableFollows.trans
    (h : TableFollows targets orders orders')
    (h' : TableFollows targets orders' orders'') :
    TableFollows targets orders orders'' := by
  intro id first hFirst
  rcases h id first hFirst with ⟨second, hSecond, hLater⟩
  rcases h' id second hSecond with ⟨third, hThird, hLast⟩
  exact ⟨third, hThird, hLater.trans hLast⟩

theorem TableFollows.set
    (hOrder : orders.get? orderId = some order)
    (h : order.Follows (targets orderId) order') :
    TableFollows targets orders
      (orders.set orderId order') := by
  intro id found hFound
  by_cases hSame : orderId = id
  · subst hSame
    rw [hOrder] at hFound
    cases hFound
    exact ⟨order', OrderedMap.get?_set_self _ _ _, h⟩
  · refine ⟨found, ?_, .refl _ found⟩
    rw [OrderedMap.get?_set_of_ne _ _ hSame, hFound]

theorem TableFollows.insert
    (hNone : orders.get? orderId = none) :
    TableFollows targets orders (orders.set orderId order) :=
  fun _ found hFound =>
    ⟨found, RowTable.get?_set_of_get? hNone hFound,
      .refl _ found⟩

end

----
-- Every Log Is a Step of Each Order's Life
----

variable {env : IndexEnv} {db db' : IndexDb} {event : LogMeta}
variable {targets : Int → Int → Prop}

/- What Repriced logs name as the order that replaces one. -/
def RepricedTo
    (logs : List IndexLog)
    (orderId target : Int) : Prop :=
  ∃ entry ∈ logs, entry.event = .repriced orderId target

theorem repricedTo_append_left
    (logs later : List IndexLog)
    (id target : Int)
    (h : RepricedTo logs id target) :
    RepricedTo (logs ++ later) id target := by
  rcases h with ⟨found, hFound, hEvent⟩
  exact ⟨found, List.mem_append_left _ hFound, hEvent⟩

theorem repricedTo_append_right
    (logs later : List IndexLog)
    (id target : Int)
    (h : RepricedTo later id target) :
    RepricedTo (logs ++ later) id target := by
  rcases h with ⟨found, hFound, hEvent⟩
  exact ⟨found, List.mem_append_right _ hFound, hEvent⟩

/- Only an order without a link is linked. -/
theorem follows_link
    {placed : PlacedOrder}
    {order : OrderRow}
    (h : IsCandidate placed order)
    (targets : Int → Prop)
    (orderId : Int) :
    order.Follows targets
      { order with replacedBy := some orderId } :=
  { OrderRow.Follows.refl targets order with
    linked := by
      intro linked hLinked
      rw [h.2.1] at hLinked
      cases hLinked }

theorem follows_expire
    {now : Int}
    {order : OrderRow}
    (h : order.status = .open)
    (targets : Int → Prop) :
    order.Follows targets
      { order with status := .expired, updatedAt := now } :=
  { OrderRow.Follows.refl targets order with
    ended := by
      intro hEnded
      rw [h] at hEnded
      cases hEnded
    expired := by
      intro hExpired
      rw [h] at hExpired
      cases hExpired }

theorem follows_orderPlaced
    {args : OrderPlaced}
    (h : OrdersOk db.orders db.fills)
    (hApply : orderPlaced db args event = .ok db') :
    TableFollows targets db.orders db'.orders := by
  rcases orderPlaced_eq_ok.mp hApply with
    ⟨series, kind, initial, validUntil, linked, _, _, hInitial, _,
      hNew, hLinked, rfl⟩
  rcases placeOrder_eq_ok.mp hInitial with ⟨hUnits, rfl⟩
  have hPlaced :
      OrdersOk
        (db.orders.set args.orderId
          (args.row kind
            { units := args.units, filled := 0, status := .open }
            validUntil event))
        db.fills :=
    h.place hNew rfl (addressKey_addressKey _) hUnits rfl rfl
  rcases markReplaced_cases hPlaced.keys hLinked with
    rfl | ⟨old, order, _, hOrder, hCandidate, rfl⟩
  · exact .insert hNew
  · exact
      (TableFollows.insert hNew).trans
        (.set hOrder (follows_link hCandidate _ args.orderId))

theorem follows_orderPlacedBy
    {orderId : Int}
    {placer : String}
    (hApply : orderPlacedBy db orderId placer event = .ok db') :
    TableFollows targets db.orders db'.orders := by
  rcases orderPlacedBy_eq_ok.mp hApply with
    ⟨order, hOrder, rfl⟩
  exact
    .set hOrder
      { OrderRow.Follows.refl (targets orderId) order with
        linked := fun _ h => .inl h }

theorem follows_orderFilled
    {args : OrderFilled}
    (hApply : orderFilled db args event = .ok db') :
    TableFollows targets db.orders db'.orders := by
  rcases orderFilled_eq_ok.mp hApply with
    ⟨order, next, series, market, hFound, hNext, _, _, _, rfl⟩
  have hOrder := (filledOrder_eq_ok.mp hFound).1
  rcases fillOrder_eq_ok.mp hNext with ⟨hOpen, hPositive, _, rfl⟩
  change order.status = .open at hOpen
  refine
    .set hOrder
      { OrderRow.Follows.refl (targets args.orderId) order with
        filled := ?_
        ended := ?_
        expired := ?_ }
  · change order.filled ≤ order.filled + args.units
    omega
  · intro hEnded
    rw [hOpen] at hEnded
    cases hEnded
  · intro hExpired
    rw [hOpen] at hExpired
    cases hExpired

theorem follows_orderCancelled
    {orderId unitsRemaining : Int}
    {pruned : Bool}
    (hApply :
      orderCancelled db orderId unitsRemaining pruned event =
        .ok db') :
    TableFollows targets db.orders db'.orders := by
  rcases orderCancelled_eq_ok.mp hApply with
    ⟨order, next, hOrder, hNext, rfl⟩
  rcases cancelOrder_eq_ok.mp hNext with ⟨hLive, _, rfl⟩
  change order.status = .open ∨ order.status = .expired at hLive
  refine
    .set hOrder
      { OrderRow.Follows.refl (targets orderId) order with
        ended := ?_
        expired := ?_ }
  · intro hEnded
    rcases hLive with hOpen | hExpired
    · rw [hOpen] at hEnded
      cases hEnded
    · rw [hExpired] at hEnded
      cases hEnded
  · intro _
    refine ⟨rfl, .inr ?_⟩
    cases pruned with
    | false => exact .inl rfl
    | true => exact .inr rfl

theorem follows_tick
    (h : OrdersOk db.orders db.fills)
    (now : Int) :
    TableFollows targets db.orders (tick db now).orders := by
  intro orderId order hOrder
  have hAfter := get?_tick_orders h.keys now orderId
  rw [hOrder, Option.map_some] at hAfter
  refine ⟨_, hAfter, ?_⟩
  split
  · next hExpires =>
      exact follows_expire (expires_open hExpires) _
  · exact .refl _ order

theorem follows_repriced
    {oldOrderId newOrderId : Int}
    (hTarget : targets oldOrderId newOrderId) :
    TableFollows targets db.orders
      (repriced db oldOrderId newOrderId).orders := by
  rcases repriced_cases db oldOrderId newOrderId with
    hSame | ⟨order, hOrder, hNow⟩
  · rw [hSame]
    exact .refl targets db.orders
  · rw [hNow]
    exact
      .set hOrder
        { OrderRow.Follows.refl (targets oldOrderId) order with
          linked := fun _ _ =>
            .inr ⟨newOrderId, hTarget, rfl⟩ }

theorem follows_apply
    {entry : IndexLog}
    (h : OrdersOk db.orders db.fills)
    (hApply : apply env db entry = .ok db') :
    TableFollows (RepricedTo [entry]) db.orders
      db'.orders := by
  cases hWrites : entry.event.writesOrders with
  | false =>
      rw [(orders_of_not_writesOrders hApply hWrites).1]
      exact .refl _ db.orders
  | true =>
      rcases entry with ⟨event, log⟩
      unfold apply at hApply
      cases event with
      | orderPlaced args => exact follows_orderPlaced h hApply
      | orderPlacedBy orderId placer =>
          exact follows_orderPlacedBy hApply
      | orderFilled args => exact follows_orderFilled hApply
      | orderCancelled orderId unitsRemaining pruned =>
          exact follows_orderCancelled hApply
      | repriced oldOrderId newOrderId =>
          cases hApply
          exact
            follows_repriced
              ⟨_, List.mem_singleton_self _, rfl⟩
      | clock =>
          cases hApply
          exact follows_tick h log.timestamp
      | _ => cases hWrites

theorem follows_runLogs
    {logs : List IndexLog}
    (h : OrdersOk db.orders db.fills)
    (hRun : runLogs env db logs = .ok db') :
    TableFollows (RepricedTo logs) db.orders db'.orders := by
  have hStep :
      ∀ past mid mid' entry,
        OrdersOk mid.orders mid.fills ∧
            TableFollows (RepricedTo past) db.orders
              mid.orders →
          apply env mid entry = .ok mid' →
            OrdersOk mid'.orders mid'.fills ∧
              TableFollows (RepricedTo (past ++ [entry]))
                db.orders mid'.orders := by
    intro past mid mid' entry hInv hApply
    have hBefore :=
      hInv.2.mono (repricedTo_append_left past [entry])
    have hNow :=
      (follows_apply hInv.1 hApply).mono
        (repricedTo_append_right past [entry])
    exact ⟨ordersOk_apply hInv.1 hApply, hBefore.trans hNow⟩
  have hStart :
      OrdersOk db.orders db.fills ∧
        TableFollows (RepricedTo []) db.orders db.orders :=
    ⟨h, .refl _ db.orders⟩
  have hBoth :=
    runLogs_history
      (fun past mid =>
        OrdersOk mid.orders mid.fills ∧
          TableFollows (RepricedTo past) db.orders mid.orders)
      hStep hStart hRun
  exact hBoth.2

/-
  Whatever the index has taken and goes on to take, an order's
  row stays: its terms never change, what is filled of it never
  shrinks, one that was filled, cancelled or pruned is final,
  one that expired is only ever taken off the book, and a link
  to the order that replaced it is never dropped, and rewritten
  only to what a Repriced log of the order names.
-/
theorem ended_orders_stay
    (env : IndexEnv)
    (logs later : List IndexLog)
    (db db' : IndexDb)
    (h : runLogs env emptyDb logs = .ok db)
    (hLater : runLogs env db later = .ok db')
    (orderId : Int)
    (order : OrderRow)
    (hOrder : db.orders.get? orderId = some order) :
    ∃ order', db'.orders.get? orderId = some order' ∧
      order.Follows (RepricedTo later orderId) order' := by
  have hOk :=
    runLogs_invariant (fun db => OrdersOk db.orders db.fills)
      (fun _ _ _ => ordersOk_apply) ordersOk_empty h
  exact follows_runLogs hOk hLater orderId order hOrder

theorem ended_orders_stay_small :
    ∃ order order',
      (indexed sampleEnv sampleBook).orders.get? 1 = some order ∧
        (indexed sampleEnv
            (sampleBook ++ [sampleCancel])).orders.get? 1 =
          some order' ∧
        order.Follows (RepricedTo [sampleCancel] 1) order' := by
  have hSome :
      ((indexed sampleEnv sampleBook).orders.get? 1).isSome =
        true := by
    decide +kernel
  rcases Option.isSome_iff_exists.mp hSome with ⟨order, hOrder⟩
  have hAll :
      runLogs sampleEnv emptyDb (sampleBook ++ [sampleCancel]) =
        .ok (indexed sampleEnv (sampleBook ++ [sampleCancel])) :=
    runLogs_indexed (by decide +kernel)
  rcases runLogs_append.mp hAll with ⟨mid, hMid, hLater⟩
  have hSame : mid = indexed sampleEnv sampleBook := by
    unfold indexed
    rw [hMid]
    rfl
  subst hSame
  rcases ended_orders_stay sampleEnv sampleBook [sampleCancel] _ _
      hMid hLater 1 order hOrder with
    ⟨order', hOrder', hFollows⟩
  exact ⟨order, order', hOrder, hOrder', hFollows⟩

end Callhouse.Indexer.Projection
