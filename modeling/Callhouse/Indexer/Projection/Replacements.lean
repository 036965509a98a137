import Callhouse.Indexer.Projection.OrderLedger

/-
  Replaced orders: the OrderBook's replace() has no log of its
  own, and the index joins a cancellation to the order placed
  after it.  Every join is of one maker, series and
  transaction, no order is joined twice, and a replace() is
  always joined right, until a Repriced log of the AutoRoller
  names another order.

  Main declarations:
    * `LinksOk`, `bookOk_apply`
    * `InLogOrder`, `CancelLogged`
    * `links_are_replacements`
    * `replace_is_linked`
-/

----
-- Links
----

namespace Callhouse.Indexer.Projection

section

/- The old order made way for the new one. -/
structure Replaces
    (new old : OrderRow) : Prop where
  status : old.status = .cancelled
  maker : new.maker = old.maker
  longId : new.longId = old.longId
  tx : old.cancelledTx = some (addressKey new.placed.tx)
  before :
    ∃ i, old.cancelledLogIndex = some i ∧ i < new.placed.logIndex

/- No Repriced log names a replacement of the order. -/
def Unrepriced
    (targets : Int → Int → Prop)
    (orderId : Int) : Prop :=
  ∀ target, ¬ targets orderId target

structure LinksOk
    (targets : Int → Int → Prop)
    (orders : OrderTable) : Prop where
  sound :
    ∀ oldId old newId, Unrepriced targets oldId →
      orders.get? oldId = some old →
      old.replacedBy = some newId →
        ∃ new, orders.get? newId = some new ∧ Replaces new old
  unique :
    ∀ oldId oldId' old old' newId,
      Unrepriced targets oldId → Unrepriced targets oldId' →
      orders.get? oldId = some old →
      orders.get? oldId' = some old' →
      old.replacedBy = some newId →
      old'.replacedBy = some newId → oldId = oldId'

/- No order is new, and no link is but by a Repriced log. -/
def SameLinks
    (targets : Int → Int → Prop)
    (orders orders' : OrderTable) : Prop :=
  ∀ orderId order', orders'.get? orderId = some order' →
    ∃ order, orders.get? orderId = some order ∧
      order.Follows (targets orderId) order' ∧
      (Unrepriced targets orderId →
        order'.replacedBy = order.replacedBy)

variable {targets targets' : Int → Int → Prop}
variable {orders orders' : OrderTable}
variable {orderId : Int}

theorem Unrepriced.mono
    (h : Unrepriced targets' orderId)
    (hMore : ∀ id target, targets id target → targets' id target) :
    Unrepriced targets orderId :=
  fun target hTarget => h target (hMore orderId target hTarget)

theorem LinksOk.mono
    (h : LinksOk targets orders)
    (hMore : ∀ id target, targets id target → targets' id target) :
    LinksOk targets' orders :=
  { sound := fun oldId old newId hOld =>
      h.sound oldId old newId (hOld.mono hMore)
    unique := fun oldId oldId' old old' newId hOld hOld' =>
      h.unique oldId oldId' old old' newId (hOld.mono hMore)
        (hOld'.mono hMore) }

theorem SameLinks.mono
    (h : SameLinks targets orders orders')
    (hMore : ∀ id target, targets id target → targets' id target) :
    SameLinks targets' orders orders' := by
  intro orderId order' hOrder'
  rcases h orderId order' hOrder' with
    ⟨order, hOrder, hFollows, hLink⟩
  exact
    ⟨order, hOrder, hFollows.mono (hMore orderId),
      fun hNone => hLink (hNone.mono hMore)⟩

theorem SameLinks.refl
    (targets : Int → Int → Prop)
    (orders : OrderTable) :
    SameLinks targets orders orders :=
  fun _ order h => ⟨order, h, .refl _ order, fun _ => rfl⟩

theorem SameLinks.set
    {order order' : OrderRow}
    (hOrder : orders.get? orderId = some order)
    (hFollows : order.Follows (targets orderId) order')
    (hLink :
      Unrepriced targets orderId →
        order'.replacedBy = order.replacedBy) :
    SameLinks targets orders (orders.set orderId order') := by
  intro id found hFound
  rw [OrderedMap.get?_set] at hFound
  split at hFound
  · next hSame =>
      cases hFound
      subst hSame
      exact ⟨order, hOrder, hFollows, hLink⟩
  · exact ⟨found, hFound, .refl _ found, fun _ => rfl⟩

theorem Replaces.follows
    {new old new' old' : OrderRow}
    {targets targets' : Int → Prop}
    (h : Replaces new old)
    (hNew : new.Follows targets new')
    (hOld : old.Follows targets' old') :
    Replaces new' old' := by
  rcases h.before with ⟨i, hIndex, hLess⟩
  rcases hOld.ended (by rw [h.status]; rfl) with
    ⟨hStatus, _, hTx, hLog⟩
  exact
    { status := hStatus.trans h.status
      maker := by rw [hNew.maker, hOld.maker, h.maker]
      longId := by rw [hNew.longId, hOld.longId, h.longId]
      tx := by rw [hTx, hNew.placed, h.tx]
      before :=
        ⟨i, hLog.trans hIndex, by rw [hNew.placed]; exact hLess⟩ }

section

variable (h : LinksOk targets orders)
include h

theorem LinksOk.same
    (hSame : SameLinks targets orders orders')
    (hFollows : TableFollows targets orders orders') :
    LinksOk targets orders' := by
  constructor
  · intro oldId old' newId hNone hOld' hLink
    rcases hSame oldId old' hOld' with ⟨old, hOld, hLater, hLinks⟩
    rw [hLinks hNone] at hLink
    rcases h.sound oldId old newId hNone hOld hLink with
      ⟨new, hNew, hReplaces⟩
    rcases hFollows newId new hNew with ⟨new', hNew', hNewer⟩
    exact ⟨new', hNew', hReplaces.follows hNewer hLater⟩
  · intro oldId oldId' old' other' newId hNone hNone' hOld' hOther'
      hLink hLink'
    rcases hSame oldId old' hOld' with ⟨old, hOld, _, hLinks⟩
    rcases hSame oldId' other' hOther' with
      ⟨other, hOther, _, hLinks'⟩
    rw [hLinks hNone] at hLink
    rw [hLinks' hNone'] at hLink'
    exact
      h.unique oldId oldId' old other newId hNone hNone' hOld
        hOther hLink hLink'

/- What has not been replaced has no link. -/
theorem LinksOk.none_of_status
    {order : OrderRow}
    (hNone : Unrepriced targets orderId)
    (hOrder : orders.get? orderId = some order)
    (hStatus : order.status ≠ .cancelled) :
    order.replacedBy = none := by
  cases hLink : order.replacedBy with
  | none => rfl
  | some newId =>
      rcases h.sound orderId order newId hNone hOrder hLink with
        ⟨_, _, hReplaces⟩
      exact absurd hReplaces.status hStatus

/- A new order, without a link of its own. -/
theorem LinksOk.insert
    {order : OrderRow}
    (hNone : orders.get? orderId = none)
    (hFresh : order.replacedBy = none) :
    LinksOk targets (orders.set orderId order) := by
  have hOld :
      ∀ id found newId,
        (orders.set orderId order).get? id = some found →
        found.replacedBy = some newId →
          orders.get? id = some found := by
    intro id found newId hFound hLink
    rw [OrderedMap.get?_set] at hFound
    split at hFound
    · cases hFound
      rw [hFresh] at hLink
      cases hLink
    · exact hFound
  constructor
  · intro oldId old newId hKept hFound hLink
    rcases h.sound oldId old newId hKept
        (hOld _ _ _ hFound hLink) hLink with
      ⟨new, hNew, hReplaces⟩
    exact ⟨new, RowTable.get?_set_of_get? hNone hNew, hReplaces⟩
  · intro oldId oldId' old other newId hKept hKept' hFound hOther
      hLink hLink'
    exact
      h.unique oldId oldId' old other newId hKept hKept'
        (hOld _ _ _ hFound hLink) (hOld _ _ _ hOther hLink')
        hLink hLink'

/- An order that nothing points to yet is pointed to once. -/
theorem LinksOk.link
    {oldId newId : Int}
    {old new : OrderRow}
    (hOld : orders.get? oldId = some old)
    (hNew : orders.get? newId = some new)
    (hOther : oldId ≠ newId)
    (hFree :
      ∀ id order, Unrepriced targets id →
        orders.get? id = some order →
          order.replacedBy ≠ some newId)
    (hReplaces : Replaces new old)
    (hNone : old.replacedBy = none) :
    LinksOk targets
      (orders.set oldId
        { old with replacedBy := some newId }) := by
  have hLater :
      old.Follows (targets oldId)
        { old with replacedBy := some newId } :=
    { OrderRow.Follows.refl (targets oldId) old with
      linked := by
        intro linked hLinked
        rw [hNone] at hLinked
        cases hLinked }
  have hFollows := TableFollows.set hOld hLater
  constructor
  · intro id found target hKept hFound hLink
    rw [OrderedMap.get?_set] at hFound
    split at hFound
    · cases hFound
      cases hLink
      refine
        ⟨new, ?_,
          hReplaces.follows (.refl (targets newId) new) hLater⟩
      rw [OrderedMap.get?_set_of_ne _ _ hOther, hNew]
    · rcases h.sound id found target hKept hFound hLink with
        ⟨other, hFoundOther, hOtherReplaces⟩
      rcases hFollows target other hFoundOther with
        ⟨other', hOther', hNewer⟩
      exact
        ⟨other', hOther',
          hOtherReplaces.follows hNewer (.refl (targets id) _)⟩
  · intro id id' found found' target hKept hKept' hFound hFound'
      hLink hLink'
    rw [OrderedMap.get?_set] at hFound hFound'
    split at hFound
    · next hId =>
        split at hFound'
        · next hId' => rw [← hId, hId']
        · cases hFound
          cases hLink
          exact absurd hLink' (hFree id' found' hKept' hFound')
    · split at hFound'
      · cases hFound'
        cases hLink'
        exact absurd hLink (hFree id found hKept hFound)
      · exact
          h.unique id id' found found' target hKept hKept' hFound
            hFound' hLink hLink'

end

end

----
-- Every Log Keeps the Links
----

section

variable {env : IndexEnv} {db db' : IndexDb} {event : LogMeta}
variable {targets : Int → Int → Prop}

def IndexEvent.places : IndexEvent → Bool
  | .orderPlaced _ => true
  | _ => false

theorem sameLinks_orderPlacedBy
    {orderId : Int}
    {placer : String}
    (hApply : orderPlacedBy db orderId placer event = .ok db') :
    SameLinks targets db.orders db'.orders := by
  have hFollows : TableFollows targets db.orders db'.orders :=
    follows_orderPlacedBy hApply
  rcases orderPlacedBy_eq_ok.mp hApply with
    ⟨order, hOrder, rfl⟩
  rcases hFollows orderId order hOrder with
    ⟨order', hOrder', hLater⟩
  rw [OrderedMap.get?_set_self] at hOrder'
  cases hOrder'
  exact .set hOrder hLater (fun _ => rfl)

theorem sameLinks_orderFilled
    {args : OrderFilled}
    (hApply : orderFilled db args event = .ok db') :
    SameLinks targets db.orders db'.orders := by
  have hFollows : TableFollows targets db.orders db'.orders :=
    follows_orderFilled hApply
  rcases orderFilled_eq_ok.mp hApply with
    ⟨order, next, series, market, hFound, _, _, _, _, rfl⟩
  have hOrder := (filledOrder_eq_ok.mp hFound).1
  rcases hFollows args.orderId order hOrder with
    ⟨order', hOrder', hLater⟩
  rw [OrderedMap.get?_set_self] at hOrder'
  cases hOrder'
  exact .set hOrder hLater (fun _ => rfl)

theorem sameLinks_orderCancelled
    {orderId unitsRemaining : Int}
    {pruned : Bool}
    (hApply :
      orderCancelled db orderId unitsRemaining pruned event =
        .ok db') :
    SameLinks targets db.orders db'.orders := by
  have hFollows : TableFollows targets db.orders db'.orders :=
    follows_orderCancelled hApply
  rcases orderCancelled_eq_ok.mp hApply with
    ⟨order, next, hOrder, _, rfl⟩
  rcases hFollows orderId order hOrder with
    ⟨order', hOrder', hLater⟩
  rw [OrderedMap.get?_set_self] at hOrder'
  cases hOrder'
  exact .set hOrder hLater (fun _ => rfl)

theorem sameLinks_repriced
    {oldOrderId newOrderId : Int}
    (hTarget : targets oldOrderId newOrderId) :
    SameLinks targets db.orders
      (repriced db oldOrderId newOrderId).orders := by
  have hFollows :
      TableFollows targets db.orders
        (repriced db oldOrderId newOrderId).orders :=
    follows_repriced hTarget
  rcases repriced_cases db oldOrderId newOrderId with
    hSame | ⟨order, hOrder, hNow⟩
  · rw [hSame]
    exact .refl targets db.orders
  · rw [hNow] at hFollows ⊢
    rcases hFollows oldOrderId order hOrder with
      ⟨order', hOrder', hLater⟩
    rw [OrderedMap.get?_set_self] at hOrder'
    cases hOrder'
    exact
      .set hOrder hLater
        (fun hNone => absurd hTarget (hNone newOrderId))

theorem sameLinks_tick
    (h : OrdersOk db.orders db.fills)
    (now : Int) :
    SameLinks targets db.orders (tick db now).orders := by
  intro orderId order' hOrder'
  rw [get?_tick_orders h.keys] at hOrder'
  rcases Option.map_eq_some_iff.mp hOrder' with
    ⟨order, hOrder, rfl⟩
  refine ⟨order, hOrder, ?_⟩
  split
  · next hExpires =>
      exact
        ⟨follows_expire (expires_open hExpires) _, fun _ => rfl⟩
  · exact ⟨.refl _ order, fun _ => rfl⟩

/- Only a placement makes orders, and links with Repriced. -/
theorem sameLinks_apply
    {entry : IndexLog}
    (h : OrdersOk db.orders db.fills)
    (hApply : apply env db entry = .ok db')
    (hNot : entry.event.places = false) :
    SameLinks (RepricedTo [entry]) db.orders db'.orders := by
  cases hWrites : entry.event.writesOrders with
  | false =>
      rw [(orders_of_not_writesOrders hApply hWrites).1]
      exact .refl _ db.orders
  | true =>
      rcases entry with ⟨event, log⟩
      unfold apply at hApply
      cases event with
      | orderPlaced args => cases hNot
      | orderPlacedBy orderId placer =>
          exact sameLinks_orderPlacedBy hApply
      | orderFilled args => exact sameLinks_orderFilled hApply
      | orderCancelled orderId unitsRemaining pruned =>
          exact sameLinks_orderCancelled hApply
      | repriced oldOrderId newOrderId =>
          cases hApply
          exact
            sameLinks_repriced
              ⟨_, List.mem_singleton_self _, rfl⟩
      | clock =>
          cases hApply
          exact sameLinks_tick h log.timestamp
      | _ => cases hWrites

/- A candidate and the order that is placed. -/
theorem replaces_of_candidate
    {placed : PlacedOrder}
    {new old : OrderRow}
    (h : IsCandidate placed old)
    (hOld : addressKey old.maker = old.maker)
    (hTx : old.cancelledTx.map addressKey = old.cancelledTx)
    (hMaker : new.maker = addressKey placed.maker)
    (hLong : new.longId = placed.longId)
    (hPlacedTx : new.placed.tx = placed.tx)
    (hIndex : new.placed.logIndex = placed.logIndex) :
    Replaces new old := by
  rcases h with ⟨hStatus, _, hCancelledTx, hSame, hSeries, i, hi, hLess⟩
  rw [hTx] at hCancelledTx
  exact
    { status := hStatus
      maker := by rw [hMaker, ← hSame, hOld]
      longId := hLong.trans hSeries.symm
      tx := by rw [hCancelledTx, hPlacedTx]
      before := ⟨i, hi, by rw [hIndex]; exact hLess⟩ }

end

----
-- Cancellations and Their Logs
----

section

variable {env : IndexEnv} {db db' : IndexDb}
variable {past : List IndexLog} {orders : OrderTable}

/- A log that took an order off the book, where a row says so. -/
def CancelledBy
    (past : List IndexLog)
    (orderId : Int)
    (tx : String)
    (logIndex : Int) : Prop :=
  ∃ entry ∈ past, ∃ remaining pruned,
    entry.event = .orderCancelled orderId remaining pruned ∧
      tx = addressKey entry.log.tx ∧
      logIndex = entry.log.logIndex

def CancelLogged
    (past : List IndexLog)
    (orders : OrderTable) : Prop :=
  ∀ orderId order tx i, orders.get? orderId = some order →
    order.cancelledTx = some tx →
    order.cancelledLogIndex = some i →
      CancelledBy past orderId tx i

theorem CancelledBy.later
    {orderId i : Int}
    {tx : String}
    (h : CancelledBy past orderId tx i)
    (entry : IndexLog) :
    CancelledBy (past ++ [entry]) orderId tx i := by
  rcases h with ⟨found, hFound, hRest⟩
  exact ⟨found, List.mem_append_left _ hFound, hRest⟩

theorem CancelLogged.later
    (h : CancelLogged past orders)
    (entry : IndexLog) :
    CancelLogged (past ++ [entry]) orders :=
  fun orderId order tx i hOrder hTx hIndex =>
    (h orderId order tx i hOrder hTx hIndex).later entry

theorem CancelLogged.set
    (h : CancelLogged past orders)
    {orderId : Int}
    {order : OrderRow}
    (hRow :
      ∀ tx i, order.cancelledTx = some tx →
        order.cancelledLogIndex = some i →
          CancelledBy past orderId tx i) :
    CancelLogged past (orders.set orderId order) := by
  intro id found tx i hFound hTx hIndex
  rw [OrderedMap.get?_set] at hFound
  split at hFound
  · next hSame =>
      cases hFound
      subst hSame
      exact hRow tx i hTx hIndex
  · exact h id found tx i hFound hTx hIndex

theorem CancelLogged.orderPlaced
    {args : OrderPlaced}
    {event : LogMeta}
    (h : CancelLogged past db.orders)
    (hOk : OrdersOk db.orders db.fills)
    (hApply : Projection.orderPlaced db args event = .ok db') :
    CancelLogged past db'.orders := by
  rcases orderPlaced_eq_ok.mp hApply with
    ⟨series, kind, initial, validUntil, linked, _, _, hInitial, _,
      hNew, hLinked, rfl⟩
  rcases placeOrder_eq_ok.mp hInitial with ⟨hUnits, rfl⟩
  generalize hRow :
    args.row kind
      { units := args.units, filled := 0, status := .open }
      validUntil event = row at hLinked
  have hPlaced :
      OrdersOk (db.orders.set args.orderId row) db.fills := by
    rw [← hRow]
    exact
      hOk.place hNew rfl (addressKey_addressKey _) hUnits rfl rfl
  have hLogged :
      CancelLogged past (db.orders.set args.orderId row) := by
    rw [← hRow]
    exact h.set (fun _ _ hTx _ => by cases hTx)
  rcases markReplaced_cases hPlaced.keys hLinked with
    rfl | ⟨old, order, _, hOrder, _, rfl⟩
  · exact hLogged
  · exact
      hLogged.set (fun tx i => hLogged old order tx i hOrder)

theorem cancelLogged_apply
    {entry : IndexLog}
    (hOk : OrdersOk db.orders db.fills)
    (h : CancelLogged past db.orders)
    (hApply : apply env db entry = .ok db') :
    CancelLogged (past ++ [entry]) db'.orders := by
  cases hWrites : entry.event.writesOrders with
  | false =>
      rw [(orders_of_not_writesOrders hApply hWrites).1]
      exact h.later entry
  | true =>
      have hLater := h.later entry
      rcases entry with ⟨event, log⟩
      unfold apply at hApply
      cases event with
      | orderPlaced args => exact hLater.orderPlaced hOk hApply
      | orderPlacedBy orderId placer =>
          rcases orderPlacedBy_eq_ok.mp hApply with
            ⟨order, hOrder, rfl⟩
          exact
            hLater.set (fun tx i =>
              hLater orderId order tx i hOrder)
      | orderFilled args =>
          rcases orderFilled_eq_ok.mp hApply with
            ⟨order, next, series, market, hFound, _, _, _, _, rfl⟩
          have hOrder := (filledOrder_eq_ok.mp hFound).1
          exact
            hLater.set (fun tx i =>
              hLater args.orderId order tx i hOrder)
      | orderCancelled orderId unitsRemaining pruned =>
          rcases orderCancelled_eq_ok.mp hApply with
            ⟨order, next, _, _, rfl⟩
          apply hLater.set
          rintro _ _ ⟨⟩ ⟨⟩
          exact
            ⟨_, List.mem_append_right _ (List.mem_singleton_self _),
              unitsRemaining, pruned, rfl, rfl, rfl⟩
      | repriced oldOrderId newOrderId =>
          cases hApply
          rcases repriced_cases db oldOrderId newOrderId with
            hSame | ⟨order, hOrder, hNow⟩
          · rw [hSame]
            exact hLater
          · rw [hNow]
            exact
              hLater.set (fun tx i =>
                hLater oldOrderId order tx i hOrder)
      | clock =>
          cases hApply
          intro orderId found tx i hFound hTx hIndex
          rw [get?_tick_orders hOk.keys] at hFound
          rcases Option.map_eq_some_iff.mp hFound with
            ⟨order, hOrder, rfl⟩
          apply hLater orderId order tx i hOrder
          · rw [← hTx]
            split <;> rfl
          · rw [← hIndex]
            split <;> rfl
      | _ => cases hWrites

theorem CancelLogged.tx_lower
    (h : CancelLogged past orders)
    {orderId : Int}
    {order : OrderRow}
    (hOrder : orders.get? orderId = some order)
    {placed : PlacedOrder}
    (hCandidate : IsCandidate placed order) :
    order.cancelledTx.map addressKey = order.cancelledTx := by
  rcases hCandidate with ⟨_, _, hTx, _, _, i, hi, _⟩
  cases hCancelled : order.cancelledTx with
  | none =>
      rw [hCancelled] at hTx
      cases hTx
  | some tx =>
      rcases h orderId order tx i hOrder hCancelled hi with
        ⟨entry, _, _, _, _, rfl, _⟩
      exact congrArg some (addressKey_addressKey entry.log.tx)

end

----
-- Every Run Keeps the Links
----

section

variable {env : IndexEnv} {db db' : IndexDb}
variable {past : List IndexLog}

/- What is known of the orders after a list of logs. -/
structure BookOk
    (past : List IndexLog)
    (db : IndexDb) : Prop where
  orders : OrdersOk db.orders db.fills
  links : LinksOk (RepricedTo past) db.orders
  logged : CancelLogged past db.orders

theorem LinksOk.orderPlaced
    {args : OrderPlaced}
    {event : LogMeta}
    (h : BookOk past db)
    (hApply : Projection.orderPlaced db args event = .ok db') :
    LinksOk (RepricedTo past) db'.orders := by
  rcases orderPlaced_eq_ok.mp hApply with
    ⟨series, kind, initial, validUntil, linked, _, _, hInitial, _,
      hNew, hLinked, rfl⟩
  rcases placeOrder_eq_ok.mp hInitial with ⟨hUnits, rfl⟩
  generalize hRow :
    args.row kind
      { units := args.units, filled := 0, status := .open }
      validUntil event = row at hLinked
  have hPlaced :
      OrdersOk (db.orders.set args.orderId row) db.fills := by
    rw [← hRow]
    exact
      h.orders.place hNew rfl (addressKey_addressKey _) hUnits rfl
        rfl
  have hInserted :
      LinksOk (RepricedTo past)
        (db.orders.set args.orderId row) := by
    rw [← hRow]
    exact h.links.insert hNew rfl
  rcases markReplaced_cases hPlaced.keys hLinked with
    rfl | ⟨oldId, old, _, hOld, hCandidate, rfl⟩
  · exact hInserted
  · have hOther : oldId ≠ args.orderId := by
      rintro rfl
      rw [OrderedMap.get?_set_self, ← hRow] at hOld
      cases hOld
      cases hCandidate.1
    have hBefore := hOld
    rw [OrderedMap.get?_set_of_ne _ _ hOther.symm] at hBefore
    refine
      hInserted.link hOld (OrderedMap.get?_set_self _ _ _) hOther ?_
        ?_ hCandidate.2.1
    · intro id order hKept hOrder hLink
      by_cases hSame : args.orderId = id
      · subst hSame
        rw [OrderedMap.get?_set_self, ← hRow] at hOrder
        cases hOrder
        cases hLink
      · rw [OrderedMap.get?_set_of_ne _ _ hSame] at hOrder
        rcases h.links.sound id order _ hKept hOrder hLink with
          ⟨_, hGone, _⟩
        rw [hNew] at hGone
        cases hGone
    · rw [← hRow]
      exact
        replaces_of_candidate hCandidate
          (h.orders.order oldId old hBefore).maker
          (h.logged.tx_lower hBefore hCandidate) rfl rfl rfl rfl

theorem bookOk_apply
    {entry : IndexLog}
    (h : BookOk past db)
    (hApply : apply env db entry = .ok db') :
    BookOk (past ++ [entry]) db' := by
  refine
    ⟨ordersOk_apply h.orders hApply, ?_,
      cancelLogged_apply h.orders h.logged hApply⟩
  have hPast := repricedTo_append_left past [entry]
  have hEntry := repricedTo_append_right past [entry]
  cases hPlaces : entry.event.places with
  | false =>
      exact
        (h.links.mono hPast).same
          ((sameLinks_apply h.orders hApply hPlaces).mono hEntry)
          ((follows_apply h.orders hApply).mono hEntry)
  | true =>
      rcases entry with ⟨event, log⟩
      cases event with
      | orderPlaced args =>
          exact (LinksOk.orderPlaced h hApply).mono hPast
      | _ => cases hPlaces

theorem bookOk_empty :
    BookOk [] emptyDb := by
  refine ⟨ordersOk_empty, ⟨?_, ?_⟩, ?_⟩
  · intro oldId old newId _ hOld
    cases hOld
  · intro oldId oldId' old old' newId _ _ hOld
    cases hOld
  · intro orderId order tx i hOrder
    cases hOrder

theorem bookOk_runLogs
    {logs : List IndexLog}
    (h : runLogs env emptyDb logs = .ok db) :
    BookOk logs db := by
  have hRun :=
    runLogs_history (fun past db => BookOk past db)
      (fun _ _ _ _ => bookOk_apply) bookOk_empty h
  exact hRun

/-
  Whatever logs the index has taken, an order that is said to
  have been replaced is named by a Repriced log, or was
  cancelled in the very transaction that placed its successor,
  before it, by the same maker in the same series; and no two
  orders that no Repriced log names have one successor.
-/
theorem links_are_replacements
    (env : IndexEnv)
    (logs : List IndexLog)
    (db : IndexDb)
    (h : runLogs env emptyDb logs = .ok db) :
    (∀ oldId old newId, Unrepriced (RepricedTo logs) oldId →
        db.orders.get? oldId = some old →
        old.replacedBy = some newId →
          ∃ new, db.orders.get? newId = some new ∧
            Replaces new old) ∧
      ∀ oldId oldId' old old' newId,
        Unrepriced (RepricedTo logs) oldId →
        Unrepriced (RepricedTo logs) oldId' →
        db.orders.get? oldId = some old →
        db.orders.get? oldId' = some old' →
        old.replacedBy = some newId →
        old'.replacedBy = some newId → oldId = oldId' := by
  have hLinks := (bookOk_runLogs h).links
  exact ⟨hLinks.sound, hLinks.unique⟩

theorem sample_unrepriced :
    ∀ entry ∈ sampleBook ++ [sampleCancel] ++ [samplePlace],
      ∀ id target, entry.event ≠ .repriced id target := by
  intro entry hEntry id target
  fin_cases hEntry <;> simp [sampleCancel, samplePlace]

theorem links_are_replacements_small :
    ∃ old new,
      (indexed sampleEnv
          (sampleBook ++ [sampleCancel] ++ [samplePlace])).orders.get?
        1 = some old ∧
        Replaces new old := by
  have hRun :
      runLogs sampleEnv emptyDb
          (sampleBook ++ [sampleCancel] ++ [samplePlace]) =
        .ok (indexed sampleEnv
          (sampleBook ++ [sampleCancel] ++ [samplePlace])) :=
    runLogs_indexed (by decide +kernel)
  have hSome :
      ((indexed sampleEnv
          (sampleBook ++ [sampleCancel] ++
            [samplePlace])).orders.get? 1).isSome =
        true := by
    decide +kernel
  rcases Option.isSome_iff_exists.mp hSome with ⟨old, hOld⟩
  have hLinked : old.replacedBy = some 2 := by
    have hRow :
        ((indexed sampleEnv
            (sampleBook ++ [sampleCancel] ++
              [samplePlace])).orders.get? 1).map
            (fun row => row.replacedBy) =
          some (some 2) := by
      decide +kernel
    rw [hOld] at hRow
    exact Option.some.inj hRow
  have hKept :
      Unrepriced
        (RepricedTo
          (sampleBook ++ [sampleCancel] ++ [samplePlace])) 1 := by
    rintro target ⟨entry, hEntry, hEvent⟩
    exact sample_unrepriced entry hEntry 1 target hEvent
  rcases (links_are_replacements _ _ _ hRun).1 1 old 2 hKept hOld
      hLinked with
    ⟨new, _, hReplaces⟩
  exact ⟨old, new, hOld, hReplaces⟩

end

----
-- A replace() Is Linked
----

variable {env : IndexEnv} {db db' : IndexDb}
variable {past : List IndexLog}

/- A later log of a transaction has a larger index. -/
def InLogOrder
    (logs : List IndexLog) : Prop :=
  logs.Pairwise (fun first second =>
    first.event ≠ .clock → second.event ≠ .clock →
      addressKey first.log.tx = addressKey second.log.tx →
        first.log.logIndex < second.log.logIndex)

def IndexEvent.cancels : IndexEvent → Bool
  | .orderCancelled _ _ _ => true
  | _ => false

variable {candidates : List OrderRow}

/- The last of the candidates is at least as late as each. -/
theorem le_foldl_laterCancelled
    {start : Option OrderRow}
    {found : OrderRow}
    (h : candidates.foldl laterCancelled start = some found) :
    (∀ order, start = some order →
        order.cancelledLogIndex.getD 0 ≤
          found.cancelledLogIndex.getD 0) ∧
      ∀ order ∈ candidates,
        order.cancelledLogIndex.getD 0 ≤
          found.cancelledLogIndex.getD 0 := by
  induction candidates generalizing start with
  | nil =>
      constructor
      · intro order hOrder
        rw [List.foldl_nil, hOrder] at h
        cases h
        exact le_refl _
      · intro order hOrder
        cases hOrder
  | cons candidate rest ih =>
      rw [List.foldl_cons] at h
      rcases ih h with ⟨hStart, hRest⟩
      unfold laterCancelled at hStart
      cases start with
      | none =>
          refine ⟨fun order hOrder => (by cases hOrder), ?_⟩
          intro order hOrder
          rcases List.mem_cons.mp hOrder with rfl | hIn
          · exact hStart order rfl
          · exact hRest order hIn
      | some current =>
          dsimp only at hStart
          have hBoth :
              current.cancelledLogIndex.getD 0 ≤
                  found.cancelledLogIndex.getD 0 ∧
                candidate.cancelledLogIndex.getD 0 ≤
                  found.cancelledLogIndex.getD 0 := by
            split at hStart
            · next hLater =>
                have hNow := hStart candidate rfl
                exact ⟨by omega, hNow⟩
            · next hEarlier =>
                have hNow := hStart current rfl
                exact ⟨hNow, by omega⟩
          constructor
          · rintro order ⟨⟩
            exact hBoth.1
          · intro order hOrder
            rcases List.mem_cons.mp hOrder with rfl | hIn
            · exact hBoth.2
            · exact hRest order hIn

theorem exists_foldl_laterCancelled
    {start : Option OrderRow}
    (h : start ≠ none ∨ candidates ≠ []) :
    ∃ found, candidates.foldl laterCancelled start = some found := by
  induction candidates generalizing start with
  | nil =>
      cases start with
      | none => simp at h
      | some order => exact ⟨order, rfl⟩
  | cons candidate rest ih =>
      rw [List.foldl_cons]
      apply ih
      left
      unfold laterCancelled
      cases start with
      | none => simp
      | some current =>
          dsimp only
          split <;> simp

variable {old : OrderRow}

theorem foldl_laterCancelled_eq
    (hIn : old ∈ candidates)
    (hLatest :
      ∀ order ∈ candidates, order ≠ old →
        order.cancelledLogIndex.getD 0 <
          old.cancelledLogIndex.getD 0) :
    candidates.foldl laterCancelled none = some old := by
  have hSome : candidates ≠ [] := List.ne_nil_of_mem hIn
  rcases exists_foldl_laterCancelled (.inr hSome) with
    ⟨found, hFound⟩
  rw [hFound]
  by_contra hOther
  rcases foldl_laterCancelled_mem hFound with hNone | hMem
  · cases hNone
  · have hLess :=
      hLatest found hMem (fun hSame => hOther (congrArg some hSame))
    have hMost := (le_foldl_laterCancelled hFound).2 old hIn
    omega

variable {oldId : Int} {placed : PlacedOrder}

/- A candidate later than all others is the predecessor. -/
theorem predecessor_of_latest
    {orders : OrderTable}
    (hKey : old.orderId = oldId)
    (hOld : orders.get? oldId = some old)
    (hCandidate : IsCandidate placed old)
    (hLatest :
      ∀ key order, orders.get? key = some order →
        IsCandidate placed order → order ≠ old →
          order.cancelledLogIndex.getD 0 <
            old.cancelledLogIndex.getD 0) :
    replacementPredecessor
      (candidatesFor { db with orders := orders } placed) placed =
        some oldId := by
  have hIn :
      old ∈
        orders.values.filter
          (fun order => decide (IsCandidate placed order)) :=
    List.mem_filter.mpr
      ⟨orders.mem_values_iff.mpr ⟨oldId, hOld⟩,
        decide_eq_true hCandidate⟩
  have hFound := foldl_laterCancelled_eq hIn (by
    intro order hOrder hOther
    rcases List.mem_filter.mp hOrder with ⟨hValue, hAlso⟩
    rcases orders.mem_values_iff.mp hValue with ⟨key, hFoundAt⟩
    exact
      hLatest key order hFoundAt (of_decide_eq_true hAlso) hOther)
  have hOnly :
      [old].filter (fun order => decide (IsCandidate placed order)) =
        [old] := by
    simp [hCandidate]
  unfold candidatesFor
  dsimp only
  rw [hFound]
  unfold replacementPredecessor
  rw [Option.toList_some, hOnly]
  exact congrArg some hKey

theorem SameLinks.trans
    {targets : Int → Int → Prop}
    {orders orders' orders'' : OrderTable}
    (h : SameLinks targets orders orders')
    (h' : SameLinks targets orders' orders'') :
    SameLinks targets orders orders'' := by
  intro orderId third hThird
  rcases h' orderId third hThird with
    ⟨second, hSecond, hLater, hLink⟩
  rcases h orderId second hSecond with
    ⟨first, hFirst, hEarlier, hLink'⟩
  exact
    ⟨first, hFirst, hEarlier.trans hLater,
      fun hNone => (hLink hNone).trans (hLink' hNone)⟩

theorem sameLinks_runLogs
    {logs : List IndexLog}
    (hOk : OrdersOk db.orders db.fills)
    (hNot : ∀ entry ∈ logs, entry.event.places = false)
    (h : runLogs env db logs = .ok db') :
    SameLinks (RepricedTo logs) db.orders db'.orders := by
  induction logs generalizing db with
  | nil =>
      cases h
      exact .refl _ _
  | cons entry rest ih =>
      rw [runLogs, List.foldlM_cons, LockStep.bind_eq_ok] at h
      rcases h with ⟨mid, hMid, hRest⟩
      rcases List.forall_mem_cons.mp hNot with ⟨hNow, hLater⟩
      have hFirst :=
        (sameLinks_apply hOk hMid hNow).mono
          (repricedTo_append_left [entry] rest)
      exact
        hFirst.trans
          ((ih (ordersOk_apply hOk hMid) hLater hRest).mono
            (repricedTo_append_right [entry] rest))

/- An order that a log has just taken off the book. -/
structure JustCancelled
    (cancel : LogMeta)
    (order : OrderRow) : Prop where
  status : order.status = .cancelled
  tx : order.cancelledTx = some (addressKey cancel.tx)
  logIndex : order.cancelledLogIndex = some cancel.logIndex
  unused : order.replacedBy = none

variable {event : LogMeta}

theorem justCancelled_of_orderCancelled
    {remaining : Int}
    (h : BookOk past db)
    (hKept : Unrepriced (RepricedTo past) oldId)
    (hApply :
      orderCancelled db oldId remaining false event = .ok db') :
    ∃ old, db'.orders.get? oldId = some old ∧
      JustCancelled event old := by
  rcases orderCancelled_eq_ok.mp hApply with
    ⟨order, next, hOrder, hNext, rfl⟩
  rcases cancelOrder_eq_ok.mp hNext with ⟨hLive, _, rfl⟩
  change order.status = .open ∨ order.status = .expired at hLive
  have hNot : order.status ≠ .cancelled := by
    rcases hLive with hOpen | hExpired
    · rw [hOpen]
      simp
    · rw [hExpired]
      simp
  have hUnused := h.links.none_of_status hKept hOrder hNot
  exact
    ⟨_, OrderedMap.get?_set_self _ _ _, ⟨rfl, rfl, rfl, hUnused⟩⟩

/- Until the next placement it stays as it was cancelled. -/
theorem JustCancelled.stays
    {logs : List IndexLog}
    (h : JustCancelled event old)
    (hOld : db.orders.get? oldId = some old)
    (hOk : OrdersOk db.orders db.fills)
    (hNot : ∀ entry ∈ logs, entry.event.places = false)
    (hKept : Unrepriced (RepricedTo logs) oldId)
    (hRun : runLogs env db logs = .ok db') :
    ∃ old', db'.orders.get? oldId = some old' ∧
      JustCancelled event old' := by
  rcases follows_runLogs hOk hRun oldId old hOld with
    ⟨old', hOld', hLater⟩
  rcases sameLinks_runLogs hOk hNot hRun oldId old' hOld' with
    ⟨same, hSame, _, hLink⟩
  rw [hOld] at hSame
  cases hSame
  rcases hLater.ended (by rw [h.status]; rfl) with
    ⟨hStatus, _, hTx, hLog⟩
  exact
    ⟨old', hOld',
      { status := hStatus.trans h.status
        tx := hTx.trans h.tx
        logIndex := hLog.trans h.logIndex
        unused := (hLink hKept).trans h.unused }⟩

theorem JustCancelled.isCandidate
    (h : JustCancelled event old)
    (hTx : addressKey event.tx = addressKey placed.tx)
    (hIndex : event.logIndex < placed.logIndex)
    (hMaker : old.maker = addressKey placed.maker)
    (hLong : old.longId = placed.longId) :
    IsCandidate placed old := by
  refine
    ⟨h.status, h.unused, ?_, ?_, hLong, event.logIndex,
      h.logIndex, hIndex⟩
  · rw [h.tx, Option.map_some, addressKey_addressKey, hTx]
  · rw [hMaker, addressKey_addressKey]

/- No other candidate was cancelled so late. -/
theorem earlier_candidate
    {before between : List IndexLog}
    {cancel : IndexLog}
    {remaining : Int}
    (hCancel :
      cancel.event = .orderCancelled oldId remaining false)
    (hBetween :
      ∀ entry ∈ between, entry.event.cancels = false)
    (hOrder : InLogOrder (before ++ [cancel] ++ between))
    (hLogged :
      CancelLogged (before ++ [cancel] ++ between) db.orders)
    (hTx : addressKey cancel.log.tx = addressKey placed.tx)
    {key : Int}
    {order : OrderRow}
    (hFound : db.orders.get? key = some order)
    (hCandidate : IsCandidate placed order)
    (hOther : key ≠ oldId) :
    order.cancelledLogIndex.getD 0 < cancel.log.logIndex := by
  have hLower := hLogged.tx_lower hFound hCandidate
  rcases hCandidate with ⟨_, _, hCancelledTx, _, _, i, hi, _⟩
  rw [hLower] at hCancelledTx
  rcases hLogged key order _ i hFound hCancelledTx hi with
    ⟨entry, hEntry, remaining', pruned, hEvent, hSameTx, rfl⟩
  rw [Option.mem_def.mp hi, Option.getD_some]
  rcases List.mem_append.mp hEntry with hUpTo | hAfter
  · rcases List.mem_append.mp hUpTo with hIn | hLast
    · have hPair :=
        (List.pairwise_append.mp
          (List.pairwise_append.mp hOrder).1).2.2 entry hIn cancel
            (List.mem_singleton_self cancel)
      apply hPair
      · rw [hEvent]
        simp
      · rw [hCancel]
        simp
      · rw [hTx, hSameTx]
    · rw [List.mem_singleton.mp hLast, hCancel] at hEvent
      cases hEvent
      exact absurd rfl hOther
  · have hNever := hBetween entry hAfter
    rw [hEvent] at hNever
    cases hNever

/- The placement that ends a replace() marks what it replaces. -/
theorem orderPlaced_links
    {args : OrderPlaced}
    (h : BookOk past db)
    (hOld : db.orders.get? oldId = some old)
    (hCandidate : IsCandidate (args.placed event) old)
    (hLatest :
      ∀ key order, db.orders.get? key = some order →
        IsCandidate (args.placed event) order → key ≠ oldId →
          order.cancelledLogIndex.getD 0 <
            old.cancelledLogIndex.getD 0)
    (hApply : orderPlaced db args event = .ok db') :
    ∃ old', db'.orders.get? oldId = some old' ∧
      old'.replacedBy = some args.orderId := by
  rcases orderPlaced_eq_ok.mp hApply with
    ⟨series, kind, initial, validUntil, linked, _, _, hInitial, _,
      hNew, hLinked, rfl⟩
  rcases placeOrder_eq_ok.mp hInitial with ⟨_, rfl⟩
  generalize hRow :
    args.row kind
      { units := args.units, filled := 0, status := .open }
      validUntil event = row at hLinked
  have hStill :
      (db.orders.set args.orderId row).get? oldId = some old :=
    RowTable.get?_set_of_get? hNew hOld
  have hFound :
      replacementPredecessor
        (candidatesFor
          { db with orders := db.orders.set args.orderId row }
          (args.placed event)) (args.placed event) =
        some oldId := by
    apply
      predecessor_of_latest (h.orders.order oldId old hOld).key
        hStill hCandidate
    intro key order hOrder hAlso hOther
    rw [OrderedMap.get?_set] at hOrder
    split at hOrder
    · cases hOrder
      rw [← hRow] at hAlso
      cases hAlso.1
    · apply hLatest key order hOrder hAlso
      rintro rfl
      rw [hOld] at hOrder
      cases hOrder
      exact hOther rfl
  rw [hFound, markReplaced, hStill] at hLinked
  cases hLinked
  exact ⟨_, OrderedMap.get?_set_self _ _ _, rfl⟩

/-
  A replace() is a cancellation and a placement of one maker in
  one series, in one transaction, with no other between them:
  wherever it stands in a run, and whatever else is cancelled
  or placed around it, the old order names the new one from
  then on, until a Repriced log of it names another.
-/
theorem replace_is_linked
    (env : IndexEnv)
    (before between later : List IndexLog)
    (cancel place : IndexLog)
    (oldId remaining : Int)
    (args : OrderPlaced)
    (db : IndexDb)
    (hCancel :
      cancel.event = .orderCancelled oldId remaining false)
    (hPlace : place.event = .orderPlaced args)
    (hTx :
      addressKey cancel.log.tx = addressKey place.log.tx)
    (hBetween :
      ∀ entry ∈ between,
        entry.event.cancels = false ∧ entry.event.places = false)
    (hOrder :
      InLogOrder (before ++ [cancel] ++ between ++ [place]))
    (hUpToPlace :
      Unrepriced (RepricedTo (before ++ [cancel] ++ between))
        oldId)
    (hAfter :
      ∀ target, RepricedTo later oldId target →
        target = args.orderId)
    (hRun :
      runLogs env emptyDb
        (before ++ [cancel] ++ between ++ [place] ++ later) =
          .ok db)
    (old : OrderRow)
    (hOld : db.orders.get? oldId = some old)
    (hMaker : old.maker = addressKey args.maker)
    (hLong : old.longId = args.longId) :
    old.replacedBy = some args.orderId := by
  rcases runLogs_append.mp hRun with ⟨afterPlace, hPlaced, hLater⟩
  rcases runLogs_append.mp hPlaced with
    ⟨beforePlace, hUpTo, hPlaceRun⟩
  rcases runLogs_append.mp hUpTo with
    ⟨afterCancel, hCancelled, hBetweenRun⟩
  rcases runLogs_append.mp hCancelled with
    ⟨beforeCancel, hBefore, hCancelRun⟩
  rw [runLogs_singleton, apply, hCancel] at hCancelRun
  rw [runLogs_singleton, apply, hPlace] at hPlaceRun
  have hKeptBetween :=
    hUpToPlace.mono
      (repricedTo_append_right (before ++ [cancel]) between)
  have hKeptBefore :=
    (hUpToPlace.mono
      (repricedTo_append_left (before ++ [cancel])
        between)).mono
      (repricedTo_append_left before [cancel])
  rcases justCancelled_of_orderCancelled (bookOk_runLogs hBefore)
      hKeptBefore hCancelRun with
    ⟨gone, hGone, hJust⟩
  rcases hJust.stays hGone (bookOk_runLogs hCancelled).orders
      (fun entry hIn => (hBetween entry hIn).2) hKeptBetween
      hBetweenRun with
    ⟨still, hStill, hStillJust⟩
  have hBook := bookOk_runLogs hUpTo
  have hIndex : cancel.log.logIndex < place.log.logIndex := by
    apply
      (List.pairwise_append.mp hOrder).2.2 cancel _ place
        (List.mem_singleton_self place)
    · rw [hCancel]
      simp
    · rw [hPlace]
      simp
    · exact hTx
    · simp
  have hLaterFollows :=
    follows_runLogs (bookOk_runLogs hPlaced).orders hLater
  have hPlacing :
      TableFollows (RepricedTo []) beforePlace.orders
        afterPlace.orders :=
    follows_orderPlaced hBook.orders hPlaceRun
  rcases hPlacing oldId still hStill with
    ⟨placed, hPlacedRow, hFollows⟩
  rcases hLaterFollows oldId placed hPlacedRow with
    ⟨found, hFound, hFollows'⟩
  rw [hOld] at hFound
  cases hFound
  have hCandidate : IsCandidate (args.placed place.log) still :=
    hStillJust.isCandidate hTx hIndex
      (by rw [← hFollows.maker, ← hFollows'.maker, hMaker]; rfl)
      (by rw [← hFollows.longId, ← hFollows'.longId, hLong]; rfl)
  rcases orderPlaced_links hBook hStill hCandidate (by
      intro key order hOrderRow hAlso hOther
      rw [hStillJust.logIndex, Option.getD_some]
      exact
        earlier_candidate hCancel
          (fun entry hIn => (hBetween entry hIn).1)
          (List.pairwise_append.mp hOrder).1 hBook.logged hTx
          hOrderRow hAlso hOther) hPlaceRun with
    ⟨marked, hMarked, hLink⟩
  rw [hPlacedRow] at hMarked
  cases hMarked
  rcases hFollows'.linked args.orderId hLink with
    hKept | ⟨target, hTarget, hNow⟩
  · exact hKept
  · rw [hNow, hAfter target hTarget]

theorem replace_is_linked_small :
    ∃ old,
      (indexed sampleEnv
          (sampleBook ++ [sampleCancel] ++ [] ++ [samplePlace] ++
            [])).orders.get? 1 = some old ∧
        old.replacedBy = some 2 := by
  have hOrder :
      InLogOrder
        (sampleBook ++ [sampleCancel] ++ [] ++ [samplePlace]) := by
    unfold InLogOrder
    decide +kernel
  have hRow :
      ((indexed sampleEnv
          (sampleBook ++ [sampleCancel] ++ [] ++ [samplePlace] ++
            [])).orders.get? 1).map
          (fun row => (row.maker, row.longId)) =
        some (addressKey "0xa1", 2) := by
    decide +kernel
  rcases Option.map_eq_some_iff.mp hRow with ⟨old, hOld, hTerms⟩
  refine
    ⟨old, hOld,
      replace_is_linked sampleEnv sampleBook [] [] sampleCancel
        samplePlace 1 3 (samplePlaced 2 3) _ rfl rfl rfl ?_ hOrder
        ?_ ?_ (runLogs_indexed (by decide +kernel)) old hOld ?_
        ?_⟩
  · intro entry hIn
    cases hIn
  · rintro target ⟨entry, hEntry, hEvent⟩
    exact
      sample_unrepriced entry (List.mem_append_left _ (by
        simpa using hEntry)) 1 target hEvent
  · rintro target ⟨entry, hEntry, _⟩
    cases hEntry
  · exact congrArg Prod.fst hTerms
  · exact congrArg Prod.snd hTerms

end Callhouse.Indexer.Projection
