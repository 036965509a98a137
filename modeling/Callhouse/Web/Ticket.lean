import Callhouse.Web.Payoff
import Callhouse.Web.BookFromChain

/-
  web/lib/v2/ticket.ts: the quote of a ticket against the
  ask levels of a book, and the check of the quoted orders
  when they are read again before the transaction is sent.
  An integer stands for the decimal text that BigInt reads.

  Main declarations:
    * `flattenAsks`, `buyQuote`
    * `staleSelectedOrders`
-/

----
-- The Quote
----

namespace Callhouse.Web

/- An order of a level, as the API sends it. -/
structure ApiOrder where
  orderId : String
  maker : String
  units : Int
  onChainRemainingUnits : Int
  makerFreeUnits : Option Int
  makerFreeCollateral : Option Money
  kind : LevelOrderKind
deriving DecidableEq

structure ApiLevel where
  price : Money
  orders : List ApiOrder
deriving DecidableEq

structure TicketAsk where
  orderId : String
  maker : String
  kind : AskKind
  price : Int
  units : Int
  onChainRemainingUnits : Int
  makerFreeUnits : Option Int
  makerFreeCollateral : Option Int
deriving DecidableEq

/- A bid, or an order of the taker's own, is no ask for it. -/
def ApiOrder.askKind
    (order : ApiOrder)
    (taker : Option String) : Option AskKind :=
  if taker.map String.toLower = some order.maker.toLower then
    none
  else
    match order.kind with
    | .Bid => none
    | .AskResale => some .AskResale
    | .AskWrite => some .AskWrite

def ApiOrder.ticketAsk
    (order : ApiOrder)
    (price : Money)
    (kind : AskKind) : TicketAsk :=
  { orderId := order.orderId
    maker := order.maker
    kind := kind
    price := price.raw
    units := order.units
    onChainRemainingUnits := order.onChainRemainingUnits
    makerFreeUnits := order.makerFreeUnits
    makerFreeCollateral :=
      order.makerFreeCollateral.map (fun m => m.raw) }

def flattenAsks
    (levels : List ApiLevel)
    (taker : Option String) : List TicketAsk :=
  levels.flatMap
    (fun level =>
      level.orders.filterMap
        (fun order =>
          (order.askKind taker).map
            (order.ticketAsk level.price)))

/- The ask as `costToBuy` reads it. -/
def TicketAsk.ask
    (ask : TicketAsk) : Ask :=
  { orderId := ask.orderId
    price := ask.price
    units := ask.units
    maker := some ask.maker
    kind := some ask.kind
    onChainRemainingUnits := some ask.onChainRemainingUnits
    makerFreeCollateral := ask.makerFreeCollateral
    makerFreeUnits := ask.makerFreeUnits }

structure BuyQuote where
  buy : BuyCost
  limitPrice : Option Int
  asks : List TicketAsk
deriving DecidableEq

/- The worst selected ask plus tolerance, up to the tick. -/
def limitPriceOf
    (fills : List BuyFill)
    (toleranceBps : Int) : Option Int :=
  let worst :=
    fills.foldl
      (fun most fill =>
        if fill.price > most then fill.price else most) 0
  if worst > 0 then
    some
      (ceilDiv (worst * (bps + toleranceBps))
        (bps * priceTick) * priceTick)
  else none

def buyQuote
    (levels : List ApiLevel)
    (units : Int)
    (fees : TakerFeeParams)
    (toleranceBps : Int)
    (taker : Option String)
    (rent : Option RentTerms) : Except String BuyQuote :=
  if toleranceBps < 0 ∨ toleranceBps > 1000 then
    .error "slippage tolerance must be 0–10%"
  else
    let asks := flattenAsks levels taker
    match
      costToBuy (asks.map TicketAsk.ask) units fees rent with
    | .error e => .error e
    | .ok buy =>
        .ok
          { buy := buy
            limitPrice := limitPriceOf buy.fills toleranceBps
            asks := asks }

----
-- The Check Before the Transaction
----

/- An order as it is read again; its kind is the contract's. -/
structure ChainOrder where
  orderId : Int
  maker : String
  longId : Int
  kind : Int
  price : Int
  units : Int
  filled : Int
  validUntil : Int
  cancelled : Bool
  freeCollateral : Option Int
  writerIsOperator : Option Bool
deriving DecidableEq

/- `row.orderId.toString()`. -/
def ChainOrder.idText
    (row : ChainOrder) : String :=
  toString row.orderId

def contractKind : AskKind → Int
  | .AskResale => 1
  | .AskWrite => 2

/- The row is not the quoted ask, or cannot fill it now. -/
def ChainOrder.changed
    (row : ChainOrder)
    (ask : TicketAsk)
    (fill : BuyFill)
    (longId collateralPerUnit now : Int) : Bool :=
  row.cancelled || decide (row.validUntil ≤ now) ||
    decide (row.longId ≠ longId) ||
    decide (row.kind ≠ contractKind ask.kind) ||
    decide (row.price ≠ fill.price) ||
    decide (row.maker.toLower ≠ ask.maker.toLower) ||
    decide (row.units - row.filled ≠
      ask.onChainRemainingUnits) ||
    decide (row.units - row.filled < fill.units) ||
    (decide (row.kind = 2) &&
      (decide (row.freeCollateral = none) ||
        decide (collateralPerUnit ≤ 0) ||
        decide (row.writerIsOperator = some false)))

/- The writers' budgets so far, and the stale orders. -/
structure StaleCheck where
  writerBudget : OrderedMap String Int
  stale : List String

def StaleCheck.reject
    (check : StaleCheck)
    (fill : BuyFill) : StaleCheck :=
  { check with stale := check.stale ++ [fill.orderId] }

/- A write is paid from what its writer has left. -/
def StaleCheck.payWrite
    (check : StaleCheck)
    (row : ChainOrder)
    (fill : BuyFill)
    (rent : Option RentTerms) : Except String StaleCheck :=
  match rent with
  | none => .ok (check.reject fill)
  | some terms =>
      let maker := row.maker.toLower
      let available :=
        check.writerBudget.getD maker
          (row.freeCollateral.getD 0)
      if terms.closed then .ok (check.reject fill)
      else
        match writerCollateralNeed fill.units terms with
        | .error e => .error e
        | .ok need =>
            if available < need then .ok (check.reject fill)
            else
              .ok
                { check with
                  writerBudget :=
                    check.writerBudget.set maker
                      (available - need) }

/- What every fill is checked against. -/
structure StaleContext where
  byId : OrderedMap String ChainOrder
  expected : OrderedMap String TicketAsk
  longId : Int
  collateralPerUnit : Int
  now : Int
  rent : Option RentTerms

def checkFill
    (context : StaleContext)
    (check : StaleCheck)
    (fill : BuyFill) : Except String StaleCheck :=
  match context.byId.get? fill.orderId,
    context.expected.get? fill.orderId with
  | some row, some ask =>
      if row.changed ask fill context.longId
          context.collateralPerUnit context.now then
        .ok (check.reject fill)
      else if row.kind = 2 then
        check.payWrite row fill context.rent
      else .ok check
  | _, _ => .ok (check.reject fill)

def checkFills
    (context : StaleContext)
    (check : StaleCheck) :
    List BuyFill → Except String StaleCheck
  | [] => .ok check
  | fill :: rest =>
      match checkFill context check fill with
      | .error e => .error e
      | .ok check' => checkFills context check' rest

def StaleContext.of
    (quote : BuyQuote)
    (selected : List ChainOrder)
    (longId collateralPerUnit now : Int)
    (rent : Option RentTerms) : StaleContext :=
  { byId := OrderedMap.indexBy ChainOrder.idText selected
    expected :=
      OrderedMap.indexBy (fun ask => ask.orderId) quote.asks
    longId := longId
    collateralPerUnit := collateralPerUnit
    now := now
    rent := rent }

/- The quoted orders that a transaction must not be sent for. -/
def staleSelectedOrders
    (quote : BuyQuote)
    (selected : List ChainOrder)
    (longId collateralPerUnit now : Int)
    (rent : Option RentTerms) :
    Except String (List String) :=
  match
    checkFills
      (StaleContext.of quote selected longId
        collateralPerUnit now rent)
      { writerBudget := OrderedMap.empty, stale := [] }
      quote.buy.fills with
  | .error e => .error e
  | .ok check => .ok check.stale

end Callhouse.Web
