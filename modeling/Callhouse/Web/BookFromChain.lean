import Callhouse.Web.Rent
import Callhouse.Lib.OrderedMap
import Mathlib.Data.List.Sort

/-
  web/lib/v2/bookFromChain.ts: the book of a series that the
  app builds from pinned chain reads when the indexer does not
  answer.  An amount stands for its decimal text, and
  `Number.POSITIVE_INFINITY` is `none`.

  Main declarations:
    * `levelsFromChainOrders`
    * `addOrders_eq`
-/

----
-- Chain Reads
----

namespace Callhouse.Web

/- The kind is the contract's number: bid, resale, write. -/
structure RawBookOrder where
  orderId : Int
  maker : String
  longId : Int
  kind : Int
  price : Int
  units : Int
  filled : Int
  validUntil : Int
  cancelled : Bool
deriving DecidableEq

structure ChainBookGates where
  tradingPaused : Bool
  mintOpen : Bool
  operators : List String
deriving DecidableEq

structure ChainReads where
  orders : List RawBookOrder
  freeByMaker : OrderedMap String Int
  collateralPerUnit : Int
  longId : Int
  now : Int
  updatedBlock : Int
  mintCutoff : Option Int
  mintFeePpm : Int
  expiry : Option Int
  collateralDecimals : Int
  gates : Option ChainBookGates

inductive LevelOrderKind where
  | Bid
  | AskResale
  | AskWrite
deriving DecidableEq

structure Money where
  raw : Int
  decimals : Int
deriving DecidableEq

structure LevelOrder where
  orderId : Int
  maker : String
  units : Int
  onChainRemainingUnits : Int
  makerFreeUnits : Option Int
  makerFreeCollateral : Option Money
  kind : LevelOrderKind
  validUntil : Int
deriving DecidableEq

structure Level where
  price : Money
  units : Int
  orders : List LevelOrder
deriving DecidableEq

structure BookResponse where
  bids : List Level
  asks : List Level
  updatedBlock : Int
  snapshotTimestamp : Int
deriving DecidableEq

def bookOrdersPerSide : Nat := 200

def ChainReads.rent
    (reads : ChainReads) : RentTerms :=
  { collateralPerUnit := reads.collateralPerUnit
    mintFeePpm := reads.mintFeePpm
    expiry := reads.expiry.getD (reads.now + 604800)
    snapshotTimestamp := reads.now
    mintCutoff := reads.mintCutoff }

def ChainReads.beforeCutoff
    (reads : ChainReads) : Bool :=
  match reads.mintCutoff with
  | none => true
  | some mintCutoff => decide (reads.now < mintCutoff)

variable (reads : ChainReads)

/- The take-time conditions of a write-on-fill ask. -/
def ChainReads.mintable
    (order : RawBookOrder) : Bool :=
  match reads.gates with
  | none => true
  | some gates =>
      gates.mintOpen &&
        decide (order.maker.toLower ∈ gates.operators)

def ChainReads.live
    (order : RawBookOrder) : Bool :=
  !order.cancelled &&
    decide (order.longId = reads.longId) &&
    decide (order.validUntil > reads.now) &&
    (decide (order.kind ≠ 2) || reads.beforeCutoff) &&
    (decide (order.kind ≠ 2) || reads.mintable order) &&
    decide (order.units > order.filled) &&
    decide (order.price > 0) &&
    decide (order.kind ∈ [0, 1, 2])

def priority
    (a b : RawBookOrder)
    (descending : Bool) : Int :=
  if a.price < b.price then (if descending then 1 else -1)
  else if a.price > b.price then
    (if descending then -1 else 1)
  else if a.orderId < b.orderId then -1
  else if a.orderId > b.orderId then 1
  else 0

/- The first orders of one side, best first. -/
def ChainReads.side
    (descending : Bool)
    (ofSide : RawBookOrder → Bool) : List RawBookOrder :=
  (((reads.orders.filter reads.live).filter
    ofSide).insertionSort
      (fun a b => priority a b descending ≤ 0)).take
    bookOrdersPerSide

----
-- Levels
----

/- The levels of both sides, in the order they were opened. -/
structure ChainLevels where
  bid : OrderedMap Int Level
  ask : OrderedMap Int Level

def ChainReads.freeOf
    (order : RawBookOrder) : Int :=
  reads.freeByMaker.getD order.maker.toLower 0

def RawBookOrder.remaining
    (order : RawBookOrder) : Int :=
  order.units - order.filled

def RawBookOrder.levelKind
    (order : RawBookOrder) : LevelOrderKind :=
  if order.kind = 0 then .Bid
  else if order.kind = 1 then .AskResale
  else .AskWrite

def ChainReads.levelOrder
    (order : RawBookOrder)
    (units : Int)
    (makerFreeUnits : Option Int) : LevelOrder :=
  { orderId := order.orderId
    maker := order.maker
    units := units
    onChainRemainingUnits := order.remaining
    makerFreeUnits := makerFreeUnits
    makerFreeCollateral :=
      if order.kind = 2 then
        some
          { raw := reads.freeOf order
            decimals := reads.collateralDecimals }
      else none
    kind := order.levelKind
    validUntil := order.validUntil }

/- The level of the order's price, opened when it is new. -/
def pushLevel
    (side : OrderedMap Int Level)
    (price : Int)
    (order : LevelOrder) : OrderedMap Int Level :=
  let level :=
    (side.get? price).getD
      { price := { raw := price, decimals := 6 }
        units := 0
        orders := [] }
  side.set price
    { level with
      units := level.units + order.units
      orders := level.orders ++ [order] }

/- An ask that writes on fill shows what its writer backs. -/
def ChainReads.shown
    (order : RawBookOrder) : Except String LevelOrder :=
  if order.kind = 2 then
    match
      writerCapacity (reads.freeOf order) reads.rent
        maxUnits with
    | .error e => .error e
    | .ok makerFreeUnits =>
        match
          writerCapacity (reads.freeOf order) reads.rent
            order.remaining with
        | .error e => .error e
        | .ok units =>
            .ok
              (reads.levelOrder order units
                (some makerFreeUnits))
  else .ok (reads.levelOrder order order.remaining none)

def ChainReads.addOrder
    (levels : ChainLevels)
    (order : RawBookOrder) : Except String ChainLevels :=
  match reads.shown order with
  | .error e => .error e
  | .ok shown =>
      if shown.units = 0 then .ok levels
      else if order.kind = 0 then
        .ok
          { levels with
            bid := pushLevel levels.bid order.price shown }
      else
        .ok
          { levels with
            ask := pushLevel levels.ask order.price shown }

def ChainReads.addOrders
    (reads : ChainReads)
    (levels : ChainLevels) :
    List RawBookOrder → Except String ChainLevels
  | [] => .ok levels
  | order :: rest =>
      match reads.addOrder levels order with
      | .error e => .error e
      | .ok levels' => reads.addOrders levels' rest

def ChainReads.paused
    (reads : ChainReads) : Bool :=
  match reads.gates with
  | none => false
  | some gates => gates.tradingPaused

def levelsFromChainOrders
    (reads : ChainReads) : Except String BookResponse :=
  if reads.collateralPerUnit ≤ 0 then
    .error "Invalid series collateral"
  else if reads.paused then
    .ok
      { bids := []
        asks := []
        updatedBlock := reads.updatedBlock
        snapshotTimestamp := reads.now }
  else
    let bids :=
      reads.side true (fun o => decide (o.kind = 0))
    let asks :=
      reads.side false (fun o => decide (o.kind ≠ 0))
    match
      reads.addOrders
        { bid := OrderedMap.empty, ask := OrderedMap.empty }
        (bids ++ asks) with
    | .error e => .error e
    | .ok levels =>
        .ok
          { bids :=
              levels.bid.values.insertionSort
                (fun a b => a.price.raw > b.price.raw)
            asks :=
              levels.ask.values.insertionSort
                (fun a b => a.price.raw < b.price.raw)
            updatedBlock := reads.updatedBlock
            snapshotTimestamp := reads.now }

----
-- Both Sides of the Loop
----

/- One side after the orders `ps`, each with its price. -/
def pushLevels
    (side : OrderedMap Int Level)
    (ps : List (Int × LevelOrder)) : OrderedMap Int Level :=
  ps.foldl (fun side p => pushLevel side p.1 p.2) side

/- What `orders` show on one side, orders of no unit left out. -/
def shownOn
    (shows : RawBookOrder → LevelOrder)
    (ofSide : RawBookOrder → Bool)
    (orders : List RawBookOrder) : List (Int × LevelOrder) :=
  ((orders.filter ofSide).map
    (fun o => (o.price, shows o))).filter
    (fun p => decide (p.2.units ≠ 0))

theorem shownOn_cons
    (shows : RawBookOrder → LevelOrder)
    (ofSide : RawBookOrder → Bool)
    (order : RawBookOrder)
    (rest : List RawBookOrder) :
    shownOn shows ofSide (order :: rest) =
      (if ofSide order = true ∧ (shows order).units ≠ 0 then
          [(order.price, shows order)]
        else []) ++
        shownOn shows ofSide rest := by
  unfold shownOn
  rw [List.filter_cons]
  by_cases hSide : ofSide order = true
  · by_cases hUnits : (shows order).units = 0
    · simp [hSide, hUnits]
    · simp [hSide, hUnits]
  · simp [hSide]

/- The loop pushes every shown order on its own side. -/
theorem addOrders_eq
    {reads : ChainReads}
    {shows : RawBookOrder → LevelOrder}
    {orders : List RawBookOrder}
    (hShown : ∀ o ∈ orders, reads.shown o = .ok (shows o))
    (levels : ChainLevels) :
    reads.addOrders levels orders =
      .ok
        { bid :=
            pushLevels levels.bid
              (shownOn shows (fun o => decide (o.kind = 0))
                orders)
          ask :=
            pushLevels levels.ask
              (shownOn shows (fun o => decide (o.kind ≠ 0))
                orders) } := by
  induction orders generalizing levels with
  | nil => rfl
  | cons order rest ih =>
      have hRest :=
        fun o ho => hShown o (List.mem_cons_of_mem order ho)
      have hHead := hShown order (List.mem_cons_self ..)
      rw [ChainReads.addOrders, shownOn_cons, shownOn_cons]
      unfold ChainReads.addOrder
      rw [hHead]
      simp only
      by_cases hUnits : (shows order).units = 0
      · rw [if_pos hUnits]
        simp only
        rw [ih hRest]
        simp [hUnits]
      · rw [if_neg hUnits]
        by_cases hKind : order.kind = 0
        · rw [if_pos hKind]
          simp only
          rw [ih hRest]
          simp [hKind, hUnits, pushLevels]
        · rw [if_neg hKind]
          simp only
          rw [ih hRest]
          simp [hKind, hUnits, pushLevels]

end Callhouse.Web
