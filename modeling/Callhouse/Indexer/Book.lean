import Callhouse.Indexer.Rent
import Callhouse.Lib.OrderedMap
import Mathlib.Data.List.Sort

/-
  indexer/lib/v2/book.ts: the served order book of a series,
  built from the indexed orders and the writers' free
  balances.

  Main declarations:
    * `aggregateBook`
    * `levels_orders`
    * `walkWrites_ok`
    * `servedUnits`
-/

----
-- Orders and Levels
----

namespace Callhouse.Indexer

inductive BookKind where
  | Bid
  | AskResale
  | AskWrite
deriving DecidableEq

inductive OrderStatus where
  | open
  | filled
  | cancelled
  | pruned
  | expired
deriving DecidableEq

inductive SeriesStatus where
  | open
  | cutoff
  | expired
  | settling
  | held
  | settled
deriving DecidableEq

structure BookOrder where
  orderId : Int
  maker : String
  longId : Int
  kind : BookKind
  price : Int
  units : Int
  filled : Int
  validUntil : Int
  status : OrderStatus
  placedAt : Int
  placedBlock : Int
deriving DecidableEq

structure BookSeries where
  longId : Int
  isPut : Bool
  strike : Int
  mintCutoff : Int
  mintFeePpm : Int
  expiry : Int
  status : SeriesStatus
deriving DecidableEq

structure FillableOrder where
  orderId : Int
  maker : String
  kind : BookKind
  price : Int
  units : Int
  onChainRemainingUnits : Option Int
  makerFreeUnits : Option Int
  makerFreeCollateral : Option Int
  collateralDecimals : Option Int
  validUntil : Int
  placedAt : Int
  placedBlock : Int
deriving DecidableEq

def FillableOrder.withUnits
    (o : FillableOrder)
    (units : Int) : FillableOrder :=
  { o with units := units }

structure BookLevel where
  price : Int
  units : Int
  orders : List FillableOrder
deriving DecidableEq

structure AggregatedBook where
  bids : List BookLevel
  asks : List BookLevel
  updatedBlock : Int
  snapshotTimestamp : Int
deriving DecidableEq

def unit : Int := 10000000000000000

def unitsPerShare : Int := 100

def collateralPerUnit
    (isPut : Bool)
    (strike : Int) : Except String Int :=
  if strike ≤ 0 then .error "strike must be positive"
  else if isPut then .ok (strike.tdiv unitsPerShare)
  else .ok unit

def makerKey
    (maker : String) : String :=
  maker.toLower

def compare
    (a b : FillableOrder)
    (descending : Bool) : Int :=
  if a.price ≠ b.price then
    if a.price < b.price then (if descending then 1 else -1)
    else if descending then -1
    else 1
  else if a.placedBlock ≠ b.placedBlock then
    if a.placedBlock < b.placedBlock then -1 else 1
  else if a.placedAt ≠ b.placedAt then
    if a.placedAt < b.placedAt then -1 else 1
  else if a.orderId < b.orderId then -1
  else if a.orderId > b.orderId then 1
  else 0

variable (descending : Bool)

/- Best price first, then oldest. -/
def sortOrders
    (orders : List FillableOrder) : List FillableOrder :=
  orders.insertionSort
    (fun a b => compare a b descending ≤ 0)

/- One more order at the tail of the levels so far. -/
def pushOrder
    (out : List BookLevel)
    (order : FillableOrder) : List BookLevel :=
  match out.getLast? with
  | some last =>
      if last.price = order.price then
        out.dropLast ++
          [{ last with
              units := last.units + order.units
              orders := last.orders ++ [order] }]
      else
        out ++
          [{ price := order.price
             units := order.units
             orders := [order] }]
  | none =>
      [{ price := order.price
         units := order.units
         orders := [order] }]

def levels
    (orders : List FillableOrder) : List BookLevel :=
  (sortOrders descending orders).foldl pushOrder []

----
-- The Served Book
----

structure BookInput where
  series : BookSeries
  orders : List BookOrder
  freeByMaker : OrderedMap String Int
  now : Int
  snapshotTimestamp : Option Int
  marketEnabled : Option Bool
  mintPaused : Option Bool
  tradingPaused : Option Bool
  bookIsMinter : Option Bool
  operators : Option (List String)
  depth : Option Int

def BookInput.snapshot
    (input : BookInput) : Int :=
  input.snapshotTimestamp.getD input.now

def BookInput.liveAt
    (input : BookInput) : Int :=
  if input.now > input.snapshot then input.now
  else input.snapshot

/- The life left at the balance checkpoint. -/
def BookInput.life
    (input : BookInput) : Int :=
  input.series.expiry - input.snapshot

def BookInput.empty
    (input : BookInput) : AggregatedBook :=
  { bids := []
    asks := []
    updatedBlock := 0
    snapshotTimestamp := input.snapshot }

/- Nothing of the series can be taken. -/
def BookInput.closed
    (input : BookInput) : Bool :=
  (decide (input.series.status ≠ .open) &&
      decide (input.series.status ≠ .cutoff)) ||
    decide (input.liveAt ≥ input.series.expiry) ||
    decide (input.tradingPaused = some true)

def BookInput.freeOf
    (input : BookInput)
    (maker : String) : Int :=
  input.freeByMaker.getD (makerKey maker) 0

def BookInput.deadline
    (input : BookInput)
    (order : BookOrder) : Int :=
  let seriesDeadline :=
    if order.kind = .AskWrite then input.series.mintCutoff
    else input.series.expiry
  if order.validUntil = 0 ∨
      order.validUntil > seriesDeadline then seriesDeadline
  else order.validUntil

/- A live order with units left, of any kind. -/
def BookInput.live
    (input : BookInput)
    (order : BookOrder) : Bool :=
  decide (order.longId = input.series.longId) &&
    decide (order.status = .open) &&
    decide (0 < order.price) &&
    decide (input.liveAt < input.deadline order) &&
    decide (0 < order.units - order.filled)

/- The gates a write-on-fill ask has to pass as well. -/
def BookInput.mintOpen
    (input : BookInput)
    (order : BookOrder) : Bool :=
  decide (input.liveAt < input.series.mintCutoff) &&
    decide (input.marketEnabled ≠ some false) &&
    decide (input.mintPaused ≠ some true) &&
    decide (input.bookIsMinter ≠ some false) &&
    match input.operators with
    | none => true
    | some operators =>
        decide (makerKey order.maker ∈ operators)

def BookInput.fillable
    (input : BookInput)
    (order : BookOrder)
    (makerFreeUnits makerFreeCollateral : Option Int) :
    FillableOrder :=
  { orderId := order.orderId
    maker := order.maker
    kind := order.kind
    price := order.price
    units := order.units - order.filled
    onChainRemainingUnits := some (order.units - order.filled)
    makerFreeUnits := makerFreeUnits
    makerFreeCollateral := makerFreeCollateral
    collateralDecimals :=
      some (if input.series.isPut then 6 else 18)
    validUntil := input.deadline order
    placedAt := order.placedAt
    placedBlock := order.placedBlock }

/- What the loop over the orders has collected. -/
structure Collected where
  bids : List FillableOrder
  asks : List FillableOrder
  writes : List FillableOrder
  updatedBlock : Int
deriving DecidableEq

def Collected.empty : Collected :=
  { bids := []
    asks := []
    writes := []
    updatedBlock := 0 }

def laterBlock
    (updatedBlock : Int)
    (order : FillableOrder) : Int :=
  if order.placedBlock > updatedBlock then order.placedBlock
  else updatedBlock

def collectOrder
    (input : BookInput)
    (cpu : Int)
    (acc : Collected)
    (order : BookOrder) : Except String Collected :=
  if input.live order = false then .ok acc
  else
    match order.kind with
    | .AskWrite =>
        if input.mintOpen order = false then .ok acc
        else
          let free := input.freeOf order.maker
          match
            rentCapacity free cpu input.series.mintFeePpm
              input.life maxUnits with
          | .error e => .error e
          | .ok makerFreeUnits =>
              if makerFreeUnits ≤ 0 then .ok acc
              else
                let write :=
                  input.fillable order (some makerFreeUnits)
                    (some free)
                .ok { acc with writes := acc.writes ++ [write] }
    | .Bid =>
        let bid := input.fillable order none none
        .ok
          { acc with
            bids := acc.bids ++ [bid]
            updatedBlock := laterBlock acc.updatedBlock bid }
    | .AskResale =>
        let ask := input.fillable order none none
        .ok
          { acc with
            asks := acc.asks ++ [ask]
            updatedBlock := laterBlock acc.updatedBlock ask }

/- Each writer's budget, spent in the order of a take. -/
def walkWrites
    (input : BookInput)
    (cpu : Int)
    (left : OrderedMap String Int) :
    List FillableOrder → Except String (List FillableOrder)
  | [] => .ok []
  | order :: rest =>
      let key := makerKey order.maker
      let free := left.getD key (input.freeOf order.maker)
      match
        rentCapacity free cpu input.series.mintFeePpm
          input.life maxUnits with
      | .error e => .error e
      | .ok covered =>
          let units :=
            if order.units < covered then order.units
            else covered
          if units ≤ 0 then walkWrites input cpu left rest
          else
            match
              collateralWithRent units cpu
                input.series.mintFeePpm input.life with
            | .error e => .error e
            | .ok need =>
                match
                  walkWrites input cpu
                    (left.set key (free - need)) rest with
                | .error e => .error e
                | .ok listed =>
                    .ok (order.withUnits units :: listed)

def BookInput.depthLimit
    (input : BookInput) : Int :=
  match input.depth with
  | none => 9007199254740991
  | some depth => max 0 depth

def collectOrders
    (input : BookInput)
    (cpu : Int)
    (acc : Collected) :
    List BookOrder → Except String Collected
  | [] => .ok acc
  | order :: rest =>
      match collectOrder input cpu acc order with
      | .error e => .error e
      | .ok acc' => collectOrders input cpu acc' rest

/- The levels of what was collected and listed. -/
def BookInput.book
    (input : BookInput)
    (all : Collected)
    (listed : List FillableOrder) : AggregatedBook :=
  let depth := input.depthLimit.toNat
  { bids := (levels true all.bids).take depth
    asks := (levels false (all.asks ++ listed)).take depth
    updatedBlock := listed.foldl laterBlock all.updatedBlock
    snapshotTimestamp := input.snapshot }

def aggregateBook
    (input : BookInput) : Except String AggregatedBook :=
  if input.closed then .ok input.empty
  else
    match
      collateralPerUnit input.series.isPut
        input.series.strike with
    | .error e => .error e
    | .ok cpu =>
        match
          collectOrders input cpu Collected.empty
            input.orders with
        | .error e => .error e
        | .ok all =>
            match
              walkWrites input cpu OrderedMap.empty
                (sortOrders false all.writes) with
            | .error e => .error e
            | .ok listed => .ok (input.book all listed)

----
-- Order and Levels
----

/- Price first, best to worst, then the older order. -/
def Precedes
    (a b : FillableOrder) : Prop :=
  (if descending then b.price < a.price
    else a.price < b.price) ∨
    (a.price = b.price ∧
      (a.placedBlock < b.placedBlock ∨
        (a.placedBlock = b.placedBlock ∧
          (a.placedAt < b.placedAt ∨
            (a.placedAt = b.placedAt ∧
              a.orderId ≤ b.orderId)))))

theorem compare_le_zero_iff
    {descending : Bool}
    {a b : FillableOrder} :
    compare a b descending ≤ 0 ↔ Precedes descending a b := by
  unfold compare Precedes
  cases descending with
  | true =>
      simp only [if_true]
      split_ifs <;> omega
  | false =>
      simp only [Bool.false_eq_true, if_false]
      split_ifs <;> omega

instance
    (descending : Bool) :
    Std.Total (fun a b : FillableOrder =>
      compare a b descending ≤ 0) :=
  ⟨by
    intro a b
    rw [compare_le_zero_iff, compare_le_zero_iff]
    unfold Precedes
    cases descending <;>
      simp only [if_true, Bool.false_eq_true, if_false] <;>
      omega⟩

instance
    (descending : Bool) :
    IsTrans FillableOrder (fun a b =>
      compare a b descending ≤ 0) :=
  ⟨by
    intro a b c
    rw [compare_le_zero_iff, compare_le_zero_iff,
      compare_le_zero_iff]
    unfold Precedes
    cases descending <;>
      simp only [if_true, Bool.false_eq_true, if_false] <;>
      omega⟩

theorem sortOrders_sorted
    (orders : List FillableOrder) :
    (sortOrders descending orders).Pairwise
      (fun a b => compare a b descending ≤ 0) :=
  List.pairwise_insertionSort _ _

theorem sortOrders_perm
    (orders : List FillableOrder) :
    (sortOrders descending orders).Perm orders :=
  List.perm_insertionSort _ _

theorem pushOrder_spec
    (out : List BookLevel)
    (order : FillableOrder) :
    (pushOrder out order).flatMap (fun l => l.orders) =
        out.flatMap (fun l => l.orders) ++ [order] ∧
      (pushOrder out order).length ≤ out.length + 1 := by
  unfold pushOrder
  cases hLast : out.getLast? with
  | none =>
      have hEmpty : out = [] := List.getLast?_eq_none_iff.mp hLast
      subst hEmpty
      simp
  | some last =>
      rcases List.getLast?_eq_some_iff.mp hLast with
        ⟨front, rfl⟩
      simp only
      split
      · simp
      · simp

theorem foldl_pushOrder_spec
    (orders : List FillableOrder)
    (out : List BookLevel) :
    (orders.foldl pushOrder out).flatMap
          (fun l => l.orders) =
        out.flatMap (fun l => l.orders) ++ orders ∧
      (orders.foldl pushOrder out).length ≤
        out.length + orders.length := by
  induction orders generalizing out with
  | nil => simp
  | cons order rest ih =>
      rcases pushOrder_spec out order with
        ⟨hOrders, hLength⟩
      rcases ih (pushOrder out order) with ⟨hRest, hMore⟩
      constructor
      · rw [List.foldl_cons, hRest, hOrders]
        simp
      · rw [List.foldl_cons, List.length_cons]
        omega

/- Grouping into levels neither drops nor reorders orders. -/
theorem levels_orders
    (orders : List FillableOrder) :
    (levels descending orders).flatMap (fun l => l.orders) =
      sortOrders descending orders := by
  unfold levels
  rw [(foldl_pushOrder_spec _ []).1]
  simp

theorem length_levels_le
    (orders : List FillableOrder) :
    (levels descending orders).length ≤ orders.length := by
  have hLength :=
    (foldl_pushOrder_spec
      (sortOrders descending orders) []).2
  have hSame := (sortOrders_perm descending orders).length_eq
  unfold levels
  rw [hSame] at hLength
  simpa using hLength

----
-- Collecting
----

section

/- What the callers of the book give it, and its size. -/
structure BookInput.Served
    (input : BookInput)
    (cpu : Int) : Prop where
  open_ : input.closed = false
  cpu_eq :
    collateralPerUnit input.series.isPut
      input.series.strike = .ok cpu
  cpu_pos : 0 < cpu
  ppm_nonneg : 0 ≤ input.series.mintFeePpm
  ppm_le : input.series.mintFeePpm ≤ mintFeeCeilPpm
  free_nonneg : ∀ maker, 0 ≤ input.freeOf maker
  ids : (input.orders.map (fun o => o.orderId)).Nodup
  depth : (input.orders.length : Int) ≤ input.depthLimit

variable {input : BookInput} {cpu : Int}

theorem life_pos
    (h : input.closed = false) :
    0 < input.life := by
  simp only [BookInput.closed, Bool.or_eq_false_iff,
    decide_eq_false_iff_not, not_le, ge_iff_le] at h
  have hLive := h.1.2
  unfold BookInput.life
  unfold BookInput.liveAt at hLive
  split at hLive <;> omega

/- The units a balance backs, as the indexer counts them. -/
def BookInput.backed
    (input : BookInput)
    (cpu free : Int) : Int :=
  min maxUnits
    (WriteCost.capacity free cpu input.series.mintFeePpm
      input.life)

theorem BookInput.Served.capacity
    (h : input.Served cpu)
    {free : Int}
    (hFree : 0 ≤ free) :
    WriteCost.IsCapacity free cpu input.series.mintFeePpm
      input.life
      (WriteCost.capacity free cpu input.series.mintFeePpm
        input.life) :=
  WriteCost.capacity_isCapacity hFree h.cpu_pos h.ppm_nonneg
    (life_pos h.open_).le

theorem BookInput.Served.rentCapacity_eq
    (h : input.Served cpu)
    {free : Int}
    (hFree : 0 ≤ free) :
    rentCapacity free cpu input.series.mintFeePpm input.life
        maxUnits =
      .ok (input.backed cpu free) := by
  rw [Indexer.rentCapacity_eq hFree h.cpu_pos h.ppm_nonneg
    h.ppm_le (life_pos h.open_).le (by decide)
    (h.capacity hFree), min_self]
  rfl

theorem BookInput.Served.backed_nonneg
    (h : input.Served cpu)
    {free : Int}
    (hFree : 0 ≤ free) :
    0 ≤ input.backed cpu free :=
  le_min (by decide)
    (WriteCost.capacity_nonneg hFree (h.capacity hFree))

/- A live write-on-fill ask with every gate open. -/
def BookInput.writes
    (input : BookInput)
    (order : BookOrder) : Bool :=
  decide (order.kind = .AskWrite) && input.live order &&
    input.mintOpen order

/- What it lists at once: the orders that hold their escrow. -/
def BookInput.escrowedOf
    (input : BookInput)
    (kind : BookKind)
    (order : BookOrder) : Option FillableOrder :=
  if order.kind = kind ∧ input.live order then
    some (input.fillable order none none)
  else none

end

----
-- The Writers' Walk
----

section

variable {input : BookInput} {cpu : Int}

/- No writer has spent more than its balance so far. -/
def BudgetsLeft
    (input : BookInput)
    (left : OrderedMap String Int) : Prop :=
  ∀ maker,
    0 ≤ left.getD (makerKey maker) (input.freeOf maker)

theorem budgetsLeft_empty
    (h : input.Served cpu) :
    BudgetsLeft input OrderedMap.empty := by
  intro maker
  exact h.free_nonneg maker

variable {left : OrderedMap String Int}

/- Listing what a budget backs leaves the budget covered. -/
theorem BudgetsLeft.set
    (hLeft : BudgetsLeft input left)
    (key : String)
    {rest : Int}
    (hRest : 0 ≤ rest) :
    BudgetsLeft input (left.set key rest) := by
  intro maker
  rw [OrderedMap.getD_set]
  split
  · exact hRest
  · exact hLeft maker

/- One order of the walk, with its budget and what it takes. -/
theorem walkWrites_cons
    (h : input.Served cpu)
    (hLeft : BudgetsLeft input left)
    (order : FillableOrder)
    (rest : List FillableOrder) :
    let key := makerKey order.maker
    let free := left.getD key (input.freeOf order.maker)
    let units := min order.units (input.backed cpu free)
    (units ≤ 0 ∧
        walkWrites input cpu left (order :: rest) =
          walkWrites input cpu left rest) ∨
      (0 < units ∧
        ∃ left',
          BudgetsLeft input left' ∧
          left' =
            left.set key
              (free -
                WriteCost.cost cpu input.series.mintFeePpm
                  input.life units) ∧
          walkWrites input cpu left (order :: rest) =
            match walkWrites input cpu left' rest with
            | .error e => .error e
            | .ok listed =>
                .ok (order.withUnits units :: listed)) := by
  intro key free units
  have hFree : 0 ≤ free := hLeft order.maker
  have hUnits :
      (if order.units < input.backed cpu free then order.units
        else input.backed cpu free) = units := by
    simp only [units]
    omega
  have hWalk :
      walkWrites input cpu left (order :: rest) =
        if units ≤ 0 then walkWrites input cpu left rest
        else
          match
            collateralWithRent units cpu
              input.series.mintFeePpm input.life with
          | .error e => .error e
          | .ok need =>
              match
                walkWrites input cpu
                  (left.set key (free - need)) rest with
              | .error e => .error e
              | .ok listed =>
                  .ok (order.withUnits units ::
                    listed) := by
    rw [walkWrites]
    simp only
    rw [h.rentCapacity_eq hFree]
    simp only
    rw [hUnits]
  rcases le_or_gt units 0 with hNone | hSome
  · left
    exact ⟨hNone, by rw [hWalk, if_pos hNone]⟩
  · right
    refine ⟨hSome, _, ?_, rfl, ?_⟩
    · apply hLeft.set key
      have hCapacity := h.capacity hFree
      have hBacked :
          units ≤
            WriteCost.capacity free cpu
              input.series.mintFeePpm input.life :=
        (min_le_right _ _).trans (min_le_right _ _)
      have hCovered :=
        (WriteCost.cost_le_iff_le_capacity h.cpu_pos.le
          h.ppm_nonneg (life_pos h.open_).le
          hCapacity).mpr hBacked
      omega
    · rw [hWalk, if_neg (not_le.mpr hSome),
        collateralWithRent_eq_cost hSome.le h.cpu_pos
          h.ppm_nonneg h.ppm_le (life_pos h.open_).le]

/- The listed units of one order. -/
def unitsListed
    (orderId : Int)
    (listed : List FillableOrder) : Int :=
  ((listed.filter (fun o => o.orderId = orderId)).map
    (fun o => o.units)).sum

variable {order : FillableOrder} {orderId : Int}

/- The walk never fails, and lists only what it walks. -/
theorem walkWrites_ok
    (h : input.Served cpu)
    (writes : List FillableOrder)
    (hLeft : BudgetsLeft input left) :
    ∃ listed, walkWrites input cpu left writes = .ok listed ∧
      (listed.map (fun o => o.orderId)).Sublist
        (writes.map (fun o => o.orderId)) := by
  induction writes generalizing left with
  | nil => exact ⟨[], rfl, List.Sublist.refl _⟩
  | cons order rest ih =>
      rcases walkWrites_cons h hLeft order rest with
        ⟨_, hWalk⟩ | ⟨_, left', hLeft', _, hWalk⟩
      · rcases ih hLeft with ⟨listed, hRest, hSublist⟩
        exact ⟨listed, hWalk.trans hRest, hSublist.cons _⟩
      · rcases ih hLeft' with ⟨listed, hRest, hSublist⟩
        rw [hRest] at hWalk
        exact ⟨_, hWalk, hSublist.cons_cons _⟩

end

----
-- What the Book Serves
----

variable {input : BookInput} {cpu : Int}

/- The units of an ask that the served book shows. -/
def servedUnits
    (book : AggregatedBook)
    (orderId : Int) : Int :=
  unitsListed orderId
    (book.asks.flatMap (fun l => l.orders))

theorem escrowedOf_eq_some
    {kind : BookKind}
    {order : BookOrder}
    {listed : FillableOrder}
    (h : input.escrowedOf kind order = some listed) :
    order.kind = kind ∧
      listed = input.fillable order none none := by
  unfold BookInput.escrowedOf at h
  split at h
  · next hKind =>
      cases h
      exact ⟨hKind.1, rfl⟩
  · cases h

theorem ids_filterMap_sublist
    {f : BookOrder → Option FillableOrder}
    (hf :
      ∀ o x, f o = some x → x.orderId = o.orderId)
    (orders : List BookOrder) :
    ((orders.filterMap f).map (fun o => o.orderId)).Sublist
      (orders.map (fun o => o.orderId)) := by
  induction orders with
  | nil => exact List.Sublist.refl _
  | cons o rest ih =>
      rw [List.filterMap_cons, List.map_cons]
      cases hSome : f o with
      | none => exact ih.cons _
      | some x =>
          rw [← hf o x hSome]
          exact ih.cons_cons _

end Callhouse.Indexer
