import Callhouse.Indexer.ServedBook
import Callhouse.Lib.BudgetWalk

/-
  indexer/lib/v2/cards.ts: the ticket that a take of some
  units fills against the served asks.  A thrown RangeError
  is its message.

  Main declarations:
    * `walkAsks`, `payoutAtTarget`
    * `askMarket`
    * `walkOrders_eq`
-/

----
-- Fees and Payouts
----

namespace Callhouse.Indexer

def Cards.bps : Int := 10000

def Cards.wad : Int := 1000000000000000000

def maxPayoutFeeShareBps : Int := 1000

structure CardFees where
  takerFeeFlat : Int
  takerFeeCapBps : Int
  exerciseFeeBps : Int
deriving DecidableEq

def CardFees.outside
    (fees : CardFees) : Bool :=
  decide (fees.takerFeeFlat < 0) ||
    decide (fees.takerFeeCapBps < 0) ||
    decide (fees.takerFeeCapBps > 1000) ||
    decide (fees.exerciseFeeBps < 0) ||
    decide (fees.exerciseFeeBps > 200)

/- One fee a take, capped by the premium share. -/
def takerFee
    (premium : Int)
    (fees : CardFees) : Except String Int :=
  if premium < 0 then .error "negative premium"
  else
    let cap := (premium * fees.takerFeeCapBps).tdiv Cards.bps
    .ok
      (if fees.takerFeeFlat < cap then fees.takerFeeFlat
        else cap)

theorem takerFee_ok
    {premium : Int}
    (fees : CardFees)
    (h : 0 ≤ premium) :
    ∃ fee, takerFee premium fees = .ok fee := by
  unfold takerFee
  rw [if_neg (not_lt.mpr h)]
  exact ⟨_, rfl⟩

/- Net settlement value of one unit, in USDG base units. -/
def payoutAtTarget
    (isPut : Bool)
    (strike target exerciseFeeBps : Int) :
    Except String Int :=
  if target < 0 ∨ exerciseFeeBps < 0 ∨
      exerciseFeeBps > 200 then
    .error "invalid payout input"
  else
    let gross :=
      if isPut then
        if target < strike then
          (strike - target).tdiv unitsPerShare
        else 0
      else if target > strike then
        (unit * (target - strike)).tdiv target
      else 0
    if gross = 0 then .ok 0
    else
      match collateralPerUnit isPut strike with
      | .error e => .error e
      | .ok collateral =>
          let configured :=
            (collateral * exerciseFeeBps).tdiv Cards.bps
          let maxShare :=
            (gross * maxPayoutFeeShareBps).tdiv Cards.bps
          let fee :=
            if configured < maxShare then configured
            else maxShare
          let net := gross - fee
          .ok (if isPut then net
            else (net * target).tdiv Cards.wad)

----
-- The Ticket
----

structure TicketFill where
  orderId : Int
  maker : String
  kind : BookKind
  units : Int
  price : Int
deriving DecidableEq

structure Ticket where
  requested : Int
  filled : Int
  premium : Int
  takerFee : Int
  cost : Int
  orderIds : List Int
  fills : List TicketFill
deriving DecidableEq

/- The state of the walk over the asks. -/
structure TicketWalk where
  free : OrderedMap String Int
  filled : Int
  premium : Int
  fills : List TicketFill

/- What is left in the stored order. -/
def FillableOrder.stored
    (o : FillableOrder) : Int :=
  o.onChainRemainingUnits.getD o.units

def FillableOrder.ticketFill
    (o : FillableOrder)
    (units : Int) : TicketFill :=
  { orderId := o.orderId
    maker := o.maker
    kind := o.kind
    units := units
    price := o.price }

def TicketWalk.fill
    (walk : TicketWalk)
    (order : FillableOrder)
    (units : Int) : TicketWalk :=
  { walk with
    filled := walk.filled + units
    premium :=
      walk.premium + (order.price * units).tdiv unitsPerShare
    fills := walk.fills ++ [order.ticketFill units] }

/- What every order of one walk is priced with. -/
structure WalkTerms where
  requested : Int
  cpu : Int
  ppm : Int
  snapshot : Int
  mintCutoff : Int
  expiry : Int
deriving DecidableEq

/- An AskWrite that the whole fill overdraws is passed over. -/
def walkOrder
    (t : WalkTerms)
    (walk : TicketWalk)
    (order : FillableOrder) : Except String TicketWalk :=
  let remaining := t.requested - walk.filled
  let units :=
    if order.stored < remaining then order.stored
    else remaining
  if order.kind = .AskWrite then
    match
      collateralWithRent units t.cpu t.ppm
        (t.expiry - t.snapshot) with
    | .error e => .error e
    | .ok need =>
        let key := makerKey order.maker
        let available := walk.free.getD key 0
        if available < need ∨ t.snapshot ≥ t.mintCutoff then
          .ok walk
        else
          let reserved :=
            { walk with
              free := walk.free.set key (available - need) }
          .ok (reserved.fill order units)
  else .ok (walk.fill order units)

/- The orders of one level, until the ticket is full. -/
def walkOrders
    (t : WalkTerms)
    (walk : TicketWalk) :
    List FillableOrder → Except String TicketWalk
  | [] => .ok walk
  | order :: rest =>
      if t.requested - walk.filled = 0 then .ok walk
      else
        match walkOrder t walk order with
        | .error e => .error e
        | .ok walk' => walkOrders t walk' rest

def walkLevels
    (t : WalkTerms)
    (walk : TicketWalk) :
    List BookLevel → Except String TicketWalk
  | [] => .ok walk
  | level :: rest =>
      match walkOrders t walk level.orders with
      | .error e => .error e
      | .ok walk' =>
          if walk'.filled = t.requested then .ok walk'
          else walkLevels t walk' rest

def TicketWalk.ticket
    (walk : TicketWalk)
    (requested fee : Int) : Ticket :=
  { requested := requested
    filled := walk.filled
    premium := walk.premium
    takerFee := fee
    cost := walk.premium + fee
    orderIds := walk.fills.map (fun f => f.orderId)
    fills := walk.fills }

def walkAsks
    (book : AggregatedBook)
    (requested : Int)
    (series : BookSeries)
    (freeByMaker : OrderedMap String Int)
    (fees : CardFees) : Except String Ticket :=
  if fees.outside then
    .error "card fee parameters exceed the contract ceilings"
  else if requested ≤ 0 then
    .error "requested units must be positive"
  else
    match collateralPerUnit series.isPut series.strike with
    | .error e => .error e
    | .ok cpu =>
        let t : WalkTerms :=
          { requested := requested
            cpu := cpu
            ppm := series.mintFeePpm
            snapshot := book.snapshotTimestamp
            mintCutoff := series.mintCutoff
            expiry := series.expiry }
        match
          walkLevels t
            { free := freeByMaker
              filled := 0
              premium := 0
              fills := [] } book.asks with
        | .error e => .error e
        | .ok walk =>
            match takerFee walk.premium fees with
            | .error e => .error e
            | .ok fee => .ok (walk.ticket requested fee)

----
-- The Walk as a Walk Over Budgets
----

open BudgetWalk

/- The asks of one series, as offers on their writers' budgets. -/
def askMarket
    (cpu ppm life : Int) : Market FillableOrder String :=
  { owner := fun o =>
      if o.kind = .AskWrite then some (makerKey o.maker)
      else none
    size := FillableOrder.stored
    cost := WriteCost.cost cpu ppm life }

/- The terms that a walk of a live book is made under. -/
structure WalkTerms.Valid
    (t : WalkTerms) : Prop where
  cpu_pos : 0 < t.cpu
  ppm_nonneg : 0 ≤ t.ppm
  ppm_le : t.ppm ≤ mintFeeCeilPpm
  life_nonneg : 0 ≤ t.expiry - t.snapshot

def WalkTerms.market
    (t : WalkTerms) : Market FillableOrder String :=
  askMarket t.cpu t.ppm (t.expiry - t.snapshot)

/- The budgets and the wanted rest that the walk has left. -/
def TicketWalk.state
    (t : WalkTerms)
    (walk : TicketWalk) : State String :=
  { left := fun k => walk.free.getD k 0
    want := t.requested - walk.filled }

def premiumOf
    (p : FillableOrder × Int) : Int :=
  (p.1.price * p.2).tdiv unitsPerShare

/- The state after the fills `ps` of a walk. -/
structure TicketWalk.Took
    (walk : TicketWalk)
    (ps : List (FillableOrder × Int))
    (walk' : TicketWalk) : Prop where
  fills :
    walk'.fills =
      walk.fills ++ ps.map (fun p => p.1.ticketFill p.2)
  filled :
    walk'.filled = walk.filled + (ps.map Prod.snd).sum
  premium :
    walk'.premium = walk.premium + (ps.map premiumOf).sum

theorem TicketWalk.Took.refl
    (walk : TicketWalk) :
    walk.Took [] walk :=
  { fills := by simp, filled := by simp, premium := by simp }

theorem TicketWalk.Took.trans
    {a b c : TicketWalk}
    {ps qs : List (FillableOrder × Int)}
    (h : a.Took ps b)
    (h' : b.Took qs c) :
    a.Took (ps ++ qs) c := by
  refine { fills := ?_, filled := ?_, premium := ?_ }
  · rw [h'.fills, h.fills, List.map_append,
      List.append_assoc]
  · rw [h'.filled, h.filled, List.map_append,
      List.sum_append]
    omega
  · rw [h'.premium, h.premium, List.map_append,
      List.sum_append]
    omega

theorem TicketWalk.took_fill
    (walk : TicketWalk)
    (order : FillableOrder)
    (units : Int) :
    walk.Took [(order, units)] (walk.fill order units) :=
  { fills := rfl
    filled := by simp [TicketWalk.fill]
    premium := by simp [TicketWalk.fill, premiumOf] }

variable {t : WalkTerms}

theorem min_stored
    (walk : TicketWalk)
    (order : FillableOrder) :
    (if order.stored < t.requested - walk.filled then
        order.stored
      else t.requested - walk.filled) =
      t.market.take (walk.state t) order := by
  show _ =
    min order.stored (t.requested - walk.filled)
  omega

/- One order: the market's step, and the fill it makes. -/
theorem walkOrder_eq
    (h : t.Valid)
    {walk : TicketWalk}
    {order : FillableOrder}
    (hStored : 0 < order.stored)
    (hWant : 0 < t.requested - walk.filled)
    (hCutoff :
      order.kind = .AskWrite → t.snapshot < t.mintCutoff) :
    ∃ walk', walkOrder t walk order = .ok walk' ∧
      walk'.state t = t.market.step (walk.state t) order ∧
      walk.Took
        (if t.market.fills (walk.state t) order then
          [(order, t.market.take (walk.state t) order)]
        else []) walk' := by
  have hTake : 0 ≤ t.market.take (walk.state t) order := by
    have hOne :=
      take_pos (m := t.market) (s := walk.state t) hStored
        hWant.le hWant.ne'
    omega
  have hNeed :=
    collateralWithRent_eq_cost hTake h.cpu_pos h.ppm_nonneg
      h.ppm_le h.life_nonneg
  unfold walkOrder
  simp only [min_stored]
  by_cases hKind : order.kind = .AskWrite
  · have hOwner :
        t.market.owner order = some (makerKey order.maker) :=
      if_pos hKind
    rw [if_pos hKind, hNeed]
    simp only [ge_iff_le, not_le.mpr (hCutoff hKind),
      or_false]
    by_cases hShort :
        walk.free.getD (makerKey order.maker) 0 <
          WriteCost.cost t.cpu t.ppm (t.expiry - t.snapshot)
            (t.market.take (walk.state t) order)
    · have hNot :
          t.market.fills (walk.state t) order = false := by
        by_contra hYes
        have hCovers :=
          (fills_eq_true_iff.mp (by simpa using hYes)).2 _
            hOwner
        exact absurd hCovers (not_le.mpr hShort)
      rw [if_pos hShort, hNot, step_of_not_fills hNot]
      exact ⟨walk, rfl, rfl, .refl walk⟩
    · have hFill :
          t.market.fills (walk.state t) order = true := by
        rw [fills_eq_true_iff]
        refine ⟨hWant.ne', ?_⟩
        intro k hk
        rw [hOwner] at hk
        cases hk
        exact not_lt.mp hShort
      rw [if_neg hShort, if_pos hFill, step_of_fills hFill]
      refine ⟨_, rfl, ?_, ?_⟩
      · unfold TicketWalk.state Market.filled
        rw [hOwner]
        congr 1
        · funext k
          simp only [TicketWalk.fill, charge]
          rw [OrderedMap.getD_set]
          by_cases hk : makerKey order.maker = k
          · subst hk
            rw [if_pos rfl, if_pos rfl]
            rfl
          · rw [if_neg hk, if_neg (Ne.symm hk)]
        · exact sub_add_eq_sub_sub _ _ _
      · have hTook :=
          walk.took_fill order
            (t.market.take (walk.state t) order)
        exact
          { fills := hTook.fills
            filled := hTook.filled
            premium := hTook.premium }
  · have hOwner : t.market.owner order = none := if_neg hKind
    have hFill : t.market.fills (walk.state t) order = true := by
      rw [fills_eq_true_iff]
      refine ⟨hWant.ne', ?_⟩
      intro k hk
      rw [hOwner] at hk
      cases hk
    rw [if_neg hKind, if_pos hFill, step_of_fills hFill]
    refine ⟨_, rfl, ?_, TicketWalk.took_fill _ _ _⟩
    unfold TicketWalk.state Market.filled
    rw [hOwner, charge_none]
    congr 1
    exact sub_add_eq_sub_sub _ _ _

/- The orders of a list: the market's walk. -/
theorem walkOrders_eq
    (h : t.Valid)
    {orders : List FillableOrder}
    (hStored : ∀ o ∈ orders, 0 < o.stored)
    (hCutoff :
      ∀ o ∈ orders, o.kind = .AskWrite →
        t.snapshot < t.mintCutoff)
    {walk : TicketWalk}
    (hWant : 0 ≤ t.requested - walk.filled) :
    ∃ walk', walkOrders t walk orders = .ok walk' ∧
      walk.Took (t.market.walk (walk.state t) orders)
        walk' := by
  induction orders generalizing walk with
  | nil => exact ⟨walk, rfl, .refl walk⟩
  | cons order rest ih =>
      rw [walkOrders]
      by_cases hDone : t.requested - walk.filled = 0
      · rw [if_pos hDone, walk_of_want hDone]
        exact ⟨walk, rfl, .refl walk⟩
      · rw [if_neg hDone]
        rcases walkOrder_eq h
            (hStored order (List.mem_cons_self ..))
            (lt_of_le_of_ne hWant (Ne.symm hDone))
            (hCutoff order (List.mem_cons_self ..)) with
          ⟨walk', hStep, hState, hTook⟩
        have hWant' : 0 ≤ t.requested - walk'.filled := by
          have hSame := congrArg State.want hState
          have hNext :=
            step_want (m := t.market) order
              (s := walk.state t) hWant
          rw [← hSame] at hNext
          exact hNext
        rcases ih
            (fun o ho =>
              hStored o (List.mem_cons_of_mem order ho))
            (fun o ho =>
              hCutoff o (List.mem_cons_of_mem order ho))
            hWant' with ⟨walk'', hRest, hTook'⟩
        rw [hStep]
        refine ⟨walk'', hRest, ?_⟩
        rw [walk_cons, ← hState]
        exact hTook.trans hTook'

/- Levels only group the orders. -/
theorem walkLevels_eq
    (t : WalkTerms)
    (walk : TicketWalk)
    (levels : List BookLevel) :
    walkLevels t walk levels =
      walkOrders t walk
        (levels.flatMap (fun l => l.orders)) := by
  induction levels generalizing walk with
  | nil => rfl
  | cons level rest ih =>
      have hAppend :
          ∀ (orders more : List FillableOrder)
            (walk : TicketWalk),
            walkOrders t walk (orders ++ more) =
              match walkOrders t walk orders with
              | .error e => .error e
              | .ok walk' => walkOrders t walk' more := by
        intro orders more
        induction orders with
        | nil => exact fun walk => rfl
        | cons order orders ihOrders =>
            intro walk
            rw [List.cons_append, walkOrders, walkOrders]
            by_cases hDone : t.requested - walk.filled = 0
            · rw [if_pos hDone, if_pos hDone]
              cases more with
              | nil => rfl
              | cons o more =>
                  simp only [walkOrders, if_pos hDone]
            · rw [if_neg hDone, if_neg hDone]
              cases walkOrder t walk order with
              | error e => rfl
              | ok walk' => exact ihOrders walk'
      rw [List.flatMap_cons, hAppend, walkLevels]
      cases hLevel : walkOrders t walk level.orders with
      | error e => rfl
      | ok walk' =>
          simp only
          by_cases hFull : walk'.filled = t.requested
          · rw [if_pos hFull]
            cases rest.flatMap (fun l => l.orders) with
            | nil => rfl
            | cons o more =>
                rw [walkOrders, if_pos (by omega)]
          · rw [if_neg hFull]
            exact ih walk'

theorem premiumOf_sum_nonneg
    {ps : List (FillableOrder × Int)}
    (h : ∀ p ∈ ps, 0 ≤ p.1.price ∧ 0 ≤ p.2) :
    0 ≤ (ps.map premiumOf).sum := by
  apply List.sum_nonneg
  intro x hx
  rcases List.mem_map.mp hx with ⟨p, hp, rfl⟩
  rcases h p hp with ⟨hPrice, hUnits⟩
  exact
    Int.tdiv_nonneg (Int.mul_nonneg hPrice hUnits) (by decide)

/- The terms of a ticket on this book of this series. -/
def ticketTerms
    (book : AggregatedBook)
    (requested cpu : Int)
    (series : BookSeries) : WalkTerms :=
  { requested := requested
    cpu := cpu
    ppm := series.mintFeePpm
    snapshot := book.snapshotTimestamp
    mintCutoff := series.mintCutoff
    expiry := series.expiry }

/- A ticket on a book is the market's walk over its asks. -/
theorem walkAsks_ok
    {book : AggregatedBook}
    {requested cpu : Int}
    {series : BookSeries}
    (free : OrderedMap String Int)
    {fees : CardFees}
    (hFees : fees.outside = false)
    (hRequested : 0 < requested)
    (hCpu :
      collateralPerUnit series.isPut series.strike = .ok cpu)
    (hValid : (ticketTerms book requested cpu series).Valid)
    (hAsks :
      ∀ o ∈ book.askOrders, 0 < o.stored ∧ 0 ≤ o.price)
    (hCutoff :
      ∀ o ∈ book.askOrders, o.kind = .AskWrite →
        book.snapshotTimestamp < series.mintCutoff) :
    ∃ ticket,
      walkAsks book requested series free fees =
          .ok ticket ∧
        ticket.fills =
          ((ticketTerms book requested cpu series).market.walk
            { left := fun k => free.getD k 0
              want := requested } book.askOrders).map
            (fun p => p.1.ticketFill p.2) ∧
        ticket.requested = requested ∧
        ticket.filled =
          (ticket.fills.map (fun f => f.units)).sum := by
  have hStart :
      ∀ walk : TicketWalk, walk.filled = 0 →
        walk.state (ticketTerms book requested cpu series) =
          { left := fun k => walk.free.getD k 0
            want := requested } := by
    intro walk hZero
    unfold TicketWalk.state ticketTerms
    rw [hZero, sub_zero]
  have hWant :
      0 ≤ requested -
        ({ free := free
           filled := 0
           premium := 0
           fills := [] } : TicketWalk).filled := by
    show 0 ≤ requested - 0
    omega
  rcases walkOrders_eq hValid (fun o ho => (hAsks o ho).1)
      hCutoff hWant with ⟨walk', hWalk, hTook⟩
  rw [hStart _ rfl] at hTook
  have hPremium : 0 ≤ walk'.premium := by
    rw [hTook.premium, zero_add]
    apply premiumOf_sum_nonneg
    intro p hp
    refine ⟨(hAsks p.1 (walk_subset hp)).2, ?_⟩
    exact
      (walk_pos (fun o ho => (hAsks o ho).1) hRequested.le
        hp).le
  rcases takerFee_ok fees hPremium with ⟨fee, hFee⟩
  refine ⟨walk'.ticket requested fee, ?_, ?_, rfl, ?_⟩
  · unfold walkAsks
    rw [hFees, if_neg (by decide),
      if_neg (not_le.mpr hRequested), hCpu]
    simp only
    rw [walkLevels_eq]
    unfold AggregatedBook.askOrders ticketTerms at hWalk
    rw [hWalk]
    simp only
    rw [hFee]
  · unfold TicketWalk.ticket
    rw [hTook.fills, List.nil_append]
  · show
      walk'.filled = (walk'.fills.map (fun f => f.units)).sum
    rw [hTook.filled, hTook.fills, zero_add, List.nil_append,
      List.map_map]
    rfl

end Callhouse.Indexer
