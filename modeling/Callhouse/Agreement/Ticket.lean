import Callhouse.Indexer.LiveWalk
import Callhouse.Web.Payoff
import Std.Data.String.ToNat

/-
  The ticket that the app plans against the card that the
  indexer prices, on one book.

  Main declarations:
    * `flattenAsks`, `CardBook`
    * `SameWalk`, `SameWalk.step`
    * `payouts_agree`
    * `ticket_eq_card`
    * `cardBook_of_served`
-/

----
-- Payouts
----

namespace Callhouse.Agreement

section

open Indexer Web

/- The gross value of one unit, before its fee. -/
def grossAt
    (isPut : Bool)
    (strike price : Int) : Int :=
  if isPut then
    if price < strike then
      (strike - price).tdiv Web.unitsPerShare
    else 0
  else if price > strike then
    (Web.unit * (price - strike)).tdiv price
  else 0

def collateralAt
    (isPut : Bool)
    (strike : Int) : Int :=
  if isPut then strike.tdiv Web.unitsPerShare else Web.unit

def feeAt
    (gross collateral exerciseFeeBps : Int) : Int :=
  if gross = 0 then 0
  else
    min ((collateral * exerciseFeeBps).tdiv Web.bps)
      ((gross * Web.maxPayoutFeeShareBps).tdiv Web.bps)

def netAt
    (isPut : Bool)
    (strike price exerciseFeeBps : Int) : Int :=
  let gross := grossAt isPut strike price
  let net :=
    gross -
      feeAt gross (collateralAt isPut strike) exerciseFeeBps
  if isPut then net else (net * price).tdiv Web.wad

variable {isPut : Bool} {strike price fee : Int}

theorem grossAt_nonneg
    (hPrice : 0 ≤ price) :
    0 ≤ grossAt isPut strike price := by
  have hShare : (0 : Int) ≤ Web.unitsPerShare := by decide
  have hUnit : (0 : Int) ≤ Web.unit := by decide
  unfold grossAt
  split
  · split
    · exact Int.tdiv_nonneg (by omega) hShare
    · exact le_refl 0
  · split
    · exact
        Int.tdiv_nonneg (Int.mul_nonneg hUnit (by omega))
          hPrice
    · exact le_refl 0

section

variable (hStrike : 0 < strike)
include hStrike

theorem collateralAt_nonneg :
    0 ≤ collateralAt isPut strike := by
  unfold collateralAt
  split
  · exact Int.tdiv_nonneg hStrike.le (by decide)
  · decide

theorem grossPayoutPerUnit_ok
    (hPrice : 0 ≤ price) :
    grossPayoutPerUnit isPut strike price =
      .ok (grossAt isPut strike price) := by
  unfold grossPayoutPerUnit grossAt
  rw [if_neg (not_le.mpr hStrike),
    if_neg (not_lt.mpr hPrice)]
  cases isPut <;> rfl

theorem collateralPerUnit_ok :
    Web.collateralPerUnit isPut strike =
      .ok (collateralAt isPut strike) := by
  unfold Web.collateralPerUnit collateralAt
  rw [if_neg (not_le.mpr hStrike)]
  cases isPut <;> rfl

/- Within its ceiling the app prices every real strike. -/
theorem netPayout_ok
    (hPrice : 0 ≤ price)
    (hFee : 0 ≤ fee ∧ fee ≤ 200) :
    netPayoutUsdgPerUnit isPut strike price fee none =
      .ok (netAt isPut strike price fee) := by
  have hRate : feeBps fee = .ok fee := by
    have hCeil : maxExerciseFeeBps = 200 := rfl
    unfold feeBps
    rw [if_neg (by omega)]
  have hExercise :
      exerciseFeePerUnit (grossAt isPut strike price)
          (collateralAt isPut strike) fee =
        .ok
          (feeAt (grossAt isPut strike price)
            (collateralAt isPut strike) fee) := by
    unfold exerciseFeePerUnit feeAt
    rw [if_neg (not_lt.mpr (grossAt_nonneg hPrice)),
      if_neg (not_lt.mpr (collateralAt_nonneg hStrike)),
      hRate]
    simp only
    split
    · rfl
    · congr 1
      omega
  unfold netPayoutUsdgPerUnit netAt
  rw [grossPayoutPerUnit_ok hStrike hPrice,
    collateralPerUnit_ok hStrike]
  simp only
  rw [hExercise]
  cases isPut <;> rfl

/- So does the indexer, and to the same value. -/
theorem payoutAtTarget_ok
    (hPrice : 0 ≤ price)
    (hFee : 0 ≤ fee ∧ fee ≤ 200) :
    payoutAtTarget isPut strike price fee =
      .ok (netAt isPut strike price fee) := by
  have hCollateral :
      Indexer.collateralPerUnit isPut strike =
        .ok (collateralAt isPut strike) := by
    unfold Indexer.collateralPerUnit collateralAt
    rw [if_neg (not_le.mpr hStrike)]
    cases isPut <;> rfl
  have hGross :
      (if isPut then
        if price < strike then
          (strike - price).tdiv Indexer.unitsPerShare
        else 0
      else if price > strike then
        (Indexer.unit * (price - strike)).tdiv price
      else 0) = grossAt isPut strike price := rfl
  unfold payoutAtTarget
  rw [if_neg (by omega), hGross]
  unfold netAt feeAt
  simp only
  by_cases hZero : grossAt isPut strike price = 0
  · rw [hZero, if_pos rfl, if_pos rfl]
    cases isPut <;> simp
  · have hMin :
        ∀ a b : Int, (if a < b then a else b) = min a b := by
      intro a b
      omega
    rw [if_neg hZero, if_neg hZero, hCollateral]
    simp only [hMin]
    rfl

end

/- Outside their ceilings both refuse. -/
theorem payouts_refused
    (hOut : price < 0 ∨ fee < 0 ∨ fee > 200) :
    (∃ e, netPayoutUsdgPerUnit isPut strike price fee none =
        .error e) ∧
      ∃ e, payoutAtTarget isPut strike price fee =
        .error e := by
  constructor
  · unfold netPayoutUsdgPerUnit
    by_cases hStrike : 0 < strike
    · by_cases hPrice : 0 ≤ price
      · have hCeil : maxExerciseFeeBps = 200 := rfl
        have hRate :
            feeBps fee =
              .error
                "exerciseFeeBps exceeds the contract ceiling" := by
          unfold feeBps
          rw [if_pos (by omega)]
        rw [grossPayoutPerUnit_ok hStrike hPrice,
          collateralPerUnit_ok hStrike]
        simp only
        unfold exerciseFeePerUnit
        rw [if_neg (not_lt.mpr (grossAt_nonneg hPrice)),
          if_neg (not_lt.mpr (collateralAt_nonneg hStrike)),
          hRate]
        exact ⟨_, rfl⟩
      · unfold grossPayoutPerUnit
        rw [if_neg (not_le.mpr hStrike),
          if_pos (not_le.mp hPrice)]
        exact ⟨_, rfl⟩
    · unfold grossPayoutPerUnit
      rw [if_pos (not_lt.mp hStrike)]
      exact ⟨_, rfl⟩
  · unfold payoutAtTarget
    rw [if_pos hOut]
    exact ⟨_, rfl⟩

/-
  What the app pays out a unit is what the indexer does, at
  every price and fee; both refuse the same of a real strike.
-/
theorem payouts_agree
    (isPut : Bool)
    (strike price exerciseFeeBps : Int) :
    (∀ payout,
        netPayoutUsdgPerUnit isPut strike price
            exerciseFeeBps none = .ok payout →
          payoutAtTarget isPut strike price
            exerciseFeeBps = .ok payout) ∧
      (0 < strike →
        ∀ payout,
          payoutAtTarget isPut strike price
              exerciseFeeBps = .ok payout →
            netPayoutUsdgPerUnit isPut strike price
              exerciseFeeBps none = .ok payout) := by
  by_cases hOut :
      price < 0 ∨ exerciseFeeBps < 0 ∨ exerciseFeeBps > 200
  · rcases @payouts_refused isPut strike _ _ hOut with
      ⟨⟨e, hApp⟩, e', hCard⟩
    rw [hApp, hCard]
    exact ⟨fun _ h => (by cases h), fun _ _ h => (by cases h)⟩
  · have hFee : 0 ≤ exerciseFeeBps ∧ exerciseFeeBps ≤ 200 := by
      omega
    have hPrice : 0 ≤ price := by omega
    by_cases hStrike : 0 < strike
    · rw [netPayout_ok hStrike hPrice hFee,
        payoutAtTarget_ok hStrike hPrice hFee]
      exact ⟨fun _ h => h, fun _ _ h => h⟩
    · refine ⟨?_, fun hPos => absurd hPos hStrike⟩
      intro payout hPay
      unfold netPayoutUsdgPerUnit grossPayoutPerUnit at hPay
      rw [if_pos (not_lt.mp hStrike)] at hPay
      cases hPay

end

----
-- The Flattened Asks
----

section

open Indexer Web

/- An order id on the wire. -/
def idText
    (orderId : Int) : String :=
  orderId.toNat.repr

def askKind : BookKind → AskKind
  | .AskWrite => .AskWrite
  | _ => .AskResale

/- The ask of a listed order, at the price of its level. -/
def flattenAsk
    (level : Indexer.BookLevel)
    (o : FillableOrder) : Ask :=
  { orderId := idText o.orderId
    price := level.price
    units := o.units
    maker := some o.maker
    kind := some (askKind o.kind)
    onChainRemainingUnits := o.onChainRemainingUnits
    makerFreeCollateral := o.makerFreeCollateral
    makerFreeUnits := o.makerFreeUnits }

def flattenAsks
    (levels : List Indexer.BookLevel) : List Ask :=
  levels.flatMap
    (fun level =>
      (level.orders.filter
        (fun o => decide (o.kind ≠ .Bid))).map
        (flattenAsk level))

/- The rent terms of the snapshot that the book was made at. -/
def rentTerms
    (book : AggregatedBook)
    (series : BookSeries)
    (cpu : Int) : RentTerms :=
  { collateralPerUnit := cpu
    mintFeePpm := series.mintFeePpm
    expiry := series.expiry
    snapshotTimestamp := book.snapshotTimestamp
    mintCutoff := some series.mintCutoff }

def feeParams
    (fees : CardFees) : TakerFeeParams :=
  { takerFeeFlat := fees.takerFeeFlat
    takerFeeCapBps := fees.takerFeeCapBps
    discountBps := none }

/-
  A book as it is built, on prices of whole ticks, whose
  writers' balances are those of one map.
-/
structure CardBook
    (book : AggregatedBook)
    (series : BookSeries)
    (free : OrderedMap String Int)
    (cpu : Int) : Prop where
  cpu_eq :
    Indexer.collateralPerUnit series.isPut series.strike =
      .ok cpu
  terms : (rentTerms book series cpu).Valid
  levels : IsLevels false book.asks
  price :
    ∀ o ∈ book.askOrders,
      0 < o.price ∧ o.price.tmod priceTick = 0
  ids : (book.askOrders.map (fun o => o.orderId)).Nodup
  ids_nonneg : ∀ o ∈ book.askOrders, 0 ≤ o.orderId
  units : ∀ o ∈ book.askOrders, 0 < o.units
  stored :
    ∀ o ∈ book.askOrders,
      0 < o.stored ∧ o.stored ≤ Web.maxUnits
  kind : ∀ o ∈ book.askOrders, o.kind ≠ .Bid
  balances :
    ∀ o ∈ book.askOrders, o.kind = .AskWrite →
      o.makerFreeCollateral =
        some (free.getD (makerKey o.maker) 0)
  life :
    ∀ o ∈ book.askOrders, o.kind = .AskWrite →
      book.snapshotTimestamp < series.expiry

/- The ask of an order that stands at its own price. -/
def askOf
    (o : FillableOrder) : Ask :=
  { orderId := idText o.orderId
    price := o.price
    units := o.units
    maker := some o.maker
    kind := some (askKind o.kind)
    onChainRemainingUnits := o.onChainRemainingUnits
    makerFreeCollateral := o.makerFreeCollateral
    makerFreeUnits := o.makerFreeUnits }

theorem isDecimal_idText
    (orderId : Int) :
    isDecimal (idText orderId) = true := by
  unfold isDecimal idText
  rw [Nat.toList_repr, Bool.and_eq_true, decide_eq_true_eq,
    List.all_eq_true]
  constructor
  · intro hEmpty
    have hText : orderId.toNat.repr ≠ "" := Nat.repr_ne_empty
    apply hText
    rw [← String.toList_inj, Nat.toList_repr, hEmpty]
    rfl
  · intro c hc
    exact Nat.isDigit_of_mem_toDigits (by decide) (by decide) hc

theorem idText_inj
    {a b : Int}
    (ha : 0 ≤ a)
    (hb : 0 ≤ b)
    (h : idText a = idText b) :
    a = b := by
  have hNat : a.toNat = b.toNat := Nat.repr_injective h
  omega

theorem idTexts_nodup
    {orders : List FillableOrder}
    (hIds : (orders.map (fun o => o.orderId)).Nodup)
    (hNonneg : ∀ o ∈ orders, 0 ≤ o.orderId) :
    (orders.map (fun o => idText o.orderId)).Nodup := by
  rw [List.Nodup, List.pairwise_map] at hIds ⊢
  refine hIds.imp_of_mem ?_
  intro a b ha hb hNe hText
  exact hNe (idText_inj (hNonneg a ha) (hNonneg b hb) hText)

variable {book : AggregatedBook} {series : BookSeries}
variable {free : OrderedMap String Int} {cpu : Int}

theorem CardBook.flatten_eq
    (h : CardBook book series free cpu) :
    flattenAsks book.asks = book.askOrders.map askOf := by
  unfold flattenAsks AggregatedBook.askOrders
  rw [List.map_flatMap]
  apply List.flatMap_congr
  intro level hLevel
  have hIn : ∀ o ∈ level.orders, o ∈ book.askOrders :=
    fun o ho => List.mem_flatMap.mpr ⟨level, hLevel, ho⟩
  have hAll :
      level.orders.filter
          (fun o => decide (o.kind ≠ .Bid)) =
        level.orders := by
    rw [List.filter_eq_self]
    intro o ho
    exact decide_eq_true (h.kind o (hIn o ho))
  rw [hAll]
  apply List.map_congr_left
  intro o ho
  have hPrice := (h.levels.filled level hLevel).price_eq o ho
  unfold flattenAsk askOf
  rw [hPrice]

/- The listed asks come cheapest first. -/
theorem CardBook.sorted
    (h : CardBook book series free cpu) :
    book.askOrders.Pairwise (fun a b => a.price ≤ b.price) := by
  unfold AggregatedBook.askOrders
  rw [List.pairwise_flatMap]
  constructor
  · intro level hLevel
    apply List.pairwise_of_forall_mem_list
    intro a ha b hb
    have hFilled := h.levels.filled level hLevel
    rw [hFilled.price_eq a ha, hFilled.price_eq b hb]
  · refine h.levels.strict.imp_of_mem ?_
    intro l l' hl hl' hAhead a ha b hb
    rw [(h.levels.filled l hl).price_eq a ha,
      (h.levels.filled l' hl').price_eq b hb]
    exact le_of_lt hAhead

end

----
-- The Two Walks
----

section

open Indexer Web

/- Asks that come cheapest first are left as they stand. -/
theorem sortAsks_eq
    {asks : List Ask}
    (h : asks.Pairwise (fun a b => a.price ≤ b.price)) :
    sortAsks asks = asks := by
  have hSorted :
      asks.zipIdx.Pairwise
        (fun a b => askBefore a b = true) := by
    rw [List.pairwise_iff_getElem] at h ⊢
    intro i j hi hj hij
    have hPrice :=
      h i j (by simpa using hi) (by simpa using hj) hij
    rw [List.getElem_zipIdx, List.getElem_zipIdx]
    unfold askBefore
    simp only
    split
    · rfl
    · split
      · omega
      · exact decide_eq_true (by omega)
  unfold sortAsks
  rw [hSorted.insertionSort_eq]
  simp

/- The rent terms of a walk, as the app takes them. -/
def walkRent
    (t : WalkTerms) : RentTerms :=
  { collateralPerUnit := t.cpu
    mintFeePpm := t.ppm
    expiry := t.expiry
    snapshotTimestamp := t.snapshot
    mintCutoff := some t.mintCutoff }

def buyFill
    (f : TicketFill) : BuyFill :=
  { orderId := idText f.orderId
    price := f.price
    units := f.units
    premium := (f.price * f.units).tdiv Web.unitsPerShare }

/- The two walks stand at the same place. -/
structure SameWalk
    (t : WalkTerms)
    (free : OrderedMap String Int)
    (buy : BuyWalk)
    (card : TicketWalk) : Prop where
  remaining : buy.remaining = t.requested - card.filled
  premium : buy.totalPremium = card.premium
  premium_nonneg : 0 ≤ card.premium
  fills : buy.fills = card.fills.map buyFill
  priced : buy.unpriceableAsks = []
  budgets :
    ∀ k,
      buy.writerBudget.getD k (free.getD k 0) =
        card.free.getD k 0

/- An ask that both can price. -/
structure Priceable
    (t : WalkTerms)
    (free : OrderedMap String Int)
    (o : FillableOrder) : Prop where
  price_pos : 0 < o.price
  price_tick : o.price.tmod priceTick = 0
  units_pos : 0 < o.units
  stored_pos : 0 < o.stored
  stored_le : o.stored ≤ Web.maxUnits
  kind : o.kind ≠ .Bid
  balance :
    o.kind = .AskWrite →
      o.makerFreeCollateral =
        some (free.getD (makerKey o.maker) 0)
  life : o.kind = .AskWrite → t.snapshot < t.expiry

variable {t : WalkTerms} {free : OrderedMap String Int}
variable {card : TicketWalk}
variable {buy : BuyWalk}

theorem SameWalk.seen
    (h : SameWalk t free buy card)
    (seen : List String) :
    SameWalk t free { buy with seen := seen } card :=
  { remaining := h.remaining
    premium := h.premium
    premium_nonneg := h.premium_nonneg
    fills := h.fills
    priced := h.priced
    budgets := h.budgets }

/- The app's walk after the card's fill. -/
def bought
    (buy : BuyWalk)
    (f : TicketFill) : BuyWalk :=
  { buy with
    remaining := buy.remaining - f.units
    totalPremium := buy.totalPremium + (buyFill f).premium
    fills := buy.fills ++ [buyFill f] }

variable {o : FillableOrder} {units : Int}

theorem fill_eq
    (buy : BuyWalk)
    (ho : Priceable t free o)
    (hUnits : 0 < units) :
    buy.fill (askOf o) units =
      .ok (bought buy (o.ticketFill units)) := by
  have hPremium := premium_ok ho.price_pos ho.price_tick hUnits
  have hPrice : (askOf o).price = o.price := rfl
  unfold BuyWalk.fill
  rw [hPrice, hPremium]
  rfl

/- The same fill keeps them at the same place. -/
theorem SameWalk.bought
    (h : SameWalk t free buy card)
    (ho : Priceable t free o)
    (hUnits : 0 < units) :
    SameWalk t free (bought buy (o.ticketFill units))
      (card.fill o units) where
  remaining := by
    show buy.remaining - units =
      t.requested - (card.filled + units)
    have hSame := h.remaining
    omega
  premium := by
    show buy.totalPremium + _ = card.premium + _
    rw [h.premium]
    rfl
  premium_nonneg := by
    have hOld := h.premium_nonneg
    have hMore :
        0 ≤ (o.price * units).tdiv Indexer.unitsPerShare :=
      Int.tdiv_nonneg
        (Int.mul_nonneg ho.price_pos.le hUnits.le)
        (by decide)
    show 0 ≤ card.premium + _
    omega
  fills := by
    show buy.fills ++ _ = (card.fills ++ _).map buyFill
    rw [h.fills, List.map_append]
    rfl
  priced := h.priced
  budgets := h.budgets

/- The same need is charged to the same writer. -/
theorem SameWalk.charged
    (h : SameWalk t free buy card)
    (key : String)
    (left : Int) :
    SameWalk t free
      { buy with writerBudget := buy.writerBudget.set key left }
      { card with free := card.free.set key left } where
  remaining := h.remaining
  premium := h.premium
  premium_nonneg := h.premium_nonneg
  fills := h.fills
  priced := h.priced
  budgets := by
    intro k
    have hSame := h.budgets k
    simp only [OrderedMap.getD_set]
    split
    · rfl
    · exact hSame

/- The rent rounds alike, on the life that is left. -/
theorem needs_agree
    (ht : (walkRent t).Valid)
    (hLife : t.snapshot < t.expiry)
    (hUnits : 0 ≤ units)
    (hMost : units ≤ Web.maxUnits) :
    ∃ need,
      writerCollateralNeed units (walkRent t) = .ok need ∧
        collateralWithRent units t.cpu t.ppm
          (t.expiry - t.snapshot) = .ok need := by
  have hSame : (walkRent t).life = t.expiry - t.snapshot := by
    show max 0 (t.expiry - t.snapshot) = _
    omega
  refine ⟨_, writerCollateralNeed_eq_cost ht hUnits hMost, ?_⟩
  rw [hSame]
  exact
    collateralWithRent_eq_cost hUnits ht.cpu_pos
      ht.ppm_nonneg ht.ppm_le (by omega)

/- The write-on-fill ask: both skip it, or both fill it. -/
theorem SameWalk.write
    (ht : (walkRent t).Valid)
    (h : SameWalk t free buy card)
    (ho : Priceable t free o)
    (hKind : o.kind = .AskWrite)
    (hUnits :
      (if o.stored < t.requested - card.filled then o.stored
        else t.requested - card.filled) = units)
    (hPos : 0 < units)
    (hMost : units ≤ Web.maxUnits) :
    ∃ buy' card',
      buy.fillWrite (askOf o) units (some (walkRent t)) =
          .ok buy' ∧
        walkOrder t card o = .ok card' ∧
        SameWalk t free buy' card' ∧
        buy'.seen = buy.seen ∧
        (card'.filled = card.filled ∨
          card'.filled = card.filled + units) := by
  have hLife := ho.life hKind
  rcases needs_agree ht hLife hPos.le hMost with
    ⟨need, hApp, hCard⟩
  have hMaker : (askOf o).maker = some o.maker := rfl
  have hFree :
      (askOf o).makerFreeCollateral =
        some (free.getD (makerKey o.maker) 0) :=
    ho.balance hKind
  have hClosed :
      (walkRent t).closed =
        decide (t.snapshot ≥ t.mintCutoff) := by
    show
      (decide (t.snapshot ≥ t.expiry) ||
        decide (t.snapshot ≥ t.mintCutoff)) = _
    rw [decide_eq_false (by omega), Bool.false_or]
  have hBudget :
      buy.writerBudget.getD o.maker.toLower
          (free.getD (makerKey o.maker) 0) =
        card.free.getD (makerKey o.maker) 0 :=
    h.budgets (makerKey o.maker)
  unfold BuyWalk.fillWrite walkOrder
  rw [hMaker, hFree]
  simp only [hUnits, hKind, if_true, hCard, hApp, hClosed,
    hBudget, ge_iff_le, decide_eq_true_eq]
  by_cases hCutoff : t.mintCutoff ≤ t.snapshot
  · rw [if_pos hCutoff, if_pos (.inr hCutoff)]
    exact ⟨buy, card, rfl, rfl, h, rfl, .inl rfl⟩
  · rw [if_neg hCutoff]
    by_cases hShort :
        card.free.getD (makerKey o.maker) 0 < need
    · rw [if_pos hShort, if_pos (.inl hShort)]
      exact ⟨buy, card, rfl, rfl, h, rfl, .inl rfl⟩
    · rw [if_neg hShort,
        if_neg (not_or.mpr ⟨hShort, hCutoff⟩),
        fill_eq _ ho hPos]
      exact
        ⟨_, _, rfl, rfl,
          (h.charged (makerKey o.maker) _).bought ho hPos,
          rfl, .inr rfl⟩

/- One ask of the two walks, while units are still wanted. -/
theorem SameWalk.step
    (ht : (walkRent t).Valid)
    (h : SameWalk t free buy card)
    (ho : Priceable t free o)
    (hNew : idText o.orderId ∉ buy.seen)
    (hWant : 0 < t.requested - card.filled) :
    ∃ buy' card',
      walkAsk (some (walkRent t)) buy (askOf o) = .ok buy' ∧
        walkOrder t card o = .ok card' ∧
        SameWalk t free buy' card' ∧
        buy'.seen = buy.seen ++ [idText o.orderId] ∧
        0 ≤ t.requested - card'.filled := by
  generalize hUnits :
    (if o.stored < t.requested - card.filled then o.stored
      else t.requested - card.filled) = units
  have hStored := ho.stored_pos
  have hMost := ho.stored_le
  have hPos : 0 < units := by
    omega
  have hLe : units ≤ Web.maxUnits := by
    omega
  have hLeft : units ≤ t.requested - card.filled := by
    omega
  have hSeen := h.seen (buy.seen ++ [idText o.orderId])
  have hShown :
      Web.premium (askOf o).price (askOf o).units =
        .ok ((o.price * o.units).tdiv Web.unitsPerShare) :=
    premium_ok ho.price_pos ho.price_tick ho.units_pos
  have hRemaining :
      (askOf o).onChainRemainingUnits.getD (askOf o).units =
        o.stored := rfl
  have hId : (askOf o).orderId = idText o.orderId := rfl
  have hNotFull : buy.remaining ≠ 0 := by
    rw [h.remaining]
    exact hWant.ne'
  have hBuyUnits :
      (if o.stored < buy.remaining then o.stored
        else buy.remaining) = units := by
    rw [h.remaining]
    exact hUnits
  unfold walkAsk
  rw [hId, isDecimal_idText, if_neg (by simp [hNew])]
  simp only [hShown, hRemaining]
  rw [if_neg hNotFull, if_neg (not_le.mpr hStored),
    hBuyUnits]
  by_cases hKind : o.kind = .AskWrite
  · have hAskKind : (askOf o).kind = some .AskWrite := by
      unfold askOf askKind
      rw [hKind]
    rw [if_pos hAskKind]
    rcases hSeen.write ht ho hKind hUnits hPos hLe with
      ⟨buy', card', hBuy, hCard, hSame, hIds, hFilled⟩
    refine ⟨buy', card', hBuy, hCard, hSame, hIds, ?_⟩
    omega
  · have hAskKind : (askOf o).kind ≠ some .AskWrite := by
      unfold askOf askKind
      cases hIs : o.kind with
      | AskWrite => exact absurd hIs hKind
      | Bid => simp
      | AskResale => simp
    have hCard :
        walkOrder t card o = .ok (card.fill o units) := by
      unfold walkOrder
      simp only [hUnits, if_neg hKind]
    rw [if_neg hAskKind, fill_eq _ ho hPos, hCard]
    refine ⟨_, _, rfl, rfl, hSeen.bought ho hPos, rfl, ?_⟩
    show 0 ≤ t.requested - (card.filled + units)
    omega

/- A full app walk only looks through the asks that are left. -/
theorem walkAsk_full
    (ho : Priceable t free o)
    (hNew : idText o.orderId ∉ buy.seen)
    (hFull : buy.remaining = 0) :
    walkAsk (some (walkRent t)) buy (askOf o) =
      .ok
        { buy with seen := buy.seen ++ [idText o.orderId] } := by
  have hShown :
      Web.premium (askOf o).price (askOf o).units =
        .ok ((o.price * o.units).tdiv Web.unitsPerShare) :=
    premium_ok ho.price_pos ho.price_tick ho.units_pos
  have hId : (askOf o).orderId = idText o.orderId := rfl
  unfold walkAsk
  rw [hId, isDecimal_idText, if_neg (by simp [hNew])]
  simp only [hShown]
  rw [if_pos hFull]

/- The whole walk over the same asks. -/
theorem SameWalk.run
    (ht : (walkRent t).Valid)
    {orders : List FillableOrder}
    (ho : ∀ o ∈ orders, Priceable t free o)
    (h : SameWalk t free buy card)
    (hIds :
      (buy.seen ++
        orders.map (fun o => idText o.orderId)).Nodup)
    (hWant : 0 ≤ t.requested - card.filled) :
    ∃ buy' card',
      Web.walkAsks (some (walkRent t)) buy
          (orders.map askOf) = .ok buy' ∧
        walkOrders t card orders = .ok card' ∧
        SameWalk t free buy' card' := by
  induction orders generalizing buy card with
  | nil => exact ⟨buy, card, rfl, rfl, h⟩
  | cons o rest ih =>
      have hHead := ho o (List.mem_cons_self ..)
      have hRest := fun x hx => ho x (List.mem_cons_of_mem o hx)
      have hNew : idText o.orderId ∉ buy.seen := by
        rw [List.map_cons, List.nodup_append] at hIds
        intro hSeen
        exact hIds.2.2 _ hSeen _ (List.mem_cons_self ..) rfl
      have hAppend :
          (buy.seen ++ [idText o.orderId] ++
            rest.map (fun o => idText o.orderId)).Nodup := by
        rw [List.append_assoc]
        exact hIds
      rw [List.map_cons, Web.walkAsks, walkOrders]
      by_cases hFull : t.requested - card.filled = 0
      · have hEmpty : buy.remaining = 0 := by
          rw [h.remaining]
          exact hFull
        rw [if_pos hFull, walkAsk_full hHead hNew hEmpty]
        rcases ih hRest
            (h.seen (buy.seen ++ [idText o.orderId]))
            hAppend hWant with
          ⟨buy', card', hBuy, hCard, hSame⟩
        have hDone : card' = card := by
          cases rest with
          | nil =>
              cases hCard
              rfl
          | cons x more =>
              rw [walkOrders, if_pos hFull] at hCard
              cases hCard
              rfl
        exact ⟨buy', card, hBuy, rfl, hDone ▸ hSame⟩
      · rw [if_neg hFull]
        rcases h.step ht hHead hNew
            (lt_of_le_of_ne hWant (Ne.symm hFull)) with
          ⟨buy', card', hBuy, hCard, hSame, hSeen, hLeft⟩
        rw [hBuy, hCard]
        simp only
        rw [← hSeen] at hAppend
        exact ih hRest hSame hAppend hLeft

end

----
-- The Ticket and the Card
----

open Indexer Web

variable {book : AggregatedBook} {series : BookSeries}
variable {free : OrderedMap String Int} {cpu : Int}

theorem CardBook.priceable
    (h : CardBook book series free cpu)
    (requested : Int)
    {o : FillableOrder}
    (ho : o ∈ book.askOrders) :
    Priceable (ticketTerms book requested cpu series) free
      o where
  price_pos := (h.price o ho).1
  price_tick := (h.price o ho).2
  units_pos := h.units o ho
  stored_pos := (h.stored o ho).1
  stored_le := (h.stored o ho).2
  kind := h.kind o ho
  balance := h.balances o ho
  life := h.life o ho

/- No discount: one capped fee on both sides. -/
theorem takerFees_agree
    {fees : CardFees}
    (hFees : fees.outside = false)
    {premium : Int}
    (hPremium : 0 ≤ premium) :
    Web.takerFee premium (feeParams fees) =
      Indexer.takerFee premium fees := by
  simp only [CardFees.outside, Bool.or_eq_false_iff,
    decide_eq_false_iff_not] at hFees
  rcases hFees with ⟨⟨⟨⟨hFlat, hCap⟩, hCeil⟩, _⟩, _⟩
  unfold Web.takerFee Indexer.takerFee feeParams
  simp only [Option.getD_none]
  rw [if_neg (not_lt.mpr hPremium),
    if_neg (not_lt.mpr hPremium), if_neg hFlat,
    if_neg (by omega), if_neg (by decide)]
  simp only [mul_zero, Int.zero_tdiv, sub_zero]
  rfl

/- What the two fills have in common. -/
def ticketFills
    (ticket : Ticket) : List (String × Int × Int) :=
  ticket.fills.map
    (fun f => (idText f.orderId, f.units, f.price))

def buyFills
    (buy : BuyCost) : List (String × Int × Int) :=
  buy.fills.map (fun f => (f.orderId, f.units, f.price))

/-
  On one book the app's ticket is the indexer's card: the same
  fills, premium, fee and cost; and a unit pays out the same.
-/
theorem ticket_eq_card
    (book : AggregatedBook)
    (series : BookSeries)
    (free : OrderedMap String Int)
    (cpu requested : Int)
    (fees : CardFees)
    (h : CardBook book series free cpu)
    (hRequested : 0 < requested)
    (hFees : fees.outside = false) :
    (∃ buy ticket,
        costToBuy (flattenAsks book.asks) requested
            (feeParams fees)
            (some (rentTerms book series cpu)) = .ok buy ∧
          Indexer.walkAsks book requested series free fees =
            .ok ticket ∧
          buyFills buy = ticketFills ticket ∧
          buy.orderIds = ticket.orderIds.map idText ∧
          buy.pricingStatus = .priced ∧
          buy.filledUnits = ticket.filled ∧
          buy.premium = ticket.premium ∧
          buy.fee = ticket.takerFee ∧
          buy.cost = ticket.cost) ∧
      ∀ (isPut : Bool) (strike price exerciseFeeBps : Int),
        (∀ payout,
            netPayoutUsdgPerUnit isPut strike price
                exerciseFeeBps none = .ok payout →
              payoutAtTarget isPut strike price
                exerciseFeeBps = .ok payout) ∧
          (0 < strike →
            ∀ payout,
              payoutAtTarget isPut strike price
                  exerciseFeeBps = .ok payout →
                netPayoutUsdgPerUnit isPut strike price
                  exerciseFeeBps none = .ok payout) := by
  refine ⟨?_, payouts_agree⟩
  have hSorted :
      (book.askOrders.map askOf).Pairwise
        (fun a b => a.price ≤ b.price) := by
    rw [List.pairwise_map]
    exact h.sorted
  have hIds := idTexts_nodup h.ids h.ids_nonneg
  let start : TicketWalk :=
    { free := free
      filled := 0
      premium := 0
      fills := [] }
  have hStart :
      SameWalk (ticketTerms book requested cpu series) free
        (BuyWalk.start requested) start :=
    { remaining := by
        show requested = requested - 0
        omega
      premium := rfl
      premium_nonneg := le_refl 0
      fills := rfl
      priced := rfl
      budgets := fun k => OrderedMap.getD_empty _ _ }
  have hTerms :
      (walkRent (ticketTerms book requested cpu
        series)).Valid := h.terms
  have hWant :
      0 ≤ (ticketTerms book requested cpu series).requested -
        start.filled := by
    show 0 ≤ requested - 0
    omega
  rcases hStart.run hTerms
      (fun o ho => h.priceable requested ho)
      (by simpa [BuyWalk.start] using hIds) hWant with
    ⟨buy, card, hBuy, hCard, hSame⟩
  have hFee := takerFees_agree hFees hSame.premium_nonneg
  rcases Indexer.takerFee_ok fees hSame.premium_nonneg with
    ⟨fee, hOk⟩
  rw [hOk] at hFee
  refine
    ⟨buy.cost requested fee, card.ticket requested fee,
      ?_, ?_, ?_, ?_, ?_, ?_, hSame.premium, rfl, ?_⟩
  · unfold costToBuy
    rw [if_neg (not_le.mpr hRequested), h.flatten_eq,
      sortAsks_eq hSorted]
    have hRent :
        rentTerms book series cpu =
          walkRent
            (ticketTerms book requested cpu series) := rfl
    rw [hRent, hBuy]
    simp only
    rw [hSame.premium, hFee]
  · unfold Indexer.walkAsks
    rw [hFees, if_neg (by decide),
      if_neg (not_le.mpr hRequested), h.cpu_eq]
    simp only
    rw [walkLevels_eq]
    unfold AggregatedBook.askOrders ticketTerms at hCard
    rw [hCard]
    simp only
    rw [hOk]
  · unfold buyFills ticketFills BuyWalk.cost
      TicketWalk.ticket
    simp only
    rw [hSame.fills, List.map_map]
    rfl
  · unfold BuyWalk.cost TicketWalk.ticket
    simp only
    rw [hSame.fills, List.map_map, List.map_map]
    rfl
  · unfold BuyWalk.cost
    simp only
    rw [if_pos hSame.priced]
  · unfold BuyWalk.cost TicketWalk.ticket
    simp only
    have hLeft := hSame.remaining
    show requested - buy.remaining = card.filled
    have hRequest :
        (ticketTerms book requested cpu series).requested =
          requested := rfl
    omega
  · unfold BuyWalk.cost TicketWalk.ticket
    simp only
    rw [hSame.premium]

/- The order behind a listed ask, and what stands beside it. -/
theorem source_of_askOrders
    {input : BookInput}
    (h : input.Onchain cpu)
    (hOpen : input.closed = false)
    (hBook : aggregateBook input = .ok book)
    {o : FillableOrder}
    (ho : o ∈ book.askOrders) :
    (o.kind = .AskWrite →
        o.makerFreeCollateral =
          some (input.freeOf o.maker)) ∧
      0 < o.units ∧
      ∃ order ∈ input.orders,
        input.asks order = true ∧
          o.bare = input.plain order := by
  refine ⟨?_, ?_, ?_⟩
  · rcases (aggregateBook_ok_iff hOpen).mp hBook with
      ⟨cpu', listed, _, _, hWalk, rfl⟩
    have hLife := (life_pos hOpen).le
    unfold AggregatedBook.askOrders at ho
    rw [book_asks_eq h.ids h.depth
        (listed_ids_subperm hLife hWalk),
      levels_orders] at ho
    intro hKind
    rcases List.mem_append.mp
        ((sortOrders_perm false _).subset ho) with
      hAsk | hListed
    · rw [collected_asks_kind hAsk] at hKind
      cases hKind
    · rcases source_of_listed hLife hWalk hListed with
        ⟨order, _, _, whole, hSame⟩
      have hFree :
          some (input.freeOf order.maker) =
            o.makerFreeCollateral :=
        congrArg (fun x => x.makerFreeCollateral) hSame
      have hMaker : order.maker = o.maker :=
        congrArg (fun x => x.maker) hSame
      rw [← hFree, hMaker]
  · have hIn :
        o.cleared ∈
          ((input.market cpu).list (input.backed cpu)
            (fun k => input.freeByMaker.getD k 0)
            input.liveAsks).map showUnits := by
      rw [← askOrders_shown h hOpen hBook]
      exact List.mem_map_of_mem ho
    rcases List.mem_map.mp hIn with ⟨p, hp, hSame⟩
    have hUnits : p.2 = o.units :=
      congrArg (fun x => x.units) hSame
    rw [← hUnits]
    exact BudgetWalk.list_pos hp
  · have hIn :
        o.bare ∈
          ((input.market cpu).list (input.backed cpu)
            (fun k => input.freeByMaker.getD k 0)
            input.liveAsks).map Prod.fst := by
      rw [← askOrders_plain h hOpen hBook]
      exact List.mem_map_of_mem ho
    exact
      liveAsks_source
        ((BudgetWalk.list_sublist _ _).subset hIn)

/- What the indexer serves is such a book. -/
theorem cardBook_of_served
    {input : BookInput}
    (h : input.Onchain cpu)
    (hOpen : input.closed = false)
    (hBook : aggregateBook input = .ok book)
    (hTerms : (rentTerms book input.series cpu).Valid)
    (hTick :
      ∀ o ∈ input.orders, o.price.tmod priceTick = 0)
    (hNonneg : ∀ o ∈ input.orders, 0 ≤ o.orderId) :
    CardBook book input.series input.freeByMaker cpu := by
  have hSource :=
    fun o ho => @source_of_askOrders _ _ _ h hOpen hBook o ho
  rcases serves_of_ok hOpen h.ids h.depth hBook with
    ⟨cpu', _, hServes⟩
  refine
    { cpu_eq := h.cpu_eq
      terms := hTerms
      levels := hServes.askLevels
      price := ?_
      ids := ?_
      ids_nonneg := ?_
      units := fun o ho => (hSource o ho).2.1
      stored := ?_
      kind := ?_
      balances := fun o ho => (hSource o ho).1
      life := ?_ }
  · intro o ho
    rcases (hSource o ho).2.2 with
      ⟨order, hIn, hAsks, hSame⟩
    have hPrice : o.price = order.price :=
      congrArg (fun x => x.price) hSame
    rw [hPrice]
    exact
      ⟨(plain_of_live h.units hIn (live_of_asks hAsks)).2.2,
        hTick order hIn⟩
  · have hBare :
        book.askOrders.map (fun o => o.orderId) =
          (book.askOrders.map FillableOrder.bare).map
            (fun o => o.orderId) := by
      rw [List.map_map]
      rfl
    rw [hBare, askOrders_plain h hOpen hBook]
    exact
      (liveAsks_ids h).sublist
        ((BudgetWalk.list_sublist _ _).map _)
  · intro o ho
    rcases (hSource o ho).2.2 with ⟨order, hIn, _, hSame⟩
    have hId : o.orderId = order.orderId :=
      congrArg (fun x => x.orderId) hSame
    rw [hId]
    exact hNonneg order hIn
  · intro o ho
    rcases (hSource o ho).2.2 with
      ⟨order, hIn, hAsks, hSame⟩
    rcases plain_of_live h.units hIn (live_of_asks hAsks) with
      ⟨hPos, hMost, _⟩
    rw [← hSame, stored_bare] at hPos hMost
    exact ⟨hPos, hMost⟩
  · intro o ho hBid
    rcases hServes.asks o ho with hKind | hKind
    · rw [hKind] at hBid
      cases hBid
    · rw [hKind] at hBid
      cases hBid
  · intro o ho _
    have hLife := life_pos hOpen
    rw [snapshot_of_ok hOpen hBook]
    unfold BookInput.life at hLife
    omega

/- A write-on-fill ask that the ticket has to pass over. -/
theorem lostFillBook_card :
    ∃ book,
      aggregateBook lostFillBook = .ok book ∧
        ∃ buy ticket,
          costToBuy (flattenAsks book.asks) 10
              (feeParams noFees)
              (some
                (rentTerms book lostFillBook.series 1)) =
              .ok buy ∧
            Indexer.walkAsks book 10 lostFillBook.series
                lostFillBook.freeByMaker noFees =
              .ok ticket ∧
            buyFills buy = ticketFills ticket := by
  have hOpen : lostFillBook.closed = false := by decide
  rcases aggregateBook_ok_of_served
      (lostFillBook_onchain.served hOpen) with ⟨book, hBook⟩
  have hTerms : (rentTerms book lostFillBook.series 1).Valid := by
    have hSnapshot := snapshot_of_ok hOpen hBook
    unfold rentTerms
    rw [hSnapshot]
    exact
      { cpu_pos := by decide
        ppm_nonneg := by decide
        ppm_le := by decide
        expiry_safe := by decide
        snapshot_safe := by decide
        snapshot_nonneg := by decide }
  have hCard :=
    cardBook_of_served lostFillBook_onchain hOpen hBook hTerms
      (by decide) (by decide)
  rcases (ticket_eq_card book lostFillBook.series
      lostFillBook.freeByMaker 1 10 noFees hCard (by decide)
      (by decide)).1 with
    ⟨buy, ticket, hBuy, hTicket, hFills, _⟩
  exact ⟨book, hBook, buy, ticket, hBuy, hTicket, hFills⟩

end Callhouse.Agreement
