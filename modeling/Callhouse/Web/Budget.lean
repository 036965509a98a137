import Callhouse.Web.BuyWalk
import Callhouse.Web.Ticket
import Callhouse.Lib.SearchMax

/-
  web/lib/v2/budget.ts: the largest fully fillable quote, at
  any cost and within a budget.

  Main declarations:
    * `highestQuote`, `buyQuoteForBudget`, `maxBuyQuote`
    * `BestQuote`
    * `highestQuote_best`
    * `budget_quotes_best`
-/

----
-- The Search
----

namespace Callhouse.Web

structure QuoteArgs where
  levels : List ApiLevel
  fees : TakerFeeParams
  toleranceBps : Int
  taker : Option String
  rent : Option RentTerms

def QuoteArgs.asks
    (args : QuoteArgs) : List TicketAsk :=
  flattenAsks args.levels args.taker

def QuoteArgs.quote
    (args : QuoteArgs)
    (units : Int) : Except String BuyQuote :=
  buyQuote args.levels units args.fees args.toleranceBps
    args.taker args.rent

def quoteUpperBound
    (args : QuoteArgs) : Int :=
  let advertised :=
    args.asks.foldl
      (fun total ask =>
        total +
          (if ask.onChainRemainingUnits > 0 then
            ask.onChainRemainingUnits
          else 0)) 0
  if advertised < maxUnits then advertised else maxUnits

/- Every unit is filled, and the quote is accepted. -/
def wholeQuote
    (accepts : BuyQuote → Bool)
    (units : Int)
    (quote : BuyQuote) : Bool :=
  decide (quote.buy.filledUnits = units) &&
    decide (quote.buy.unfilledUnits = 0) && accepts quote

def quoteAccepted
    (args : QuoteArgs)
    (accepts : BuyQuote → Bool)
    (units : Int) : Except String Bool :=
  match args.quote units with
  | .error e => .error e
  | .ok quote => .ok (wholeQuote accepts units quote)

def highestQuote
    (args : QuoteArgs)
    (accepts : BuyQuote → Bool) :
    Except String (Option BuyQuote) :=
  match
    searchMaxE (quoteAccepted args accepts) 0
      (quoteUpperBound args) with
  | .error e => .error e
  | .ok low =>
      if low = 0 then .ok none
      else
        match args.quote low with
        | .error e => .error e
        | .ok quote =>
            .ok
              (if wholeQuote accepts low quote then some quote
                else none)

/- A quote that throws is no quote. -/
def quoteOrNone
    (result : Except String (Option BuyQuote)) :
    Option BuyQuote :=
  match result with
  | .error _ => none
  | .ok quote => quote

def buyQuoteForBudget
    (levels : List ApiLevel)
    (budget : Int)
    (fees : TakerFeeParams)
    (toleranceBps : Int)
    (taker : Option String)
    (rent : Option RentTerms) : Option BuyQuote :=
  if budget ≤ 0 then none
  else
    quoteOrNone
      (highestQuote
        { levels := levels
          fees := fees
          toleranceBps := toleranceBps
          taker := taker
          rent := rent }
        (fun quote => decide (quote.buy.cost ≤ budget)))

def maxBuyQuote
    (levels : List ApiLevel)
    (fees : TakerFeeParams)
    (toleranceBps : Int)
    (taker : Option String)
    (rent : Option RentTerms) : Option BuyQuote :=
  quoteOrNone
    (highestQuote
      { levels := levels
        fees := fees
        toleranceBps := toleranceBps
        taker := taker
        rent := rent }
      (fun _ => true))

----
-- What the Best Quote Is
----

section

/-
  Orders that the API lists: distinct ids, prices on the
  tick, and one balance for all the asks of a writer.
-/
structure ListedAsks
    (asks : List TicketAsk) : Prop where
  decimal : ∀ a ∈ asks, isDecimal a.orderId = true
  ids : (asks.map (fun a => a.orderId)).Nodup
  price_pos : ∀ a ∈ asks, 0 < a.price
  price_tick : ∀ a ∈ asks, a.price.tmod priceTick = 0
  balance :
    ∀ a ∈ asks, ∀ b ∈ asks,
      a.kind = .AskWrite → b.kind = .AskWrite →
        a.maker.toLower = b.maker.toLower →
          a.makerFreeCollateral = b.makerFreeCollateral

/- No more is paid than the budget, when there is one. -/
def withinBudget
    (budget : Option Int)
    (cost : Int) : Bool :=
  match budget with
  | none => true
  | some most => decide (cost ≤ most)

/- A buy of `units` fills them all within the budget. -/
def Buys
    (args : QuoteArgs)
    (budget : Option Int)
    (units : Int) : Prop :=
  ∃ buy,
    costToBuy (args.asks.map TicketAsk.ask) units args.fees
        args.rent = .ok buy ∧
      buy.filledUnits = units ∧
      withinBudget budget buy.cost = true

/- The quote of the largest buy, or none where there is none. -/
def BestQuote
    (args : QuoteArgs)
    (budget : Option Int)
    (best : Option BuyQuote) : Prop :=
  match best with
  | some quote =>
      args.quote quote.buy.filledUnits = .ok quote ∧
        IsGreatest
          {u | 1 ≤ u ∧ u ≤ maxUnits ∧ Buys args budget u}
          quote.buy.filledUnits
  | none =>
      ∀ u, 1 ≤ u → u ≤ maxUnits → ¬ Buys args budget u

variable {args : QuoteArgs}

/- Within the tolerance a quote is what the buy costs. -/
theorem quote_eq
    (hTolerance :
      0 ≤ args.toleranceBps ∧ args.toleranceBps ≤ 1000)
    (units : Int) :
    args.quote units =
      match
        costToBuy (args.asks.map TicketAsk.ask) units
          args.fees args.rent with
      | .error e => .error e
      | .ok buy =>
          .ok
            { buy := buy
              limitPrice :=
                limitPriceOf buy.fills args.toleranceBps
              asks := args.asks } := by
  unfold QuoteArgs.quote buyQuote
  rw [if_neg (by omega)]
  rfl

/- The balance of a writer, as its first ask shows it. -/
def freeOf
    (asks : List TicketAsk)
    (maker : String) : Int :=
  ((asks.find?
    (fun a =>
      decide (a.kind = .AskWrite ∧
        a.maker.toLower = maker))).bind
    (fun a => a.makerFreeCollateral)).getD 0

theorem writer_ask
    (a : TicketAsk) :
    a.ask.writer =
      if a.kind = .AskWrite then some a.maker.toLower
      else none := by
  unfold Ask.writer TicketAsk.ask
  cases a.kind <;> rfl

theorem ListedAsks.buyList
    {asks : List TicketAsk}
    (h : ListedAsks asks)
    (hUnits : ∀ a ∈ asks, 0 < a.units) :
    BuyList (asks.map TicketAsk.ask) (freeOf asks) where
  decimal := by
    intro x hx
    rcases List.mem_map.mp hx with ⟨a, ha, rfl⟩
    exact h.decimal a ha
  ids := by
    rw [List.map_map]
    exact h.ids
  price_pos := by
    intro x hx
    rcases List.mem_map.mp hx with ⟨a, ha, rfl⟩
    exact h.price_pos a ha
  price_tick := by
    intro x hx
    rcases List.mem_map.mp hx with ⟨a, ha, rfl⟩
    exact h.price_tick a ha
  units_pos := by
    intro x hx
    rcases List.mem_map.mp hx with ⟨a, ha, rfl⟩
    exact hUnits a ha
  balance := by
    intro x hx maker hWriter amount hAmount
    rcases List.mem_map.mp hx with ⟨a, ha, rfl⟩
    rw [writer_ask] at hWriter
    split at hWriter
    · next hKind =>
        cases hWriter
        unfold freeOf
        cases hFind :
            asks.find?
              (fun b =>
                decide (b.kind = .AskWrite ∧
                  b.maker.toLower = a.maker.toLower)) with
        | none =>
            have hNot := List.find?_eq_none.mp hFind a ha
            simp [hKind] at hNot
        | some b =>
            have hFound := List.find?_some hFind
            rw [decide_eq_true_eq] at hFound
            have hSame :=
              h.balance b (List.mem_of_find?_eq_some hFind)
                a ha hFound.1 hKind hFound.2
            have hValue :
                a.makerFreeCollateral = some amount := hAmount
            rw [Option.bind_some, hSame, hValue]
            rfl
    · cases hWriter

end

----
-- Buys Are Closed Downwards
----

section

open BudgetWalk

variable {args : QuoteArgs} {budget : Option Int}

/- The fills of a buy of the quote's asks. -/
def QuoteArgs.fills
    (args : QuoteArgs)
    (units : Int) : List (Ask × Int) :=
  buyFills (args.asks.map TicketAsk.ask) args.rent
    (freeOf args.asks) units

/- Their premium and the fee on it. -/
def QuoteArgs.cost
    (args : QuoteArgs)
    (units : Int) : Int :=
  valueIn Ask.rate (args.fills units) +
    feeOn args.fees (valueIn Ask.rate (args.fills units))

/- Terms that the app prices, and asks that it can walk. -/
structure QuoteArgs.Sound
    (args : QuoteArgs) : Prop where
  list :
    BuyList (args.asks.map TicketAsk.ask) (freeOf args.asks)
  fees : args.fees.Valid
  rent : ∀ terms, args.rent = some terms → terms.Valid

theorem withinBudget_of_le
    {a b : Int}
    (hab : a ≤ b)
    (h : withinBudget budget b = true) :
    withinBudget budget a = true := by
  cases budget with
  | none => rfl
  | some most =>
      have hLe : b ≤ most := of_decide_eq_true h
      exact decide_eq_true (hab.trans hLe)

theorem QuoteArgs.Sound.buy
    (h : args.Sound)
    {units : Int}
    (hUnits : 0 < units)
    (hMost : units ≤ maxUnits) :
    ∃ buy,
      costToBuy (args.asks.map TicketAsk.ask) units args.fees
          args.rent = .ok buy ∧
        buy.filledUnits = unitsIn (args.fills units) ∧
        buy.unfilledUnits =
          units - unitsIn (args.fills units) ∧
        buy.cost = args.cost units :=
  costToBuy_ok h.rent h.list h.fees hUnits hMost

theorem QuoteArgs.Sound.buys_iff
    (h : args.Sound)
    {units : Int}
    (hUnits : 0 < units)
    (hMost : units ≤ maxUnits) :
    Buys args budget units ↔
      unitsIn (args.fills units) = units ∧
        withinBudget budget (args.cost units) = true := by
  rcases h.buy hUnits hMost with
    ⟨buy, hBuy, hFilled, _, hCost⟩
  constructor
  · rintro ⟨buy', hBuy', hFilled', hWithin⟩
    rw [hBuy] at hBuy'
    cases hBuy'
    rw [← hFilled, ← hCost]
    exact ⟨hFilled', hWithin⟩
  · rintro ⟨hAll, hWithin⟩
    refine ⟨buy, hBuy, hFilled.trans hAll, ?_⟩
    rw [hCost]
    exact hWithin

theorem QuoteArgs.Sound.offer
    (h : args.Sound)
    {a : Ask}
    (ha :
      a ∈ buyOffers (args.asks.map TicketAsk.ask) args.rent) :
    0 ≤ a.rate ∧ 0 < (buyMarket args.rent).size a := by
  rcases mem_buyOffers ha with ⟨hMem, hFillable⟩
  exact
    ⟨rate_nonneg (h.list.price_pos a hMem),
      fillable_stored hFillable⟩

/- A smaller buy is filled as well, and costs no more. -/
theorem QuoteArgs.Sound.buys_of_le
    (h : args.Sound)
    {a b : Int}
    (ha : 0 < a)
    (hab : a ≤ b)
    (hMost : b ≤ maxUnits)
    (hBuys : Buys args budget b) :
    Buys args budget a := by
  rw [h.buys_iff (ha.trans_le hab) hMost] at hBuys
  rw [h.buys_iff ha (hab.trans hMost)]
  rcases hBuys with ⟨hAll, hWithin⟩
  have hMono :=
    fun a b hab => needOf_mono h.rent (a := a) (b := b) hab
  have hFull :
      (buyMarket args.rent).Fillable (freeOf args.asks)
        (buyOffers (args.asks.map TicketAsk.ask) args.rent)
        b := hAll
  refine ⟨Fillable.of_le hMono ha.le hab hFull, ?_⟩
  apply withinBudget_of_le _ hWithin
  have hSorted :
      (buyOffers (args.asks.map TicketAsk.ask)
        args.rent).Pairwise (fun x y => x.rate ≤ y.rate) := by
    refine (buyOffers_sorted _ _).imp_of_mem ?_
    intro x y hx _ hxy
    have hPrice := h.list.price_pos x (mem_buyOffers hx).1
    exact TruncDiv.tdiv_le_tdiv hPrice.le (by decide) hxy
  have hPremium :
      valueIn Ask.rate (args.fills a) ≤
        valueIn Ask.rate (args.fills b) :=
    valueIn_walk_le hMono (fun x hx => (h.offer hx).1)
      (fun x hx => (h.offer hx).2) hSorted ha.le hab hFull
  have hNonneg : 0 ≤ valueIn Ask.rate (args.fills a) :=
    valueIn_walk_nonneg (fun x hx => (h.offer hx).1)
      (fun x hx => (h.offer hx).2) ha.le
  have hFee := feeOn_mono h.fees hNonneg hPremium
  unfold QuoteArgs.cost
  omega

/- What the asks advertise bounds every buy. -/
theorem advertised_eq
    (asks : List TicketAsk) :
    asks.foldl
        (fun total ask =>
          total +
            (if ask.onChainRemainingUnits > 0 then
              ask.onChainRemainingUnits
            else 0)) 0 =
      ((asks.map TicketAsk.ask).map
        (fun a => max 0 a.stored)).sum := by
  have hFold :
      ∀ total : Int,
        asks.foldl
            (fun total ask =>
              total +
                (if ask.onChainRemainingUnits > 0 then
                  ask.onChainRemainingUnits
                else 0)) total =
          total +
            ((asks.map TicketAsk.ask).map
              (fun a => max 0 a.stored)).sum := by
    induction asks with
    | nil => simp
    | cons a rest ih =>
        intro total
        have hStored :
            max 0 a.ask.stored =
              if a.onChainRemainingUnits > 0 then
                a.onChainRemainingUnits
              else 0 := by
          show max 0 a.onChainRemainingUnits = _
          split <;> omega
        rw [List.foldl_cons, ih, List.map_cons, List.map_cons,
          List.sum_cons, hStored, add_assoc]
  rw [hFold, zero_add]

theorem QuoteArgs.Sound.buys_le_upper
    (h : args.Sound)
    {units : Int}
    (hUnits : 0 < units)
    (hMost : units ≤ maxUnits)
    (hBuys : Buys args budget units) :
    units ≤ quoteUpperBound args := by
  have hAll := ((h.buys_iff hUnits hMost).mp hBuys).1
  let asks := args.asks.map TicketAsk.ask
  have hSizes :
      unitsIn (args.fills units) ≤
        ((buyOffers asks args.rent).map Ask.stored).sum :=
    unitsIn_walk_le_sizes (fun x hx => (h.offer hx).2.le) _
  have hPositive :
      (buyOffers asks args.rent).map Ask.stored =
        (buyOffers asks args.rent).map
          (fun a => max 0 a.stored) := by
    apply List.map_congr_left
    intro a ha
    have hStored := fillable_stored (mem_buyOffers ha).2
    omega
  have hSub :
      ((buyOffers asks args.rent).map
          (fun a => max 0 a.stored)).sum ≤
        ((sortAsks asks).map (fun a => max 0 a.stored)).sum := by
    apply List.Sublist.sum_le_sum
    · exact List.filter_sublist.map _
    · intro n hn
      rcases List.mem_map.mp hn with ⟨a, _, rfl⟩
      exact le_max_left 0 _
  have hTotal :
      ((sortAsks asks).map (fun a => max 0 a.stored)).sum =
        _ :=
    ((sortAsks_perm asks).map _).sum_eq.trans
      (advertised_eq args.asks).symm
  rw [hTotal] at hSub
  unfold quoteUpperBound
  simp only
  rw [hPositive] at hSizes
  rw [hAll] at hSizes
  split <;> omega

end

----
-- The Search Finds the Best Quote
----

section

open BudgetWalk SearchMax

variable {args : QuoteArgs} {budget : Option Int}

theorem wholeQuote_iff
    {units : Int}
    {quote : BuyQuote} :
    wholeQuote (fun q => withinBudget budget q.buy.cost) units
        quote = true ↔
      quote.buy.filledUnits = units ∧
        quote.buy.unfilledUnits = 0 ∧
          withinBudget budget quote.buy.cost = true := by
  unfold wholeQuote
  rw [Bool.and_eq_true, Bool.and_eq_true, decide_eq_true_eq,
    decide_eq_true_eq, and_assoc]

variable (budget) in
/- A probe of the search. -/
theorem QuoteArgs.Sound.probe
    (h : args.Sound)
    (hTolerance :
      0 ≤ args.toleranceBps ∧ args.toleranceBps ≤ 1000)
    {units : Int}
    (hUnits : 0 < units)
    (hMost : units ≤ maxUnits) :
    ∃ quote,
      args.quote units = .ok quote ∧
        quote.buy.filledUnits = unitsIn (args.fills units) ∧
        (wholeQuote (fun q => withinBudget budget q.buy.cost)
            units quote = true ↔
          Buys args budget units) := by
  rcases h.buy hUnits hMost with
    ⟨buy, hBuy, hFilled, hUnfilled, hCost⟩
  refine
    ⟨{ buy := buy
       limitPrice := limitPriceOf buy.fills args.toleranceBps
       asks := args.asks }, ?_, hFilled, ?_⟩
  · rw [quote_eq hTolerance, hBuy]
  · rw [wholeQuote_iff, h.buys_iff hUnits hMost]
    simp only
    rw [hFilled, hUnfilled, hCost]
    constructor
    · exact fun hAll => ⟨hAll.1, hAll.2.2⟩
    · rintro ⟨hAll, hWithin⟩
      exact ⟨hAll, by omega, hWithin⟩

/- Over asks that can be walked, the search is exact. -/
theorem QuoteArgs.Sound.highestQuote_best
    (h : args.Sound)
    (hTolerance :
      0 ≤ args.toleranceBps ∧ args.toleranceBps ≤ 1000) :
    BestQuote args budget
      (quoteOrNone
        (highestQuote args
          (fun q => withinBudget budget q.buy.cost))) := by
  have hUpper : quoteUpperBound args ≤ maxUnits := by
    unfold quoteUpperBound
    simp only
    split <;> omega
  have hWindow : 0 ≤ quoteUpperBound args := by
    unfold quoteUpperBound
    simp only
    have hTotal :
        0 ≤ ((args.asks.map TicketAsk.ask).map
          (fun a => max 0 a.stored)).sum := by
      apply List.sum_nonneg
      intro n hn
      rcases List.mem_map.mp hn with ⟨a, _, rfl⟩
      exact le_max_left 0 _
    rw [← advertised_eq] at hTotal
    split
    · exact hTotal
    · decide
  rcases
      searchMaxE_zero
        (quoteAccepted args
          (fun q => withinBudget budget q.buy.cost))
        (Buys args budget)
        hWindow
        (by
          intro n hn hLe
          rcases h.probe budget hTolerance hn (hLe.trans hUpper)
            with ⟨quote, hQuote, _, hIff⟩
          refine ⟨_, ?_, hIff⟩
          unfold quoteAccepted
          rw [hQuote])
        (fun _ _ hm hmn hLe =>
          h.buys_of_le hm hmn (hLe.trans hUpper)) with
    ⟨low, hSearch, hLow, hLowLe, hLowBuys, hGreatest⟩
  have hAbove :
      ∀ u, 1 ≤ u → u ≤ maxUnits → Buys args budget u →
        u ≤ low :=
    fun u hu hMost hBuys =>
      hGreatest u hu (h.buys_le_upper hu hMost hBuys) hBuys
  unfold highestQuote
  rw [hSearch]
  simp only
  by_cases hZero : low = 0
  · rw [if_pos hZero]
    intro u hu hMost hBuys
    have hLe := hAbove u hu hMost hBuys
    omega
  · rw [if_neg hZero]
    have hPos : 0 < low := lt_of_le_of_ne hLow (Ne.symm hZero)
    have hMost := hLowLe.trans hUpper
    have hBuys := hLowBuys hPos
    rcases h.probe budget hTolerance hPos hMost
      with ⟨quote, hQuote, hFilled, hIff⟩
    rw [hQuote]
    simp only
    rw [if_pos (hIff.mpr hBuys)]
    have hLowFilled : quote.buy.filledUnits = low :=
      hFilled.trans ((h.buys_iff hPos hMost).mp hBuys).1
    unfold quoteOrNone BestQuote
    simp only
    rw [hLowFilled]
    refine ⟨hQuote, ⟨hPos, hMost, hBuys⟩, ?_⟩
    rintro u ⟨hu, hMostU, hBuysU⟩
    exact hAbove u hu hMostU hBuysU

end

----
-- Asks That No Buy Can Walk
----

open SearchMax

variable {args : QuoteArgs} {budget : Option Int}

/- An ask of no units stops every walk that it is in. -/
theorem walkAsks_error
    (rent : Option RentTerms)
    {asks : List Ask}
    {ask : Ask}
    (hMem : ask ∈ asks)
    (hUnits : ask.units ≤ 0)
    (walk : BuyWalk) :
    ∃ e, walkAsks rent walk asks = .error e := by
  induction asks generalizing walk with
  | nil => cases hMem
  | cons first rest ih =>
      rw [walkAsks]
      cases hFirst : walkAsk rent walk first with
      | error e => exact ⟨e, rfl⟩
      | ok walk' =>
          rcases List.mem_cons.mp hMem with hSame | hRest
          · subst hSame
            unfold walkAsk at hFirst
            split at hFirst
            · cases hFirst
            · have hPremium :
                  ∃ e, premium ask.price ask.units =
                    .error e := by
                unfold premium
                split
                · exact ⟨_, rfl⟩
                · exact ⟨_, rfl⟩
              rcases hPremium with ⟨e, hPremium⟩
              rw [hPremium] at hFirst
              cases hFirst
          · exact ih hRest walk'

theorem costToBuy_error
    {asks : List Ask}
    {ask : Ask}
    (hMem : ask ∈ asks)
    (hUnits : ask.units ≤ 0)
    (units : Int)
    (params : TakerFeeParams)
    (rent : Option RentTerms) :
    ∃ e, costToBuy asks units params rent = .error e := by
  unfold costToBuy
  split
  · exact ⟨_, rfl⟩
  · rcases walkAsks_error rent
        ((sortAsks_perm asks).mem_iff.mpr hMem) hUnits
        (BuyWalk.start units) with ⟨e, hWalk⟩
    rw [hWalk]
    exact ⟨e, rfl⟩

/- Then there is no buy, and no quote of one. -/
theorem highestQuote_of_no_units
    (hTolerance :
      0 ≤ args.toleranceBps ∧ args.toleranceBps ≤ 1000)
    {ask : TicketAsk}
    (hMem : ask ∈ args.asks)
    (hUnits : ask.units ≤ 0)
    (accepts : BuyQuote → Bool) :
    BestQuote args budget
      (quoteOrNone (highestQuote args accepts)) := by
  have hAskUnits : ask.ask.units ≤ 0 := hUnits
  have hError :=
    costToBuy_error (List.mem_map_of_mem hMem) hAskUnits
  have hQuote : ∀ units, ∃ e, args.quote units = .error e := by
    intro units
    rcases hError units args.fees args.rent with ⟨e, hCost⟩
    rw [quote_eq hTolerance, hCost]
    exact ⟨e, rfl⟩
  have hNone :
      quoteOrNone (highestQuote args accepts) = none := by
    unfold highestQuote
    split
    · rfl
    · next low hLow =>
        split
        · rfl
        · rcases hQuote low with ⟨e, hQuoteLow⟩
          rw [hQuoteLow]
          rfl
  rw [hNone]
  rintro u _ _ ⟨buy, hBuy, _⟩
  rcases hError u args.fees args.rent with ⟨e, hCost⟩
  rw [hCost] at hBuy
  cases hBuy

/- Whatever its units, a list of asks has its best quote. -/
theorem highestQuote_best
    (hAsks : ListedAsks args.asks)
    (hFees : args.fees.Valid)
    (hTerms : ∀ terms, args.rent = some terms → terms.Valid)
    (hTolerance :
      0 ≤ args.toleranceBps ∧ args.toleranceBps ≤ 1000) :
    BestQuote args budget
      (quoteOrNone
        (highestQuote args
          (fun q => withinBudget budget q.buy.cost))) := by
  by_cases hUnits : ∀ a ∈ args.asks, 0 < a.units
  · have hSound : args.Sound :=
      { list := hAsks.buyList hUnits
        fees := hFees
        rent := hTerms }
    exact hSound.highestQuote_best hTolerance
  · push Not at hUnits
    rcases hUnits with ⟨a, ha, hNone⟩
    exact highestQuote_of_no_units hTolerance ha hNone _

/-
  A budget buys as much as it can: the quote is that of the
  largest size filled whole at a cost within the budget, and
  there is no quote where no unit is; without a budget, that
  of the largest size filled whole.
-/
theorem budget_quotes_best
    (levels : List ApiLevel)
    (fees : TakerFeeParams)
    (toleranceBps : Int)
    (taker : Option String)
    (rent : Option RentTerms)
    (hAsks : ListedAsks (flattenAsks levels taker))
    (hFees : fees.Valid)
    (hTerms : ∀ terms, rent = some terms → terms.Valid)
    (hTolerance : 0 ≤ toleranceBps ∧ toleranceBps ≤ 1000) :
    (∀ budget, 0 < budget →
        BestQuote
          { levels := levels
            fees := fees
            toleranceBps := toleranceBps
            taker := taker
            rent := rent } (some budget)
          (buyQuoteForBudget levels budget fees toleranceBps
            taker rent)) ∧
      BestQuote
        { levels := levels
          fees := fees
          toleranceBps := toleranceBps
          taker := taker
          rent := rent } none
        (maxBuyQuote levels fees toleranceBps taker rent) := by
  constructor
  · intro budget hBudget
    unfold buyQuoteForBudget
    rw [if_neg (not_le.mpr hBudget)]
    exact highestQuote_best hAsks hFees hTerms hTolerance
  · exact highestQuote_best hAsks hFees hTerms hTolerance

/- A resale ask, and two asks on one writer's balance. -/
def mixedLevels : List ApiLevel :=
  let write : ApiOrder :=
    { orderId := "2"
      maker := "0xA"
      units := 10
      onChainRemainingUnits := 10
      makerFreeUnits := some 6
      makerFreeCollateral := some { raw := 6, decimals := 6 }
      kind := .AskWrite }
  [{ price := { raw := 100, decimals := 6 }
     orders :=
       [{ write with
           orderId := "1"
           maker := "0xB"
           makerFreeUnits := none
           makerFreeCollateral := none
           kind := .AskResale }] },
    { price := { raw := 200, decimals := 6 }
      orders := [write, { write with orderId := "3" }] }]

def mixedRent : RentTerms :=
  { collateralPerUnit := 1
    mintFeePpm := 3000
    expiry := 10000
    snapshotTimestamp := 10
    mintCutoff := some 8200 }

def mixedFees : TakerFeeParams :=
  { takerFeeFlat := 2
    takerFeeCapBps := 1000
    discountBps := some 5000 }

theorem mixedLevels_listed :
    ListedAsks (flattenAsks mixedLevels none) where
  decimal := by decide +kernel
  ids := by decide +kernel
  price_pos := by decide +kernel
  price_tick := by decide +kernel
  balance := by decide +kernel

theorem mixedLevels_best :
    (∀ budget, 0 < budget →
        BestQuote
          { levels := mixedLevels
            fees := mixedFees
            toleranceBps := 200
            taker := none
            rent := some mixedRent } (some budget)
          (buyQuoteForBudget mixedLevels budget mixedFees 200
            none (some mixedRent))) ∧
      BestQuote
        { levels := mixedLevels
          fees := mixedFees
          toleranceBps := 200
          taker := none
          rent := some mixedRent } none
        (maxBuyQuote mixedLevels mixedFees 200 none
          (some mixedRent)) := by
  have hFees : mixedFees.Valid :=
    { flat_nonneg := by decide
      cap_nonneg := by decide
      cap_le := by decide
      discount_nonneg := by decide
      discount_le := by decide }
  have hTerms :
      ∀ terms, some mixedRent = some terms → terms.Valid := by
    rintro terms hSame
    cases hSame
    exact
      { cpu_pos := by decide
        ppm_nonneg := by decide
        ppm_le := by decide
        expiry_safe := by decide
        snapshot_safe := by decide
        snapshot_nonneg := by decide }
  exact
    budget_quotes_best mixedLevels mixedFees 200 none
      (some mixedRent) mixedLevels_listed hFees hTerms
      (by decide)

end Callhouse.Web
