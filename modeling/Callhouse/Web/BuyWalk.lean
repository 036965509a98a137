import Callhouse.Web.Payoff
import Callhouse.Lib.WalkDepth

/-
  web/lib/v2/payoff.ts: the walk of a buy over the sorted
  asks is the walk of a market whose offers are the asks
  that can be filled at all.

  Main declarations:
    * `BuyList`, `fillable`, `buyMarket`
    * `sortAsks_sorted`
    * `walkAsks_eq`
    * `costToBuy_ok`
-/

----
-- The Asks That Can Be Filled
----

namespace Callhouse.Web

section

open BudgetWalk

/- What is left of the order on chain. -/
def Ask.stored
    (ask : Ask) : Int :=
  ask.onChainRemainingUnits.getD ask.units

/- An ask that the walk does not pass over at every size. -/
def Ask.fillable
    (ask : Ask)
    (rent : Option RentTerms) : Bool :=
  decide (0 < ask.stored) &&
    (decide (ask.kind ≠ some .AskWrite) ||
      match ask.maker, rent, ask.makerFreeCollateral with
      | some _, some terms, some _ => !terms.closed
      | _, _, _ => false)

/- A write is paid from its writer's balance. -/
def Ask.writer
    (ask : Ask) : Option String :=
  if ask.kind = some .AskWrite then
    ask.maker.map String.toLower
  else none

def needOf
    (rent : Option RentTerms)
    (units : Int) : Int :=
  match rent with
  | none => 0
  | some terms =>
      WriteCost.cost terms.collateralPerUnit terms.mintFeePpm
        terms.life units

def buyMarket
    (rent : Option RentTerms) : Market Ask String :=
  { owner := Ask.writer
    size := Ask.stored
    cost := needOf rent }

/- The premium of one unit. -/
def Ask.rate
    (ask : Ask) : Int :=
  ask.price.tdiv unitsPerShare

def Ask.buyFill
    (ask : Ask)
    (units : Int) : BuyFill :=
  { orderId := ask.orderId
    price := ask.price
    units := units
    premium := ask.rate * units }

/- Every writer's asks show the balance `free` of the writer. -/
structure BuyList
    (asks : List Ask)
    (free : String → Int) : Prop where
  decimal : ∀ a ∈ asks, isDecimal a.orderId = true
  ids : (asks.map (fun a => a.orderId)).Nodup
  price_pos : ∀ a ∈ asks, 0 < a.price
  price_tick : ∀ a ∈ asks, a.price.tmod priceTick = 0
  units_pos : ∀ a ∈ asks, 0 < a.units
  balance :
    ∀ a ∈ asks, ∀ maker, a.writer = some maker →
      ∀ amount, a.makerFreeCollateral = some amount →
        amount = free maker

variable {rent : Option RentTerms}

theorem rate_mul
    {ask : Ask}
    (hTick : ask.price.tmod priceTick = 0)
    (units : Int) :
    (ask.price * units).tdiv unitsPerShare =
      ask.rate * units := by
  have hSplit :=
    Int.mul_tdiv_cancel' (Int.dvd_of_tmod_eq_zero hTick)
  have hUnit : priceTick = unitsPerShare := rfl
  rw [hUnit] at hSplit
  unfold Ask.rate
  conv_lhs => rw [← hSplit, mul_assoc]
  exact Int.mul_tdiv_cancel_left _ (by decide)

theorem rate_nonneg
    {ask : Ask}
    (hPrice : 0 < ask.price) :
    0 ≤ ask.rate :=
  TruncDiv.tdiv_nonneg hPrice.le (by decide)

theorem needOf_mono
    (hTerms : ∀ terms, rent = some terms → terms.Valid)
    {a b : Int}
    (hab : a ≤ b) :
    needOf rent a ≤ needOf rent b := by
  cases hRent : rent with
  | none => exact le_refl 0
  | some terms =>
      have hValid := hTerms terms hRent
      exact
        WriteCost.cost_mono hValid.cpu_pos.le
          hValid.ppm_nonneg life_nonneg hab

end

----
-- The Order of the Walk
----

theorem sortAsks_perm
    (asks : List Ask) :
    (sortAsks asks).Perm asks := by
  have hSort :=
    (asks.zipIdx.perm_insertionSort
      (fun a b => askBefore a b)).map Prod.fst
  rw [List.zipIdx_map_fst] at hSort
  exact hSort

theorem askBefore_iff
    (a b : Ask × Nat) :
    askBefore a b = true ↔
      a.1.price < b.1.price ∨
        (a.1.price = b.1.price ∧ a.2 ≤ b.2) := by
  unfold askBefore
  split
  · simp only [true_iff]
    omega
  · split
    · simp only [Bool.false_eq_true, false_iff]
      omega
    · rw [decide_eq_true_eq]
      omega

/- Cheapest first. -/
theorem sortAsks_sorted
    (asks : List Ask) :
    (sortAsks asks).Pairwise
      (fun a b => a.price ≤ b.price) := by
  have hTotal :
      Std.Total
        (fun a b : Ask × Nat => askBefore a b = true) :=
    ⟨by
      intro a b
      rw [askBefore_iff, askBefore_iff]
      omega⟩
  have hTrans :
      IsTrans (Ask × Nat)
        (fun a b => askBefore a b = true) :=
    ⟨by
      intro a b c hab hbc
      rw [askBefore_iff] at *
      omega⟩
  have hSorted :=
    List.pairwise_insertionSort
      (fun a b : Ask × Nat => askBefore a b = true)
      asks.zipIdx
  unfold sortAsks
  rw [List.pairwise_map]
  refine hSorted.imp ?_
  intro a b hab
  rw [askBefore_iff] at hab
  omega

----
-- One Ask
----

section

open BudgetWalk

/- The budgets and the wanted rest that the walk has left. -/
def BuyWalk.state
    (free : String → Int)
    (walk : BuyWalk) : State String :=
  { left := fun k => walk.writerBudget.getD k (free k)
    want := walk.remaining }

/- The state after the fills `ps` of a walk. -/
structure BuyWalk.Took
    (walk : BuyWalk)
    (ps : List (Ask × Int))
    (walk' : BuyWalk) : Prop where
  fills :
    walk'.fills =
      walk.fills ++ ps.map (fun p => p.1.buyFill p.2)
  remaining :
    walk'.remaining = walk.remaining - unitsIn ps
  premium :
    walk'.totalPremium =
      walk.totalPremium + valueIn Ask.rate ps

theorem BuyWalk.Took.refl
    (walk : BuyWalk) :
    walk.Took [] walk :=
  { fills := by simp, remaining := by simp, premium := by simp }

theorem BuyWalk.Took.trans
    {a b c : BuyWalk}
    {ps qs : List (Ask × Int)}
    (h : a.Took ps b)
    (h' : b.Took qs c) :
    a.Took (ps ++ qs) c := by
  refine { fills := ?_, remaining := ?_, premium := ?_ }
  · rw [h'.fills, h.fills, List.map_append,
      List.append_assoc]
  · rw [h'.remaining, h.remaining]
    simp only [unitsIn, List.map_append, List.sum_append]
    omega
  · rw [h'.premium, h.premium]
    simp only [valueIn, List.map_append, List.sum_append]
    omega

/- The walk after a fill. -/
def BuyWalk.bought
    (walk : BuyWalk)
    (ask : Ask)
    (units : Int) : BuyWalk :=
  { walk with
    remaining := walk.remaining - units
    totalPremium := walk.totalPremium + ask.rate * units
    fills := walk.fills ++ [ask.buyFill units] }

theorem BuyWalk.took_bought
    (walk : BuyWalk)
    (ask : Ask)
    (units : Int) :
    walk.Took [(ask, units)] (walk.bought ask units) :=
  { fills := rfl
    remaining := by simp [BuyWalk.bought]
    premium := by simp [BuyWalk.bought] }

variable {ask : Ask}

theorem fill_bought
    (walk : BuyWalk)
    (hPrice : 0 < ask.price)
    (hTick : ask.price.tmod priceTick = 0)
    {units : Int}
    (hUnits : 0 < units) :
    walk.fill ask units = .ok (walk.bought ask units) := by
  unfold BuyWalk.fill
  rw [premium_ok hPrice hTick hUnits, rate_mul hTick]
  rfl

variable {rent : Option RentTerms} {free : String → Int}

/- What one ask does to a walk. -/
structure BuyWalk.Step
    (rent : Option RentTerms)
    (free : String → Int)
    (walk : BuyWalk)
    (ask : Ask)
    (walk' : BuyWalk) : Prop where
  state :
    walk'.state free =
      if ask.fillable rent then
        (buyMarket rent).step (walk.state free) ask
      else walk.state free
  took :
    walk.Took
      (if ask.fillable rent ∧
          (buyMarket rent).fills (walk.state free) ask then
        [(ask, (buyMarket rent).take (walk.state free) ask)]
      else []) walk'

variable {walk' : BuyWalk} {walk : BuyWalk}

theorem BuyWalk.Step.of_not_fillable
    (hNot : ask.fillable rent = false)
    (hState : walk'.state free = walk.state free)
    (hTook : walk.Took [] walk') :
    BuyWalk.Step rent free walk ask walk' where
  state := by
    rw [hNot, if_neg (by decide)]
    exact hState
  took := by
    rw [if_neg (by simp [hNot])]
    exact hTook

theorem BuyWalk.Step.of_not_fills
    (hNot :
      (buyMarket rent).fills (walk.state free) ask = false)
    (hState : walk'.state free = walk.state free)
    (hTook : walk.Took [] walk') :
    BuyWalk.Step rent free walk ask walk' where
  state := by
    rw [step_of_not_fills hNot, ite_self]
    exact hState
  took := by
    rw [if_neg (by simp [hNot])]
    exact hTook

theorem BuyWalk.Step.of_fills
    (hFillable : ask.fillable rent = true)
    (hFills :
      (buyMarket rent).fills (walk.state free) ask = true)
    (hState :
      walk'.state free =
        (buyMarket rent).filled (walk.state free) ask)
    (hTook :
      walk.Took
        [(ask, (buyMarket rent).take (walk.state free) ask)]
        walk') :
    BuyWalk.Step rent free walk ask walk' where
  state := by
    rw [hFillable, if_pos rfl, step_of_fills hFills]
    exact hState
  took := by
    rw [if_pos ⟨hFillable, hFills⟩]
    exact hTook

/- A write-on-fill ask, while units are wanted. -/
theorem fillWrite_step
    (hTerms : ∀ terms, rent = some terms → terms.Valid)
    (hPrice : 0 < ask.price)
    (hTick : ask.price.tmod priceTick = 0)
    (hBalance :
      ∀ maker, ask.writer = some maker →
        ∀ amount, ask.makerFreeCollateral = some amount →
          amount = free maker)
    (hKind : ask.kind = some .AskWrite)
    (hStored : 0 < ask.stored)
    (hWant : 0 < walk.remaining)
    (hMost : walk.remaining ≤ maxUnits)
    {units : Int}
    (hUnits :
      (buyMarket rent).take (walk.state free) ask = units) :
    ∃ walk',
      walk.fillWrite ask units rent = .ok walk' ∧
        walk'.seen = walk.seen ∧
        BuyWalk.Step rent free walk ask walk' := by
  have hSkip :
      ∀ reason, ask.fillable rent = false →
        BuyWalk.Step rent free walk ask
          (walk.skip ask reason) := by
    intro reason hNot
    exact
      .of_not_fillable hNot rfl
        { fills := by simp [BuyWalk.skip]
          remaining := by simp [BuyWalk.skip]
          premium := by simp [BuyWalk.skip] }
  cases hMaker : ask.maker with
  | none =>
      refine ⟨walk.skip ask .maker, ?_, rfl, hSkip _ ?_⟩
      · simp [BuyWalk.fillWrite, hMaker]
      · simp [Ask.fillable, hMaker, hKind]
  | some maker =>
  cases hRent : rent with
  | none =>
      subst hRent
      refine ⟨walk.skip ask .rent, ?_, rfl, hSkip _ ?_⟩
      · simp [BuyWalk.fillWrite, hMaker]
      · simp [Ask.fillable, hMaker, hKind]
  | some terms =>
  subst hRent
  cases hFree : ask.makerFreeCollateral with
  | none =>
      refine ⟨walk.skip ask .collateral, ?_, rfl, hSkip _ ?_⟩
      · simp [BuyWalk.fillWrite, hMaker, hFree]
      · simp [Ask.fillable, hMaker, hKind, hFree]
  | some initial =>
  cases hClosed : terms.closed with
  | true =>
      refine
        ⟨walk, ?_, rfl, .of_not_fillable ?_ rfl (.refl walk)⟩
      · simp [BuyWalk.fillWrite, hMaker, hFree, hClosed]
      · simp [Ask.fillable, hMaker, hKind, hFree, hClosed]
  | false =>
      have hWriter : ask.writer = some maker.toLower := by
        simp [Ask.writer, hKind, hMaker]
      have hInitial := hBalance _ hWriter _ hFree
      have hFillable : ask.fillable (some terms) = true := by
        simp [Ask.fillable, hMaker, hFree, hClosed, hStored]
      have hPos : 0 < units := by
        rw [← hUnits]
        exact lt_min hStored hWant
      have hLe : units ≤ maxUnits := by
        rw [← hUnits]
        exact (min_le_right _ _).trans hMost
      have hNeed :=
        writerCollateralNeed_eq_cost (hTerms terms rfl)
          hPos.le hLe
      have hCost :
          (buyMarket (some terms)).cost units =
            WriteCost.cost terms.collateralPerUnit
              terms.mintFeePpm terms.life units := rfl
      unfold BuyWalk.fillWrite
      rw [hMaker, hFree]
      simp only
      rw [hClosed, if_neg (by decide), hNeed, hInitial]
      simp only
      by_cases hShort :
          walk.writerBudget.getD maker.toLower
              (free maker.toLower) <
            WriteCost.cost terms.collateralPerUnit
              terms.mintFeePpm terms.life units
      · rw [if_pos hShort]
        refine
          ⟨walk, rfl, rfl,
            .of_not_fills ?_ rfl (.refl walk)⟩
        by_contra hYes
        have hCovers :=
          (fills_eq_true_iff.mp (by simpa using hYes)).2 _
            hWriter
        rw [hUnits, hCost] at hCovers
        exact absurd hCovers (not_le.mpr hShort)
      · rw [if_neg hShort,
          fill_bought _ hPrice hTick hPos]
        have hFills :
            (buyMarket (some terms)).fills (walk.state free)
                ask = true := by
          rw [fills_eq_true_iff]
          refine ⟨hWant.ne', ?_⟩
          intro k hk
          have hSame : k = maker.toLower :=
            Option.some.inj (hk.symm.trans hWriter)
          rw [hSame, hUnits, hCost]
          exact not_lt.mp hShort
        refine ⟨_, rfl, rfl, .of_fills hFillable hFills ?_ ?_⟩
        · unfold BuyWalk.state Market.filled
          have hOwner :
              (buyMarket (some terms)).owner ask =
                some maker.toLower := hWriter
          rw [hOwner]
          have hTake := hUnits
          unfold BuyWalk.state at hTake
          rw [hTake, hCost]
          congr 1
          funext k
          simp only [BuyWalk.bought, charge]
          rw [OrderedMap.getD_set]
          by_cases hk : maker.toLower = k
          · rw [if_pos hk, if_pos hk.symm, hk]
          · rw [if_neg hk, if_neg (Ne.symm hk)]
        · rw [hUnits]
          have hTook := walk.took_bought ask units
          exact
            { fills := hTook.fills
              remaining := hTook.remaining
              premium := hTook.premium }

/- One ask of the walk. -/
theorem walkAsk_step
    (hTerms : ∀ terms, rent = some terms → terms.Valid)
    (hDecimal : isDecimal ask.orderId = true)
    (hNew : ask.orderId ∉ walk.seen)
    (hPrice : 0 < ask.price)
    (hTick : ask.price.tmod priceTick = 0)
    (hAll : 0 < ask.units)
    (hBalance :
      ∀ maker, ask.writer = some maker →
        ∀ amount, ask.makerFreeCollateral = some amount →
          amount = free maker)
    (hWant : 0 ≤ walk.remaining)
    (hMost : walk.remaining ≤ maxUnits) :
    ∃ walk',
      walkAsk rent walk ask = .ok walk' ∧
        walk'.seen = walk.seen ++ [ask.orderId] ∧
        BuyWalk.Step rent free walk ask walk' := by
  let next : BuyWalk :=
    { walk with seen := walk.seen ++ [ask.orderId] }
  have hState : next.state free = walk.state free := rfl
  have hNext :
      ∀ ps walk', next.Took ps walk' → walk.Took ps walk' := by
    intro ps walk' hTook
    exact
      { fills := hTook.fills
        remaining := hTook.remaining
        premium := hTook.premium }
  have hStep :
      ∀ walk', BuyWalk.Step rent free next ask walk' →
        BuyWalk.Step rent free walk ask walk' := by
    intro walk' hStep
    refine { state := ?_, took := hNext _ _ ?_ }
    · rw [← hState]
      exact hStep.state
    · rw [← hState]
      exact hStep.took
  unfold walkAsk
  rw [hDecimal, if_neg (by simp [hNew])]
  simp only
  rw [premium_ok hPrice hTick hAll]
  simp only
  by_cases hDone : walk.remaining = 0
  · rw [if_pos hDone]
    exact
      ⟨next, rfl, rfl,
        .of_not_fills (not_fills_of_want hDone ask) hState
          (hNext _ _ (.refl next))⟩
  rw [if_neg hDone]
  have hPos : 0 < walk.remaining :=
    lt_of_le_of_ne hWant (Ne.symm hDone)
  by_cases hNone : ask.stored ≤ 0
  · have hNot : ask.fillable rent = false := by
      simp [Ask.fillable, not_lt.mpr hNone]
    unfold Ask.stored at hNone
    rw [if_pos hNone]
    exact
      ⟨next, rfl, rfl,
        .of_not_fillable hNot hState (hNext _ _ (.refl next))⟩
  have hStored := not_le.mp hNone
  have hTake :
      (buyMarket rent).take (next.state free) ask =
        if ask.onChainRemainingUnits.getD ask.units <
            walk.remaining then
          ask.onChainRemainingUnits.getD ask.units
        else walk.remaining := by
    show min ask.stored walk.remaining = _
    unfold Ask.stored
    omega
  have hUnits : 0 < (buyMarket rent).take (next.state free) ask :=
    lt_min hStored hPos
  unfold Ask.stored at hNone
  rw [if_neg hNone, ← hTake]
  by_cases hKind : ask.kind = some .AskWrite
  · rw [if_pos hKind]
    have hNextPos : 0 < next.remaining := hPos
    have hNextMost : next.remaining ≤ maxUnits := hMost
    rcases fillWrite_step hTerms hPrice hTick hBalance hKind
        hStored hNextPos hNextMost rfl with
      ⟨walk', hRun, hSeen, hDid⟩
    exact ⟨walk', hRun, hSeen, hStep walk' hDid⟩
  · have hOwner : (buyMarket rent).owner ask = none :=
      if_neg hKind
    have hFillable : ask.fillable rent = true := by
      simp [Ask.fillable, hKind, hStored]
    have hFills :
        (buyMarket rent).fills (next.state free) ask = true := by
      rw [fills_eq_true_iff]
      refine ⟨hDone, ?_⟩
      intro k hk
      rw [hOwner] at hk
      cases hk
    rw [if_neg hKind, fill_bought _ hPrice hTick hUnits]
    refine
      ⟨_, rfl, rfl,
        hStep _ (.of_fills hFillable hFills ?_
          (next.took_bought ask _))⟩
    unfold Market.filled
    rw [hOwner, charge_none]
    rfl

end

----
-- The Whole Walk
----

open BudgetWalk

variable {rent : Option RentTerms} {free : String → Int}
variable {ask : Ask}

theorem BuyList.tail
    {rest : List Ask}
    (h : BuyList (ask :: rest) free) :
    BuyList rest free where
  decimal := fun a ha =>
    h.decimal a (List.mem_cons_of_mem ask ha)
  ids := (List.nodup_cons.mp h.ids).2
  price_pos := fun a ha =>
    h.price_pos a (List.mem_cons_of_mem ask ha)
  price_tick := fun a ha =>
    h.price_tick a (List.mem_cons_of_mem ask ha)
  units_pos := fun a ha =>
    h.units_pos a (List.mem_cons_of_mem ask ha)
  balance := fun a ha =>
    h.balance a (List.mem_cons_of_mem ask ha)

variable {asks : List Ask}

theorem BuyList.perm
    {asks' : List Ask}
    (h : BuyList asks free)
    (hPerm : asks'.Perm asks) :
    BuyList asks' free where
  decimal := fun a ha => h.decimal a (hPerm.subset ha)
  ids := (hPerm.map _).nodup_iff.mpr h.ids
  price_pos := fun a ha => h.price_pos a (hPerm.subset ha)
  price_tick := fun a ha => h.price_tick a (hPerm.subset ha)
  units_pos := fun a ha => h.units_pos a (hPerm.subset ha)
  balance := fun a ha => h.balance a (hPerm.subset ha)

theorem fillable_stored
    (h : ask.fillable rent = true) :
    0 < ask.stored := by
  unfold Ask.fillable at h
  rw [Bool.and_eq_true, decide_eq_true_eq] at h
  exact h.1

/- A step leaves a size that can still be priced. -/
theorem BuyWalk.Step.remaining_bounds
    {walk walk' : BuyWalk}
    (h : BuyWalk.Step rent free walk ask walk')
    (hWant : 0 ≤ walk.remaining) :
    0 ≤ walk'.remaining ∧
      walk'.remaining ≤ walk.remaining := by
  have hState := congrArg State.want h.state
  change walk'.remaining = _ at hState
  rw [hState]
  cases hFillable : ask.fillable rent with
  | false =>
      rw [if_neg (by decide)]
      exact ⟨hWant, le_refl _⟩
  | true =>
      rw [if_pos rfl]
      refine ⟨step_want ask hWant, ?_⟩
      cases hFills :
          (buyMarket rent).fills (walk.state free) ask with
      | false =>
          rw [step_of_not_fills hFills]
          exact le_refl _
      | true =>
          have hNe := (fills_eq_true_iff.mp hFills).1
          have hStored : 0 < (buyMarket rent).size ask :=
            fillable_stored hFillable
          have hTake := take_pos hStored hWant hNe
          rw [step_of_fills hFills]
          show walk.remaining - _ ≤ walk.remaining
          omega

/- The walk over asks is the market's over those fillable. -/
theorem walkAsks_eq
    (hTerms : ∀ terms, rent = some terms → terms.Valid)
    (hList : BuyList asks free)
    {walk : BuyWalk}
    (hSeen : ∀ a ∈ asks, a.orderId ∉ walk.seen)
    (hWant : 0 ≤ walk.remaining)
    (hMost : walk.remaining ≤ maxUnits) :
    ∃ walk',
      walkAsks rent walk asks = .ok walk' ∧
        walk.Took
          ((buyMarket rent).walk (walk.state free)
            (asks.filter (fun a => a.fillable rent)))
          walk' := by
  induction asks generalizing walk with
  | nil => exact ⟨walk, rfl, .refl walk⟩
  | cons ask rest ih =>
      have hMem := List.mem_cons_self (a := ask) (l := rest)
      rcases walkAsk_step hTerms (hList.decimal ask hMem)
          (hSeen ask hMem) (hList.price_pos ask hMem)
          (hList.price_tick ask hMem)
          (hList.units_pos ask hMem)
          (hList.balance ask hMem) hWant hMost with
        ⟨walk', hRun, hSeen', hStep⟩
      have hNew := (List.nodup_cons.mp hList.ids).1
      have hRestSeen : ∀ a ∈ rest, a.orderId ∉ walk'.seen := by
        intro a ha hIn
        rw [hSeen', List.mem_append,
          List.mem_singleton] at hIn
        rcases hIn with hOld | hSame
        · exact hSeen a (List.mem_cons_of_mem ask ha) hOld
        · exact hNew (List.mem_map.mpr ⟨a, ha, hSame⟩)
      rcases hStep.remaining_bounds hWant with
        ⟨hWant', hLess⟩
      rcases ih hList.tail hRestSeen hWant'
          (hLess.trans hMost) with ⟨walk'', hRest, hTook⟩
      refine ⟨walk'', ?_, ?_⟩
      · rw [walkAsks, hRun]
        exact hRest
      · rw [hStep.state] at hTook
        have hFirst := hStep.took
        cases hFillable : ask.fillable rent with
        | false =>
            rw [hFillable] at hFirst hTook
            rw [if_neg (by simp)] at hFirst
            rw [if_neg (by decide)] at hTook
            rw [List.filter_cons, if_neg (by simp [hFillable])]
            exact hFirst.trans hTook
        | true =>
            rw [hFillable] at hFirst hTook
            simp only [true_and] at hFirst
            rw [if_pos rfl] at hTook
            rw [List.filter_cons, if_pos hFillable, walk_cons]
            exact hFirst.trans hTook

/- The taker's fee on a premium. -/
def feeOn
    (params : TakerFeeParams)
    (premiumPaid : Int) : Int :=
  let base :=
    min params.takerFeeFlat
      ((premiumPaid * params.takerFeeCapBps).tdiv bps)
  base - (base * params.discountBps.getD 0).tdiv bps

variable {params : TakerFeeParams}

theorem takerFee_eq
    {premiumPaid : Int}
    (hParams : params.Valid)
    (hPremium : 0 ≤ premiumPaid) :
    takerFee premiumPaid params =
      .ok (feeOn params premiumPaid) := by
  have hFlat := hParams.flat_nonneg
  have hCap := hParams.cap_nonneg
  have hCeil := hParams.cap_le
  have hDiscount := hParams.discount_nonneg
  have hMost := hParams.discount_le
  unfold takerFee feeOn
  simp only
  rw [if_neg (by omega), if_neg (by omega),
    if_neg (by omega), if_neg (by omega)]
  have hMin :
      ∀ capped : Int,
        (if params.takerFeeFlat < capped then
            params.takerFeeFlat
          else capped) =
          min params.takerFeeFlat capped := by
    intro capped
    omega
  rw [hMin]

theorem feeOn_mono
    (hParams : params.Valid)
    {a b : Int}
    (ha : 0 ≤ a)
    (hab : a ≤ b) :
    feeOn params a ≤ feeOn params b := by
  have hBps : 0 < bps := by decide
  have hCap := hParams.cap_nonneg
  have hDiscount := hParams.discount_le
  have hMost : params.discountBps.getD 0 ≤ bps :=
    hDiscount.trans (by decide)
  apply TruncDiv.sub_tdiv_le_sub_tdiv
    hParams.discount_nonneg hMost hBps
  · exact
      le_min hParams.flat_nonneg
        (TruncDiv.tdiv_nonneg (mul_nonneg ha hCap) hBps)
  · exact
      min_le_min_left _
        (TruncDiv.tdiv_le_tdiv (mul_nonneg ha hCap) hBps
          (mul_le_mul_of_nonneg_right hab hCap))

/- The asks that can be filled, cheapest first. -/
def buyOffers
    (asks : List Ask)
    (rent : Option RentTerms) : List Ask :=
  (sortAsks asks).filter (fun a => a.fillable rent)

/- The fills of a buy of `units`. -/
def buyFills
    (asks : List Ask)
    (rent : Option RentTerms)
    (free : String → Int)
    (units : Int) : List (Ask × Int) :=
  (buyMarket rent).walk { left := free, want := units }
    (buyOffers asks rent)

theorem mem_buyOffers
    (h : ask ∈ buyOffers asks rent) :
    ask ∈ asks ∧ ask.fillable rent = true := by
  rcases List.mem_filter.mp h with ⟨hMem, hFillable⟩
  exact ⟨(sortAsks_perm asks).subset hMem, hFillable⟩

theorem buyOffers_sorted
    (asks : List Ask)
    (rent : Option RentTerms) :
    (buyOffers asks rent).Pairwise
      (fun a b => a.price ≤ b.price) :=
  (sortAsks_sorted asks).filter _

/- A buy of some units: the market's fills, and their cost. -/
theorem costToBuy_ok
    (hTerms : ∀ terms, rent = some terms → terms.Valid)
    (hList : BuyList asks free)
    (hParams : params.Valid)
    {units : Int}
    (hUnits : 0 < units)
    (hMost : units ≤ maxUnits) :
    ∃ buy,
      costToBuy asks units params rent = .ok buy ∧
        buy.filledUnits =
            unitsIn (buyFills asks rent free units) ∧
          buy.unfilledUnits =
            units - unitsIn (buyFills asks rent free units) ∧
          buy.cost =
            valueIn Ask.rate (buyFills asks rent free units) +
              feeOn params
                (valueIn Ask.rate
                  (buyFills asks rent free units)) := by
  have hStart :
      (BuyWalk.start units).state free =
        { left := free, want := units } := by
    unfold BuyWalk.state BuyWalk.start
    congr 1
  rcases walkAsks_eq hTerms (hList.perm (sortAsks_perm asks))
      (fun _ _ hIn => by cases hIn)
      (show 0 ≤ (BuyWalk.start units).remaining from hUnits.le)
      hMost with ⟨walk, hWalk, hTook⟩
  rw [hStart] at hTook
  have hPremium := hTook.premium
  have hRemaining := hTook.remaining
  have hNonneg :
      0 ≤ valueIn Ask.rate
        (buyFills asks rent free units) := by
    apply valueIn_walk_nonneg
    · intro a ha
      exact rate_nonneg (hList.price_pos a (mem_buyOffers ha).1)
    · intro a ha
      exact fillable_stored (mem_buyOffers ha).2
    · exact hUnits.le
  have hPaid :
      walk.totalPremium =
        valueIn Ask.rate (buyFills asks rent free units) := by
    rw [hPremium]
    exact zero_add _
  have hLeft :
      walk.remaining =
        units - unitsIn (buyFills asks rent free units) :=
    hRemaining
  refine
    ⟨walk.cost units (feeOn params walk.totalPremium), ?_, ?_,
      hLeft, ?_⟩
  · unfold costToBuy
    rw [if_neg (not_le.mpr hUnits), hWalk]
    simp only
    rw [takerFee_eq hParams (hNonneg.trans_eq hPaid.symm)]
  · show units - walk.remaining = _
    omega
  · show walk.totalPremium + feeOn params walk.totalPremium = _
    rw [hPaid]

end Callhouse.Web
