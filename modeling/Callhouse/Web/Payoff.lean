import Callhouse.Web.Rent
import Callhouse.Lib.OrderedMap
import Mathlib.Data.List.Sort

/-
  web/lib/v2/payoff.ts: what a buy of some units costs against
  the listed asks.  A thrown RangeError is its message.

  Main declarations:
    * `premium`, `takerFee`, `costToBuy`
    * `netPayoutUsdgPerUnit`
    * `costToBuy_alone`
-/

----
-- Premium and Fee
----

namespace Callhouse.Web

def unitsPerShare : Int := 100

def priceTick : Int := 100

def bps : Int := 10000

def premium
    (price units : Int) : Except String Int :=
  if price ≤ 0 then .error "price must be positive"
  else if units ≤ 0 then .error "units must be positive"
  else if price.tmod priceTick ≠ 0 then
    .error "price must be a multiple of PRICE_TICK"
  else .ok ((price * units).tdiv unitsPerShare)

structure TakerFeeParams where
  takerFeeFlat : Int
  takerFeeCapBps : Int
  discountBps : Option Int
deriving DecidableEq

def takerFee
    (premiumPaid : Int)
    (params : TakerFeeParams) : Except String Int :=
  let discountBps := params.discountBps.getD 0
  if premiumPaid < 0 then
    .error "premiumPaid must be nonnegative"
  else if params.takerFeeFlat < 0 then
    .error "takerFeeFlat must be nonnegative"
  else if params.takerFeeCapBps < 0 ∨
      params.takerFeeCapBps > 1000 then
    .error "takerFeeCapBps exceeds the contract ceiling"
  else if discountBps < 0 ∨ discountBps > 5000 then
    .error "discountBps exceeds the contract ceiling"
  else
    let capped :=
      (premiumPaid * params.takerFeeCapBps).tdiv bps
    let base :=
      if params.takerFeeFlat < capped then
        params.takerFeeFlat
      else capped
    .ok (base - (base * discountBps).tdiv bps)

def ceilDiv
    (numerator denominator : Int) : Int :=
  (numerator + denominator - 1).tdiv denominator

----
-- Walking the Asks
----

inductive AskKind where
  | AskResale
  | AskWrite
deriving DecidableEq

structure Ask where
  orderId : String
  price : Int
  units : Int
  maker : Option String
  kind : Option AskKind
  onChainRemainingUnits : Option Int
  makerFreeCollateral : Option Int
  makerFreeUnits : Option Int
deriving DecidableEq

/- The input that an AskWrite could not be priced without. -/
inductive UnpriceableReason where
  | maker
  | rent
  | collateral
deriving DecidableEq

inductive PricingStatus where
  | priced
  | unpriceable
deriving DecidableEq

structure BuyFill where
  orderId : String
  price : Int
  units : Int
  premium : Int
deriving DecidableEq

structure BuyCost where
  pricingStatus : PricingStatus
  unpriceableAsks : List (String × UnpriceableReason)
  filledUnits : Int
  unfilledUnits : Int
  premium : Int
  fee : Int
  cost : Int
  averagePrice : Option Int
  orderIds : List String
  fills : List BuyFill
deriving DecidableEq

structure BuyWalk where
  seen : List String
  writerBudget : OrderedMap String Int
  remaining : Int
  totalPremium : Int
  fills : List BuyFill
  unpriceableAsks : List (String × UnpriceableReason)

def isDecimal
    (orderId : String) : Bool :=
  decide (orderId.toList ≠ []) &&
    orderId.toList.all (fun c => c.isDigit)

/- Price, then the place in the input. -/
def askBefore
    (a b : Ask × Nat) : Bool :=
  if a.1.price < b.1.price then true
  else if a.1.price > b.1.price then false
  else decide (a.2 ≤ b.2)

def sortAsks
    (asks : List Ask) : List Ask :=
  (asks.zipIdx.insertionSort
    (fun a b => askBefore a b)).map Prod.fst

/- A writer's ask that the walk cannot price. -/
def BuyWalk.skip
    (walk : BuyWalk)
    (ask : Ask)
    (reason : UnpriceableReason) : BuyWalk :=
  { walk with
    unpriceableAsks :=
      walk.unpriceableAsks ++ [(ask.orderId, reason)] }

def BuyWalk.fill
    (walk : BuyWalk)
    (ask : Ask)
    (filled : Int) : Except String BuyWalk :=
  match premium ask.price filled with
  | .error e => .error e
  | .ok amount =>
      .ok
        { walk with
          remaining := walk.remaining - filled
          totalPremium := walk.totalPremium + amount
          fills :=
            walk.fills ++
              [{ orderId := ask.orderId
                 price := ask.price
                 units := filled
                 premium := amount }] }

/- A write-on-fill ask is filled whole, or not at all. -/
def BuyWalk.fillWrite
    (walk : BuyWalk)
    (ask : Ask)
    (filled : Int)
    (rent : Option RentTerms) : Except String BuyWalk :=
  match ask.maker, rent, ask.makerFreeCollateral with
  | none, _, _ => .ok (walk.skip ask .maker)
  | some _, none, _ => .ok (walk.skip ask .rent)
  | some _, some _, none => .ok (walk.skip ask .collateral)
  | some maker, some terms, some initial =>
      if terms.closed then .ok walk
      else
        let key := maker.toLower
        let budget := walk.writerBudget.getD key initial
        match writerCollateralNeed filled terms with
        | .error e => .error e
        | .ok need =>
            if budget < need then .ok walk
            else
              let spent :=
                { walk with
                  writerBudget :=
                    walk.writerBudget.set key
                      (budget - need) }
              spent.fill ask filled

def walkAsk
    (rent : Option RentTerms)
    (walk : BuyWalk)
    (ask : Ask) : Except String BuyWalk :=
  if isDecimal ask.orderId = false ∨
      ask.orderId ∈ walk.seen then
    .error "order IDs must be unique decimal strings"
  else
    let walk :=
      { walk with seen := walk.seen ++ [ask.orderId] }
    match premium ask.price ask.units with
    | .error e => .error e
    | .ok _ =>
        let orderRemaining :=
          ask.onChainRemainingUnits.getD ask.units
        if walk.remaining = 0 then .ok walk
        else if orderRemaining ≤ 0 then .ok walk
        else
          let filled :=
            if orderRemaining < walk.remaining then
              orderRemaining
            else walk.remaining
          if ask.kind = some .AskWrite then
            walk.fillWrite ask filled rent
          else walk.fill ask filled

def walkAsks
    (rent : Option RentTerms)
    (walk : BuyWalk) :
    List Ask → Except String BuyWalk
  | [] => .ok walk
  | ask :: rest =>
      match walkAsk rent walk ask with
      | .error e => .error e
      | .ok walk' => walkAsks rent walk' rest

def BuyWalk.start
    (units : Int) : BuyWalk :=
  { seen := []
    writerBudget := OrderedMap.empty
    remaining := units
    totalPremium := 0
    fills := []
    unpriceableAsks := [] }

def BuyWalk.cost
    (walk : BuyWalk)
    (units fee : Int) : BuyCost :=
  let filledUnits := units - walk.remaining
  { pricingStatus :=
      if walk.unpriceableAsks = [] then .priced
      else .unpriceable
    unpriceableAsks := walk.unpriceableAsks
    filledUnits := filledUnits
    unfilledUnits := walk.remaining
    premium := walk.totalPremium
    fee := fee
    cost := walk.totalPremium + fee
    averagePrice :=
      if filledUnits > 0 then
        some
          (ceilDiv (walk.totalPremium * unitsPerShare)
            filledUnits)
      else none
    orderIds := walk.fills.map (fun fill => fill.orderId)
    fills := walk.fills }

def costToBuy
    (asks : List Ask)
    (units : Int)
    (params : TakerFeeParams)
    (rent : Option RentTerms) : Except String BuyCost :=
  if units ≤ 0 then .error "units must be positive"
  else
    match
      walkAsks rent (BuyWalk.start units) (sortAsks asks) with
    | .error e => .error e
    | .ok walk =>
        match takerFee walk.totalPremium params with
        | .error e => .error e
        | .ok fee => .ok (walk.cost units fee)

----
-- Payouts
----

def wad : Int := 1000000000000000000

def unit : Int := 10000000000000000

def maxExerciseFeeBps : Int := 200

def maxPayoutFeeShareBps : Int := 1000

def feeBps
    (value : Int) : Except String Int :=
  if value < 0 ∨ value > maxExerciseFeeBps then
    .error "exerciseFeeBps exceeds the contract ceiling"
  else .ok value

def conversionFloorRate
    (value : Int) : Except String Int :=
  if value < 9700 ∨ value > 10000 then
    .error
      "conversionFloorBps must be an explicit contract-bounded rate"
  else .ok value

def collateralPerUnit
    (isPut : Bool)
    (strike : Int) : Except String Int :=
  if strike ≤ 0 then .error "strike must be positive"
  else if isPut then .ok (strike.tdiv unitsPerShare)
  else .ok unit

/- A call pays Stock Tokens, a put USDG. -/
def grossPayoutPerUnit
    (isPut : Bool)
    (strike price : Int) : Except String Int :=
  if strike ≤ 0 then .error "strike must be positive"
  else if price < 0 then .error "price must be nonnegative"
  else if isPut then
    .ok
      (if price < strike then
        (strike - price).tdiv unitsPerShare
      else 0)
  else
    .ok
      (if price > strike then
        (unit * (price - strike)).tdiv price
      else 0)

def exerciseFeePerUnit
    (gross collateral exerciseFeeBps : Int) :
    Except String Int :=
  if gross < 0 then .error "gross must be nonnegative"
  else if collateral < 0 then
    .error "collateral must be nonnegative"
  else
    match feeBps exerciseFeeBps with
    | .error e => .error e
    | .ok rate =>
        if gross = 0 then .ok 0
        else
          let byCollateral := (collateral * rate).tdiv bps
          let byPayout :=
            (gross * maxPayoutFeeShareBps).tdiv bps
          .ok
            (if byCollateral < byPayout then byCollateral
              else byPayout)

/-
  A call is valued at the price after its fee, at the floor
  of a conversion when one is given.
-/
def netPayoutUsdgPerUnit
    (isPut : Bool)
    (strike price exerciseFeeBps : Int)
    (conversionFloorBps : Option Int) : Except String Int :=
  match grossPayoutPerUnit isPut strike price with
  | .error e => .error e
  | .ok gross =>
      match collateralPerUnit isPut strike with
      | .error e => .error e
      | .ok collateral =>
          match
            exerciseFeePerUnit gross collateral
              exerciseFeeBps with
          | .error e => .error e
          | .ok fee =>
              let net := gross - fee
              if isPut then .ok net
              else
                let value := (net * price).tdiv wad
                match conversionFloorBps with
                | none => .ok value
                | some floor =>
                    match conversionFloorRate floor with
                    | .error e => .error e
                    | .ok rate =>
                        .ok ((value * rate).tdiv bps)

----
-- One Write-on-Fill Ask
----

/- Fees that the ticket accepts. -/
structure TakerFeeParams.Valid
    (params : TakerFeeParams) : Prop where
  flat_nonneg : 0 ≤ params.takerFeeFlat
  cap_nonneg : 0 ≤ params.takerFeeCapBps
  cap_le : params.takerFeeCapBps ≤ 1000
  discount_nonneg : 0 ≤ params.discountBps.getD 0
  discount_le : params.discountBps.getD 0 ≤ 5000

theorem takerFee_ok
    {premiumPaid : Int}
    {params : TakerFeeParams}
    (hParams : params.Valid)
    (hPremium : 0 ≤ premiumPaid) :
    ∃ fee, takerFee premiumPaid params = .ok fee := by
  have hFlat := hParams.flat_nonneg
  have hCap := hParams.cap_nonneg
  have hCeil := hParams.cap_le
  have hDiscount := hParams.discount_nonneg
  have hMost := hParams.discount_le
  unfold takerFee
  simp only
  rw [if_neg (by omega), if_neg (by omega),
    if_neg (by omega), if_neg (by omega)]
  exact ⟨_, rfl⟩

theorem premium_ok
    {price units : Int}
    (hPrice : 0 < price)
    (hTick : price.tmod priceTick = 0)
    (hUnits : 0 < units) :
    premium price units =
      .ok ((price * units).tdiv unitsPerShare) := by
  unfold premium
  rw [if_neg (by omega), if_neg (by omega),
    if_neg (by simpa using hTick)]

/- A well-formed write-on-fill ask, with its writer's balance. -/
structure Ask.Write
    (ask : Ask)
    (maker : String)
    (remaining free : Int) : Prop where
  decimal : isDecimal ask.orderId = true
  price_pos : 0 < ask.price
  price_tick : ask.price.tmod priceTick = 0
  units_pos : 0 < ask.units
  kind : ask.kind = some .AskWrite
  maker_eq : ask.maker = some maker
  remaining_eq : ask.onChainRemainingUnits = some remaining
  free_eq : ask.makerFreeCollateral = some free
  remaining_pos : 0 < remaining
  remaining_le : remaining ≤ maxUnits
  free_nonneg : 0 ≤ free

variable {ask : Ask} {maker : String} {remaining free : Int}
variable {terms : RentTerms} {params : TakerFeeParams}

end Callhouse.Web
