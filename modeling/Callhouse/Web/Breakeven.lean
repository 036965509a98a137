import Callhouse.Web.Payoff
import Callhouse.Lib.SearchMax
import Callhouse.Lib.SearchMin

/-
  web/lib/v2/payoff.ts: the payout of a position at a price,
  and the price from which it covers its cost, in kind and
  at the floor of a conversion.  The search for an upper
  bound takes fuel, and is `none` when it runs out.

  Main declarations:
    * `payoutAt`, `breakeven`, `breakevenUsdg`
    * `payoutAt_ok`, `payout_call_mono`, `payout_put_anti`
    * `breakeven_call`, `breakeven_put`, `breakevenUsdg_call`
    * `breakevens_exact`
-/

----
-- Payouts of a Position
----

namespace Callhouse.Web

structure PayoffPosition where
  isPut : Bool
  strike : Int
  units : Int
  exerciseFeeBps : Int
  conversionFloorBps : Option Int
deriving DecidableEq

def validatePosition
    (position : PayoffPosition) : Except String Unit :=
  if position.strike ≤ 0 then
    .error "strike must be positive"
  else if position.units ≤ 0 then
    .error "units must be positive"
  else
    match feeBps position.exerciseFeeBps with
    | .error e => .error e
    | .ok _ =>
        match position.isPut, position.conversionFloorBps with
        | false, some floor =>
            match conversionFloorRate floor with
            | .error e => .error e
            | .ok _ => .ok ()
        | _, _ => .ok ()

/- What the whole position is owed, floored once. -/
def convertedPayout
    (price : Int)
    (position : PayoffPosition)
    (floor : Int) : Except String Int :=
  match
    grossPayoutPerUnit false position.strike price with
  | .error e => .error e
  | .ok gross =>
      match collateralPerUnit false position.strike with
      | .error e => .error e
      | .ok collateral =>
          match
            exerciseFeePerUnit gross collateral
              position.exerciseFeeBps with
          | .error e => .error e
          | .ok fee =>
              let owed := (gross - fee) * position.units
              match conversionFloorRate floor with
              | .error e => .error e
              | .ok rate =>
                  .ok
                    (((owed * price).tdiv wad * rate).tdiv bps)

def payoutAt
    (price : Int)
    (position : PayoffPosition) : Except String Int :=
  match validatePosition position with
  | .error e => .error e
  | .ok _ =>
      match position.isPut, position.conversionFloorBps with
      | false, some floor =>
          convertedPayout price position floor
      | _, _ =>
          match
            netPayoutUsdgPerUnit position.isPut
              position.strike price position.exerciseFeeBps
              none with
          | .error e => .error e
          | .ok net => .ok (net * position.units)

----
-- Break-Even Prices
----

/- The payout at the price covers the cost. -/
def paysCost
    (position : PayoffPosition)
    (cost price : Int) : Except String Bool :=
  match payoutAt price position with
  | .error e => .error e
  | .ok paid => .ok (decide (paid ≥ cost))

/- Double the upper bound from the strike on, then halve. -/
def leastPrice
    (covers : Int → Except String Bool)
    (strike : Int)
    (fuel : Nat) : Option (Except String (Option Int)) :=
  match doubleUntilE covers fuel (strike * 2) with
  | none => none
  | some (.error e) => some (.error e)
  | some (.ok high) =>
      some ((searchMinE covers strike high).map some)

def breakeven
    (position : PayoffPosition)
    (cost : Int)
    (fuel : Nat) : Option (Except String (Option Int)) :=
  match validatePosition position with
  | .error e => some (.error e)
  | .ok _ =>
      if cost < 0 then some (.error "cost must be nonnegative")
      else if cost = 0 then some (.ok (some position.strike))
      else if position.isPut then
        match payoutAt 0 position with
        | .error e => some (.error e)
        | .ok paid =>
            if paid < cost then some (.ok none)
            else
              some
                ((searchMaxE (paysCost position cost) 0
                  position.strike).map some)
      else
        leastPrice (paysCost position cost) position.strike fuel

def maxPayoutSlippageCeilBps : Int := 300

def maxRouteFeeBps : Int := 100

def conversionBps
    (slippageBps routeFeeBps : Int) : Except String Int :=
  if slippageBps < 0 ∨ slippageBps > maxPayoutSlippageCeilBps
  then .error "slippageBps exceeds the contract ceiling"
  else if routeFeeBps < 0 then
    .error "routeFeeBps must be a nonnegative integer"
  else
    let routeFee :=
      if routeFeeBps > maxRouteFeeBps then maxRouteFeeBps
      else routeFeeBps
    let total := slippageBps + routeFee
    .ok
      (if total > maxPayoutSlippageCeilBps then
        maxPayoutSlippageCeilBps
      else total)

structure UsdgBand where
  low : Int
  high : Int
  floorBps : Int
deriving DecidableEq

def usdgPayoutBand
    (valueUsdg slippageBps routeFeeBps : Int) :
    Except String UsdgBand :=
  if valueUsdg < 0 then
    .error "valueUsdg must be nonnegative"
  else
    match conversionBps slippageBps routeFeeBps with
    | .error e => .error e
    | .ok lost =>
        let floorBps := bps - lost
        .ok
          { low := (valueUsdg * floorBps).tdiv bps
            high := valueUsdg
            floorBps := floorBps }

/- The position valued in kind. -/
def PayoffPosition.inKind
    (position : PayoffPosition) : PayoffPosition :=
  { position with conversionFloorBps := none }

/- The low end of the band at the price covers the cost. -/
def bandCovers
    (position : PayoffPosition)
    (cost slippageBps routeFeeBps price : Int) :
    Except String Bool :=
  match payoutAt price position.inKind with
  | .error e => .error e
  | .ok value =>
      match usdgPayoutBand value slippageBps routeFeeBps with
      | .error e => .error e
      | .ok band => .ok (decide (band.low ≥ cost))

def breakevenUsdg
    (position : PayoffPosition)
    (cost slippageBps routeFeeBps : Int)
    (fuel : Nat) : Option (Except String (Option Int)) :=
  match validatePosition position with
  | .error e => some (.error e)
  | .ok _ =>
      if cost < 0 then some (.error "cost must be nonnegative")
      else
        match conversionBps slippageBps routeFeeBps with
        | .error e => some (.error e)
        | .ok _ =>
            if position.isPut then breakeven position cost fuel
            else if cost = 0 then
              some (.ok (some position.strike))
            else
              leastPrice
                (bandCovers position cost slippageBps
                  routeFeeBps) position.strike fuel

----
-- The Payout as a Function of the Price
----

section

/- What the ticket can validate. -/
structure PayoffPosition.Valid
    (position : PayoffPosition) : Prop where
  strike_pos : 0 < position.strike
  units_pos : 0 < position.units
  fee_nonneg : 0 ≤ position.exerciseFeeBps
  fee_le : position.exerciseFeeBps ≤ 200
  floor :
    position.isPut = false →
      ∀ floor, position.conversionFloorBps = some floor →
        9700 ≤ floor ∧ floor ≤ 10000

/- The gross payout less its fee, capped both ways. -/
def netOf
    (collateral rate gross : Int) : Int :=
  gross -
    min ((collateral * rate).tdiv bps)
      ((gross * maxPayoutFeeShareBps).tdiv bps)

def callGross
    (strike price : Int) : Int :=
  if price > strike then
    (unit * (price - strike)).tdiv price
  else 0

def putGross
    (strike price : Int) : Int :=
  if price < strike then
    (strike - price).tdiv unitsPerShare
  else 0

def PayoffPosition.callNet
    (position : PayoffPosition)
    (price : Int) : Int :=
  netOf unit position.exerciseFeeBps
    (callGross position.strike price)

def PayoffPosition.payout
    (position : PayoffPosition)
    (price : Int) : Int :=
  if position.isPut then
    netOf (position.strike.tdiv unitsPerShare)
        position.exerciseFeeBps
        (putGross position.strike price) *
      position.units
  else
    match position.conversionFloorBps with
    | none =>
        (position.callNet price * price).tdiv wad *
          position.units
    | some floor =>
        ((position.callNet price * position.units *
          price).tdiv wad * floor).tdiv bps

variable {position : PayoffPosition} {price : Int}

theorem callGross_nonneg
    (strike : Int)
    (hPrice : 0 ≤ price) :
    0 ≤ callGross strike price := by
  have hUnit : (0 : Int) ≤ unit := by decide
  unfold callGross
  split
  · exact Int.tdiv_nonneg (mul_nonneg hUnit (by omega)) hPrice
  · exact le_refl 0

theorem putGross_nonneg
    (strike price : Int) :
    0 ≤ putGross strike price := by
  unfold putGross
  split
  · exact Int.tdiv_nonneg (by omega) (by decide)
  · exact le_refl 0

variable {strike p q : Int}

/- A call of a higher price is worth more of a share. -/
theorem callGross_mono
    (hStrike : 0 < strike)
    (hpq : p ≤ q) :
    callGross strike p ≤ callGross strike q := by
  have hUnit : (0 : Int) < unit := by decide
  unfold callGross
  by_cases hp : p > strike
  · have hp0 : 0 < p := hStrike.trans hp
    have hq0 : 0 < q := hp0.trans_le hpq
    have hNumP : 0 ≤ unit * (p - strike) :=
      mul_nonneg hUnit.le (by omega)
    have hNumQ : 0 ≤ unit * (q - strike) :=
      mul_nonneg hUnit.le (by omega)
    rw [if_pos hp, if_pos (hp.trans_le hpq),
      TruncDiv.le_tdiv_iff hNumQ hq0]
    have hAtP := TruncDiv.tdiv_mul_le hNumP hp0
    have hMost : (unit * (p - strike)).tdiv p ≤ unit := by
      apply TruncDiv.tdiv_le_of_le_mul hNumP hp0
      exact mul_le_mul_of_nonneg_left (by omega) hUnit.le
    have hMore :=
      mul_le_mul_of_nonneg_right hMost
        (show 0 ≤ q - p by omega)
    calc
      (unit * (p - strike)).tdiv p * q
        = (unit * (p - strike)).tdiv p * p +
            (unit * (p - strike)).tdiv p * (q - p) := by ring
      _ ≤ unit * (p - strike) + unit * (q - p) :=
          add_le_add hAtP hMore
      _ = unit * (q - strike) := by ring
  · rw [if_neg hp]
    split
    · exact
        Int.tdiv_nonneg (mul_nonneg hUnit.le (by omega))
          (by omega)
    · exact le_refl 0

theorem putGross_anti
    (hpq : p ≤ q) :
    putGross strike q ≤ putGross strike p := by
  unfold putGross
  by_cases hq : q < strike
  · rw [if_pos hq, if_pos (hpq.trans_lt hq)]
    exact
      TruncDiv.tdiv_le_tdiv (by omega) (by decide)
        (by omega)
  · rw [if_neg hq]
    exact putGross_nonneg strike p

variable {collateral : Int}

/- The kink where the cap takes over loses nothing either. -/
theorem netOf_mono
    {rate g h : Int}
    (hg : 0 ≤ g)
    (hgh : g ≤ h) :
    netOf collateral rate g ≤ netOf collateral rate h := by
  have hShare :
      g - (g * maxPayoutFeeShareBps).tdiv bps ≤
        h - (h * maxPayoutFeeShareBps).tdiv bps :=
    TruncDiv.sub_tdiv_le_sub_tdiv (by decide) (by decide)
      (by decide) hg hgh
  unfold netOf
  omega

theorem netOf_nonneg
    {rate g : Int}
    (hg : 0 ≤ g) :
    0 ≤ netOf collateral rate g := by
  have hShare : (g * maxPayoutFeeShareBps).tdiv bps ≤ g :=
    TruncDiv.tdiv_le_of_le_mul
      (mul_nonneg hg (by decide)) (by decide)
      (mul_le_mul_of_nonneg_left (by decide) hg)
  unfold netOf
  omega

theorem callNet_nonneg
    (position : PayoffPosition)
    (hPrice : 0 ≤ price) :
    0 ≤ position.callNet price :=
  netOf_nonneg (callGross_nonneg position.strike hPrice)

section

variable (h : position.Valid)
include h

theorem callNet_mono
    (hp : 0 ≤ p)
    (hpq : p ≤ q) :
    position.callNet p ≤ position.callNet q :=
  netOf_mono (callGross_nonneg position.strike hp)
    (callGross_mono h.strike_pos hpq)

/- A call pays no less at a higher price. -/
theorem payout_call_mono
    (hCall : position.isPut = false)
    (hp : 0 ≤ p)
    (hpq : p ≤ q) :
    position.payout p ≤ position.payout q := by
  have hWad : 0 < wad := by decide
  have hBps : 0 < bps := by decide
  have hUnits := h.units_pos.le
  have hNet := callNet_nonneg position hp
  have hMono := callNet_mono h hp hpq
  unfold PayoffPosition.payout
  rw [hCall, if_neg (by decide), if_neg (by decide)]
  cases hFloor : position.conversionFloorBps with
  | none =>
      apply mul_le_mul_of_nonneg_right _ hUnits
      apply TruncDiv.tdiv_le_tdiv (mul_nonneg hNet hp) hWad
      exact mul_le_mul hMono hpq hp (hNet.trans hMono)
  | some floor =>
      have hRate := (h.floor hCall floor hFloor).1
      have hOwed := mul_nonneg hNet hUnits
      have hOwed' :
          position.callNet p * position.units ≤
            position.callNet q * position.units :=
        mul_le_mul_of_nonneg_right hMono hUnits
      have hValue := mul_nonneg hOwed hp
      apply TruncDiv.tdiv_le_tdiv _ hBps
      · apply mul_le_mul_of_nonneg_right _ (by omega)
        exact
          TruncDiv.tdiv_le_tdiv hValue hWad
            (mul_le_mul hOwed' hpq hp
              (hOwed.trans hOwed'))
      · exact
          mul_nonneg (TruncDiv.tdiv_nonneg hValue hWad)
            (by omega)

/- A put pays no more at a higher price. -/
theorem payout_put_anti
    (hPut : position.isPut = true)
    (hpq : p ≤ q) :
    position.payout q ≤ position.payout p := by
  unfold PayoffPosition.payout
  rw [hPut, if_pos rfl, if_pos rfl]
  exact
    mul_le_mul_of_nonneg_right
      (netOf_mono (putGross_nonneg _ q) (putGross_anti hpq))
      h.units_pos.le

theorem validatePosition_ok :
    validatePosition position = .ok () := by
  have hFee : feeBps position.exerciseFeeBps =
      .ok position.exerciseFeeBps := by
    have hLow := h.fee_nonneg
    have hHigh := h.fee_le
    have hCeil : maxExerciseFeeBps = 200 := rfl
    unfold feeBps
    rw [if_neg (by omega)]
  unfold validatePosition
  rw [if_neg (not_le.mpr h.strike_pos),
    if_neg (not_le.mpr h.units_pos), hFee]
  simp only
  split
  · next hCall hFloor =>
      have hRate := h.floor hCall _ hFloor
      unfold conversionFloorRate
      rw [if_neg (by omega)]
  · rfl

end

theorem exerciseFeePerUnit_eq
    {gross rate : Int}
    (hGross : 0 ≤ gross)
    (hCollateral : 0 ≤ collateral)
    (hRate : 0 ≤ rate)
    (hMost : rate ≤ 200) :
    exerciseFeePerUnit gross collateral rate =
      .ok
        (min ((collateral * rate).tdiv bps)
          ((gross * maxPayoutFeeShareBps).tdiv bps)) := by
  have hCeil : maxExerciseFeeBps = 200 := rfl
  have hByCollateral : 0 ≤ (collateral * rate).tdiv bps :=
    TruncDiv.tdiv_nonneg (mul_nonneg hCollateral hRate)
      (by decide)
  unfold exerciseFeePerUnit feeBps
  rw [if_neg (not_lt.mpr hGross),
    if_neg (not_lt.mpr hCollateral), if_neg (by omega)]
  simp only
  by_cases hZero : gross = 0
  · rw [if_pos hZero, hZero, zero_mul, Int.zero_tdiv,
      min_eq_right hByCollateral]
  · rw [if_neg hZero]
    congr 1
    omega

theorem grossPayoutPerUnit_eq
    (hStrike : 0 < strike)
    (hPrice : 0 ≤ price)
    (isPut : Bool) :
    grossPayoutPerUnit isPut strike price =
      .ok
        (if isPut then putGross strike price
        else callGross strike price) := by
  unfold grossPayoutPerUnit putGross callGross
  rw [if_neg (not_le.mpr hStrike), if_neg (not_lt.mpr hPrice)]
  cases isPut with
  | true => rfl
  | false => rfl

/- On a valid position every real price has a payout. -/
theorem payoutAt_ok
    (h : position.Valid)
    (hPrice : 0 ≤ price) :
    payoutAt price position = .ok (position.payout price) := by
  have hStrike := h.strike_pos
  have hCallGross := grossPayoutPerUnit_eq hStrike hPrice false
  have hPutGross := grossPayoutPerUnit_eq hStrike hPrice true
  rw [if_neg (by decide)] at hCallGross
  rw [if_pos rfl] at hPutGross
  have hCallFee :=
    exerciseFeePerUnit_eq
      (callGross_nonneg position.strike hPrice)
      (show (0 : Int) ≤ unit by decide) h.fee_nonneg h.fee_le
  have hPutCollateral : 0 ≤ position.strike.tdiv unitsPerShare :=
    TruncDiv.tdiv_nonneg hStrike.le (by decide)
  have hPutFee :=
    exerciseFeePerUnit_eq
      (putGross_nonneg position.strike price) hPutCollateral
      h.fee_nonneg h.fee_le
  unfold payoutAt
  rw [validatePosition_ok h]
  simp only
  cases hPut : position.isPut with
  | true =>
      unfold PayoffPosition.payout netPayoutUsdgPerUnit
        collateralPerUnit
      rw [hPut, hPutGross, if_neg (not_le.mpr hStrike)]
      simp only [if_true]
      rw [hPutFee]
      rfl
  | false =>
      unfold PayoffPosition.payout
      rw [hPut, if_neg (by decide)]
      cases hFloor : position.conversionFloorBps with
      | none =>
          unfold netPayoutUsdgPerUnit collateralPerUnit
          rw [hCallGross, if_neg (not_le.mpr hStrike)]
          simp only [Bool.false_eq_true, if_false]
          rw [hCallFee]
          rfl
      | some floor =>
          have hRate := h.floor hPut floor hFloor
          unfold convertedPayout collateralPerUnit
            conversionFloorRate
          rw [hCallGross, if_neg (not_le.mpr hStrike)]
          simp only [Bool.false_eq_true, if_false]
          rw [hCallFee]
          simp only
          rw [if_neg (by omega)]
          rfl

theorem payoutAt_error
    (h : position.Valid)
    (hPrice : price < 0) :
    ∃ e, payoutAt price position = .error e := by
  have hGross :
      ∀ isPut,
        grossPayoutPerUnit isPut position.strike price =
          .error "price must be nonnegative" := by
    intro isPut
    unfold grossPayoutPerUnit
    rw [if_neg (not_le.mpr h.strike_pos), if_pos hPrice]
  unfold payoutAt
  rw [validatePosition_ok h]
  simp only
  split
  · unfold convertedPayout
    rw [hGross]
    exact ⟨_, rfl⟩
  · unfold netPayoutUsdgPerUnit
    rw [hGross]
    exact ⟨_, rfl⟩

end

----
-- Prices That Cover a Cost
----

section

variable {position : PayoffPosition} {cost : Int}

/- The payout at the price is at least the cost. -/
def Covers
    (position : PayoffPosition)
    (cost price : Int) : Prop :=
  ∃ paid, payoutAt price position = .ok paid ∧ cost ≤ paid

/- So is what its conversion delivers at the least. -/
def BandCovers
    (position : PayoffPosition)
    (cost slippageBps routeFeeBps price : Int) : Prop :=
  ∃ value band,
    payoutAt price position.inKind = .ok value ∧
      usdgPayoutBand value slippageBps routeFeeBps =
        .ok band ∧
      cost ≤ band.low

theorem covers_iff
    (h : position.Valid)
    (cost price : Int) :
    Covers position cost price ↔
      0 ≤ price ∧ cost ≤ position.payout price := by
  unfold Covers
  rcases le_or_gt 0 price with hPrice | hNeg
  · rw [payoutAt_ok h hPrice]
    constructor
    · rintro ⟨paid, hPaid, hCovers⟩
      cases hPaid
      exact ⟨hPrice, hCovers⟩
    · rintro ⟨_, hCovers⟩
      exact ⟨_, rfl, hCovers⟩
  · rcases payoutAt_error h hNeg with ⟨e, hError⟩
    rw [hError]
    constructor
    · rintro ⟨paid, hPaid, _⟩
      cases hPaid
    · rintro ⟨hPrice, _⟩
      omega

variable {price : Int}

theorem paysCost_eq
    (h : position.Valid)
    (cost : Int)
    (hPrice : 0 ≤ price) :
    paysCost position cost price =
      .ok (decide (cost ≤ position.payout price)) := by
  unfold paysCost
  rw [payoutAt_ok h hPrice]

theorem netOf_zero
    {collateral rate : Int}
    (hCollateral : 0 ≤ collateral)
    (hRate : 0 ≤ rate) :
    netOf collateral rate 0 = 0 := by
  have hCap : 0 ≤ (collateral * rate).tdiv bps :=
    TruncDiv.tdiv_nonneg (mul_nonneg hCollateral hRate)
      (by decide)
  unfold netOf
  rw [zero_mul, Int.zero_tdiv]
  omega

section

variable (h : position.Valid)
include h

/- A call pays nothing up to its strike. -/
theorem payout_call_below
    (hCall : position.isPut = false)
    (hPrice : price ≤ position.strike) :
    position.payout price = 0 := by
  have hNet : position.callNet price = 0 := by
    unfold PayoffPosition.callNet callGross
    rw [if_neg (not_lt.mpr hPrice)]
    exact netOf_zero (by decide) h.fee_nonneg
  unfold PayoffPosition.payout
  rw [hCall, if_neg (by decide), hNet]
  split <;> simp

/- A put pays nothing from its strike on. -/
theorem payout_put_above
    (hPut : position.isPut = true)
    (hPrice : position.strike ≤ price) :
    position.payout price = 0 := by
  have hGross : putGross position.strike price = 0 := by
    unfold putGross
    rw [if_neg (not_lt.mpr hPrice)]
  have hCollateral : 0 ≤ position.strike.tdiv unitsPerShare :=
    TruncDiv.tdiv_nonneg h.strike_pos.le (by decide)
  unfold PayoffPosition.payout
  rw [hPut, if_pos rfl, hGross,
    netOf_zero hCollateral h.fee_nonneg, zero_mul]

/- From twice the strike on, a call keeps most of a share. -/
theorem callNet_ge
    (hPrice : position.strike * 2 ≤ price) :
    4500000000000000 ≤ position.callNet price := by
  have hStrike := h.strike_pos
  have hUnit : unit = 10000000000000000 := rfl
  have hShare : maxPayoutFeeShareBps = 1000 := rfl
  have hBps : bps = 10000 := rfl
  have hPos : 0 < price := by omega
  have hGross :
      5000000000000000 ≤ callGross position.strike price := by
    unfold callGross
    rw [if_pos (by omega),
      TruncDiv.le_tdiv_iff
        (mul_nonneg (by decide) (by omega)) hPos, hUnit]
    omega
  have hFee :=
    TruncDiv.tdiv_mul_le
      (mul_nonneg
        ((show (0 : Int) ≤ 5000000000000000 by decide).trans
          hGross)
        (show (0 : Int) ≤ maxPayoutFeeShareBps by decide))
      (show 0 < bps by decide)
  rw [hShare, hBps] at hFee
  unfold PayoffPosition.callNet netOf
  rw [hShare, hBps]
  omega

/- The value of a call in kind grows without bound. -/
theorem two_mul_le_value
    (hCost : 0 < cost)
    (hStrike : position.strike * 2 ≤ price)
    (hPrice : cost * 1000 ≤ price)
    {units : Int}
    (hUnits : 1 ≤ units) :
    cost * 2 ≤
      (position.callNet price * units * price).tdiv wad := by
  have hNet := callNet_ge h hStrike
  have hWad : wad = 1000000000000000000 := rfl
  have hPos : 0 < price := by omega
  have hOwed :
      4500000000000000 ≤ position.callNet price * units := by
    calc
      (4500000000000000 : Int)
        ≤ position.callNet price * 1 := by omega
      _ ≤ position.callNet price * units :=
          mul_le_mul_of_nonneg_left hUnits (by omega)
  have hValue := mul_le_mul_of_nonneg_right hOwed hPos.le
  rw [TruncDiv.le_tdiv_iff
    (mul_nonneg (by omega) hPos.le) (by decide), hWad]
  omega

end

theorem le_tdiv_bps
    {value rate : Int}
    (hValue : cost * 2 ≤ value)
    (hCost : 0 < cost)
    (hRate : 9700 ≤ rate) :
    cost ≤ (value * rate).tdiv bps := by
  have hBps : bps = 10000 := rfl
  have hMore :=
    mul_le_mul_of_nonneg_left hRate
      (show 0 ≤ value by omega)
  rw [TruncDiv.le_tdiv_iff
    (mul_nonneg (by omega) (by omega)) (by decide), hBps]
  omega

/- So the doubling ends. -/
theorem payout_call_covers
    (h : position.Valid)
    (hCall : position.isPut = false)
    (hCost : 0 < cost)
    (hStrike : position.strike * 2 ≤ price)
    (hPrice : cost * 1000 ≤ price) :
    cost ≤ position.payout price := by
  have hUnits := h.units_pos
  unfold PayoffPosition.payout
  rw [hCall, if_neg (by decide)]
  cases hFloor : position.conversionFloorBps with
  | none =>
      have hValue :=
        two_mul_le_value h hCost hStrike hPrice (le_refl 1)
      rw [mul_one] at hValue
      simp only
      calc
        cost ≤ (position.callNet price * price).tdiv wad * 1 := by
            omega
        _ ≤ (position.callNet price * price).tdiv wad *
              position.units :=
            mul_le_mul_of_nonneg_left hUnits (by omega)
  | some floor =>
      have hValue :=
        two_mul_le_value h hCost hStrike hPrice hUnits
      exact
        le_tdiv_bps hValue hCost (h.floor hCall floor hFloor).1

end

----
-- The Searches End on Exact Prices
----

section

open SearchMax SearchMin

variable {position : PayoffPosition} {cost : Int}
variable {coversE : Int → Except String Bool}

/-
  A test that rejects up to the strike, is inherited upwards
  and accepts from `bound` on has a least accepted price.
-/
theorem leastPrice_spec
    {covers : Int → Bool}
    {strike : Int}
    (hStrike : 0 < strike)
    (hOk : ∀ n, 0 < n → coversE n = .ok (covers n))
    (hUp :
      ∀ m n, m ≤ n → covers m = true → covers n = true)
    (hBelow : ∀ n, n < strike → covers n = false)
    {bound : Int}
    (hBound : ∀ n, bound ≤ n → covers n = true) :
    ∃ price,
      EndsWith (leastPrice coversE strike)
          (.ok (some price)) ∧
        IsLeast {n | covers n = true} price := by
  have hDouble :=
    fun (fuel : Nat) (hFuel : bound ≤ strike * 2 + fuel) =>
      doubleUntilE_spec hOk hBound
        (show 0 < strike * 2 by omega) hFuel
  have hRun :
      ∀ fuel, bound.toNat < fuel →
        ∃ price,
          leastPrice coversE strike fuel =
              some (.ok (some price)) ∧
            IsLeast {n | covers n = true} price := by
    intro fuel hFuel
    cases fuel with
    | zero => omega
    | succ fuel =>
        rcases hDouble fuel (by omega) with
          ⟨top, hTop, hLe, hAccepted⟩
        have hSearch :=
          searchMinE_eq_ok coversE covers strike top
            (fun n hn _ => hOk n (by omega))
        refine ⟨searchMin covers strike top, ?_, ?_⟩
        · unfold leastPrice
          rw [hTop]
          simp only
          rw [hSearch]
          rfl
        · rcases searchMin_isLeast covers hUp strike top
              hAccepted (by omega) with ⟨hMem, hLower⟩
          refine ⟨hMem.2, ?_⟩
          intro n hn
          refine hLower ⟨?_, hn⟩
          by_contra hLess
          have hNo := hBelow n (not_le.mp hLess)
          have hYes : covers n = true := hn
          rw [hNo] at hYes
          cases hYes
  rcases hRun (bound.toNat + 1) (by omega) with
    ⟨price, _, hLeast⟩
  refine ⟨price, ⟨bound.toNat + 1, ?_⟩, hLeast⟩
  intro fuel hFuel
  rcases hRun fuel (by omega) with ⟨price', hPrice, hLeast'⟩
  rw [hPrice, hLeast'.unique hLeast]

/- The test of a payout that grows from zero at the strike. -/
theorem leastPrice_of_payout
    {pay : Int → Int}
    {strike : Int}
    (hStrike : 0 < strike)
    (hCost : 0 < cost)
    (hOk :
      ∀ n, 0 ≤ n → coversE n = .ok (decide (cost ≤ pay n)))
    (hMono : ∀ m n, 0 ≤ m → m ≤ n → pay m ≤ pay n)
    (hBelow : ∀ n, n ≤ strike → pay n = 0)
    (hGrows :
      ∀ n, strike * 2 ≤ n → cost * 1000 ≤ n → cost ≤ pay n) :
    ∃ price,
      EndsWith (leastPrice coversE strike)
          (.ok (some price)) ∧
        IsLeast {p | 0 ≤ p ∧ cost ≤ pay p} price := by
  let covers : Int → Bool := fun p =>
    decide (0 ≤ p ∧ cost ≤ pay p)
  have hTest : ∀ n, 0 < n → coversE n = .ok (covers n) := by
    intro n hn
    rw [hOk n hn.le]
    simp [covers, hn.le]
  have hUp :
      ∀ m n, m ≤ n → covers m = true → covers n = true := by
    intro m n hmn hm
    rcases of_decide_eq_true hm with ⟨hNonneg, hPays⟩
    exact
      decide_eq_true
        ⟨hNonneg.trans hmn,
          hPays.trans (hMono m n hNonneg hmn)⟩
  have hReject : ∀ n, n < strike → covers n = false := by
    intro n hn
    apply decide_eq_false
    rintro ⟨_, hPays⟩
    rw [hBelow n hn.le] at hPays
    omega
  have hBound :
      ∀ n, max (strike * 2) (cost * 1000) ≤ n →
        covers n = true := by
    intro n hn
    have hTwice : strike * 2 ≤ n := (le_max_left _ _).trans hn
    have hPays := hGrows n hTwice ((le_max_right _ _).trans hn)
    exact decide_eq_true ⟨by omega, hPays⟩
  have hSet :
      {p | 0 ≤ p ∧ cost ≤ pay p} = {p | covers p = true} := by
    ext p
    exact decide_eq_true_iff.symm
  rw [hSet]
  exact leastPrice_spec hStrike hTest hUp hReject hBound

/- A call: the least price whose payout covers the cost. -/
theorem breakeven_call
    (h : position.Valid)
    (hCall : position.isPut = false)
    (hCost : 0 < cost) :
    ∃ price,
      EndsWith (breakeven position cost) (.ok (some price)) ∧
        IsLeast {p | Covers position cost p} price := by
  have hSet :
      {p | Covers position cost p} =
        {p | 0 ≤ p ∧ cost ≤ position.payout p} := by
    ext p
    exact covers_iff h cost p
  have hRun :
      breakeven position cost =
        leastPrice (paysCost position cost)
          position.strike := by
    funext fuel
    unfold breakeven
    rw [validatePosition_ok h]
    simp only
    rw [if_neg (by omega), if_neg (by omega), hCall,
      if_neg (by decide)]
  rw [hSet, hRun]
  exact
    leastPrice_of_payout h.strike_pos hCost
      (fun n hn => paysCost_eq h cost hn)
      (fun _ _ => payout_call_mono h hCall)
      (fun _ => payout_call_below h hCall)
      (fun _ => payout_call_covers h hCall hCost)

/- A put: the greatest price, or none when 0 does not cover. -/
theorem breakeven_put
    (h : position.Valid)
    (hPut : position.isPut = true)
    (hCost : 0 < cost) :
    ∃ result,
      EndsWith (breakeven position cost) (.ok result) ∧
        (∀ price, result = some price →
          IsGreatest {p | Covers position cost p} price) ∧
        (result = none ↔ ¬ Covers position cost 0) ∧
        (result = none → ∀ p, ¬ Covers position cost p) := by
  have hRun :
      ∀ fuel,
        breakeven position cost fuel =
          if position.payout 0 < cost then some (.ok none)
          else
            some
              ((searchMaxE (paysCost position cost) 0
                position.strike).map some) := by
    intro fuel
    unfold breakeven
    rw [validatePosition_ok h]
    simp only
    rw [if_neg (by omega), if_neg (by omega), hPut,
      if_pos rfl, payoutAt_ok h (le_refl 0)]
  have hEnds :
      ∀ r, breakeven position cost 0 = some r →
        EndsWith (breakeven position cost) r := by
    intro r hr
    refine ⟨0, ?_⟩
    intro fuel _
    rw [hRun, ← hRun 0]
    exact hr
  rcases lt_or_ge (position.payout 0) cost with hNone | hSome
  · have hNo : ∀ p, ¬ Covers position cost p := by
      intro p hp
      rcases (covers_iff h cost p).mp hp with
        ⟨hNonneg, hCovers⟩
      have hLess := payout_put_anti h hPut hNonneg
      omega
    refine ⟨none, hEnds _ ?_, ?_, ?_, ?_⟩
    · rw [hRun, if_pos hNone]
    · intro price hPrice
      cases hPrice
    · exact ⟨fun _ => hNo 0, fun _ => rfl⟩
    · exact fun _ => hNo
  · rcases
        searchMaxE_zero
          (paysCost position cost)
          (fun p => cost ≤ position.payout p)
          h.strike_pos.le
          (fun n hn _ =>
            ⟨_, paysCost_eq h cost hn.le, decide_eq_true_iff⟩)
          (fun _ _ _ hmn _ hn =>
            hn.trans (payout_put_anti h hPut hmn)) with
      ⟨top, hSearch, hTop, _, hTopPays, hGreatest⟩
    refine ⟨some top, hEnds _ ?_, ?_, ?_, ?_⟩
    · rw [hRun, if_neg (not_lt.mpr hSome), hSearch]
      rfl
    · intro price hPrice
      cases hPrice
      refine ⟨?_, ?_⟩
      · apply (covers_iff h cost _).mpr
        refine ⟨hTop, ?_⟩
        rcases hTop.lt_or_eq with hPos | hZero
        · exact hTopPays hPos
        · rw [← hZero]
          exact hSome
      · intro p hp
        rcases (covers_iff h cost p).mp hp with
          ⟨hNonneg, hPays⟩
        rcases hNonneg.lt_or_eq with hPos | hZero
        · refine hGreatest p hPos ?_ hPays
          by_contra hAbove
          rw [payout_put_above h hPut (not_le.mp hAbove).le]
            at hPays
          omega
        · rw [← hZero]
          exact hTop
    · constructor
      · intro hNone
        cases hNone
      · intro hNone
        exact
          absurd ((covers_iff h cost 0).mpr ⟨le_refl 0, hSome⟩)
            hNone
    · intro hNone
      cases hNone

end

----
-- The Break-Even of a Conversion
----

section

open SearchMin

variable {position : PayoffPosition} {cost : Int}
variable {slippageBps routeFeeBps : Int}

/- Rates that a conversion is quoted at. -/
structure ConversionRates
    (slippageBps routeFeeBps : Int) : Prop where
  slippage_nonneg : 0 ≤ slippageBps
  slippage_le : slippageBps ≤ maxPayoutSlippageCeilBps
  routeFee_nonneg : 0 ≤ routeFeeBps

/- What a conversion keeps at the least. -/
def keptBps
    (slippageBps routeFeeBps : Int) : Int :=
  bps -
    min maxPayoutSlippageCeilBps
      (slippageBps + min maxRouteFeeBps routeFeeBps)

section

variable (h : ConversionRates slippageBps routeFeeBps)
include h

theorem keptBps_bounds :
    9700 ≤ keptBps slippageBps routeFeeBps ∧
      keptBps slippageBps routeFeeBps ≤ bps := by
  have hSlippage := h.slippage_nonneg
  have hRoute := h.routeFee_nonneg
  have hCeil : maxPayoutSlippageCeilBps = 300 := rfl
  have hFee : maxRouteFeeBps = 100 := rfl
  have hBps : bps = 10000 := rfl
  unfold keptBps
  omega

theorem conversionBps_ok :
    conversionBps slippageBps routeFeeBps =
      .ok (bps - keptBps slippageBps routeFeeBps) := by
  have hSlippage := h.slippage_nonneg
  have hMost := h.slippage_le
  have hRoute := h.routeFee_nonneg
  unfold conversionBps keptBps
  rw [if_neg (by omega), if_neg (by omega), sub_sub_cancel]
  simp only
  rcases le_or_gt routeFeeBps maxRouteFeeBps with hLe | hGt
  · rw [if_neg (not_lt.mpr hLe), min_eq_right hLe]
    congr 1
    omega
  · rw [if_pos hGt, min_eq_left hGt.le]
    congr 1
    omega

theorem usdgPayoutBand_ok
    {value : Int}
    (hValue : 0 ≤ value) :
    ∃ band,
      usdgPayoutBand value slippageBps routeFeeBps =
          .ok band ∧
        band.low =
          (value * keptBps slippageBps routeFeeBps).tdiv
            bps := by
  unfold usdgPayoutBand
  rw [if_neg (not_lt.mpr hValue), conversionBps_ok h]
  refine ⟨_, rfl, ?_⟩
  simp only
  rw [sub_sub_cancel]

end

theorem PayoffPosition.Valid.inKind
    (h : position.Valid) :
    position.inKind.Valid where
  strike_pos := h.strike_pos
  units_pos := h.units_pos
  fee_nonneg := h.fee_nonneg
  fee_le := h.fee_le
  floor := by
    intro _ floor hFloor
    cases hFloor

variable {price : Int}

theorem payout_nonneg
    (h : position.Valid)
    (hPrice : 0 ≤ price) :
    0 ≤ position.payout price := by
  cases hPut : position.isPut with
  | true =>
      have hMore : price ≤ max price position.strike :=
        le_max_left _ _
      have hLess := payout_put_anti h hPut hMore
      rw [payout_put_above h hPut (le_max_right _ _)] at hLess
      exact hLess
  | false =>
      have hMore := payout_call_mono h hPut (le_refl 0) hPrice
      rw [payout_call_below h hPut h.strike_pos.le] at hMore
      exact hMore

/- What the conversion of the payout delivers at the least. -/
def PayoffPosition.bandLow
    (position : PayoffPosition)
    (slippageBps routeFeeBps price : Int) : Int :=
  (position.inKind.payout price *
    keptBps slippageBps routeFeeBps).tdiv bps

section

variable (h : position.Valid)
include h

theorem bandCovers_eq
    (hRates : ConversionRates slippageBps routeFeeBps)
    (cost : Int)
    (hPrice : 0 ≤ price) :
    bandCovers position cost slippageBps routeFeeBps price =
      .ok
        (decide
          (cost ≤
            position.bandLow slippageBps routeFeeBps
              price)) := by
  rcases usdgPayoutBand_ok hRates
      (payout_nonneg h.inKind hPrice) with ⟨band, hBand, hLow⟩
  unfold bandCovers
  rw [payoutAt_ok h.inKind hPrice]
  simp only
  rw [hBand]
  simp only [hLow]
  rfl

theorem bandCovers_iff
    (hRates : ConversionRates slippageBps routeFeeBps)
    (cost price : Int) :
    BandCovers position cost slippageBps routeFeeBps price ↔
      0 ≤ price ∧
        cost ≤
          position.bandLow slippageBps routeFeeBps price := by
  unfold BandCovers
  rcases le_or_gt 0 price with hPrice | hNeg
  · rcases usdgPayoutBand_ok hRates
        (payout_nonneg h.inKind hPrice) with
      ⟨band, hBand, hLow⟩
    rw [payoutAt_ok h.inKind hPrice]
    constructor
    · rintro ⟨value, band', hValue, hBand', hCovers⟩
      cases hValue
      rw [hBand] at hBand'
      cases hBand'
      rw [hLow] at hCovers
      exact ⟨hPrice, hCovers⟩
    · rintro ⟨_, hCovers⟩
      refine ⟨_, band, rfl, hBand, ?_⟩
      rw [hLow]
      exact hCovers
  · rcases payoutAt_error h.inKind hNeg with ⟨e, hError⟩
    rw [hError]
    constructor
    · rintro ⟨value, _, hValue, _⟩
      cases hValue
    · rintro ⟨hPrice, _⟩
      omega

/- A call: the least price whose converted payout covers it. -/
theorem breakevenUsdg_call
    (hCall : position.isPut = false)
    (hCost : 0 < cost)
    (hRates : ConversionRates slippageBps routeFeeBps) :
    ∃ price,
      EndsWith
          (breakevenUsdg position cost slippageBps routeFeeBps)
          (.ok (some price)) ∧
        IsLeast
          {p | BandCovers position cost slippageBps
            routeFeeBps p} price := by
  have hKept := keptBps_bounds hRates
  have hCallKind : position.inKind.isPut = false := hCall
  have hSet :
      {p | BandCovers position cost slippageBps
          routeFeeBps p} =
        {p | 0 ≤ p ∧
          cost ≤
            position.bandLow slippageBps routeFeeBps p} := by
    ext p
    exact bandCovers_iff h hRates cost p
  have hRun :
      breakevenUsdg position cost slippageBps routeFeeBps =
        leastPrice
          (bandCovers position cost slippageBps routeFeeBps)
          position.strike := by
    funext fuel
    unfold breakevenUsdg
    rw [validatePosition_ok h, conversionBps_ok hRates]
    simp only
    rw [if_neg (by omega), hCall, if_neg (by decide),
      if_neg (by omega)]
  rw [hSet, hRun]
  apply leastPrice_of_payout h.strike_pos hCost
    (fun n hn => bandCovers_eq h hRates cost hn)
  · intro m n hm hmn
    have hPaid := payout_nonneg h.inKind hm
    have hMore := payout_call_mono h.inKind hCallKind hm hmn
    exact
      TruncDiv.tdiv_le_tdiv (mul_nonneg hPaid (by omega))
        (by decide)
        (mul_le_mul_of_nonneg_right hMore (by omega))
  · intro n hn
    unfold PayoffPosition.bandLow
    rw [payout_call_below h.inKind hCallKind hn, zero_mul,
      Int.zero_tdiv]
  · intro n hStrike hPrice
    have hUnits := h.units_pos
    have hValue :=
      two_mul_le_value h hCost hStrike hPrice (le_refl 1)
    rw [mul_one] at hValue
    have hPaid : cost * 2 ≤ position.inKind.payout n := by
      unfold PayoffPosition.payout
      rw [hCallKind, if_neg (by decide)]
      calc
        cost * 2
          ≤ (position.callNet n * n).tdiv wad * 1 := by omega
        _ ≤ (position.callNet n * n).tdiv wad *
              position.units :=
            mul_le_mul_of_nonneg_left hUnits (by omega)
    exact le_tdiv_bps hPaid hCost hKept.1

/- Converted at no better a rate, a call covers no sooner. -/
theorem covers_of_bandCovers
    (hCall : position.isPut = false)
    (hRates : ConversionRates slippageBps routeFeeBps)
    (hFloor :
      ∀ floor, position.conversionFloorBps = some floor →
        keptBps slippageBps routeFeeBps ≤ floor)
    (hBand :
      BandCovers position cost slippageBps routeFeeBps
        price) :
    Covers position cost price := by
  rw [bandCovers_iff h hRates] at hBand
  rw [covers_iff h]
  rcases hBand with ⟨hPrice, hLow⟩
  refine ⟨hPrice, hLow.trans ?_⟩
  have hKept := keptBps_bounds hRates
  have hWad : 0 < wad := by decide
  have hBps : 0 < bps := by decide
  have hUnits := h.units_pos.le
  have hNet := callNet_nonneg position hPrice
  have hValue : 0 ≤ (position.callNet price * price).tdiv wad :=
    TruncDiv.tdiv_nonneg (mul_nonneg hNet hPrice) hWad
  have hPaid := mul_nonneg hValue hUnits
  have hKind :
      position.inKind.payout price =
        (position.callNet price * price).tdiv wad *
          position.units := by
    unfold PayoffPosition.payout
    rw [show position.inKind.isPut = false from hCall,
      if_neg (by decide)]
    rfl
  unfold PayoffPosition.bandLow
  rw [hKind]
  unfold PayoffPosition.payout
  rw [hCall, if_neg (by decide)]
  cases hCase : position.conversionFloorBps with
  | none =>
      exact
        TruncDiv.tdiv_le_of_le_mul
          (mul_nonneg hPaid (by omega)) hBps
          (mul_le_mul_of_nonneg_left hKept.2 hPaid)
  | some floor =>
      have hRate := hFloor floor hCase
      -- the whole owed, floored once, is no less
      have hWhole :
          (position.callNet price * price).tdiv wad *
              position.units ≤
            (position.callNet price * position.units *
              price).tdiv wad := by
        have hUnit :=
          TruncDiv.tdiv_mul_le (mul_nonneg hNet hPrice) hWad
        rw [TruncDiv.le_tdiv_iff
          (mul_nonneg (mul_nonneg hNet hUnits) hPrice) hWad]
        calc
          (position.callNet price * price).tdiv wad *
                position.units * wad
            = (position.callNet price * price).tdiv wad *
                wad * position.units := by ring
          _ ≤ position.callNet price * price *
                position.units :=
              mul_le_mul_of_nonneg_right hUnit hUnits
          _ = position.callNet price * position.units *
                price := by ring
      apply TruncDiv.tdiv_le_tdiv
        (mul_nonneg hPaid (by omega)) hBps
      exact
        mul_le_mul hWhole hRate (by omega)
          (hPaid.trans hWhole)

end

end

----
-- The Break-Evens Shown
----

variable {position : PayoffPosition} {cost : Int}
variable {slippageBps routeFeeBps : Int}

section

variable (h : position.Valid)
include h

theorem payoutAt_mono
    {p q : Int}
    (hp : 0 ≤ p)
    (hpq : p ≤ q) :
    ∃ a b,
      payoutAt p position = .ok a ∧
        payoutAt q position = .ok b ∧
        (position.isPut = false → a ≤ b) ∧
        (position.isPut = true → b ≤ a) := by
  refine
    ⟨_, _, payoutAt_ok h hp, payoutAt_ok h (hp.trans hpq),
      ?_, ?_⟩
  · intro hCall
    exact payout_call_mono h hCall hp hpq
  · intro hPut
    exact payout_put_anti h hPut hpq

/- A put is paid in USDG: nothing is converted. -/
theorem breakevenUsdg_put
    (hPut : position.isPut = true)
    (hCost : 0 < cost)
    (hRates : ConversionRates slippageBps routeFeeBps) :
    breakevenUsdg position cost slippageBps routeFeeBps =
      breakeven position cost := by
  funext fuel
  unfold breakevenUsdg
  rw [validatePosition_ok h, conversionBps_ok hRates]
  simp only
  rw [if_neg (by omega), hPut, if_pos rfl]

/- No price converts at a cost that it does not cover. -/
theorem breakeven_le_breakevenUsdg
    (hCall : position.isPut = false)
    (hCost : 0 < cost)
    (hRates : ConversionRates slippageBps routeFeeBps)
    (hFloor :
      ∀ floor, position.conversionFloorBps = some floor →
        keptBps slippageBps routeFeeBps ≤ floor)
    {own price : Int}
    (hOwn :
      EndsWith (breakeven position cost) (.ok (some own)))
    (hPrice :
      BandCovers position cost slippageBps routeFeeBps
        price) :
    own ≤ price := by
  rcases breakeven_call h hCall hCost with
    ⟨least, hEnds, hLeast⟩
  have hSame := hOwn.unique hEnds
  cases hSame
  exact
    hLeast.2 (covers_of_bandCovers h hCall hRates hFloor hPrice)

/- Converted at the floor, a call in kind covers no sooner. -/
theorem breakeven_inKind_le_breakevenUsdg
    (hCall : position.isPut = false)
    (hCost : 0 < cost)
    (hRates : ConversionRates slippageBps routeFeeBps)
    {own price : Int}
    (hOwn :
      EndsWith (breakeven position.inKind cost)
        (.ok (some own)))
    (hPrice :
      BandCovers position cost slippageBps routeFeeBps
        price) :
    own ≤ price := by
  apply
    breakeven_le_breakevenUsdg h.inKind hCall hCost hRates _
      hOwn hPrice
  intro floor hFloor
  cases hFloor

end

/-
  The break-even shown is exact and its search ends.  The
  converted one is never below the one in kind; it may be
  below that of a position already valued at a lower floor.
-/
theorem breakevens_exact
    (h : position.Valid)
    (hCost : 0 < cost)
    (hRates : ConversionRates slippageBps routeFeeBps) :
    (∀ p q, 0 ≤ p → p ≤ q →
      ∃ a b,
        payoutAt p position = .ok a ∧
          payoutAt q position = .ok b ∧
          (position.isPut = false → a ≤ b) ∧
          (position.isPut = true → b ≤ a)) ∧
      (position.isPut = false →
        (∃ price,
          EndsWith (breakeven position cost)
              (.ok (some price)) ∧
            IsLeast {p | Covers position cost p} price) ∧
          ∃ price,
            EndsWith
                (breakevenUsdg position cost slippageBps
                  routeFeeBps) (.ok (some price)) ∧
              IsLeast
                {p | BandCovers position cost slippageBps
                  routeFeeBps p} price ∧
              (∀ own,
                EndsWith (breakeven position.inKind cost)
                    (.ok (some own)) →
                  own ≤ price) ∧
              ((∀ floor,
                position.conversionFloorBps = some floor →
                  keptBps slippageBps routeFeeBps ≤ floor) →
                ∀ own,
                  EndsWith (breakeven position cost)
                      (.ok (some own)) →
                    own ≤ price)) ∧
      (position.isPut = true →
        (∃ result,
          EndsWith (breakeven position cost) (.ok result) ∧
            (∀ price, result = some price →
              IsGreatest {p | Covers position cost p}
                price) ∧
            (result = none ↔ ¬ Covers position cost 0) ∧
            (result = none →
              ∀ p, ¬ Covers position cost p)) ∧
          breakevenUsdg position cost slippageBps
              routeFeeBps =
            breakeven position cost) := by
  refine ⟨?_, ?_, ?_⟩
  · intro p q hp hpq
    exact payoutAt_mono h hp hpq
  · intro hCall
    refine ⟨breakeven_call h hCall hCost, ?_⟩
    rcases breakevenUsdg_call h hCall hCost hRates with
      ⟨price, hEnds, hLeast⟩
    refine ⟨price, hEnds, hLeast, ?_, ?_⟩
    · intro own hOwn
      exact
        breakeven_inKind_le_breakevenUsdg h hCall hCost hRates
          hOwn hLeast.1
    · intro hFloor own hOwn
      exact
        breakeven_le_breakevenUsdg h hCall hCost hRates hFloor
          hOwn hLeast.1
  · intro hPut
    exact
      ⟨breakeven_put h hPut hCost,
        breakevenUsdg_put h hPut hCost hRates⟩

/- A call of one share at 1 USDG, floored at 97 per cent. -/
def flooredCall : PayoffPosition where
  isPut := false
  strike := 1000000
  units := 100
  exerciseFeeBps := 0
  conversionFloorBps := some 9700

theorem flooredCall_valid :
    flooredCall.Valid where
  strike_pos := by decide
  units_pos := by decide
  fee_nonneg := by decide
  fee_le := by decide
  floor := by
    intro _ floor hFloor
    cases hFloor
    decide

/- A conversion that loses nothing. -/
theorem losslessRates :
    ConversionRates 0 0 where
  slippage_nonneg := le_refl 0
  slippage_le := by decide
  routeFee_nonneg := le_refl 0

theorem flooredCall_exact :
    ∃ price,
      EndsWith (breakeven flooredCall 1000000)
          (.ok (some price)) ∧
        IsLeast {p | Covers flooredCall 1000000 p} price :=
  ((breakevens_exact flooredCall_valid
    (show (0 : Int) < 1000000 by decide) losslessRates).2.1
    rfl).1

/-
  At that floor the call breaks even above a price at which a
  lossless conversion already covers the cost.
-/
theorem breakevenUsdg_below_breakeven :
    ¬ ∀ (position : PayoffPosition)
        (cost slippageBps routeFeeBps own price : Int),
      position.Valid →
        0 < cost →
        ConversionRates slippageBps routeFeeBps →
        EndsWith (breakeven position cost)
            (.ok (some own)) →
        EndsWith
            (breakevenUsdg position cost slippageBps
              routeFeeBps)
            (.ok (some price)) →
        own ≤ price := by
  intro hNever
  have hCost : (0 : Int) < 1000000 := by decide
  rcases breakeven_call flooredCall_valid rfl hCost with
    ⟨own, hOwn, hLeast⟩
  rcases
      breakevenUsdg_call flooredCall_valid rfl hCost
        losslessRates with
    ⟨price, hPrice, hLeastBand⟩
  have hLe :=
    hNever flooredCall 1000000 0 0 own price flooredCall_valid
      hCost losslessRates hOwn hPrice
  have hBand : BandCovers flooredCall 1000000 0 0 2000100 := by
    rw [bandCovers_iff flooredCall_valid losslessRates]
    decide
  have hNot : ¬ Covers flooredCall 1000000 2000100 := by
    rw [covers_iff flooredCall_valid]
    decide
  have hMost : own ≤ 2000100 := hLe.trans (hLeastBand.2 hBand)
  apply hNot
  rcases (covers_iff flooredCall_valid 1000000 own).mp
      hLeast.1 with ⟨hNonneg, hPays⟩
  rw [covers_iff flooredCall_valid]
  have hMore :=
    payout_call_mono flooredCall_valid rfl hNonneg hMost
  exact ⟨by decide, hPays.trans hMore⟩

end Callhouse.Web
