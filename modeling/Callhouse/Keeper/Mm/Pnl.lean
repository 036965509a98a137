import Callhouse.Keeper.Mm.Constants
import Callhouse.Lib.OrderedMap
import Callhouse.Lib.TruncDiv

/-
  keeper/src/v2/mm/pnl.ts: the market maker's realised profit
  and loss at average cost, for the daily loss stop.

  Main declarations:
    * `applyFill`, `applySettlement`, `replayLedger`
    * `applyFill_booked`, `applySettlement_booked`
-/

----
-- Events and Positions
----

namespace Callhouse.Keeper.Mm

inductive Side where
  | buy
  | sell
deriving DecidableEq

/- `premium` and `sellerFee` of a sale matched to its logs. -/
structure FillEvent where
  longId : String
  side : Side
  units : Int
  price : Int
  feeBps : Int
  premium : Option Int
  sellerFee : Option Int
  timestamp : Int
deriving DecidableEq

structure SettleEvent where
  longId : String
  isPut : Bool
  strike : Int
  settlementPrice : Int
  exerciseFeeBps : Option Int
  timestamp : Int
deriving DecidableEq

inductive LedgerEvent where
  | fill (e : FillEvent)
  | settle (e : SettleEvent)
deriving DecidableEq

def LedgerEvent.longId : LedgerEvent → String
  | .fill e => e.longId
  | .settle e => e.longId

def LedgerEvent.timestamp : LedgerEvent → Int
  | .fill e => e.timestamp
  | .settle e => e.timestamp

/-
  Signed units, and |units| times the average price of a
  share in USDG base units.
-/
structure Position where
  units : Int
  basis : Int
deriving DecidableEq

def flat : Position :=
  { units := 0, basis := 0 }

def dayOf
    (timestamp : Int) : Int :=
  timestamp / 86400

----
-- Booking
----

def netSalePrice
    (price feeBps : Int) : Int :=
  (price * (bps - feeBps)).tdiv bps

def exactNetSalePrice
    (units premium sellerFee : Int) : Int :=
  if units ≤ 0 ∨ premium ≤ sellerFee then 0
  else ((premium - sellerFee) * unitsPerShare).tdiv units

def Side.sign : Side → Int
  | .buy => 1
  | .sell => -1

/- The part of a fill that opens, or adds to, a position. -/
def Position.opened
    (position : Position)
    (sign left price : Int) : Position :=
  if left > 0 then
    { units := position.units + sign * left
      basis := position.basis + price * left }
  else position

/- A buy against a short, or a sell against a long. -/
def Position.opposes
    (position : Position)
    (sign : Int) : Bool :=
  decide (position.units < 0 ∧ sign > 0) ||
    decide (position.units > 0 ∧ sign < 0)

/- What a fill closes of the position it is against. -/
def Position.closedPart
    (position : Position)
    (sign closed : Int) : Position :=
  let size := |position.units|
  let costOfClosed := (position.basis * closed).tdiv size
  let units := position.units + sign * closed
  { units := units
    basis :=
      if units = 0 then 0 else position.basis - costOfClosed }

def Position.closedResult
    (position : Position)
    (sign closed price : Int) : Int :=
  let size := |position.units|
  let costOfClosed := (position.basis * closed).tdiv size
  if sign < 0 then
    (price * closed - costOfClosed).tdiv unitsPerShare
  else (costOfClosed - price * closed).tdiv unitsPerShare

/- The position after a fill, and the realised base units. -/
def applyFill
    (position : Position)
    (side : Side)
    (units price : Int) : Position × Int :=
  if units ≤ 0 then (position, 0)
  else if position.opposes side.sign then
    let size := |position.units|
    let closed := if units < size then units else size
    let kept := position.closedPart side.sign closed
    (kept.opened side.sign (units - closed) price,
      position.closedResult side.sign closed price)
  else (position.opened side.sign units price, 0)

def intrinsicAt
    (isPut : Bool)
    (strike settlementPrice : Int) : Int :=
  if isPut then
    if strike > settlementPrice then strike - settlementPrice
    else 0
  else if settlementPrice > strike then
    settlementPrice - strike
  else 0

def settlementValue
    (position : Position)
    (e : SettleEvent) : Int :=
  let intrinsic :=
    intrinsicAt e.isPut e.strike e.settlementPrice
  let fee := e.exerciseFeeBps.getD 0
  if position.units > 0 ∧ fee > 0 then
    (intrinsic * (bps - fee)).tdiv bps
  else intrinsic

def applySettlement
    (position : Position)
    (value : Int) : Position × Int :=
  if position.units = 0 then (position, 0)
  else
    let size := |position.units|
    let realised :=
      if position.units > 0 then
        (value * size - position.basis).tdiv unitsPerShare
      else
        (position.basis - value * size).tdiv unitsPerShare
    (flat, realised)

/- The price a share of a fill is booked at. -/
def FillEvent.bookedPrice
    (e : FillEvent) : Int :=
  match e.side, e.premium, e.sellerFee with
  | .buy, _, _ => e.price
  | .sell, some premium, some sellerFee =>
      exactNetSalePrice e.units premium sellerFee
  | .sell, _, _ => netSalePrice e.price e.feeBps

def applyEvent
    (position : Position) : LedgerEvent → Position × Int
  | .fill e =>
      applyFill position e.side e.units e.bookedPrice
  | .settle e =>
      applySettlement position (settlementValue position e)

structure Ledger where
  positions : OrderedMap String Position
  realisedByDay : OrderedMap Int Int

def Ledger.empty : Ledger :=
  { positions := OrderedMap.empty
    realisedByDay := OrderedMap.empty }

def replayEvent
    (ledger : Ledger)
    (e : LedgerEvent) : Ledger :=
  let position := ledger.positions.getD e.longId flat
  let applied := applyEvent position e
  let day := dayOf e.timestamp
  { positions := ledger.positions.set e.longId applied.1
    realisedByDay :=
      ledger.realisedByDay.set day
        (ledger.realisedByDay.getD day 0 + applied.2) }

def replayLedger
    (events : List LedgerEvent) : Ledger :=
  events.foldl replayEvent Ledger.empty

----
-- One Event
----

/- A basis is never negative, and zero when nothing is held. -/
structure Position.Sound
    (position : Position) : Prop where
  basis_nonneg : 0 ≤ position.basis
  flat_basis : position.units = 0 → position.basis = 0

/-
  What is still tied up in a position, in hundredths of a base
  unit: a long's cost is negative, a short's proceeds positive.
-/
def Position.signedBasis
    (position : Position) : Int :=
  if position.units > 0 then -position.basis
  else position.basis

theorem flat_sound : flat.Sound :=
  ⟨le_refl 0, fun _ => rfl⟩

variable {position : Position}

theorem signedBasis_of_nonneg
    (hPosition : position.Sound)
    (h : 0 ≤ position.units) :
    position.signedBasis = -position.basis := by
  unfold Position.signedBasis
  split
  · rfl
  · next hNotLong =>
      have hFlat : position.units = 0 :=
        le_antisymm (not_lt.mp hNotLong) h
      rw [hPosition.flat_basis hFlat, neg_zero]

theorem signedBasis_of_nonpos
    (h : position.units ≤ 0) :
    position.signedBasis = position.basis := by
  unfold Position.signedBasis
  rw [if_neg (not_lt.mpr h)]

theorem opposes_iff
    {sign : Int} :
    position.opposes sign = true ↔
      (position.units < 0 ∧ sign > 0) ∨
        (position.units > 0 ∧ sign < 0) := by
  simp [Position.opposes]

/- What every booking of `units` for `cash` keeps. -/
structure Booked
    (position position' : Position)
    (realised units cash slack : Int) : Prop where
  sound : position'.Sound
  units_eq : position'.units = position.units + units
  conserved :
    |unitsPerShare * realised +
        (position'.signedBasis - position.signedBasis) -
        cash| ≤ slack

theorem opened_booked
    (hPosition : position.Sound)
    (side : Side)
    {left price : Int}
    (hLeft : 0 ≤ left)
    (hSide : 0 < left → position.opposes side.sign = false)
    (hPrice : 0 ≤ price) :
    Booked position (position.opened side.sign left price) 0
      (side.sign * left) (-side.sign * (price * left)) 0 := by
  rcases hLeft.lt_or_eq with hSome | hNone
  · have hCost : 0 ≤ price * left := mul_nonneg hPrice hLeft
    have hBasis := hPosition.basis_nonneg
    have hOpened :
        position.opened side.sign left price =
          { units := position.units + side.sign * left
            basis := position.basis + price * left } :=
      if_pos hSome
    have hAgainst :
        ¬ (position.units < 0 ∧ side.sign > 0) ∧
          ¬ (position.units > 0 ∧ side.sign < 0) := by
      simpa [Position.opposes] using hSide hSome
    rw [hOpened]
    cases side with
    | buy =>
        simp only [Side.sign, one_mul] at hAgainst ⊢
        have hHeld : 0 ≤ position.units := by omega
        have hSound :
            Position.Sound
              { units := position.units + left
                basis := position.basis + price * left } := by
          constructor
          · exact add_nonneg hBasis hCost
          · intro hFlat
            simp only at hFlat
            omega
        refine ⟨hSound, rfl, ?_⟩
        rw [signedBasis_of_nonneg hPosition hHeld,
          signedBasis_of_nonneg hSound
            (add_nonneg hHeld hLeft)]
        apply le_of_eq
        rw [abs_eq_zero]
        ring
    | sell =>
        simp only [Side.sign] at hAgainst ⊢
        have hHeld : position.units ≤ 0 := by omega
        have hAfter : position.units + -1 * left ≤ 0 := by
          omega
        have hSound :
            Position.Sound
              { units := position.units + -1 * left
                basis := position.basis + price * left } := by
          constructor
          · exact add_nonneg hBasis hCost
          · intro hFlat
            simp only at hFlat
            omega
        refine ⟨hSound, rfl, ?_⟩
        rw [signedBasis_of_nonpos hHeld,
          signedBasis_of_nonpos hAfter]
        apply le_of_eq
        rw [abs_eq_zero]
        ring
  · subst hNone
    have hSame : position.opened side.sign 0 price = position :=
      if_neg (lt_irrefl 0)
    rw [hSame]
    refine ⟨hPosition, by ring, ?_⟩
    apply le_of_eq
    rw [abs_eq_zero]
    ring

/- The cost of a closed part is a share of the basis. -/
theorem costOfClosed_bounds
    {basis closed size : Int}
    (hBasis : 0 ≤ basis)
    (hClosed : 0 < closed)
    (hSize : closed ≤ size) :
    0 ≤ (basis * closed).tdiv size ∧
      (basis * closed).tdiv size ≤ basis := by
  have hPos : 0 < size := hClosed.trans_le hSize
  have hShare : 0 ≤ basis * closed := mul_nonneg hBasis hClosed.le
  constructor
  · exact TruncDiv.tdiv_nonneg hShare hPos
  · apply TruncDiv.tdiv_le_of_le_mul hShare hPos
    exact mul_le_mul_of_nonneg_left hSize hBasis

/- The basis that stays, whether or not the position closed. -/
theorem closedPart_basis
    (sign closed : Int)
    (hHeld : position.units ≠ 0)
    (hFlat :
      position.units + sign * closed = 0 →
        closed = |position.units|) :
    (position.closedPart sign closed).basis =
      position.basis -
        (position.basis * closed).tdiv |position.units| := by
  unfold Position.closedPart
  simp only
  split
  · next hClosed =>
      rw [hFlat hClosed,
        Int.mul_tdiv_cancel _ (abs_ne_zero.mpr hHeld),
        sub_self]
  · rfl

theorem closedResult_buy
    (closed price : Int) :
    position.closedResult 1 closed price =
      ((position.basis * closed).tdiv |position.units| -
        price * closed).tdiv unitsPerShare := rfl

theorem closedResult_sell
    (closed price : Int) :
    position.closedResult (-1) closed price =
      (price * closed -
        (position.basis * closed).tdiv
          |position.units|).tdiv unitsPerShare := rfl

/- Nothing is left to oppose once all of it is closed. -/
theorem closedPart_all_opposes
    {sign : Int}
    {side : Side}
    (hSide : position.opposes side.sign = true) :
    (position.closedPart side.sign |position.units|).opposes
      sign = false := by
  have hFlat :
      (position.closedPart side.sign
        |position.units|).units = 0 := by
    simp only [Position.closedPart]
    rcases opposes_iff.mp hSide with
      ⟨hShort, hSign⟩ | ⟨hLong, hSign⟩
    · cases side with
      | buy =>
          rw [abs_of_neg hShort]
          simp [Side.sign]
      | sell => exact absurd hSign (by decide)
    · cases side with
      | buy => exact absurd hSign (by decide)
      | sell =>
          rw [abs_of_pos hLong]
          simp [Side.sign]
  simp [Position.opposes, hFlat]

theorem closed_booked
    (hPosition : position.Sound)
    {side : Side}
    (hSide : position.opposes side.sign = true)
    (price : Int)
    {closed : Int}
    (hClosed : 0 < closed)
    (hSize : closed ≤ |position.units|) :
    Booked position (position.closedPart side.sign closed)
      (position.closedResult side.sign closed price)
      (side.sign * closed) (-side.sign * (price * closed))
      99 := by
  have hAgainst := opposes_iff.mp hSide
  have hHeld : position.units ≠ 0 := by
    rcases hAgainst with h | h
    · exact h.1.ne
    · exact h.1.ne'
  rcases costOfClosed_bounds hPosition.basis_nonneg hClosed
      hSize with ⟨hCost, hCostLe⟩
  cases side with
  | buy =>
      have hShort : position.units < 0 := by
        rcases hAgainst with h | h
        · exact h.1
        · exact absurd h.2 (by decide)
      have hAbs : |position.units| = -position.units :=
        abs_of_neg hShort
      have hKept := closedPart_basis 1 closed hHeld (by omega)
      have hUnits : (position.closedPart 1 closed).units ≤ 0 := by
        simp only [Position.closedPart]
        omega
      refine ⟨⟨?_, ?_⟩, rfl, ?_⟩
      · simp only [Side.sign]
        rw [hKept]
        exact sub_nonneg.mpr hCostLe
      · intro hFlat
        exact if_pos hFlat
      · simp only [Side.sign]
        rw [signedBasis_of_nonpos hUnits, hKept,
          signedBasis_of_nonpos hShort.le, closedResult_buy]
        have hRest :=
          TruncDiv.abs_sub_mul_tdiv_lt
            ((position.basis * closed).tdiv
                |position.units| -
              price * closed) unitsPerShare_pos
        have hHundred : unitsPerShare = 100 := rfl
        rw [abs_lt] at hRest
        rw [abs_le]
        constructor <;> linarith
  | sell =>
      have hLong : 0 < position.units := by
        rcases hAgainst with h | h
        · exact absurd h.2 (by decide)
        · exact h.1
      have hAbs : |position.units| = position.units :=
        abs_of_pos hLong
      have hKept := closedPart_basis (-1) closed hHeld (by omega)
      have hUnits :
          0 ≤ (position.closedPart (-1) closed).units := by
        simp only [Position.closedPart]
        omega
      have hSound : (position.closedPart (-1) closed).Sound := by
        constructor
        · rw [hKept]
          exact sub_nonneg.mpr hCostLe
        · intro hFlat
          exact if_pos hFlat
      refine ⟨hSound, rfl, ?_⟩
      simp only [Side.sign]
      rw [signedBasis_of_nonneg hSound hUnits, hKept,
        signedBasis_of_nonneg hPosition hLong.le,
        closedResult_sell]
      have hRest :=
        TruncDiv.abs_sub_mul_tdiv_lt
          (price * closed -
            (position.basis * closed).tdiv
              |position.units|) unitsPerShare_pos
      have hHundred : unitsPerShare = 100 := rfl
      rw [abs_lt] at hRest
      rw [abs_le]
      constructor <;> linarith

/- Two bookings in a row are one of their sums. -/
theorem Booked.trans
    {position' position'' : Position}
    {r r' u u' c c' slack slack' : Int}
    (h : Booked position position' r u c slack)
    (h' : Booked position' position'' r' u' c' slack') :
    Booked position position'' (r + r') (u + u') (c + c')
      (slack + slack') := by
  refine ⟨h'.sound, ?_, ?_⟩
  · rw [h'.units_eq, h.units_eq, add_assoc]
  · have hFirst := h.conserved
    have hSecond := h'.conserved
    rw [abs_le] at hFirst hSecond ⊢
    rw [mul_add]
    constructor <;> linarith [hFirst.1, hFirst.2]

/- What a fill's cash, less what it ties up, leaves realised. -/
theorem applyFill_booked
    (hPosition : position.Sound)
    (side : Side)
    {units price : Int}
    (hUnits : 0 < units)
    (hPrice : 0 ≤ price) :
    Booked position (applyFill position side units price).1
      (applyFill position side units price).2
      (side.sign * units) (-side.sign * (price * units))
      (if position.opposes side.sign then 99 else 0) := by
  unfold applyFill
  rw [if_neg (not_le.mpr hUnits)]
  cases hSide : position.opposes side.sign with
  | false =>
      simp only [Bool.false_eq_true, if_false]
      exact opened_booked hPosition side hUnits.le
        (fun _ => hSide) hPrice
  | true =>
      simp only [if_true]
      have hHeld : 0 < |position.units| := by
        rw [abs_pos]
        intro hFlat
        simp [Position.opposes, hFlat] at hSide
      generalize hPart :
        (if units < |position.units| then units
          else |position.units|) = closed
      have hClosed :
          0 < closed ∧ closed ≤ units ∧
            closed ≤ |position.units| ∧
            (closed < units → closed = |position.units|) := by
        split at hPart <;> omega
      rcases hClosed with ⟨hPos, hLe, hSize, hFlip⟩
      have hFirst :=
        closed_booked hPosition hSide price hPos hSize
      have hThen :=
        opened_booked hFirst.sound side
          (sub_nonneg.mpr hLe) ?_ hPrice
      · have hBoth := hFirst.trans hThen
        rw [add_zero] at hBoth
        convert hBoth using 1 <;> ring
      · intro hLeft
        rw [hFlip (sub_pos.mp hLeft)]
        exact closedPart_all_opposes hSide

theorem applySettlement_booked
    (hPosition : position.Sound)
    (value : Int) :
    Booked position (applySettlement position value).1
      (applySettlement position value).2
      (-position.units) (value * position.units)
      (if position.units = 0 then 0 else 99) := by
  unfold applySettlement
  by_cases hFlat : position.units = 0
  · rw [if_pos hFlat, if_pos hFlat, hFlat]
    refine ⟨hPosition, by simp, ?_⟩
    simp
  · rw [if_neg hFlat, if_neg hFlat]
    refine ⟨flat_sound, by simp [flat], ?_⟩
    have hHundred : unitsPerShare = 100 := rfl
    have hClosed : flat.signedBasis = 0 := rfl
    simp only
    rw [hClosed]
    by_cases hLong : position.units > 0
    · have hRest :=
        TruncDiv.abs_sub_mul_tdiv_lt
          (value * |position.units| - position.basis)
          unitsPerShare_pos
      rw [if_pos hLong,
        signedBasis_of_nonneg hPosition hLong.le]
      rw [abs_of_pos hLong] at hRest ⊢
      rw [abs_lt] at hRest
      rw [abs_le]
      constructor <;> linarith
    · have hShort : position.units < 0 :=
        lt_of_le_of_ne (not_lt.mp hLong) hFlat
      have hRest :=
        TruncDiv.abs_sub_mul_tdiv_lt
          (position.basis - value * |position.units|)
          unitsPerShare_pos
      rw [if_neg hLong, signedBasis_of_nonpos hShort.le]
      rw [abs_of_neg hShort] at hRest ⊢
      rw [abs_lt] at hRest
      rw [abs_le]
      constructor <;> linarith

end Callhouse.Keeper.Mm
