import Callhouse.Keeper.Mm.Engine
import Callhouse.Keeper.Mm.SellerFee
import Callhouse.Lib.Grid

/-
  keeper/src/v2/mm/engine.ts, quotePrices: the bid and the
  two asks of a series around its fair value, between the
  vault's floors and cap, each ask grossed up by the seller
  fee its own kind pays.

  `skewUsdg6` and `volBumpUsdg6` compute in floating point
  and return whole numbers: those are inputs here.

  Main declarations:
    * `quotePricesCore`, `quotePrices`
    * `quotePrices_accepted`
    * `quotePrices_net`
-/

----
-- Ticks
----

namespace Callhouse.Keeper.Mm

section

def roundDownToTick
    (x : Int) : Int :=
  if x ≤ 0 then 0 else Grid.roundDown priceTick x

def roundUpToTick
    (x : Int) : Int :=
  if x ≤ 0 then 0 else Grid.roundUp priceTick x

variable {x p : Int}

theorem dvd_roundDownToTick
    (x : Int) :
    priceTick ∣ roundDownToTick x := by
  unfold roundDownToTick
  split
  · exact dvd_zero _
  · exact Grid.dvd_roundDown _ _

theorem dvd_roundUpToTick
    (x : Int) :
    priceTick ∣ roundUpToTick x := by
  unfold roundUpToTick
  split
  · exact dvd_zero _
  · exact Grid.dvd_roundUp _ _

/- The least tick at or above `x` that is not negative. -/
theorem roundUpToTick_le_iff
    (hp : priceTick ∣ p)
    (hNonneg : 0 ≤ p) :
    roundUpToTick x ≤ p ↔ x ≤ p := by
  unfold roundUpToTick
  split
  · next hx =>
      constructor
      · exact fun _ => hx.trans hNonneg
      · exact fun _ => hNonneg
  · next hx =>
      exact
        Grid.roundUp_le_iff (not_le.mp hx).le priceTick_pos
          hp

theorem roundUpToTick_nonneg
    (x : Int) :
    0 ≤ roundUpToTick x := by
  unfold roundUpToTick
  split
  · exact le_refl 0
  · next hx =>
      have hPos := (not_le.mp hx).le
      exact hPos.trans (Grid.le_roundUp hPos priceTick_pos)

theorem le_roundUpToTick
    (x : Int) :
    x ≤ roundUpToTick x :=
  (roundUpToTick_le_iff (dvd_roundUpToTick x)
    (roundUpToTick_nonneg x)).mp (le_refl _)

theorem roundDownToTick_le
    (hx : 0 < roundDownToTick x) :
    roundDownToTick x ≤ x := by
  unfold roundDownToTick at hx ⊢
  split at hx
  · exact absurd hx (lt_irrefl 0)
  · next hPos =>
      rw [if_neg hPos]
      exact Grid.roundDown_le (not_le.mp hPos).le priceTick_pos

end

----
-- Spread and Floors
----

/- The moment every quote of the series is pulled. -/
def pullAtOf
    (expiry pullMinutes : Int) : Int :=
  mintCutoffOf expiry - pullMinutes * 60

/- The knobs of QuoteParams that prices read. -/
structure PriceParams where
  halfSpreadBps : Int
  minHalfSpreadUsdg6 : Int
  expiryWidenS : Int
  expiryWidenBps : Int
  pullMinutes : Int
  intrinsicBufferBps : Option Int
  minPremiumUsdg6 : Option Int

/- SAFEST_ASK_DEFAULTS: an absent knob is not an absent guard. -/
def PriceParams.intrinsicBuffer
    (params : PriceParams) : Int :=
  params.intrinsicBufferBps.getD 5

def PriceParams.minPremium
    (params : PriceParams) : Int :=
  params.minPremiumUsdg6.getD 20000

def widenBps
    (now expiry : Int)
    (params : PriceParams) : Int :=
  let start := expiry - params.expiryWidenS
  let close := pullAtOf expiry params.pullMinutes
  if params.expiryWidenS ≤ 0 ∨ params.expiryWidenBps ≤ 0 then
    bps
  else if now ≤ start then bps
  else if close ≤ start ∨ now ≥ close then
    bps + params.expiryWidenBps
  else
    bps +
      (params.expiryWidenBps * (now - start)).tdiv
        (close - start)

def halfSpreadUsdg6
    (fair widen : Int)
    (params : PriceParams) : Int :=
  let proportional := (fair * params.halfSpreadBps).tdiv bps
  let base :=
    if proportional > params.minHalfSpreadUsdg6 then
      proportional
    else params.minHalfSpreadUsdg6
  (base * widen).tdiv bps

structure OptionTerms where
  isPut : Bool
  strike : Int

def intrinsicOf
    (series : OptionTerms)
    (spot : Int) : Int :=
  let v :=
    if series.isPut then series.strike - spot
    else spot - series.strike
  if v > 0 then v else 0

/- Which guard moved a price. -/
inductive Clamp where
  | bidCap
  | askFloor
  | crossed
  | feeOutOfRange
  | askIv
  | volMarkup
  | intrinsicBuffer
  | minPremium
deriving DecidableEq

structure AskFloorNet where
  floor : Int
  reason : Clamp
deriving DecidableEq

variable (series : Option OptionTerms)

/- Zero for a series that carries no terms. -/
def seriesIntrinsic
    (spot : Int) : Int :=
  match series with
  | some terms => intrinsicOf terms spot
  | none => 0

def bufferAt
    (spot intrinsicBufferBps : Int) : Int :=
  if spot > 0 then
    Grid.ceilDiv (spot * max 0 intrinsicBufferBps) bps
  else 0

/- The least net an ask may target, whatever the fair. -/
def askFloorNetUsdg6
    (spot intrinsicBufferBps minPremiumUsdg6 : Int) :
    AskFloorNet :=
  let byIntrinsic :=
    seriesIntrinsic series spot +
      bufferAt spot intrinsicBufferBps
  let minPremium :=
    if minPremiumUsdg6 > 0 then minPremiumUsdg6 else 0
  if byIntrinsic ≥ minPremium then
    { floor := byIntrinsic, reason := .intrinsicBuffer }
  else { floor := minPremium, reason := .minPremium }

----
-- Seller Fees in a Quote
----

structure PendingFees where
  params : FeeRegime
  effectiveAt : Int
deriving DecidableEq

/- `effectiveAt = 0` is the chain's "nothing is scheduled". -/
structure QuoteFees where
  current : FeeRegime
  pending : Option PendingFees
deriving DecidableEq

/- The higher of the rate in effect and a scheduled one. -/
def quoteFeeBpsOf
    (kind : OrderKindName)
    (fees : QuoteFees) : Int :=
  let current := sellerFeeBpsOf kind fees.current
  match fees.pending with
  | none => current
  | some pending =>
      if pending.effectiveAt = 0 then current
      else max current (sellerFeeBpsOf kind pending.params)

structure Gross where
  price : Int
  ok : Bool
deriving DecidableEq

/- The gross ask whose seller fee still leaves `price`. -/
def grossUpToTick
    (price feeBps : Int) : Gross :=
  let net := bps - feeBps
  if feeBps ≤ 0 then
    { price := roundUpToTick price, ok := true }
  else if net ≤ 0 then
    { price := roundUpToTick price, ok := false }
  else
    { price :=
        roundUpToTick (Grid.ceilDiv (price * bps) net)
      ok := true }

----
-- Prices
----

/- What volBumpUsdg6 returns. -/
structure VolBump where
  bump : Int
  reason : Clamp
deriving DecidableEq

structure PriceInput where
  now : Int
  expiry : Int
  series : Option OptionTerms
  fair : Int
  spot : Int
  askFloors : AskFloors
  bidCap : Int
  fees : QuoteFees
  params : PriceParams
  /- The results of skewUsdg6 and volBumpUsdg6. -/
  skew : Int
  volBump : VolBump

def PriceInput.widen
    (input : PriceInput) : Int :=
  widenBps input.now input.expiry input.params

def PriceInput.halfSpread
    (input : PriceInput) : Int :=
  halfSpreadUsdg6 input.fair input.widen input.params

/- The bid before it meets the ask. -/
def cappedBid
    (input : PriceInput) : Int :=
  let bid :=
    roundDownToTick
      (input.fair - input.halfSpread - input.skew)
  let cap := roundDownToTick input.bidCap
  if bid > cap then cap else bid

def raisedTarget
    (input : PriceInput)
    (volBump : Int) : Int :=
  roundUpToTick
    (input.fair + input.halfSpread - input.skew + volBump)

/- What the vault must be left with after the seller fee. -/
def ungrossedTarget
    (input : PriceInput)
    (volBump floorNet : Int) : Int :=
  let raised := raisedTarget input volBump
  let floorTick := roundUpToTick floorNet
  let target :=
    if floorTick > raised then floorTick else raised
  if target < priceTick then priceTick else target

/- One tick under, but never under the net floor. -/
def underTarget
    (input : PriceInput)
    (volBump floorNet : Int) : Int :=
  let target := ungrossedTarget input volBump floorNet
  let floorTick := roundUpToTick floorNet
  if target - priceTick ≥ floorTick then target - priceTick
  else floorTick

def writeGross
    (input : PriceInput)
    (volBump floorNet : Int) : Gross :=
  grossUpToTick (ungrossedTarget input volBump floorNet)
    (quoteFeeBpsOf .AskWrite input.fees)

def resaleGross
    (input : PriceInput)
    (volBump floorNet : Int) : Gross :=
  grossUpToTick (underTarget input volBump floorNet)
    (quoteFeeBpsOf .AskResale input.fees)

/- The write ask before its floor. -/
def grossedAsk
    (gross : Gross) : Int :=
  if gross.price < priceTick then priceTick else gross.price

def writeAsk
    (input : PriceInput)
    (volBump floorNet : Int) : Int :=
  let ask := grossedAsk (writeGross input volBump floorNet)
  let floor := roundUpToTick input.askFloors.write
  if ask < floor then floor else ask

def uncrossedBid
    (bid ask : Int) : Option Int :=
  let below := if bid ≥ ask then ask - priceTick else bid
  if below < priceTick then none else some below

def exceeds
    (price : Int) : Option Int → Bool
  | none => true
  | some bid => decide (price > bid)

/- The resale ask at its own price, or the write ask's. -/
def resaleAsk
    (under resaleFloor ask : Int)
    (bid : Option Int) : Int :=
  let resale :=
    if under ≥ priceTick ∧ under ≥ resaleFloor ∧
        exceeds under bid then under
    else ask
  if resale < resaleFloor then resaleFloor else resale

structure QuotePrices where
  bid : Option Int
  ask : Int
  resale : Int
  halfSpread : Int
  skew : Int
  widen : Int
  clampedBy : List Clamp
  volBump : Int
deriving DecidableEq

structure CorePrices where
  bid : Option Int
  ask : Int
  resale : Int
  halfSpread : Int
  skew : Int
  widen : Int
  clampedBy : List Clamp
  floorBound : Bool
deriving DecidableEq

def clampIf
    (p : Bool)
    (clamp : Clamp) : List Clamp :=
  if p then [clamp] else []

def quotePricesCore
    (input : PriceInput)
    (volBump floorNet : Int) : CorePrices :=
  let proposed :=
    roundDownToTick
      (input.fair - input.halfSpread - input.skew)
  let cap := roundDownToTick input.bidCap
  let write := writeGross input volBump floorNet
  let resale := resaleGross input volBump floorNet
  let ask := writeAsk input volBump floorNet
  let bid := uncrossedBid (cappedBid input) ask
  let writeFloor := roundUpToTick input.askFloors.write
  let resaleFloor := roundUpToTick input.askFloors.resale
  let under :=
    if underTarget input volBump floorNet ≥ priceTick then
      resale.price
    else 0
  let chosen :=
    if under ≥ priceTick ∧ under ≥ resaleFloor ∧
        exceeds under bid then under
    else ask
  { bid := bid
    ask := ask
    resale := resaleAsk under resaleFloor ask bid
    halfSpread := input.halfSpread
    skew := input.skew
    widen := input.widen
    clampedBy :=
      clampIf (proposed > cap) .bidCap ++
        clampIf (!write.ok || !resale.ok) .feeOutOfRange ++
        clampIf (grossedAsk write < writeFloor) .askFloor ++
        clampIf (cappedBid input ≥ ask) .crossed ++
        clampIf
          (chosen < resaleFloor &&
            !decide (grossedAsk write < writeFloor)) .askFloor
    floorBound :=
      decide
        (roundUpToTick floorNet >
          raisedTarget input volBump) }

def floorNetOf
    (input : PriceInput) : AskFloorNet :=
  askFloorNetUsdg6 input.series input.spot
    input.params.intrinsicBuffer input.params.minPremium

def shapedPrices
    (input : PriceInput) : CorePrices :=
  quotePricesCore input input.volBump.bump
    (floorNetOf input).floor

/- The formula without the vol bump and without the floor. -/
def legacyPrices
    (input : PriceInput) : CorePrices :=
  quotePricesCore input 0 0

/-
  The shaped quote, held at or above the unshaped asks, and
  its bid kept under the ask once more.
-/
def quotePrices
    (input : PriceInput) : QuotePrices :=
  let shaped := shapedPrices input
  let legacy := legacyPrices input
  let ask :=
    if shaped.ask > legacy.ask then shaped.ask
    else legacy.ask
  let resale :=
    if shaped.resale > legacy.resale then shaped.resale
    else legacy.resale
  let bid :=
    match shaped.bid with
    | none => none
    | some bid =>
        if bid ≥ ask then
          if ask - priceTick ≥ priceTick then
            some (ask - priceTick)
          else none
        else some bid
  { bid := bid
    ask := ask
    resale := resale
    halfSpread := shaped.halfSpread
    skew := shaped.skew
    widen := shaped.widen
    clampedBy :=
      shaped.clampedBy ++
        clampIf (input.volBump.bump > 0)
          input.volBump.reason ++
        clampIf shaped.floorBound (floorNetOf input).reason
    volBump := input.volBump.bump }

----
-- Accepted Prices
----

theorem grossUpToTick_dvd
    (price feeBps : Int) :
    priceTick ∣ (grossUpToTick price feeBps).price := by
  unfold grossUpToTick
  simp only
  split
  · exact dvd_roundUpToTick _
  · split
    · exact dvd_roundUpToTick _
    · exact dvd_roundUpToTick _

/- The larger of two ticks is a tick, above both. -/
structure OnTick
    (low price : Int) : Prop where
  dvd : priceTick ∣ price
  le : low ≤ price

variable {price : Int}

theorem OnTick.raise
    {low floor : Int}
    (h : OnTick low price)
    (hFloor : priceTick ∣ floor) :
    OnTick low (if price < floor then floor else price) ∧
      floor ≤ (if price < floor then floor else price) ∧
      price ≤ (if price < floor then floor else price) := by
  split
  · next hLt =>
      exact ⟨⟨hFloor, h.le.trans hLt.le⟩, le_refl _, hLt.le⟩
  · next hNot =>
      exact ⟨h, not_lt.mp hNot, le_refl _⟩

theorem grossedAsk_onTick
    (gross : Gross)
    (hDvd : priceTick ∣ gross.price) :
    OnTick priceTick (grossedAsk gross) ∧
      gross.price ≤ grossedAsk gross := by
  unfold grossedAsk
  split
  · next hLt => exact ⟨⟨dvd_refl _, le_refl _⟩, hLt.le⟩
  · next hNot => exact ⟨⟨hDvd, not_lt.mp hNot⟩, le_refl _⟩

/- The write ask: on a tick, above its floor and its gross. -/
theorem writeAsk_spec
    (input : PriceInput)
    (volBump floorNet : Int) :
    OnTick priceTick (writeAsk input volBump floorNet) ∧
      input.askFloors.write ≤
          writeAsk input volBump floorNet ∧
        (writeGross input volBump floorNet).price ≤
          writeAsk input volBump floorNet := by
  have hGross :=
    grossedAsk_onTick (writeGross input volBump floorNet)
      (grossUpToTick_dvd _ _)
  have hRaise :=
    hGross.1.raise (dvd_roundUpToTick input.askFloors.write)
  unfold writeAsk
  exact
    ⟨hRaise.1, (le_roundUpToTick _).trans hRaise.2.1,
      hGross.2.trans hRaise.2.2⟩

theorem cappedBid_le
    (input : PriceInput) :
    priceTick ∣ cappedBid input ∧
      cappedBid input ≤ roundDownToTick input.bidCap := by
  unfold cappedBid
  simp only
  split
  · exact ⟨dvd_roundDownToTick _, le_refl _⟩
  · next hNot =>
      exact ⟨dvd_roundDownToTick _, not_lt.mp hNot⟩

variable {b : Int}

theorem uncrossedBid_eq_some
    {bid ask : Int}
    (h : uncrossedBid bid ask = some b) :
    priceTick ≤ b ∧ b ≤ bid ∧ b < ask ∧
      (b = bid ∨ b = ask - priceTick) := by
  unfold uncrossedBid at h
  simp only [Option.ite_none_left_eq_some,
    Option.some.injEq] at h
  rcases h with ⟨hMin, hEq⟩
  have hTick := priceTick_pos
  split at hEq
  · next hCrossed =>
      rw [if_pos hCrossed] at hMin
      omega
  · next hOpen =>
      rw [if_neg hOpen] at hMin
      omega

/- A bid that the core quotes. -/
theorem coreBid_spec
    (input : PriceInput)
    (volBump floorNet : Int)
    (h : (quotePricesCore input volBump floorNet).bid =
      some b) :
    OnTick priceTick b ∧ b ≤ input.bidCap ∧
      b < (quotePricesCore input volBump floorNet).ask := by
  unfold quotePricesCore at h ⊢
  simp only at h ⊢
  rcases uncrossedBid_eq_some h with
    ⟨hMin, hLe, hLt, hWhich⟩
  have hAsk := (writeAsk_spec input volBump floorNet).1
  have hCapped := cappedBid_le input
  have hDvd : priceTick ∣ b := by
    rcases hWhich with hSame | hUnder
    · rw [hSame]
      exact hCapped.1
    · rw [hUnder]
      exact dvd_sub hAsk.dvd (dvd_refl _)
  have hCap : b ≤ roundDownToTick input.bidCap :=
    hLe.trans hCapped.2
  have hPos : 0 < roundDownToTick input.bidCap :=
    lt_of_lt_of_le priceTick_pos (hMin.trans hCap)
  exact
    ⟨⟨hDvd, hMin⟩, hCap.trans (roundDownToTick_le hPos), hLt⟩

/- The resale ask stands above its floor, and above the bid. -/
theorem resaleAsk_spec
    {under resaleFloor ask : Int}
    {bid : Option Int}
    (hUnder : priceTick ∣ under)
    (hFloor : priceTick ∣ resaleFloor)
    (hAsk : OnTick priceTick ask)
    (hBid : ∀ b, bid = some b → b < ask) :
    OnTick priceTick (resaleAsk under resaleFloor ask bid) ∧
      resaleFloor ≤ resaleAsk under resaleFloor ask bid ∧
      (∀ b, bid = some b →
        b < resaleAsk under resaleFloor ask bid) ∧
      under ≤ resaleAsk under resaleFloor ask bid := by
  unfold resaleAsk
  by_cases hOwn :
      under ≥ priceTick ∧ under ≥ resaleFloor ∧
        exceeds under bid = true
  · rw [if_pos hOwn, if_neg (not_lt.mpr hOwn.2.1)]
    refine ⟨⟨hUnder, hOwn.1⟩, hOwn.2.1, ?_, le_refl _⟩
    intro b hb
    have hAbove := hOwn.2.2
    rw [hb, exceeds, decide_eq_true_eq] at hAbove
    exact hAbove
  · rw [if_neg hOwn]
    have hRaise := hAsk.raise hFloor
    refine ⟨hRaise.1, hRaise.2.1, ?_, ?_⟩
    · exact fun b hb => (hBid b hb).trans_le hRaise.2.2
    · -- What keeps a price from being taken is under the ask.
      by_cases hTick : under ≥ priceTick
      · by_cases hCleared : under ≥ resaleFloor
        · cases hb : bid with
          | none =>
              rw [hb] at hOwn
              exact absurd ⟨hTick, hCleared, rfl⟩ hOwn
          | some b =>
              have hLow : ¬ under > b := by
                intro hAbove
                apply hOwn
                rw [hb]
                exact ⟨hTick, hCleared, decide_eq_true hAbove⟩
              have hLt := hBid b hb
              exact
                (not_lt.mp hLow).trans
                  (hLt.le.trans hRaise.2.2)
        · exact (not_le.mp hCleared).le.trans hRaise.2.1
      · exact (not_le.mp hTick).le.trans hRaise.1.le

theorem coreResale_spec
    (input : PriceInput)
    (volBump floorNet : Int) :
    OnTick priceTick
        (quotePricesCore input volBump floorNet).resale ∧
      input.askFloors.resale ≤
        (quotePricesCore input volBump floorNet).resale ∧
      (∀ b,
        (quotePricesCore input volBump floorNet).bid =
            some b →
          b <
            (quotePricesCore input volBump
              floorNet).resale) ∧
      (priceTick ≤ underTarget input volBump floorNet →
        (resaleGross input volBump floorNet).price ≤
          (quotePricesCore input volBump
            floorNet).resale) := by
  have hUnder :
      priceTick ∣
        (if underTarget input volBump floorNet ≥ priceTick
          then (resaleGross input volBump floorNet).price
          else 0) := by
    split
    · exact grossUpToTick_dvd _ _
    · exact dvd_zero _
  have hSpec :=
    resaleAsk_spec hUnder
      (dvd_roundUpToTick input.askFloors.resale)
      (writeAsk_spec input volBump floorNet).1
      (fun b hb =>
        (coreBid_spec input volBump floorNet hb).2.2)
  refine
    ⟨hSpec.1, (le_roundUpToTick _).trans hSpec.2.1,
      hSpec.2.2.1, ?_⟩
  intro hTick
  exact (if_pos hTick).symm.trans_le hSpec.2.2.2

/- What the vault takes, and no ask under the plain formula's. -/
structure Accepted
    (input : PriceInput)
    (q : QuotePrices) : Prop where
  ask : OnTick priceTick q.ask
  resale : OnTick priceTick q.resale
  askFloor : input.askFloors.write ≤ q.ask
  resaleFloor : input.askFloors.resale ≤ q.resale
  bid : ∀ b, q.bid = some b → OnTick priceTick b
  bidCap : ∀ b, q.bid = some b → b ≤ input.bidCap
  uncrossed :
    ∀ b, q.bid = some b → b < q.ask ∧ b < q.resale
  askKept : (legacyPrices input).ask ≤ q.ask
  resaleKept : (legacyPrices input).resale ≤ q.resale

theorem higher_onTick
    {a low : Int}
    (ha : OnTick low a)
    (hb : OnTick low b) :
    OnTick low (if a > b then a else b) ∧
      a ≤ (if a > b then a else b) ∧
      b ≤ (if a > b then a else b) := by
  split
  · next hGt => exact ⟨ha, le_refl _, hGt.le⟩
  · next hNot => exact ⟨hb, not_lt.mp hNot, le_refl _⟩

theorem quotePrices_ask
    (input : PriceInput) :
    OnTick priceTick (quotePrices input).ask ∧
      (shapedPrices input).ask ≤ (quotePrices input).ask ∧
      (legacyPrices input).ask ≤ (quotePrices input).ask :=
  higher_onTick (writeAsk_spec input _ _).1
    (writeAsk_spec input _ _).1

theorem quotePrices_resale
    (input : PriceInput) :
    OnTick priceTick (quotePrices input).resale ∧
      (shapedPrices input).resale ≤
          (quotePrices input).resale ∧
      (legacyPrices input).resale ≤
        (quotePrices input).resale :=
  higher_onTick (coreResale_spec input _ _).1
    (coreResale_spec input _ _).1

/- The second look at the bid finds it under the ask already. -/
theorem quotePrices_bid
    (input : PriceInput) :
    (quotePrices input).bid = (shapedPrices input).bid := by
  have hAsk := (quotePrices_ask input).2.1
  unfold quotePrices at hAsk ⊢
  simp only at hAsk ⊢
  cases hBid : (shapedPrices input).bid with
  | none => rfl
  | some b =>
      have hLt := (coreBid_spec input _ _ hBid).2.2
      exact if_neg (not_le.mpr (hLt.trans_le hAsk))

/- Every quote is one the vault accepts. -/
theorem quotePrices_accepted
    (input : PriceInput) :
    Accepted input (quotePrices input) := by
  have hAsk := quotePrices_ask input
  have hResale := quotePrices_resale input
  have hShaped :=
    coreResale_spec input input.volBump.bump
      (floorNetOf input).floor
  constructor
  · exact hAsk.1
  · exact hResale.1
  · exact (writeAsk_spec input _ _).2.1.trans hAsk.2.1
  · exact hShaped.2.1.trans hResale.2.1
  · intro b hb
    rw [quotePrices_bid] at hb
    exact (coreBid_spec input _ _ hb).1
  · intro b hb
    rw [quotePrices_bid] at hb
    exact (coreBid_spec input _ _ hb).2.1
  · intro b hb
    rw [quotePrices_bid] at hb
    exact
      ⟨(coreBid_spec input _ _ hb).2.2.trans_le hAsk.2.1,
        (hShaped.2.2.1 b hb).trans_le hResale.2.1⟩
  · exact hAsk.2.2
  · exact hResale.2.2

----
-- What an Ask Nets
----

/- What a sale at `price` leaves of a share, rounded down. -/
def netPerShare
    (price feeBps : Int) : Int :=
  price * (10000 - feeBps) / 10000

theorem le_netPerShare_iff
    {x price feeBps : Int} :
    x ≤ netPerShare price feeBps ↔
      x * 10000 ≤ price * (10000 - feeBps) :=
  Int.le_ediv_iff_mul_le (by decide)

/- Grossed up at a rate, a price nets at any lower one. -/
theorem le_netPerShare_of_gross
    {feeBps rate ask : Int}
    (hPrice : 0 ≤ price)
    (hRate : 0 ≤ rate)
    (hFee : rate ≤ feeBps)
    (hMax : feeBps ≤ 9999)
    (hAsk : (grossUpToTick price feeBps).price ≤ ask) :
    price ≤ netPerShare ask rate := by
  rw [le_netPerShare_iff]
  unfold grossUpToTick at hAsk
  simp only at hAsk
  by_cases hFree : feeBps ≤ 0
  · rw [if_pos hFree] at hAsk
    have hZero : rate = 0 := by omega
    have hLe := (le_roundUpToTick price).trans hAsk
    rw [hZero]
    omega
  · have hNet : ¬ bps - feeBps ≤ 0 := by
      unfold bps
      omega
    rw [if_neg hFree, if_neg hNet] at hAsk
    have hNonneg : 0 ≤ ask := (roundUpToTick_nonneg _).trans hAsk
    have hCeil :
        Grid.ceilDiv (price * bps) (bps - feeBps) ≤ ask :=
      (le_roundUpToTick _).trans hAsk
    rw [Grid.ceilDiv_le_iff
      (mul_nonneg hPrice bps_pos.le) (not_le.mp hNet)]
      at hCeil
    calc price * 10000
        ≤ ask * (bps - feeBps) := hCeil
      _ ≤ ask * (10000 - rate) := by
        apply mul_le_mul_of_nonneg_left _ hNonneg
        unfold bps
        omega

theorem netPerShare_nonneg
    {ask rate : Int}
    (hAsk : 0 ≤ ask)
    (hRate : rate ≤ 9999) :
    0 ≤ netPerShare ask rate := by
  rw [le_netPerShare_iff, zero_mul]
  exact mul_nonneg hAsk (by omega)

/- A regime that a fill of a resting quote can meet. -/
def QuoteFees.CanApply
    (fees : QuoteFees)
    (regime : FeeRegime) : Prop :=
  regime = fees.current ∨
    ∃ pending, fees.pending = some pending ∧
      pending.effectiveAt ≠ 0 ∧ regime = pending.params

structure FeeRegime.InRange
    (regime : FeeRegime) : Prop where
  premium :
    0 ≤ regime.premiumFeeBps ∧ regime.premiumFeeBps ≤ 9999
  resale :
    0 ≤ regime.resaleFeeBps ∧ regime.resaleFeeBps ≤ 9999

theorem FeeRegime.InRange.sellerFee
    {regime : FeeRegime}
    (h : regime.InRange)
    (kind : OrderKindName) :
    0 ≤ sellerFeeBpsOf kind regime ∧
      sellerFeeBpsOf kind regime ≤ 9999 := by
  cases kind with
  | Bid => exact ⟨le_refl 0, Int.natCast_nonneg 9999⟩
  | AskResale => exact h.resale
  | AskWrite => exact h.premium

/- The quoted rate covers every regime that can apply. -/
theorem sellerFee_le_quoteFee
    {fees : QuoteFees}
    {regime : FeeRegime}
    (h : fees.CanApply regime)
    (kind : OrderKindName) :
    sellerFeeBpsOf kind regime ≤ quoteFeeBpsOf kind fees := by
  unfold quoteFeeBpsOf
  rcases h with hNow | ⟨pending, hPending, hAt, hLater⟩
  · rw [hNow]
    cases fees.pending with
    | none => exact le_refl _
    | some pending =>
        simp only
        split
        · exact le_refl _
        · exact le_max_left _ _
  · rw [hPending, hLater]
    simp only
    rw [if_neg hAt]
    exact le_max_right _ _

theorem quoteFee_le
    {fees : QuoteFees}
    (hFees : ∀ regime, fees.CanApply regime → regime.InRange)
    (kind : OrderKindName) :
    quoteFeeBpsOf kind fees ≤ 9999 := by
  have hCurrent :=
    ((hFees fees.current (.inl rfl)).sellerFee kind).2
  unfold quoteFeeBpsOf
  cases hPending : fees.pending with
  | none => exact hCurrent
  | some pending =>
      simp only
      by_cases hAt : pending.effectiveAt = 0
      · rw [if_pos hAt]
        exact hCurrent
      · rw [if_neg hAt]
        have hLater :=
          hFees pending.params
            (.inr ⟨pending, hPending, hAt, rfl⟩)
        exact max_le hCurrent (hLater.sellerFee kind).2

----
-- The Targets Are Met
----

/- The intrinsic value and a buffer of the spot, or the minimum. -/
def floorTargetOf
    (input : PriceInput) : Int :=
  max
    (seriesIntrinsic input.series input.spot +
      ⌈((input.spot * max 0 input.params.intrinsicBuffer :
          Int) : ℚ) / (10000 : Int)⌉)
    input.params.minPremium

/- What an ask should leave the vault with. -/
def askTargetOf
    (input : PriceInput) : Int :=
  max
    (input.fair + input.halfSpread - input.skew +
      input.volBump.bump)
    (floorTargetOf input)

theorem ceil_le_bufferAt
    (spot intrinsicBufferBps : Int) :
    ⌈((spot * max 0 intrinsicBufferBps : Int) : ℚ) /
        (10000 : Int)⌉ ≤
      bufferAt spot intrinsicBufferBps := by
  have hKnob : 0 ≤ max 0 intrinsicBufferBps := le_max_left _ _
  unfold bufferAt
  split
  · next hSpot =>
      unfold Grid.ceilDiv
      rw [TruncDiv.add_pred_tdiv
        (mul_nonneg (le_of_lt hSpot) hKnob) bps_pos]
      exact le_refl _
  · next hSpot =>
      rw [TruncDiv.ceil_div_le_iff (by decide)]
      simp only [zero_mul]
      exact
        mul_nonpos_of_nonpos_of_nonneg (not_lt.mp hSpot)
          hKnob

/- The net floor is the larger of its two parts. -/
theorem le_askFloorNetUsdg6
    (spot intrinsicBufferBps minPremiumUsdg6 : Int) :
    seriesIntrinsic series spot +
          bufferAt spot intrinsicBufferBps ≤
        (askFloorNetUsdg6 series spot intrinsicBufferBps
          minPremiumUsdg6).floor ∧
      minPremiumUsdg6 ≤
        (askFloorNetUsdg6 series spot intrinsicBufferBps
          minPremiumUsdg6).floor := by
  have hPremium :
      minPremiumUsdg6 ≤
        (if minPremiumUsdg6 > 0 then minPremiumUsdg6
          else 0) := by
    split
    · exact le_refl _
    · next hNone => exact not_lt.mp hNone
  unfold askFloorNetUsdg6
  simp only
  generalize
    (if minPremiumUsdg6 > 0 then minPremiumUsdg6 else 0) =
      minPremium at hPremium ⊢
  split
  · next hBound => exact ⟨le_refl _, hPremium.trans hBound⟩
  · next hBound => exact ⟨(not_le.mp hBound).le, hPremium⟩

theorem floorTargetOf_le
    (input : PriceInput) :
    floorTargetOf input ≤ (floorNetOf input).floor := by
  have hFloor :=
    le_askFloorNetUsdg6 input.series input.spot
      input.params.intrinsicBuffer input.params.minPremium
  have hBuffer :=
    ceil_le_bufferAt input.spot input.params.intrinsicBuffer
  apply max_le
  · exact (Int.add_le_add_left hBuffer _).trans hFloor.1
  · exact hFloor.2

theorem ungrossedTarget_spec
    (input : PriceInput)
    (volBump floorNet : Int) :
    OnTick priceTick
        (ungrossedTarget input volBump floorNet) ∧
      raisedTarget input volBump ≤
          ungrossedTarget input volBump floorNet ∧
        roundUpToTick floorNet ≤
          ungrossedTarget input volBump floorNet := by
  have hFloor : OnTick 0 (roundUpToTick floorNet) :=
    ⟨dvd_roundUpToTick _, roundUpToTick_nonneg _⟩
  have hRaised : OnTick 0 (raisedTarget input volBump) :=
    ⟨dvd_roundUpToTick _, roundUpToTick_nonneg _⟩
  have hHeld := higher_onTick hFloor hRaised
  have hRaise := hHeld.1.raise (dvd_refl priceTick)
  exact
    ⟨⟨hRaise.1.dvd, hRaise.2.1⟩,
      hHeld.2.2.trans hRaise.2.2,
      hHeld.2.1.trans hRaise.2.2⟩

theorem underTarget_spec
    (input : PriceInput)
    (volBump floorNet : Int) :
    OnTick 0 (underTarget input volBump floorNet) ∧
      roundUpToTick floorNet ≤
          underTarget input volBump floorNet ∧
        ungrossedTarget input volBump floorNet - priceTick ≤
          underTarget input volBump floorNet := by
  have hTarget := (ungrossedTarget_spec input volBump floorNet).1
  have hFloor := roundUpToTick_nonneg floorNet
  unfold underTarget
  simp only
  split
  · next hUnder =>
      exact
        ⟨⟨dvd_sub hTarget.dvd (dvd_refl _),
            hFloor.trans hUnder⟩,
          hUnder, le_refl _⟩
  · next hNot =>
      exact
        ⟨⟨dvd_roundUpToTick _, hFloor⟩, le_refl _,
          (not_le.mp hNot).le⟩

/- A tick below the first tick is none. -/
theorem OnTick.eq_zero
    (h : OnTick 0 price)
    (hLow : ¬ priceTick ≤ price) :
    price = 0 :=
  Int.eq_zero_of_dvd_of_nonneg_of_lt h.le (not_le.mp hLow)
    h.dvd

variable {input : PriceInput} {regime : FeeRegime}

/- The write ask nets its ungrossed target. -/
theorem quotePrices_ask_net
    (hFees :
      ∀ regime, input.fees.CanApply regime → regime.InRange)
    (hRegime : input.fees.CanApply regime) :
    ungrossedTarget input input.volBump.bump
        (floorNetOf input).floor ≤
      netPerShare (quotePrices input).ask
        regime.premiumFeeBps := by
  have hTarget :=
    (ungrossedTarget_spec input input.volBump.bump
      (floorNetOf input).floor).1
  have hGross :=
    (writeAsk_spec input input.volBump.bump
      (floorNetOf input).floor).2.2
  exact
    le_netPerShare_of_gross
      (priceTick_pos.le.trans hTarget.le)
      (hFees regime hRegime).premium.1
      (sellerFee_le_quoteFee hRegime .AskWrite)
      (quoteFee_le hFees .AskWrite)
      (hGross.trans (quotePrices_ask input).2.1)

/- The resale ask nets the target one tick under. -/
theorem quotePrices_resale_net
    (hFees :
      ∀ regime, input.fees.CanApply regime → regime.InRange)
    (hRegime : input.fees.CanApply regime) :
    underTarget input input.volBump.bump
        (floorNetOf input).floor ≤
      netPerShare (quotePrices input).resale
        regime.resaleFeeBps := by
  have hUnder :=
    (underTarget_spec input input.volBump.bump
      (floorNetOf input).floor).1
  have hResale := quotePrices_resale input
  have hRange := (hFees regime hRegime).resale
  by_cases hTick :
      priceTick ≤
        underTarget input input.volBump.bump
          (floorNetOf input).floor
  · have hGross :=
      (coreResale_spec input input.volBump.bump
        (floorNetOf input).floor).2.2.2 hTick
    exact
      le_netPerShare_of_gross hUnder.le hRange.1
        (sellerFee_le_quoteFee hRegime .AskResale)
        (quoteFee_le hFees .AskResale)
        (hGross.trans hResale.2.1)
  · rw [hUnder.eq_zero hTick]
    exact
      netPerShare_nonneg
        (priceTick_pos.le.trans hResale.1.le) hRange.2

/- What the asks leave the vault with, under one regime. -/
structure NetsTarget
    (input : PriceInput)
    (q : QuotePrices)
    (regime : FeeRegime) : Prop where
  ask :
    askTargetOf input ≤
      netPerShare q.ask regime.premiumFeeBps
  resale :
    floorTargetOf input ≤
      netPerShare q.resale regime.resaleFeeBps
  under :
    roundUpToTick (askTargetOf input) - priceTick ≤
      netPerShare q.resale regime.resaleFeeBps

/- Every ask nets its target, now and after a pending change. -/
theorem quotePrices_net
    (input : PriceInput)
    (hFees :
      ∀ regime, input.fees.CanApply regime →
        regime.InRange) :
    ∀ regime, input.fees.CanApply regime →
      NetsTarget input (quotePrices input) regime := by
  intro regime hRegime
  have hAsk := quotePrices_ask_net hFees hRegime
  have hResale := quotePrices_resale_net hFees hRegime
  have hTarget :=
    ungrossedTarget_spec input input.volBump.bump
      (floorNetOf input).floor
  have hUnder :=
    underTarget_spec input input.volBump.bump
      (floorNetOf input).floor
  have hFloor :
      floorTargetOf input ≤
        roundUpToTick (floorNetOf input).floor :=
    (floorTargetOf_le input).trans (le_roundUpToTick _)
  have hMet :
      askTargetOf input ≤
        ungrossedTarget input input.volBump.bump
          (floorNetOf input).floor :=
    max_le ((le_roundUpToTick _).trans hTarget.2.1)
      (hFloor.trans hTarget.2.2)
  constructor
  · exact hMet.trans hAsk
  · exact (hFloor.trans hUnder.2.1).trans hResale
  · have hRounded :=
      (roundUpToTick_le_iff hTarget.1.dvd
        (priceTick_pos.le.trans hTarget.1.le)).mpr hMet
    have hTick := sub_le_sub_right hRounded priceTick
    exact (hTick.trans hUnder.2.2).trans hResale

/- A call in the money, with a rise of both fees pending. -/
def risingFees : PriceInput :=
  { now := 0
    expiry := 86400
    series := some ⟨false, 180000000⟩
    fair := 2345678
    spot := 181000000
    askFloors := ⟨1000000, 1200000⟩
    bidCap := 1900000
    fees := ⟨⟨500, 0⟩, some ⟨⟨300, 700⟩, 3600⟩⟩
    params := ⟨500, 20000, 3600, 5000, 10, none, none⟩
    skew := 12345
    volBump := ⟨67890, .askIv⟩ }

theorem risingFees_inRange :
    ∀ regime, risingFees.fees.CanApply regime →
      regime.InRange := by
  rintro regime (rfl | ⟨pending, hPending, _, rfl⟩)
  · exact ⟨by decide, by decide⟩
  · cases hPending
    exact ⟨by decide, by decide⟩

theorem risingFees_net :
    NetsTarget risingFees (quotePrices risingFees)
        ⟨500, 0⟩ ∧
      NetsTarget risingFees (quotePrices risingFees)
        ⟨300, 700⟩ :=
  ⟨quotePrices_net risingFees risingFees_inRange ⟨500, 0⟩
      (Or.inl rfl),
    quotePrices_net risingFees risingFees_inRange ⟨300, 700⟩
      (Or.inr ⟨_, rfl, by decide, rfl⟩)⟩

end Callhouse.Keeper.Mm
