import Callhouse.Keeper.Mm.QuotePrices

/-
  keeper/src/v2/mm/spot-lag.ts: the floor under an ask and
  the cap over a bid at the spot the market can already have
  moved to, and the quote that keeps both.

  Black-Scholes prices and the square root of a horizon are
  floating point: those are inputs here.

  Main declarations:
    * `vaultAskBaseOf`, `spotLagOf`, `withSpotLag`
    * `mergeSpotLag`
    * `spotLag_admissible`
-/

----
-- Inputs
----

namespace Callhouse.Keeper.Mm

def minAskBpsOfSpot : Int := 50

def spotCorroborationAgeS : Int := 1800

structure SpotLagParams where
  spotLagBps : Int
  spotLagStaleBps : Int

def spotLagOn
    (params : SpotLagParams) : Bool :=
  decide (params.spotLagBps > 0) ||
    decide (params.spotLagStaleBps > 0)

structure LagSeries extends OptionTerms where
  expiry : Int

/- One Black-Scholes price in base units, rounded either way. -/
structure LagFigure where
  floor : Nat
  ceil : Nat
deriving DecidableEq

/-
  What the floating point answers for /fair's vol: the price
  at a spot and a time, or none, and one sigma of spot over a
  horizon, rounded up.
-/
structure LagFigures where
  usableVol : Bool
  priceAt : Int → Int → Option LagFigure
  sigmaBps : Int → Int → Nat

structure VaultFloor where
  askFloors : AskFloors
  askToleranceBps : Int

structure SpotLagInput where
  now : Int
  series : LagSeries
  fairSpot : Option Int
  figures : LagFigures
  spot : Int
  spotUpdatedAt : Option Int
  /- `none` also for a band that is not a whole number. -/
  oracleBandBps : Option Int
  fees : QuoteFees
  params : SpotLagParams
  bidAt : Option Int
  vaultFloor : Option VaultFloor

/- The base of the vault's ask floor, before the seller fee. -/
def vaultAskBaseOf
    (series : OptionTerms)
    (spot askToleranceBps : Int) : Int :=
  let intrinsic :=
    if series.isPut then
      if series.strike > spot then series.strike - spot else 0
    else if spot > series.strike then spot - series.strike
    else 0
  let tolerance := (spot * askToleranceBps).tdiv bps
  (if intrinsic > tolerance then intrinsic - tolerance
    else 0) +
    Grid.ceilDiv (spot * minAskBpsOfSpot) bps

----
-- The Spots
----

section

def upBy
    (s band : Int) : Int :=
  Grid.ceilDiv (s * (bps + band)) bps

def downBy
    (s band : Int) : Int :=
  (s * (bps - band)).tdiv bps

namespace SpotLagInput

variable (input : SpotLagInput)

/- /fair's spot where it sent one. -/
def other : Int :=
  match input.fairSpot with
  | some spot => if spot > 0 then spot else input.spot
  | none => input.spot

def high : Int :=
  if input.other > input.spot then input.other
  else input.spot

def low : Int :=
  if input.other < input.spot then input.other
  else input.spot

def spotRef : Int :=
  if input.series.isPut then input.low else input.high

def bidSpotRef : Int :=
  if input.series.isPut then input.high else input.low

def fresh : Bool :=
  match input.spotUpdatedAt with
  | none => false
  | some printed =>
      decide (input.now - printed ≤ spotCorroborationAgeS)

def bandBps : Int :=
  if input.fresh then input.params.spotLagBps
  else
    max input.params.spotLagStaleBps
      (input.oracleBandBps.getD 0)

def spotQ : Int :=
  if input.series.isPut then downBy input.spotRef input.bandBps
  else upBy input.spotRef input.bandBps

def bidSpotQ : Int :=
  if input.series.isPut then upBy input.bidSpotRef input.bandBps
  else downBy input.bidSpotRef input.bandBps

/- The time the quoted bid is capped at. -/
def bidTime : Int :=
  match input.bidAt with
  | none => input.now
  | some time =>
      if time > input.now then min time input.series.expiry
      else input.now

/- One sigma of spot up to the bid's time. -/
def cushionBps : Int :=
  min (bps - 1)
    (if input.bidTime = input.now then 0
    else (input.figures.sigmaBps input.now input.bidTime : Int))

def bidSpotAhead : Int :=
  if input.series.isPut then upBy input.bidSpotQ input.cushionBps
  else downBy input.bidSpotQ input.cushionBps

def askSpotAhead : Int :=
  if input.series.isPut then downBy input.spotQ input.cushionBps
  else upBy input.spotQ input.cushionBps

/- The highest and the lowest spot of the horizon. -/
def hi : Int :=
  upBy input.high input.cushionBps

def lo : Int :=
  downBy input.low input.cushionBps

/- How far the base of the vault's floor can rise. -/
def vaultRise : Int :=
  match input.vaultFloor with
  | none => 0
  | some vf =>
      let base := fun s =>
        vaultAskBaseOf input.series.toOptionTerms s
          vf.askToleranceBps
      [input.hi, input.lo].foldl
        (fun rise s =>
          if base s - base input.spot > rise then
            base s - base input.spot
          else rise)
        0

end SpotLagInput

end

----
-- Floors and Caps
----

/- The bound of each slot. -/
structure SlotBounds where
  write : Int
  resale : Int
  bid : Int
deriving DecidableEq

def SlotBounds.of
    (bounds : SlotBounds) : Slot → Int
  | .bid => bounds.bid
  | .write => bounds.write
  | .resale => bounds.resale

structure SpotLag where
  spotRef : Int
  spotQ : Int
  bandBps : Int
  lagFair : Int
  bidSpotRef : Int
  bidSpotQ : Int
  bidLagFair : Int
  bidAt : Int
  bidCushionBps : Int
  bidCapAhead : Int
  askCushionBps : Int
  lagFairAhead : Int
  askAhead : AskFloors
  floor : SlotBounds
deriving DecidableEq

structure SpotLagQuote extends SpotLag where
  raised : Bool
  bidCapped : Bool
deriving DecidableEq

/- The vault's read floor where the spot can take it. -/
def vaultAheadOf
    (input : SpotLagInput)
    (fee read : Int) : Int :=
  roundUpToTick
    (read +
      (if input.vaultRise = 0 then 0
      else (grossUpToTick input.vaultRise fee).price))

/- The price no new ask of the slot is quoted under. -/
def askAheadOf
    (input : SpotLagInput)
    (netAhead : Int)
    (kind : OrderKindName)
    (read : Option Int) : Int :=
  let fee := quoteFeeBpsOf kind input.fees
  let priced := (grossUpToTick netAhead fee).price
  match read with
  | none => priced
  | some read =>
      let vault := vaultAheadOf input fee read
      if vault > priced then vault else priced

/- The record of a series whose prices are all known. -/
def lagRecord
    (input : SpotLagInput)
    (ask bid bidAhead askAhead : LagFigure) : SpotLag :=
  let net := roundUpToTick ask.ceil
  let bidCap := roundDownToTick bid.floor
  let ahead := roundDownToTick bidAhead.floor
  let lagFairAhead :=
    if askAhead.ceil > ask.ceil then askAhead.ceil
    else ask.ceil
  let netAhead := roundUpToTick lagFairAhead
  { spotRef := input.spotRef
    spotQ := input.spotQ
    bandBps := input.bandBps
    lagFair := ask.ceil
    bidSpotRef := input.bidSpotRef
    bidSpotQ := input.bidSpotQ
    bidLagFair := bid.floor
    bidAt := input.bidTime
    bidCushionBps := input.cushionBps
    bidCapAhead := if ahead < bidCap then ahead else bidCap
    askCushionBps := input.cushionBps
    lagFairAhead := lagFairAhead
    askAhead :=
      { write :=
          askAheadOf input netAhead .AskWrite
            (input.vaultFloor.map (fun vf => vf.askFloors.write))
        resale :=
          askAheadOf input netAhead .AskResale
            (input.vaultFloor.map
              (fun vf => vf.askFloors.resale)) }
    floor :=
      { write :=
          (grossUpToTick net
            (quoteFeeBpsOf .AskWrite input.fees)).price
        resale :=
          (grossUpToTick net
            (quoteFeeBpsOf .AskResale input.fees)).price
        bid := bidCap } }

def bidAheadFigure
    (input : SpotLagInput)
    (bid : LagFigure) : Option LagFigure :=
  if input.bidTime = input.now then some bid
  else input.figures.priceAt input.bidSpotAhead input.bidTime

def askAheadFigure
    (input : SpotLagInput)
    (ask : LagFigure) : Option LagFigure :=
  if input.cushionBps = 0 then some ask
  else input.figures.priceAt input.askSpotAhead input.now

/- `none` where the inputs are not a Black-Scholes input. -/
def spotLagOf
    (input : SpotLagInput) : Option SpotLag :=
  let priceAt := input.figures.priceAt
  if input.spot ≤ 0 ∨ input.series.strike ≤ 0 ∨
      input.figures.usableVol = false then none
  else if input.bandBps ≥ bps then none
  else do
    let ask ← priceAt input.spotQ input.now
    let bid ← priceAt input.bidSpotQ input.now
    let bidAhead ← bidAheadFigure input bid
    let askAhead ← askAheadFigure input ask
    some (lagRecord input ask bid bidAhead askAhead)

----
-- The Quote with the Floor and the Cap
----

/- The highest of the first and the rest. -/
def most
    (x : Int)
    (xs : List Int) : Int :=
  xs.foldl (fun a b => if b > a then b else a) x

/-
  Asks only rise, to the highest of the two quotes, the slot's
  floor and its cushion; the bid only falls, to the cap at its
  own time, and below a tick there is none.
-/
def withSpotLag
    (prices lagged : QuotePrices)
    (lag : SpotLag) : QuotePrices × SpotLagQuote :=
  let ask :=
    most prices.ask
      [lagged.ask, lag.floor.write, lag.askAhead.write]
  let resale :=
    most prices.resale
      [lagged.resale, lag.floor.resale, lag.askAhead.resale]
  let cap :=
    if lag.bidCapAhead < lag.floor.bid then lag.bidCapAhead
    else lag.floor.bid
  let bidCapped :=
    match prices.bid with
    | none => false
    | some bid => decide (bid > cap)
  let bid :=
    if !bidCapped then prices.bid
    else if cap ≥ priceTick then some cap
    else none
  let clampedBy :=
    (prices.clampedBy ++
      lagged.clampedBy.filter
        (fun c => c = .feeOutOfRange)).eraseDups
  ({ prices with
      bid := bid
      ask := ask
      resale := resale
      clampedBy := clampedBy },
    { lag with
      raised :=
        decide (ask > prices.ask) ||
          decide (resale > prices.resale)
      bidCapped := bidCapped })

/-
  planner.ts, planTick: the quote at the fair, and with the
  guard on the same quote at the lag fair merged into it; the
  second quote has its own skew and bump. `none` is the
  series left unquoted.
-/
def mergeSpotLag
    (input : PriceInput)
    (lagInput : SpotLagInput)
    (lagSkew : Int)
    (lagBump : VolBump) :
    Option (QuotePrices × Option SpotLagQuote) :=
  let prices := quotePrices input
  if spotLagOn lagInput.params then
    match spotLagOf lagInput with
    | none => none
    | some lag =>
        let lagged :=
          quotePrices
            { input with
              fair := lag.lagFair
              skew := lagSkew
              volBump := lagBump }
        let merged := withSpotLag prices lagged lag
        some (merged.1, some merged.2)
  else some (prices, none)

----
-- Ticks of the Record
----

/- Every price of the record is on a tick. -/
structure LagTicks
    (lag : SpotLag) : Prop where
  writeFloor : priceTick ∣ lag.floor.write
  resaleFloor : priceTick ∣ lag.floor.resale
  bidFloor : priceTick ∣ lag.floor.bid
  writeAhead : priceTick ∣ lag.askAhead.write
  resaleAhead : priceTick ∣ lag.askAhead.resale
  bidAhead : priceTick ∣ lag.bidCapAhead

theorem askAheadOf_dvd
    (input : SpotLagInput)
    (netAhead : Int)
    (kind : OrderKindName)
    (read : Option Int) :
    priceTick ∣ askAheadOf input netAhead kind read := by
  unfold askAheadOf
  simp only
  cases read with
  | none => exact grossUpToTick_dvd _ _
  | some read =>
      simp only
      split
      · unfold vaultAheadOf
        exact dvd_roundUpToTick _
      · exact grossUpToTick_dvd _ _

variable {lag : SpotLag}

/- An answer is the record of four known prices. -/
theorem spotLagOf_eq_some
    {input : SpotLagInput}
    (h : spotLagOf input = some lag) :
    0 < input.spot ∧
      ∃ ask bid bidAhead askAhead,
        lag = lagRecord input ask bid bidAhead askAhead := by
  unfold spotLagOf at h
  simp only at h
  split at h
  · cases h
  · next hUsable =>
      split at h
      · cases h
      · simp only [Option.bind_eq_bind, Option.bind_eq_some_iff,
          Option.some.injEq] at h
        rcases h with
          ⟨ask, _, bid, _, bidAhead, _, askAhead, _, hEq⟩
        exact ⟨by omega, ask, bid, bidAhead, askAhead, hEq.symm⟩

theorem lagRecord_ticks
    (input : SpotLagInput)
    (ask bid bidAhead askAhead : LagFigure) :
    LagTicks (lagRecord input ask bid bidAhead askAhead) := by
  constructor
  · exact grossUpToTick_dvd _ _
  · exact grossUpToTick_dvd _ _
  · exact dvd_roundDownToTick _
  · exact askAheadOf_dvd _ _ _ _
  · exact askAheadOf_dvd _ _ _ _
  · unfold lagRecord
    simp only
    split
    · exact dvd_roundDownToTick _
    · exact dvd_roundDownToTick _

----
-- The Merged Quote
----

section

/- The highest of prices on ticks, by induction on the rest. -/
theorem most_spec
    {low x : Int}
    (hx : OnTick low x)
    (xs : List Int)
    (hxs : ∀ y ∈ xs, priceTick ∣ y) :
    OnTick low (most x xs) ∧ x ≤ most x xs ∧
      ∀ y ∈ xs, y ≤ most x xs := by
  unfold most
  induction xs generalizing x with
  | nil => exact ⟨hx, le_refl x, by simp⟩
  | cons b rest ih =>
      have hRaise := hx.raise (hxs b List.mem_cons_self)
      rcases ih hRaise.1
          (fun y hy => hxs y (List.mem_cons_of_mem b hy)) with
        ⟨hTick, hFirst, hRest⟩
      refine ⟨hTick, hRaise.2.2.trans hFirst, ?_⟩
      intro y hy
      rcases List.mem_cons.mp hy with rfl | hLater
      · exact hRaise.2.1.trans hFirst
      · exact hRest y hLater

/- What a merged quote promises, slot by slot. -/
structure LagAdmissible
    (input : PriceInput)
    (prices q : QuotePrices)
    (lag : SpotLag) : Prop where
  ask : OnTick priceTick q.ask
  resale : OnTick priceTick q.resale
  ask_floor : input.askFloors.write ≤ q.ask
  ask_lag : lag.floor.write ≤ q.ask
  ask_ahead : lag.askAhead.write ≤ q.ask
  ask_kept : prices.ask ≤ q.ask
  resale_floor : input.askFloors.resale ≤ q.resale
  resale_lag : lag.floor.resale ≤ q.resale
  resale_ahead : lag.askAhead.resale ≤ q.resale
  resale_kept : prices.resale ≤ q.resale
  bid :
    ∀ b, q.bid = some b →
      OnTick priceTick b ∧ b ≤ lag.floor.bid ∧
        b ≤ lag.bidCapAhead ∧
          ∃ unlagged, prices.bid = some unlagged ∧ b ≤ unlagged
  uncrossed :
    ∀ b, q.bid = some b → b < q.ask ∧ b < q.resale

variable {input : PriceInput} {lagged : QuotePrices}

/- The cap at the bid's own time, or the cap now. -/
theorem withSpotLag_bid
    {prices : QuotePrices}
    (hBid : ∀ b, prices.bid = some b → OnTick priceTick b)
    (hTicks : LagTicks lag)
    {b : Int}
    (h : (withSpotLag prices lagged lag).1.bid = some b) :
    OnTick priceTick b ∧ b ≤ lag.floor.bid ∧
      b ≤ lag.bidCapAhead ∧
        ∃ unlagged, prices.bid = some unlagged ∧
          b ≤ unlagged := by
  have hCap :
      priceTick ∣
          (if lag.bidCapAhead < lag.floor.bid then
            lag.bidCapAhead
          else lag.floor.bid) ∧
        (if lag.bidCapAhead < lag.floor.bid then
            lag.bidCapAhead
          else lag.floor.bid) ≤ lag.floor.bid ∧
        (if lag.bidCapAhead < lag.floor.bid then
            lag.bidCapAhead
          else lag.floor.bid) ≤ lag.bidCapAhead := by
    split
    · next hLess =>
        exact ⟨hTicks.bidAhead, hLess.le, le_refl _⟩
    · next hNot =>
        exact ⟨hTicks.bidFloor, le_refl _, not_lt.mp hNot⟩
  unfold withSpotLag at h
  simp only at h
  generalize
    (if lag.bidCapAhead < lag.floor.bid then lag.bidCapAhead
      else lag.floor.bid) = cap at h hCap
  cases hUnlagged : prices.bid with
  | none =>
      rw [hUnlagged] at h
      cases h
  | some unlagged =>
      rw [hUnlagged] at h
      simp only at h
      by_cases hOver : unlagged > cap
      · simp only [hOver, decide_true, Bool.not_true,
          Bool.false_eq_true, if_false] at h
        split at h
        · next hTick =>
            cases h
            exact
              ⟨⟨hCap.1, hTick⟩, hCap.2.1, hCap.2.2, unlagged,
                rfl, hOver.le⟩
        · cases h
      · simp only [hOver, decide_false, Bool.not_false,
          if_true, Option.some.injEq] at h
        subst h
        have hUnder := not_lt.mp hOver
        exact
          ⟨hBid unlagged hUnlagged, hUnder.trans hCap.2.1,
            hUnder.trans hCap.2.2, unlagged, rfl, le_refl _⟩

/- Asks rose and the bid fell, so they still do not cross. -/
theorem withSpotLag_admissible
    (hLagged : priceTick ∣ lagged.ask ∧ priceTick ∣ lagged.resale)
    (hTicks : LagTicks lag) :
    LagAdmissible input (quotePrices input)
      (withSpotLag (quotePrices input) lagged lag).1 lag := by
  have hAccepted := quotePrices_accepted input
  rcases most_spec hAccepted.ask
      [lagged.ask, lag.floor.write, lag.askAhead.write]
      (by
        simp only [List.mem_cons, List.not_mem_nil, or_false]
        rintro y (rfl | rfl | rfl)
        · exact hLagged.1
        · exact hTicks.writeFloor
        · exact hTicks.writeAhead) with
    ⟨hAsk, hAskKept, hAskLeast⟩
  rcases most_spec hAccepted.resale
      [lagged.resale, lag.floor.resale, lag.askAhead.resale]
      (by
        simp only [List.mem_cons, List.not_mem_nil, or_false]
        rintro y (rfl | rfl | rfl)
        · exact hLagged.2
        · exact hTicks.resaleFloor
        · exact hTicks.resaleAhead) with
    ⟨hResale, hResaleKept, hResaleLeast⟩
  have hBid :
      ∀ b,
        (withSpotLag (quotePrices input) lagged lag).1.bid =
            some b →
          OnTick priceTick b ∧ b ≤ lag.floor.bid ∧
            b ≤ lag.bidCapAhead ∧
              ∃ unlagged,
                (quotePrices input).bid = some unlagged ∧
                  b ≤ unlagged :=
    fun _ => withSpotLag_bid hAccepted.bid hTicks
  exact
    { ask := hAsk
      resale := hResale
      ask_floor := hAccepted.askFloor.trans hAskKept
      ask_lag := hAskLeast _ (by simp)
      ask_ahead := hAskLeast _ (by simp)
      ask_kept := hAskKept
      resale_floor := hAccepted.resaleFloor.trans hResaleKept
      resale_lag := hResaleLeast _ (by simp)
      resale_ahead := hResaleLeast _ (by simp)
      resale_kept := hResaleKept
      bid := hBid
      uncrossed := by
        intro b hb
        rcases hBid b hb with ⟨_, _, _, unlagged, hEq, hLe⟩
        rcases hAccepted.uncrossed unlagged hEq with
          ⟨hUnderAsk, hUnderResale⟩
        exact
          ⟨(hLe.trans_lt hUnderAsk).trans_le hAskKept,
            (hLe.trans_lt hUnderResale).trans_le
              hResaleKept⟩ }

end

----
-- Kept at Its Own Prices
----

def QuotePrices.priceOf
    (q : QuotePrices) : Slot → Option Int
  | .bid => q.bid
  | .write => some q.ask
  | .resale => some q.resale

/- config.ts reads neither knob as a negative number. -/
structure RequoteParams.InRange
    (params : RequoteParams) : Prop where
  requote : 0 ≤ params.requoteBps
  resize : 0 ≤ params.resizeBps

variable {price : Int}

theorem moveBps_self
    (h : 0 < price) :
    moveBps price price = some 0 := by
  unfold moveBps
  rw [if_neg (not_le.mpr h)]
  simp

theorem floorUnits_le
    {units resizeBps : Int}
    (hUnits : 0 ≤ units)
    (hResize : 0 ≤ resizeBps) :
    (units * (10000 - resizeBps)).tdiv bps ≤ units := by
  have hMost : units * (10000 - resizeBps) ≤ units * bps :=
    mul_le_mul_of_nonneg_left (by unfold bps; omega) hUnits
  rcases le_or_gt 0 (units * (10000 - resizeBps)) with
    hNonneg | hNeg
  · exact TruncDiv.tdiv_le_of_le_mul hNonneg bps_pos hMost
  · exact (TruncDiv.tdiv_nonpos hNeg.le bps_pos.le).trans hUnits

/- A whole order at its target, behind no guard, is left. -/
theorem judgeReplace_self
    {input : JudgeInput}
    (hGuard : brokenGuard input = none)
    (hParams : input.params.InRange)
    (hPrice : 0 < input.target.price)
    (hUnits : 0 ≤ input.target.units)
    (hSamePrice : input.order.price = input.target.price)
    (hSameUnits : input.order.remaining = input.target.units) :
    (judgeReplace input).replace = false := by
  have hFloor := floorUnits_le hUnits hParams.resize
  have hRequote :
      exceedsBps (some 0) input.params.requoteBps = false :=
    decide_eq_false (not_lt.mpr hParams.requote)
  unfold judgeReplace
  simp only [hGuard, hSamePrice, hSameUnits,
    moveBps_self hPrice, hRequote]
  simp [not_lt.mpr hFloor]

theorem brokenGuard_admissible
    {input : PriceInput}
    {q : QuotePrices}
    (h : LagAdmissible input (quotePrices input) q lag)
    {slot : Slot}
    (hPrice : q.priceOf slot = some price)
    {order : LiveOrder}
    (hOrder : order.price = price)
    (target : SlotTarget)
    (params : RequoteParams) :
    brokenGuard
      { order := order
        target := target
        slot := slot
        askFloors := input.askFloors
        bidCap := input.bidCap
        safeFloor := some (lag.floor.of slot)
        params := params } = none := by
  unfold brokenGuard
  simp only [hOrder]
  cases slot with
  | bid =>
      rcases h.bid price hPrice with
        ⟨_, hFloor, _, unlagged, hEq, hLe⟩
      have hCap :=
        hLe.trans
          ((quotePrices_accepted input).bidCap unlagged hEq)
      simp only
      rw [if_neg (not_lt.mpr hCap)]
      exact if_neg (not_lt.mpr hFloor)
  | write =>
      cases hPrice
      simp only [reduceCtorEq, if_false]
      rw [if_neg (not_lt.mpr h.ask_floor)]
      exact if_neg (not_lt.mpr h.ask_lag)
  | resale =>
      cases hPrice
      simp only [if_true]
      rw [if_neg (not_lt.mpr h.resale_floor)]
      exact if_neg (not_lt.mpr h.resale_lag)

theorem LagAdmissible.price_pos
    {input : PriceInput}
    {prices q : QuotePrices}
    (h : LagAdmissible input prices q lag)
    {slot : Slot}
    (hPrice : q.priceOf slot = some price) :
    0 < price := by
  cases slot with
  | bid =>
      exact priceTick_pos.trans_le (h.bid price hPrice).1.le
  | write =>
      cases hPrice
      exact priceTick_pos.trans_le h.ask.le
  | resale =>
      cases hPrice
      exact priceTick_pos.trans_le h.resale.le

/-
  The merged quote is admissible, and an order that rests at
  its price and size in any slot is not replaced.
-/
theorem spotLag_admissible
    {input : PriceInput}
    {lagInput : SpotLagInput}
    {lagSkew : Int}
    {lagBump : VolBump}
    {q : QuotePrices}
    {lag : SpotLagQuote}
    (h :
      mergeSpotLag input lagInput lagSkew lagBump =
        some (q, some lag)) :
    LagAdmissible input (quotePrices input) q lag.toSpotLag ∧
      ∀ params : RequoteParams, params.InRange →
        ∀ slot price, q.priceOf slot = some price →
          ∀ order : LiveOrder, order.price = price →
            0 ≤ order.remaining →
              (judgeReplace
                { order := order
                  target :=
                    { price := price, units := order.remaining }
                  slot := slot
                  askFloors := input.askFloors
                  bidCap := input.bidCap
                  safeFloor := some (lag.floor.of slot)
                  params := params }).replace = false := by
  unfold mergeSpotLag at h
  simp only at h
  split at h
  · cases hLag : spotLagOf lagInput with
    | none =>
        rw [hLag] at h
        cases h
    | some record =>
        rw [hLag] at h
        cases h
        rcases spotLagOf_eq_some hLag with
          ⟨_, ask, bid, bidAhead, askAhead, hRecord⟩
        have hTicks : LagTicks record :=
          hRecord ▸ lagRecord_ticks _ _ _ _ _
        have hLagged :=
          quotePrices_accepted
            { input with
              fair := record.lagFair
              skew := lagSkew
              volBump := lagBump }
        have hAdmissible :
            LagAdmissible input (quotePrices input)
              (withSpotLag (quotePrices input)
                (quotePrices
                  { input with
                    fair := record.lagFair
                    skew := lagSkew
                    volBump := lagBump })
                record).1 record :=
          withSpotLag_admissible
            ⟨hLagged.ask.dvd, hLagged.resale.dvd⟩ hTicks
        refine ⟨hAdmissible, ?_⟩
        intro params hParams slot price hPrice order hOrder
          hUnits
        exact
          judgeReplace_self
            (brokenGuard_admissible hAdmissible hPrice hOrder _
              params)
            hParams (hAdmissible.price_pos hPrice) hUnits hOrder
            rfl
  · cases h

/- A call at 45 % vol, a day out, whose print is fresh. -/
def lagCall : SpotLagInput :=
  { now := 0
    series :=
      { isPut := false, strike := 180000000, expiry := 86400 }
    fairSpot := some 181200000
    figures :=
      { usableVol := true
        priceAt := fun spot time =>
          if spot = 182106000 ∧ time = 0 then
            some { floor := 3270433, ceil := 3270434 }
          else if spot = 180095000 ∧ time = 0 then
            some { floor := 2083932, ceil := 2083933 }
          else if spot = 179680781 ∧ time = 52350 then
            some { floor := 1871598, ceil := 1871599 }
          else if spot = 182524844 ∧ time = 0 then
            some { floor := 3554831, ceil := 3554832 }
          else none
        sigmaBps := fun _ _ => 23 }
    spot := 181000000
    spotUpdatedAt := some (-100)
    oracleBandBps := some 150
    fees := risingFees.fees
    params := { spotLagBps := 50, spotLagStaleBps := 150 }
    bidAt := some 52350
    vaultFloor :=
      some
        { askFloors := risingFees.askFloors
          askToleranceBps := 100 } }

theorem lagCall_admissible :
    ∃ q lag,
      mergeSpotLag risingFees lagCall 12345
          { bump := 67890, reason := .askIv } =
        some (q, some lag) ∧
      q.bid = some 1871500 ∧
      (judgeReplace
        { order :=
            { id := 1
              kind := .Bid
              price := 1871500
              units := 10
              filled := 0
              validUntil := 52350
              cancelled := false }
          target := { price := 1871500, units := 10 }
          slot := .bid
          askFloors := risingFees.askFloors
          bidCap := risingFees.bidCap
          safeFloor := some (lag.floor.of .bid)
          params :=
            { requoteBps := 300
              resizeBps := 5000 } }).replace = false := by
  refine ⟨_, _, rfl, rfl, ?_⟩
  have hBoth :=
    @spotLag_admissible risingFees lagCall 12345
      { bump := 67890, reason := .askIv } _ _ rfl
  exact
    hBoth.2 _ ⟨by decide, by decide⟩ .bid 1871500 rfl _ rfl
      (by decide)

end Callhouse.Keeper.Mm
