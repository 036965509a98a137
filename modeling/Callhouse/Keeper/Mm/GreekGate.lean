import Callhouse.Keeper.Mm.Risk
import Callhouse.Lib.ExposureRange
import Mathlib.Data.Rat.Floor

/-
  keeper/src/v2/mm/risk.ts, the greek gate: the range of a
  market's net greeks and the sides a series may quote, over
  exact rationals; and the loop of a tick over its series.

  Main declarations:
    * `marketGreeksOf`, `greekBreach`, `gateGreeks`
    * `gateAll`
    * `gateSide_cases`
    * `gate_bounds_net`
-/

----
-- Markets
----

namespace Callhouse.Keeper.Mm

/- A limit of 0 is no limit. -/
structure GreekLimits where
  maxDeltaShares : ℚ
  maxGamma : ℚ
deriving DecidableEq

abbrev GreekRange : Type := ExposureRange.Range ℚ

structure MarketGreeks where
  delta : GreekRange
  gamma : GreekRange
  deltaUnknown : Bool
  gammaUnknown : Bool
deriving DecidableEq

inductive Greek where
  | delta
  | gamma
deriving DecidableEq

def GreekLimits.limitOf
    (limits : GreekLimits) : Greek → ℚ
  | .delta => limits.maxDeltaShares
  | .gamma => limits.maxGamma

def MarketGreeks.range
    (market : MarketGreeks) : Greek → GreekRange
  | .delta => market.delta
  | .gamma => market.gamma

def MarketGreeks.isUnknown
    (market : MarketGreeks) : Greek → Bool
  | .delta => market.deltaUnknown
  | .gamma => market.gammaUnknown

def MarketGreeks.flat : MarketGreeks :=
  { delta := { lo := 0, hi := 0 }
    gamma := { lo := 0, hi := 0 }
    deltaUnknown := false
    gammaUnknown := false }

/- A greek that is null or not finite is none. -/
structure GreekPosition where
  underlying : String
  units : Int
  delta : Option ℚ
  gamma : Option ℚ
deriving DecidableEq

def GreekPosition.greek
    (p : GreekPosition) : Greek → Option ℚ
  | .delta => p.delta
  | .gamma => p.gamma

def sharesOf
    (units : Int) : ℚ :=
  (units : ℚ) / unitsPerShare

/- An unknown greek adds nothing and marks the market. -/
def addToRange
    (range : GreekRange)
    (shares : ℚ) : Option ℚ → GreekRange
  | some greek =>
      { lo := range.lo + shares * greek
        hi := range.hi + shares * greek }
  | none => range

def marketGreeksOf
    (positions : List GreekPosition) :
    String → Option MarketGreeks :=
  positions.foldl
    (fun out p =>
      if p.units = 0 then out
      else
        let key := toLowerCase p.underlying
        let row := (out key).getD .flat
        let shares := sharesOf p.units
        Function.update out key
          (some
            { delta := addToRange row.delta shares p.delta
              gamma := addToRange row.gamma shares p.gamma
              deltaUnknown :=
                row.deltaUnknown || p.delta.isNone
              gammaUnknown :=
                row.gammaUnknown || p.gamma.isNone }))
    (fun _ => none)

----
-- The Gate
----

def greekBreach
    (range : GreekRange)
    (change limit : ℚ) : Bool :=
  if ¬ limit > 0 ∨ change = 0 then false
  else
    let start := if change < 0 then range.lo else range.hi
    let reached := start + change
    decide (|reached| > limit) && decide (|reached| > |start|)

inductive GateSide where
  | bid
  | ask
deriving DecidableEq

structure QuotedSeries where
  underlying : String
  delta : Option ℚ
  gamma : Option ℚ
  bidUnits : Int
  askUnits : Int
deriving DecidableEq

def QuotedSeries.greek
    (s : QuotedSeries) : Greek → Option ℚ
  | .delta => s.delta
  | .gamma => s.gamma

def QuotedSeries.units
    (s : QuotedSeries) : GateSide → Int
  | .bid => s.bidUnits
  | .ask => s.askUnits

def GateSide.sign : GateSide → ℚ
  | .bid => 1
  | .ask => -1

/- What the whole side filled would move the net greek by. -/
def sideChange
    (s : QuotedSeries)
    (side : GateSide)
    (g : Greek) : ℚ :=
  sharesOf (s.units side) * side.sign * (s.greek g).getD 0

inductive RefusalCause where
  | seriesUnknown
  | marketUnknown
  | past (start reached limit : ℚ)
deriving DecidableEq

structure GateReason where
  side : GateSide
  greek : Greek
  cause : RefusalCause
deriving DecidableEq

/- The number with this many decimals, half away from zero. -/
def toFixed
    (digits : Nat)
    (x : ℚ) : String :=
  let scaled := (⌊|x| * 10 ^ digits + 1 / 2⌋).toNat
  let decimals := toString (scaled % 10 ^ digits)
  (if x < 0 then "-" else "") ++
    toString (scaled / 10 ^ digits) ++ "." ++
      String.ofList
        (List.replicate (digits - decimals.length) '0') ++
        decimals

def GateReason.text
    (reason : GateReason) : String :=
  let side :=
    match reason.side with
    | .bid => "bid"
    | .ask => "ask"
  let greek :=
    match reason.greek with
    | .delta => "delta"
    | .gamma => "gamma"
  match reason.cause with
  | .seriesUnknown => s!"{side}: series {greek} unknown"
  | .marketUnknown =>
      s!"{side}: market net {greek} unknown " ++
        s!"(a held series has no {greek})"
  | .past start reached limit =>
      match reason.greek with
      | .delta =>
          s!"{side}: net delta {toFixed 2 start} -> " ++
            s!"{toFixed 2 reached} shares past {limit}"
      | .gamma =>
          s!"{side}: net gamma {toFixed 4 start} -> " ++
            s!"{toFixed 4 reached} past {limit}"

def seriesRefusal
    (limits : GreekLimits)
    (s : QuotedSeries)
    (side : GateSide)
    (g : Greek) : Option GateReason :=
  if limits.limitOf g > 0 ∧ s.greek g = none then
    some { side := side, greek := g, cause := .seriesUnknown }
  else none

def marketRefusal
    (limits : GreekLimits)
    (market : MarketGreeks)
    (side : GateSide)
    (g : Greek) : Option GateReason :=
  if limits.limitOf g > 0 ∧ market.isUnknown g = true then
    some { side := side, greek := g, cause := .marketUnknown }
  else none

def breachRefusal
    (limits : GreekLimits)
    (market : MarketGreeks)
    (s : QuotedSeries)
    (side : GateSide)
    (g : Greek) : Option GateReason :=
  let change := sideChange s side g
  let range := market.range g
  if greekBreach range change (limits.limitOf g) = true then
    let start := if change < 0 then range.lo else range.hi
    some
      { side := side
        greek := g
        cause :=
          .past start (start + change) (limits.limitOf g) }
  else none

/- The checks in the order the gate makes them. -/
def sideChecks
    (limits : GreekLimits)
    (market : MarketGreeks)
    (s : QuotedSeries)
    (side : GateSide) : List (Option GateReason) :=
  [seriesRefusal limits s side .delta,
    seriesRefusal limits s side .gamma,
    marketRefusal limits market side .delta,
    marketRefusal limits market side .gamma,
    breachRefusal limits market s side .delta,
    breachRefusal limits market s side .gamma]

def sideRefusal
    (limits : GreekLimits)
    (market : MarketGreeks)
    (s : QuotedSeries)
    (side : GateSide) : Option GateReason :=
  (sideChecks limits market s side).findSome? id

def MarketGreeks.widen
    (market : MarketGreeks)
    (dChange gChange : ℚ) : MarketGreeks :=
  { market with
    delta := ExposureRange.widen market.delta dChange
    gamma := ExposureRange.widen market.gamma gChange }

/- Whether the side may quote, why not, and the market after. -/
def gateSide
    (limits : GreekLimits)
    (market : MarketGreeks)
    (s : QuotedSeries)
    (side : GateSide) :
    Bool × List GateReason × MarketGreeks :=
  if s.units side ≤ 0 then (true, [], market)
  else
    match sideRefusal limits market s side with
    | some reason => (false, [reason], market)
    | none =>
        (true, [],
          market.widen (sideChange s side .delta)
            (sideChange s side .gamma))

structure GreekGate where
  bid : Bool
  ask : Bool
  reasons : List GateReason
deriving DecidableEq

def gateGreeks
    (limits : GreekLimits)
    (market : MarketGreeks)
    (s : QuotedSeries) : GreekGate × MarketGreeks :=
  let bid := gateSide limits market s .bid
  let ask := gateSide limits bid.2.2 s .ask
  ({ bid := bid.1
     ask := ask.1
     reasons := bid.2.1 ++ ask.2.1 },
    ask.2.2)

/- planner.ts, planTick: every quoted series, by rank. -/
def gateAll
    (limits : GreekLimits) :
    (String → Option MarketGreeks) → List QuotedSeries →
      List GreekGate × (String → Option MarketGreeks)
  | markets, [] => ([], markets)
  | markets, s :: rest =>
      let key := toLowerCase s.underlying
      let gated :=
        gateGreeks limits ((markets key).getD .flat) s
      let gates :=
        gateAll limits
          (Function.update markets key (some gated.2)) rest
      (gated.1 :: gates.1, gates.2)

----
-- What a Side Can Do
----

section

theorem greekBreach_iff
    (range : GreekRange)
    (change limit : ℚ) :
    greekBreach range change limit = true ↔
      ExposureRange.Breaches range change limit := by
  unfold greekBreach ExposureRange.Breaches
    ExposureRange.Range.start
  by_cases hOff : ¬ limit > 0 ∨ change = 0
  · rw [if_pos hOff]
    constructor
    · intro h
      cases h
    · rintro ⟨hLimit, hMove, _⟩
      rcases hOff with h | h
      · exact absurd hLimit h
      · exact absurd h hMove
  · rw [if_neg hOff]
    simp only [not_or, not_not] at hOff
    simp only [Bool.and_eq_true, decide_eq_true_eq, gt_iff_lt]
    exact ⟨fun h => ⟨hOff.1, hOff.2, h⟩, fun h => h.2.2⟩

variable {limits : GreekLimits} {market : MarketGreeks}
variable {s : QuotedSeries} {side : GateSide}

/- The causes a side is not refused for. -/
structure Admitted
    (limits : GreekLimits)
    (market : MarketGreeks)
    (s : QuotedSeries)
    (side : GateSide)
    (g : Greek) : Prop where
  series_known : 0 < limits.limitOf g → s.greek g ≠ none
  market_known :
    0 < limits.limitOf g → market.isUnknown g = false
  inside :
    ¬ ExposureRange.Breaches (market.range g)
      (sideChange s side g) (limits.limitOf g)

theorem sideRefusal_none
    (h : sideRefusal limits market s side = none)
    (g : Greek) :
    Admitted limits market s side g := by
  have hNone := List.findSome?_eq_none_iff.mp h
  have hAll :
      seriesRefusal limits s side g = none ∧
        marketRefusal limits market side g = none ∧
          breachRefusal limits market s side g = none := by
    refine
      ⟨hNone (seriesRefusal limits s side g) ?_,
        hNone (marketRefusal limits market side g) ?_,
        hNone (breachRefusal limits market s side g) ?_⟩
    all_goals
      cases g with
      | delta => simp [sideChecks]
      | gamma => simp [sideChecks]
  rcases hAll with ⟨hSeries, hMarket, hBreach⟩
  unfold seriesRefusal at hSeries
  unfold marketRefusal at hMarket
  unfold breachRefusal at hBreach
  simp only [ite_eq_right_iff, reduceCtorEq, imp_false]
    at hSeries hMarket hBreach
  refine ⟨?_, ?_, ?_⟩
  · exact fun hOn hNone => hSeries ⟨hOn, hNone⟩
  · intro hOn
    rw [← Bool.not_eq_true]
    exact fun hUnknown => hMarket ⟨hOn, hUnknown⟩
  · rwa [← greekBreach_iff]

/- A refusal for a breach is one of the side's own breach. -/
theorem sideRefusal_past
    {reason : GateReason}
    (h : sideRefusal limits market s side = some reason)
    {start reached limit : ℚ}
    (hCause : reason.cause = .past start reached limit) :
    reason.side = side ∧
      ExposureRange.Breaches (market.range reason.greek)
        (sideChange s side reason.greek)
        (limits.limitOf reason.greek) := by
  have hOne :
      (∃ g, seriesRefusal limits s side g = some reason) ∨
        (∃ g, marketRefusal limits market side g = some reason) ∨
          ∃ g, breachRefusal limits market s side g =
            some reason := by
    rcases List.exists_of_findSome?_eq_some h with
      ⟨check, hCheck, hSome⟩
    have hSome' : check = some reason := hSome
    subst hSome'
    unfold sideChecks at hCheck
    simp only [List.mem_cons, List.not_mem_nil, or_false]
      at hCheck
    rcases hCheck with h | h | h | h | h | h
    · exact .inl ⟨_, h.symm⟩
    · exact .inl ⟨_, h.symm⟩
    · exact .inr (.inl ⟨_, h.symm⟩)
    · exact .inr (.inl ⟨_, h.symm⟩)
    · exact .inr (.inr ⟨_, h.symm⟩)
    · exact .inr (.inr ⟨_, h.symm⟩)
  rcases hOne with ⟨g, h⟩ | ⟨g, h⟩ | ⟨g, h⟩
  · unfold seriesRefusal at h
    split at h
    · cases h
      cases hCause
    · cases h
  · unfold marketRefusal at h
    split at h
    · cases h
      cases hCause
    · cases h
  · unfold breachRefusal at h
    simp only at h
    split at h
    · next hBreach =>
        cases h
        exact ⟨rfl, (greekBreach_iff _ _ _).mp hBreach⟩
    · cases h

/- Nothing to quote, refused, or admitted and widened. -/
theorem gateSide_cases
    (limits : GreekLimits)
    (market : MarketGreeks)
    (s : QuotedSeries)
    (side : GateSide) :
    (s.units side ≤ 0 ∧
        gateSide limits market s side = (true, [], market)) ∨
      (0 < s.units side ∧
        ∃ reason,
          sideRefusal limits market s side = some reason ∧
            gateSide limits market s side =
              (false, [reason], market)) ∨
      (0 < s.units side ∧
        sideRefusal limits market s side = none ∧
          gateSide limits market s side =
            (true, [],
              market.widen (sideChange s side .delta)
                (sideChange s side .gamma))) := by
  unfold gateSide
  by_cases hUnits : s.units side ≤ 0
  · exact .inl ⟨hUnits, if_pos hUnits⟩
  · right
    rw [if_neg hUnits]
    cases h : sideRefusal limits market s side with
    | some reason =>
        exact .inl ⟨by omega, reason, rfl, rfl⟩
    | none => exact .inr ⟨by omega, rfl, rfl⟩

@[simp]
theorem range_widen
    (market : MarketGreeks)
    (dChange gChange : ℚ)
    (g : Greek) :
    (market.widen dChange gChange).range g =
      ExposureRange.widen (market.range g)
        (match g with
          | .delta => dChange
          | .gamma => gChange) := by
  cases g with
  | delta => rfl
  | gamma => rfl

@[simp]
theorem isUnknown_widen
    (market : MarketGreeks)
    (dChange gChange : ℚ)
    (g : Greek) :
    (market.widen dChange gChange).isUnknown g =
      market.isUnknown g := by
  cases g with
  | delta => rfl
  | gamma => rfl

/- The change of an allowed side with something to quote. -/
def allowedChanges
    (s : QuotedSeries)
    (gate : GreekGate)
    (g : Greek) : List ℚ :=
  (if gate.bid = true ∧ 0 < s.bidUnits then
    [sideChange s .bid g]
  else []) ++
    if gate.ask = true ∧ 0 < s.askUnits then
      [sideChange s .ask g]
    else []

/- What filling a part of each side moves the net greek by. -/
structure GreekFill where
  bid : ℚ
  ask : ℚ
deriving DecidableEq

def GreekFill.change
    (f : GreekFill)
    (s : QuotedSeries)
    (g : Greek) : ℚ :=
  (f.bid - f.ask) / unitsPerShare * (s.greek g).getD 0

/- Only allowed sides fill, in any amount up to their size. -/
structure Fills
    (s : QuotedSeries)
    (gate : GreekGate)
    (f : GreekFill) : Prop where
  bid_nonneg : 0 ≤ f.bid
  bid_le : f.bid ≤ max 0 (s.bidUnits : ℚ)
  bid_allowed : gate.bid = false → f.bid = 0
  ask_nonneg : 0 ≤ f.ask
  ask_le : f.ask ≤ max 0 (s.askUnits : ℚ)
  ask_allowed : gate.ask = false → f.ask = 0

end

----
-- One Series
----

section

variable {limits : GreekLimits} {market : MarketGreeks}
variable {s : QuotedSeries} {side : GateSide} {g : Greek}

theorem gateSide_range
    (limits : GreekLimits)
    (market : MarketGreeks)
    (s : QuotedSeries)
    (side : GateSide)
    (g : Greek) :
    (gateSide limits market s side).2.2.range g =
      if (gateSide limits market s side).1 = true ∧
          0 < s.units side then
        ExposureRange.widen (market.range g)
          (sideChange s side g)
      else market.range g := by
  rcases gateSide_cases limits market s side with
    ⟨hUnits, h⟩ | ⟨_, reason, _, h⟩ | ⟨hUnits, _, h⟩
  · rw [h, if_neg (fun hBoth => not_lt.mpr hUnits hBoth.2)]
  · rw [h, if_neg (by simp)]
  · rw [h, if_pos ⟨rfl, hUnits⟩, range_widen]
    cases g with
    | delta => rfl
    | gamma => rfl

theorem gateSide_isUnknown
    (limits : GreekLimits)
    (market : MarketGreeks)
    (s : QuotedSeries)
    (side : GateSide)
    (g : Greek) :
    (gateSide limits market s side).2.2.isUnknown g =
      market.isUnknown g := by
  rcases gateSide_cases limits market s side with
    ⟨_, h⟩ | ⟨_, reason, _, h⟩ | ⟨_, _, h⟩
  · rw [h]
  · rw [h]
  · rw [h, isUnknown_widen]

theorem gateSide_admitted
    (hUnits : 0 < s.units side)
    (hAllowed : (gateSide limits market s side).1 = true)
    (g : Greek) :
    Admitted limits market s side g := by
  rcases gateSide_cases limits market s side with
    ⟨hNone, _⟩ | ⟨_, reason, _, h⟩ | ⟨_, hNone, _⟩
  · exact absurd hUnits (not_lt.mpr hNone)
  · rw [h] at hAllowed
    cases hAllowed
  · exact sideRefusal_none hNone g

theorem gateSide_past
    {reason : GateReason}
    (h : reason ∈ (gateSide limits market s side).2.1)
    {start reached limit : ℚ}
    (hCause : reason.cause = .past start reached limit) :
    reason.side = side ∧
      ExposureRange.Breaches (market.range reason.greek)
        (sideChange s side reason.greek)
        (limits.limitOf reason.greek) := by
  rcases gateSide_cases limits market s side with
    ⟨_, hGate⟩ | ⟨_, reason', hRefused, hGate⟩ | ⟨_, _, hGate⟩
  · rw [hGate] at h
    cases h
  · rw [hGate] at h
    rw [List.mem_singleton.mp h] at hCause ⊢
    exact sideRefusal_past hRefused hCause
  · rw [hGate] at h
    cases h

theorem gateSide_within
    (limits : GreekLimits)
    (market : MarketGreeks)
    (s : QuotedSeries)
    (side : GateSide)
    (g : Greek) :
    (market.range g).Within
      ((gateSide limits market s side).2.2.range g) := by
  rw [gateSide_range]
  split
  · exact ExposureRange.within_widen _ _
  · exact ⟨le_refl _, le_refl _⟩

theorem gateSide_bounded
    {start : ℚ}
    (hLimit : 0 < limits.limitOf g)
    (h :
      ExposureRange.Bounded (limits.limitOf g) start
        (market.range g)) :
    ExposureRange.Bounded (limits.limitOf g) start
      ((gateSide limits market s side).2.2.range g) := by
  rw [gateSide_range]
  split
  · next hBoth =>
      exact
        h.widen hLimit
          (gateSide_admitted hBoth.2 hBoth.1 g).inside
  · exact h

/- Some of the side fills: some part of its whole change. -/
theorem part_of_filled
    {filled : ℚ}
    (hNonneg : 0 ≤ filled)
    (hLe : filled ≤ (s.units side : ℚ)) :
    ExposureRange.Part
      (filled / unitsPerShare * side.sign *
        (s.greek g).getD 0)
      (sideChange s side g) := by
  have hShare : filled / unitsPerShare ≤ sharesOf (s.units side) := by
    unfold sharesOf
    apply div_le_div_of_nonneg_right hLe
    norm_num [unitsPerShare]
  have hShareNonneg : 0 ≤ filled / (unitsPerShare : ℚ) := by
    apply div_nonneg hNonneg
    norm_num [unitsPerShare]
  unfold ExposureRange.Part sideChange
  rw [mul_assoc, mul_assoc]
  rcases le_total 0 (side.sign * (s.greek g).getD 0) with
    hUp | hDown
  · exact
      .inl
        ⟨mul_nonneg hShareNonneg hUp,
          mul_le_mul_of_nonneg_right hShare hUp⟩
  · exact
      .inr
        ⟨mul_le_mul_of_nonpos_right hShare hDown,
          mul_nonpos_of_nonneg_of_nonpos hShareNonneg hDown⟩

theorem gateSide_contains
    (side : GateSide)
    {net filled : ℚ}
    (h : (market.range g).Contains net)
    (hNonneg : 0 ≤ filled)
    (hLe : filled ≤ max 0 (s.units side : ℚ))
    (hAllowed :
      (gateSide limits market s side).1 = false →
        filled = 0) :
    ((gateSide limits market s side).2.2.range g).Contains
      (net +
        filled / unitsPerShare * side.sign *
          (s.greek g).getD 0) := by
  rw [gateSide_range]
  split
  · next hBoth =>
      have hUnits : (0 : ℚ) ≤ s.units side := by
        exact_mod_cast hBoth.2.le
      rw [max_eq_right hUnits] at hLe
      exact
        ExposureRange.contains_widen h
          (part_of_filled hNonneg hLe)
  · next hNot =>
      have hZero : filled = 0 := by
        by_cases hOpen :
            (gateSide limits market s side).1 = true
        · have hUnits : (s.units side : ℚ) ≤ 0 := by
            exact_mod_cast
              not_lt.mp (fun hPos => hNot ⟨hOpen, hPos⟩)
          rw [max_eq_left hUnits] at hLe
          exact le_antisymm hLe hNonneg
        · exact hAllowed (Bool.eq_false_iff.mpr hOpen)
      rw [hZero, zero_div, zero_mul, zero_mul, add_zero]
      exact h

/- Both sides: the range widens by what is allowed. -/
theorem gateGreeks_range
    (limits : GreekLimits)
    (market : MarketGreeks)
    (s : QuotedSeries)
    (g : Greek) :
    (gateGreeks limits market s).2.range g =
      (allowedChanges s (gateGreeks limits market s).1 g).foldl
        ExposureRange.widen (market.range g) := by
  have hSide :
      ∀ (allowed : Prop) [Decidable allowed]
        (range : GreekRange) (change : ℚ),
        (if allowed then ExposureRange.widen range change
          else range) =
          (if allowed then [change] else []).foldl
            ExposureRange.widen range := by
    intro allowed _ range change
    split
    · rfl
    · rfl
  unfold gateGreeks allowedChanges
  simp only
  rw [gateSide_range, gateSide_range, List.foldl_append, hSide,
    hSide]
  rfl

theorem gateGreeks_bounded
    {start : ℚ}
    (hLimit : 0 < limits.limitOf g)
    (h :
      ExposureRange.Bounded (limits.limitOf g) start
        (market.range g)) :
    ExposureRange.Bounded (limits.limitOf g) start
      ((gateGreeks limits market s).2.range g) :=
  gateSide_bounded hLimit (gateSide_bounded hLimit h)

theorem gateGreeks_contains
    {net : ℚ}
    {f : GreekFill}
    (h : (market.range g).Contains net)
    (hFill : Fills s (gateGreeks limits market s).1 f) :
    ((gateGreeks limits market s).2.range g).Contains
      (net + f.change s g) := by
  have hBid :=
    gateSide_contains .bid h hFill.bid_nonneg
      hFill.bid_le hFill.bid_allowed
  have hAsk :=
    gateSide_contains .ask hBid hFill.ask_nonneg
      hFill.ask_le hFill.ask_allowed
  have hSum :
      net + f.change s g =
        net +
            f.bid / unitsPerShare * GateSide.bid.sign *
              (s.greek g).getD 0 +
          f.ask / unitsPerShare * GateSide.ask.sign *
            (s.greek g).getD 0 := by
    unfold GreekFill.change GateSide.sign
    ring
  rw [hSum]
  exact hAsk

theorem gateGreeks_within
    (limits : GreekLimits)
    (market : MarketGreeks)
    (s : QuotedSeries)
    (g : Greek) :
    (market.range g).Within
      ((gateGreeks limits market s).2.range g) :=
  (gateSide_within limits market s .bid g).trans
    (gateSide_within limits _ s .ask g)

theorem gateGreeks_isUnknown
    (limits : GreekLimits)
    (market : MarketGreeks)
    (s : QuotedSeries)
    (g : Greek) :
    (gateGreeks limits market s).2.isUnknown g =
      market.isUnknown g := by
  unfold gateGreeks
  simp only
  rw [gateSide_isUnknown, gateSide_isUnknown]

def GreekGate.allows
    (gate : GreekGate) : GateSide → Bool
  | .bid => gate.bid
  | .ask => gate.ask

/- With the greek unknown anywhere, no side is opened. -/
theorem gateGreeks_unknown
    (hLimit : 0 < limits.limitOf g)
    (hUnknown :
      s.greek g = none ∨ market.isUnknown g = true)
    (hUnits : 0 < s.units side) :
    ((gateGreeks limits market s).1.allows side) = false := by
  have hSide :
      ∀ market' : MarketGreeks,
        market'.isUnknown g = market.isUnknown g →
          (gateSide limits market' s side).1 = false := by
    intro market' hSame
    rw [← Bool.not_eq_true]
    intro hAllowed
    have hIn := gateSide_admitted hUnits hAllowed g
    rcases hUnknown with hSeries | hMarket
    · exact hIn.series_known hLimit hSeries
    · have hKnown := hIn.market_known hLimit
      rw [hSame, hMarket] at hKnown
      cases hKnown
  cases side with
  | bid => exact hSide market rfl
  | ask => exact hSide _ (gateSide_isUnknown _ _ _ _ _)

/- A breach is judged on a range no wider than the last. -/
theorem gateGreeks_past
    {reason : GateReason}
    (h : reason ∈ (gateGreeks limits market s).1.reasons)
    {start reached limit : ℚ}
    (hCause : reason.cause = .past start reached limit) :
    ∃ r : GreekRange,
      r.Within
          ((gateGreeks limits market s).2.range
            reason.greek) ∧
        ExposureRange.Breaches r
          (sideChange s reason.side reason.greek)
          (limits.limitOf reason.greek) := by
  rcases List.mem_append.mp h with hBid | hAsk
  · rcases gateSide_past hBid hCause with ⟨hSide, hBreach⟩
    refine ⟨market.range reason.greek, ?_, ?_⟩
    · exact gateGreeks_within limits market s reason.greek
    · rw [hSide]
      exact hBreach
  · rcases gateSide_past hAsk hCause with ⟨hSide, hBreach⟩
    refine ⟨_, ?_, hSide ▸ hBreach⟩
    exact gateSide_within limits _ s .ask reason.greek

end

----
-- The Loop of a Tick
----

section

variable {limits : GreekLimits} {market : String} {g : Greek}

/- What a tick holds of a market, the key in lower case. -/
def marketAt
    (markets : String → Option MarketGreeks)
    (market : String) : MarketGreeks :=
  (markets (toLowerCase market)).getD .flat

def QuotedSeries.isOf
    (s : QuotedSeries)
    (market : String) : Bool :=
  decide (toLowerCase s.underlying = toLowerCase market)

/- The allowed changes of a market, over the whole tick. -/
def marketChanges
    (run : List (QuotedSeries × GreekGate))
    (market : String)
    (g : Greek) : List ℚ :=
  run.flatMap
    (fun p =>
      if p.1.isOf market = true then allowedChanges p.1 p.2 g
      else [])

/- What the fills of a tick move a market's net greek by. -/
def fillsChange
    (market : String)
    (g : Greek) :
    List QuotedSeries → List GreekFill → ℚ
  | s :: series, f :: fills =>
      (if s.isOf market = true then f.change s g else 0) +
        fillsChange market g series fills
  | _, _ => 0

def gateRun
    (limits : GreekLimits)
    (markets : String → Option MarketGreeks)
    (series : List QuotedSeries) :
    List (QuotedSeries × GreekGate) :=
  series.zip (gateAll limits markets series).1

/- The markets after the first series of a tick. -/
def gateNext
    (limits : GreekLimits)
    (markets : String → Option MarketGreeks)
    (s : QuotedSeries) : String → Option MarketGreeks :=
  Function.update markets (toLowerCase s.underlying)
    (some
      (gateGreeks limits (marketAt markets s.underlying) s).2)

theorem gateRun_cons
    (limits : GreekLimits)
    (markets : String → Option MarketGreeks)
    (s : QuotedSeries)
    (rest : List QuotedSeries) :
    gateRun limits markets (s :: rest) =
      (s,
          (gateGreeks limits (marketAt markets s.underlying)
            s).1) ::
        gateRun limits (gateNext limits markets s) rest :=
  rfl

theorem gateAll_markets_cons
    (limits : GreekLimits)
    (markets : String → Option MarketGreeks)
    (s : QuotedSeries)
    (rest : List QuotedSeries) :
    (gateAll limits markets (s :: rest)).2 =
      (gateAll limits (gateNext limits markets s) rest).2 :=
  rfl

theorem marketAt_gateNext
    (limits : GreekLimits)
    (markets : String → Option MarketGreeks)
    (s : QuotedSeries)
    (market : String) :
    marketAt (gateNext limits markets s) market =
      if s.isOf market = true then
        (gateGreeks limits (marketAt markets market) s).2
      else marketAt markets market := by
  unfold marketAt gateNext QuotedSeries.isOf
  by_cases hSame :
      toLowerCase s.underlying = toLowerCase market
  · rw [if_pos (decide_eq_true hSame), ← hSame,
      Function.update_self]
    unfold marketAt
    rfl
  · rw [if_neg (by simpa using hSame),
      Function.update_of_ne (Ne.symm hSame)]

theorem gateAll_range
    (limits : GreekLimits)
    (markets : String → Option MarketGreeks)
    (series : List QuotedSeries)
    (market : String)
    (g : Greek) :
    (marketAt (gateAll limits markets series).2 market).range g =
      (marketChanges (gateRun limits markets series) market
        g).foldl ExposureRange.widen
          ((marketAt markets market).range g) := by
  induction series generalizing markets with
  | nil => rfl
  | cons s rest ih =>
      rw [gateAll_markets_cons, ih, gateRun_cons,
        marketAt_gateNext]
      unfold marketChanges
      rw [List.flatMap_cons, List.foldl_append]
      by_cases hOf : s.isOf market = true
      · have hMarket :
            marketAt markets s.underlying =
              marketAt markets market := by
          unfold marketAt
          rw [of_decide_eq_true hOf]
        simp only [if_pos hOf, gateGreeks_range, hMarket]
      · simp only [if_neg hOf, List.foldl_nil]

theorem gateAll_within
    (limits : GreekLimits)
    (markets : String → Option MarketGreeks)
    (series : List QuotedSeries)
    (market : String)
    (g : Greek) :
    ((marketAt markets market).range g).Within
      ((marketAt (gateAll limits markets series).2
        market).range g) := by
  rw [gateAll_range]
  generalize (marketAt markets market).range g = r
  generalize
    marketChanges (gateRun limits markets series) market g =
      changes
  induction changes generalizing r with
  | nil => exact ⟨le_refl _, le_refl _⟩
  | cons c rest ih =>
      exact (ExposureRange.within_widen r c).trans (ih _)

variable {markets : String → Option MarketGreeks}
variable {series : List QuotedSeries}

/-
  Series by series, the range stays bounded and holds the net
  after any fills.
-/
theorem gateAll_bounds
    (hLimit : 0 < limits.limitOf g)
    {start : ℚ}
    (hBounded :
      ExposureRange.Bounded (limits.limitOf g) start
        ((marketAt markets market).range g))
    {net : ℚ}
    (hNet : ((marketAt markets market).range g).Contains net)
    {fills : List GreekFill}
    (hFills :
      List.Forall₂ (fun p f => Fills p.1 p.2 f)
        (gateRun limits markets series) fills) :
    |net + fillsChange market g series fills| ≤
      max (limits.limitOf g) |start| := by
  induction series generalizing markets net fills with
  | nil =>
      cases hFills
      unfold fillsChange
      rw [add_zero]
      exact hBounded.net_le hNet
  | cons s rest ih =>
      rw [gateRun_cons] at hFills
      cases hFills with
      | cons hFill hRest =>
          unfold fillsChange
          rw [← add_assoc]
          apply ih _ _ hRest
          · rw [marketAt_gateNext]
            split
            · exact gateGreeks_bounded hLimit hBounded
            · exact hBounded
          · rw [marketAt_gateNext]
            split
            · next hOf =>
                have hMarket :
                    marketAt markets s.underlying =
                      marketAt markets market := by
                  unfold marketAt
                  rw [of_decide_eq_true hOf]
                rw [hMarket] at hFill
                exact gateGreeks_contains hNet hFill
            · rw [add_zero]
              exact hNet

theorem gateAll_unknown
    (hLimit : 0 < limits.limitOf g)
    {p : QuotedSeries × GreekGate}
    (hp : p ∈ gateRun limits markets series)
    (hOf : p.1.isOf market = true)
    (hUnknown :
      p.1.greek g = none ∨
        (marketAt markets market).isUnknown g = true)
    {side : GateSide}
    (hUnits : 0 < p.1.units side) :
    p.2.allows side = false := by
  induction series generalizing markets with
  | nil => cases hp
  | cons s rest ih =>
      rw [gateRun_cons] at hp
      rcases List.mem_cons.mp hp with rfl | hp
      · apply gateGreeks_unknown hLimit _ hUnits
        have hMarket :
            marketAt markets s.underlying =
              marketAt markets market := by
          unfold marketAt
          rw [of_decide_eq_true hOf]
        rwa [hMarket]
      · apply ih hp
        have hSame :
            (marketAt (gateNext limits markets s)
                market).isUnknown g =
              (marketAt markets market).isUnknown g := by
          rw [marketAt_gateNext]
          split
          · exact gateGreeks_isUnknown _ _ _ _
          · rfl
        rwa [hSame]

/- What is refused is past the limit from the last range too. -/
theorem gateAll_past
    {p : QuotedSeries × GreekGate}
    (hp : p ∈ gateRun limits markets series)
    (hOf : p.1.isOf market = true)
    {reason : GateReason}
    (hReason : reason ∈ p.2.reasons)
    {start reached limit : ℚ}
    (hCause : reason.cause = .past start reached limit) :
    ∃ r : GreekRange,
      r.Within
          ((marketAt (gateAll limits markets series).2
            market).range reason.greek) ∧
        ExposureRange.Breaches r
          (sideChange p.1 reason.side reason.greek)
          (limits.limitOf reason.greek) := by
  induction series generalizing markets with
  | nil => cases hp
  | cons s rest ih =>
      rw [gateAll_markets_cons]
      rw [gateRun_cons] at hp
      rcases List.mem_cons.mp hp with rfl | hp
      · have hMarket :
            marketAt markets s.underlying =
              marketAt markets market := by
          unfold marketAt
          rw [of_decide_eq_true hOf]
        rcases gateGreeks_past hReason hCause with
          ⟨r, hWithin, hBreach⟩
        refine ⟨r, ?_, hBreach⟩
        apply hWithin.trans
        have hNext := marketAt_gateNext limits markets s market
        rw [if_pos hOf, ← hMarket] at hNext
        rw [← hNext]
        exact gateAll_within limits _ rest market reason.greek
      · exact ih hp

end

----
-- The Start of a Tick
----

def GreekPosition.isOf
    (p : GreekPosition)
    (market : String) : Bool :=
  decide (toLowerCase p.underlying = toLowerCase market)

/- The known part of a market's net greek. -/
def netGreekOf
    (positions : List GreekPosition)
    (market : String)
    (g : Greek) : ℚ :=
  (positions.map
    (fun p =>
      if p.isOf market = true then
        sharesOf p.units * (p.greek g).getD 0
      else 0)).sum

/- A held position of the market whose greek is unknown. -/
def HoldsUnknown
    (positions : List GreekPosition)
    (market : String)
    (g : Greek) : Prop :=
  ∃ p ∈ positions,
    p.isOf market = true ∧ p.units ≠ 0 ∧ p.greek g = none

theorem marketGreeksOf_concat
    (positions : List GreekPosition)
    (p : GreekPosition)
    (market : String)
    (g : Greek) :
    (marketAt (marketGreeksOf (positions ++ [p])) market).range
          g =
        (if p.isOf market = true ∧ p.units ≠ 0 then
          addToRange
            ((marketAt (marketGreeksOf positions) market).range
              g)
            (sharesOf p.units) (p.greek g)
        else
          (marketAt (marketGreeksOf positions) market).range g) ∧
      (marketAt (marketGreeksOf (positions ++ [p]))
            market).isUnknown g =
        ((marketAt (marketGreeksOf positions) market).isUnknown
            g ||
          (p.isOf market && decide (p.units ≠ 0) &&
            (p.greek g).isNone)) := by
  unfold marketGreeksOf
  rw [List.foldl_append, List.foldl_cons, List.foldl_nil]
  by_cases hUnits : p.units = 0
  · simp [hUnits]
  · simp only [if_neg hUnits]
    unfold marketAt GreekPosition.isOf
    by_cases hSame :
        toLowerCase p.underlying = toLowerCase market
    · rw [← hSame, Function.update_self]
      cases g with
      | delta =>
          simp [hUnits, MarketGreeks.range,
            MarketGreeks.isUnknown, GreekPosition.greek]
      | gamma =>
          simp [hUnits, MarketGreeks.range,
            MarketGreeks.isUnknown, GreekPosition.greek]
    · rw [Function.update_of_ne (Ne.symm hSame)]
      simp [hSame]

theorem marketGreeksOf_range
    (positions : List GreekPosition)
    (market : String)
    (g : Greek) :
    (marketAt (marketGreeksOf positions) market).range g =
      { lo := netGreekOf positions market g
        hi := netGreekOf positions market g } := by
  induction positions using List.reverseRecOn with
  | nil =>
      cases g with
      | delta => rfl
      | gamma => rfl
  | append_singleton rest p ih =>
      rw [(marketGreeksOf_concat rest p market g).1, ih]
      unfold netGreekOf
      rw [List.map_append, List.sum_append, List.map_singleton,
        List.sum_singleton]
      by_cases hOf : p.isOf market = true
      · by_cases hUnits : p.units = 0
        · simp [hUnits, sharesOf]
        · rw [if_pos ⟨hOf, hUnits⟩, if_pos hOf]
          cases p.greek g with
          | none => simp [addToRange]
          | some x => simp [addToRange]
      · simp [hOf]

theorem marketGreeksOf_isUnknown
    (positions : List GreekPosition)
    (market : String)
    (g : Greek) :
    (marketAt (marketGreeksOf positions) market).isUnknown g =
        true ↔
      HoldsUnknown positions market g := by
  unfold HoldsUnknown
  induction positions using List.reverseRecOn with
  | nil =>
      cases g with
      | delta =>
          simp [marketGreeksOf, marketAt, MarketGreeks.flat,
            MarketGreeks.isUnknown]
      | gamma =>
          simp [marketGreeksOf, marketAt, MarketGreeks.flat,
            MarketGreeks.isUnknown]
  | append_singleton rest p ih =>
      rw [(marketGreeksOf_concat rest p market g).2,
        Bool.or_eq_true, ih]
      simp only [List.mem_append, List.mem_singleton,
        or_and_right, exists_or, exists_eq_left,
        Bool.and_eq_true, decide_eq_true_eq,
        Option.isNone_iff_eq_none, and_assoc]

----
-- The Net Stays Bounded
----

/- The gates of a tick that starts from the positions. -/
def tickGates
    (limits : GreekLimits)
    (positions : List GreekPosition)
    (series : List QuotedSeries) :
    List (QuotedSeries × GreekGate) :=
  gateRun limits (marketGreeksOf positions) series

/- The allowed changes of a direction, filled in full. -/
def allowedTotal
    (limits : GreekLimits)
    (positions : List GreekPosition)
    (series : List QuotedSeries)
    (market : String)
    (g : Greek)
    (change : ℚ) : ℚ :=
  ((marketChanges (tickGates limits positions series) market
    g).filter
      (fun c => decide (c < 0 ↔ change < 0))).sum

/- What the gate does for a market and one of its greeks. -/
structure GreekGateSound
    (limits : GreekLimits)
    (positions : List GreekPosition)
    (series : List QuotedSeries)
    (market : String)
    (g : Greek) : Prop where
  bounded :
    ¬ HoldsUnknown positions market g →
      ∀ fills,
        List.Forall₂ (fun p f => Fills p.1 p.2 f)
            (tickGates limits positions series) fills →
          |netGreekOf positions market g +
              fillsChange market g series fills| ≤
            max (limits.limitOf g)
              |netGreekOf positions market g|
  unknown :
    ∀ p ∈ tickGates limits positions series,
      p.1.isOf market = true →
        p.1.greek g = none ∨ HoldsUnknown positions market g →
          ∀ side, 0 < p.1.units side →
            p.2.allows side = false
  inside :
    ∀ p ∈ tickGates limits positions series,
      p.1.isOf market = true →
        ∀ side,
          |netGreekOf positions market g +
                allowedTotal limits positions series market g
                  (sideChange p.1 side g) +
              sideChange p.1 side g| ≤ limits.limitOf g →
            ∀ reason ∈ p.2.reasons,
              reason.side = side → reason.greek = g →
                ∀ start reached limit,
                  reason.cause ≠ .past start reached limit

/- A breach means too far with all that is allowed filled. -/
theorem past_beyond
    {limits : GreekLimits}
    {positions : List GreekPosition}
    {series : List QuotedSeries}
    {market : String}
    {p : QuotedSeries × GreekGate}
    (hp : p ∈ tickGates limits positions series)
    (hOf : p.1.isOf market = true)
    {reason : GateReason}
    (hReason : reason ∈ p.2.reasons)
    {start reached limit : ℚ}
    (hCause : reason.cause = .past start reached limit) :
    limits.limitOf reason.greek <
      |netGreekOf positions market reason.greek +
          allowedTotal limits positions series market
            reason.greek
            (sideChange p.1 reason.side reason.greek) +
        sideChange p.1 reason.side reason.greek| := by
  rcases gateAll_past hp hOf hReason hCause with
    ⟨r, hWithin, hBreach⟩
  have hOut := hBreach.beyond hWithin
  rw [gateAll_range, ExposureRange.start_foldl_widen,
    marketGreeksOf_range] at hOut
  unfold ExposureRange.Range.start at hOut
  rw [ite_self] at hOut
  exact hOut

theorem gate_bounds_net
    (limits : GreekLimits)
    (positions : List GreekPosition)
    (series : List QuotedSeries)
    (market : String)
    (g : Greek)
    (hLimit : 0 < limits.limitOf g) :
    GreekGateSound limits positions series market g where
  bounded := by
    intro _ fills hFills
    have hStart := marketGreeksOf_range positions market g
    refine gateAll_bounds hLimit ?_ ?_ hFills
    · rw [hStart]
      exact ExposureRange.Bounded.point _ _
    · rw [hStart]
      exact ⟨le_refl _, le_refl _⟩
  unknown := by
    intro p hp hOf hUnknown side hUnits
    refine gateAll_unknown hLimit hp hOf ?_ hUnits
    rwa [marketGreeksOf_isUnknown]
  inside := by
    rintro p hp hOf side hInside reason hReason rfl rfl
    intro start reached limit hCause
    exact
      absurd hInside
        (not_le.mpr (past_beyond hp hOf hReason hCause))

/- Long 60 shares: another 50 bought would pass the limit. -/
def heldCall : GreekPosition :=
  { underlying := "0xN"
    units := 12000
    delta := some (1 / 2)
    gamma := some 0 }

def quotedCall : QuotedSeries :=
  { underlying := "0xn"
    delta := some (1 / 2)
    gamma := some 0
    bidUnits := 10000
    askUnits := 10000 }

def greekLimits : GreekLimits :=
  { maxDeltaShares := 100
    maxGamma := 20 }

theorem held_call_key :
    toLowerCase "0xN" = "0xn" ∧ toLowerCase "0xn" = "0xn" := by
  unfold toLowerCase
  rw [LowerCase.toLower_eq, LowerCase.toLower_eq]
  decide +kernel

theorem held_call_gates :
    (tickGates greekLimits [heldCall] [quotedCall]).map
        (fun p => (p.2.bid, p.2.ask)) = [(false, true)] := by
  simp only [tickGates, gateRun, marketGreeksOf, gateAll,
    heldCall, quotedCall, held_call_key.1, held_call_key.2,
    List.foldl_cons, List.foldl_nil]
  decide +kernel

theorem held_call_gated :
    (tickGates greekLimits [heldCall] [quotedCall]).map
        (fun p => (p.2.bid, p.2.ask)) = [(false, true)] ∧
      GreekGateSound greekLimits [heldCall] [quotedCall] "0xn"
        .delta :=
  ⟨held_call_gates,
    gate_bounds_net greekLimits [heldCall] [quotedCall] "0xn"
      .delta (by decide +kernel)⟩

end Callhouse.Keeper.Mm
