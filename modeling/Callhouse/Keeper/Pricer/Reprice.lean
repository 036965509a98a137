import Callhouse.Keeper.Pricer.Planner

/-
  keeper/src/v2/pricer/planner.ts: the decision once the fair
  value is known, and what every price it sends satisfies.

  Main declarations:
    * `differsEnough`, `planReprice`
    * `planReprice_sends`
    * `sent_prices_accepted`
-/

----
-- The Decision
----

namespace Callhouse.Keeper.Pricer

/- The drop that the monitor pages for. -/
def repricePageDropBps : Int := 2000

def differsEnough
    (target live thresholdBps : Int) : Bool :=
  if live ≤ 0 then decide (target ≠ live)
  else
    let diff :=
      if target > live then target - live else live - target
    decide (diff * bps > live * thresholdBps)

/- What of the strategy the decision reads. -/
structure AskRates where
  minAskBps : Int
  maxAskBps : Int
deriving DecidableEq

structure RepriceInput where
  fair : Int
  spot : Int
  livePrice : Int
  strategy : AskRates
  edgeBps : Int
  thresholdBps : Int
deriving DecidableEq

def RepriceInput.aim
    (input : RepriceInput) : TargetInput where
  fair := input.fair
  edgeBps := input.edgeBps
  spot := input.spot
  minAskBps := input.strategy.minAskBps
  maxAskBps := input.strategy.maxAskBps

structure CeilingStep where
  stepFloor : Int
  dropBps : Int
deriving DecidableEq

/- `sends` is the decision to reprice. -/
inductive RepriceDecision where
  | sends
      (price : Int)
      (target : TargetPrice)
      (stepFloor : Option Int)
      (ceilingStep : Option CeilingStep)
  | bandEmpty
  | withinThreshold
      (target : TargetPrice)
  | dropFloorAboveBand
      (target : TargetPrice)
      (floor contractFloor : Int)
deriving DecidableEq

def planReprice
    (input : RepriceInput) : RepriceDecision :=
  match targetPrice input.aim with
  | none => .bandEmpty
  | some target =>
      if
        differsEnough target.price input.livePrice
            input.thresholdBps =
          false then
        .withinThreshold target
      else
        let floor := stepFloor input.livePrice
        if target.price ≥ floor then
          .sends target.price target none none
        else if floor ≤ target.band.max then
          .sends floor target (some floor) none
        else
          let contractFloor := repriceFloor input.livePrice
          if target.band.max < contractFloor then
            .dropFloorAboveBand target floor contractFloor
          else
            let dropBps :=
              ((input.livePrice - target.band.max) * bps).tdiv
                input.livePrice
            .sends target.band.max target none
              (some { stepFloor := floor, dropBps := dropBps })

----
-- The Three Ways to Send
----

section

variable {input : RepriceInput} {target : TargetPrice}

/- The target, a step, or the ceiling under the step. -/
inductive Sent
    (input : RepriceInput)
    (target : TargetPrice) :
    Int → Option Int → Option CeilingStep → Prop
  | aimed
      (hAim : stepFloor input.livePrice ≤ target.price) :
      Sent input target target.price none none
  | stepped
      (hAbove : target.price < stepFloor input.livePrice)
      (hIn : stepFloor input.livePrice ≤ target.band.max) :
      Sent input target (stepFloor input.livePrice)
        (some (stepFloor input.livePrice)) none
  | ceiling
      (hAbove : target.price < stepFloor input.livePrice)
      (hOver : target.band.max < stepFloor input.livePrice)
      (hFloor : repriceFloor input.livePrice ≤ target.band.max) :
      Sent input target target.band.max none
        (some
          { stepFloor := stepFloor input.livePrice
            dropBps :=
              ((input.livePrice - target.band.max) * bps).tdiv
                input.livePrice })

theorem planReprice_sends
    {p : Int}
    {lifted : Option Int}
    {ceilingStep : Option CeilingStep}
    (h : planReprice input = .sends p target lifted ceilingStep) :
    targetPrice input.aim = some target ∧
      differsEnough target.price input.livePrice
          input.thresholdBps =
        true ∧
      Sent input target p lifted ceilingStep := by
  unfold planReprice at h
  cases hTarget : targetPrice input.aim with
  | none =>
      rw [hTarget] at h
      cases h
  | some found =>
      rw [hTarget] at h
      dsimp only at h
      split at h
      · cases h
      · next hDiffers =>
          have hEnough := eq_true_of_ne_false hDiffers
          split at h
          · next hAim =>
              cases h
              exact ⟨rfl, hEnough, .aimed hAim⟩
          · next hBelow =>
              have hAbove := not_le.mp hBelow
              split at h
              · next hIn =>
                  cases h
                  exact ⟨rfl, hEnough, .stepped hAbove hIn⟩
              · next hOut =>
                  split at h
                  · cases h
                  · next hFloor =>
                      cases h
                      exact
                        ⟨rfl, hEnough,
                          .ceiling hAbove (not_le.mp hOut)
                            (not_lt.mp hFloor)⟩

/- A target that differs enough is only refused for the floor. -/
theorem planReprice_of_floor
    (hTarget : targetPrice input.aim = some target)
    (hDiffers :
      differsEnough target.price input.livePrice
          input.thresholdBps =
        true)
    (hFloor : repriceFloor input.livePrice ≤ target.band.max) :
    ∃ p lifted ceilingStep,
      planReprice input = .sends p target lifted ceilingStep := by
  unfold planReprice
  rw [hTarget]
  dsimp only
  rw [hDiffers, if_neg (by decide)]
  split
  · exact ⟨_, _, _, rfl⟩
  · split
    · exact ⟨_, _, _, rfl⟩
    · rw [if_neg (not_lt.mpr hFloor)]
      exact ⟨_, _, _, rfl⟩

end

----
-- Accepted and Honest Prices
----

variable {input : RepriceInput}

/- What AutoRoller.reprice admits against the live ask. -/
structure RepriceInput.Accepts
    (input : RepriceInput)
    (p : Int) : Prop where
  band :
    inBand p input.spot input.strategy.minAskBps
        input.strategy.maxAskBps =
      true
  drop :
    input.livePrice * (bps - maxRepriceDropBps) ≤ p * bps

/- What the pricer keeps to whenever it sends. -/
structure Honest
    (input : RepriceInput)
    (p : Int)
    (ceilingStep : Option CeilingStep) : Prop where
  band :
    inBand p input.spot input.strategy.minAskBps
        input.strategy.maxAskBps =
      true
  floor : repriceFloor input.livePrice ≤ p
  unpaged :
    ceilingStep = none →
      (input.livePrice - p) * 10000 <
        input.livePrice * repricePageDropBps
  ceiling :
    ∀ step, ceilingStep = some step →
      p = bandMax input.spot input.strategy.maxAskBps ∧
        p < stepFloor input.livePrice ∧
        step.stepFloor = stepFloor input.livePrice ∧
        step.dropBps =
          (input.livePrice - p) * 10000 / input.livePrice

variable {p : Int}

/- A step of the pricer never pages. -/
theorem unpaged_of_stepFloor_le
    {live : Int}
    (hLive : 0 < live)
    (hp : priceTick ∣ p)
    (hStep : stepFloor live ≤ p) :
    (live - p) * 10000 < live * repricePageDropBps := by
  have hDrop := (stepFloor_le_iff hLive hp).mp hStep
  have hBps : bps = 10000 := rfl
  have hOwn : pricerMaxStepDropBps = 1900 := rfl
  have hPage : repricePageDropBps = 2000 := rfl
  rw [hBps, hOwn] at hDrop
  rw [hPage]
  omega

theorem honest_of_sent
    {target : TargetPrice}
    {lifted : Option Int}
    {ceilingStep : Option CeilingStep}
    (hLive : 0 < input.livePrice)
    (hTick : priceTick ∣ input.livePrice)
    (hMin : 0 < input.strategy.minAskBps)
    (hTarget : targetPrice input.aim = some target)
    (h : Sent input target p lifted ceilingStep) :
    Honest input p ceilingStep := by
  rcases targetPrice_spec hTarget with
    ⟨hBand, hOnTick, hFrom, hTo⟩
  rcases asked_of_priceBand hBand with ⟨hSpot, hBps⟩
  rcases priceBand_eq_some hBand with ⟨_, hMax, hOrder⟩
  have hStepTick := dvd_stepFloor input.livePrice
  have hContract := repriceFloor_le_stepFloor input.livePrice
  have hIn :
      ∀ q, priceTick ∣ q → target.band.min ≤ q →
        q ≤ target.band.max →
        inBand q input.spot input.strategy.minAskBps
            input.strategy.maxAskBps =
          true := by
    intro q hq hLow hHigh
    exact
      (inBand_iff_mem_band hSpot hMin.le hBps).mpr
        ⟨hq, target.band, hBand, hLow, hHigh⟩
  cases h with
  | aimed hAim =>
      exact
        { band := hIn _ hOnTick hFrom hTo
          floor := hContract.trans hAim
          unpaged := fun _ =>
            unpaged_of_stepFloor_le hLive hOnTick hAim
          ceiling := fun _ hNone => nomatch hNone }
  | stepped hAbove hUnder =>
      exact
        { band := hIn _ hStepTick (by omega) hUnder
          floor := hContract
          unpaged := fun _ =>
            unpaged_of_stepFloor_le hLive hStepTick
              (le_refl _)
          ceiling := fun _ hNone => nomatch hNone }
  | ceiling hAbove hOver hFloor =>
      have hMaxTick : priceTick ∣ target.band.max := by
        rw [hMax]
        exact dvd_bandMax _ _
      have hDown := stepFloor_le_live hLive hTick
      refine
        { band := hIn _ hMaxTick hOrder (le_refl _)
          floor := hFloor
          unpaged := fun hNone => nomatch hNone
          ceiling := ?_ }
      intro step hStep
      cases hStep
      refine ⟨hMax, hOver, rfl, ?_⟩
      exact
        Int.tdiv_eq_ediv_of_nonneg
          (mul_nonneg (by omega) (by decide))

/- Where some price is accepted, the pricer finds one. -/
theorem sends_of_accepts
    (hLive : 0 < input.livePrice)
    (hSpot : 0 < input.spot)
    (hMin : 0 < input.strategy.minAskBps)
    (hMax :
      input.strategy.minAskBps ≤ input.strategy.maxAskBps)
    (h : input.Accepts p) :
    ∃ target,
      targetPrice input.aim = some target ∧
        (differsEnough target.price input.livePrice
            input.thresholdBps =
          true →
          ∃ q lifted ceilingStep,
            planReprice input =
              .sends q target lifted ceilingStep) := by
  rcases (inBand_iff_mem_band hSpot hMin.le hMax).mp h.band with
    ⟨hTick, band, hBand, _, hTo⟩
  have hAim :
      priceBand input.aim.spot input.aim.minAskBps
          input.aim.maxAskBps =
        some band := hBand
  rcases targetPrice_isSome hAim with
    ⟨target, hTarget, hSame⟩
  refine ⟨target, hTarget, ?_⟩
  intro hDiffers
  apply planReprice_of_floor hTarget hDiffers
  rw [hSame]
  exact ((repriceFloor_le_iff hLive hTick).mpr h.drop).trans hTo

/-
  Every price sent is accepted by the contract and under the
  monitor's page, save a ceiling below the step; and a price
  is sent whenever one is wanted and accepted.
-/
theorem sent_prices_accepted
    (input : RepriceInput)
    (hSpot : 0 < input.spot)
    (hLive : 0 < input.livePrice)
    (hTick : priceTick ∣ input.livePrice)
    (hMin : 0 < input.strategy.minAskBps)
    (hMax :
      input.strategy.minAskBps ≤ input.strategy.maxAskBps) :
    (∀ p target lifted ceilingStep,
      planReprice input = .sends p target lifted ceilingStep →
        Honest input p ceilingStep) ∧
      ∀ p, input.Accepts p →
        ∃ target,
          targetPrice input.aim = some target ∧
            (differsEnough target.price input.livePrice
                input.thresholdBps =
              true →
              ∃ q lifted ceilingStep,
                planReprice input =
                  .sends q target lifted ceilingStep) := by
  constructor
  · intro p target lifted ceilingStep hSends
    rcases planReprice_sends hSends with ⟨hTarget, _, hSent⟩
    exact honest_of_sent hLive hTick hMin hTarget hSent
  · intro p hAccepts
    exact sends_of_accepts hLive hSpot hMin hMax hAccepts

/- A fall of half, in the band of a share at 212.21 USDG. -/
def halvedFair : RepriceInput where
  fair := 1500000
  spot := 212210000
  livePrice := 3183100
  strategy := { minAskBps := 30, maxAskBps := 150 }
  edgeBps := 500
  thresholdBps := 1000

theorem halvedFair_accepted :
    Honest halvedFair 2578400 none := by
  have hSent :=
    sent_prices_accepted halvedFair (by decide) (by decide)
      (by decide) (by decide) (by decide)
  rcases hSent.2 2578400
      { band := by decide, drop := by decide } with
    ⟨target, hTarget, hSends⟩
  cases hTarget
  rcases hSends (by decide) with ⟨q, lifted, step, hPlan⟩
  have hHonest := hSent.1 q _ lifted step hPlan
  cases hPlan
  exact hHonest

end Callhouse.Keeper.Pricer
