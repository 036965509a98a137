import Callhouse.Keeper.Pricer.Reprice
import Callhouse.Lib.PartialRun

/-
  keeper/src/v2/pricer/planner.ts, repriced again and again:
  an ask that is stepped towards a fixed target gets there,
  unless a step rounds back up to the price it starts from.

  Main declarations:
    * `nextAsk`, `Settles`
    * `Stalls`, `nextAsk_eq_self_iff`
    * `settles_iff`
    * `settles_of_target`
-/

----
-- Repricing Again and Again
----

namespace Callhouse.Keeper.Pricer

def RepriceInput.withLive
    (input : RepriceInput)
    (live : Int) : RepriceInput :=
  { input with livePrice := live }

def RepriceDecision.price? :
    RepriceDecision → Option Int
| .sends price _ _ _ => some price
| .bandEmpty => none
| .withinThreshold _ => none
| .dropFloorAboveBand _ _ _ => none

/- The live ask after one evaluation, if it reprices. -/
def nextAsk
    (input : RepriceInput)
    (live : Int) : Option Int :=
  (planReprice (input.withLive live)).price?

/- From `live` to `p` is closer to `target`, not past it. -/
def Towards
    (target live p : Int) : Prop :=
  (target ≤ p ∧ p < live) ∨ (live < p ∧ p ≤ target)

/-
  From `live` on, the repricing ends, sends no price twice
  and only moves towards the target.
-/
structure Settles
    (input : RepriceInput)
    (live : Int) : Prop where
  ends :
    ∃ n last,
      PartialRun.after (nextAsk input) n live = some last ∧
        nextAsk input last = none
  distinct :
    ∀ i j ask, i < j →
      PartialRun.after (nextAsk input) i live = some ask →
        PartialRun.after (nextAsk input) j live ≠ some ask
  towards :
    ∀ n ask p,
      PartialRun.after (nextAsk input) n live = some ask →
        nextAsk input ask = some p →
          ∃ target,
            targetPrice input.aim = some target ∧
              Towards target.price ask p

/-
  The ask has to move but a step leaves it where it is: it is
  the target, or at most five ticks and above the target,
  with a ceiling that does not force it down.
-/
def Stalls
    (input : RepriceInput)
    (live : Int) : Prop :=
  ∃ target,
    targetPrice input.aim = some target ∧
      differsEnough target.price live input.thresholdBps =
        true ∧
      (target.price = live ∨
        target.price < live ∧ live ≤ 5 * priceTick ∧
          live ≤ target.band.max)

----
-- One Step
----

section

variable {input : RepriceInput} {live p : Int}

theorem nextAsk_eq_some
    (h : nextAsk input live = some p) :
    ∃ target lifted ceilingStep,
      targetPrice input.aim = some target ∧
        differsEnough target.price live input.thresholdBps =
          true ∧
        Sent (input.withLive live) target p lifted
          ceilingStep := by
  unfold nextAsk at h
  cases hPlan : planReprice (input.withLive live) with
  | sends price target lifted ceilingStep =>
      rw [hPlan] at h
      cases h
      exact
        ⟨target, lifted, ceilingStep,
          planReprice_sends hPlan⟩
  | bandEmpty =>
      rw [hPlan] at h
      cases h
  | withinThreshold target =>
      rw [hPlan] at h
      cases h
  | dropFloorAboveBand target floor contractFloor =>
      rw [hPlan] at h
      cases h

/- The step floor rounds back up to five ticks and less. -/
theorem stepFloor_eq_live_iff
    (hLive : 0 < live)
    (hTick : priceTick ∣ live) :
    stepFloor live = live ↔ live ≤ 5 * priceTick := by
  have hTickVal : priceTick = 100 := rfl
  have hBps : bps = 10000 := rfl
  have hOwn : pricerMaxStepDropBps = 1900 := rfl
  have hDown := stepFloor_le_live hLive hTick
  have hLess : priceTick ∣ live - priceTick :=
    dvd_sub hTick (dvd_refl priceTick)
  have hStep := stepFloor_le_iff hLive hLess
  rw [hBps, hOwn] at hStep
  rcases hTick with ⟨k, hk⟩
  rcases dvd_stepFloor live with ⟨m, hm⟩
  rw [hTickVal] at hk hm hStep
  rw [hTickVal]
  constructor
  · intro hSame
    rw [hSame] at hStep
    omega
  · intro hSmall
    by_contra hNot
    have hBelow : stepFloor live ≤ live - 100 := by omega
    have hDrop := hStep.mp hBelow
    omega

variable {ceilingStep : Option CeilingStep}

/- A step that moves the ask moves it towards the target. -/
theorem towards_of_sent
    {target : TargetPrice}
    {lifted : Option Int}
    (hLive : 0 < live)
    (hTick : priceTick ∣ live)
    (hTarget : targetPrice input.aim = some target)
    (h :
      Sent (input.withLive live) target p lifted ceilingStep) :
    p = live ∨ Towards target.price live p := by
  have hDown := stepFloor_le_live hLive hTick
  rcases targetPrice_spec hTarget with ⟨_, _, _, hTo⟩
  have hSame : (input.withLive live).livePrice = live := rfl
  unfold Towards
  cases h with
  | aimed hAim => omega
  | stepped hAbove hUnder =>
      rw [hSame] at hAbove hUnder ⊢
      omega
  | ceiling hAbove hOver hFloor =>
      rw [hSame] at hOver
      omega

theorem nextAsk_kept
    (hLive : 0 < live)
    (h : nextAsk input live = some p) :
    0 < p ∧ priceTick ∣ p := by
  rcases nextAsk_eq_some h with
    ⟨target, lifted, ceilingStep, hTarget, _, hSent⟩
  rcases targetPrice_spec hTarget with ⟨hBand, hOnTick, _, _⟩
  rcases priceBand_eq_some hBand with ⟨_, hMax, _⟩
  have hFloorPos : 0 < repriceFloor live := by
    by_contra hNot
    have hZero :=
      (repriceFloor_le_iff hLive (dvd_zero priceTick)).mp
        (not_lt.mp hNot)
    have hKept : 0 < live * (bps - maxRepriceDropBps) :=
      mul_pos hLive (by decide)
    omega
  have hContract := repriceFloor_le_stepFloor live
  have hSame : (input.withLive live).livePrice = live := rfl
  cases hSent with
  | aimed hAim =>
      rw [hSame] at hAim
      exact ⟨by omega, hOnTick⟩
  | stepped hAbove hUnder =>
      rw [hSame]
      exact ⟨by omega, dvd_stepFloor live⟩
  | ceiling hAbove hOver hFloor =>
      rw [hSame] at hFloor
      refine ⟨by omega, ?_⟩
      rw [hMax]
      exact dvd_bandMax _ _

/- What a step that leaves the ask in place says of it. -/
theorem stalls_of_sent
    {target : TargetPrice}
    {lifted : Option Int}
    (hLive : 0 < live)
    (hTick : priceTick ∣ live)
    (hTarget : targetPrice input.aim = some target)
    (hDiffers :
      differsEnough target.price live input.thresholdBps =
        true)
    (hSent :
      Sent (input.withLive live) target p lifted ceilingStep)
    (hSame : p = live) :
    Stalls input live := by
  have hDown := stepFloor_le_live hLive hTick
  have hPrice : (input.withLive live).livePrice = live := rfl
  refine ⟨target, hTarget, hDiffers, ?_⟩
  cases hSent with
  | aimed hAim => exact .inl hSame
  | stepped hAbove hUnder =>
      rw [hPrice] at hSame hAbove hUnder
      have hSmall := (stepFloor_eq_live_iff hLive hTick).mp hSame
      exact .inr ⟨by omega, hSmall, by omega⟩
  | ceiling hAbove hOver hFloor =>
      rw [hPrice] at hOver
      omega

/- The ask is sent at its own price exactly where it stalls. -/
theorem nextAsk_eq_self_iff
    (hLive : 0 < live)
    (hTick : priceTick ∣ live) :
    nextAsk input live = some live ↔ Stalls input live := by
  constructor
  · intro h
    rcases nextAsk_eq_some h with
      ⟨target, lifted, ceilingStep, hTarget, hDiffers, hSent⟩
    exact stalls_of_sent hLive hTick hTarget hDiffers hSent rfl
  · rintro ⟨target, hTarget, hDiffers, hCase⟩
    have hFive := stepFloor_eq_live_iff hLive hTick
    have hDown := stepFloor_le_live hLive hTick
    have hAim :
        targetPrice (input.withLive live).aim = some target :=
      hTarget
    unfold nextAsk planReprice
    rw [hAim]
    dsimp only
    rw [show (input.withLive live).livePrice = live from rfl,
      show (input.withLive live).thresholdBps =
        input.thresholdBps from rfl,
      hDiffers, if_neg (by decide)]
    rcases hCase with hAt | ⟨hBelow, hSmall, hUnder⟩
    · rw [if_pos (by omega)]
      exact congrArg some hAt
    · have hFixed := hFive.mpr hSmall
      rw [if_neg (by omega), hFixed, if_pos hUnder]
      rfl

/- What a step does where the ask does not stall. -/
theorem nextAsk_towards
    (hLive : 0 < live)
    (hTick : priceTick ∣ live)
    (hMoves : ¬ Stalls input live)
    (h : nextAsk input live = some p) :
    ∃ target,
      targetPrice input.aim = some target ∧
        Towards target.price live p := by
  rcases nextAsk_eq_some h with
    ⟨target, lifted, ceilingStep, hTarget, _, hSent⟩
  refine ⟨target, hTarget, ?_⟩
  rcases towards_of_sent hLive hTick hTarget hSent with
    hSame | hTowards
  · rw [hSame] at h
    exact absurd ((nextAsk_eq_self_iff hLive hTick).mp h) hMoves
  · exact hTowards

end

----
-- Whole Runs
----

open PartialRun

variable {input : RepriceInput} {live : Int}

/- An ask on the tick whose run never stalls. -/
structure Unstalled
    (input : RepriceInput)
    (live : Int) : Prop where
  pos : 0 < live
  tick : priceTick ∣ live
  moves :
    ∀ n ask, after (nextAsk input) n live = some ask →
      ¬ Stalls input ask

theorem Unstalled.step
    (h : Unstalled input live)
    {p : Int}
    (hNext : nextAsk input live = some p) :
    Unstalled input p := by
  rcases nextAsk_kept h.pos hNext with ⟨hPos, hTick⟩
  refine { pos := hPos, tick := hTick, moves := ?_ }
  intro n ask hAsk
  apply h.moves (n + 1) ask
  rw [after_succ hNext]
  exact hAsk

/- How far the ask is from the target. -/
def distance
    (input : RepriceInput)
    (live : Int) : Nat :=
  match targetPrice input.aim with
  | none => 0
  | some target => (target.price - live).natAbs

theorem Unstalled.distance_lt
    (h : Unstalled input live)
    {p : Int}
    (hNext : nextAsk input live = some p) :
    distance input p < distance input live := by
  have hMoves := h.moves 0 live rfl
  rcases nextAsk_towards h.pos h.tick hMoves hNext with
    ⟨target, hTarget, hTowards⟩
  unfold distance
  rw [hTarget]
  unfold Towards at hTowards
  dsimp only
  omega

/- The distance bounds the steps, each towards the target. -/
theorem Unstalled.settles
    (h : Unstalled input live) :
    Settles input live := by
  have hStep :
      ∀ s t, Unstalled input s → nextAsk input s = some t →
        Unstalled input t :=
    fun s t hs hNext => hs.step hNext
  have hLess :
      ∀ s t, Unstalled input s → nextAsk input s = some t →
        distance input t < distance input s :=
    fun s t hs hNext => hs.distance_lt hNext
  refine { ends := ?_, distinct := ?_, towards := ?_ }
  · rcases ends hStep hLess h with ⟨n, last, _, hLast, hEnd⟩
    exact ⟨n, last, hLast, hEnd⟩
  · intro i j ask hij hAsk
    exact PartialRun.distinct hStep hLess h hij hAsk
  · intro n ask p hAsk hNext
    have hState := invariant (Unstalled input) hStep h hAsk
    exact
      nextAsk_towards hState.pos hState.tick
        (hState.moves 0 ask rfl) hNext

/-
  The repricing of an ask settles exactly when no ask that it
  reaches stalls.
-/
theorem settles_iff
    (input : RepriceInput)
    (live : Int)
    (hLive : 0 < live)
    (hTick : priceTick ∣ live) :
    Settles input live ↔
      ∀ n ask, after (nextAsk input) n live = some ask →
        ¬ Stalls input ask := by
  constructor
  · intro h n ask hAsk hStalls
    have hOnTick : 0 < ask ∧ priceTick ∣ ask :=
      invariant (fun s => 0 < s ∧ priceTick ∣ s)
        (fun _ _ hs hNext => nextAsk_kept hs.1 hNext)
        ⟨hLive, hTick⟩ hAsk
    have hFixed :=
      (nextAsk_eq_self_iff hOnTick.1 hOnTick.2).mpr hStalls
    exact
      h.distinct n (n + 1) ask (Nat.lt_succ_self n) hAsk
        (after_fixed hAsk hFixed)
  · intro hMoves
    exact
      Unstalled.settles
        { pos := hLive, tick := hTick, moves := hMoves }

/- A penny stock: the ask at five ticks, its target at two. -/
def pennyInput : RepriceInput where
  fair := 100
  spot := 20000
  livePrice := 500
  strategy := { minAskBps := 50, maxAskBps := 1000 }
  edgeBps := 500
  thresholdBps := 1000

/- It is sent at 500 again and again. -/
theorem penny_ask_stays :
    ¬ ∀ (input : RepriceInput) (live : Int),
      0 < input.spot → 0 < live → priceTick ∣ live →
        Settles input live := by
  intro hAlways
  have hSettles :=
    hAlways pennyInput 500 (by decide) (by decide) (by decide)
  have hFixed : nextAsk pennyInput 500 = some 500 := by
    decide
  exact
    hSettles.distinct 0 1 500 (by decide) rfl
      (after_fixed rfl hFixed)

/- A fair value of half the ask is stepped down to. -/
theorem halvedFair_settles :
    Settles halvedFair 3183100 := by
  apply
    (settles_iff halvedFair 3183100 (by decide) (by decide)).mpr
  rintro n ask _ ⟨target, hAim, hDiffers, hCase⟩
  cases hAim
  rcases hCase with hAt | ⟨hAbove, hSmall, _⟩
  · rw [← hAt] at hDiffers
    revert hDiffers
    decide
  · have hMany : 5 * priceTick < 1575000 := by
      decide
    exact absurd (hAbove.trans_le hSmall) (not_lt.mpr hMany.le)

/- A target of five ticks and more is reached from anywhere. -/
theorem settles_of_target
    (hLive : 0 < live)
    (hTick : priceTick ∣ live)
    (hThreshold : 0 ≤ input.thresholdBps)
    (hTarget :
      ∀ target, targetPrice input.aim = some target →
        5 * priceTick ≤ target.price) :
    Settles input live := by
  have hTickPos := priceTick_pos
  refine
    Unstalled.settles
      { pos := hLive, tick := hTick, moves := ?_ }
  rintro n ask _ ⟨target, hAim, hDiffers, hAt | hUnder⟩
  · have hHigh := hTarget target hAim
    unfold differsEnough at hDiffers
    rw [if_neg (by omega), ← hAt] at hDiffers
    have hMore := of_decide_eq_true hDiffers
    have hRoom : 0 ≤ target.price * input.thresholdBps :=
      mul_nonneg (by omega) hThreshold
    rw [if_neg (lt_irrefl _), sub_self, zero_mul] at hMore
    omega
  · have hHigh := hTarget target hAim
    omega

end Callhouse.Keeper.Pricer
