import Callhouse.Keeper.Mm.Constants
import Callhouse.Lib.DelayedChange

/-
  keeper/src/v2/mm/pnl.ts: the seller fee a fill of a vault
  order pays, and the rate to book when its logs are missing.

  The order book's fees are a delayed change: of a fill made
  since the last look, less than a delay ago, one of the two
  ends' regimes took the fee.

  Main declarations:
    * `sellerFeeBpsOf`, `conservativeSellerFee`
    * `FeeSchedule`
    * `sellerFeeBpsOf_le_conservative`
-/

----
-- Seller Fees
----

namespace Callhouse.Keeper.Mm

section

/- OrderBook.FeeParams' seller rates, in basis points. -/
structure FeeRegime where
  premiumFeeBps : Int
  resaleFeeBps : Int
deriving DecidableEq

/- The maker sells on AskWrite and AskResale only. -/
def sellerFeeBpsOf
    (kind : OrderKindName)
    (regime : FeeRegime) : Int :=
  match kind with
  | .AskWrite => regime.premiumFeeBps
  | .AskResale => regime.resaleFeeBps
  | .Bid => 0

/- The regime that the bot's previous look found in effect. -/
structure PreviousLook where
  regime : FeeRegime
  seen : Int
deriving DecidableEq

structure ConservativeFeeInput where
  current : FeeRegime
  previous : Option PreviousLook
  now : Int
  delayS : Int
  ceilingBps : Int

/-
  pnl.ts conservativeSellerFeeBps: the highest rate of any
  regime that a fill since the previous look can have met.
-/
def conservativeSellerFee
    (kind : OrderKindName)
    (input : ConservativeFeeInput) : Int :=
  if kind = .Bid then 0
  else
    let current := sellerFeeBpsOf kind input.current
    match input.previous with
    | none => max current input.ceilingBps
    | some previous =>
        if input.now - previous.seen ≥ input.delayS then
          max current input.ceilingBps
        else
          max current (sellerFeeBpsOf kind previous.regime)

variable {kind : OrderKindName} {input : ConservativeFeeInput}

/- A delay or more since the last look, or none: the ceiling. -/
theorem conservative_far
    (hKind : kind ≠ .Bid)
    (hFar :
      ∀ previous, input.previous = some previous →
        input.now - previous.seen ≥ input.delayS) :
    conservativeSellerFee kind input =
      max (sellerFeeBpsOf kind input.current)
        input.ceilingBps := by
  unfold conservativeSellerFee
  rw [if_neg hKind]
  cases hPrevious : input.previous with
  | none => rfl
  | some previous => exact if_pos (hFar previous hPrevious)

/- A look less than a delay ago: the higher of both ends. -/
theorem conservative_near
    (hKind : kind ≠ .Bid)
    {previous : PreviousLook}
    (hPrevious : input.previous = some previous)
    (hNear :
      ¬ input.now - previous.seen ≥ input.delayS) :
    conservativeSellerFee kind input =
      max (sellerFeeBpsOf kind input.current)
        (sellerFeeBpsOf kind previous.regime) := by
  unfold conservativeSellerFee
  rw [if_neg hKind, hPrevious]
  exact if_neg hNear

end

----
-- The Chain's Fee Schedule
----

def FeeRegime.Within
    (regime : FeeRegime)
    (ceilingBps : Int) : Prop :=
  regime.premiumFeeBps ≤ ceilingBps ∧
    regime.resaleFeeBps ≤ ceilingBps

/-
  The order book's fee changes, in the order they are
  scheduled.  The contract holds every rate to the ceiling.
-/
structure FeeSchedule
    (ceilingBps : Int) where
  initial : FeeRegime
  changes : List (DelayedChange.Change FeeRegime)
  ordered : DelayedChange.Ordered changes
  initialWithin : initial.Within ceilingBps
  changesWithin : ∀ c ∈ changes, c.value.Within ceilingBps

variable {ceilingBps : Int}

/- The regime in effect at `t`. -/
def FeeSchedule.regimeAt
    (schedule : FeeSchedule ceilingBps)
    (delayS t : Int) : FeeRegime :=
  DelayedChange.valueAt delayS schedule.initial
    schedule.changes t

theorem FeeSchedule.regimeAt_within
    (schedule : FeeSchedule ceilingBps)
    (delayS t : Int) :
    (schedule.regimeAt delayS t).Within ceilingBps :=
  DelayedChange.valueAt_mem
    (P := fun regime : FeeRegime => regime.Within ceilingBps)
    schedule.initialWithin schedule.changesWithin delayS t

/- What the bot knows at the head, of such a schedule. -/
def FeeSchedule.input
    (schedule : FeeSchedule ceilingBps)
    (delayS : Int)
    (previous : Option Int)
    (now : Int) : ConservativeFeeInput :=
  { current := schedule.regimeAt delayS now
    previous :=
      previous.map (fun seen =>
        { regime := schedule.regimeAt delayS seen
          seen := seen })
    now := now
    delayS := delayS
    ceilingBps := ceilingBps }

theorem FeeRegime.Within.sellerFeeBpsOf_le
    {regime : FeeRegime}
    (h : regime.Within ceilingBps)
    {kind : OrderKindName}
    (hKind : kind ≠ .Bid) :
    sellerFeeBpsOf kind regime ≤ ceilingBps := by
  cases kind with
  | Bid => exact absurd rfl hKind
  | AskResale => exact h.2
  | AskWrite => exact h.1

/-
  The rate booked is never under one that a fill since the
  previous look, up to the head, can have paid.
-/
theorem sellerFeeBpsOf_le_conservative
    (schedule : FeeSchedule ceilingBps)
    (delayS : Int)
    (kind : OrderKindName)
    (previous : Option Int)
    (now t : Int)
    (hSince : ∀ seen, previous = some seen → seen < t)
    (hHead : t ≤ now) :
    sellerFeeBpsOf kind (schedule.regimeAt delayS t) ≤
      conservativeSellerFee kind
        (schedule.input delayS previous now) := by
  by_cases hKind : kind = .Bid
  · rw [hKind]
    exact le_refl 0
  have hCeiling :
      sellerFeeBpsOf kind (schedule.regimeAt delayS t) ≤
        ceilingBps :=
    (schedule.regimeAt_within delayS t).sellerFeeBpsOf_le
      hKind
  cases previous with
  | none =>
      rw [conservative_far hKind (fun _ hNone => by
        cases hNone)]
      exact le_max_of_le_right hCeiling
  | some seen =>
      have hAfter := hSince seen rfl
      by_cases hLong : now - seen ≥ delayS
      · rw [conservative_far hKind (fun _ hSeen => by
          cases hSeen
          exact hLong)]
        exact le_max_of_le_right hCeiling
      · rw [conservative_near hKind rfl hLong]
        have hEnds :=
          DelayedChange.valueAt_between schedule.initial
            schedule.ordered hAfter.le hHead
            (not_le.mp hLong)
        unfold FeeSchedule.input FeeSchedule.regimeAt
        rcases hEnds with hBefore | hNow
        · rw [hBefore]
          exact le_max_right _ _
        · rw [hNow]
          exact le_max_left _ _

/- A cut scheduled at 0, then replaced by a rise a day later. -/
def replacedCut : FeeSchedule 1000 :=
  { initial := ⟨500, 0⟩
    changes :=
      [⟨0, ⟨100, 0⟩⟩, ⟨86399, ⟨900, 50⟩⟩]
    ordered := by
      unfold DelayedChange.Ordered
      decide
    initialWithin := by
      unfold FeeRegime.Within
      decide
    changesWithin := by
      unfold FeeRegime.Within
      decide }

theorem replacedCut_fee_le :
    sellerFeeBpsOf .AskWrite
        (replacedCut.regimeAt 86400 172799) ≤
      conservativeSellerFee .AskWrite
        (replacedCut.input 86400 (some 100000) 180000) :=
  sellerFeeBpsOf_le_conservative replacedCut 86400 .AskWrite
    (some 100000) 180000 172799
    (fun _ hSeen => by
      cases hSeen
      decide)
    (by decide)

end Callhouse.Keeper.Mm
