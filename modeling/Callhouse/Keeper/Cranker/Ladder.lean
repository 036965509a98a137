import Callhouse.Keeper.Pricer.Planner
import Mathlib.Data.List.Dedup
import Mathlib.Data.List.Sort

/-
  keeper/src/v2/cranker/planner.ts: the registry ladder around
  a spot, and which of its strikes one pass creates.

  Main declarations:
    * `ladderStrikes`, `planLadder`
    * `ladderStrikes_rungs`
    * `planLadder_converges`
-/

----
-- The Ladder
----

namespace Callhouse.Keeper.Cranker

section

open Pricer

def inStrikeBand
    (strike spot : Int) : Bool :=
  decide (strike > 0) && decide (strike ≥ spot.tdiv 2) &&
    decide (strike ≤ spot * 2)

def isOtm
    (strike spot : Int)
    (isPut : Bool) : Bool :=
  if isPut then decide (strike < spot)
  else decide (strike > spot)

/- The registry's unsigned settings of a ladder. -/
structure LadderParams where
  rungs : Nat
  firstOtmBps : Nat
  stepBps : Nat
deriving DecidableEq

/- The exact value of a rung before it is rounded. -/
def rungRaw
    (value otmBps : Int)
    (isPut : Bool) : Int :=
  if isPut then (value * (Pricer.bps - otmBps)).tdiv Pricer.bps
  else ceilDiv (value * (Pricer.bps + otmBps)) Pricer.bps

/- A strike that is not past the one before moves a tick out. -/
def nudge
    (previous : Option Int)
    (strikeTick : Int)
    (isPut : Bool)
    (strike : Int) : Int :=
  match previous with
  | none => strike
  | some previous =>
      if !isPut && decide (strike ≤ previous) then
        previous + strikeTick
      else if isPut && decide (strike ≥ previous) then
        previous - strikeTick
      else strike

def rungStrike
    (raw strikeTick : Int)
    (isPut : Bool)
    (previous : Option Int) : Int :=
  nudge previous strikeTick isPut
    (if isPut then roundDownToTick raw strikeTick
    else roundUpToTick raw strikeTick)

def ladderLoop
    (spot step strikeTick : Int)
    (isPut : Bool) :
    Nat → Nat → Int → List Int → List Int
  | 0, _, _, strikes => strikes
  | left + 1, i, raw, strikes =>
      let raw := if i > 0 then rungRaw raw step isPut else raw
      let strike :=
        rungStrike raw strikeTick isPut strikes.getLast?
      if !inStrikeBand strike spot then strikes
      else
        ladderLoop spot step strikeTick isPut left (i + 1) raw
          (strikes ++ [strike])

def ladderStrikes
    (spot : Int)
    (ladder : LadderParams)
    (strikeTick : Int)
    (isPut : Bool) : List Int :=
  if spot ≤ 0 ∨ strikeTick ≤ 0 then []
  else
    ladderLoop spot ladder.stepBps strikeTick isPut
      ladder.rungs 0 (rungRaw spot ladder.firstOtmBps isPut) []

end

----
-- The Plan
----

structure LadderInput where
  spot : Int
  ladder : LadderParams
  strikeTick : Int
  isPut : Bool
  existing : List Int
  anchor : Option Int
deriving DecidableEq

inductive LadderReason where
  | initial
  | complete
  | recentre
  | ok
deriving DecidableEq

structure LadderPlan where
  create : List Int
  anchor : Int
  reason : LadderReason
  otm : Nat
deriving DecidableEq

/- What of some strikes may still be created, ascending. -/
def missing
    (existing : List Int)
    (spot : Int)
    (strikes : List Int) : List Int :=
  ((strikes.filter
      (fun s =>
        decide (s ∉ existing) && inStrikeBand s spot)).dedup).insertionSort
    (fun a b => a ≤ b)

/- How many different strikes are out of the money. -/
def countOtm
    (spot : Int)
    (isPut : Bool)
    (strikes : List Int) : Nat :=
  (strikes.dedup.filter (fun s => isOtm s spot isPut)).length

def inSpan
    (farthest : Option Int)
    (isPut : Bool)
    (s : Int) : Bool :=
  match farthest with
  | none => true
  | some farthest =>
      if isPut then decide (s ≥ farthest)
      else decide (s ≤ farthest)

def LadderInput.today
    (input : LadderInput) : List Int :=
  ladderStrikes input.spot input.ladder input.strikeTick
    input.isPut

def LadderInput.anchored
    (input : LadderInput)
    (anchor : Int) : List Int :=
  (ladderStrikes anchor input.ladder input.strikeTick
    input.isPut).filter (fun s => inStrikeBand s input.spot)

def reasonOf
    (create : List Int)
    (reason : LadderReason) : LadderReason :=
  if create.length > 0 then reason else .ok

def planLadder
    (input : LadderInput) : LadderPlan :=
  match input.anchor with
  | none =>
      let create := missing input.existing input.spot input.today
      { create := create
        anchor := input.spot
        reason := reasonOf create .initial
        otm :=
          countOtm input.spot input.isPut
            (input.existing ++ create) }
  | some anchor =>
      let anchored := input.anchored anchor
      let farthest := input.today.getLast?
      let otm :=
        countOtm input.spot input.isPut
          (input.existing.filter (inSpan farthest input.isPut) ++
            anchored)
      if otm < 2 then
        let create :=
          missing input.existing input.spot input.today
        { create := create
          anchor := input.spot
          reason := reasonOf create .recentre
          otm := otm }
      else
        let create := missing input.existing input.spot anchored
        { create := create
          anchor := anchor
          reason := reasonOf create .complete
          otm := otm }

----
-- Rungs
----

section

open Pricer

/- Of two strikes, the second is further out. -/
def Outward
    (isPut : Bool)
    (a b : Int) : Prop :=
  if isPut then b < a else a < b

/- Strikes that move away from spot on the tick and in the band. -/
structure Rungs
    (spot strikeTick : Int)
    (isPut : Bool)
    (strikes : List Int) : Prop where
  outward : strikes.Pairwise (Outward isPut)
  tick : ∀ s ∈ strikes, strikeTick ∣ s
  band : ∀ s ∈ strikes, inStrikeBand s spot = true
  side : ∀ s ∈ strikes, if isPut then s ≤ spot else spot ≤ s

variable {isPut : Bool}

theorem Outward.trans
    {a b c : Int}
    (hab : Outward isPut a b)
    (hbc : Outward isPut b c) :
    Outward isPut a c := by
  unfold Outward at hab hbc ⊢
  split at hab
  · next h =>
      rw [if_pos h] at hbc ⊢
      exact hbc.trans hab
  · next h =>
      rw [if_neg h] at hbc ⊢
      exact hab.trans hbc

variable {strikes : List Int}

theorem outward_last
    (h : strikes.Pairwise (Outward isPut))
    {last : Int}
    (hLast : strikes.getLast? = some last) :
    ∀ s ∈ strikes, s = last ∨ Outward isPut s last := by
  rcases List.getLast?_eq_some_iff.mp hLast with ⟨front, rfl⟩
  intro s hs
  rcases List.mem_append.mp hs with hFront | hEnd
  · right
    exact
      (List.pairwise_append.mp h).2.2 s hFront last
        (List.mem_singleton_self _)
  · exact Or.inl (List.mem_singleton.mp hEnd)

variable {strikeTick : Int}

theorem dvd_nudge
    {strike : Int}
    (isPut : Bool)
    (hTick : ∀ s ∈ strikes, strikeTick ∣ s)
    (hStrike : strikeTick ∣ strike) :
    strikeTick ∣
      nudge strikes.getLast? strikeTick isPut strike := by
  unfold nudge
  cases hLast : strikes.getLast? with
  | none => exact hStrike
  | some previous =>
      have hPrevious :=
        hTick previous (List.mem_of_getLast? hLast)
      simp only
      split
      · exact dvd_add hPrevious (dvd_refl _)
      · split
        · exact dvd_sub hPrevious (dvd_refl _)
        · exact hStrike

theorem dvd_rungStrike
    (raw : Int)
    (isPut : Bool)
    (hTick : ∀ s ∈ strikes, strikeTick ∣ s) :
    strikeTick ∣
      rungStrike raw strikeTick isPut strikes.getLast? := by
  apply dvd_nudge isPut hTick
  split
  · exact Grid.dvd_roundDown _ _
  · exact Grid.dvd_roundUp _ _

/- A strike is beyond the last one, whatever it rounds to. -/
theorem outward_rungStrike
    {raw previous : Int}
    (hTick : 0 < strikeTick) :
    Outward isPut previous
      (rungStrike raw strikeTick isPut (some previous)) := by
  unfold rungStrike nudge Outward
  simp only
  cases isPut with
  | true =>
      rw [if_pos rfl, if_neg (by simp)]
      by_cases hPast :
          roundDownToTick raw strikeTick ≥ previous
      · rw [if_pos (by simpa using hPast)]
        omega
      · rw [if_neg (by simpa using hPast)]
        exact not_le.mp hPast
  | false =>
      rw [if_neg (by simp)]
      by_cases hPast : roundUpToTick raw strikeTick ≤ previous
      · rw [if_pos (by simpa using hPast)]
        omega
      · rw [if_neg (by simpa using hPast), if_neg (by simp)]
        exact not_le.mp hPast

variable {spot : Int}

/- The first rung rounds away from spot. -/
theorem side_first
    {raw : Int}
    (hSpot : 0 < spot)
    (hTick : 0 < strikeTick)
    (hRaw : if isPut then raw ≤ spot else spot ≤ raw) :
    if isPut then
      rungStrike raw strikeTick isPut none ≤ spot
    else spot ≤ rungStrike raw strikeTick isPut none := by
  unfold rungStrike nudge
  cases isPut with
  | true =>
      simp only [if_true] at hRaw ⊢
      by_cases hNonneg : 0 ≤ raw
      · exact (Grid.roundDown_le hNonneg hTick).trans hRaw
      · have hQuotient : raw.tdiv strikeTick ≤ 0 :=
          TruncDiv.tdiv_nonpos (by omega) hTick.le
        have : raw.tdiv strikeTick * strikeTick ≤ 0 :=
          mul_nonpos_of_nonpos_of_nonneg hQuotient hTick.le
        exact this.trans hSpot.le
  | false =>
      simp only [if_false, Bool.false_eq_true] at hRaw ⊢
      exact
        hRaw.trans
          (Grid.le_roundUp (hSpot.le.trans hRaw) hTick)

theorem Rungs.concat
    {strike : Int}
    (h : Rungs spot strikeTick isPut strikes)
    (hTick : strikeTick ∣ strike)
    (hBand : inStrikeBand strike spot = true)
    (hOutward :
      ∀ last, strikes.getLast? = some last →
        Outward isPut last strike)
    (hSide :
      strikes = [] →
        if isPut then strike ≤ spot else spot ≤ strike) :
    Rungs spot strikeTick isPut (strikes ++ [strike]) := by
  have hAll : ∀ s ∈ strikes, Outward isPut s strike := by
    intro s hs
    cases hLast : strikes.getLast? with
    | none =>
        rw [List.getLast?_eq_none_iff] at hLast
        rw [hLast] at hs
        cases hs
    | some last =>
        rcases outward_last h.outward hLast s hs with
          rfl | hBefore
        · exact hOutward _ hLast
        · exact hBefore.trans (hOutward last hLast)
  constructor
  · rw [List.pairwise_append]
    refine ⟨h.outward, List.pairwise_singleton _ _, ?_⟩
    intro s hs t ht
    rw [List.mem_singleton.mp ht]
    exact hAll s hs
  · intro s hs
    rcases List.mem_append.mp hs with hOld | hNew
    · exact h.tick s hOld
    · rwa [List.mem_singleton.mp hNew]
  · intro s hs
    rcases List.mem_append.mp hs with hOld | hNew
    · exact h.band s hOld
    · rwa [List.mem_singleton.mp hNew]
  · intro s hs
    rcases List.mem_append.mp hs with hOld | hNew
    · exact h.side s hOld
    · rw [List.mem_singleton.mp hNew]
      cases strikes with
      | nil => exact hSide rfl
      | cons first rest =>
          have hFirst := h.side first List.mem_cons_self
          have hOut := hAll first List.mem_cons_self
          unfold Outward at hOut
          split at hOut
          · next hPut =>
              rw [if_pos hPut] at hFirst ⊢
              omega
          · next hCall =>
              rw [if_neg hCall] at hFirst ⊢
              omega

theorem ladderLoop_rungs
    {step : Int}
    (hSpot : 0 < spot)
    (hTick : 0 < strikeTick)
    (left i : Nat)
    (raw : Int)
    (strikes : List Int)
    (hStart :
      strikes = [] →
        i = 0 ∧ if isPut then raw ≤ spot else spot ≤ raw)
    (h : Rungs spot strikeTick isPut strikes) :
    Rungs spot strikeTick isPut
      (ladderLoop spot step strikeTick isPut left i raw
        strikes) := by
  induction left generalizing i raw strikes with
  | zero => exact h
  | succ left ih =>
      rw [ladderLoop]
      generalize hRung :
        (if i > 0 then rungRaw raw step isPut else raw) = rung
      cases hBand :
          inStrikeBand
            (rungStrike rung strikeTick isPut
              strikes.getLast?) spot with
      | false => exact h
      | true =>
          apply ih
          · intro hNil
            exact absurd hNil (by simp)
          · apply h.concat (dvd_rungStrike _ _ h.tick) hBand
            · intro last hLast
              rw [hLast]
              exact outward_rungStrike hTick
            · intro hNil
              rcases hStart hNil with ⟨hZero, hRaw⟩
              rw [hZero, if_neg (lt_irrefl 0)] at hRung
              rw [hNil, ← hRung]
              exact side_first hSpot hTick hRaw

/-
  The rungs are different multiples of the tick, each further
  from spot than the one before, and all within the band.
-/
theorem ladderStrikes_rungs
    (spot : Int)
    (ladder : LadderParams)
    (strikeTick : Int)
    (isPut : Bool) :
    Rungs spot strikeTick isPut
      (ladderStrikes spot ladder strikeTick isPut) := by
  have hEmpty : Rungs spot strikeTick isPut [] := by
    constructor <;> simp
  unfold ladderStrikes
  split
  · exact hEmpty
  · next h =>
      rw [not_or, not_le, not_le] at h
      apply ladderLoop_rungs h.1 h.2 _ _ _ _ _ hEmpty
      intro _
      refine ⟨rfl, ?_⟩
      have hFirst : (0 : Int) ≤ ladder.firstOtmBps :=
        Int.natCast_nonneg _
      have hMore : 0 ≤ spot * ladder.firstOtmBps :=
        mul_nonneg h.1.le hFirst
      unfold rungRaw
      cases isPut with
      | true =>
          simp only [if_true]
          by_cases hNonneg :
              0 ≤ spot * (Pricer.bps - ladder.firstOtmBps)
          · apply TruncDiv.tdiv_le_of_le_mul hNonneg Pricer.bps_pos
            rw [mul_sub]
            omega
          · exact
              (TruncDiv.tdiv_nonpos (by omega)
                Pricer.bps_pos.le).trans h.1.le
      | false =>
          simp only [if_false, Bool.false_eq_true]
          have hScaled :
              0 ≤ spot * (Pricer.bps + ladder.firstOtmBps) :=
            mul_nonneg h.1.le
              (add_nonneg Pricer.bps_pos.le hFirst)
          by_contra hLow
          have hCeil :=
            (Grid.ceilDiv_le_iff
              (k := spot - 1) hScaled Pricer.bps_pos).mp
              (by
                change ceilDiv _ _ ≤ _
                omega)
          have := Pricer.bps_pos
          rw [mul_add, sub_mul] at hCeil
          omega

end

----
-- What a Pass Creates
----

section

variable {existing existing' strikes : List Int} {spot : Int}

theorem mem_missing
    {s : Int} :
    s ∈ missing existing spot strikes ↔
      s ∈ strikes ∧ s ∉ existing ∧
        inStrikeBand s spot = true := by
  unfold missing
  rw [List.mem_insertionSort, List.mem_dedup, List.mem_filter,
    Bool.and_eq_true, decide_eq_true_eq]

theorem missing_sorted
    (existing : List Int)
    (spot : Int)
    (strikes : List Int) :
    (missing existing spot strikes).Pairwise
      (fun a b => a < b) := by
  have hSorted :
      (missing existing spot strikes).Pairwise
        (fun a b => a ≤ b) :=
    List.pairwise_insertionSort _ _
  have hDistinct : (missing existing spot strikes).Nodup :=
    (List.perm_insertionSort _ _).nodup_iff.mpr
      (List.nodup_dedup _)
  exact
    (hSorted.and hDistinct).imp
      (fun h => lt_of_le_of_ne h.1 h.2)

theorem missing_congr
    (h : ∀ s ∈ strikes, s ∈ existing ↔ s ∈ existing') :
    missing existing spot strikes =
      missing existing' spot strikes := by
  unfold missing
  congr 2
  apply List.filter_congr
  intro s hs
  rw [Bool.eq_iff_iff, Bool.and_eq_true, Bool.and_eq_true,
    decide_eq_true_eq, decide_eq_true_eq, h s hs]

theorem missing_eq_nil
    (h : ∀ s ∈ missing existing spot strikes, s ∈ existing')
    (hMore : ∀ s ∈ existing, s ∈ existing') :
    missing existing' spot strikes = [] := by
  rw [List.eq_nil_iff_forall_not_mem]
  intro s hs
  rw [mem_missing] at hs
  apply hs.2.1
  by_cases hOld : s ∈ existing
  · exact hMore s hOld
  · exact h s (mem_missing.mpr ⟨hs.1, hOld, hs.2.2⟩)

/- Ascending lists of the same strikes are the same. -/
theorem eq_of_sorted
    {a b : List Int}
    (ha : a.Pairwise (fun s t => s < t))
    (hb : b.Pairwise (fun s t => s < t))
    (h : ∀ s, s ∈ a ↔ s ∈ b) :
    a = b := by
  have hPerm : a.Perm b := by
    rw [List.perm_ext_iff_of_nodup]
    · exact h
    · exact ha.imp (fun hLess => hLess.ne)
    · exact hb.imp (fun hLess => hLess.ne)
  refine List.Perm.eq_of_pairwise ?_ ha hb hPerm
  intro s t _ _ hLess hMore
  exact absurd hMore (lt_asymm hLess)

theorem countOtm_congr
    {isPut : Bool}
    (h : ∀ s, s ∈ existing ↔ s ∈ existing') :
    countOtm spot isPut existing =
      countOtm spot isPut existing' := by
  have hPerm : existing.dedup.Perm existing'.dedup := by
    rw [List.perm_ext_iff_of_nodup (List.nodup_dedup _)
      (List.nodup_dedup _)]
    intro s
    rw [List.mem_dedup, List.mem_dedup, h s]
  unfold countOtm
  exact (hPerm.filter _).length_eq

end

----
-- Later Passes
----

section

variable {input : LadderInput}

/- The rungs out of the money that a pass counts. -/
def LadderInput.rungsOtm
    (input : LadderInput)
    (anchor : Int) : Nat :=
  countOtm input.spot input.isPut
    (input.existing.filter
        (inSpan input.today.getLast? input.isPut) ++
      input.anchored anchor)

theorem planLadder_of_none
    (h : input.anchor = none) :
    planLadder input =
      { create :=
          missing input.existing input.spot input.today
        anchor := input.spot
        reason :=
          reasonOf
            (missing input.existing input.spot input.today)
            .initial
        otm :=
          countOtm input.spot input.isPut
            (input.existing ++
              missing input.existing input.spot
                input.today) } := by
  unfold planLadder
  rw [h]

theorem planLadder_of_low
    {anchor : Int}
    (h : input.anchor = some anchor)
    (hLow : input.rungsOtm anchor < 2) :
    planLadder input =
      { create :=
          missing input.existing input.spot input.today
        anchor := input.spot
        reason :=
          reasonOf
            (missing input.existing input.spot input.today)
            .recentre
        otm := input.rungsOtm anchor } := by
  unfold planLadder
  rw [h]
  exact if_pos hLow

theorem planLadder_of_high
    {anchor : Int}
    (h : input.anchor = some anchor)
    (hHigh : ¬ input.rungsOtm anchor < 2) :
    planLadder input =
      { create :=
          missing input.existing input.spot
            (input.anchored anchor)
        anchor := anchor
        reason :=
          reasonOf
            (missing input.existing input.spot
              (input.anchored anchor))
            .complete
        otm := input.rungsOtm anchor } := by
  unfold planLadder
  rw [h]
  exact if_neg hHigh

variable (input) in
/- No strike is proposed that exists or is out of the band. -/
theorem planLadder_proposes :
    ∀ s ∈ (planLadder input).create,
      s ∉ input.existing ∧
        inStrikeBand s input.spot = true := by
  intro s hs
  cases hAnchor : input.anchor with
  | none =>
      rw [planLadder_of_none hAnchor] at hs
      exact (mem_missing.mp hs).2
  | some anchor =>
      by_cases hLow : input.rungsOtm anchor < 2
      · rw [planLadder_of_low hAnchor hLow] at hs
        exact (mem_missing.mp hs).2
      · rw [planLadder_of_high hAnchor hLow] at hs
        exact (mem_missing.mp hs).2

variable (input) in
theorem anchored_self :
    input.anchored input.spot = input.today := by
  unfold LadderInput.anchored LadderInput.today
  rw [List.filter_eq_self]
  exact (ladderStrikes_rungs _ _ _ _).band

def LadderInput.next
    (input : LadderInput)
    (existing : List Int) : LadderInput :=
  { input with
    existing := existing
    anchor := some (planLadder input).anchor }

/- A pass after the ladder at today's spot was made is done. -/
theorem create_next_of_today
    {existing : List Int}
    (hAnchor : (planLadder input).anchor = input.spot)
    (hMade :
      missing existing input.spot input.today = []) :
    (planLadder (input.next existing)).create = [] := by
  have hNext :
      (input.next existing).anchor = some input.spot := by
    rw [← hAnchor]
    rfl
  have hSame :
      (input.next existing).anchored input.spot =
        input.today :=
    anchored_self input
  by_cases hLow : (input.next existing).rungsOtm input.spot < 2
  · rw [planLadder_of_low hNext hLow]
    exact hMade
  · rw [planLadder_of_high hNext hLow]
    simp only [hSame]
    exact hMade

/- Planning again after the proposed strikes were created. -/
theorem planLadder_again
    {existing : List Int}
    (hCreated :
      ∀ s, s ∈ existing ↔
        s ∈ input.existing ∨ s ∈ (planLadder input).create) :
    (planLadder (input.next existing)).create = [] := by
  have hOld : ∀ s ∈ input.existing, s ∈ existing :=
    fun s hs => (hCreated s).mpr (Or.inl hs)
  have hNew : ∀ s ∈ (planLadder input).create, s ∈ existing :=
    fun s hs => (hCreated s).mpr (Or.inr hs)
  cases hAnchor : input.anchor with
  | none =>
      have hPlan := planLadder_of_none hAnchor
      rw [hPlan] at hNew
      exact
        create_next_of_today (by rw [hPlan])
          (missing_eq_nil hNew hOld)
  | some anchor =>
      by_cases hLow : input.rungsOtm anchor < 2
      · have hPlan := planLadder_of_low hAnchor hLow
        rw [hPlan] at hNew
        exact
          create_next_of_today (by rw [hPlan])
            (missing_eq_nil hNew hOld)
      · have hPlan := planLadder_of_high hAnchor hLow
        have hNext :
            (input.next existing).anchor = some anchor := by
          unfold LadderInput.next
          rw [hPlan]
        -- What was created is of the anchored ladder.
        have hSame :
            (input.next existing).rungsOtm anchor =
              input.rungsOtm anchor := by
          apply countOtm_congr
          intro s
          have hCreate :
              s ∈ (planLadder input).create →
                s ∈ input.anchored anchor := by
            rw [hPlan]
            exact fun hs => (mem_missing.mp hs).1
          change
            s ∈ existing.filter
                  (inSpan input.today.getLast? input.isPut) ++
                input.anchored anchor ↔ _
          rw [List.mem_append, List.mem_append,
            List.mem_filter, List.mem_filter, hCreated s]
          tauto
        rw [planLadder_of_high hNext (by rwa [hSame])]
        rw [hPlan] at hNew
        exact missing_eq_nil hNew hOld

end

----
-- Strikes Beyond the Ladder
----

section

variable {input : LadderInput} {existing far : List Int}
variable {farthest : Int}
variable {s : Int}

theorem not_inSpan_of_outward
    {isPut : Bool}
    (h : Outward isPut farthest s) :
    inSpan (some farthest) isPut s = false := by
  unfold Outward at h
  unfold inSpan
  simp only
  split at h
  · next hPut =>
      rw [if_pos hPut]
      exact decide_eq_false (not_le.mpr h)
  · next hCall =>
      rw [if_neg hCall]
      exact decide_eq_false (not_le.mpr h)

/- Every rung of today's ladder is within its farthest. -/
theorem inSpan_today
    (hFarthest : input.today.getLast? = some farthest)
    (hs : s ∈ input.today) :
    inSpan (some farthest) input.isPut s = true := by
  have hRungs :=
    ladderStrikes_rungs input.spot input.ladder
      input.strikeTick input.isPut
  unfold inSpan
  simp only
  rcases outward_last hRungs.outward hFarthest s hs with
    rfl | hOut
  · split
    · exact decide_eq_true (le_refl _)
    · exact decide_eq_true (le_refl _)
  · unfold Outward at hOut
    split at hOut
    · next hPut =>
        rw [if_pos hPut]
        exact decide_eq_true hOut.le
    · next hCall =>
        rw [if_neg hCall]
        exact decide_eq_true hOut.le

/- The input when other strikes exist. -/
def LadderInput.withExisting
    (input : LadderInput)
    (existing : List Int) : LadderInput :=
  { input with existing := existing }

/- Added strikes stand beyond today's farthest rung. -/
structure Beyond
    (input : LadderInput)
    (farthest : Int)
    (far existing : List Int) : Prop where
  farthest_eq : input.today.getLast? = some farthest
  outward : ∀ s ∈ far, Outward input.isPut farthest s
  mem_iff :
    ∀ s, s ∈ existing ↔ s ∈ input.existing ∨ s ∈ far

section

variable (h : Beyond input farthest far existing)
include h

theorem Beyond.mem_of_inSpan
    (hs : inSpan (some farthest) input.isPut s = true) :
    s ∈ input.existing ↔ s ∈ existing := by
  rw [h.mem_iff]
  constructor
  · exact Or.inl
  · rintro (hOld | hFar)
    · exact hOld
    · rw [not_inSpan_of_outward (h.outward s hFar)] at hs
      cases hs

theorem Beyond.missing_today :
    missing existing input.spot input.today =
      missing input.existing input.spot input.today := by
  symm
  apply missing_congr
  intro s hs
  exact h.mem_of_inSpan (inSpan_today h.farthest_eq hs)

theorem Beyond.rungsOtm
    (anchor : Int) :
    (input.withExisting existing).rungsOtm anchor =
      input.rungsOtm anchor := by
  apply countOtm_congr
  intro s
  change
    s ∈ existing.filter
          (inSpan input.today.getLast? input.isPut) ++
        input.anchored anchor ↔ _
  rw [h.farthest_eq, List.mem_append, List.mem_append,
    List.mem_filter, List.mem_filter]
  constructor
  · rintro (⟨hIn, hSpan⟩ | hAnchored)
    · exact Or.inl ⟨(h.mem_of_inSpan hSpan).mpr hIn, hSpan⟩
    · exact Or.inr hAnchored
  · rintro (⟨hIn, hSpan⟩ | hAnchored)
    · exact Or.inl ⟨(h.mem_of_inSpan hSpan).mp hIn, hSpan⟩
    · exact Or.inr hAnchored

/- Of the missing rungs, those within the span still are. -/
theorem Beyond.filter_missing
    (strikes : List Int) :
    (missing existing input.spot strikes).filter
        (inSpan (some farthest) input.isPut) =
      (missing input.existing input.spot strikes).filter
        (inSpan (some farthest) input.isPut) := by
  apply
    eq_of_sorted ((missing_sorted _ _ _).filter _)
      ((missing_sorted _ _ _).filter _)
  intro s
  rw [List.mem_filter, List.mem_filter, mem_missing,
    mem_missing]
  constructor
  · rintro ⟨⟨hIn, hNew, hBand⟩, hSpan⟩
    rw [← h.mem_of_inSpan hSpan] at hNew
    exact ⟨⟨hIn, hNew, hBand⟩, hSpan⟩
  · rintro ⟨⟨hIn, hNew, hBand⟩, hSpan⟩
    rw [h.mem_of_inSpan hSpan] at hNew
    exact ⟨⟨hIn, hNew, hBand⟩, hSpan⟩

/- Nothing is left to create when all of it was added. -/
theorem Beyond.missing_eq_nil_iff
    (strikes : List Int) :
    missing existing input.spot strikes = [] ↔
      ∀ s ∈ missing input.existing input.spot strikes,
        s ∈ far := by
  constructor
  · intro hNone s hs
    rw [mem_missing] at hs
    by_contra hNear
    have hStill : s ∈ missing existing input.spot strikes := by
      rw [mem_missing, h.mem_iff]
      refine ⟨hs.1, ?_, hs.2.2⟩
      rintro (hOld | hFar)
      · exact hs.2.1 hOld
      · exact hNear hFar
    rw [hNone] at hStill
    cases hStill
  · intro hAll
    exact
      missing_eq_nil
        (fun s hs => (h.mem_iff s).mpr (Or.inr (hAll s hs)))
        (fun s hs => (h.mem_iff s).mpr (Or.inl hs))

end

theorem reasonOf_nil
    (reason : LadderReason) :
    reasonOf [] reason = .ok :=
  rfl

theorem reasonOf_of_ne_nil
    {create : List Int}
    (reason : LadderReason)
    (h : create ≠ []) :
    reasonOf create reason = reason :=
  if_pos (List.length_pos_iff.mpr h)

theorem reasonOf_ne_complete
    {create : List Int}
    {reason : LadderReason}
    (h : reason ≠ .complete) :
    reasonOf create reason ≠ .complete := by
  unfold reasonOf
  split
  · exact h
  · exact fun hOk => by cases hOk

/-
  Strikes beyond the ladder change neither the anchor nor what
  is proposed within it.  A completion that proposed only such
  strikes, and finds them all made, has nothing left.
-/
theorem planLadder_beyond
    (h : Beyond input farthest far existing) :
    (planLadder (input.withExisting existing)).anchor =
        (planLadder input).anchor ∧
      (planLadder (input.withExisting existing)).create.filter
          (inSpan (some farthest) input.isPut) =
        (planLadder input).create.filter
          (inSpan (some farthest) input.isPut) ∧
      (planLadder (input.withExisting existing)).reason =
        if (planLadder input).reason = .complete ∧
            ∀ s ∈ (planLadder input).create, s ∈ far then
          .ok
        else (planLadder input).reason := by
  have hToday := h.missing_today
  have hIncomplete :
      ∀ reason, reason ≠ LadderReason.complete →
        reasonOf
            (missing input.existing input.spot input.today)
            reason =
          if reasonOf
                (missing input.existing input.spot
                  input.today) reason = .complete ∧
              ∀ s ∈ missing input.existing input.spot
                input.today, s ∈ far then
            .ok
          else
            reasonOf
              (missing input.existing input.spot input.today)
              reason := by
    intro reason hReason
    rw [if_neg]
    exact fun hBoth => reasonOf_ne_complete hReason hBoth.1
  cases hAnchor : input.anchor with
  | none =>
      have hPlan : planLadder (input.withExisting existing) = _ :=
        planLadder_of_none hAnchor
      rw [hPlan, planLadder_of_none hAnchor]
      refine ⟨rfl, h.filter_missing _, ?_⟩
      change
        reasonOf
            (missing existing input.spot input.today) _ = _
      rw [hToday]
      exact hIncomplete _ (by decide)
  | some anchor =>
      have hOtm := h.rungsOtm anchor
      by_cases hLow : input.rungsOtm anchor < 2
      · have hPlan :
            planLadder (input.withExisting existing) = _ :=
          planLadder_of_low hAnchor (by rwa [hOtm])
        rw [hPlan, planLadder_of_low hAnchor hLow]
        refine ⟨rfl, h.filter_missing _, ?_⟩
        change
          reasonOf
              (missing existing input.spot input.today) _ = _
        rw [hToday]
        exact hIncomplete _ (by decide)
      · have hPlan :
            planLadder (input.withExisting existing) = _ :=
          planLadder_of_high hAnchor (by rwa [hOtm])
        rw [hPlan, planLadder_of_high hAnchor hLow]
        refine ⟨rfl, h.filter_missing _, ?_⟩
        have hNone := h.missing_eq_nil_iff (input.anchored anchor)
        change
          reasonOf
              (missing existing input.spot
                (input.anchored anchor)) _ = _
        by_cases hAll :
            ∀ s ∈ missing input.existing input.spot
              (input.anchored anchor), s ∈ far
        · rw [hNone.mpr hAll, reasonOf_nil]
          by_cases hOk :
              reasonOf
                  (missing input.existing input.spot
                    (input.anchored anchor)) .complete =
                .complete
          · rw [if_pos ⟨hOk, hAll⟩]
          · rw [if_neg (fun hBoth => hOk hBoth.1)]
            unfold reasonOf at hOk ⊢
            split
            · next hSome => exact absurd (if_pos hSome) hOk
            · rfl
        · have hSome :
              missing existing input.spot
                  (input.anchored anchor) ≠ [] :=
            fun hNil => hAll (hNone.mp hNil)
          have hFirst :
              missing input.existing input.spot
                  (input.anchored anchor) ≠ [] := by
            intro hNil
            apply hAll
            rw [hNil]
            exact fun s hs => absurd hs List.not_mem_nil
          rw [reasonOf_of_ne_nil _ hSome,
            reasonOf_of_ne_nil _ hFirst,
            if_neg (fun hBoth => hAll hBoth.2)]

/- A ladder left above today's, whose rungs others make. -/
def leftAbove : LadderInput :=
  { spot := 100000000
    ladder :=
      { rungs := 2
        firstOtmBps := 200
        stepBps := 200 }
    strikeTick := 1000000
    isPut := false
    existing := []
    anchor := some 110000000 }

def leftAboveRungs : List Int :=
  [113000000, 115000000]

theorem leftAbove_beyond :
    Beyond leftAbove 105000000 leftAboveRungs
      leftAboveRungs where
  farthest_eq := by decide
  outward := by
    unfold leftAboveRungs leftAbove Outward
    simp
  mem_iff := by
    unfold leftAbove
    simp

theorem planLadder_reason_changes :
    ¬ ∀ (input : LadderInput) (farthest : Int)
        (far existing : List Int),
      Beyond input farthest far existing →
        (planLadder (input.withExisting existing)).reason =
          (planLadder input).reason := by
  intro hAll
  have hSame := hAll _ _ _ _ leftAbove_beyond
  revert hSame
  decide

end

----
-- Convergence
----

variable {spot : Int}

theorem Rungs.nodup
    {strikeTick : Int}
    {isPut : Bool}
    {strikes : List Int}
    (h : Rungs spot strikeTick isPut strikes) :
    strikes.Nodup := by
  apply h.outward.imp
  intro a b hOut hSame
  unfold Outward at hOut
  rw [hSame] at hOut
  split at hOut
  · exact lt_irrefl _ hOut
  · exact lt_irrefl _ hOut

theorem Rungs.distance
    {strikeTick : Int}
    {isPut : Bool}
    {strikes : List Int}
    (h : Rungs spot strikeTick isPut strikes) :
    strikes.Pairwise
      (fun a b => |a - spot| < |b - spot|) := by
  apply h.outward.imp_of_mem
  intro a b ha hb hOut
  have hA := h.side a ha
  have hB := h.side b hb
  unfold Outward at hOut
  split at hOut
  · next hPut =>
      rw [if_pos hPut] at hA hB
      rw [abs_of_nonpos (by omega), abs_of_nonpos (by omega)]
      omega
  · next hCall =>
      rw [if_neg hCall] at hA hB
      rw [abs_of_nonneg (by omega), abs_of_nonneg (by omega)]
      omega

theorem band_of_inStrikeBand
    {s : Int}
    (h : inStrikeBand s spot = true) :
    spot / 2 ≤ s ∧ s ≤ 2 * spot := by
  unfold inStrikeBand at h
  simp only [Bool.and_eq_true, decide_eq_true_eq] at h
  have hSpot : 0 ≤ spot := by omega
  rw [Int.tdiv_eq_ediv_of_nonneg hSpot] at h
  omega

/-
  The rungs are different multiples of the tick in the band,
  ever further from spot.  No pass proposes a strike that
  exists or is out of the band, and the pass after one whose
  proposals were made proposes nothing.  Strikes beyond today's
  ladder change neither the anchor nor what is proposed within
  it, and the reason only when they are all that was missing.
-/
theorem planLadder_converges
    (input : LadderInput) :
    ((ladderStrikes input.spot input.ladder input.strikeTick
          input.isPut).Nodup ∧
        (ladderStrikes input.spot input.ladder
          input.strikeTick input.isPut).Pairwise
            (fun a b =>
              |a - input.spot| < |b - input.spot|) ∧
        ∀ s ∈ ladderStrikes input.spot input.ladder
            input.strikeTick input.isPut,
          input.strikeTick ∣ s ∧ input.spot / 2 ≤ s ∧
            s ≤ 2 * input.spot) ∧
      (∀ s ∈ (planLadder input).create,
        s ∉ input.existing ∧
          inStrikeBand s input.spot = true) ∧
      (∀ existing,
        (∀ s, s ∈ existing ↔
          s ∈ input.existing ∨
            s ∈ (planLadder input).create) →
        (planLadder (input.next existing)).create = []) ∧
      ∀ farthest far existing,
        Beyond input farthest far existing →
          (planLadder (input.withExisting existing)).anchor =
              (planLadder input).anchor ∧
            (planLadder
                (input.withExisting existing)).create.filter
                (inSpan (some farthest) input.isPut) =
              (planLadder input).create.filter
                (inSpan (some farthest) input.isPut) ∧
            (planLadder (input.withExisting existing)).reason =
              if (planLadder input).reason = .complete ∧
                  ∀ s ∈ (planLadder input).create, s ∈ far then
                .ok
              else (planLadder input).reason := by
  have hRungs :=
    ladderStrikes_rungs input.spot input.ladder
      input.strikeTick input.isPut
  refine
    ⟨⟨hRungs.nodup, hRungs.distance, ?_⟩,
      planLadder_proposes input,
      fun existing h => planLadder_again h,
      fun farthest far existing h => planLadder_beyond h⟩
  intro s hs
  exact
    ⟨hRungs.tick s hs, band_of_inStrikeBand (hRungs.band s hs)⟩

end Callhouse.Keeper.Cranker
