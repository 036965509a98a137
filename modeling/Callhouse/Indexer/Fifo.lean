import Callhouse.Lib.TruncDiv
import Mathlib.Tactic

/-
  indexer/lib/v2/fifo.ts: the cost of units taken from lots,
  oldest first.

  Main declarations:
    * `consumeFifo`, `feeShares`, `payoutValueUsdg`
    * `consumeFifo_spec`
-/

----
-- Cost Lots
----

namespace Callhouse.Indexer.Fifo

section

inductive LotSource where
  | fill
  | transfer
  | mint
deriving DecidableEq

structure CostLot where
  unitsRemaining : Int
  costRemainingUsdg : Int
  source : LotSource
deriving DecidableEq

structure ConsumedLot (T : Type) where
  lot : T
  units : Int
  costUsdg : Int
deriving DecidableEq

structure Consumed (T : Type) where
  consumed : List (ConsumedLot T)
  costUsdg : Int
  transferIn : Bool
deriving DecidableEq

variable {T : Type} (view : T → CostLot)

/- The last units of a lot carry the remainder of its cost. -/
def takenCost
    (lot : CostLot)
    (take : Int) : Int :=
  if take = lot.unitsRemaining then lot.costRemainingUsdg
  else (lot.costRemainingUsdg * take).tdiv lot.unitsRemaining

def takeFrom
    (remaining : Int)
    (lot : CostLot) : Int :=
  if remaining < lot.unitsRemaining then remaining
  else lot.unitsRemaining

/- The loop over the lots; its first part is what is missing. -/
def consumeLoop :
    List T → Int → Consumed T →
      Except String (Int × Consumed T)
  | [], remaining, result => .ok (remaining, result)
  | lot :: rest, remaining, result =>
      if remaining = 0 then .ok (remaining, result)
      else if (view lot).unitsRemaining < 0 ∨
          (view lot).costRemainingUsdg < 0 then
        .error "invalid FIFO lot"
      else if (view lot).unitsRemaining = 0 then
        consumeLoop rest remaining result
      else
        let take := takeFrom remaining (view lot)
        let cost := takenCost (view lot) take
        consumeLoop rest (remaining - take)
          { consumed :=
              result.consumed ++
                [{ lot := lot
                   units := take
                   costUsdg := cost }]
            costUsdg := result.costUsdg + cost
            transferIn :=
              result.transferIn ||
                decide ((view lot).source ≠ .fill) }

def consumeFifo
    (orderedLots : List T)
    (units : Int) : Except String (Consumed T) :=
  if units < 0 then .error "negative FIFO quantity"
  else do
    let result ←
      consumeLoop view orderedLots units
        { consumed := []
          costUsdg := 0
          transferIn := false }
    if result.1 > 0 then
      .error s!"FIFO inventory short by {result.1} units"
    else return result.2

/- Each share but the last is rounded down; the last is the rest. -/
def shareLoop
    (fee total : Int) : Int → List Int → List Int
  | _, [] => []
  | allocated, [_] => [fee - allocated]
  | allocated, premium :: next :: rest =>
      let share := (fee * premium).tdiv total
      share :: shareLoop fee total (allocated + share)
        (next :: rest)

/- A call's fee among its fills, by their premiums. -/
def feeShares
    (premiums : List Int)
    (fee : Int) : Except String (List Int) :=
  if fee < 0 ∨ premiums.any (fun premium => premium < 0) then
    .error "negative fee or premium"
  else if premiums = [] then
    if fee ≠ 0 then .error "fee without fills" else .ok []
  else if premiums.sum = 0 ∧ fee ≠ 0 then
    .error "fee without premium"
  else if premiums.sum = 0 ∧ 1 < premiums.length then
    .error "Division by zero"
  else .ok (shareLoop fee premiums.sum 0 premiums)

def payoutValueUsdg
    (amount settlementPrice : Int)
    (assetIsUsdg : Bool) : Except String Int :=
  if amount < 0 ∨ settlementPrice < 0 then
    .error "negative payout"
  else if assetIsUsdg then .ok amount
  else .ok ((amount * settlementPrice).tdiv (10 ^ 18))

end

----
-- What Is Consumed
----

section

variable {T : Type} {view : T → CostLot}

/- A lot without units has no cost left. -/
structure CostLot.Ok
    (lot : CostLot) : Prop where
  units : 0 ≤ lot.unitsRemaining
  cost : 0 ≤ lot.costRemainingUsdg
  spent : lot.unitsRemaining = 0 → lot.costRemainingUsdg = 0

def heldUnits
    (view : T → CostLot)
    (lots : List T) : Int :=
  (lots.map (fun lot => (view lot).unitsRemaining)).sum

def takenUnits
    (consumed : List (ConsumedLot T)) : Int :=
  (consumed.map (fun entry => entry.units)).sum

/- What is taken of one lot leaves that lot as it should be. -/
structure ConsumedLot.Ok
    (view : T → CostLot)
    (entry : ConsumedLot T) : Prop where
  units : 0 ≤ entry.units
  within : entry.units ≤ (view entry.lot).unitsRemaining
  cost : 0 ≤ entry.costUsdg
  costWithin :
    entry.costUsdg ≤ (view entry.lot).costRemainingUsdg
  whole :
    entry.units = (view entry.lot).unitsRemaining →
      entry.costUsdg = (view entry.lot).costRemainingUsdg

theorem takenCost_ok
    {lot : T}
    (h : (view lot).Ok)
    {take : Int}
    (hTake : 0 ≤ take)
    (hWithin : take ≤ (view lot).unitsRemaining) :
    ConsumedLot.Ok view
      { lot := lot
        units := take
        costUsdg := takenCost (view lot) take } where
  units := hTake
  within := hWithin
  cost := by
    unfold takenCost
    split
    · exact h.cost
    · exact Int.tdiv_nonneg (mul_nonneg h.cost hTake) h.units
  costWithin := by
    unfold takenCost
    simp only
    split
    · exact le_refl _
    · next hPart =>
        have hPositive : 0 < (view lot).unitsRemaining := by
          omega
        apply
          TruncDiv.tdiv_le_of_le_mul
            (mul_nonneg h.cost hTake) hPositive
        exact mul_le_mul_of_nonneg_left hWithin h.cost
  whole := by
    intro hWhole
    unfold takenCost
    exact if_pos hWhole

/-
  Lots that hold enough give exactly what is asked, in their
  order and each at most once.
-/
theorem consumeLoop_spec
    (lots : List T)
    (hLots : ∀ lot ∈ lots, (view lot).Ok)
    {remaining : Int}
    (hNonneg : 0 ≤ remaining)
    (hEnough : remaining ≤ heldUnits view lots)
    (result : Consumed T)
    (hCost : 0 ≤ result.costUsdg) :
    ∃ more transferIn cost,
      consumeLoop view lots remaining result =
          .ok
            (0,
              { consumed := result.consumed ++ more
                costUsdg := cost
                transferIn := transferIn }) ∧
        0 ≤ cost ∧
        takenUnits more = remaining ∧
        (more.map (fun entry => entry.lot)).Sublist lots ∧
        ∀ entry ∈ more, entry.Ok view := by
  induction lots generalizing remaining result with
  | nil =>
      have hZero : remaining = 0 := by
        simp only [heldUnits, List.map_nil, List.sum_nil]
          at hEnough
        omega
      subst hZero
      refine
        ⟨[], result.transferIn, result.costUsdg, ?_, hCost,
          rfl, List.Sublist.refl _, by simp⟩
      simp [consumeLoop]
  | cons lot rest ih =>
      have hLot := hLots lot List.mem_cons_self
      have hRest : ∀ lot ∈ rest, (view lot).Ok :=
        fun x hx => hLots x (List.mem_cons_of_mem _ hx)
      have hEnough' :
          remaining ≤
            (view lot).unitsRemaining + heldUnits view rest := by
        simpa [heldUnits] using hEnough
      unfold consumeLoop
      by_cases hDone : remaining = 0
      · subst hDone
        refine
          ⟨[], result.transferIn, result.costUsdg, ?_, hCost,
            rfl, List.nil_sublist _, by simp⟩
        simp
      · have hValid :
            ¬ ((view lot).unitsRemaining < 0 ∨
                (view lot).costRemainingUsdg < 0) := by
          have hUnits := hLot.units
          have hLotCost := hLot.cost
          omega
        rw [if_neg hDone, if_neg hValid]
        by_cases hEmpty : (view lot).unitsRemaining = 0
        · rw [if_pos hEmpty]
          rcases ih hRest hNonneg (by omega) result hCost with
            ⟨more, transferIn, cost, hRun, hRunCost, hTaken,
              hSub, hOk⟩
          exact
            ⟨more, transferIn, cost, hRun, hRunCost, hTaken,
              hSub.cons _, hOk⟩
        · rw [if_neg hEmpty]
          simp only
          have hUnits := hLot.units
          have hTakeBounds :
              0 ≤ takeFrom remaining (view lot) ∧
                takeFrom remaining (view lot) ≤
                  (view lot).unitsRemaining ∧
                takeFrom remaining (view lot) ≤ remaining ∧
                remaining - takeFrom remaining (view lot) ≤
                  heldUnits view rest := by
            unfold takeFrom
            split
            · have hLeft : 0 ≤ heldUnits view rest := by
                unfold heldUnits
                apply List.sum_nonneg
                intro x hx
                rcases List.mem_map.mp hx with ⟨y, hy, rfl⟩
                exact (hRest y hy).units
              omega
            · omega
          generalize takeFrom remaining (view lot) = take at *
          obtain ⟨hTake, hWithin, hTakeLe, hLeft⟩ := hTakeBounds
          have hEntry := takenCost_ok hLot hTake hWithin
          rcases
              ih hRest (by omega : 0 ≤ remaining - take) hLeft
                { consumed :=
                    result.consumed ++
                      [{ lot := lot
                         units := take
                         costUsdg := takenCost (view lot) take }]
                  costUsdg :=
                    result.costUsdg + takenCost (view lot) take
                  transferIn :=
                    result.transferIn ||
                      decide ((view lot).source ≠ .fill) }
                (add_nonneg hCost hEntry.cost) with
            ⟨more, transferIn, cost, hRun, hRunCost, hTaken,
              hSub, hOk⟩
          refine
            ⟨{ lot := lot
               units := take
               costUsdg := takenCost (view lot) take } :: more,
              transferIn, cost, ?_, hRunCost, ?_, ?_, ?_⟩
          · rw [hRun, List.append_assoc]
            rfl
          · unfold takenUnits at hTaken ⊢
            rw [List.map_cons, List.sum_cons, hTaken]
            ring
          · exact hSub.cons_cons lot
          · intro entry hIn
            rcases List.mem_cons.mp hIn with rfl | hIn
            · exact hEntry
            · exact hOk entry hIn

/- Nothing runs short when the lots hold what is asked. -/
theorem consumeFifo_spec
    {lots : List T}
    (hLots : ∀ lot ∈ lots, (view lot).Ok)
    {units : Int}
    (hNonneg : 0 ≤ units)
    (hEnough : units ≤ heldUnits view lots) :
    ∃ result,
      consumeFifo view lots units = .ok result ∧
        0 ≤ result.costUsdg ∧
        takenUnits result.consumed = units ∧
        (result.consumed.map (fun entry => entry.lot)).Sublist
          lots ∧
        ∀ entry ∈ result.consumed, entry.Ok view := by
  rcases
      consumeLoop_spec lots hLots hNonneg hEnough
        { consumed := []
          costUsdg := 0
          transferIn := false }
        (le_refl 0) with
    ⟨more, transferIn, cost, hRun, hCost, hTaken, hSub, hOk⟩
  refine
    ⟨{ consumed := more
       costUsdg := cost
       transferIn := transferIn },
      ?_, hCost, hTaken, hSub, hOk⟩
  unfold consumeFifo
  rw [if_neg (by omega), hRun]
  rfl

end

----
-- Fee Shares
----

theorem length_shareLoop
    (fee total allocated : Int)
    (premiums : List Int) :
    (shareLoop fee total allocated premiums).length =
      premiums.length := by
  induction premiums generalizing allocated with
  | nil => rfl
  | cons premium rest ih =>
      cases rest with
      | nil => rfl
      | cons next rest =>
          simp only [shareLoop]
          rw [List.length_cons, ih]
          rfl

/- The last share leaves nothing over. -/
theorem sum_shareLoop
    (fee total allocated : Int)
    {premiums : List Int}
    (hSome : premiums ≠ []) :
    (shareLoop fee total allocated premiums).sum =
      fee - allocated := by
  induction premiums generalizing allocated with
  | nil => exact absurd rfl hSome
  | cons premium rest ih =>
      cases rest with
      | nil => simp [shareLoop]
      | cons next rest =>
          simp only [shareLoop]
          rw [List.sum_cons, ih _ (List.cons_ne_nil _ _)]
          ring

theorem dropLast_shareLoop
    (fee total allocated : Int)
    (premiums : List Int) :
    (shareLoop fee total allocated premiums).dropLast =
      premiums.dropLast.map
        (fun premium => (fee * premium).tdiv total) := by
  induction premiums generalizing allocated with
  | nil => rfl
  | cons premium rest ih =>
      cases rest with
      | nil => rfl
      | cons next rest =>
          simp only [shareLoop]
          rw [List.dropLast_cons_of_ne_nil
            (List.ne_nil_of_length_eq_add_one
              (length_shareLoop fee total _ (next :: rest))),
            ih]
          rfl

/- What is allocated stays within the premiums passed. -/
theorem shareLoop_nonneg
    {fee total allocated : Int}
    {premiums : List Int}
    (hFee : 0 ≤ fee)
    (hTotal : 0 < total)
    (hPremiums : ∀ premium ∈ premiums, 0 ≤ premium)
    (hAllocated :
      allocated * total ≤ fee * (total - premiums.sum)) :
    ∀ share ∈ shareLoop fee total allocated premiums,
      0 ≤ share := by
  induction premiums generalizing allocated with
  | nil =>
      intro share h
      cases h
  | cons premium rest ih =>
      rw [List.forall_mem_cons] at hPremiums
      rw [List.sum_cons] at hAllocated
      cases rest with
      | nil =>
          intro share h
          have hShare : share = fee - allocated := by
            simpa [shareLoop] using h
          have hBound : allocated * total ≤ fee * total := by
            apply hAllocated.trans
            apply mul_le_mul_of_nonneg_left _ hFee
            rw [List.sum_nil]
            linarith [hPremiums.1]
          have := le_of_mul_le_mul_right hBound hTotal
          omega
      | cons next rest =>
          intro share h
          simp only [shareLoop, List.mem_cons] at h
          have hProduct : 0 ≤ fee * premium :=
            mul_nonneg hFee hPremiums.1
          rcases h with rfl | h
          · exact TruncDiv.tdiv_nonneg hProduct hTotal
          · apply ih hPremiums.2 _ share h
            have hShare := TruncDiv.tdiv_mul_le hProduct hTotal
            rw [add_mul]
            calc
              allocated * total +
                    (fee * premium).tdiv total * total
                  ≤ fee * (total -
                      (premium + (next :: rest).sum)) +
                    fee * premium :=
                add_le_add hAllocated hShare
              _ = fee * (total - (next :: rest).sum) := by
                ring

end Callhouse.Indexer.Fifo
