import Callhouse.Indexer.PnlClock
import Callhouse.Lib.Balances
import Callhouse.Lib.LockStep
import Callhouse.Lib.Succeeds

/-
  The lots of the PnL clock as holdings: a new lot is a
  credit of its holder, and what is consumed is a debit that
  never runs short where the lots hold enough.

  Main declarations:
    * `heldOf`, `LotsOk`, `Ledger.Holds`
    * `addLot_holds`, `consume_holds`
    * `handleFill_holds`, `handleFill_bears`
    * `handleMint_holds`, `handleTransfer_holds`
-/

----
-- Units Held in Lots
----

namespace Callhouse.Indexer.PnlClock

def LotRow.holding
    (lot : LotRow) : Int × String :=
  (lot.longId, lot.holder)

/- The units that a holder's lots of a series have left. -/
def heldOf
    (lots : List LotRow)
    (k : Int × String) : Int :=
  (lots.map (fun lot =>
    if lot.holding = k then lot.unitsRemaining else 0)).sum

/- A lot without units has no cost left. -/
structure LotRow.Ok
    (lot : LotRow) : Prop where
  view : lot.view.Ok
  within : lot.costRemainingUsdg ≤ lot.costUsdg

structure LotsOk
    (lots : List LotRow) : Prop where
  lot : ∀ lot ∈ lots, lot.Ok
  keys : (lots.map LotRow.key).Nodup

theorem holding_of_key
    {a b : LotRow}
    (h : a.key = b.key) :
    a.holding = b.holding := by
  unfold LotRow.key at h
  unfold LotRow.holding
  rcases Prod.mk.inj h with ⟨hLongId, hRest⟩
  rw [hLongId, (Prod.mk.inj hRest).1]

theorem isOf_iff
    (longId : Int)
    (holder : String)
    (lot : LotRow) :
    lot.isOf longId holder = true ↔
      lot.holding = (longId, address holder) := by
  unfold LotRow.isOf LotRow.holding
  rw [Bool.and_eq_true, decide_eq_true_eq, decide_eq_true_eq,
    Prod.mk.injEq]

@[simp]
theorem heldOf_nil
    (k : Int × String) :
    heldOf [] k = 0 := rfl

theorem heldOf_cons
    (lot : LotRow)
    (lots : List LotRow)
    (k : Int × String) :
    heldOf (lot :: lots) k =
      (if lot.holding = k then lot.unitsRemaining else 0) +
        heldOf lots k := by
  unfold heldOf
  rw [List.map_cons, List.sum_cons]

theorem heldOf_append
    (lots lots' : List LotRow)
    (k : Int × String) :
    heldOf (lots ++ lots') k = heldOf lots k + heldOf lots' k := by
  unfold heldOf
  rw [List.map_append, List.sum_append]

/- The open lots hold all that the holder's lots hold. -/
theorem heldUnits_openLots
    {lots : List LotRow}
    (hLots : ∀ lot ∈ lots, lot.Ok)
    (longId : Int)
    (holder : String) :
    Fifo.heldUnits LotRow.view (openLots lots longId holder) =
      heldOf lots (longId, address holder) := by
  unfold Fifo.heldUnits openLots
  rw [((List.perm_insertionSort _ _).map _).sum_eq]
  induction lots with
  | nil => rfl
  | cons lot rest ih =>
      rcases List.forall_mem_cons.mp hLots with ⟨hLot, hRest⟩
      have hNonneg : 0 ≤ lot.unitsRemaining := hLot.view.units
      rw [heldOf_cons, ← ih hRest, List.filter_cons]
      by_cases hOf : lot.isOf longId holder = true
      · rw [if_pos ((isOf_iff longId holder lot).mp hOf)]
        by_cases hOpen : lot.unitsRemaining > 0
        · simp [hOf, hOpen, LotRow.view]
        · simp only [hOf, hOpen, decide_false, Bool.and_false,
            Bool.false_eq_true, if_false]
          omega
      · rw [if_neg (mt (isOf_iff longId holder lot).mpr hOf)]
        simp [hOf]

theorem mem_openLots
    (lots : List LotRow)
    (longId : Int)
    (holder : String)
    (lot : LotRow) :
    lot ∈ openLots lots longId holder ↔
      lot ∈ lots ∧ lot.holding = (longId, address holder) ∧
        0 < lot.unitsRemaining := by
  unfold openLots
  rw [List.mem_insertionSort, List.mem_filter, Bool.and_eq_true,
    isOf_iff, decide_eq_true_eq]

----
-- Taking From Lots
----

section

open Balances

/- A lot after some of it has been taken. -/
def takenFrom
    (taken : Fifo.ConsumedLot LotRow)
    (lot : LotRow) : LotRow :=
  { lot with
    unitsRemaining := taken.lot.unitsRemaining - taken.units
    costRemainingUsdg :=
      taken.lot.costRemainingUsdg - taken.costUsdg }

theorem takeLot_eq
    (lots : List LotRow)
    (taken : Fifo.ConsumedLot LotRow) :
    takeLot lots taken =
      lots.map
        (fun lot =>
          if lot.key = taken.lot.key then takenFrom taken lot
          else lot) := rfl

theorem map_key_takeLot
    (lots : List LotRow)
    (taken : Fifo.ConsumedLot LotRow) :
    (takeLot lots taken).map LotRow.key =
      lots.map LotRow.key := by
  rw [takeLot_eq, List.map_map]
  apply List.map_congr_left
  intro lot _
  simp only [Function.comp_apply]
  split <;> rfl

theorem takenFrom_ok
    {taken : Fifo.ConsumedLot LotRow}
    (hLot : taken.lot.Ok)
    (hTaken : taken.Ok LotRow.view) :
    (takenFrom taken taken.lot).Ok := by
  have hWithin :
      taken.units ≤ taken.lot.unitsRemaining := hTaken.within
  have hCostWithin :
      taken.costUsdg ≤ taken.lot.costRemainingUsdg :=
    hTaken.costWithin
  refine
    { view :=
        { units := sub_nonneg.mpr hWithin
          cost := sub_nonneg.mpr hCostWithin
          spent := ?_ }
      within := ?_ }
  · intro hEmpty
    have hWhole : taken.units = taken.lot.unitsRemaining :=
      (sub_eq_zero.mp hEmpty).symm
    exact sub_eq_zero.mpr (hTaken.whole hWhole).symm
  · have hCost := hTaken.cost
    have hOld := hLot.within
    change
      taken.lot.costRemainingUsdg - taken.costUsdg ≤
        taken.lot.costUsdg
    omega

variable {lots : List LotRow}

theorem heldOf_takeLot
    (hKeys : (lots.map LotRow.key).Nodup)
    {taken : Fifo.ConsumedLot LotRow}
    (hIn : taken.lot ∈ lots) :
    heldOf (takeLot lots taken) =
      credit (heldOf lots) taken.lot.holding (-taken.units) := by
  funext k
  induction lots with
  | nil => cases hIn
  | cons lot rest ih =>
      rw [List.map_cons, List.nodup_cons] at hKeys
      have hUnfold :
          takeLot (lot :: rest) taken =
            (if lot.key = taken.lot.key then
                takenFrom taken lot
              else lot) :: takeLot rest taken := rfl
      rw [hUnfold, heldOf_cons]
      unfold credit
      rw [heldOf_cons]
      by_cases hSame : lot.key = taken.lot.key
      · have hOwn : taken.lot = lot := by
          rcases List.mem_cons.mp hIn with hHead | hRest
          · exact hHead
          · exact
              absurd (List.mem_map_of_mem hRest)
                (hSame ▸ hKeys.1)
        -- No other lot has the key, so the rest stays.
        have hStays : takeLot rest taken = rest := by
          rw [takeLot_eq]
          conv_rhs => rw [← List.map_id rest]
          apply List.map_congr_left
          intro other hOther
          apply if_neg
          intro hOtherKey
          rw [hSame, ← hOtherKey] at hKeys
          exact hKeys.1 (List.mem_map_of_mem hOther)
        subst hOwn
        rw [if_pos rfl, hStays]
        by_cases hk : taken.lot.holding = k
        · have hTaken :
              (takenFrom taken taken.lot).holding = k := hk
          rw [if_pos hTaken, if_pos hk, if_pos hk.symm]
          change
            taken.lot.unitsRemaining - taken.units +
                heldOf rest k = _
          ring
        · have hTaken :
              ¬ (takenFrom taken taken.lot).holding = k := hk
          rw [if_neg hTaken, if_neg hk, if_neg (Ne.symm hk)]
      · have hRest : taken.lot ∈ rest := by
          rcases List.mem_cons.mp hIn with hHead | hRest
          · exact absurd (congrArg LotRow.key hHead.symm) hSame
          · exact hRest
        rw [if_neg hSame, ih hKeys.2 hRest]
        unfold credit
        by_cases hk : k = taken.lot.holding
        · rw [if_pos hk, if_pos hk]
          ring
        · rw [if_neg hk, if_neg hk]

theorem lotsOk_takeLot
    (h : LotsOk lots)
    {taken : Fifo.ConsumedLot LotRow}
    (hIn : taken.lot ∈ lots)
    (hTaken : taken.Ok LotRow.view) :
    LotsOk (takeLot lots taken) where
  lot := by
    intro lot hLot
    rw [takeLot_eq] at hLot
    rcases List.mem_map.mp hLot with ⟨old, hOld, rfl⟩
    split
    · next hSame =>
        have hOwn : old = taken.lot :=
          List.inj_on_of_nodup_map h.keys hOld hIn hSame
        rw [hOwn]
        exact takenFrom_ok (h.lot taken.lot hIn) hTaken
    · exact h.lot old hOld
  keys := by
    rw [map_key_takeLot]
    exact h.keys

/- A lot that is not taken from stays as it was. -/
theorem mem_takeLot_of_ne
    {taken : Fifo.ConsumedLot LotRow}
    {lot : LotRow}
    (hIn : lot ∈ lots)
    (hOther : lot.key ≠ taken.lot.key) :
    lot ∈ takeLot lots taken := by
  rw [takeLot_eq]
  exact List.mem_map.mpr ⟨lot, hIn, if_neg hOther⟩

theorem takeLots_held
    (h : LotsOk lots)
    {k : Int × String}
    {consumed : List (Fifo.ConsumedLot LotRow)}
    (hLots :
      ∀ taken ∈ consumed,
        taken.lot ∈ lots ∧ taken.lot.holding = k ∧
          taken.Ok LotRow.view)
    (hOnce : (consumed.map (fun taken => taken.lot)).Nodup) :
    LotsOk (consumed.foldl takeLot lots) ∧
      heldOf (consumed.foldl takeLot lots) =
        credit (heldOf lots) k (-Fifo.takenUnits consumed) := by
  induction consumed generalizing lots with
  | nil =>
      refine ⟨h, ?_⟩
      exact (credit_zero (heldOf lots) k).symm
  | cons taken rest ih =>
      rcases List.forall_mem_cons.mp hLots with
        ⟨⟨hIn, hOf, hTaken⟩, hRest⟩
      rw [List.map_cons, List.nodup_cons] at hOnce
      have hLater :
          ∀ later ∈ rest,
            later.lot ∈ takeLot lots taken ∧
              later.lot.holding = k ∧
                later.Ok LotRow.view := by
        intro later hLater
        rcases hRest later hLater with ⟨hOld, hLaterOf, hOk⟩
        refine ⟨mem_takeLot_of_ne hOld ?_, hLaterOf, hOk⟩
        intro hSame
        have hLot :=
          List.inj_on_of_nodup_map h.keys hOld hIn hSame
        exact
          hOnce.1
            (hLot ▸
              List.mem_map_of_mem
                (f := fun taken : Fifo.ConsumedLot LotRow =>
                  taken.lot) hLater)
      rcases ih (lotsOk_takeLot h hIn hTaken) hLater hOnce.2 with
        ⟨hOk, hHeld⟩
      refine ⟨hOk, ?_⟩
      rw [List.foldl_cons, hHeld, heldOf_takeLot h.keys hIn, hOf]
      unfold Fifo.takenUnits
      rw [List.map_cons, List.sum_cons]
      funext k'
      unfold credit
      split
      · ring
      · rfl

end

----
-- Lots of a Ledger
----

section

open Balances

/- What the lots of a ledger hold, for every holder. -/
structure Ledger.Holds
    (ledger : Ledger)
    (held : Int × String → Int) : Prop where
  ok : LotsOk ledger.lots
  held : heldOf ledger.lots = held

variable {ledger : Ledger} {held : Int × String → Int}

theorem Ledger.Holds.of_lots
    {ledger' : Ledger}
    (h : ledger.Holds held)
    (hSame : ledger'.lots = ledger.lots) :
    ledger'.Holds held where
  ok := hSame ▸ h.ok
  held := hSame ▸ h.held

/- The next number is past those of the holder's lots. -/
theorem seq_lt_nextSeq
    {lots : List LotRow}
    {longId : Int}
    {holder : String}
    {lot : LotRow}
    (hIn : lot ∈ lots)
    (hOf : lot.holding = (longId, address holder)) :
    lot.seq < nextSeq lots longId holder := by
  have : Std.Total (fun a b : LotRow => a.seq ≤ b.seq) :=
    ⟨fun a b => le_total a.seq b.seq⟩
  have : IsTrans LotRow (fun a b => a.seq ≤ b.seq) :=
    ⟨fun _ _ _ => le_trans⟩
  have hSorted :=
    List.pairwise_insertionSort
      (fun a b : LotRow => a.seq ≤ b.seq)
      (lots.filter (LotRow.isOf longId holder))
  have hLot :
      lot ∈
        (lots.filter (LotRow.isOf longId holder)).insertionSort
          (fun a b => a.seq ≤ b.seq) := by
    rw [List.mem_insertionSort, List.mem_filter, isOf_iff]
    exact ⟨hIn, hOf⟩
  unfold nextSeq
  generalize
    (lots.filter (LotRow.isOf longId holder)).insertionSort
      (fun a b => a.seq ≤ b.seq) = sorted at hSorted hLot ⊢
  induction sorted using List.reverseRecOn with
  | nil => cases hLot
  | append_singleton front last _ =>
      rw [List.getLast?_concat]
      rw [List.pairwise_append] at hSorted
      rcases List.mem_append.mp hLot with hFront | hLast
      · exact
          Nat.lt_succ_of_le
            (hSorted.2.2 lot hFront last
              (List.mem_singleton_self last))
      · rw [List.mem_singleton.mp hLast]
        exact Nat.lt_succ_self _

theorem addLot_holds
    (h : ledger.Holds held)
    (longId : Int)
    (holder : String)
    {units cost : Int}
    (hUnits : 0 < units)
    (hCost : 0 ≤ cost)
    (source : Fifo.LotSource)
    (sourceId : String)
    (at' : Int) :
    Succeeds
      (addLot ledger longId holder units cost source sourceId
        at')
      (fun ledger' =>
        ledger'.Holds
          (credit held (longId, address holder) units)) := by
  unfold addLot
  rw [if_neg (by omega)]
  apply Succeeds.ok
  constructor
  · constructor
    · intro lot hLot
      rcases List.mem_append.mp hLot with hOld | hNew
      · exact h.ok.lot lot hOld
      · rw [List.mem_singleton.mp hNew]
        refine
          { view :=
              { units := hUnits.le
                cost := hCost
                spent := ?_ }
            within := le_refl _ }
        intro hEmpty
        exact absurd hEmpty hUnits.ne'
    · simp only
      rw [List.map_append, List.nodup_append]
      refine ⟨h.ok.keys, List.nodup_singleton _, ?_⟩
      intro key hKey key' hNew hSame
      rcases List.mem_map.mp hKey with ⟨lot, hLot, rfl⟩
      rw [List.map_singleton, List.mem_singleton] at hNew
      rw [hNew] at hSame
      have hOf : lot.holding = (longId, address holder) :=
        holding_of_key hSame
      have hLess := seq_lt_nextSeq hLot hOf
      have hSeq : lot.seq = nextSeq ledger.lots longId holder :=
        (Prod.mk.inj (Prod.mk.inj hSame).2).2
      omega
  · funext k
    simp only
    rw [heldOf_append, h.held, heldOf_cons, heldOf_nil]
    unfold credit LotRow.holding
    by_cases hk : k = (longId, address holder)
    · rw [if_pos hk, if_pos hk.symm]
      ring
    · rw [if_neg hk, if_neg (Ne.symm hk)]
      ring

theorem consume_holds
    (h : ledger.Holds held)
    {longId : Int}
    {holder : String}
    {units : Int}
    (hUnits : 0 ≤ units)
    (hEnough : units ≤ held (longId, address holder)) :
    Succeeds (consume ledger longId holder units)
      (fun taken =>
        0 ≤ taken.2.costUsdg ∧
          taken.1.Holds
            (credit held (longId, address holder)
              (-units))) := by
  have hLots :
      ∀ lot ∈ openLots ledger.lots longId holder,
        lot.view.Ok := by
    intro lot hLot
    rw [mem_openLots] at hLot
    exact (h.ok.lot lot hLot.1).view
  have hHeld :
      units ≤
        Fifo.heldUnits LotRow.view
          (openLots ledger.lots longId holder) := by
    rw [heldUnits_openLots h.ok.lot, h.held]
    exact hEnough
  rcases Fifo.consumeFifo_spec hLots hUnits hHeld with
    ⟨result, hRun, hCost, hTaken, hSub, hOk⟩
  have hOpen :
      ∀ taken ∈ result.consumed,
        taken.lot ∈ ledger.lots ∧
          taken.lot.holding = (longId, address holder) ∧
            taken.Ok LotRow.view := by
    intro taken hIn
    have hLot :=
      hSub.subset
        (List.mem_map_of_mem
          (f := fun entry : Fifo.ConsumedLot LotRow =>
            entry.lot) hIn)
    rw [mem_openLots] at hLot
    exact ⟨hLot.1, hLot.2.1, hOk taken hIn⟩
  have hDistinct :
      (openLots ledger.lots longId holder).Nodup := by
    unfold openLots
    rw [(List.perm_insertionSort _ _).nodup_iff]
    exact (List.Nodup.of_map _ h.ok.keys).filter _
  rcases takeLots_held h.ok hOpen (hSub.nodup hDistinct) with
    ⟨hKept, hLeft⟩
  rw [hTaken, h.held] at hLeft
  unfold consume
  rw [hRun]
  exact
    Succeeds.ok
      ⟨hCost,
        { ok := hKept
          held := hLeft }⟩

end

----
-- The Handlers as Credits and Debits
----

open Balances Reconcile

variable {env : Env} {inputs : Inputs} {ledger : Ledger}
variable {held : Int × String → Int}

/- Ranks, totals and statistics leave the lots alone. -/
theorem refreshWindow_lots
    (holder : String)
    (at' : Int)
    (closed : List Positions.RankPosition)
    (ledger : Ledger)
    (window : Window) :
    (refreshWindow env inputs holder at' closed ledger
      window).lots = ledger.lots := by
  unfold refreshWindow
  simp only
  split <;> rfl

theorem foldl_lots
    {ι : Type}
    {step : Ledger → ι → Ledger}
    (hStep : ∀ ledger row, (step ledger row).lots = ledger.lots)
    (rows : List ι)
    (ledger : Ledger) :
    (rows.foldl step ledger).lots = ledger.lots := by
  induction rows generalizing ledger with
  | nil => rfl
  | cons row rest ih => rw [List.foldl_cons, ih, hStep]

@[simp]
theorem refreshRanks_lots
    (holder : String)
    (at' : Int) :
    (refreshRanks env inputs ledger holder at').lots =
      ledger.lots :=
  foldl_lots (refreshWindow_lots holder at' _) windows ledger

@[simp]
theorem refreshIfClosed_lots
    (previous : PositionRow)
    (holder : String)
    (at' : Int) :
    (refreshIfClosed env inputs previous ledger holder
      at').lots = ledger.lots := by
  unfold refreshIfClosed
  split
  · exact refreshRanks_lots holder at'
  · rfl

@[simp]
theorem writerStats_lots
    (writer : String)
    (ts premium collateral assigned : Int) :
    (writerStats env ledger writer ts premium collateral
      assigned).lots = ledger.lots :=
  foldl_lots (fun _ _ => rfl) windows ledger

/- Closing a position fails at a negative time only. -/
theorem maybeClose_holds
    (h : ledger.Holds held)
    (longId : Int)
    (holder : String)
    {at' : Int}
    (hAt : 0 ≤ at')
    (tx : String) :
    Succeeds
      (maybeClose env inputs ledger longId holder at' tx)
      (fun ledger' => ledger'.Holds held) := by
  unfold maybeClose
  split
  · exact Succeeds.ok h
  · simp only
    split
    · exact Succeeds.ok h
    · unfold Positions.closePosition
      rw [if_neg (not_lt.mpr hAt)]
      exact Succeeds.ok (h.of_lots (refreshRanks_lots holder at'))

theorem sellPosition_succeeds
    (position : Positions.PositionTotals)
    {units proceeds cost : Int}
    (hUnits : 0 < units)
    (hProceeds : 0 ≤ proceeds)
    (hCost : 0 ≤ cost)
    (transferIn : Bool) :
    Succeeds
      (Positions.sellPosition position units proceeds cost
        transferIn)
      (fun _ => True) := by
  unfold Positions.sellPosition
  rw [if_neg (by omega)]
  exact Succeeds.ok trivial

theorem buyPosition_succeeds
    (position : Positions.PositionTotals)
    {units cost : Int}
    (hUnits : 0 < units)
    (hCost : 0 ≤ cost)
    (selfFill offMarket : Bool) :
    Succeeds
      (Positions.buyPosition position units cost selfFill
        offMarket)
      (fun _ => True) := by
  unfold Positions.buyPosition
  rw [if_neg (by omega)]
  exact Succeeds.ok trivial

theorem redeemPosition_succeeds
    (position : Positions.PositionTotals)
    {units payout cost : Int}
    (hUnits : 0 < units)
    (hPayout : 0 ≤ payout)
    (hCost : 0 ≤ cost)
    (transferIn : Bool) :
    Succeeds
      (Positions.redeemPosition position units payout cost
        transferIn)
      (fun _ => True) := by
  unfold Positions.redeemPosition
  rw [if_neg (by omega)]
  exact Succeeds.ok trivial

theorem transferOutPosition_succeeds
    (position : Positions.PositionTotals)
    {units : Int}
    (hUnits : 0 < units) :
    Succeeds (Positions.transferOutPosition position units)
      (fun _ => True) := by
  unfold Positions.transferOutPosition
  rw [if_neg (not_le.mpr hUnits)]
  exact Succeeds.ok trivial

variable {fill : FillRow}

theorem sellFill_holds
    (h : ledger.Holds held)
    {takerFee : Int}
    (hUnits : 0 < fill.units)
    (hTime : 0 ≤ fill.ts)
    (hEnough :
      fill.units ≤ held (fill.longId, address fill.seller))
    (hProceeds : 0 ≤ fillProceeds fill takerFee)
    (selfFill offMarket : Bool) :
    Succeeds
      (sellFill env inputs ledger fill takerFee selfFill
        offMarket)
      (fun ledger' =>
        ledger'.Holds
          (credit held (fill.longId, address fill.seller)
            (-fill.units))) := by
  unfold sellFill
  apply (consume_holds h hUnits.le hEnough).bind
  rintro ⟨sold, consumed⟩ ⟨hCost, hSold⟩
  apply (sellPosition_succeeds _ hUnits hProceeds hCost _).bind
  intro totals _
  apply maybeClose_holds _ fill.longId fill.seller hTime fill.tx
  exact hSold.of_lots rfl

theorem buyFill_holds
    (h : ledger.Holds held)
    (series : SeriesRow)
    {takerFee : Int}
    (hUnits : 0 < fill.units)
    (hCost : 0 ≤ fillCost fill takerFee)
    (selfFill offMarket : Bool) :
    Succeeds
      (buyFill env inputs ledger series fill takerFee selfFill
        offMarket)
      (fun ledger' =>
        ledger'.Holds
          (credit held (fill.longId, address fill.buyer)
            fill.units)) := by
  unfold buyFill
  simp only
  rw [if_neg (not_lt.mpr hCost)]
  apply
    (addLot_holds h fill.longId fill.buyer hUnits hCost .fill
      fill.id fill.ts).bind
  intro bought hBought
  apply (buyPosition_succeeds _ hUnits hCost _ _).bind
  intro totals _
  exact
    Succeeds.ok
      (hBought.of_lots (refreshIfClosed_lots _ fill.buyer fill.ts))

/- What the lots hold after a fill. -/
def afterFill
    (held : Int × String → Int)
    (fill : FillRow) : Int × String → Int :=
  credit
    (if fill.primary then held
    else
      credit held (fill.longId, address fill.seller)
        (-fill.units))
    (fill.longId, address fill.buyer) fill.units

/- A fill is booked where it bears its fee. -/
structure FillRow.Bears
    (fill : FillRow)
    (takerFee : Int) : Prop where
  proceeds :
    fill.primary = false → 0 ≤ fillProceeds fill takerFee
  cost : 0 ≤ fillCost fill takerFee

theorem writeFill_holds
    (h : ledger.Holds held)
    (fill : FillRow)
    (takerFee : Int) :
    (writeFill env ledger fill takerFee).Holds held := by
  apply h.of_lots
  unfold writeFill
  simp only
  exact writerStats_lots _ _ _ _ _

theorem bookFill_holds
    (h : ledger.Holds held)
    (series : SeriesRow)
    {takerFee : Int}
    (hUnits : 0 < fill.units)
    (hTime : 0 ≤ fill.ts)
    (hEnough :
      fill.primary = false →
        fill.units ≤ held (fill.longId, address fill.seller))
    (hBears : fill.Bears takerFee)
    (selfFill offMarket : Bool) :
    Succeeds
      (do
        let ledger ←
          if fill.primary then
            .ok (writeFill env ledger fill takerFee)
          else
            sellFill env inputs ledger fill takerFee selfFill
              offMarket
        buyFill env inputs ledger series fill takerFee selfFill
          offMarket)
      (fun ledger' => ledger'.Holds (afterFill held fill)) := by
  unfold afterFill
  cases hPrimary : fill.primary with
  | true =>
      simp only [if_true]
      exact
        buyFill_holds (writeFill_holds h fill takerFee) series
          hUnits hBears.cost selfFill offMarket
  | false =>
      simp only [Bool.false_eq_true, if_false]
      apply
        (sellFill_holds h hUnits hTime (hEnough hPrimary)
          (hBears.proceeds hPrimary) selfFill offMarket).bind
      intro sold hSold
      exact buyFill_holds hSold series hUnits hBears.cost _ _

variable {series : SeriesRow}

theorem handleFill_holds
    (h : ledger.Holds held)
    {takerFee : Int}
    (hSeries : inputs.findSeries fill.longId = some series)
    (hUnits : 0 < fill.units)
    (hTime : 0 ≤ fill.ts)
    (hEnough :
      fill.primary = false →
        fill.units ≤ held (fill.longId, address fill.seller))
    (hBears : fill.Bears takerFee) :
    Succeeds (handleFill env inputs ledger fill takerFee)
      (fun ledger' => ledger'.Holds (afterFill held fill)) := by
  unfold handleFill
  rw [hSeries]
  cases priceReference inputs fill with
  | none =>
      exact bookFill_holds h series hUnits hTime hEnough hBears _ _
  | some fair =>
      apply bookFill_holds _ series hUnits hTime hEnough hBears
      exact h.of_lots rfl

variable {ledger' : Ledger}

/- A resale that does not bear its fee throws. -/
theorem sellFill_proceeds
    {takerFee : Int}
    {selfFill offMarket : Bool}
    (h :
      sellFill env inputs ledger fill takerFee selfFill
        offMarket = .ok ledger') :
    0 ≤ fillProceeds fill takerFee := by
  unfold sellFill at h
  rcases LockStep.bind_eq_ok.mp h with ⟨taken, _, hSold⟩
  rcases LockStep.bind_eq_ok.mp hSold with ⟨sold, hSell, _⟩
  unfold Positions.sellPosition at hSell
  split at hSell
  · cases hSell
  · next hValid => omega

theorem buyFill_cost
    {takerFee : Int}
    {selfFill offMarket : Bool}
    (h :
      buyFill env inputs ledger series fill takerFee selfFill
        offMarket = .ok ledger') :
    0 ≤ fillCost fill takerFee := by
  unfold buyFill at h
  simp only at h
  split at h
  · cases h
  · next hValid => exact not_lt.mp hValid

/- A fill that is booked bears its fee. -/
theorem handleFill_bears
    {takerFee : Int}
    (h :
      handleFill env inputs ledger fill takerFee =
        .ok ledger') :
    fill.Bears takerFee := by
  unfold handleFill at h
  split at h
  · cases h
  · cases hPrimary : fill.primary with
    | true =>
        simp only [hPrimary, if_true] at h
        rcases LockStep.bind_eq_ok.mp h with ⟨_, _, hBuy⟩
        exact
          { proceeds := fun hResale => by
              rw [hPrimary] at hResale
              cases hResale
            cost := buyFill_cost hBuy }
    | false =>
        simp only [hPrimary, Bool.false_eq_true, if_false] at h
        rcases LockStep.bind_eq_ok.mp h with ⟨_, hSell, hBuy⟩
        exact
          { proceeds := fun _ => sellFill_proceeds hSell
            cost := buyFill_cost hBuy }

theorem collateralValue_succeeds
    {units strike : Int}
    (hUnits : 0 ≤ units)
    (hStrike : 0 ≤ strike) :
    Succeeds (Positions.collateralValue units strike)
      (fun _ => True) := by
  unfold Positions.collateralValue
  rw [if_neg (by omega)]
  exact Succeeds.ok trivial

/- A mint of a fill is the fill's; one of its own is a lot. -/
theorem handleMint_holds
    (h : ledger.Holds held)
    {row : MintRow}
    (hSeries : inputs.findSeries row.longId = some series)
    (hStrike : 0 ≤ series.strike)
    (hUnits : 0 < row.units)
    (matchedMints : List String) :
    Succeeds (handleMint env inputs matchedMints ledger row)
      (fun ledger' =>
        ledger'.Holds
          (if row.id ∈ matchedMints then held
          else
            credit held (row.longId, address row.longTo)
              row.units)) := by
  unfold handleMint
  rw [hSeries]
  apply (collateralValue_succeeds hUnits.le hStrike).bind
  intro collateral _
  have hStats :
      (writerStats env ledger row.writer row.ts 0 collateral
        0).Holds held :=
    h.of_lots (writerStats_lots _ _ _ _ _)
  simp only
  split
  · exact Succeeds.ok hStats
  · apply
      (addLot_holds hStats row.longId row.longTo hUnits
        (le_refl 0) .mint row.id row.ts).bind
    intro minted hMinted
    apply Succeeds.ok
    apply hMinted.of_lots
    rw [refreshIfClosed_lots]
    rfl

variable {row : TransferRow}

theorem sendUnits_holds
    (h : ledger.Holds held)
    (hUnits : 0 < row.units)
    (hTime : 0 ≤ row.ts)
    (hEnough :
      row.units ≤ held (row.longId, address row.sender)) :
    Succeeds (sendUnits env inputs ledger row)
      (fun ledger' =>
        ledger'.Holds
          (credit held (row.longId, address row.sender)
            (-row.units))) := by
  unfold sendUnits
  apply (consume_holds h hUnits.le hEnough).bind
  rintro ⟨spent, consumed⟩ ⟨_, hSpent⟩
  apply (transferOutPosition_succeeds _ hUnits).bind
  intro moved _
  apply maybeClose_holds _ row.longId row.sender hTime row.tx
  split
  · exact hSpent.of_lots rfl
  · exact hSpent.of_lots rfl

theorem receiveUnits_holds
    (h : ledger.Holds held)
    (hUnits : 0 < row.units) :
    Succeeds (receiveUnits env inputs ledger row)
      (fun ledger' =>
        ledger'.Holds
          (credit held (row.longId, address row.recipient)
            row.units)) := by
  unfold receiveUnits
  apply
    (addLot_holds h row.longId row.recipient hUnits
      (le_refl 0) _ row.id row.ts).bind
  intro received hReceived
  split
  · exact Succeeds.ok hReceived
  · apply Succeeds.ok
    apply hReceived.of_lots
    rw [refreshIfClosed_lots]
    rfl

/- What the lots hold after a transfer of a wallet's own. -/
def afterTransfer
    (env : Env)
    (held : Int × String → Int)
    (row : TransferRow) : Int × String → Int :=
  if address row.sender = address env.orderBook ∨
      address row.recipient = address env.orderBook then held
  else
    credit
      (credit held (row.longId, address row.sender)
        (-row.units))
      (row.longId, address row.recipient) row.units

variable {matchedTransfers : List String}

theorem handleTransfer_matched
    (hMatched : row.id ∈ matchedTransfers) :
    handleTransfer env inputs matchedTransfers ledger row =
      .ok ledger := by
  unfold handleTransfer
  exact if_pos (.inl hMatched)

/- An escrow move is skipped, and so is an empty one. -/
theorem handleTransfer_holds
    (h : ledger.Holds held)
    (hOwn : row.id ∉ matchedTransfers)
    (hUnits : 0 ≤ row.units)
    (hTime : 0 ≤ row.ts)
    (hSender : address row.sender ≠ zero)
    (hRecipient : address row.recipient ≠ zero)
    (hEnough :
      address row.sender ≠ address env.orderBook →
        address row.recipient ≠ address env.orderBook →
          row.units ≤ held (row.longId, address row.sender)) :
    Succeeds
      (handleTransfer env inputs matchedTransfers ledger row)
      (fun ledger' =>
        ledger'.Holds (afterTransfer env held row)) := by
  unfold handleTransfer afterTransfer
  by_cases hZero : row.units = 0
  · rw [if_pos (.inr hZero), hZero]
    simp only [neg_zero, credit_zero, ite_self]
    exact Succeeds.ok h
  · rw [if_neg (not_or.mpr ⟨hOwn, hZero⟩)]
    split
    · exact Succeeds.ok h
    · next hWallets =>
        rw [not_or] at hWallets
        have hSome : 0 < row.units := by omega
        apply
          (sendUnits_holds h hSome hTime
            (hEnough hWallets.1 hWallets.2)).bind
        intro sent hSent
        exact receiveUnits_holds hSent hSome

theorem handleClose_holds
    (h : ledger.Holds held)
    {row : CloseRow}
    (hUnits : 0 < row.units)
    (hTime : 0 ≤ row.ts)
    (hEnough :
      row.units ≤ held (row.longId, address row.account)) :
    Succeeds (handleClose env inputs ledger row)
      (fun ledger' =>
        ledger'.Holds
          (credit held (row.longId, address row.account)
            (-row.units))) := by
  unfold handleClose
  apply (consume_holds h hUnits.le hEnough).bind
  rintro ⟨spent, consumed⟩ ⟨hCost, hSpent⟩
  apply
    (sellPosition_succeeds _ hUnits (le_refl 0) hCost true).bind
  intro totals _
  apply maybeClose_holds _ row.longId row.account hTime row.tx
  exact hSpent.of_lots rfl

theorem payoutValueUsdg_succeeds
    {amount price : Int}
    (hAmount : 0 ≤ amount)
    (hPrice : 0 ≤ price)
    (assetIsUsdg : Bool) :
    Succeeds (Fifo.payoutValueUsdg amount price assetIsUsdg)
      (fun payout => 0 ≤ payout) := by
  unfold Fifo.payoutValueUsdg
  rw [if_neg (by omega)]
  split
  · exact Succeeds.ok hAmount
  · apply Succeeds.ok
    exact
      Int.tdiv_nonneg (mul_nonneg hAmount hPrice) (by norm_num)

theorem redeemLong_holds
    (h : ledger.Holds held)
    {row : RedemptionRow}
    {price : Int}
    (hSettled :
      settledPrice inputs row.longId = some (series, price))
    (hPrice : 0 ≤ price)
    (hAmount : 0 ≤ row.amount)
    (hUnits : 0 < row.units)
    (hTime : 0 ≤ row.ts)
    (hEnough :
      row.units ≤ held (row.longId, address row.holder)) :
    Succeeds (redeemLong env inputs ledger row)
      (fun ledger' =>
        ledger'.Holds
          (credit held (row.longId, address row.holder)
            (-row.units))) := by
  unfold redeemLong
  apply (consume_holds h hUnits.le hEnough).bind
  rintro ⟨spent, consumed⟩ ⟨hCost, hSpent⟩
  rw [hSettled]
  apply (payoutValueUsdg_succeeds hAmount hPrice _).bind
  intro payout hPayout
  apply (redeemPosition_succeeds _ hUnits hPayout hCost _).bind
  intro totals _
  apply maybeClose_holds _ row.longId row.holder hTime row.tx
  exact hSpent.of_lots rfl

end Callhouse.Indexer.PnlClock
