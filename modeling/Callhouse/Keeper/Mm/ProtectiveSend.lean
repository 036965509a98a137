import Callhouse.Keeper.Mm.TickPlan
import Callhouse.Keeper.Mm.RiskLimits

/-
  keeper/src/v2/mm/quoter.ts, planVault: on a read between
  two routine sends only the protective transactions of the
  plan go out.

  Main declarations:
    * `protectiveTxs`, `protectiveTarget`, `GuardsCovered`
    * `net_protective_cut_nonpos`
    * `protective_cut_within`
    * `protective_cut_over_commits`
-/

----
-- The Protective Part of a Plan
----

namespace Callhouse.Keeper.Mm

def TickOfVault.protectiveTxs
    (tick : TickOfVault) : List MmTx :=
  tick.txs.filter isProtectiveTx

/- The units of one kind of order. -/
def kindUnits
    (kind : OrderKindName)
    (o : Resting) : Int :=
  if o.kind = kind then o.units else 0

/- What the vault holds of a series beside its live orders. -/
structure SeriesHolding where
  longs : Int
  resale : Int
  shorts : Int
  strike : Int

/- The notional of a series' live bid, write and resale units. -/
def seriesNotional
    (holding : SeriesHolding)
    (bid write resale : Int) : Int :=
  notionalOf
    (exposureUnits holding.longs holding.resale
      holding.shorts bid write resale)
    holding.strike

def TickOfVault.totalNotional
    (tick : TickOfVault)
    (holding : Int → SeriesHolding)
    (book : List Resting) : Int :=
  aggregate
    (tick.inputs.map (fun input => input.longId))
    (fun longId => seriesNotional (holding longId)) book

/- What transactions add to a weight, by the plan's numbers. -/
def net
    (weight : Resting → Int)
    (start : List Resting)
    (txs : List MmTx) : Int :=
  (txs.map (change weight start)).sum

/-
  A cut of the protective transactions stays inside the
  larger of the start and the whole plan, in all four
  resources.
-/
structure TickOfVault.Within
    (tick : TickOfVault)
    (holding : Int → SeriesHolding)
    (cut : List MmTx) : Prop where
  escrow :
    bidEscrowTotal (executeTxs tick.start cut) ≤
      max (bidEscrowTotal tick.start)
        (bidEscrowTotal (executeTxs tick.start tick.txs))
  notional :
    tick.totalNotional holding (executeTxs tick.start cut) ≤
      max (tick.totalNotional holding tick.start)
        (tick.totalNotional holding
          (executeTxs tick.start tick.txs))
  write :
    total (kindUnits .AskWrite)
        (executeTxs tick.start cut) ≤
      max (total (kindUnits .AskWrite) tick.start)
        (total (kindUnits .AskWrite)
          (executeTxs tick.start tick.txs))
  resale :
    total (kindUnits .AskResale)
        (executeTxs tick.start cut) ≤
      max (total (kindUnits .AskResale) tick.start)
        (total (kindUnits .AskResale)
          (executeTxs tick.start tick.txs))

----
-- A Cut of the Protective Part
----

variable {tick : TickOfVault}

theorem net_append
    (weight : Resting → Int)
    (start : List Resting)
    (txs txs' : List MmTx) :
    net weight start (txs ++ txs') =
      net weight start txs + net weight start txs' := by
  unfold net
  rw [List.map_append, List.sum_append]

/- Executing part of a plan adds that part's own numbers. -/
theorem total_cut
    (hIds : DistinctIds tick.inputs)
    (weight : Resting → Int)
    {cut : List MmTx}
    (hCut : cut.Sublist tick.txs) :
    total weight (executeTxs tick.start cut) =
      total weight tick.start +
        net weight tick.start cut := by
  apply total_executeTxs
  have hAll :=
    planTxs_touched_nodup tick.isQuoter tick.killed
      tick.upkeep hIds
  exact (hCut.flatMap _).nodup hAll

theorem protective_sublist
    (tick : TickOfVault) :
    tick.protectiveTxs.Sublist tick.txs :=
  List.filter_sublist

theorem seriesNotional_mono
    {holding : SeriesHolding}
    (hStrike : 0 ≤ holding.strike)
    {b b' w w' r r' : Int}
    (hb : b ≤ b')
    (hw : w ≤ w')
    (hr : r ≤ r') :
    seriesNotional holding b w r ≤
      seriesNotional holding b' w' r' := by
  apply notionalOf_mono hStrike
  · exact le_max_right _ _
  · unfold exposureUnits
    apply max_le_max _ (le_refl 0)
    apply max_le_max <;> omega

theorem cut_sublist
    {cut : List MmTx}
    (hCut : cut <+: tick.protectiveTxs) :
    cut.Sublist tick.txs :=
  hCut.sublist.trans (protective_sublist tick)

----
-- Slots Replaced for Protection
----

/- No refresh is due, and judgeReplace protects the order. -/
def replacesToProtect
    (input : SeriesActionInput)
    (askFloors : AskFloors)
    (slot : Slot)
    (keep : LiveOrder)
    (target : SlotTarget)
    (validUntil : Int) : Bool :=
  !decide
      (keep.validUntil - input.now < input.refreshS ∧
        validUntil > keep.validUntil + input.refreshS) &&
    (judgeReplace
      { order := keep
        target := target
        slot := slot
        askFloors := askFloors
        bidCap := input.bidCap
        safeFloor := input.safeFloor.map (fun f => f slot)
        params := input.params }).protective

/-
  The target that a slot's newest live order gives way to at
  once, for protection.
-/
def SeriesActionInput.protectiveTarget
    (input : SeriesActionInput)
    (slot : Slot) : Option SlotTarget :=
  match input.targets, input.askFloors,
    newestFirst input slot with
  | some targets, some askFloors, keep :: _ =>
      match quotable input targets slot with
      | none => none
      | some (target, validUntil) =>
          if replacesToProtect input askFloors slot keep
              target validUntil then
            some target
          else none
  | _, _, _ => none

/-
  A target of no more units than the slot has live, and for a
  bid of no more escrow.
-/
def SeriesActionInput.Covers
    (input : SeriesActionInput)
    (slot : Slot)
    (target : SlotTarget) : Prop :=
  target.units ≤
      ((newestFirst input slot).map
        (fun o => o.remaining)).sum ∧
    (slot = .bid →
      target.price * target.units ≤
        ((newestFirst input slot).map
          (fun o => o.price * o.remaining)).sum)

instance
    (input : SeriesActionInput)
    (slot : Slot)
    (target : SlotTarget) :
    Decidable (input.Covers slot target) := by
  unfold SeriesActionInput.Covers
  infer_instance

/- No slot is replaced for protection by more than it has. -/
def TickOfVault.GuardsCovered
    (tick : TickOfVault) : Prop :=
  ∀ input ∈ tick.inputs,
    ∀ slot ∈ [Slot.bid, .write, .resale],
      ∀ target ∈ input.protectiveTarget slot,
        input.Covers slot target

instance
    (tick : TickOfVault) : Decidable tick.GuardsCovered := by
  unfold TickOfVault.GuardsCovered
  infer_instance

def targetResting
    (input : SeriesActionInput)
    (slot : Slot)
    (target : SlotTarget) : Resting :=
  { longId := input.longId
    id := none
    kind := slotKind slot
    price := target.price
    units := target.units }

/- What a slot's live orders hold of a weight. -/
def slotTotal
    (weight : Resting → Int)
    (input : SeriesActionInput)
    (slot : Slot) : Int :=
  total weight
    ((newestFirst input slot).map (restingOf input.longId))

/- A weight that no covered target exceeds. -/
structure CoveredWeight
    (inputs : List SeriesActionInput)
    (weight : Resting → Int) : Prop where
  nonneg : ∀ o ∈ startBook inputs, 0 ≤ weight o
  covered : ∀ input slot target,
    input.Covers slot target →
      weight (targetResting input slot target) ≤
        slotTotal weight input slot

section

variable {inputs : List SeriesActionInput}
variable {weight : Resting → Int}

theorem total_nonneg
    {book : List Resting}
    (h : ∀ o ∈ book, 0 ≤ weight o) :
    0 ≤ total weight book := by
  unfold total
  apply List.sum_nonneg
  intro x hx
  rcases List.mem_map.mp hx with ⟨o, ho, rfl⟩
  exact h o ho

theorem start_units_nonneg
    {o : Resting}
    (h : o ∈ startBook inputs) :
    0 ≤ o.units := by
  rcases mem_startBook h with ⟨_, _, live, hLive, rfl⟩
  exact (live_remaining_pos hLive).le

variable {slot : Slot} {input : SeriesActionInput}

/- All orders of a slot weigh something, or none does. -/
theorem le_slotTotal
    (p : Prop)
    [Decidable p]
    (f : LiveOrder → Int)
    {target : Int}
    (hOrders :
      ∀ o, o.kind = slotKind slot →
        weight (restingOf input.longId o) =
          if p then f o else 0)
    (hTarget :
      p → target ≤ ((newestFirst input slot).map f).sum) :
    (if p then target else 0) ≤
      slotTotal weight input slot := by
  have hEach :
      ∀ o ∈ newestFirst input slot,
        weight (restingOf input.longId o) =
          if p then f o else 0 :=
    fun o ho => hOrders o (mem_newestFirst ho).2
  unfold slotTotal total
  rw [List.map_map]
  have hSum := congrArg List.sum (List.map_congr_left hEach)
  refine le_of_le_of_eq ?_ hSum.symm
  by_cases hp : p
  · simpa only [if_pos hp] using hTarget hp
  · simp [if_neg hp]

theorem kindUnits_covered
    (inputs : List SeriesActionInput)
    (kind : OrderKindName) :
    CoveredWeight inputs (kindUnits kind) where
  nonneg := by
    intro o ho
    have hUnits := start_units_nonneg ho
    unfold kindUnits
    split <;> omega
  covered := by
    intro input slot target hCovers
    apply
      le_slotTotal (slotKind slot = kind)
        (fun o => o.remaining)
    · intro o hKind
      unfold kindUnits restingOf
      rw [hKind]
    · exact fun _ => hCovers.1

theorem slotUnits_covered
    (inputs : List SeriesActionInput)
    (longId : Int)
    (of_ : Slot) :
    CoveredWeight inputs (slotUnits longId of_) where
  nonneg := fun o ho =>
    slotUnits_nonneg longId of_ (start_units_nonneg ho)
  covered := by
    intro input slot target hCovers
    apply
      le_slotTotal
        (input.longId = longId ∧ slotKind slot = slotKind of_)
        (fun o => o.remaining)
    · intro o hKind
      unfold slotUnits restingOf
      rw [hKind]
    · exact fun _ => hCovers.1

theorem escrowed_covered
    (hPrices : PricesNonneg inputs) :
    CoveredWeight inputs escrowed where
  nonneg := by
    intro o ho
    rcases mem_startBook ho with
      ⟨input, hInput, live, hLive, rfl⟩
    apply escrowed_nonneg
    exact
      ⟨hPrices.orders input hInput live
          (List.mem_of_mem_filter hLive),
        (live_remaining_pos hLive).le⟩
  covered := by
    intro input slot target hCovers
    apply
      le_slotTotal (slotKind slot = .Bid)
        (fun o => o.price * o.remaining)
    · intro o hKind
      unfold escrowed restingOf
      rw [hKind]
    · exact fun hBid => hCovers.2 (slotKind_eq_bid.mp hBid)

----
-- What Protection Adds and Frees
----

/- What an order id holds of a weight at the start. -/
def heldBy
    (weight : Resting → Int)
    (start : List Resting)
    (id : Int) : Int :=
  total weight (named [id] start)

/- What a transaction adds, if it adds. -/
def gain
    (weight : Resting → Int)
    (start : List Resting)
    (tx : MmTx) : Int :=
  max 0 (change weight start tx)

theorem startBook_ids_nodup
    (hIds : DistinctIds inputs) :
    ((startBook inputs).map (fun o => o.id)).Nodup := by
  have hSub :
      ((startBook inputs).map (fun o => o.id)).Sublist
        ((vaultOrders inputs).map
          (fun entry => some entry.2.id)) := by
    unfold startBook vaultOrders
    rw [List.map_flatMap, List.map_flatMap]
    apply List.Sublist.flatMap_right
    intro input _
    rw [List.map_map, List.map_map]
    exact List.filter_sublist.map _
  have hSome := List.Nodup.map (Option.some_injective Int) hIds
  rw [List.map_map] at hSome
  exact hSub.nodup hSome

theorem filter_id_of_mem
    {book : List Resting}
    (hIds : (book.map (fun o => o.id)).Nodup)
    {o : Resting}
    (ho : o ∈ book) :
    book.filter (fun other => other.id = o.id) = [o] := by
  induction book with
  | nil => cases ho
  | cons first rest ih =>
      rw [List.map_cons, List.nodup_cons] at hIds
      rw [List.filter_cons]
      rcases List.mem_cons.mp ho with rfl | hRest
      · rw [if_pos (by simp)]
        congr 1
        rw [List.filter_eq_nil_iff]
        intro other hOther hSame
        rw [decide_eq_true_eq] at hSame
        exact hIds.1 (List.mem_map.mpr ⟨other, hOther, hSame⟩)
      · have hOther : ¬ first.id = o.id := by
          intro hSame
          exact hIds.1 (List.mem_map.mpr ⟨o, hRest, hSame.symm⟩)
        rw [if_neg (by simpa using hOther)]
        exact ih hIds.2 hRest

/- A live order is all that its id names. -/
theorem named_live
    (hIds : DistinctIds inputs)
    (hInput : input ∈ inputs)
    {o : LiveOrder}
    (hLive : o ∈ input.live) :
    named [o.id] (startBook inputs) =
      [restingOf input.longId o] := by
  have hStart : restingOf input.longId o ∈ startBook inputs :=
    List.mem_flatMap.mpr
      ⟨input, hInput, List.mem_map.mpr ⟨o, hLive, rfl⟩⟩
  have hOnly := filter_id_of_mem (startBook_ids_nodup hIds) hStart
  unfold named
  rw [← hOnly]
  apply List.filter_congr
  intro other _
  rw [decide_eq_decide]
  simp [restingOf]

theorem heldBy_nonneg
    (hWeight : CoveredWeight inputs weight)
    (id : Int) :
    0 ≤ heldBy weight (startBook inputs) id := by
  apply total_nonneg
  intro o ho
  exact hWeight.nonneg o (List.mem_of_mem_filter ho)

theorem sum_heldBy_nonneg
    (hWeight : CoveredWeight inputs weight)
    (ids : List Int) :
    0 ≤ (ids.map (heldBy weight (startBook inputs))).sum := by
  apply List.sum_nonneg
  intro x hx
  rcases List.mem_map.mp hx with ⟨id, _, rfl⟩
  exact heldBy_nonneg hWeight id

/- Distinct ids hold what each of them holds. -/
theorem total_named
    (start : List Resting)
    {ids : List Int}
    (hIds : ids.Nodup) :
    total weight (named ids start) =
      (ids.map (heldBy weight start)).sum := by
  induction ids with
  | nil =>
      unfold named
      rw [List.filter_eq_nil_iff.mpr (by simp)]
      rfl
  | cons id ids ih =>
      rw [List.nodup_cons] at hIds
      rw [List.map_cons, List.sum_cons, ← ih hIds.2]
      have hFirst :
          (named (id :: ids) start).filter
              (fun o => decide (o.id = some id)) =
            named [id] start := by
        unfold named
        rw [List.filter_filter]
        apply List.filter_congr
        intro o _
        by_cases hSame : o.id = some id <;> simp [hSame]
      have hRest :
          (named (id :: ids) start).filter
              (fun o => !decide (o.id = some id)) =
            named ids start := by
        unfold named
        rw [List.filter_filter]
        apply List.filter_congr
        intro o _
        by_cases hSame : o.id = some id
        · simp [hSame, hIds.1]
        · simp [hSame]
      have hSplit :=
        total_filter_not weight
          (fun o => decide (o.id = some id))
          (named (id :: ids) start)
      rw [hFirst, hRest] at hSplit
      unfold heldBy
      omega

def protectiveIds
    (cancels : List PendingCancel) : List Int :=
  (cancels.filter (fun c => c.protective)).map
    (fun c => c.id)

/- What the protective quotes of a slot add. -/
def SlotPlan.protectiveGain
    (weight : Resting → Int)
    (start : List Resting)
    (plan : SlotPlan) : Int :=
  ((plan.replaces.filter (fun a => a.protective)).map
      (fun a => gain weight start (.replace a))).sum +
    ((plan.places.filter (fun a => a.protective)).map
      (fun a => gain weight start (.place a))).sum

theorem heldBy_live
    (hIds : DistinctIds inputs)
    (hInput : input ∈ inputs)
    {o : LiveOrder}
    (hLive : o ∈ input.live) :
    heldBy weight (startBook inputs) o.id =
      weight (restingOf input.longId o) := by
  unfold heldBy total
  rw [named_live hIds hInput hLive]
  simp

theorem change_replace_keep
    {start : List Resting}
    {keep : LiveOrder}
    (hKind : keep.kind = slotKind slot)
    (hNamed :
      named [keep.id] start = [restingOf input.longId keep])
    {a : ReplaceAction}
    (hId : a.orderId = keep.id)
    {target : SlotTarget}
    (hTarget : a.price = target.price ∧ a.units = target.units) :
    change weight start (.replace a) =
      weight (targetResting input slot target) -
        heldBy weight start keep.id := by
  have hNew :
      (restingOf input.longId keep).replacedBy a =
        targetResting input slot target := by
    unfold restingOf Resting.replacedBy targetResting
    rw [hKind, hTarget.1, hTarget.2]
  simp only [change, heldBy]
  rw [hId, hNamed, ← hNew]
  simp [total]

/- The kept order, with what the slot's extras free. -/
theorem planKept_gain
    {start : List Resting}
    {askFloors : AskFloors}
    {keep : LiveOrder}
    {target : SlotTarget}
    {validUntil extras : Int}
    (hKind : keep.kind = slotKind slot)
    (hNamed :
      named [keep.id] start = [restingOf input.longId keep])
    (hHeld : 0 ≤ heldBy weight start keep.id)
    (hExtras : 0 ≤ extras)
    (hCover :
      replacesToProtect input askFloors slot keep target
          validUntil = true →
        weight (targetResting input slot target) ≤
          heldBy weight start keep.id + extras) :
    (planKept input askFloors slot keep target
        validUntil).protectiveGain weight start ≤
      extras +
        ((protectiveIds
          (planKept input askFloors slot keep target
            validUntil).cancels).map
              (heldBy weight start)).sum := by
  unfold replacesToProtect at hCover
  unfold planKept SlotPlan.protectiveGain protectiveIds
  simp only
  split
  · simpa [placeAction] using hExtras
  · next hNow =>
      rw [decide_eq_false hNow] at hCover
      generalize
        judgeReplace
          { order := keep
            target := target
            slot := slot
            askFloors := askFloors
            bidCap := input.bidCap
            safeFloor :=
              input.safeFloor.map (fun f => f slot)
            params := input.params } = judged at hCover ⊢
      cases hProtective : judged.protective with
      | false =>
          split
          · simpa [placeAction] using hExtras
          · split <;> simpa using hExtras
      | true =>
          have hLe := hCover (by simp [hProtective])
          split
          · -- Placed fresh: the cancel frees the kept order.
            have hPlace :
                weight
                    (placeAction input slot target validUntil
                      ("placed fresh, not replaced: " ++
                        judged.reason) true).resting ≤
                  heldBy weight start keep.id + extras :=
              hLe
            simp [placeAction, gain, change] at hPlace ⊢
            omega
          · split
            · have hChange :=
                @change_replace_keep weight slot input start
                  keep hKind hNamed
                  { longId := input.longId
                    slot := slot
                    orderId := keep.id
                    price := target.price
                    units := target.units
                    fromPrice := keep.price
                    fromUnits := keep.remaining
                    reason := judged.reason
                    protective := true
                    orderValidUntil := some keep.validUntil }
                  rfl target ⟨rfl, rfl⟩
              simp [gain]
              omega
            · simpa using hExtras

/- A slot's total is what the book holds under its ids. -/
theorem slotTotal_eq
    (hIds : DistinctIds inputs)
    (hInput : input ∈ inputs) :
    slotTotal weight input slot =
      (((newestFirst input slot).map (fun o => o.id)).map
        (heldBy weight (startBook inputs))).sum := by
  unfold slotTotal total
  rw [List.map_map, List.map_map]
  congr 1
  apply List.map_congr_left
  intro o ho
  exact (heldBy_live hIds hInput (mem_newestFirst ho).1).symm

/-
  What a slot is replaced or placed by for protection adds no
  more than the slot's protective cancels free.
-/
theorem planSlot_gain
    (hIds : DistinctIds inputs)
    (hWeight : CoveredWeight inputs weight)
    (hInput : input ∈ inputs)
    {targets : Slot → Option SlotTarget}
    {askFloors : AskFloors}
    (hTargets : input.targets = some targets)
    (hFloors : input.askFloors = some askFloors)
    (hCovers :
      ∀ target ∈ input.protectiveTarget slot,
        input.Covers slot target) :
    (planSlot input targets askFloors slot).protectiveGain
        weight (startBook inputs) ≤
      ((protectiveIds
        (planSlot input targets askFloors slot).cancels).map
          (heldBy weight (startBook inputs))).sum := by
  have hFree := @sum_heldBy_nonneg inputs weight hWeight
  cases hOrders : newestFirst input slot with
  | nil =>
      unfold planSlot
      rw [hOrders]
      simp only
      split <;>
        simp [SlotPlan.protectiveGain, protectiveIds,
          placeAction]
  | cons keep extra =>
      cases hQuote : quotable input targets slot with
      | none =>
          unfold planSlot
          rw [hOrders, hQuote]
          exact hFree _
      | some quote =>
          rcases quote with ⟨target, validUntil⟩
          have hPlan :
              planSlot input targets askFloors slot =
                { planKept input askFloors slot keep target
                    validUntil with
                  cancels :=
                    extra.map (fun o =>
                      { id := o.id
                        reason :=
                          let name := slotText slot
                          s!"extra {name} {o.id}"
                        protective := true }) ++
                      (planKept input askFloors slot keep
                        target validUntil).cancels } := by
            unfold planSlot
            rw [hOrders, hQuote]
          have hExtras :
              protectiveIds
                  (planSlot input targets askFloors
                    slot).cancels =
                extra.map (fun o => o.id) ++
                  protectiveIds
                    (planKept input askFloors slot keep
                      target validUntil).cancels := by
            rw [hPlan]
            unfold protectiveIds
            rw [List.filter_append, List.map_append,
              List.filter_eq_self.mpr (by
                intro c hc
                rcases List.mem_map.mp hc with ⟨o, _, rfl⟩
                rfl),
              List.map_map]
            rfl
          have hGain :
              (planSlot input targets askFloors
                    slot).protectiveGain weight
                  (startBook inputs) =
                (planKept input askFloors slot keep target
                    validUntil).protectiveGain weight
                  (startBook inputs) := by
            rw [hPlan]
            rfl
          rw [hExtras, hGain, List.map_append,
            List.sum_append]
          have hIn : keep ∈ newestFirst input slot := by
            rw [hOrders]
            exact List.mem_cons_self
          have hKeep := mem_newestFirst hIn
          apply
            planKept_gain hKeep.2
              (named_live hIds hInput hKeep.1)
              (heldBy_nonneg hWeight _) (hFree _)
          intro hProtects
          have hSlot := @slotTotal_eq inputs weight slot input
            hIds hInput
          rw [hOrders, List.map_cons, List.map_cons,
            List.sum_cons] at hSlot
          rw [← hSlot]
          apply hWeight.covered
          apply hCovers
          unfold SeriesActionInput.protectiveTarget
          rw [hTargets, hFloors, hOrders]
          simp only
          rw [hQuote]
          exact if_pos hProtects

def protectiveQuotes
    (actions : List MmAction) : List MmTx :=
  (actions.filterMap quoteTx?).filter isProtectiveTx

def protectiveCancelIds
    (actions : List MmAction) : List Int :=
  ((actions.filterMap cancelOf?).filter
    (fun c => c.protective = true)).flatMap
      (fun c => c.orderIds)

theorem protectiveQuotes_append
    (actions actions' : List MmAction) :
    protectiveQuotes (actions ++ actions') =
      protectiveQuotes actions ++
        protectiveQuotes actions' := by
  unfold protectiveQuotes
  rw [List.filterMap_append, List.filter_append]

theorem protectiveCancelIds_append
    (actions actions' : List MmAction) :
    protectiveCancelIds (actions ++ actions') =
      protectiveCancelIds actions ++
        protectiveCancelIds actions' := by
  unfold protectiveCancelIds
  rw [List.filterMap_append, List.filter_append,
    List.flatMap_append]

theorem protectiveQuotes_cancelAction
    (input : SeriesActionInput)
    (cancels : List PendingCancel)
    (protective : Bool) :
    protectiveQuotes
      (cancelAction input cancels protective) = [] := by
  unfold cancelAction
  simp only
  split <;> rfl

theorem protectiveQuotes_replaces
    (replaces : List ReplaceAction) :
    protectiveQuotes (replaces.map .replace) =
      (replaces.filter (fun a => a.protective)).map
        .replace := by
  unfold protectiveQuotes
  rw [List.filterMap_map]
  change ((replaces.filterMap
    (fun a => some (MmTx.replace a))).filter _) = _
  rw [List.filterMap_eq_map', List.filter_map]
  rfl

theorem protectiveQuotes_places
    (places : List PlaceAction) :
    protectiveQuotes (places.map .place) =
      (places.filter (fun a => a.protective)).map
        .place := by
  unfold protectiveQuotes
  rw [List.filterMap_map]
  change ((places.filterMap
    (fun a => some (MmTx.place a))).filter _) = _
  rw [List.filterMap_eq_map', List.filter_map]
  rfl

theorem protectiveCancelIds_cancelAction
    (input : SeriesActionInput)
    (cancels : List PendingCancel)
    (protective : Bool) :
    protectiveCancelIds
        (cancelAction input cancels protective) =
      if protective then protectiveIds cancels else [] := by
  unfold cancelAction
  simp only
  cases protective with
  | false => split <;> rfl
  | true =>
      split
      · next hNone =>
          have hIds : protectiveIds cancels = [] := by
            unfold protectiveIds
            simpa using hNone
          rw [if_pos rfl, hIds]
          rfl
      · simp [protectiveCancelIds, cancelOf?, protectiveIds]

theorem protectiveCancelIds_quotes
    {actions : List MmAction}
    (h : ∀ action ∈ actions, cancelOf? action = none) :
    protectiveCancelIds actions = [] := by
  unfold protectiveCancelIds
  rw [List.filterMap_eq_nil_iff.mpr h]
  rfl

/- A series' protective quotes, against its own cancels. -/
theorem planSeriesActions_gain
    (hIds : DistinctIds inputs)
    (hWeight : CoveredWeight inputs weight)
    (hInput : input ∈ inputs)
    (hCovers :
      ∀ slot ∈ [Slot.bid, .write, .resale],
        ∀ target ∈ input.protectiveTarget slot,
          input.Covers slot target) :
    ((protectiveQuotes (planSeriesActions input)).map
        (gain weight (startBook inputs))).sum ≤
      ((protectiveCancelIds (planSeriesActions input)).map
        (heldBy weight (startBook inputs))).sum := by
  have hPulled :
      ∀ halted,
        ((protectiveQuotes (pullSeries input halted)).map
            (gain weight (startBook inputs))).sum ≤
          ((protectiveCancelIds
            (pullSeries input halted)).map
              (heldBy weight (startBook inputs))).sum := by
    intro halted
    have hNone :
        protectiveQuotes (pullSeries input halted) = [] := by
      unfold pullSeries
      simp only
      split <;> rfl
    rw [hNone]
    exact sum_heldBy_nonneg hWeight _
  cases hTargets : input.targets with
  | none =>
      unfold planSeriesActions
      rw [hTargets]
      exact hPulled _
  | some targets =>
      cases hFloors : input.askFloors with
      | none =>
          unfold planSeriesActions
          rw [hTargets, hFloors]
          exact hPulled _
      | some askFloors =>
          have hSlot : ∀ slot ∈ [Slot.bid, .write, .resale], _ :=
            fun slot hIn =>
              planSlot_gain hIds hWeight hInput hTargets
                hFloors (hCovers slot hIn)
          have hBid := hSlot .bid (by simp)
          have hWrite := hSlot .write (by simp)
          have hResale := hSlot .resale (by simp)
          have hReclaim :
              (reclaimCancels input).filter
                (fun c => c.protective) = [] := by
            rw [List.filter_eq_nil_iff]
            intro c hc
            rcases List.mem_map.mp hc with ⟨o, _, rfl⟩
            exact Bool.false_ne_true
          rw [planSeriesActions_quoted hTargets hFloors]
          unfold SlotPlan.protectiveGain protectiveIds
            at hBid hWrite hResale
          simp only [protectiveQuotes_append,
            protectiveCancelIds_append,
            protectiveQuotes_cancelAction,
            protectiveQuotes_replaces,
            protectiveQuotes_places,
            protectiveCancelIds_cancelAction, if_true,
            Bool.false_eq_true, if_false, List.nil_append]
          rw [protectiveCancelIds_quotes (by
              intro action hAction
              rcases List.mem_map.mp hAction with ⟨a, _, rfl⟩
              rfl),
            protectiveCancelIds_quotes (by
              intro action hAction
              rcases List.mem_map.mp hAction with ⟨a, _, rfl⟩
              rfl)]
          simp only [protectiveIds, List.map_cons,
            List.map_nil, List.flatMap_cons, List.flatMap_nil,
            List.filter_append, hReclaim, List.map_append,
            List.sum_append, List.nil_append,
            List.append_nil, List.map_map,
            Function.comp_def]
          simp only [List.map_map, Function.comp_def]
            at hBid hWrite hResale
          omega

/- All protective quotes, against all protective cancels. -/
theorem protective_gain_le
    (hIds : DistinctIds inputs)
    (hWeight : CoveredWeight inputs weight)
    (hCovers :
      ∀ input ∈ inputs, ∀ slot ∈ [Slot.bid, .write, .resale],
        ∀ target ∈ input.protectiveTarget slot,
          input.Covers slot target) :
    ((protectiveQuotes (tickActions inputs)).map
        (gain weight (startBook inputs))).sum ≤
      ((protectiveCancelIds (tickActions inputs)).map
        (heldBy weight (startBook inputs))).sum := by
  have hParts :
      ∀ part, part ⊆ inputs →
        ((protectiveQuotes
            (part.map planSeriesActions).flatten).map
              (gain weight (startBook inputs))).sum ≤
          ((protectiveCancelIds
            (part.map planSeriesActions).flatten).map
              (heldBy weight (startBook inputs))).sum := by
    intro part
    induction part with
    | nil => exact fun _ => le_refl 0
    | cons input rest ih =>
        intro hSub
        have hIn := hSub List.mem_cons_self
        have hFirst :=
          planSeriesActions_gain hIds hWeight hIn
            (hCovers input hIn)
        have hRest :=
          ih (fun x hx => hSub (List.mem_cons_of_mem _ hx))
        rw [List.map_cons, List.flatten_cons,
          protectiveQuotes_append, protectiveCancelIds_append,
          List.map_append, List.map_append, List.sum_append,
          List.sum_append]
        omega
  have hPerm := orderActions_perm (inputs.map planSeriesActions)
  have hQuotes :=
    (((hPerm.filterMap quoteTx?).filter isProtectiveTx).map
      (gain weight (startBook inputs))).sum_eq
  have hCancels :=
    ((((hPerm.filterMap cancelOf?).filter
      (fun c => decide (c.protective = true))).flatMap_right
        (fun c => c.orderIds)).map
          (heldBy weight (startBook inputs))).sum_eq
  have hAll := hParts inputs (List.Subset.refl _)
  unfold protectiveQuotes protectiveCancelIds at hAll ⊢
  unfold tickActions
  rw [hQuotes, hCancels]
  exact hAll

end

----
-- Protection Alone
----

/- The protective part: its cancels, then its quotes. -/
theorem protectiveTxs_of_live
    (hQuoter : tick.isQuoter = true)
    (hLive : tick.killed = false) :
    tick.protectiveTxs =
      cancelTxs (tickActions tick.inputs) true ++
        protectiveQuotes (tickActions tick.inputs) := by
  have hCancels :
      ∀ protective,
        (cancelTxs (tickActions tick.inputs)
            protective).filter isProtectiveTx =
          if protective then
            cancelTxs (tickActions tick.inputs) true
          else [] := by
    intro protective
    cases protective with
    | true =>
        rw [if_pos rfl, List.filter_eq_self]
        intro tx hTx
        rcases List.mem_map.mp hTx with ⟨part, _, rfl⟩
        rfl
    | false =>
        rw [if_neg Bool.false_ne_true, List.filter_eq_nil_iff]
        intro tx hTx
        rcases List.mem_map.mp hTx with ⟨part, _, rfl⟩
        exact Bool.false_ne_true
  have hUpkeep :
      (tick.upkeep.map MmTx.upkeep).filter isProtectiveTx =
        [] := by
    rw [List.filter_eq_nil_iff]
    intro tx hTx
    rcases List.mem_map.mp hTx with ⟨type, _, rfl⟩
    exact Bool.false_ne_true
  unfold TickOfVault.protectiveTxs TickOfVault.txs planTxs
  rw [hQuoter, hLive]
  simp only [if_true, Bool.false_eq_true, if_false,
    List.filter_append, hCancels, hUpkeep, List.append_nil]
  rfl

/- All the protective cancels free what their ids hold. -/
theorem net_cancelTxs
    (hIds : DistinctIds tick.inputs)
    (weight : Resting → Int) :
    net weight tick.start
        (cancelTxs (tickActions tick.inputs) true) =
      -((protectiveCancelIds (tickActions tick.inputs)).map
        (heldBy weight tick.start)).sum := by
  have hNodup :
      ((cancelTxs (tickActions tick.inputs) true).flatMap
        (fun tx => tx.touched)).Nodup := by
    have hAll := planTxs_touched_nodup true true [] hIds
    unfold planTxs at hAll
    simp only [if_true, List.flatMap_append] at hAll
    exact
      (List.nodup_append.mp
        (List.nodup_append.mp
          (List.nodup_append.mp hAll).1).1).1
  have hEach :
      ∀ txs : List MmTx,
        (∀ tx ∈ txs, ∃ c, tx = .cancel c) →
          (txs.flatMap (fun tx => tx.touched)).Nodup →
            net weight tick.start txs =
              -((txs.flatMap (fun tx => tx.touched)).map
                (heldBy weight tick.start)).sum := by
    intro txs hTxs hDistinct
    induction txs with
    | nil => rfl
    | cons tx txs ih =>
        rw [List.forall_mem_cons] at hTxs
        rcases hTxs.1 with ⟨c, rfl⟩
        rw [List.flatMap_cons, List.nodup_append] at hDistinct
        have hRest := ih hTxs.2 hDistinct.2.1
        have hHere :=
          @total_named weight tick.start _ hDistinct.1
        rw [List.flatMap_cons, List.map_append,
          List.sum_append, ← hHere]
        unfold net at hRest ⊢
        rw [List.map_cons, List.sum_cons, hRest]
        simp only [change, MmTx.touched]
        omega
  have hTouched :=
    cancelTxs_touched (tickActions tick.inputs) true
  rw [hEach _ ?_ hNodup, hTouched]
  · rfl
  · intro tx hTx
    rcases List.mem_map.mp hTx with ⟨part, _, rfl⟩
    exact ⟨_, rfl⟩

variable {weight : Resting → Int}

theorem net_cancels_nonpos
    (hWeight : CoveredWeight tick.inputs weight)
    {txs : List MmTx}
    (hTxs : ∀ tx ∈ txs, ∃ c, tx = .cancel c) :
    net weight tick.start txs ≤ 0 := by
  have hEach : ∀ tx ∈ txs, change weight tick.start tx ≤ 0 := by
    intro tx hTx
    rcases hTxs tx hTx with ⟨c, rfl⟩
    have hNamed :
        0 ≤ total weight (named c.orderIds tick.start) := by
      apply total_nonneg
      intro o ho
      exact hWeight.nonneg o (List.mem_of_mem_filter ho)
    simp only [change]
    omega
  calc net weight tick.start txs
      ≤ (txs.map (fun _ => (0 : Int))).sum :=
        List.sum_le_sum hEach
    _ = 0 := by simp

/- Some of the quotes add at most what all of them gain. -/
theorem net_le_gain
    (weight : Resting → Int)
    (start : List Resting)
    {txs all : List MmTx}
    (h : txs.Sublist all) :
    net weight start txs ≤
      (all.map (gain weight start)).sum := by
  have hGains :
      net weight start txs ≤
        (txs.map (gain weight start)).sum := by
    apply List.sum_le_sum
    intro tx _
    exact le_max_right _ _
  refine hGains.trans ?_
  apply List.Sublist.sum_le_sum (h.map _)
  intro x hx
  rcases List.mem_map.mp hx with ⟨tx, _, rfl⟩
  exact le_max_left _ _

/-
  With every guarded slot covered, no cut of the protective
  part adds to a weight: the cancels come first, and all the
  quotes together gain no more than they free.
-/
theorem net_protective_cut_nonpos
    (hIds : DistinctIds tick.inputs)
    (hCovered : tick.GuardsCovered)
    (hWeight : CoveredWeight tick.inputs weight)
    {cut : List MmTx}
    (hCut : cut <+: tick.protectiveTxs) :
    net weight tick.start cut ≤ 0 := by
  by_cases hSends :
      tick.isQuoter = true ∧ tick.killed = false
  · have hAll := protectiveTxs_of_live hSends.1 hSends.2
    have hCancels :
        ∀ tx ∈ cancelTxs (tickActions tick.inputs) true,
          ∃ c, tx = .cancel c := by
      intro tx hTx
      rcases List.mem_map.mp hTx with ⟨part, _, rfl⟩
      exact ⟨_, rfl⟩
    rcases hCut with ⟨rest, hRest⟩
    rw [hAll] at hRest
    rcases List.append_eq_append_iff.mp hRest with
      ⟨left, hLeft, _⟩ | ⟨quotes, hCutEq, hQuotes⟩
    · apply net_cancels_nonpos hWeight
      intro tx hTx
      apply hCancels
      rw [hLeft]
      exact List.mem_append_left _ hTx
    · have hFreed := net_cancelTxs hIds weight
      have hGained := protective_gain_le hIds hWeight hCovered
      have hSome :
          quotes.Sublist
            (protectiveQuotes (tickActions tick.inputs)) := by
        rw [hQuotes]
        exact List.sublist_append_left _ _
      have hAdded := net_le_gain weight tick.start hSome
      have hSum :=
        net_append weight tick.start
          (cancelTxs (tickActions tick.inputs) true) quotes
      rw [← hCutEq] at hSum
      unfold TickOfVault.start at *
      omega
  · -- Without sends there are cancels only.
    apply net_cancels_nonpos hWeight
    intro tx hTx
    have hIn := List.mem_filter.mp (hCut.subset hTx)
    unfold TickOfVault.txs planTxs at hIn
    rcases hIn with ⟨hPlanned, hProtective⟩
    split at hPlanned
    · next hQuoter =>
        have hKilled : tick.killed = true := by
          simpa [hQuoter] using hSends
        rw [if_pos hKilled, List.append_nil] at hPlanned
        rcases List.mem_append.mp hPlanned with
          hCancel | hUpkeep
        · rcases List.mem_append.mp hCancel with h | h <;>
            rcases List.mem_map.mp h with ⟨part, _, rfl⟩ <;>
            exact ⟨_, rfl⟩
        · rcases List.mem_map.mp hUpkeep with ⟨type, _, rfl⟩
          cases hProtective
    · cases hPlanned

/- A cut of the protective part leaves each weight as low. -/
theorem total_protective_cut_le
    (hIds : DistinctIds tick.inputs)
    (hCovered : tick.GuardsCovered)
    (hWeight : CoveredWeight tick.inputs weight)
    {cut : List MmTx}
    (hCut : cut <+: tick.protectiveTxs) :
    total weight (executeTxs tick.start cut) ≤
      total weight tick.start := by
  have hNet :=
    net_protective_cut_nonpos hIds hCovered hWeight hCut
  rw [total_cut hIds weight (cut_sublist hCut)]
  omega

/-
  When no slot is replaced for protection by more than it has
  live, a vault that sends only the protective part of a plan
  stays, at every cut, inside the larger of its start and the
  plan's end: it is never above its start.
-/
theorem protective_cut_within
    (tick : TickOfVault)
    (holding : Int → SeriesHolding)
    (hIds : DistinctIds tick.inputs)
    (hStrikes : ∀ longId, 0 ≤ (holding longId).strike)
    (hPrices : PricesNonneg tick.inputs)
    (hCovered : tick.GuardsCovered)
    (cut : List MmTx)
    (hCut : cut <+: tick.protectiveTxs) :
    tick.Within holding cut := by
  have hLe :
      ∀ {weight : Resting → Int},
        CoveredWeight tick.inputs weight →
          total weight (executeTxs tick.start cut) ≤
            total weight tick.start :=
    fun hWeight =>
      total_protective_cut_le hIds hCovered hWeight hCut
  have hNotional :
      tick.totalNotional holding (executeTxs tick.start cut) ≤
        tick.totalNotional holding tick.start := by
    apply List.sum_le_sum
    intro longId _
    exact
      seriesNotional_mono (hStrikes longId)
        (hLe (slotUnits_covered _ longId .bid))
        (hLe (slotUnits_covered _ longId .write))
        (hLe (slotUnits_covered _ longId .resale))
  exact
    { escrow := le_max_of_le_left (hLe (escrowed_covered hPrices))
      notional := le_max_of_le_left hNotional
      write := le_max_of_le_left (hLe (kindUnits_covered _ _))
      resale :=
        le_max_of_le_left (hLe (kindUnits_covered _ _)) }

/- A series with one live write ask and a new target for it. -/
def writeInput
    (longId : Int)
    (order : LiveOrder)
    (target : SlotTarget)
    (floor : Int) : SeriesActionInput :=
  { longId := longId
    now := 0
    orders := [order]
    targets := some (fun slot =>
      if slot = .write then some target else none)
    haltReason := none
    validUntil := fun _ => some 100000
    life := fun _ => none
    askFloors := some { write := floor, resale := floor }
    bidCap := 0
    refreshS := 300
    replaceMarginS := none
    params := { requoteBps := 100, resizeBps := 2500 }
    safeFloor := none }

def writeOrder
    (id price units : Int) : LiveOrder :=
  { id := id
    kind := .AskWrite
    price := price
    units := units
    filled := 0
    validUntil := 100000
    cancelled := false }

def bareHolding : SeriesHolding :=
  { longs := 0, resale := 0, shorts := 0, strike := 500 }

/-
  Series 1 rests below its floor, with more units than its
  target; series 2 is requoted to a larger size.
-/
def oversizeTick : TickOfVault :=
  { inputs :=
      [writeInput 1 (writeOrder 1 50 10) ⟨100, 4⟩ 100,
        writeInput 2 (writeOrder 2 100 2) ⟨150, 6⟩ 50]
    isQuoter := true
    killed := false
    upkeep := [] }

theorem oversizeTick_cuts_within :
    oversizeTick.protectiveTxs ≠ [] ∧
      oversizeTick.Within (fun _ => bareHolding)
        oversizeTick.protectiveTxs := by
  refine ⟨by decide, ?_⟩
  apply
    protective_cut_within oversizeTick (fun _ => bareHolding)
      (by decide) (fun _ => by decide)
  · constructor
    · decide
    · intro input hInput targets slot target hTargets hTarget
      simp only [oversizeTick, List.mem_cons,
        List.not_mem_nil, or_false] at hInput
      rcases hInput with rfl | rfl <;> cases hTargets <;>
        cases slot <;> cases hTarget <;> decide
  · decide
  · exact List.prefix_refl _

/-
  Series 1 rests 2 units below its floor and its target is
  10; series 2 rests 10 units and its target is 2, at another
  price.  The first replace is protective, the second is not.
-/
def floorBrokenTick : TickOfVault :=
  { inputs :=
      [writeInput 1 (writeOrder 1 50 2) ⟨100, 10⟩ 100,
        writeInput 2 (writeOrder 2 100 10) ⟨150, 2⟩ 100]
    isQuoter := true
    killed := false
    upkeep := [] }

/-
  Alone, the protective replace takes the write asks from 12
  units to 20; the whole plan ends at 12.
-/
theorem protective_cut_over_commits :
    ¬ (∀ (tick : TickOfVault) (holding : Int → SeriesHolding),
        DistinctIds tick.inputs →
          (∀ longId, 0 ≤ (holding longId).strike) →
            ∀ cut, cut <+: tick.protectiveTxs →
              tick.Within holding cut) := by
  intro h
  have hCut :=
    (h floorBrokenTick (fun _ => bareHolding) (by decide)
      (fun _ => by decide) floorBrokenTick.protectiveTxs
      (List.prefix_refl _)).write
  revert hCut
  decide

end Callhouse.Keeper.Mm
