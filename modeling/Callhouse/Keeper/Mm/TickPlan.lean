import Callhouse.Keeper.Mm.OrderActions

/-
  keeper/src/v2/mm/planner.ts, planTick: the transactions of
  a tick, and what they do to the vault's live orders when
  executed in any order.

  Main declarations:
    * `planTxs`, `isProtectiveTx`
    * `planTxs_touched_nodup`
    * `total_executeTxs`
-/

----
-- Transactions
----

namespace Callhouse.Keeper.Mm

structure CancelTx where
  orderIds : List Int
  longIds : List Int
  reason : String
  protective : Bool
deriving DecidableEq

/- `upkeep` is a sync, close, claimOwed, redeem or deposit. -/
inductive MmTx where
  | cancel (tx : CancelTx)
  | replace (a : ReplaceAction)
  | place (a : PlaceAction)
  | upkeep (type : String)
deriving DecidableEq

def isProtectiveTx : MmTx → Bool
  | .cancel tx => tx.protective
  | .replace a => a.protective
  | .place a => a.protective
  | .upkeep _ => false

structure CancelPart where
  id : Int
  longId : Int
  reason : String
deriving DecidableEq

/- Consecutive slices of at most `n`. -/
def slices
    {α : Type}
    (n : Nat)
    (xs : List α) : List (List α) :=
  (List.range ((xs.length + n - 1) / n)).map
    (fun i => (xs.drop (i * n)).take n)

def cancelParts
    (ordered : List MmAction)
    (protective : Bool) : List CancelPart :=
  ((ordered.filterMap cancelOf?).filter
    (fun c => c.protective = protective)).flatMap
    (fun c =>
      c.orderIds.map (fun id =>
        { id := id, longId := c.longId, reason := c.reason }))

def cancelTx
    (protective : Bool)
    (part : List CancelPart) : MmTx :=
  .cancel
    { orderIds := part.map (fun p => p.id)
      longIds := (part.map (fun p => p.longId)).eraseDups
      reason :=
        String.intercalate " | "
          (part.map (fun p => p.reason)).eraseDups
      protective := protective }

def cancelTxs
    (ordered : List MmAction)
    (protective : Bool) : List MmTx :=
  (slices cancelChunk (cancelParts ordered protective)).map
    (cancelTx protective)

def quoteTx? : MmAction → Option MmTx
  | .cancel _ => none
  | .replace a => some (.replace a)
  | .place a => some (.place a)

/-
  Protective cancels, routine cancels, upkeep, then the
  replaces and places; without the role nothing is planned.
-/
def planTxs
    (isQuoter killed : Bool)
    (upkeep : List String)
    (ordered : List MmAction) : List MmTx :=
  if isQuoter then
    cancelTxs ordered true ++ cancelTxs ordered false ++
      upkeep.map .upkeep ++
      if killed then [] else ordered.filterMap quoteTx?
  else []

/- One vault's tick, as its transactions are planned from it. -/
structure TickOfVault where
  inputs : List SeriesActionInput
  isQuoter : Bool
  killed : Bool
  upkeep : List String

def TickOfVault.txs
    (tick : TickOfVault) : List MmTx :=
  planTxs tick.isQuoter tick.killed tick.upkeep
    (tickActions tick.inputs)

def TickOfVault.start
    (tick : TickOfVault) : List Resting :=
  startBook tick.inputs

def executeTx
    (book : List Resting) : MmTx → List Resting
  | .cancel tx =>
      book.filter (fun o => o.id ∉ tx.orderIds.map some)
  | .replace a => execute book (.replace a)
  | .place a => execute book (.place a)
  | .upkeep _ => book

def executeTxs
    (book : List Resting)
    (txs : List MmTx) : List Resting :=
  txs.foldl executeTx book

/- The live orders a transaction names. -/
def MmTx.touched : MmTx → List Int
  | .cancel tx => tx.orderIds
  | .replace a => [a.orderId]
  | .place _ => []
  | .upkeep _ => []

----
-- No Order Is Named Twice
----

section

variable {α : Type}

theorem flatten_slices_take
    (n k : Nat)
    (xs : List α) :
    ((List.range k).map
        (fun i => (xs.drop (i * n)).take n)).flatten =
      xs.take (k * n) := by
  induction k with
  | zero => simp
  | succ k ih =>
      rw [List.range_succ, List.map_append,
        List.flatten_append, ih, Nat.succ_mul, List.take_add]
      simp

theorem slices_flatten
    {n : Nat}
    (hn : 0 < n)
    (xs : List α) :
    (slices n xs).flatten = xs := by
  unfold slices
  rw [flatten_slices_take]
  apply List.take_of_length_le
  have hDiv := Nat.lt_div_mul_add hn
    (a := xs.length + n - 1)
  omega

/- The ids that an action of the plan names. -/
def MmAction.touched : MmAction → List Int
  | .cancel a => a.orderIds
  | .replace a => [a.orderId]
  | .place _ => []

def SlotPlan.touched
    (plan : SlotPlan) : List Int :=
  plan.cancels.map (fun c => c.id) ++
    plan.replaces.map (fun a => a.orderId)

variable {input : SeriesActionInput}

theorem planKept_touched
    (askFloors : AskFloors)
    (slot : Slot)
    (keep : LiveOrder)
    (target : SlotTarget)
    (validUntil : Int) :
    (planKept input askFloors slot keep target
        validUntil).touched.Sublist [keep.id] := by
  unfold planKept SlotPlan.touched
  simp only
  split
  · simp
  · split
    · simp
    · split <;> simp

/- A slot names its own live orders, each at most once. -/
theorem planSlot_touched
    (targets : Slot → Option SlotTarget)
    (askFloors : AskFloors)
    (slot : Slot) :
    (planSlot input targets askFloors slot).touched.Subperm
      ((newestFirst input slot).map (fun o => o.id)) := by
  unfold planSlot
  simp only
  cases hOrders : newestFirst input slot with
  | nil =>
      simp only
      split <;> simp [SlotPlan.touched]
  | cons keep extra =>
      simp only [List.map_cons]
      have hPerm :
          (extra.map (fun o => o.id) ++ [keep.id]).Perm
            (keep.id :: extra.map (fun o => o.id)) :=
        List.perm_append_singleton _ _
      split
      · unfold SlotPlan.touched
        simp only [List.map_append, List.map_map,
          List.map_cons, List.map_nil, List.append_nil]
        exact hPerm.subperm
      · next target validUntil hQuote =>
          have hKept :=
            @planKept_touched input askFloors slot keep target
              validUntil
          unfold SlotPlan.touched at hKept ⊢
          simp only [List.map_append, List.map_map,
            List.append_assoc]
          refine List.Subperm.trans ?_ hPerm.subperm
          exact (hKept.append_left _).subperm

def planTouched
    (actions : List MmAction) : List Int :=
  actions.flatMap (fun a => a.touched)

theorem slots_subperm_live
    (input : SeriesActionInput) :
    ([Slot.bid, Slot.write, Slot.resale].flatMap
      (newestFirst input)).Subperm input.live := by
  have hSorted :
      ∀ slot,
        (newestFirst input slot).Perm
          (input.live.filter
            (fun o => o.kind = slotKind slot)) :=
    fun slot => List.perm_insertionSort _ _
  have hSplit :=
    List.filter_append_perm
      (fun o : LiveOrder => decide (o.kind = slotKind .bid))
      input.live
  have hAsks :=
    List.filter_append_perm
      (fun o : LiveOrder => decide (o.kind = slotKind .write))
      (input.live.filter
        (fun o => !decide (o.kind = slotKind .bid)))
  have hWrites :
      (input.live.filter
          (fun o => !decide (o.kind = slotKind .bid))).filter
        (fun o => decide (o.kind = slotKind .write)) =
        input.live.filter
          (fun o => decide (o.kind = slotKind .write)) := by
    rw [List.filter_filter]
    apply List.filter_congr
    intro o _
    cases o.kind <;> rfl
  have hResales :
      (input.live.filter
          (fun o => !decide (o.kind = slotKind .bid))).filter
        (fun o => !decide (o.kind = slotKind .write)) =
        input.live.filter
          (fun o => decide (o.kind = slotKind .resale)) := by
    rw [List.filter_filter]
    apply List.filter_congr
    intro o _
    cases o.kind <;> rfl
  rw [hWrites, hResales] at hAsks
  simp only [List.flatMap_cons, List.flatMap_nil,
    List.append_nil]
  exact
    (((hSorted .bid).append
      ((hSorted .write).append (hSorted .resale))).trans
      ((hAsks.append_left _).trans hSplit)).subperm

theorem subperm_flatMap
    {β : Type}
    {xs : List α}
    {f g : α → List β}
    (h : ∀ x ∈ xs, (f x).Subperm (g x)) :
    (xs.flatMap f).Subperm (xs.flatMap g) := by
  induction xs with
  | nil => exact List.Subperm.refl _
  | cons x xs ih =>
      simp only [List.flatMap_cons]
      exact
        (h x List.mem_cons_self).append
          (ih (fun y hy => h y (List.mem_cons_of_mem _ hy)))

theorem subperm_map
    {β : Type}
    (f : α → β)
    {xs ys : List α}
    (h : xs.Subperm ys) :
    (xs.map f).Subperm (ys.map f) := by
  rcases h with ⟨zs, hPerm, hSub⟩
  exact ⟨zs.map f, hPerm.map f, hSub.map f⟩

/- Live orders and orders to reclaim are different ones. -/
theorem reclaim_live_subperm
    (input : SeriesActionInput) :
    (input.reclaim ++ input.live).Subperm input.orders := by
  have hSplit :=
    List.filter_append_perm
      (fun o : LiveOrder => isReclaimable o input.now)
      input.orders
  have hLive :
      input.live.Sublist
        (input.orders.filter
          (fun o => !isReclaimable o input.now)) := by
    unfold SeriesActionInput.live
    apply List.monotone_filter_right
    intro o hLive
    unfold isLiveOrder at hLive
    unfold isReclaimable
    simp only [Bool.and_eq_true, decide_eq_true_eq] at hLive
    simp only [Bool.not_eq_true', Bool.and_eq_false_iff,
      decide_eq_false_iff_not]
    left
    right
    omega
  exact ((hLive.append_left _).subperm).trans hSplit.subperm

theorem planTouched_append
    (actions actions' : List MmAction) :
    planTouched (actions ++ actions') =
      planTouched actions ++ planTouched actions' :=
  List.flatMap_append

theorem cancelAction_touched
    (cancels : List PendingCancel)
    (protective : Bool) :
    planTouched (cancelAction input cancels protective) =
      (cancels.filter
        (fun c => c.protective = protective)).map
        (fun c => c.id) := by
  unfold cancelAction
  simp only
  split
  · next hNone =>
      rw [hNone]
      rfl
  · simp [planTouched, MmAction.touched]

theorem replaces_touched
    (replaces : List ReplaceAction) :
    planTouched (replaces.map .replace) =
      replaces.map (fun a => a.orderId) := by
  unfold planTouched
  rw [List.flatMap_map, List.map_eq_flatMap]
  rfl

theorem places_touched
    (places : List PlaceAction) :
    planTouched (places.map .place) = [] := by
  unfold planTouched
  rw [List.flatMap_map]
  simp [MmAction.touched]

theorem reclaimCancels_ids
    (input : SeriesActionInput) :
    (reclaimCancels input).map (fun c => c.id) =
      input.reclaim.map (fun o => o.id) := by
  simp [reclaimCancels]

/- A pulled series names all it reclaims and all that is live. -/
theorem pullSeries_touched
    (input : SeriesActionInput)
    (halted : String) :
    planTouched (pullSeries input halted) =
      input.reclaim.map (fun o => o.id) ++
        input.live.map (fun o => o.id) := by
  unfold pullSeries
  simp only [reclaimCancels_ids]
  split
  · next hNone =>
      rw [hNone]
      rfl
  · simp [planTouched, MmAction.touched]

variable {targets : Slot → Option SlotTarget}
variable {askFloors : AskFloors}

theorem planSeriesActions_quoted
    (hTargets : input.targets = some targets)
    (hFloors : input.askFloors = some askFloors) :
    planSeriesActions input =
      let slots :=
        [Slot.bid, Slot.write, Slot.resale].map
          (planSlot input targets askFloors)
      let cancels :=
        reclaimCancels input ++
          slots.flatMap (fun plan => plan.cancels)
      cancelAction input cancels true ++
        cancelAction input cancels false ++
        (slots.flatMap (fun plan => plan.replaces)).map
          MmAction.replace ++
        (slots.flatMap (fun plan => plan.places)).map
          MmAction.place := by
  unfold planSeriesActions
  rw [hTargets, hFloors]

/- A quoted series names what it reclaims and what its slots do. -/
theorem quoted_touched
    (hTargets : input.targets = some targets)
    (hFloors : input.askFloors = some askFloors) :
    (planTouched (planSeriesActions input)).Perm
      (input.reclaim.map (fun o => o.id) ++
        [Slot.bid, Slot.write, Slot.resale].flatMap
          (fun slot =>
            (planSlot input targets askFloors
              slot).touched)) := by
  let slots :=
    [Slot.bid, Slot.write, Slot.resale].map
      (planSlot input targets askFloors)
  let cancels :=
    reclaimCancels input ++
      slots.flatMap (fun plan => plan.cancels)
  have hCancels :
      (planTouched (cancelAction input cancels true) ++
        planTouched (cancelAction input cancels false)).Perm
        (cancels.map (fun c => c.id)) := by
    rw [cancelAction_touched, cancelAction_touched,
      ← List.map_append]
    apply List.Perm.map
    have hBoth :=
      List.filter_append_perm
        (fun c : PendingCancel => c.protective) cancels
    simpa using hBoth
  have hParts :
      ((slots.flatMap (fun plan => plan.cancels)).map
          (fun c => c.id) ++
        (slots.flatMap (fun plan => plan.replaces)).map
          (fun a => a.orderId)).Perm
        (slots.flatMap (fun plan => plan.touched)) := by
    rw [List.map_flatMap, List.map_flatMap]
    exact List.flatMap_append_perm _ _ _
  have hSlots :
      slots.flatMap (fun plan => plan.touched) =
        [Slot.bid, Slot.write, Slot.resale].flatMap
          (fun slot =>
            (planSlot input targets askFloors
              slot).touched) :=
    List.flatMap_map _ _ _
  rw [planSeriesActions_quoted hTargets hFloors, ← hSlots]
  simp only
  rw [planTouched_append, planTouched_append,
    planTouched_append, replaces_touched, places_touched,
    List.append_nil]
  refine (hCancels.append_right _).trans ?_
  rw [List.map_append, reclaimCancels_ids, List.append_assoc]
  exact hParts.append_left _

/- A series names orders to reclaim and live ones, once each. -/
theorem planSeriesActions_names
    (input : SeriesActionInput) :
    (planTouched (planSeriesActions input)).Subperm
      (input.reclaim.map (fun o => o.id) ++
        input.live.map (fun o => o.id)) := by
  cases hTargets : input.targets with
  | none =>
      unfold planSeriesActions
      rw [hTargets]
      simp only [pullSeries_touched]
      exact List.Subperm.refl _
  | some targets =>
      cases hFloors : input.askFloors with
      | none =>
          unfold planSeriesActions
          rw [hTargets, hFloors]
          simp only [pullSeries_touched]
          exact List.Subperm.refl _
      | some askFloors =>
          have hSlots :
              ([Slot.bid, Slot.write, Slot.resale].flatMap
                (fun slot =>
                  (planSlot input targets askFloors
                    slot).touched)).Subperm
                (input.live.map (fun o => o.id)) := by
            refine
              (subperm_flatMap (fun slot _ =>
                planSlot_touched targets askFloors
                  slot)).trans ?_
            rw [← List.map_flatMap]
            exact subperm_map _ (slots_subperm_live input)
          exact
            (quoted_touched hTargets hFloors).subperm.trans
              ((List.Subperm.refl _).append hSlots)

/- A series names its own orders, each at most once. -/
theorem planSeriesActions_touched
    (input : SeriesActionInput) :
    (planTouched (planSeriesActions input)).Subperm
      (input.orders.map (fun o => o.id)) := by
  have hOrders :=
    subperm_map (fun o : LiveOrder => o.id)
      (reclaim_live_subperm input)
  rw [List.map_append] at hOrders
  exact (planSeriesActions_names input).trans hOrders

/- Cancels, replaces and places are all there is. -/
theorem split_perm
    (actions : List MmAction) :
    ((actions.filterMap cancelOf?).map MmAction.cancel ++
        ((actions.filterMap replaceOf?).map
            MmAction.replace ++
          (actions.filterMap placeOf?).map
            MmAction.place)).Perm
      actions := by
  induction actions with
  | nil => exact List.Perm.refl _
  | cons action actions ih =>
      cases action with
      | cancel a => exact ih.cons _
      | replace a =>
          refine List.Perm.trans ?_ (ih.cons _)
          exact List.perm_middle
      | place a =>
          refine List.Perm.trans ?_ (ih.cons _)
          refine List.Perm.trans ?_ List.perm_middle
          exact List.perm_middle.append_left _

theorem shrinkFirst_perm
    (xs : List ReplaceAction) :
    (shrinkFirst xs).Perm xs :=
  List.filter_append_perm
    (fun a : ReplaceAction => a.shrinks) xs

/- Early, escrow-only and late replaces. -/
theorem replaces_perm
    (replaces : List ReplaceAction) :
    (replaces.filter (fun a => a.early) ++
        (replaces.filter (fun a => a.escrowOnly) ++
          replaces.filter
            (fun a => !a.early && !a.escrowOnly))).Perm
      replaces := by
  have hEarly :=
    List.filter_append_perm
      (fun a : ReplaceAction => a.early) replaces
  have hLate :=
    List.filter_append_perm
      (fun a : ReplaceAction => a.escrowOnly)
      (replaces.filter (fun a => !a.early))
  have hEscrow :
      (replaces.filter (fun a => !a.early)).filter
          (fun a => a.escrowOnly) =
        replaces.filter (fun a => a.escrowOnly) := by
    rw [List.filter_filter]
    apply List.filter_congr
    intro a _
    unfold ReplaceAction.escrowOnly
    cases a.early <;> simp
  have hRest :
      (replaces.filter (fun a => !a.early)).filter
          (fun a => !a.escrowOnly) =
        replaces.filter
          (fun a => !a.early && !a.escrowOnly) := by
    rw [List.filter_filter]
    apply List.filter_congr
    intro a _
    exact Bool.and_comm _ _
  rw [hEscrow, hRest] at hLate
  exact (hLate.append_left _).trans hEarly

theorem orderActions_perm
    (perSeries : List (List MmAction)) :
    (orderActions perSeries).Perm perSeries.flatten := by
  let flat := perSeries.flatten
  let cancels := (flat.filterMap cancelOf?).map MmAction.cancel
  let replaces := flat.filterMap replaceOf?
  let places := flat.filterMap placeOf?
  let early := replaces.filter (fun a => a.early)
  let late :=
    replaces.filter (fun a => !a.early && !a.escrowOnly)
  let escrow := replaces.filter (fun a => a.escrowOnly)
  let asks := places.filter (fun a => !a.isBid)
  let bids := places.filter (fun a => a.isBid)
  have hPlaces : (asks ++ bids).Perm places := by
    have hBoth :=
      List.filter_append_perm
        (fun a : PlaceAction => a.isBid) places
    exact List.perm_append_comm.trans hBoth
  have hReplaces :
      (shrinkFirst early ++
        (escrow ++ shrinkFirst late)).Perm replaces :=
    ((shrinkFirst_perm early).append
      ((shrinkFirst_perm late).append_left _)).trans
      (replaces_perm replaces)
  have hMixed :
      ((shrinkFirst early).map MmAction.replace ++
        (asks.map MmAction.place ++
          (escrow.map MmAction.replace ++
            (bids.map MmAction.place ++
              (shrinkFirst late).map
                MmAction.replace)))).Perm
        (replaces.map MmAction.replace ++
          places.map MmAction.place) := by
    refine
      List.Perm.trans ?_
        ((hReplaces.map MmAction.replace).append
          (hPlaces.map MmAction.place))
    simp only [List.map_append]
    -- Both sides hold the same five groups.
    apply Multiset.coe_eq_coe.mp
    simp only [← Multiset.coe_add]
    abel
  have hAll := split_perm flat
  refine List.Perm.trans ?_ hAll
  unfold orderActions
  simp only [List.append_assoc]
  exact hMixed.append_left _

theorem touched_of_parts
    (part : List CancelPart)
    (protective : Bool) :
    (cancelTx protective part).touched =
      part.map (fun p => p.id) :=
  rfl

theorem cancelTxs_touched
    (ordered : List MmAction)
    (protective : Bool) :
    (cancelTxs ordered protective).flatMap
        (fun tx => tx.touched) =
      ((ordered.filterMap cancelOf?).filter
        (fun c => c.protective = protective)).flatMap
        (fun c => c.orderIds) := by
  unfold cancelTxs
  rw [List.flatMap_map]
  simp only [touched_of_parts]
  have hParts :=
    slices_flatten (show 0 < cancelChunk by decide)
      (cancelParts ordered protective)
  rw [List.flatMap_def, ← List.map_flatten, hParts]
  unfold cancelParts
  rw [List.map_flatMap]
  simp only [List.map_map]
  have hId :
      ∀ c : CancelAction,
        c.orderIds.map
            ((fun p : CancelPart => p.id) ∘ fun id =>
              { id := id
                longId := c.longId
                reason := c.reason }) =
          c.orderIds :=
    fun c => List.map_id _
  simp only [hId]

theorem quotes_touched
    (ordered : List MmAction) :
    (planTouched ordered).Perm
      ((ordered.filterMap cancelOf?).flatMap
          (fun c => c.orderIds) ++
        (ordered.filterMap quoteTx?).flatMap
          (fun tx => tx.touched)) := by
  induction ordered with
  | nil => exact List.Perm.refl _
  | cons action ordered ih =>
      cases action with
      | cancel a =>
          simp only [planTouched, List.flatMap_cons,
            List.filterMap_cons, cancelOf?, quoteTx?,
            MmAction.touched, List.append_assoc]
          exact ih.append_left _
      | replace a =>
          simp only [planTouched, List.flatMap_cons,
            List.filterMap_cons, cancelOf?, quoteTx?,
            MmAction.touched, MmTx.touched]
          exact (ih.cons _).trans List.perm_middle.symm
      | place a => exact ih

variable {inputs : List SeriesActionInput}

theorem tickActions_touched
    (inputs : List SeriesActionInput) :
    (planTouched (tickActions inputs)).Subperm
      ((vaultOrders inputs).map (fun entry => entry.2.id)) := by
  have hPerm :
      (planTouched (tickActions inputs)).Perm
        (planTouched (inputs.map planSeriesActions).flatten) :=
    (orderActions_perm _).flatMap_right _
  refine hPerm.subperm.trans ?_
  unfold planTouched vaultOrders
  rw [← List.flatMap_def, List.flatMap_assoc,
    List.map_flatMap]
  apply subperm_flatMap
  intro input _
  have hSeries := planSeriesActions_touched input
  rw [List.map_map]
  exact hSeries

/- No transaction of a tick names an order twice. -/
theorem planTxs_touched_nodup
    (isQuoter killed : Bool)
    (upkeep : List String)
    (hIds : DistinctIds inputs) :
    ((planTxs isQuoter killed upkeep
        (tickActions inputs)).flatMap
      (fun tx => tx.touched)).Nodup := by
  have hTick : (planTouched (tickActions inputs)).Nodup := by
    rcases tickActions_touched inputs with ⟨ids, hPerm, hSub⟩
    exact hPerm.nodup_iff.mp (hSub.nodup hIds)
  have hSplit :=
    (quotes_touched (tickActions inputs)).nodup_iff.mp hTick
  have hCancels :
      ((cancelTxs (tickActions inputs) true).flatMap
            (fun tx => tx.touched) ++
          (cancelTxs (tickActions inputs) false).flatMap
            (fun tx => tx.touched)).Perm
        (((tickActions inputs).filterMap cancelOf?).flatMap
          (fun c => c.orderIds)) := by
    rw [cancelTxs_touched, cancelTxs_touched,
      ← List.flatMap_append]
    apply List.Perm.flatMap_right
    have hBoth :=
      List.filter_append_perm
        (fun c : CancelAction => c.protective)
        ((tickActions inputs).filterMap cancelOf?)
    simpa using hBoth
  have hUpkeep :
      (upkeep.map MmTx.upkeep).flatMap
        (fun tx => tx.touched) = [] := by
    rw [List.flatMap_map]
    simp [MmTx.touched]
  unfold planTxs
  cases isQuoter with
  | false => exact List.nodup_nil
  | true =>
      simp only [if_true, List.flatMap_append]
      rw [hUpkeep, List.append_nil]
      have hAll :=
        ((hCancels.append_right _).nodup_iff).mpr hSplit
      cases killed with
      | false => exact hAll
      | true =>
          simp only [if_true, List.flatMap_nil,
            List.append_nil]
          exact (List.nodup_append.mp hAll).1

end

----
-- What a Transaction Changes
----

/- The book's orders under these ids, in book order. -/
def named
    (ids : List Int)
    (book : List Resting) : List Resting :=
  book.filter (fun o => o.id ∈ ids.map some)

/- What a transaction adds to a weight of the start's orders. -/
def change
    (weight : Resting → Int)
    (start : List Resting) : MmTx → Int
  | .cancel tx => -total weight (named tx.orderIds start)
  | .replace a =>
      total (fun o => weight (o.replacedBy a) - weight o)
        (named [a.orderId] start)
  | .place a => weight a.resting
  | .upkeep _ => 0

theorem total_append
    (weight : Resting → Int)
    (book book' : List Resting) :
    total weight (book ++ book') =
      total weight book + total weight book' := by
  unfold total
  rw [List.map_append, List.sum_append]

theorem total_filter_not
    (weight : Resting → Int)
    (p : Resting → Bool)
    (book : List Resting) :
    total weight (book.filter (fun o => !p o)) =
      total weight book - total weight (book.filter p) := by
  have hBoth := List.filter_append_perm p book
  have hSum := (hBoth.map weight).sum_eq
  rw [List.map_append, List.sum_append] at hSum
  unfold total
  omega

theorem total_map_if
    (weight : Resting → Int)
    (p : Resting → Bool)
    (f : Resting → Resting)
    (book : List Resting) :
    total weight
        (book.map (fun o => if p o then f o else o)) =
      total weight book +
        total (fun o => weight (f o) - weight o)
          (book.filter p) := by
  induction book with
  | nil => rfl
  | cons o book ih =>
      unfold total at ih ⊢
      simp only [List.map_cons, List.sum_cons,
        List.filter_cons]
      cases hp : p o with
      | false =>
          simp only [Bool.false_eq_true, if_false]
          rw [ih]
          omega
      | true =>
          simp only [if_true, List.map_cons, List.sum_cons]
          rw [ih]
          omega

/- A transaction changes a weight by what it names. -/
theorem total_executeTx
    (weight : Resting → Int)
    (book : List Resting)
    (tx : MmTx) :
    total weight (executeTx book tx) =
      total weight book + change weight book tx := by
  cases tx with
  | cancel tx =>
      have hNot :=
        total_filter_not weight
          (fun o => decide (o.id ∈ tx.orderIds.map some)) book
      simp only [← decide_not] at hNot
      simp only [executeTx, change, named]
      omega
  | replace a =>
      have hMap :=
        total_map_if weight
          (fun o => decide (o.id = some a.orderId))
          (fun o => o.replacedBy a) book
      simp only [decide_eq_true_eq] at hMap
      unfold executeTx execute change named
      simpa using hMap
  | place a =>
      unfold executeTx execute change
      rw [total_append]
      simp [total]
  | upkeep type =>
      simp only [executeTx, change]
      omega

/- The change depends on the named orders only. -/
theorem change_congr
    (weight : Resting → Int)
    {book book' : List Resting}
    {tx : MmTx}
    (h : named tx.touched book = named tx.touched book') :
    change weight book tx = change weight book' tx := by
  cases tx with
  | cancel tx =>
      unfold change
      exact congrArg (fun b => -total weight b) h
  | replace a =>
      unfold change
      exact congrArg (total _) h
  | place a => rfl
  | upkeep type => rfl

/- A transaction leaves the orders it does not name alone. -/
theorem named_executeTx
    {ids : List Int}
    {tx : MmTx}
    (h : ∀ id ∈ tx.touched, id ∉ ids)
    (book : List Resting) :
    named ids (executeTx book tx) = named ids book := by
  cases tx with
  | cancel tx =>
      unfold executeTx named
      rw [List.filter_filter]
      apply List.filter_congr
      intro o _
      simp only [← Bool.decide_and, decide_eq_decide]
      constructor
      · exact fun hBoth => hBoth.1
      · intro hIn
        refine ⟨hIn, ?_⟩
        intro hCancelled
        rcases List.mem_map.mp hIn with ⟨id, hId, hEq⟩
        rcases List.mem_map.mp hCancelled with
          ⟨id', hId', hEq'⟩
        have hSame : id' = id :=
          Option.some.inj (hEq'.trans hEq.symm)
        exact h id' hId' (hSame ▸ hId)
  | replace a =>
      unfold executeTx execute named
      rw [List.filter_map]
      have hOther : a.orderId ∉ ids :=
        h a.orderId (List.mem_singleton.mpr rfl)
      have hFilter :
          book.filter
              ((fun o : Resting =>
                  decide (o.id ∈ ids.map some)) ∘
                fun o =>
                  if o.id = some a.orderId then
                    o.replacedBy a
                  else o) =
            book.filter
              (fun o => decide (o.id ∈ ids.map some)) := by
        apply List.filter_congr
        intro o _
        simp only [Function.comp_apply]
        split
        · next hId =>
            rw [hId]
            simp [Resting.replacedBy, hOther]
        · rfl
      rw [hFilter]
      conv_rhs => rw [← List.map_id (book.filter _)]
      apply List.map_congr_left
      intro o ho
      have hIn := (List.mem_filter.mp ho).2
      simp only [decide_eq_true_eq] at hIn
      split
      · next hId =>
          rw [hId] at hIn
          exact absurd (by simpa using hIn) hOther
      · rfl
  | place a =>
      unfold executeTx execute named
      rw [List.filter_append]
      simp [PlaceAction.resting]
  | upkeep type => rfl

/-
  Executing transactions that name no order twice adds up
  what each of them changes on the start's orders.
-/
theorem total_executeTxs
    (weight : Resting → Int)
    (start : List Resting)
    (txs : List MmTx)
    (hNodup : (txs.flatMap (fun tx => tx.touched)).Nodup) :
    total weight (executeTxs start txs) =
      total weight start +
        (txs.map (change weight start)).sum := by
  suffices hBook :
      ∀ book,
        (∀ tx ∈ txs, named tx.touched book =
          named tx.touched start) →
          total weight (executeTxs book txs) =
            total weight book +
              (txs.map (change weight start)).sum from
    hBook start (fun _ _ => rfl)
  induction txs with
  | nil =>
      intro book _
      simp [executeTxs]
  | cons tx txs ih =>
      intro book hBook
      rw [List.flatMap_cons, List.nodup_append] at hNodup
      have hStep := total_executeTx weight book tx
      rw [change_congr weight
        (hBook tx List.mem_cons_self)] at hStep
      have hRest :=
        ih hNodup.2.1 (executeTx book tx) (by
          intro tx' hTx'
          rw [named_executeTx]
          · exact hBook tx' (List.mem_cons_of_mem _ hTx')
          · intro id hId hIn
            exact hNodup.2.2 id hId id
              (List.mem_flatMap.mpr ⟨tx', hTx', hIn⟩) rfl)
      unfold executeTxs at hRest ⊢
      rw [List.foldl_cons, hRest, hStep, List.map_cons,
        List.sum_cons]
      omega

variable {o : Resting}

/- An order without an id is never named again. -/
theorem mem_executeTx_of_new
    {book : List Resting}
    (hNew : o.id = none)
    (ho : o ∈ book)
    (tx : MmTx) :
    o ∈ executeTx book tx := by
  cases tx with
  | cancel tx =>
      apply List.mem_filter.mpr
      refine ⟨ho, ?_⟩
      rw [hNew]
      simp
  | replace a =>
      apply List.mem_map.mpr
      refine ⟨o, ho, ?_⟩
      rw [hNew]
      simp
  | place a => exact List.mem_append_left _ ho
  | upkeep type => exact ho

theorem mem_executeTxs_of_new
    (hNew : o.id = none)
    (txs : List MmTx)
    {book : List Resting}
    (ho : o ∈ book) :
    o ∈ executeTxs book txs := by
  induction txs generalizing book with
  | nil => exact ho
  | cons tx txs ih =>
      exact ih (mem_executeTx_of_new hNew ho tx)

/- What a transaction leaves in place of what it names. -/
inductive NewOrder
    (start : List Resting)
    (txs : List MmTx) : Resting → Prop where
  | placed
      (a : PlaceAction)
      (ha : .place a ∈ txs) :
      NewOrder start txs a.resting
  | replaced
      (a : ReplaceAction)
      (o : Resting)
      (ha : .replace a ∈ txs)
      (ho : o ∈ start)
      (hId : o.id = some a.orderId) :
      NewOrder start txs (o.replacedBy a)

theorem NewOrder.id_none
    {start : List Resting}
    {txs : List MmTx}
    (h : NewOrder start txs o) :
    o.id = none := by
  cases h with
  | placed a ha => rfl
  | replaced a o ha ho hId => rfl

theorem NewOrder.mono
    {start : List Resting}
    {txs txs' : List MmTx}
    (hTxs : txs ⊆ txs')
    (h : NewOrder start txs o) :
    NewOrder start txs' o := by
  cases h with
  | placed a ha => exact .placed a (hTxs ha)
  | replaced a o ha ho hId =>
      exact .replaced a o (hTxs ha) ho hId

/- Every order of the end is one of the start, or a new one. -/
theorem mem_executeTxs
    (start : List Resting)
    (txs : List MmTx)
    (ho : o ∈ executeTxs start txs) :
    o ∈ start ∨ NewOrder start txs o := by
  induction txs using List.reverseRecOn generalizing o with
  | nil => exact .inl ho
  | append_singleton txs tx ih =>
      unfold executeTxs at ho ih
      rw [List.foldl_append] at ho
      have hOld :
          ∀ {x : Resting}, x ∈ txs.foldl executeTx start →
            x ∈ start ∨ NewOrder start (txs ++ [tx]) x :=
        fun hHere =>
          (ih hHere).imp_right
            (NewOrder.mono (List.subset_append_left _ _))
      cases tx with
      | cancel c => exact hOld (List.mem_of_mem_filter ho)
      | replace a =>
          rcases List.mem_map.mp ho with ⟨o', ho', rfl⟩
          split
          · next hId =>
              rcases ih ho' with hStart | hNew
              · exact .inr (.replaced a o' (by simp) hStart hId)
              · rw [hNew.id_none] at hId
                cases hId
          · exact hOld ho'
      | place a =>
          rcases List.mem_append.mp ho with hHere | hNew
          · exact hOld hHere
          · rw [List.mem_singleton.mp hNew]
            exact .inr (.placed a (by simp))
      | upkeep type => exact hOld ho

/- Transactions that name no order twice leave every new one. -/
theorem NewOrder.mem_executeTxs
    {start : List Resting}
    {txs : List MmTx}
    (hNodup : (txs.flatMap (fun tx => tx.touched)).Nodup)
    (h : NewOrder start txs o) :
    o ∈ executeTxs start txs := by
  have hNone := h.id_none
  cases h with
  | placed a ha =>
      rcases List.append_of_mem ha with ⟨before, after, rfl⟩
      unfold executeTxs
      rw [List.foldl_append, List.foldl_cons]
      apply mem_executeTxs_of_new hNone
      exact List.mem_append_right _ (List.mem_singleton.mpr rfl)
  | replaced a o ha ho hId =>
      rcases List.append_of_mem ha with ⟨before, after, rfl⟩
      unfold executeTxs
      rw [List.foldl_append, List.foldl_cons]
      apply mem_executeTxs_of_new hNone
      have hKept :
          ∀ txs : List MmTx,
            a.orderId ∉ txs.flatMap (fun tx => tx.touched) →
              ∀ book, o ∈ book →
                o ∈ txs.foldl executeTx book := by
        intro txs hFree
        induction txs with
        | nil => exact fun _ hHere => hHere
        | cons tx txs ih =>
            intro book hHere
            rw [List.flatMap_cons, List.mem_append,
              not_or] at hFree
            apply ih hFree.2
            have hNamed :
                o ∈ named [a.orderId] (executeTx book tx) := by
              rw [named_executeTx]
              · apply List.mem_filter.mpr
                refine ⟨hHere, ?_⟩
                rw [hId]
                simp
              · intro id hTouched hSame
                rw [List.mem_singleton.mp hSame] at hTouched
                exact hFree.1 hTouched
            exact List.mem_of_mem_filter hNamed
      have hBefore :
          a.orderId ∉
            before.flatMap (fun tx => tx.touched) := by
        rw [List.flatMap_append, List.nodup_append] at hNodup
        intro hHere
        exact
          hNodup.2.2 a.orderId hHere a.orderId
            (List.mem_flatMap.mpr
              ⟨.replace a, List.mem_cons_self,
                List.mem_singleton.mpr rfl⟩) rfl
      apply List.mem_map.mpr
      exact ⟨o, hKept before hBefore start ho, if_pos hId⟩

end Callhouse.Keeper.Mm
