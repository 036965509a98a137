import Callhouse.Keeper.Mm.TickPlan

/-
  keeper/src/v2/mm/engine.ts, planSeriesActions: what the
  plan of one series leaves on the book.

  Every order of the series meets at most one action, so each
  has a fate of its own: it stays, it is cancelled, or a new
  order takes its place.  A slot ends with no live order, or
  with one: at its target, or the newest one it had.

  Main declarations:
    * `validUntilAt`
    * `settle`, `runActions`, `fate`
    * `planSeriesActions_reaches`
    * `past_stamp_keeps_order`
-/

----
-- The Orders of a Series
----

namespace Callhouse.Keeper.Mm

/- `none` when that moment is not in the future. -/
def validUntilAt
    (life : QuoteLife)
    (now : Int) : Option Int :=
  let until_ :=
    if life.lifetime > 0 then
      min life.cap (now + life.lifetime)
    else life.cap
  if until_ > now then some until_ else none

variable {validUntil : Int}

theorem now_lt_of_validUntilAt
    {life : QuoteLife}
    {now : Int}
    (h : validUntilAt life now = some validUntil) :
    now < validUntil := by
  unfold validUntilAt at h
  simp only [Option.ite_none_right_eq_some,
    Option.some.injEq] at h
  rcases h with ⟨hFuture, rfl⟩
  exact hFuture

/- planTick stamps every slot at the head's time. -/
def StampedAtHead
    (input : SeriesActionInput) : Prop :=
  ∃ life : Slot → QuoteLife,
    ∀ slot,
      input.validUntil slot =
        validUntilAt (life slot) input.now

/-
  An order of the series on the book, live or not.  One that
  the plan creates has a chain id the plan cannot name.
-/
structure BookOrder where
  id : Option Int
  kind : OrderKindName
  price : Int
  units : Int
  filled : Int
  validUntil : Int
  cancelled : Bool
deriving DecidableEq

def bookOrder
    (o : LiveOrder) : BookOrder :=
  { id := some o.id
    kind := o.kind
    price := o.price
    units := o.units
    filled := o.filled
    validUntil := o.validUntil
    cancelled := o.cancelled }

def BookOrder.live
    (o : BookOrder)
    (now : Int) : Bool :=
  !o.cancelled && decide (o.filled < o.units) &&
    decide (now < o.validUntil)

/- The slot's live orders. -/
def slotOrders
    (now : Int)
    (slot : Slot)
    (book : List BookOrder) : List BookOrder :=
  book.filter (fun o =>
    decide (o.kind = slotKind slot) && o.live now)

----
-- Running a Plan
----

section

def BookOrder.cancel
    (o : BookOrder) : BookOrder :=
  { o with cancelled := true }

/- A replace keeps the kind and the validUntil. -/
def BookOrder.replaced
    (o : BookOrder)
    (a : ReplaceAction) : BookOrder :=
  { o with
    id := none
    price := a.price
    units := a.units
    filled := 0 }

def PlaceAction.booked
    (a : PlaceAction) : BookOrder :=
  { id := none
    kind := slotKind a.slot
    price := a.price
    units := a.units
    filled := 0
    validUntil := a.validUntil
    cancelled := false }

/-
  What an action makes of one order.  A replace of an order
  that is not live reverts with OrderNotLive.
-/
def settle
    (now : Int) :
    MmAction → BookOrder → List BookOrder
  | .cancel a, o =>
      if o.id ∈ a.orderIds.map some then [o.cancel] else [o]
  | .replace a, o =>
      if o.id = some a.orderId ∧ o.live now = true then
        [o.cancel, o.replaced a]
      else [o]
  | .place _, o => [o]

def opened : MmAction → List BookOrder
  | .place a => [a.booked]
  | _ => []

def runAction
    (now : Int)
    (book : List BookOrder)
    (action : MmAction) : List BookOrder :=
  book.flatMap (settle now action) ++ opened action

def runActions
    (now : Int)
    (book : List BookOrder)
    (actions : List MmAction) : List BookOrder :=
  actions.foldl (runAction now) book

/- What a list of actions makes of one order. -/
def fate
    (now : Int) :
    List MmAction → BookOrder → List BookOrder
  | [], o => [o]
  | action :: actions, o =>
      (settle now action o).flatMap (fate now actions)

variable {now : Int} {actions : List MmAction}
variable {action : MmAction} {o : BookOrder}

theorem settle_untouched
    (h : ∀ id, o.id = some id → id ∉ action.touched) :
    settle now action o = [o] := by
  cases action with
  | cancel a =>
      apply if_neg
      intro hIn
      rcases List.mem_map.mp hIn with ⟨id, hId, hEq⟩
      exact h id hEq.symm hId
  | replace a =>
      apply if_neg
      intro hHit
      exact h a.orderId hHit.1 (List.mem_singleton.mpr rfl)
  | place a => rfl

theorem fate_untouched
    (h : ∀ id, o.id = some id → id ∉ planTouched actions) :
    fate now actions o = [o] := by
  induction actions with
  | nil => rfl
  | cons action actions ih =>
      have hFirst : ∀ id, o.id = some id → id ∉ action.touched :=
        fun id hId hIn =>
          h id hId (List.mem_append_left _ hIn)
      have hRest :
          ∀ id, o.id = some id →
            id ∉ planTouched actions :=
        fun id hId hIn =>
          h id hId (List.mem_append_right _ hIn)
      unfold fate
      rw [settle_untouched hFirst, List.flatMap_singleton,
        ih hRest]

/- A new order has no id, so no action names it. -/
theorem fate_new
    (hNew : o.id = none) :
    fate now actions o = [o] := by
  apply fate_untouched
  intro id hId
  rw [hNew] at hId
  cases hId

theorem opened_id
    (ho : o ∈ opened action) :
    o.id = none := by
  cases action with
  | cancel a => cases ho
  | replace a => cases ho
  | place a =>
      rw [List.mem_singleton.mp ho]
      rfl

/- Each order meets its own fate; the placed ones follow. -/
theorem runActions_eq
    (book : List BookOrder)
    (actions : List MmAction) :
    runActions now book actions =
      book.flatMap (fate now actions) ++
        actions.flatMap opened := by
  induction actions generalizing book with
  | nil =>
      unfold runActions
      rw [List.foldl_nil, List.flatMap_nil, List.append_nil]
      exact (List.flatMap_singleton' book).symm
  | cons action actions ih =>
      have hOpened :
          (opened action).flatMap (fate now actions) =
            opened action := by
        conv_rhs =>
          rw [← List.flatMap_singleton' (opened action)]
        apply List.flatMap_congr
        intro o ho
        exact fate_new (opened_id ho)
      unfold runActions at ih ⊢
      rw [List.foldl_cons, ih]
      unfold runAction
      rw [List.flatMap_append, hOpened, List.flatMap_assoc,
        List.append_assoc, List.flatMap_cons]
      rfl

/- What an action makes of an order keeps its kind. -/
theorem settle_kind
    {o' : BookOrder}
    (h : o' ∈ settle now action o) :
    o'.kind = o.kind := by
  cases action with
  | cancel a =>
      simp only [settle] at h
      split at h
      · rw [List.mem_singleton.mp h]
        rfl
      · rw [List.mem_singleton.mp h]
  | replace a =>
      simp only [settle] at h
      split at h
      · rcases List.mem_cons.mp h with rfl | hNew
        · rfl
        · rw [List.mem_singleton.mp hNew]
          rfl
      · rw [List.mem_singleton.mp h]
  | place a => rw [List.mem_singleton.mp h]

theorem fate_kind
    {o' : BookOrder}
    (h : o' ∈ fate now actions o) :
    o'.kind = o.kind := by
  induction actions generalizing o with
  | nil => rw [List.mem_singleton.mp h]
  | cons action actions ih =>
      rcases List.mem_flatMap.mp h with ⟨x, hx, ho'⟩
      rw [ih ho', settle_kind hx]

/- An order that is not live stays so. -/
theorem settle_dead
    (action : MmAction)
    (hDead : o.live now = false) :
    ∃ o', settle now action o = [o'] ∧
      o'.live now = false := by
  cases action with
  | cancel a =>
      simp only [settle]
      split
      · exact ⟨o.cancel, rfl, rfl⟩
      · exact ⟨o, rfl, hDead⟩
  | replace a =>
      refine ⟨o, ?_, hDead⟩
      apply if_neg
      rw [hDead]
      exact fun hHit => Bool.noConfusion hHit.2
  | place a => exact ⟨o, rfl, hDead⟩

theorem fate_dead
    (actions : List MmAction)
    (hDead : o.live now = false) :
    ∃ o', fate now actions o = [o'] ∧
      o'.live now = false := by
  induction actions generalizing o with
  | nil => exact ⟨o, rfl, hDead⟩
  | cons action actions ih =>
      rcases settle_dead action hDead with
        ⟨o', hSettle, hDead'⟩
      unfold fate
      rw [hSettle, List.flatMap_singleton]
      exact ih hDead'

/- In a plan that names no order twice, one action decides. -/
theorem fate_of_mem
    (now : Int)
    {id : Int}
    (hNodup : (planTouched actions).Nodup)
    (hMem : action ∈ actions)
    (hId : o.id = some id)
    (hTouched : id ∈ action.touched) :
    ∃ after,
      fate now actions o =
        (settle now action o).flatMap (fate now after) ∧
      id ∉ planTouched after := by
  induction actions with
  | nil => cases hMem
  | cons first rest ih =>
      unfold planTouched at hNodup
      rw [List.flatMap_cons, List.nodup_append] at hNodup
      rcases List.mem_cons.mp hMem with rfl | hRest
      · refine ⟨rest, rfl, ?_⟩
        exact fun hIn => hNodup.2.2 id hTouched id hIn rfl
      · have hIn : id ∈ planTouched rest :=
          List.mem_flatMap.mpr ⟨action, hRest, hTouched⟩
        have hFirst : settle now first o = [o] := by
          apply settle_untouched
          intro id' hId' hHere
          rw [hId, Option.some.injEq] at hId'
          exact hNodup.2.2 id' hHere id hIn hId'.symm
        rcases ih hNodup.2.1 hRest with
          ⟨after, hFate, hAfter⟩
        refine ⟨after, ?_, hAfter⟩
        unfold fate
        rw [hFirst, List.flatMap_singleton, hFate]

end

----
-- What a Slot Keeps of an Order
----

section

variable {now : Int} {slot : Slot}
variable {actions : List MmAction} {o : BookOrder}

theorem slotOrders_append
    (book book' : List BookOrder) :
    slotOrders now slot (book ++ book') =
      slotOrders now slot book ++
        slotOrders now slot book' :=
  List.filter_append _ _

theorem slotOrders_dead
    (hDead : o.live now = false) :
    slotOrders now slot [o] = [] := by
  unfold slotOrders
  simp [hDead]

theorem slotOrders_singleton
    (hKind : o.kind = slotKind slot)
    (hLive : o.live now = true) :
    slotOrders now slot [o] = [o] := by
  unfold slotOrders
  simp [hKind, hLive]

theorem slotOrders_fate_dead
    (hDead : o.live now = false) :
    slotOrders now slot (fate now actions o) = [] := by
  rcases fate_dead actions hDead with
    ⟨o', hFate, hDead'⟩
  rw [hFate]
  exact slotOrders_dead hDead'

theorem slotOrders_fate_other
    (hKind : o.kind ≠ slotKind slot) :
    slotOrders now slot (fate now actions o) = [] := by
  unfold slotOrders
  apply List.filter_eq_nil_iff.mpr
  intro o' ho'
  rw [fate_kind ho']
  simp [hKind]

theorem slotOrders_fate_cancelled
    {a : CancelAction}
    {id : Int}
    (hNodup : (planTouched actions).Nodup)
    (hMem : MmAction.cancel a ∈ actions)
    (hIn : id ∈ a.orderIds)
    (hId : o.id = some id) :
    slotOrders now slot (fate now actions o) = [] := by
  rcases fate_of_mem now hNodup hMem hId hIn with
    ⟨after, hFate, _⟩
  have hSettle : settle now (.cancel a) o = [o.cancel] := by
    apply if_pos
    rw [hId]
    exact List.mem_map_of_mem hIn
  rw [hFate, hSettle, List.flatMap_singleton]
  exact slotOrders_fate_dead rfl

theorem slotOrders_fate_replaced
    {a : ReplaceAction}
    (hNodup : (planTouched actions).Nodup)
    (hMem : MmAction.replace a ∈ actions)
    (hId : o.id = some a.orderId)
    (hLive : o.live now = true)
    (hKind : o.kind = slotKind slot)
    (hUnits : 0 < a.units) :
    slotOrders now slot (fate now actions o) =
      [o.replaced a] := by
  rcases
    fate_of_mem now hNodup hMem hId
      (List.mem_singleton.mpr rfl) with
    ⟨after, hFate, _⟩
  have hSettle :
      settle now (.replace a) o =
        [o.cancel, o.replaced a] :=
    if_pos ⟨hId, hLive⟩
  have hNew : (o.replaced a).live now = true := by
    unfold BookOrder.live at hLive ⊢
    simp only [Bool.and_eq_true, Bool.not_eq_true',
      decide_eq_true_eq] at hLive ⊢
    exact ⟨⟨hLive.1.1, hUnits⟩, hLive.2⟩
  have hOld :
      slotOrders now slot (fate now after o.cancel) = [] :=
    slotOrders_fate_dead rfl
  rw [hFate, hSettle, List.flatMap_cons, slotOrders_append,
    hOld, List.flatMap_singleton, fate_new rfl,
    List.nil_append]
  exact slotOrders_singleton hKind hNew

theorem slotOrders_fate_untouched
    {id : Int}
    (hId : o.id = some id)
    (hFree : id ∉ planTouched actions)
    (hLive : o.live now = true)
    (hKind : o.kind = slotKind slot) :
    slotOrders now slot (fate now actions o) = [o] := by
  have hFate : fate now actions o = [o] := by
    apply fate_untouched
    intro id' hId' hIn
    rw [hId, Option.some.injEq] at hId'
    exact hFree (hId' ▸ hIn)
  rw [hFate]
  exact slotOrders_singleton hKind hLive

/- A book on which one order alone has live successors. -/
theorem flatMap_eq_of_unique
    {α β : Type}
    {xs : List α}
    {x : α}
    {f : α → List β}
    (hNodup : xs.Nodup)
    (hMem : x ∈ xs)
    (hOthers : ∀ y ∈ xs, y ≠ x → f y = []) :
    xs.flatMap f = f x := by
  rcases List.append_of_mem hMem with ⟨before, after, rfl⟩
  rw [List.nodup_append] at hNodup
  have hBefore : before.flatMap f = [] := by
    apply List.flatMap_eq_nil_iff.mpr
    intro y hy
    apply hOthers y (List.mem_append_left _ hy)
    exact hNodup.2.2 y hy x List.mem_cons_self
  have hAfter : after.flatMap f = [] := by
    apply List.flatMap_eq_nil_iff.mpr
    intro y hy
    apply hOthers y
    · exact List.mem_append_right _ (List.mem_cons_of_mem _ hy)
    · intro hEq
      exact (List.nodup_cons.mp hNodup.2.1).1 (hEq ▸ hy)
  rw [List.flatMap_append, List.flatMap_cons, hBefore,
    hAfter, List.append_nil, List.nil_append]

end

----
-- What the Plan Says of a Slot
----

section

variable {input : SeriesActionInput}
variable {targets : Slot → Option SlotTarget}
variable {askFloors : AskFloors} {slot : Slot}

theorem mem_slots
    (slot : Slot) :
    slot ∈ [Slot.bid, Slot.write, Slot.resale] := by
  cases slot <;> simp

theorem slotKind_injective
    {slot slot' : Slot}
    (h : slotKind slot = slotKind slot') :
    slot = slot' := by
  cases slot <;> cases slot' <;> first | rfl | cases h

theorem mem_newestFirst_iff
    {o : LiveOrder} :
    o ∈ newestFirst input slot ↔
      o ∈ input.orders ∧ isLiveOrder o input.now = true ∧
        o.kind = slotKind slot := by
  unfold newestFirst SeriesActionInput.live
  rw [List.mem_insertionSort, List.mem_filter,
    List.mem_filter, decide_eq_true_eq, and_assoc]

/- The kept order is the newest of its slot. -/
theorem le_keep
    {keep : LiveOrder}
    {extra : List LiveOrder}
    (h : newestFirst input slot = keep :: extra) :
    ∀ o ∈ newestFirst input slot, o.id ≤ keep.id := by
  have hSorted :
      (newestFirst input slot).Pairwise
        (fun a b => b.id ≤ a.id) := by
    unfold newestFirst
    exact List.pairwise_insertionSort _ _
  rw [h] at hSorted ⊢
  intro o ho
  rcases List.mem_cons.mp ho with rfl | hExtra
  · exact le_refl _
  · exact (List.pairwise_cons.mp hSorted).1 o hExtra

/- Every pending cancel of a quoted series is in an action. -/
theorem cancel_mem_plan
    (hTargets : input.targets = some targets)
    (hFloors : input.askFloors = some askFloors)
    {c : PendingCancel}
    (hc :
      c ∈ reclaimCancels input ∨
        ∃ slot,
          c ∈ (planSlot input targets askFloors
            slot).cancels) :
    ∃ a, MmAction.cancel a ∈ planSeriesActions input ∧
      c.id ∈ a.orderIds := by
  let slots :=
    [Slot.bid, Slot.write, Slot.resale].map
      (planSlot input targets askFloors)
  let cancels :=
    reclaimCancels input ++
      slots.flatMap (fun plan => plan.cancels)
  have hMem : c ∈ cancels := by
    rcases hc with hReclaim | ⟨slot, hSlot⟩
    · exact List.mem_append_left _ hReclaim
    · apply List.mem_append_right
      exact
        List.mem_flatMap.mpr
          ⟨_, List.mem_map_of_mem (mem_slots slot), hSlot⟩
  let part :=
    cancels.filter (fun d => d.protective = c.protective)
  have hPart : c ∈ part :=
    List.mem_filter.mpr ⟨hMem, decide_eq_true rfl⟩
  have hAction :
      ∃ a,
        MmAction.cancel a ∈
            cancelAction input cancels c.protective ∧
          c.id ∈ a.orderIds := by
    unfold cancelAction
    simp only
    rw [if_neg (List.ne_nil_of_mem hPart)]
    exact
      ⟨_, List.mem_singleton.mpr rfl,
        List.mem_map_of_mem hPart⟩
  rcases hAction with ⟨a, ha, hIn⟩
  refine ⟨a, ?_, hIn⟩
  rw [planSeriesActions_quoted hTargets hFloors]
  apply List.mem_append_left
  apply List.mem_append_left
  cases hFlag : c.protective with
  | true =>
      rw [hFlag] at ha
      exact List.mem_append_left _ ha
  | false =>
      rw [hFlag] at ha
      exact List.mem_append_right _ ha

theorem replace_mem_plan
    (hTargets : input.targets = some targets)
    (hFloors : input.askFloors = some askFloors)
    {a : ReplaceAction}
    (ha :
      a ∈ (planSlot input targets askFloors
        slot).replaces) :
    MmAction.replace a ∈ planSeriesActions input := by
  rw [planSeriesActions_quoted hTargets hFloors]
  apply List.mem_append_left
  apply List.mem_append_right
  apply List.mem_map_of_mem
  exact
    List.mem_flatMap.mpr
      ⟨_, List.mem_map_of_mem (mem_slots slot), ha⟩

theorem cancelAction_opened
    (cancels : List PendingCancel)
    (protective : Bool) :
    (cancelAction input cancels protective).flatMap opened =
      [] := by
  unfold cancelAction
  simp only
  split <;> rfl

/- A quoted series opens what its slots place. -/
theorem plan_opened
    (hTargets : input.targets = some targets)
    (hFloors : input.askFloors = some askFloors) :
    (planSeriesActions input).flatMap opened =
      [Slot.bid, Slot.write, Slot.resale].flatMap
        (fun slot =>
          (planSlot input targets askFloors
            slot).places.map PlaceAction.booked) := by
  have hReplaces :
      ∀ replaces : List ReplaceAction,
        (replaces.map MmAction.replace).flatMap opened =
          [] := by
    intro replaces
    rw [List.flatMap_map]
    exact List.flatMap_eq_nil_iff.mpr (fun _ _ => rfl)
  have hPlaces :
      ∀ places : List PlaceAction,
        (places.map MmAction.place).flatMap opened =
          places.map PlaceAction.booked := by
    intro places
    rw [List.flatMap_map, List.map_eq_flatMap]
    rfl
  rw [planSeriesActions_quoted hTargets hFloors]
  simp only
  rw [List.flatMap_append, List.flatMap_append,
    List.flatMap_append, cancelAction_opened,
    cancelAction_opened, hReplaces, hPlaces,
    List.map_flatMap, List.flatMap_map]
  rfl

end

----
-- A Kept Order
----

section

variable {input : SeriesActionInput}
variable {targets : Slot → Option SlotTarget}
variable {askFloors : AskFloors} {slot : Slot}

/- Every bound that judgeReplace holds a resting order to. -/
structure WithinBounds
    (input : SeriesActionInput)
    (askFloors : AskFloors)
    (slot : Slot)
    (target : SlotTarget)
    (o : LiveOrder) : Prop where
  bidCap : slot = .bid → o.price ≤ input.bidCap
  bidLag :
    slot = .bid →
      ∀ safeFloor, input.safeFloor = some safeFloor →
        o.price ≤ safeFloor .bid
  writeFloor : slot = .write → askFloors.write ≤ o.price
  resaleFloor : slot = .resale → askFloors.resale ≤ o.price
  askLag :
    slot ≠ .bid →
      ∀ safeFloor, input.safeFloor = some safeFloor →
        safeFloor slot ≤ o.price
  move :
    ∃ moved, moveBps o.price target.price = some moved ∧
      moved ≤ input.params.requoteBps
  notAbove : o.remaining ≤ target.units
  notUnder :
    (target.units *
      (10000 - input.params.resizeBps)).tdiv bps ≤
        o.remaining

/- How planSeriesActions puts a kept order to judgeReplace. -/
def judged
    (input : SeriesActionInput)
    (askFloors : AskFloors)
    (slot : Slot)
    (keep : LiveOrder)
    (target : SlotTarget) : JudgeInput :=
  { order := keep
    target := target
    slot := slot
    askFloors := askFloors
    bidCap := input.bidCap
    safeFloor := input.safeFloor.map (fun f => f slot)
    params := input.params }

theorem ite_some_eq_none
    {α : Type}
    {p : Prop}
    [Decidable p]
    {x : α}
    {rest : Option α}
    (h : (if p then some x else rest) = none) :
    ¬ p ∧ rest = none := by
  by_cases hp : p
  · rw [if_pos hp] at h
    cases h
  · rw [if_neg hp] at h
    exact ⟨hp, h⟩

variable {target : SlotTarget}

theorem brokenGuard_bid
    {keep : LiveOrder}
    (h :
      brokenGuard (judged input askFloors .bid keep target) =
        none) :
    keep.price ≤ input.bidCap ∧
      ∀ safeFloor, input.safeFloor = some safeFloor →
        keep.price ≤ safeFloor .bid := by
  simp only [brokenGuard, judged] at h
  rcases ite_some_eq_none h with ⟨hCap, hLag⟩
  refine ⟨not_lt.mp hCap, ?_⟩
  intro safeFloor hSafe
  rw [hSafe, Option.map_some] at hLag
  exact not_lt.mp (ite_some_eq_none hLag).1

theorem brokenGuard_ask
    {keep : LiveOrder}
    (hAsk : slot ≠ .bid)
    (h :
      brokenGuard (judged input askFloors slot keep target) =
        none) :
    (if slot = .resale then askFloors.resale
      else askFloors.write) ≤ keep.price ∧
      ∀ safeFloor, input.safeFloor = some safeFloor →
        safeFloor slot ≤ keep.price := by
  cases slot with
  | bid => exact absurd rfl hAsk
  | write =>
      simp only [brokenGuard, judged] at h
      rcases ite_some_eq_none h with ⟨hFloor, hLag⟩
      refine ⟨not_lt.mp hFloor, ?_⟩
      intro safeFloor hSafe
      rw [hSafe, Option.map_some] at hLag
      exact not_lt.mp (ite_some_eq_none hLag).1
  | resale =>
      simp only [brokenGuard, judged] at h
      rcases ite_some_eq_none h with ⟨hFloor, hLag⟩
      refine ⟨not_lt.mp hFloor, ?_⟩
      intro safeFloor hSafe
      rw [hSafe, Option.map_some] at hLag
      exact not_lt.mp (ite_some_eq_none hLag).1

theorem ite_replace_eq_false
    {p : Prop}
    [Decidable p]
    {judgement rest : ReplaceJudgement}
    (hReplace : judgement.replace = true)
    (h : (if p then judgement else rest).replace = false) :
    ¬ p ∧ rest.replace = false := by
  by_cases hp : p
  · rw [if_pos hp, hReplace] at h
    cases h
  · rw [if_neg hp] at h
    exact ⟨hp, h⟩

theorem exceedsBps_eq_false
    {move : Option Int}
    {limit : Int}
    (h : ¬ exceedsBps move limit = true) :
    ∃ moved, move = some moved ∧ moved ≤ limit := by
  cases move with
  | none => exact absurd rfl h
  | some moved =>
      simp only [exceedsBps, decide_eq_true_eq] at h
      exact ⟨moved, rfl, not_lt.mp h⟩

/- An order that judgeReplace leaves alone keeps every bound. -/
theorem withinBounds_of_judgeReplace
    {keep : LiveOrder}
    (h :
      (judgeReplace
        (judged input askFloors slot keep target)).replace =
        false) :
    WithinBounds input askFloors slot target keep := by
  unfold judgeReplace at h
  cases hGuard :
      brokenGuard
        (judged input askFloors slot keep target) with
  | some reason =>
      rw [hGuard] at h
      cases h
  | none =>
      rw [hGuard] at h
      simp only [judged] at h
      rcases ite_replace_eq_false rfl h with ⟨hMove, h⟩
      rcases ite_replace_eq_false rfl h with ⟨hAbove, h⟩
      rcases ite_replace_eq_false rfl h with ⟨hUnder, _⟩
      exact
        { bidCap := fun hSlot => by
            subst hSlot
            exact (brokenGuard_bid hGuard).1
          bidLag := fun hSlot => by
            subst hSlot
            exact (brokenGuard_bid hGuard).2
          writeFloor := fun hSlot => by
            subst hSlot
            exact (brokenGuard_ask (by decide) hGuard).1
          resaleFloor := fun hSlot => by
            subst hSlot
            exact (brokenGuard_ask (by decide) hGuard).1
          askLag := fun hSlot =>
            (brokenGuard_ask hSlot hGuard).2
          move := exceedsBps_eq_false hMove
          notAbove := not_lt.mp hAbove
          notUnder := not_lt.mp hUnder }

/- The kept order is re-placed, replaced, or left within bounds. -/
inductive KeptPlan
    (input : SeriesActionInput)
    (askFloors : AskFloors)
    (slot : Slot)
    (keep : LiveOrder)
    (target : SlotTarget)
    (validUntil : Int) : SlotPlan → Prop where
  | replaced
      (reason : String)
      (protective : Bool)
      (reason' : String)
      (protective' : Bool) :
      KeptPlan input askFloors slot keep target validUntil
        { cancels := [⟨keep.id, reason, protective⟩]
          replaces := []
          places :=
            [placeAction input slot target validUntil reason'
              protective'] }
  | moved
      (a : ReplaceAction)
      (hId : a.orderId = keep.id)
      (hPrice : a.price = target.price)
      (hUnits : a.units = target.units) :
      KeptPlan input askFloors slot keep target validUntil
        { cancels := [], replaces := [a], places := [] }
  | kept
      (hBounds :
        WithinBounds input askFloors slot target keep) :
      KeptPlan input askFloors slot keep target validUntil
        { cancels := [], replaces := [], places := [] }

theorem planKept_cases
    (input : SeriesActionInput)
    (askFloors : AskFloors)
    (slot : Slot)
    (keep : LiveOrder)
    (target : SlotTarget)
    (validUntil : Int) :
    KeptPlan input askFloors slot keep target validUntil
      (planKept input askFloors slot keep target
        validUntil) := by
  unfold planKept
  simp only
  split
  · exact .replaced _ _ _ _
  · split
    · exact .replaced _ _ _ _
    · split
      · exact .moved _ rfl rfl rfl
      · next hKeep =>
          apply KeptPlan.kept
          apply withinBounds_of_judgeReplace
          exact Bool.not_eq_true _ ▸ hKeep

end

----
-- The Slots After the Plan
----

/- The orders of the series after its plan was executed. -/
def afterPlan
    (input : SeriesActionInput) : List BookOrder :=
  runActions input.now (input.orders.map bookOrder)
    (planSeriesActions input)

def DistinctOrders
    (input : SeriesActionInput) : Prop :=
  (input.orders.map (fun o => o.id)).Nodup

variable {input : SeriesActionInput}
variable {targets : Slot → Option SlotTarget}
variable {askFloors : AskFloors} {slot : Slot}

theorem plan_nodup
    (hIds : DistinctOrders input) :
    (planTouched (planSeriesActions input)).Nodup := by
  rcases planSeriesActions_touched input with
    ⟨ids, hPerm, hSub⟩
  exact hPerm.nodup_iff.mp (hSub.nodup hIds)

variable {o : LiveOrder}

theorem eq_of_id_eq
    (hIds : DistinctOrders input)
    {o' : LiveOrder}
    (ho : o ∈ input.orders)
    (ho' : o' ∈ input.orders)
    (hId : o.id = o'.id) :
    o = o' :=
  List.inj_on_of_nodup_map hIds ho ho' hId

/- The slot's orders: what is left of each, and the placed. -/
theorem slotOrders_afterPlan
    (input : SeriesActionInput)
    (slot : Slot) :
    slotOrders input.now slot (afterPlan input) =
      input.orders.flatMap
          (fun o =>
            slotOrders input.now slot
              (fate input.now (planSeriesActions input)
                (bookOrder o))) ++
        slotOrders input.now slot
          ((planSeriesActions input).flatMap opened) := by
  unfold afterPlan
  rw [runActions_eq, slotOrders_append]
  congr 1
  unfold slotOrders
  rw [List.filter_flatMap, List.flatMap_map]

/- An order that is not live in the slot leaves it nothing. -/
theorem slotOrders_fate_outside
    (ho : o ∈ input.orders)
    (hOut : o ∉ newestFirst input slot) :
    slotOrders input.now slot
      (fate input.now (planSeriesActions input)
        (bookOrder o)) = [] := by
  cases hLive : isLiveOrder o input.now with
  | false => exact slotOrders_fate_dead hLive
  | true =>
      apply slotOrders_fate_other
      intro hKind
      exact hOut (mem_newestFirst_iff.mpr ⟨ho, hLive, hKind⟩)

theorem planSlot_places
    {a : PlaceAction}
    (ha :
      a ∈ (planSlot input targets askFloors slot).places) :
    ∃ target validUntil reason protective,
      quotable input targets slot =
          some (target, validUntil) ∧
        a =
          placeAction input slot target validUntil reason
            protective := by
  unfold planSlot at ha
  cases hQuote : quotable input targets slot with
  | none =>
      cases hOrders : newestFirst input slot with
      | nil =>
          rw [hOrders, hQuote] at ha
          cases ha
      | cons keep extra =>
          rw [hOrders, hQuote] at ha
          cases ha
  | some quote =>
      rcases quote with ⟨target, validUntil⟩
      refine ⟨target, validUntil, ?_⟩
      cases hOrders : newestFirst input slot with
      | nil =>
          rw [hOrders, hQuote] at ha
          simp only at ha
          exact ⟨_, _, rfl, List.mem_singleton.mp ha⟩
      | cons keep extra =>
          rw [hOrders, hQuote] at ha
          simp only at ha
          have hCases :=
            planKept_cases input askFloors slot keep target
              validUntil
          generalize
            planKept input askFloors slot keep target
              validUntil = kept at ha hCases
          cases hCases with
          | replaced _ _ reason protective =>
              exact
                ⟨reason, protective, rfl,
                  List.mem_singleton.mp ha⟩
          | moved a' _ _ _ => cases ha
          | kept _ => cases ha

variable {target : SlotTarget}

/- A place is live until its validUntil. -/
theorem slotOrders_booked
    (hUnits : 0 < target.units)
    (validUntil : Int)
    (reason : String)
    (protective : Bool) :
    slotOrders input.now slot
        [(placeAction input slot target validUntil reason
          protective).booked] =
      if input.now < validUntil then
        [(placeAction input slot target validUntil reason
          protective).booked]
      else [] := by
  unfold slotOrders BookOrder.live PlaceAction.booked
    placeAction
  split
  · next hFuture => simp [hFuture, hUnits]
  · next hStale => simp [hStale]

/- Of what the plan places, a slot has its own places. -/
theorem slotOrders_opened
    (hTargets : input.targets = some targets)
    (hFloors : input.askFloors = some askFloors)
    (slot : Slot) :
    slotOrders input.now slot
        ((planSeriesActions input).flatMap opened) =
      slotOrders input.now slot
        ((planSlot input targets askFloors slot).places.map
          PlaceAction.booked) := by
  have hOthers :
      ∀ slot' ∈ [Slot.bid, Slot.write, Slot.resale],
        slot' ≠ slot →
          slotOrders input.now slot
            ((planSlot input targets askFloors
              slot').places.map PlaceAction.booked) = [] := by
    intro slot' _ hNe
    apply List.filter_eq_nil_iff.mpr
    intro o ho
    rcases List.mem_map.mp ho with ⟨a, ha, rfl⟩
    rcases planSlot_places ha with
      ⟨target, validUntil, reason, protective, _, rfl⟩
    have hKind : slotKind slot' ≠ slotKind slot :=
      fun hEq => hNe (slotKind_injective hEq)
    simp [PlaceAction.booked, placeAction, hKind]
  rw [plan_opened hTargets hFloors]
  unfold slotOrders at hOthers ⊢
  rw [List.filter_flatMap,
    flatMap_eq_of_unique (by decide) (mem_slots slot)
      hOthers]

variable {extra : List LiveOrder}

/- An extra order of the slot is cancelled. -/
theorem slotOrders_fate_extra
    (hIds : DistinctOrders input)
    (hTargets : input.targets = some targets)
    (hFloors : input.askFloors = some askFloors)
    {keep : LiveOrder}
    (hOrders : newestFirst input slot = keep :: extra)
    (ho : o ∈ extra) :
    slotOrders input.now slot
      (fate input.now (planSeriesActions input)
        (bookOrder o)) = [] := by
  let c : PendingCancel :=
    { id := o.id
      reason := s!"extra {slotText slot} {o.id}"
      protective := true }
  have hExtra :
      c ∈ extra.map (fun o =>
        ({ id := o.id
           reason := s!"extra {slotText slot} {o.id}"
           protective := true } : PendingCancel)) :=
    List.mem_map_of_mem ho
  have hCancel :
      c ∈ (planSlot input targets askFloors
        slot).cancels := by
    unfold planSlot
    rw [hOrders]
    simp only
    split
    · exact List.mem_append_left _ hExtra
    · exact List.mem_append_left _ hExtra
  rcases
    cancel_mem_plan hTargets hFloors
      (.inr ⟨slot, hCancel⟩) with
    ⟨a, hMem, hIn⟩
  exact slotOrders_fate_cancelled (plan_nodup hIds) hMem hIn rfl

/- With a kept order, the slot has what is left of that one. -/
theorem slotOrders_kept
    (hIds : DistinctOrders input)
    (hTargets : input.targets = some targets)
    (hFloors : input.askFloors = some askFloors)
    {keep : LiveOrder}
    (hOrders : newestFirst input slot = keep :: extra) :
    input.orders.flatMap
        (fun o =>
          slotOrders input.now slot
            (fate input.now (planSeriesActions input)
              (bookOrder o))) =
      slotOrders input.now slot
        (fate input.now (planSeriesActions input)
          (bookOrder keep)) := by
  have hKeep : keep ∈ newestFirst input slot := by
    rw [hOrders]
    exact List.mem_cons_self
  apply
    flatMap_eq_of_unique (List.Nodup.of_map _ hIds)
      (mem_newestFirst_iff.mp hKeep).1
  intro o ho hNe
  by_cases hIn : o ∈ newestFirst input slot
  · rw [hOrders] at hIn
    rcases List.mem_cons.mp hIn with hEq | hExtra
    · exact absurd hEq hNe
    · exact
        slotOrders_fate_extra hIds hTargets hFloors hOrders
          hExtra
  · exact slotOrders_fate_outside ho hIn

theorem newestFirst_nodup
    (hIds : DistinctOrders input)
    (slot : Slot) :
    (newestFirst input slot).Nodup := by
  have hOrders : input.orders.Nodup := List.Nodup.of_map _ hIds
  have hPerm :=
    List.perm_insertionSort
      (fun a b : LiveOrder => b.id ≤ a.id)
      (input.live.filter (fun o => o.kind = slotKind slot))
  exact hPerm.nodup_iff.mpr ((hOrders.filter _).filter _)

theorem isReclaimable_eq_false
    {now : Int}
    (hLive : isLiveOrder o now = true) :
    isReclaimable o now = false := by
  unfold isLiveOrder at hLive
  simp only [Bool.and_eq_true, decide_eq_true_eq] at hLive
  have hOpen : ¬ now ≥ o.validUntil := not_le.mpr hLive.2
  unfold isReclaimable
  rw [decide_eq_false hOpen, Bool.and_false, Bool.false_and]

/- A kept order that its slot leaves alone is named nowhere. -/
theorem keep_untouched
    (hIds : DistinctOrders input)
    (hTargets : input.targets = some targets)
    (hFloors : input.askFloors = some askFloors)
    {keep : LiveOrder}
    (hOrders : newestFirst input slot = keep :: extra)
    (hSlot :
      (planSlot input targets askFloors slot).touched =
        extra.map (fun o => o.id)) :
    keep.id ∉ planTouched (planSeriesActions input) := by
  have hKeep : keep ∈ newestFirst input slot := by
    rw [hOrders]
    exact List.mem_cons_self
  rcases mem_newestFirst_iff.mp hKeep with
    ⟨hIn, hLive, hKind⟩
  intro hTouched
  have hWhere :=
    (quoted_touched hTargets hFloors).mem_iff.mp hTouched
  rcases List.mem_append.mp hWhere with hReclaim | hSlots
  · rcases List.mem_map.mp hReclaim with ⟨o, ho, hId⟩
    rcases List.mem_filter.mp ho with ⟨ho, hOld⟩
    rw [eq_of_id_eq hIds ho hIn hId,
      isReclaimable_eq_false hLive] at hOld
    cases hOld
  · rcases List.mem_flatMap.mp hSlots with
      ⟨slot', _, hHere⟩
    by_cases hSame : slot' = slot
    · subst hSame
      rw [hSlot] at hHere
      rcases List.mem_map.mp hHere with ⟨o, ho, hId⟩
      have hoIn : o ∈ newestFirst input slot' := by
        rw [hOrders]
        exact List.mem_cons_of_mem _ ho
      have hEq :=
        eq_of_id_eq hIds (mem_newestFirst_iff.mp hoIn).1 hIn
          hId
      have hNodup := newestFirst_nodup hIds slot'
      rw [hOrders] at hNodup
      exact (List.nodup_cons.mp hNodup).1 (hEq ▸ ho)
    · have hMine :=
        (planSlot_touched targets askFloors slot').subset
          hHere
      rcases List.mem_map.mp hMine with ⟨o, ho, hId⟩
      rcases mem_newestFirst_iff.mp ho with
        ⟨hoIn, _, hKind'⟩
      rw [eq_of_id_eq hIds hoIn hIn hId, hKind] at hKind'
      exact hSame (slotKind_injective hKind'.symm)

/- The newest order the slot had, as it was, within bounds. -/
structure KeptAsWas
    (input : SeriesActionInput)
    (askFloors : AskFloors)
    (slot : Slot)
    (target : SlotTarget)
    (o : BookOrder)
    (keep : LiveOrder) : Prop where
  order : keep ∈ input.orders
  live : isLiveOrder keep input.now = true
  kind : keep.kind = slotKind slot
  newest :
    ∀ other ∈ input.orders,
      isLiveOrder other input.now = true →
        other.kind = slotKind slot → other.id ≤ keep.id
  same : o = bookOrder keep
  untouched :
    keep.id ∉ planTouched (planSeriesActions input)
  bounds : WithinBounds input askFloors slot target keep

/- A new order at exactly the target. -/
structure AtTarget
    (target : SlotTarget)
    (o : BookOrder) : Prop where
  price : o.price = target.price
  units : o.units = target.units
  unfilled : o.filled = 0

/- The slot has nothing to quote. -/
def Idle
    (input : SeriesActionInput)
    (targets : Slot → Option SlotTarget)
    (slot : Slot) : Prop :=
  targets slot = none ∨
    (∃ target, targets slot = some target ∧
      target.units ≤ 0) ∨
    input.validUntil slot = none

theorem quotable_of_idle
    (h : Idle input targets slot) :
    quotable input targets slot = none := by
  unfold quotable
  rcases h with hNone | ⟨target, hTarget, hUnits⟩ | hUntil
  · rw [hNone]
  · rw [hTarget]
    cases input.validUntil slot with
    | none => rfl
    | some validUntil => exact if_pos hUnits
  · rw [hUntil]
    cases targets slot <;> rfl

/- An idle slot is left empty. -/
theorem slotOrders_idle_quoted
    (hIds : DistinctOrders input)
    (hTargets : input.targets = some targets)
    (hFloors : input.askFloors = some askFloors)
    (hIdle : Idle input targets slot) :
    slotOrders input.now slot (afterPlan input) = [] := by
  have hQuote := quotable_of_idle hIdle
  have hPlaces :
      (planSlot input targets askFloors slot).places =
        [] := by
    unfold planSlot
    rw [hQuote]
    cases newestFirst input slot <;> rfl
  rw [slotOrders_afterPlan,
    slotOrders_opened hTargets hFloors, hPlaces,
    List.map_nil, slotOrders, List.filter_nil,
    List.append_nil]
  cases hOrders : newestFirst input slot with
  | nil =>
      apply List.flatMap_eq_nil_iff.mpr
      intro o ho
      apply slotOrders_fate_outside ho
      rw [hOrders]
      exact List.not_mem_nil
  | cons keep extra =>
      rw [slotOrders_kept hIds hTargets hFloors hOrders]
      let c : PendingCancel :=
        { id := keep.id
          reason := s!"no {slotText slot} target"
          protective := true }
      have hCancel :
          c ∈ (planSlot input targets askFloors
            slot).cancels := by
        unfold planSlot
        rw [hOrders, hQuote]
        exact
          List.mem_append_right _
            (List.mem_singleton.mpr rfl)
      rcases
        cancel_mem_plan hTargets hFloors
          (.inr ⟨slot, hCancel⟩) with
        ⟨a, hMem, hIn⟩
      exact
        slotOrders_fate_cancelled (plan_nodup hIds) hMem hIn
          rfl

/-
  A quoted slot is left with one order; a place that is past
  its validUntil, which the tick never plans, leaves none.
-/
theorem slotOrders_quoted
    (hIds : DistinctOrders input)
    (hTargets : input.targets = some targets)
    (hFloors : input.askFloors = some askFloors)
    (hQuote :
      quotable input targets slot =
        some (target, validUntil)) :
    (∃ o, slotOrders input.now slot (afterPlan input) = [o] ∧
      (AtTarget target o ∨
        ∃ keep,
          KeptAsWas input askFloors slot target o keep)) ∨
      validUntil ≤ input.now ∧
        slotOrders input.now slot (afterPlan input) = [] := by
  have hUnits := (quotable_eq_some hQuote).2
  have hPlaced :
      ∀ reason protective,
        (∃ o,
          slotOrders input.now slot
              [(placeAction input slot target validUntil
                reason protective).booked] = [o] ∧
            (AtTarget target o ∨
              ∃ keep,
                KeptAsWas input askFloors slot target o
                  keep)) ∨
          validUntil ≤ input.now ∧
            slotOrders input.now slot
              [(placeAction input slot target validUntil
                reason protective).booked] = [] := by
    intro reason protective
    rw [slotOrders_booked hUnits]
    split
    · exact .inl ⟨_, rfl, .inl ⟨rfl, rfl, rfl⟩⟩
    · next hStale => exact .inr ⟨not_lt.mp hStale, rfl⟩
  rw [slotOrders_afterPlan,
    slotOrders_opened hTargets hFloors]
  cases hOrders : newestFirst input slot with
  | nil =>
      have hNone :
          input.orders.flatMap
              (fun o =>
                slotOrders input.now slot
                  (fate input.now (planSeriesActions input)
                    (bookOrder o))) = [] := by
        apply List.flatMap_eq_nil_iff.mpr
        intro o ho
        apply slotOrders_fate_outside ho
        rw [hOrders]
        exact List.not_mem_nil
      unfold planSlot
      rw [hNone, hOrders, hQuote]
      exact hPlaced _ _
  | cons keep extra =>
      have hKeep : keep ∈ newestFirst input slot := by
        rw [hOrders]
        exact List.mem_cons_self
      rcases mem_newestFirst_iff.mp hKeep with
        ⟨hIn, hLive, hKind⟩
      let kept :=
        planKept input askFloors slot keep target validUntil
      have hSlot :
          planSlot input targets askFloors slot =
            { kept with
              cancels :=
                extra.map (fun o =>
                  ({ id := o.id
                     reason :=
                       s!"extra {slotText slot} {o.id}"
                     protective := true } : PendingCancel)) ++
                  kept.cancels } := by
        unfold planSlot
        rw [hOrders, hQuote]
      have hCases :
          KeptPlan input askFloors slot keep target
            validUntil kept :=
        planKept_cases input askFloors slot keep target
          validUntil
      rw [slotOrders_kept hIds hTargets hFloors hOrders]
      clear_value kept
      cases hCases with
      | replaced reason protective reason' protective' =>
          have hCancel :
              (⟨keep.id, reason, protective⟩ :
                PendingCancel) ∈
                (planSlot input targets askFloors
                  slot).cancels := by
            rw [hSlot]
            exact
              List.mem_append_right _
                (List.mem_singleton.mpr rfl)
          rcases
            cancel_mem_plan hTargets hFloors
              (.inr ⟨slot, hCancel⟩) with
            ⟨a, hMem, hIn⟩
          rw [slotOrders_fate_cancelled (plan_nodup hIds)
            hMem hIn rfl, hSlot]
          exact hPlaced _ _
      | moved a hId hPrice hUnits =>
          have hMem :
              MmAction.replace a ∈
                planSeriesActions input := by
            have hHere :
                a ∈ (planSlot input targets askFloors
                  slot).replaces := by
              rw [hSlot]
              exact List.mem_singleton.mpr rfl
            exact replace_mem_plan hTargets hFloors hHere
          have hPos : 0 < a.units := by
            rw [hUnits]
            exact (quotable_eq_some hQuote).2
          have hMoved :=
            slotOrders_fate_replaced (o := bookOrder keep)
              (plan_nodup hIds) hMem
              (congrArg some hId.symm) hLive hKind hPos
          rw [hMoved, hSlot]
          exact .inl ⟨_, rfl, .inl ⟨hPrice, hUnits, rfl⟩⟩
      | kept hBounds =>
          have hTouched :
              (planSlot input targets askFloors
                  slot).touched =
                extra.map (fun o => o.id) := by
            rw [hSlot]
            unfold SlotPlan.touched
            simp
          have hFree :=
            keep_untouched hIds hTargets hFloors hOrders
              hTouched
          have hKept :=
            slotOrders_fate_untouched (o := bookOrder keep)
              rfl hFree hLive hKind
          rw [hKept, hSlot]
          refine .inl ⟨_, rfl, .inr ⟨keep, ?_⟩⟩
          exact
            { order := hIn
              live := hLive
              kind := hKind
              newest := fun other ho hoLive hoKind =>
                le_keep hOrders other
                  (mem_newestFirst_iff.mpr
                    ⟨ho, hoLive, hoKind⟩)
              same := rfl
              untouched := hFree
              bounds := hBounds }

theorem quotable_of_quoted
    (hTarget : targets slot = some target)
    (hUnits : 0 < target.units)
    (hUntil : input.validUntil slot = some validUntil) :
    quotable input targets slot =
      some (target, validUntil) := by
  unfold quotable
  rw [hTarget, hUntil]
  exact if_neg (not_le.mpr hUnits)

/- A halted series, or one without floors, is left empty. -/
theorem slotOrders_pulled
    (hIds : DistinctOrders input)
    (halted : String)
    (hPlan :
      planSeriesActions input = pullSeries input halted)
    (slot : Slot) :
    slotOrders input.now slot (afterPlan input) = [] := by
  have hOpened :
      (planSeriesActions input).flatMap opened = [] := by
    rw [hPlan]
    unfold pullSeries
    simp only
    split <;> rfl
  rw [slotOrders_afterPlan, hOpened, slotOrders,
    List.filter_nil, List.append_nil]
  apply List.flatMap_eq_nil_iff.mpr
  intro o ho
  cases hLive : isLiveOrder o input.now with
  | false => exact slotOrders_fate_dead hLive
  | true =>
      have hNamed :
          o.id ∈ planTouched (planSeriesActions input) := by
        rw [hPlan, pullSeries_touched]
        apply List.mem_append_right
        exact
          List.mem_map_of_mem
            (List.mem_filter.mpr ⟨ho, hLive⟩)
      rcases List.mem_flatMap.mp hNamed with
        ⟨action, hMem, hIn⟩
      rcases pullSeries_cancels (hPlan ▸ hMem) with ⟨a, rfl⟩
      exact
        slotOrders_fate_cancelled (plan_nodup hIds) hMem hIn
          rfl

/- Expired escrow is taken back, halted or not. -/
theorem reclaimable_cancelled
    (ho : o ∈ input.orders)
    (hOld : isReclaimable o input.now = true) :
    ∃ a, MmAction.cancel a ∈ planSeriesActions input ∧
      o.id ∈ a.orderIds := by
  have hReclaim : o ∈ input.reclaim :=
    List.mem_filter.mpr ⟨ho, hOld⟩
  have hPulled :
      ∀ halted,
        planSeriesActions input = pullSeries input halted →
          ∃ a,
            MmAction.cancel a ∈ planSeriesActions input ∧
              o.id ∈ a.orderIds := by
    intro halted hPlan
    have hNamed :
        o.id ∈ planTouched (planSeriesActions input) := by
      rw [hPlan, pullSeries_touched]
      exact
        List.mem_append_left _
          (List.mem_map_of_mem hReclaim)
    rcases List.mem_flatMap.mp hNamed with
      ⟨action, hMem, hIn⟩
    rcases pullSeries_cancels (hPlan ▸ hMem) with ⟨a, rfl⟩
    exact ⟨a, hMem, hIn⟩
  cases hTargets : input.targets with
  | none =>
      apply hPulled (input.haltReason.getD "halted")
      unfold planSeriesActions
      rw [hTargets]
  | some targets =>
      cases hFloors : input.askFloors with
      | none =>
          apply hPulled "ask floors unread"
          unfold planSeriesActions
          rw [hTargets, hFloors]
      | some askFloors =>
          rcases
            List.mem_map.mp
              (reclaimCancels_ids input ▸
                List.mem_map_of_mem
                  (f := fun o : LiveOrder => o.id)
                  hReclaim) with
            ⟨c, hc, hId⟩
          rw [← hId]
          exact cancel_mem_plan hTargets hFloors (.inl hc)

/-
  What planSeriesActions promises of one series.  Only
  `quoted` and `stale` tell a validUntil in the future from
  one that is not: the tick never plans the second.
-/
structure Reaches
    (input : SeriesActionInput) : Prop where
  once : (planTouched (planSeriesActions input)).Nodup
  own :
    ∀ id ∈ planTouched (planSeriesActions input),
      ∃ o ∈ input.orders, o.id = id ∧
        (isLiveOrder o input.now = true ∨
          isReclaimable o input.now = true)
  reclaimed :
    ∀ o ∈ input.orders,
      isReclaimable o input.now = true →
        ∃ a, MmAction.cancel a ∈ planSeriesActions input ∧
          o.id ∈ a.orderIds
  pulled :
    input.targets = none ∨ input.askFloors = none →
      ∀ slot,
        slotOrders input.now slot (afterPlan input) = []
  idle :
    ∀ targets, input.targets = some targets →
      ∀ slot, Idle input targets slot →
        slotOrders input.now slot (afterPlan input) = []
  quoted :
    ∀ targets askFloors, input.targets = some targets →
      input.askFloors = some askFloors →
        ∀ slot target validUntil,
          targets slot = some target → 0 < target.units →
          input.validUntil slot = some validUntil →
          input.now < validUntil →
            ∃ o,
              slotOrders input.now slot
                  (afterPlan input) = [o] ∧
                (AtTarget target o ∨
                  ∃ keep,
                    KeptAsWas input askFloors slot target o
                      keep)
  stale :
    ∀ targets askFloors, input.targets = some targets →
      input.askFloors = some askFloors →
        ∀ slot target validUntil,
          targets slot = some target → 0 < target.units →
          input.validUntil slot = some validUntil →
          validUntil ≤ input.now →
            slotOrders input.now slot (afterPlan input) =
                [] ∨
              ∃ o,
                slotOrders input.now slot
                    (afterPlan input) = [o] ∧
                  (AtTarget target o ∨
                    ∃ keep,
                      KeptAsWas input askFloors slot target
                        o keep)
  stamped :
    StampedAtHead input →
      ∀ slot,
        (∀ validUntil,
          input.validUntil slot = some validUntil →
            validUntil ≤ input.now) →
          slotOrders input.now slot (afterPlan input) = []

theorem named_live_or_reclaimable
    {id : Int}
    (h : id ∈ planTouched (planSeriesActions input)) :
    ∃ o ∈ input.orders, o.id = id ∧
      (isLiveOrder o input.now = true ∨
        isReclaimable o input.now = true) := by
  have hNames := (planSeriesActions_names input).subset h
  rcases List.mem_append.mp hNames with hOld | hLive
  · rcases List.mem_map.mp hOld with ⟨o, ho, hId⟩
    rcases List.mem_filter.mp ho with ⟨ho, hOld⟩
    exact ⟨o, ho, hId, .inr hOld⟩
  · rcases List.mem_map.mp hLive with ⟨o, ho, hId⟩
    rcases List.mem_filter.mp ho with ⟨ho, hLive⟩
    exact ⟨o, ho, hId, .inl hLive⟩

theorem slotOrders_unquoted
    (hIds : DistinctOrders input)
    (h : input.targets = none ∨ input.askFloors = none)
    (slot : Slot) :
    slotOrders input.now slot (afterPlan input) = [] := by
  cases hTargets : input.targets with
  | none =>
      apply
        slotOrders_pulled hIds
          (input.haltReason.getD "halted")
      unfold planSeriesActions
      rw [hTargets]
  | some targets =>
      cases hFloors : input.askFloors with
      | none =>
          apply slotOrders_pulled hIds "ask floors unread"
          unfold planSeriesActions
          rw [hTargets, hFloors]
      | some askFloors =>
          rw [hTargets, hFloors] at h
          rcases h with hNone | hNone
          · cases hNone
          · cases hNone

theorem slotOrders_idle
    (hIds : DistinctOrders input)
    (hTargets : input.targets = some targets)
    (hIdle : Idle input targets slot) :
    slotOrders input.now slot (afterPlan input) = [] := by
  cases hFloors : input.askFloors with
  | none => exact slotOrders_unquoted hIds (.inr hFloors) slot
  | some askFloors =>
      exact slotOrders_idle_quoted hIds hTargets hFloors hIdle

/- The plan of a series names each order once, and reaches. -/
theorem planSeriesActions_reaches
    (input : SeriesActionInput)
    (hIds : DistinctOrders input) :
    Reaches input := by
  constructor
  · exact plan_nodup hIds
  · exact fun id h => named_live_or_reclaimable h
  · exact fun o ho hOld => reclaimable_cancelled ho hOld
  · exact fun h slot => slotOrders_unquoted hIds h slot
  · exact fun targets hTargets slot hIdle =>
      slotOrders_idle hIds hTargets hIdle
  · intro targets askFloors hTargets hFloors slot target
      validUntil hTarget hUnits hUntil hFuture
    rcases
      slotOrders_quoted hIds hTargets hFloors
        (quotable_of_quoted hTarget hUnits hUntil) with
      hOne | hStale
    · exact hOne
    · exact absurd hFuture (not_lt.mpr hStale.1)
  · intro targets askFloors hTargets hFloors slot target
      validUntil hTarget hUnits hUntil _
    rcases
      slotOrders_quoted hIds hTargets hFloors
        (quotable_of_quoted hTarget hUnits hUntil) with
      hOne | hStale
    · exact .inr hOne
    · exact .inl hStale.2
  · intro hStamp slot hPast
    have hNone : input.validUntil slot = none := by
      rcases hStamp with ⟨life, hLife⟩
      cases hUntil : input.validUntil slot with
      | none => rfl
      | some validUntil =>
          have hLater := hPast validUntil hUntil
          rw [hLife] at hUntil
          have hFuture := now_lt_of_validUntilAt hUntil
          exact absurd hFuture (not_lt.mpr hLater)
    cases hTargets : input.targets with
    | none =>
        exact slotOrders_unquoted hIds (.inl hTargets) slot
    | some targets =>
        exact slotOrders_idle hIds hTargets (.inr (.inr hNone))

/-
  Two bids, an ask under its floor, an expired resale that
  still holds escrow, and an order filled long ago.
-/
def busySeries : SeriesActionInput :=
  { longId := 7
    now := 1000
    orders :=
      [⟨1, .Bid, 50, 10, 0, 5000, false⟩,
        ⟨2, .Bid, 60, 10, 4, 5000, false⟩,
        ⟨3, .AskWrite, 70, 10, 0, 5000, false⟩,
        ⟨4, .AskResale, 90, 10, 3, 900, false⟩,
        ⟨5, .AskWrite, 95, 10, 10, 5000, false⟩]
    targets :=
      some (fun slot =>
        match slot with
        | .bid => some ⟨60, 6⟩
        | .write => some ⟨100, 20⟩
        | .resale => none)
    haltReason := none
    validUntil := fun _ => some 9000
    life := fun _ => none
    askFloors := some ⟨80, 80⟩
    bidCap := 65
    refreshS := 300
    replaceMarginS := none
    params := ⟨100, 2000⟩
    safeFloor := none }

theorem busySeries_reaches : Reaches busySeries :=
  planSeriesActions_reaches busySeries (by
    unfold DistinctOrders
    decide)

example :
    (slotOrders 1000 .bid (afterPlan busySeries)).map
        (fun o => (o.id, o.price, o.units, o.filled)) =
      [(some 2, 60, 10, 4)] := by
  decide

/- A bid at its target, whose next validUntil has passed. -/
def pastStampSeries : SeriesActionInput :=
  { busySeries with
    orders := [⟨1, .Bid, 50, 10, 0, 5000, false⟩]
    targets :=
      some (fun slot =>
        match slot with
        | .bid => some ⟨50, 10⟩
        | _ => none)
    validUntil := fun _ => some 900 }

/- Only a null validUntil empties a slot: the bid stays. -/
theorem past_stamp_keeps_order :
    ¬ (∀ input : SeriesActionInput, DistinctOrders input →
        ∀ slot,
          (∀ validUntil,
            input.validUntil slot = some validUntil →
              validUntil ≤ input.now) →
            slotOrders input.now slot (afterPlan input) =
              []) := by
  intro h
  have hEmpty :=
    h pastStampSeries
      (by
        unfold DistinctOrders
        decide)
      .bid
      (by
        intro validUntil hUntil
        cases hUntil
        decide)
  have hKept :
      (slotOrders 1000 .bid (afterPlan pastStampSeries)).map
          (fun o => (o.id, o.price, o.units)) =
        [(some 1, 50, 10)] := by
    decide
  have hNow : pastStampSeries.now = 1000 := rfl
  rw [hNow] at hEmpty
  rw [hEmpty] at hKept
  cases hKept

end Callhouse.Keeper.Mm
