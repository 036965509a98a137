import Callhouse.Keeper.Mm.Engine
import Callhouse.Lib.Valley
import Mathlib.Algebra.Order.BigOperators.Group.List
import Mathlib.Data.List.Nodup

/-
  What a tick's ordered actions do to the vault's live
  orders, cut anywhere.

  Every unit-freeing action precedes every unit-adding one,
  so the units of a cut stay inside the larger of the start
  and the end.  Bid escrow does not follow units: a
  protective replace may grow, and a routine one may free
  while it grows.

  Main declarations:
    * `execute`, `startBook`
    * `orderActions_prefix_units_le`
    * `orderActions_prefix_escrow_le`
    * `orderActions_over_commits`
-/

----
-- Execution on the Live Book
----

namespace Callhouse.Keeper.Mm

/-
  A live order of the vault.  An order that this tick placed,
  or put in the place of a replaced one, has a chain id the
  plan cannot name.
-/
structure Resting where
  longId : Int
  id : Option Int
  kind : OrderKindName
  price : Int
  units : Int
deriving DecidableEq

def restingOf
    (longId : Int)
    (o : LiveOrder) : Resting :=
  { longId := longId
    id := some o.id
    kind := o.kind
    price := o.price
    units := o.remaining }

/- The live orders before the tick. -/
def startBook
    (inputs : List SeriesActionInput) : List Resting :=
  inputs.flatMap
    (fun input => input.live.map (restingOf input.longId))

/- The order that takes a replaced one's place. -/
def Resting.replacedBy
    (o : Resting)
    (a : ReplaceAction) : Resting :=
  { o with
    id := none
    price := a.price
    units := a.units }

def PlaceAction.resting
    (a : PlaceAction) : Resting :=
  { longId := a.longId
    id := none
    kind := slotKind a.slot
    price := a.price
    units := a.units }

/- Order ids are compared as options: a new order has none. -/
instance orderIdLawfulBEq : LawfulBEq (Option Int) :=
  inferInstance

def execute
    (book : List Resting) : MmAction → List Resting
  | .cancel a =>
      book.filter (fun o => o.id ∉ a.orderIds.map some)
  | .replace a =>
      book.map (fun o =>
        if o.id = some a.orderId then o.replacedBy a else o)
  | .place a => book ++ [a.resting]

def executeAll
    (book : List Resting)
    (actions : List MmAction) : List Resting :=
  actions.foldl execute book

/- A weight summed over the live orders. -/
def total
    (weight : Resting → Int)
    (book : List Resting) : Int :=
  (book.map weight).sum

/- What an order holds of one series in one slot. -/
def slotUnits
    (longId : Int)
    (slot : Slot)
    (o : Resting) : Int :=
  if o.longId = longId ∧ o.kind = slotKind slot then o.units
  else 0

/- What an order escrows: a bid its price times its units. -/
def escrowed
    (o : Resting) : Int :=
  if o.kind = .Bid then o.price * o.units else 0

/- The live units of one series in one slot. -/
def liveUnits
    (longId : Int)
    (slot : Slot)
    (book : List Resting) : Int :=
  total (slotUnits longId slot) book

/- The USDG that the live bids escrow, times 100 units. -/
def bidEscrowTotal
    (book : List Resting) : Int :=
  total escrowed book

/-
  A sum over series of a figure of the series' live bid,
  write and resale units.
-/
def aggregate
    {M : Type}
    [AddCommMonoid M]
    (series : List Int)
    (f : Int → Int → Int → Int → M)
    (book : List Resting) : M :=
  (series.map (fun longId =>
    f longId (liveUnits longId .bid book)
      (liveUnits longId .write book)
      (liveUnits longId .resale book))).sum

----
-- One Action
----

section

variable {weight : Resting → Int} {book : List Resting}

theorem total_cancel_le
    (a : CancelAction)
    (hWeight : ∀ o ∈ book, 0 ≤ weight o) :
    total weight (execute book (.cancel a)) ≤
      total weight book := by
  apply List.Sublist.sum_le_sum
  · exact List.filter_sublist.map weight
  · intro x hx
    rcases List.mem_map.mp hx with ⟨o, ho, rfl⟩
    exact hWeight o ho

theorem total_place
    (a : PlaceAction) :
    total weight (execute book (.place a)) =
      total weight book + weight a.resting := by
  simp [total, execute]

theorem total_replace_le
    (a : ReplaceAction)
    (h :
      ∀ o ∈ book, o.id = some a.orderId →
        weight (o.replacedBy a) ≤ weight o) :
    total weight (execute book (.replace a)) ≤
      total weight book := by
  unfold total execute
  rw [List.map_map]
  apply List.sum_le_sum
  intro o ho
  simp only [Function.comp_apply]
  split
  · next hId => exact h o ho hId
  · exact le_refl _

theorem le_total_replace
    (a : ReplaceAction)
    (h :
      ∀ o ∈ book, o.id = some a.orderId →
        weight o ≤ weight (o.replacedBy a)) :
    total weight book ≤
      total weight (execute book (.replace a)) := by
  unfold total execute
  rw [List.map_map]
  apply List.sum_le_sum
  intro o ho
  simp only [Function.comp_apply]
  split
  · next hId => exact h o ho hId
  · exact le_refl _

end

----
-- The Plan Speaks About the Book
----

section

/- The book still holds what a replace was planned from. -/
def Matches
    (book : List Resting)
    (a : ReplaceAction) : Prop :=
  ∀ o ∈ book, o.id = some a.orderId →
    o.longId = a.longId ∧ o.kind = slotKind a.slot ∧
      o.price = a.fromPrice ∧ o.units = a.fromUnits

/-
  The run invariant: every live order has property `P`, and
  every replace of the list still matches its order.
-/
structure InPlan
    (P : Resting → Prop)
    (actions : List MmAction)
    (book : List Resting) : Prop where
  orders : ∀ o ∈ book, P o
  planned : ∀ a, .replace a ∈ actions → Matches book a

variable {P : Resting → Prop} {actions : List MmAction}
variable {book : List Resting}

/- An order with an id was there before the action. -/
theorem mem_execute_of_id
    {action : MmAction}
    {o : Resting}
    (ho : o ∈ execute book action)
    {id : Int}
    (hId : o.id = some id) : o ∈ book := by
  cases action with
  | cancel a => exact List.mem_of_mem_filter ho
  | replace a =>
      rcases List.mem_map.mp ho with ⟨o', ho', rfl⟩
      split at hId
      · simp [Resting.replacedBy] at hId
      · next hOther =>
          rw [if_neg hOther]
          exact ho'
  | place a =>
      rcases List.mem_append.mp ho with hOld | hNew
      · exact hOld
      · rw [List.mem_singleton] at hNew
        simp [hNew, PlaceAction.resting] at hId

theorem InPlan.execute
    (hPlace : ∀ a, .place a ∈ actions → P a.resting)
    (hReplace :
      ∀ a, .replace a ∈ actions →
        ∀ o, P o → P (o.replacedBy a))
    {action : MmAction}
    (hAction : action ∈ actions)
    (h : InPlan P actions book) :
    InPlan P actions (execute book action) := by
  constructor
  · intro o ho
    cases action with
    | cancel a => exact h.orders o (List.mem_of_mem_filter ho)
    | replace a =>
        rcases List.mem_map.mp ho with ⟨o', ho', rfl⟩
        split
        · exact hReplace a hAction o' (h.orders o' ho')
        · exact h.orders o' ho'
    | place a =>
        rcases List.mem_append.mp ho with hOld | hNew
        · exact h.orders o hOld
        · rw [List.mem_singleton] at hNew
          rw [hNew]
          exact hPlace a hAction
  · intro a ha o ho hId
    exact h.planned a ha o (mem_execute_of_id ho hId) hId

end

----
-- What a Series Plans
----

section

variable {input : SeriesActionInput}

/- A slot the input wants quoted, with its target. -/
def Wanted
    (input : SeriesActionInput)
    (slot : Slot)
    (price units : Int) : Prop :=
  0 < units ∧
    ∃ targets target,
      input.targets = some targets ∧
        targets slot = some target ∧
        target.price = price ∧ target.units = units

variable {slot : Slot} {target : SlotTarget} {validUntil : Int}

theorem quotable_eq_some
    {targets : Slot → Option SlotTarget}
    (h : quotable input targets slot =
      some (target, validUntil)) :
    targets slot = some target ∧ 0 < target.units := by
  unfold quotable at h
  split at h
  · next target' validUntil' hTarget _ =>
      split at h
      · simp at h
      · next hUnits =>
          simp only [Option.some.injEq, Prod.mk.injEq] at h
          rcases h with ⟨rfl, _⟩
          exact ⟨hTarget, not_le.mp hUnits⟩
  · simp at h

theorem mem_newestFirst
    {o : LiveOrder}
    (h : o ∈ newestFirst input slot) :
    o ∈ input.live ∧ o.kind = slotKind slot := by
  unfold newestFirst at h
  rw [List.mem_insertionSort, List.mem_filter] at h
  exact ⟨h.1, by simpa using h.2⟩

/- A replace keeps the order's identity and states where it was. -/
structure ReplaceOf
    (input : SeriesActionInput)
    (a : ReplaceAction)
    (o : LiveOrder) : Prop where
  live : o ∈ input.live
  orderId : a.orderId = o.id
  longId : a.longId = input.longId
  kind : o.kind = slotKind a.slot
  fromPrice : a.fromPrice = o.price
  fromUnits : a.fromUnits = o.remaining
  wanted : Wanted input a.slot a.price a.units

structure PlaceFor
    (input : SeriesActionInput)
    (a : PlaceAction) : Prop where
  longId : a.longId = input.longId
  wanted : Wanted input a.slot a.price a.units

theorem planKept_replaces
    {askFloors : AskFloors}
    {keep : LiveOrder}
    {a : ReplaceAction}
    (hKeep : keep ∈ newestFirst input slot)
    (hWanted : Wanted input slot target.price target.units)
    (ha :
      a ∈ (planKept input askFloors slot keep target
        validUntil).replaces) :
    ReplaceOf input a keep := by
  rcases mem_newestFirst hKeep with ⟨hLive, hKind⟩
  unfold planKept at ha
  simp only at ha
  split at ha
  · simp at ha
  · split at ha
    · simp at ha
    · split at ha
      · rw [List.mem_singleton] at ha
        subst ha
        exact ⟨hLive, rfl, rfl, hKind, rfl, rfl, hWanted⟩
      · simp at ha

theorem planKept_places
    {askFloors : AskFloors}
    {keep : LiveOrder}
    {a : PlaceAction}
    (hWanted : Wanted input slot target.price target.units)
    (ha :
      a ∈ (planKept input askFloors slot keep target
        validUntil).places) :
    PlaceFor input a := by
  unfold planKept at ha
  simp only at ha
  split at ha
  · rw [List.mem_singleton] at ha
    subst ha
    exact ⟨rfl, hWanted⟩
  · split at ha
    · rw [List.mem_singleton] at ha
      subst ha
      exact ⟨rfl, hWanted⟩
    · split at ha <;> simp at ha

theorem planSlot_spec
    {targets : Slot → Option SlotTarget}
    (askFloors : AskFloors)
    (slot : Slot)
    (hTargets : input.targets = some targets) :
    (∀ a ∈ (planSlot input targets askFloors slot).replaces,
        ∃ o, ReplaceOf input a o) ∧
      ∀ a ∈ (planSlot input targets askFloors slot).places,
        PlaceFor input a := by
  have hWanted :
      ∀ target validUntil,
        quotable input targets slot =
            some (target, validUntil) →
          Wanted input slot target.price target.units := by
    intro target validUntil h
    rcases quotable_eq_some h with ⟨hTarget, hUnits⟩
    exact ⟨hUnits, targets, target, hTargets, hTarget, rfl, rfl⟩
  unfold planSlot
  cases hOrders : newestFirst input slot with
  | nil =>
      cases hQuote : quotable input targets slot with
      | none => simp
      | some quote =>
          refine ⟨by simp, ?_⟩
          intro a ha
          rw [List.mem_singleton] at ha
          subst ha
          exact ⟨rfl, hWanted _ _ hQuote⟩
  | cons keep extra =>
      have hKeep : keep ∈ newestFirst input slot := by
        rw [hOrders]
        exact List.mem_cons_self ..
      cases hQuote : quotable input targets slot with
      | none => simp
      | some quote =>
          constructor
          · intro a ha
            exact ⟨keep, planKept_replaces hKeep
              (hWanted _ _ hQuote) ha⟩
          · intro a ha
            exact planKept_places (hWanted _ _ hQuote) ha

variable {action : MmAction}

theorem pullSeries_cancels
    {halted : String}
    (h : action ∈ pullSeries input halted) :
    ∃ a, action = .cancel a := by
  unfold pullSeries at h
  simp only at h
  split at h
  · simp at h
  · exact ⟨_, List.mem_singleton.mp h⟩

theorem cancelAction_cancels
    {cancels : List PendingCancel}
    {protective : Bool}
    (h : action ∈ cancelAction input cancels protective) :
    ∃ a, action = .cancel a := by
  unfold cancelAction at h
  simp only at h
  split at h
  · simp at h
  · exact ⟨_, List.mem_singleton.mp h⟩

/- Where each action of a series comes from. -/
def Planned
    (input : SeriesActionInput) : MmAction → Prop
  | .cancel _ => True
  | .replace a => ∃ o, ReplaceOf input a o
  | .place a => PlaceFor input a

theorem planSeriesActions_planned
    (h : action ∈ planSeriesActions input) :
    Planned input action := by
  unfold planSeriesActions at h
  split at h
  · rcases pullSeries_cancels h with ⟨a, rfl⟩
    trivial
  · rcases pullSeries_cancels h with ⟨a, rfl⟩
    trivial
  · next targets askFloors hTargets _ =>
      simp only [List.mem_append, List.mem_map,
        List.mem_flatMap] at h
      rcases h with ((hCancel | hCancel) | hReplace) | hPlace
      · rcases cancelAction_cancels hCancel with ⟨a, rfl⟩
        trivial
      · rcases cancelAction_cancels hCancel with ⟨a, rfl⟩
        trivial
      · rcases hReplace with
          ⟨a, ⟨plan, ⟨slot, _, rfl⟩, ha⟩, rfl⟩
        exact (planSlot_spec askFloors slot hTargets).1 a ha
      · rcases hPlace with
          ⟨a, ⟨plan, ⟨slot, _, rfl⟩, ha⟩, rfl⟩
        exact (planSlot_spec askFloors slot hTargets).2 a ha

end

----
-- A Whole Tick
----

section

/- Every series' actions, in execution order. -/
def tickActions
    (inputs : List SeriesActionInput) : List MmAction :=
  orderActions (inputs.map planSeriesActions)

/- Every known order of the vault, with its series. -/
def vaultOrders
    (inputs : List SeriesActionInput) :
    List (Int × LiveOrder) :=
  inputs.flatMap (fun input =>
    input.orders.map (fun o => (input.longId, o)))

/- The chain gives every order its own id. -/
def DistinctIds
    (inputs : List SeriesActionInput) : Prop :=
  ((vaultOrders inputs).map (fun entry => entry.2.id)).Nodup

instance
    (inputs : List SeriesActionInput) :
    Decidable (DistinctIds inputs) :=
  inferInstanceAs (Decidable (List.Nodup _))

variable {inputs : List SeriesActionInput}

theorem mem_of_mem_orderActions
    {perSeries : List (List MmAction)}
    {action : MmAction}
    (h : action ∈ orderActions perSeries) :
    action ∈ perSeries.flatten := by
  have hCancel :
      ∀ a, a ∈ perSeries.flatten.filterMap cancelOf? →
        .cancel a ∈ perSeries.flatten := by
    intro a ha
    rcases List.mem_filterMap.mp ha with ⟨b, hb, hEq⟩
    cases b <;> simp_all [cancelOf?]
  have hReplace :
      ∀ a, a ∈ perSeries.flatten.filterMap replaceOf? →
        .replace a ∈ perSeries.flatten := by
    intro a ha
    rcases List.mem_filterMap.mp ha with ⟨b, hb, hEq⟩
    cases b <;> simp_all [replaceOf?]
  have hPlace :
      ∀ a, a ∈ perSeries.flatten.filterMap placeOf? →
        .place a ∈ perSeries.flatten := by
    intro a ha
    rcases List.mem_filterMap.mp ha with ⟨b, hb, hEq⟩
    cases b <;> simp_all [placeOf?]
  unfold orderActions shrinkFirst at h
  simp only [List.mem_append, List.mem_map,
    List.mem_filter] at h
  rcases h with
    ((((⟨a, ha, rfl⟩ | ⟨a, ha, rfl⟩) | ⟨a, ha, rfl⟩) |
      ⟨a, ha, rfl⟩) | ⟨a, ha, rfl⟩) | ⟨a, ha, rfl⟩
  · exact hCancel a ha
  · rcases ha with ⟨⟨ha, _⟩, _⟩ | ⟨⟨ha, _⟩, _⟩ <;>
      exact hReplace a ha
  · exact hPlace a ha.1
  · exact hReplace a ha.1
  · exact hPlace a ha.1
  · rcases ha with ⟨⟨ha, _⟩, _⟩ | ⟨⟨ha, _⟩, _⟩ <;>
      exact hReplace a ha

theorem tickActions_planned
    {action : MmAction}
    (h : action ∈ tickActions inputs) :
    ∃ input ∈ inputs, Planned input action := by
  have hFlat := mem_of_mem_orderActions h
  rcases List.mem_flatten.mp hFlat with ⟨l, hl, ha⟩
  rcases List.mem_map.mp hl with ⟨input, hInput, rfl⟩
  exact ⟨input, hInput, planSeriesActions_planned ha⟩

theorem mem_vaultOrders_of_live
    {input : SeriesActionInput}
    {o : LiveOrder}
    (hInput : input ∈ inputs)
    (hLive : o ∈ input.live) :
    (input.longId, o) ∈ vaultOrders inputs := by
  apply List.mem_flatMap.mpr
  refine ⟨input, hInput, ?_⟩
  exact List.mem_map.mpr
    ⟨o, List.mem_of_mem_filter hLive, rfl⟩

theorem mem_startBook
    {o : Resting}
    (h : o ∈ startBook inputs) :
    ∃ input ∈ inputs, ∃ live ∈ input.live,
      o = restingOf input.longId live := by
  rcases List.mem_flatMap.mp h with ⟨input, hInput, ho⟩
  rcases List.mem_map.mp ho with ⟨live, hLive, rfl⟩
  exact ⟨input, hInput, live, hLive, rfl⟩

/- A replace starts from the very order it names. -/
theorem startBook_matches
    (hIds : DistinctIds inputs)
    {a : ReplaceAction}
    (ha : .replace a ∈ tickActions inputs) :
    Matches (startBook inputs) a := by
  rcases tickActions_planned ha with
    ⟨input, hInput, o, hOf⟩
  intro o' ho' hId
  rcases mem_startBook ho' with
    ⟨input', hInput', live, hLive, rfl⟩
  have hSame : (input'.longId, live) = (input.longId, o) := by
    apply List.inj_on_of_nodup_map hIds
      (mem_vaultOrders_of_live hInput' hLive)
      (mem_vaultOrders_of_live hInput hOf.live)
    have hLiveId : live.id = a.orderId := Option.some.inj hId
    exact hLiveId.trans hOf.orderId
  rw [Prod.mk.injEq] at hSame
  rcases hSame with ⟨hLong, rfl⟩
  exact ⟨hLong.trans hOf.longId.symm, hOf.kind,
    hOf.fromPrice.symm, hOf.fromUnits.symm⟩

theorem live_remaining_pos
    {input : SeriesActionInput}
    {o : LiveOrder}
    (h : o ∈ input.live) :
    0 < o.remaining := by
  have hLive := List.of_mem_filter h
  unfold isLiveOrder at hLive
  simp only [Bool.and_eq_true, decide_eq_true_eq] at hLive
  unfold LiveOrder.remaining
  omega

end

----
-- Units
----

section

variable {inputs : List SeriesActionInput}

/- The actions that free units, or hold them. -/
def freeing
    (perSeries : List (List MmAction)) : List MmAction :=
  let flat := perSeries.flatten
  let replaces := flat.filterMap replaceOf?
  (flat.filterMap cancelOf?).map .cancel ++
    ((replaces.filter (fun a => a.early)).filter
      (fun a => a.shrinks)).map .replace

/- The actions that add units, or hold them. -/
def adding
    (perSeries : List (List MmAction)) : List MmAction :=
  let flat := perSeries.flatten
  let replaces := flat.filterMap replaceOf?
  let places := flat.filterMap placeOf?
  ((replaces.filter (fun a => a.early)).filter
      (fun a => !a.shrinks)).map .replace ++
    (places.filter (fun a => !a.isBid)).map .place ++
    (replaces.filter (fun a => a.escrowOnly)).map .replace ++
    (places.filter (fun a => a.isBid)).map .place ++
    (shrinkFirst
      (replaces.filter
        (fun a => !a.early && !a.escrowOnly))).map .replace

theorem orderActions_eq
    (perSeries : List (List MmAction)) :
    orderActions perSeries =
      freeing perSeries ++ adding perSeries := by
  simp [orderActions, freeing, adding, shrinkFirst]

/- Which way an action may move units. -/
def ShrinksUnits : MmAction → Prop
  | .cancel _ => True
  | .replace a => a.units ≤ a.fromUnits
  | .place _ => False

def GrowsUnits : MmAction → Prop
  | .cancel _ => False
  | .replace a => a.fromUnits ≤ a.units
  | .place _ => True

variable {action : MmAction} {perSeries : List (List MmAction)}

theorem shrinksUnits_of_mem_freeing
    (h : action ∈ freeing perSeries) :
    ShrinksUnits action := by
  simp only [freeing, List.mem_append, List.mem_map,
    List.mem_filter] at h
  rcases h with ⟨a, _, rfl⟩ | ⟨a, ⟨_, hShrinks⟩, rfl⟩
  · trivial
  · have hUnits : a.units ≤ a.fromUnits := by
      simpa [ReplaceAction.shrinks] using hShrinks
    exact hUnits

theorem le_units_of_not_early
    {a : ReplaceAction}
    (h : a.early = false) :
    a.protective = false ∧ a.fromUnits ≤ a.units := by
  simpa [ReplaceAction.early] using h

theorem growsUnits_of_mem_adding
    (h : action ∈ adding perSeries) :
    GrowsUnits action := by
  simp only [adding, shrinkFirst, List.mem_append,
    List.mem_map, List.mem_filter] at h
  rcases h with
    (((⟨a, ⟨_, hGrows⟩, rfl⟩ | ⟨a, _, rfl⟩) |
      ⟨a, ⟨_, hEscrow⟩, rfl⟩) | ⟨a, _, rfl⟩) |
      ⟨a, hLate, rfl⟩
  · simp only [ReplaceAction.shrinks, Bool.not_eq_true',
      decide_eq_false_iff_not, not_le] at hGrows
    exact hGrows.le
  · trivial
  · simp only [ReplaceAction.escrowOnly, Bool.and_eq_true,
      Bool.not_eq_true', decide_eq_true_eq] at hEscrow
    exact (le_units_of_not_early hEscrow.1.1.1).2
  · trivial
  · have hNotEarly : a.early = false := by
      rcases hLate with ⟨⟨_, h⟩, _⟩ | ⟨⟨_, h⟩, _⟩
      · simp only [Bool.and_eq_true, Bool.not_eq_true'] at h
        exact h.1
      · simp only [Bool.and_eq_true, Bool.not_eq_true'] at h
        exact h.1
    exact (le_units_of_not_early hNotEarly).2

def HasUnits
    (o : Resting) : Prop :=
  0 ≤ o.units

/- The units invariant holds before the tick, and is kept. -/
theorem startBook_inPlan_units
    (hIds : DistinctIds inputs) :
    InPlan HasUnits (tickActions inputs)
      (startBook inputs) := by
  constructor
  · intro o ho
    rcases mem_startBook ho with ⟨_, _, live, hLive, rfl⟩
    exact (live_remaining_pos hLive).le
  · intro a ha
    exact startBook_matches hIds ha

theorem execute_inPlan_units
    {book : List Resting}
    (hAction : action ∈ tickActions inputs)
    (h : InPlan HasUnits (tickActions inputs) book) :
    InPlan HasUnits (tickActions inputs)
      (execute book action) := by
  refine h.execute ?_ ?_ hAction
  · intro a ha
    rcases tickActions_planned ha with ⟨_, _, hPlace⟩
    exact hPlace.wanted.1.le
  · intro a ha o _
    rcases tickActions_planned ha with ⟨_, _, _, hOf⟩
    exact hOf.wanted.1.le

theorem slotUnits_nonneg
    (longId : Int)
    (slot : Slot)
    {o : Resting}
    (h : 0 ≤ o.units) :
    0 ≤ slotUnits longId slot o := by
  unfold slotUnits
  split
  · exact h
  · exact le_refl 0

/- Orders of one place compare as their units do. -/
theorem slotUnits_le
    (longId : Int)
    (slot : Slot)
    {o o' : Resting}
    (hLong : o.longId = o'.longId)
    (hKind : o.kind = o'.kind)
    (h : o.units ≤ o'.units) :
    slotUnits longId slot o ≤ slotUnits longId slot o' := by
  unfold slotUnits
  rw [hLong, hKind]
  split
  · exact h
  · exact le_refl 0

theorem liveUnits_execute_le
    {book : List Resting}
    (longId : Int)
    (slot : Slot)
    (hAction : action ∈ tickActions inputs)
    (h : InPlan HasUnits (tickActions inputs) book)
    (hShrinks : ShrinksUnits action) :
    liveUnits longId slot (execute book action) ≤
      liveUnits longId slot book := by
  cases action with
  | cancel a =>
      apply total_cancel_le
      intro o ho
      exact slotUnits_nonneg longId slot (h.orders o ho)
  | replace a =>
      apply total_replace_le
      intro o ho hId
      have hFrom := (h.planned a hAction o ho hId).2.2.2
      have hUnits : (o.replacedBy a).units ≤ o.units := by
        rw [hFrom]
        exact hShrinks
      exact slotUnits_le longId slot rfl rfl hUnits
  | place a => exact hShrinks.elim

theorem le_liveUnits_execute
    {book : List Resting}
    (longId : Int)
    (slot : Slot)
    (hAction : action ∈ tickActions inputs)
    (h : InPlan HasUnits (tickActions inputs) book)
    (hGrows : GrowsUnits action) :
    liveUnits longId slot book ≤
      liveUnits longId slot (execute book action) := by
  cases action with
  | cancel a => exact hGrows.elim
  | replace a =>
      apply le_total_replace
      intro o ho hId
      have hFrom := (h.planned a hAction o ho hId).2.2.2
      have hUnits : o.units ≤ (o.replacedBy a).units := by
        rw [hFrom]
        exact hGrows
      exact slotUnits_le longId slot rfl rfl hUnits
  | place a =>
      rcases tickActions_planned hAction with
        ⟨_, _, hPlace⟩
      have hUnits : 0 ≤ a.resting.units := hPlace.wanted.1.le
      unfold liveUnits
      rw [total_place]
      have hPlaced := slotUnits_nonneg longId slot hUnits
      omega

theorem aggregate_mono
    {M : Type}
    [AddCommMonoid M]
    [PartialOrder M]
    [IsOrderedAddMonoid M]
    (series : List Int)
    (f : Int → Int → Int → Int → M)
    (hf :
      ∀ longId b b' w w' r r', b ≤ b' → w ≤ w' → r ≤ r' →
        f longId b w r ≤ f longId b' w' r')
    {book book' : List Resting}
    (h :
      ∀ longId slot,
        liveUnits longId slot book ≤
          liveUnits longId slot book') :
    aggregate series f book ≤ aggregate series f book' := by
  apply List.sum_le_sum
  intro longId _
  exact hf longId _ _ _ _ _ _ (h longId .bid)
    (h longId .write) (h longId .resale)

/-
  However the send budget cuts a tick, a figure that grows
  with the live units stays inside the larger of the start
  and the end of the tick.
-/
theorem orderActions_prefix_units_le
    {M : Type}
    [AddCommMonoid M]
    [LinearOrder M]
    [IsOrderedAddMonoid M]
    (inputs : List SeriesActionInput)
    (hIds : DistinctIds inputs)
    (series : List Int)
    (f : Int → Int → Int → Int → M)
    (hf :
      ∀ longId b b' w w' r r', b ≤ b' → w ≤ w' → r ≤ r' →
        f longId b w r ≤ f longId b' w' r')
    (done : List MmAction)
    (hDone : done <+: tickActions inputs) :
    aggregate series f
        (executeAll (startBook inputs) done) ≤
      max (aggregate series f (startBook inputs))
        (aggregate series f
          (executeAll (startBook inputs)
            (tickActions inputs))) := by
  have hSplit :
      tickActions inputs =
        freeing (inputs.map planSeriesActions) ++
          adding (inputs.map planSeriesActions) :=
    orderActions_eq _
  rw [hSplit] at hDone
  have hStart := startBook_inPlan_units hIds
  have hValley :=
    Valley.prefix_le_max execute
      (InPlan HasUnits (tickActions inputs))
      (aggregate series f)
      (freeing (inputs.map planSeriesActions))
      (adding (inputs.map planSeriesActions))
      hDone ?keep ?fall ?rise hStart
  · rw [← hSplit] at hValley
    exact hValley
  case keep =>
    intro book action hAction h
    rw [← hSplit] at hAction
    exact execute_inPlan_units hAction h
  case fall =>
    intro book action hAction _ h
    apply aggregate_mono series f hf
    intro longId slot
    apply liveUnits_execute_le longId slot _ h
      (shrinksUnits_of_mem_freeing hAction)
    rw [hSplit]
    exact List.mem_append_left _ hAction
  case rise =>
    intro book action hAction h
    apply aggregate_mono series f hf
    intro longId slot
    apply le_liveUnits_execute longId slot _ h
      (growsUnits_of_mem_adding hAction)
    rw [hSplit]
    exact List.mem_append_right _ hAction

/- A series with one live bid and a new target for it. -/
def bidInput
    (longId : Int)
    (order : LiveOrder)
    (target : SlotTarget)
    (bidCap : Int) : SeriesActionInput :=
  { longId := longId
    now := 0
    orders := [order]
    targets := some (fun slot =>
      if slot = .bid then some target else none)
    haltReason := none
    validUntil := fun _ => some 100000
    life := fun _ => none
    askFloors := some { write := 0, resale := 0 }
    bidCap := bidCap
    refreshS := 300
    replaceMarginS := none
    params := { requoteBps := 100, resizeBps := 2500 }
    safeFloor := none }

def bidOrder
    (id price units filled : Int) : LiveOrder :=
  { id := id
    kind := .Bid
    price := price
    units := units
    filled := filled
    validUntil := 100000
    cancelled := false }

/-
  Series 1 holds three units left of a bid above its cap, and
  is replaced to ten; series 2 is requoted downwards.
-/
def capBrokenTick : List SeriesActionInput :=
  [bidInput 1 (bidOrder 1 1000 10 7) ⟨900, 10⟩ 900,
    bidInput 2 (bidOrder 2 1000 10 0) ⟨800, 10⟩ 5000]

theorem capBrokenTick_cut_units_le :
    aggregate [1, 2] (fun _ b w r => b + w + r)
        (executeAll (startBook capBrokenTick)
          ((tickActions capBrokenTick).take 1)) ≤
      max
        (aggregate [1, 2] (fun _ b w r => b + w + r)
          (startBook capBrokenTick))
        (aggregate [1, 2] (fun _ b w r => b + w + r)
          (executeAll (startBook capBrokenTick)
            (tickActions capBrokenTick))) := by
  have hIds : DistinctIds capBrokenTick := by decide
  apply orderActions_prefix_units_le capBrokenTick hIds
  · intro longId b b' w w' r r' hb hw hr
    exact add_le_add (add_le_add hb hw) hr
  · exact List.take_prefix 1 _

end

----
-- Bid Escrow
----

/- The actions before the bid places, and from them on. -/
def beforeBids
    (perSeries : List (List MmAction)) : List MmAction :=
  let flat := perSeries.flatten
  let replaces := flat.filterMap replaceOf?
  let places := flat.filterMap placeOf?
  (flat.filterMap cancelOf?).map .cancel ++
    (shrinkFirst
      (replaces.filter (fun a => a.early))).map .replace ++
    (places.filter (fun a => !a.isBid)).map .place ++
    (replaces.filter (fun a => a.escrowOnly)).map .replace

def fromBids
    (perSeries : List (List MmAction)) : List MmAction :=
  let flat := perSeries.flatten
  let replaces := flat.filterMap replaceOf?
  let places := flat.filterMap placeOf?
  (places.filter (fun a => a.isBid)).map .place ++
    (shrinkFirst
      (replaces.filter
        (fun a => !a.early && !a.escrowOnly))).map .replace

theorem orderActions_eq_bids
    (perSeries : List (List MmAction)) :
    orderActions perSeries =
      beforeBids perSeries ++ fromBids perSeries := by
  simp [orderActions, beforeBids, fromBids]

/- A replace to fewer units at a higher bid price. -/
def LiftsBid : MmAction → Prop
  | .replace a =>
      a.slot = .bid ∧ a.units < a.fromUnits ∧
        a.fromPrice < a.price
  | _ => False

/-
  A bid replace that moves escrow the way its group does: a
  protective one that keeps or grows its units adds none, a
  routine one that grows them frees none.
-/
def EscrowInOrder : MmAction → Prop
  | .replace a =>
      a.slot = .bid →
        (a.protective = true → a.fromUnits ≤ a.units →
          a.price * a.units ≤ a.fromPrice * a.fromUnits) ∧
        (a.protective = false → a.fromUnits < a.units →
          a.fromPrice * a.fromUnits ≤ a.price * a.units)
  | _ => True

instance
    (action : MmAction) : Decidable (LiftsBid action) :=
  match action with
  | .cancel _ => inferInstanceAs (Decidable False)
  | .replace _ => inferInstanceAs (Decidable (_ ∧ _ ∧ _))
  | .place _ => inferInstanceAs (Decidable False)

instance
    (action : MmAction) : Decidable (EscrowInOrder action) :=
  match action with
  | .cancel _ => inferInstanceAs (Decidable True)
  | .replace _ => inferInstanceAs (Decidable (_ → _ ∧ _))
  | .place _ => inferInstanceAs (Decidable True)

/- Order prices are unsigned, and so are the targets'. -/
structure PricesNonneg
    (inputs : List SeriesActionInput) : Prop where
  orders :
    ∀ input ∈ inputs, ∀ o ∈ input.orders, 0 ≤ o.price
  targets :
    ∀ input ∈ inputs, ∀ targets slot target,
      input.targets = some targets →
        targets slot = some target → 0 ≤ target.price

/- Which way an action may move the escrow of its order. -/
def FreesEscrow : MmAction → Prop
  | .cancel _ => True
  | .replace a =>
      a.slot = .bid →
        a.price * a.units ≤ a.fromPrice * a.fromUnits
  | .place a => a.slot ≠ .bid

def AddsEscrow : MmAction → Prop
  | .cancel _ => False
  | .replace a =>
      a.slot = .bid →
        a.fromPrice * a.fromUnits ≤ a.price * a.units
  | .place _ => True

variable {inputs : List SeriesActionInput}

/- What the plan says of a replace: nothing is negative. -/
structure ReplaceSigns
    (a : ReplaceAction) : Prop where
  price : 0 ≤ a.price
  units : 0 ≤ a.units
  fromPrice : 0 ≤ a.fromPrice
  fromUnits : 0 ≤ a.fromUnits

theorem wanted_price_nonneg
    (hPrices : PricesNonneg inputs)
    {input : SeriesActionInput}
    (hInput : input ∈ inputs)
    {slot : Slot}
    {price units : Int}
    (h : Wanted input slot price units) :
    0 ≤ price := by
  rcases h with
    ⟨_, targets, target, hTargets, hTarget, rfl, _⟩
  exact hPrices.targets input hInput targets slot target
    hTargets hTarget

theorem replaceSigns
    (hPrices : PricesNonneg inputs)
    {a : ReplaceAction}
    (ha : .replace a ∈ tickActions inputs) :
    ReplaceSigns a := by
  rcases tickActions_planned ha with ⟨input, hInput, o, hOf⟩
  constructor
  · exact wanted_price_nonneg hPrices hInput hOf.wanted
  · exact hOf.wanted.1.le
  · rw [hOf.fromPrice]
    exact hPrices.orders input hInput o
      (List.mem_of_mem_filter hOf.live)
  · rw [hOf.fromUnits]
    exact (live_remaining_pos hOf.live).le

/- Fewer units at no higher price escrow no more. -/
theorem escrow_le_of_not_lifts
    {a : ReplaceAction}
    (hSigns : ReplaceSigns a)
    (hBid : a.slot = .bid)
    (hUnits : a.units < a.fromUnits)
    (hLifts : ¬ LiftsBid (.replace a)) :
    a.price * a.units ≤ a.fromPrice * a.fromUnits := by
  have hPrice : a.price ≤ a.fromPrice := by
    by_contra hMore
    exact hLifts ⟨hBid, hUnits, not_le.mp hMore⟩
  exact mul_le_mul hPrice hUnits.le hSigns.units
    hSigns.fromPrice

variable {action : MmAction} {perSeries : List (List MmAction)}

theorem freesEscrow_of_mem_beforeBids
    (h : action ∈ beforeBids perSeries)
    (hSigns : ∀ a, action = .replace a → ReplaceSigns a)
    (hOrder : EscrowInOrder action)
    (hLifts : ¬ LiftsBid action) :
    FreesEscrow action := by
  simp only [beforeBids, shrinkFirst, List.mem_append,
    List.mem_map, List.mem_filter] at h
  rcases h with
    ((⟨a, _, rfl⟩ | ⟨a, hEarly, rfl⟩) | ⟨a, hAsk, rfl⟩) |
      ⟨a, hEscrow, rfl⟩
  · trivial
  · intro hBid
    have hIsEarly : a.early = true := by
      rcases hEarly with ⟨⟨_, h⟩, _⟩ | ⟨⟨_, h⟩, _⟩ <;> exact h
    rcases lt_or_ge a.units a.fromUnits with hFewer | hMore
    · exact escrow_le_of_not_lifts (hSigns a rfl) hBid
        hFewer hLifts
    · have hProtective : a.protective = true := by
        simpa [ReplaceAction.early, not_lt.mpr hMore]
          using hIsEarly
      exact (hOrder hBid).1 hProtective hMore
  · have hNotBid := hAsk.2
    simp only [PlaceAction.isBid, Bool.not_eq_true',
      decide_eq_false_iff_not] at hNotBid
    exact hNotBid
  · intro _
    have hOnly := hEscrow.2
    simp only [ReplaceAction.escrowOnly, Bool.and_eq_true,
      decide_eq_true_eq] at hOnly
    rcases hOnly with ⟨⟨_, hSame⟩, hLower⟩
    rw [hSame]
    exact mul_le_mul_of_nonneg_right hLower.le
      (hSigns a rfl).fromUnits

theorem addsEscrow_of_mem_fromBids
    (h : action ∈ fromBids perSeries)
    (hSigns : ∀ a, action = .replace a → ReplaceSigns a)
    (hOrder : EscrowInOrder action) :
    AddsEscrow action := by
  simp only [fromBids, shrinkFirst, List.mem_append,
    List.mem_map, List.mem_filter] at h
  rcases h with ⟨a, _, rfl⟩ | ⟨a, hLate, rfl⟩
  · trivial
  · intro hBid
    have hIsLate : a.early = false ∧ a.escrowOnly = false := by
      rcases hLate with ⟨⟨_, h⟩, _⟩ | ⟨⟨_, h⟩, _⟩ <;>
        simpa using h
    rcases le_units_of_not_early hIsLate.1 with
      ⟨hRoutine, hMore⟩
    rcases hMore.lt_or_eq with hGrows | hSame
    · exact (hOrder hBid).2 hRoutine hGrows
    · -- Same units and not escrow-only: the price held or rose.
      have hPrice : a.fromPrice ≤ a.price := by
        simpa [ReplaceAction.escrowOnly, hIsLate.1, hBid,
          hSame] using hIsLate.2
      rw [hSame]
      exact mul_le_mul_of_nonneg_right hPrice
        (hSigns a rfl).units

def EscrowNonneg
    (o : Resting) : Prop :=
  0 ≤ o.price ∧ 0 ≤ o.units

theorem escrowed_nonneg
    {o : Resting}
    (h : EscrowNonneg o) :
    0 ≤ escrowed o := by
  unfold escrowed
  split
  · exact mul_nonneg h.1 h.2
  · exact le_refl 0

theorem startBook_inPlan_escrow
    (hIds : DistinctIds inputs)
    (hPrices : PricesNonneg inputs) :
    InPlan EscrowNonneg (tickActions inputs)
      (startBook inputs) := by
  constructor
  · intro o ho
    rcases mem_startBook ho with
      ⟨input, hInput, live, hLive, rfl⟩
    exact
      ⟨hPrices.orders input hInput live
          (List.mem_of_mem_filter hLive),
        (live_remaining_pos hLive).le⟩
  · intro a ha
    exact startBook_matches hIds ha

theorem place_escrow_nonneg
    (hPrices : PricesNonneg inputs)
    {a : PlaceAction}
    (ha : .place a ∈ tickActions inputs) :
    EscrowNonneg a.resting := by
  rcases tickActions_planned ha with ⟨input, hInput, hPlace⟩
  exact
    ⟨wanted_price_nonneg hPrices hInput hPlace.wanted,
      hPlace.wanted.1.le⟩

theorem execute_inPlan_escrow
    (hPrices : PricesNonneg inputs)
    {book : List Resting}
    (hAction : action ∈ tickActions inputs)
    (h : InPlan EscrowNonneg (tickActions inputs) book) :
    InPlan EscrowNonneg (tickActions inputs)
      (execute book action) := by
  refine h.execute ?_ ?_ hAction
  · intro a ha
    exact place_escrow_nonneg hPrices ha
  · intro a ha o _
    have hSigns := replaceSigns hPrices ha
    exact ⟨hSigns.price, hSigns.units⟩

theorem slotKind_eq_bid
    {slot : Slot} :
    slotKind slot = .Bid ↔ slot = .bid := by
  cases slot <;> decide

/- A replaced order against the one it was planned from. -/
theorem escrowed_le_of_bid
    {o o' : Resting}
    (hKind : o.kind = o'.kind)
    (h :
      o.kind = .Bid →
        o.price * o.units ≤ o'.price * o'.units) :
    escrowed o ≤ escrowed o' := by
  unfold escrowed
  rw [← hKind]
  split
  · next hBid => exact h hBid
  · exact le_refl 0

theorem bidEscrowTotal_execute_le
    {book : List Resting}
    (hAction : action ∈ tickActions inputs)
    (h : InPlan EscrowNonneg (tickActions inputs) book)
    (hFrees : FreesEscrow action) :
    bidEscrowTotal (execute book action) ≤
      bidEscrowTotal book := by
  cases action with
  | cancel a =>
      apply total_cancel_le
      intro o ho
      exact escrowed_nonneg (h.orders o ho)
  | replace a =>
      apply total_replace_le
      intro o ho hId
      rcases h.planned a hAction o ho hId with
        ⟨_, hKind, hPrice, hUnits⟩
      have hSameKind : (o.replacedBy a).kind = o.kind := rfl
      apply escrowed_le_of_bid hSameKind
      intro hBid
      have hSlot : a.slot = .bid :=
        slotKind_eq_bid.mp (hKind.symm.trans hBid)
      rw [hPrice, hUnits]
      exact hFrees hSlot
  | place a =>
      have hAsk : a.resting.kind ≠ .Bid := by
        intro hBid
        exact hFrees (slotKind_eq_bid.mp hBid)
      unfold bidEscrowTotal
      rw [total_place]
      simp [escrowed, hAsk]

theorem le_bidEscrowTotal_execute
    (hPrices : PricesNonneg inputs)
    {book : List Resting}
    (hAction : action ∈ tickActions inputs)
    (h : InPlan EscrowNonneg (tickActions inputs) book)
    (hAdds : AddsEscrow action) :
    bidEscrowTotal book ≤
      bidEscrowTotal (execute book action) := by
  cases action with
  | cancel a => exact hAdds.elim
  | replace a =>
      apply le_total_replace
      intro o ho hId
      rcases h.planned a hAction o ho hId with
        ⟨_, hKind, hPrice, hUnits⟩
      have hSameKind : o.kind = (o.replacedBy a).kind := rfl
      apply escrowed_le_of_bid hSameKind
      intro hBid
      have hSlot : a.slot = .bid :=
        slotKind_eq_bid.mp (hKind.symm.trans hBid)
      rw [hPrice, hUnits]
      exact hAdds hSlot
  | place a =>
      have hPlaced :=
        escrowed_nonneg (place_escrow_nonneg hPrices hAction)
      unfold bidEscrowTotal
      rw [total_place]
      exact le_add_of_nonneg_right hPlaced

/-
  When every bid replace moves escrow the way its group does,
  a cut without a lifted, shrunk bid escrows no more than the
  larger of the start and the end of the tick.
-/
theorem orderActions_prefix_escrow_le
    (inputs : List SeriesActionInput)
    (hIds : DistinctIds inputs)
    (hPrices : PricesNonneg inputs)
    (hOrder :
      ∀ input ∈ inputs, ∀ action ∈ planSeriesActions input,
        EscrowInOrder action)
    (done : List MmAction)
    (hDone : done <+: tickActions inputs)
    (hLifts : ∀ action ∈ done, ¬ LiftsBid action) :
    bidEscrowTotal (executeAll (startBook inputs) done) ≤
      max (bidEscrowTotal (startBook inputs))
        (bidEscrowTotal
          (executeAll (startBook inputs)
            (tickActions inputs))) := by
  have hSplit :
      tickActions inputs =
        beforeBids (inputs.map planSeriesActions) ++
          fromBids (inputs.map planSeriesActions) :=
    orderActions_eq_bids _
  have hInOrder :
      ∀ action ∈ tickActions inputs,
        EscrowInOrder action := by
    intro action hAction
    have hFlat := mem_of_mem_orderActions hAction
    rcases List.mem_flatten.mp hFlat with ⟨l, hl, ha⟩
    rcases List.mem_map.mp hl with ⟨input, hInput, rfl⟩
    exact hOrder input hInput action ha
  have hSigns :
      ∀ action ∈ tickActions inputs,
        ∀ a, action = .replace a → ReplaceSigns a := by
    rintro action hAction a rfl
    exact replaceSigns hPrices hAction
  rw [hSplit] at hDone
  have hStart := startBook_inPlan_escrow hIds hPrices
  have hValley :=
    Valley.prefix_le_max execute
      (InPlan EscrowNonneg (tickActions inputs))
      bidEscrowTotal
      (beforeBids (inputs.map planSeriesActions))
      (fromBids (inputs.map planSeriesActions))
      hDone ?keep ?fall ?rise hStart
  · rw [← hSplit] at hValley
    exact hValley
  case keep =>
    intro book action hAction h
    rw [← hSplit] at hAction
    exact execute_inPlan_escrow hPrices hAction h
  case fall =>
    intro book action hAction hCut h
    have hTick : action ∈ tickActions inputs := by
      rw [hSplit]
      exact List.mem_append_left _ hAction
    apply bidEscrowTotal_execute_le hTick h
    exact freesEscrow_of_mem_beforeBids hAction
      (hSigns action hTick) (hInOrder action hTick)
      (hLifts action hCut)
  case rise =>
    intro book action hAction h
    have hTick : action ∈ tickActions inputs := by
      rw [hSplit]
      exact List.mem_append_right _ hAction
    apply le_bidEscrowTotal_execute hPrices hTick h
    exact addsEscrow_of_mem_fromBids hAction
      (hSigns action hTick) (hInOrder action hTick)

/- The same tick with a target of the units still left. -/
def capKeptTick : List SeriesActionInput :=
  [bidInput 1 (bidOrder 1 1000 10 7) ⟨900, 3⟩ 900,
    bidInput 2 (bidOrder 2 1000 10 0) ⟨800, 10⟩ 5000]

theorem capKeptTick_cut_escrow_le :
    bidEscrowTotal
        (executeAll (startBook capKeptTick)
          ((tickActions capKeptTick).take 1)) ≤
      max (bidEscrowTotal (startBook capKeptTick))
        (bidEscrowTotal
          (executeAll (startBook capKeptTick)
            (tickActions capKeptTick))) := by
  have hIds : DistinctIds capKeptTick := by decide
  have hPrices : PricesNonneg capKeptTick := by
    constructor
    · decide
    · intro input hInput targets slot target hTargets hTarget
      simp only [capKeptTick, List.mem_cons,
        List.not_mem_nil, or_false] at hInput
      rcases hInput with rfl | rfl <;> cases hTargets <;>
        cases slot <;> cases hTarget <;> decide
  apply orderActions_prefix_escrow_le capKeptTick hIds
    hPrices
  · decide
  · exact List.take_prefix 1 _
  · decide

/-
  A protective replace may add escrow before a later routine
  one frees it: no bid is shrunk, and the cut after the first
  replace holds 19000 where the tick starts at 13000 and ends
  at 17000.
-/
theorem orderActions_over_commits :
    ¬ (∀ inputs, DistinctIds inputs → PricesNonneg inputs →
        ∀ done, done <+: tickActions inputs →
          (∀ action ∈ done, ¬ LiftsBid action) →
            bidEscrowTotal
                (executeAll (startBook inputs) done) ≤
              max (bidEscrowTotal (startBook inputs))
                (bidEscrowTotal
                  (executeAll (startBook inputs)
                    (tickActions inputs)))) := by
  intro h
  have hPrices : PricesNonneg capBrokenTick := by
    constructor
    · decide
    · intro input hInput targets slot target hTargets hTarget
      simp only [capBrokenTick, List.mem_cons,
        List.not_mem_nil, or_false] at hInput
      rcases hInput with rfl | rfl <;> cases hTargets <;>
        cases slot <;> cases hTarget <;> decide
  have hCut :=
    h capBrokenTick (by decide) hPrices
      ((tickActions capBrokenTick).take 1)
      (List.take_prefix 1 _) (by decide)
  revert hCut
  decide

end Callhouse.Keeper.Mm
