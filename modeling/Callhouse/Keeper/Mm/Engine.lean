import Callhouse.Keeper.Mm.Constants
import Mathlib.Data.List.Sort

/-
  keeper/src/v2/mm/engine.ts: the times of a series, and the
  replace discipline: which live quotes a series keeps,
  replaces, cancels or places, and in which order a tick's
  actions are executed.

  Main declarations:
    * `judgeReplace`
    * `planSeriesActions`
    * `orderActions`
-/

----
-- Orders and Actions
----

namespace Callhouse.Keeper.Mm

/- When an AskWrite stops filling. -/
def mintCutoffOf
    (expiry : Int) : Int :=
  expiry - settlementWindow

structure LiveOrder where
  id : Int
  kind : OrderKindName
  price : Int
  units : Int
  filled : Int
  validUntil : Int
  cancelled : Bool
deriving DecidableEq

def isLiveOrder
    (o : LiveOrder)
    (now : Int) : Bool :=
  !o.cancelled && decide (o.filled < o.units) &&
    decide (now < o.validUntil)

/- mm/reads.ts: a live order with its maker and series. -/
structure ChainOrder extends LiveOrder where
  maker : String
  longId : Int
deriving DecidableEq

/- Expired but still holding escrow: the bot takes it back. -/
def isReclaimable
    (o : LiveOrder)
    (now : Int) : Bool :=
  !o.cancelled && decide (o.filled < o.units) &&
    decide (now ≥ o.validUntil) &&
    decide (o.kind ≠ .AskWrite)

/- What a kill cancels: live, or expired with escrow. -/
def isKillTarget
    (o : LiveOrder)
    (now : Int) : Bool :=
  isLiveOrder o now || isReclaimable o now

structure SlotTarget where
  price : Int
  units : Int
deriving DecidableEq

structure QuoteLife where
  cap : Int
  lifetime : Int
deriving DecidableEq

structure AskFloors where
  write : Int
  resale : Int
deriving DecidableEq

structure CancelAction where
  longId : Int
  orderIds : List Int
  reason : String
  protective : Bool
deriving DecidableEq

structure ReplaceAction where
  longId : Int
  slot : Slot
  orderId : Int
  price : Int
  units : Int
  fromPrice : Int
  fromUnits : Int
  reason : String
  protective : Bool
  orderValidUntil : Option Int
deriving DecidableEq

structure PlaceAction where
  longId : Int
  slot : Slot
  kind : Int
  price : Int
  units : Int
  validUntil : Int
  reason : String
  protective : Bool
  life : Option QuoteLife
deriving DecidableEq

inductive MmAction where
  | cancel (action : CancelAction)
  | replace (action : ReplaceAction)
  | place (action : PlaceAction)
deriving DecidableEq

----
-- Replace Judgement
----

/- The move in basis points; `none` is an infinite move. -/
def moveBps
    (current target : Int) : Option Int :=
  if current ≤ 0 then none
  else
    let diff :=
      if target > current then target - current
      else current - target
    some ((diff * bps).tdiv current)

def exceedsBps
    (move : Option Int)
    (limit : Int) : Bool :=
  match move with
  | none => true
  | some moved => moved > limit

def moveText : Option Int → String
  | none => "Infinity"
  | some moved => toString moved

def slotText : Slot → String
  | .bid => "bid"
  | .write => "write"
  | .resale => "resale"

def kindText : OrderKindName → String
  | .Bid => "Bid"
  | .AskResale => "AskResale"
  | .AskWrite => "AskWrite"

structure RequoteParams where
  requoteBps : Int
  resizeBps : Int

structure ReplaceJudgement where
  replace : Bool
  reason : String
  protective : Bool
deriving DecidableEq

structure JudgeInput where
  order : LiveOrder
  target : SlotTarget
  slot : Slot
  askFloors : AskFloors
  bidCap : Int
  safeFloor : Option Int
  params : RequoteParams

def LiveOrder.remaining
    (o : LiveOrder) : Int :=
  o.units - o.filled

/- The first guard of the slot that a resting price breaks. -/
def brokenGuard
    (input : JudgeInput) : Option String :=
  let price := input.order.price
  match input.slot with
  | .bid =>
      if price > input.bidCap then
        some s!"bid {price} above the bid cap {input.bidCap}"
      else
        match input.safeFloor with
        | none => none
        | some cap =>
            if price > cap then
              some s!"bid {price} above the spot-lag cap {cap}"
            else none
  | slot =>
      let askFloor :=
        if slot = .resale then input.askFloors.resale
        else input.askFloors.write
      let name := slotText slot
      if price < askFloor then
        some s!"ask {price} below the {name} ask floor {askFloor}"
      else
        match input.safeFloor with
        | none => none
        | some floor =>
            if price < floor then
              some s!"ask {price} below the spot-lag floor {floor}"
            else none

def judgeReplace
    (input : JudgeInput) : ReplaceJudgement :=
  let order := input.order
  let target := input.target
  let params := input.params
  let remaining := order.remaining
  match brokenGuard input with
  | some reason =>
      { replace := true, reason := reason
        protective := true }
  | none =>
      let move := moveBps order.price target.price
      let moved := moveText move
      let requoteBps := params.requoteBps
      if exceedsBps move requoteBps then
        { replace := true
          reason :=
            s!"price {order.price} -> {target.price} " ++
              s!"({moved} bps > {requoteBps})"
          protective := false }
      else if remaining > target.units then
        { replace := true
          reason :=
            s!"size {remaining} above the target " ++
              toString target.units
          protective := true }
      else
        let floorUnits :=
          (target.units * (10000 - params.resizeBps)).tdiv
            bps
        if remaining < floorUnits then
          { replace := true
            reason :=
              s!"size {remaining} under {floorUnits} " ++
                s!"(target {target.units})"
            protective := false }
        else
          { replace := false
            reason := "within thresholds"
            protective := false }

----
-- One Series
----

structure SeriesActionInput where
  longId : Int
  now : Int
  orders : List LiveOrder
  targets : Option (Slot → Option SlotTarget)
  haltReason : Option String
  validUntil : Slot → Option Int
  life : Slot → Option QuoteLife
  askFloors : Option AskFloors
  bidCap : Int
  refreshS : Int
  replaceMarginS : Option Int
  params : RequoteParams
  safeFloor : Option (Slot → Int)

structure PendingCancel where
  id : Int
  reason : String
  protective : Bool
deriving DecidableEq

/- What one slot adds to the series' three lists. -/
structure SlotPlan where
  cancels : List PendingCancel
  replaces : List ReplaceAction
  places : List PlaceAction
deriving DecidableEq

def SeriesActionInput.live
    (input : SeriesActionInput) : List LiveOrder :=
  input.orders.filter (fun o => isLiveOrder o input.now)

def SeriesActionInput.reclaim
    (input : SeriesActionInput) : List LiveOrder :=
  input.orders.filter (fun o => isReclaimable o input.now)

def SeriesActionInput.replaceMargin
    (input : SeriesActionInput) : Int :=
  input.replaceMarginS.getD input.refreshS

def reclaimCancels
    (input : SeriesActionInput) : List PendingCancel :=
  input.reclaim.map (fun o =>
    let kind := kindText o.kind
    { id := o.id
      reason := s!"reclaim expired {kind} {o.id}"
      protective := false })

/- The slot's live orders, newest first. -/
def newestFirst
    (input : SeriesActionInput)
    (slot : Slot) : List LiveOrder :=
  (input.live.filter
    (fun o => o.kind = slotKind slot)).insertionSort
    (fun a b => b.id ≤ a.id)

def placeAction
    (input : SeriesActionInput)
    (slot : Slot)
    (target : SlotTarget)
    (validUntil : Int)
    (reason : String)
    (protective : Bool) : PlaceAction :=
  { longId := input.longId
    slot := slot
    kind := kindIndex (slotKind slot)
    price := target.price
    units := target.units
    validUntil := validUntil
    reason := reason
    protective := protective
    life := input.life slot }

/- The slot's kept order against a target it may be quoted at. -/
def planKept
    (input : SeriesActionInput)
    (askFloors : AskFloors)
    (slot : Slot)
    (keep : LiveOrder)
    (target : SlotTarget)
    (validUntil : Int) : SlotPlan :=
  let name := slotText slot
  let margin := input.replaceMargin
  if keep.validUntil - input.now < input.refreshS ∧
      validUntil > keep.validUntil + input.refreshS then
    -- A replace keeps validUntil: re-place instead.
    { cancels :=
        [{ id := keep.id
           reason :=
             s!"{name} {keep.id} expires at " ++
               toString keep.validUntil
           protective := false }]
      replaces := []
      places :=
        [placeAction input slot target validUntil
          "refresh before validUntil" false] }
  else
    let judgement :=
      judgeReplace
        { order := keep
          target := target
          slot := slot
          askFloors := askFloors
          bidCap := input.bidCap
          safeFloor := input.safeFloor.map (fun f => f slot)
          params := input.params }
    if judgement.replace ∧
        keep.validUntil - input.now < margin then
      { cancels :=
          [{ id := keep.id
             reason :=
               s!"{name} {keep.id} expires at " ++
                 s!"{keep.validUntil}, inside the " ++
                 s!"{margin} s replace margin"
             protective := judgement.protective }]
        replaces := []
        places :=
          [placeAction input slot target validUntil
            ("placed fresh, not replaced: " ++
              judgement.reason)
            judgement.protective] }
    else if judgement.replace then
      { cancels := []
        replaces :=
          [{ longId := input.longId
             slot := slot
             orderId := keep.id
             price := target.price
             units := target.units
             fromPrice := keep.price
             fromUnits := keep.remaining
             reason := judgement.reason
             protective := judgement.protective
             orderValidUntil := some keep.validUntil }]
        places := [] }
    else
      { cancels := [], replaces := [], places := [] }

/- A target that may be quoted: positive units, a lifetime. -/
def quotable
    (input : SeriesActionInput)
    (targets : Slot → Option SlotTarget)
    (slot : Slot) : Option (SlotTarget × Int) :=
  match targets slot, input.validUntil slot with
  | some target, some validUntil =>
      if target.units ≤ 0 then none
      else some (target, validUntil)
  | _, _ => none

def planSlot
    (input : SeriesActionInput)
    (targets : Slot → Option SlotTarget)
    (askFloors : AskFloors)
    (slot : Slot) : SlotPlan :=
  let name := slotText slot
  match newestFirst input slot with
  | [] =>
      match quotable input targets slot with
      | none =>
          { cancels := [], replaces := [], places := [] }
      | some (target, validUntil) =>
          { cancels := []
            replaces := []
            places :=
              [placeAction input slot target validUntil
                s!"no live {name}" false] }
  | keep :: extra =>
      let extras :=
        extra.map (fun o =>
          ({ id := o.id
             reason := s!"extra {name} {o.id}"
             protective := true } : PendingCancel))
      match quotable input targets slot with
      | none =>
          { cancels :=
              extras ++
                [{ id := keep.id
                   reason := s!"no {name} target"
                   protective := true }]
            replaces := []
            places := [] }
      | some (target, validUntil) =>
          let kept :=
            planKept input askFloors slot keep target
              validUntil
          { kept with cancels := extras ++ kept.cancels }

/- The cancels of one urgency, in one action. -/
def cancelAction
    (input : SeriesActionInput)
    (cancels : List PendingCancel)
    (protective : Bool) : List MmAction :=
  let part :=
    cancels.filter (fun c => c.protective = protective)
  if part = [] then []
  else
    [.cancel
      { longId := input.longId
        orderIds := part.map (fun c => c.id)
        reason :=
          String.intercalate "; "
            (part.map (fun c => c.reason))
        protective := protective }]

/- A halted series, or one without floors, is pulled. -/
def pullSeries
    (input : SeriesActionInput)
    (halted : String) : List MmAction :=
  let cancels := reclaimCancels input
  let ids :=
    cancels.map (fun c => c.id) ++
      input.live.map (fun o => o.id)
  if ids = [] then []
  else
    let reclaims :=
      String.intercalate "; "
        (cancels.map (fun c => c.reason))
    let why :=
      if input.live = [] then reclaims
      else if input.reclaim = [] then halted
      else halted ++ "; " ++ reclaims
    [.cancel
      { longId := input.longId
        orderIds := ids
        reason := why
        protective := decide (input.live ≠ []) }]

def planSeriesActions
    (input : SeriesActionInput) : List MmAction :=
  match input.targets, input.askFloors with
  | none, _ =>
      pullSeries input (input.haltReason.getD "halted")
  | some _, none => pullSeries input "ask floors unread"
  | some targets, some askFloors =>
      let slots :=
        [Slot.bid, Slot.write, Slot.resale].map
          (planSlot input targets askFloors)
      let cancels :=
        reclaimCancels input ++
          slots.flatMap (fun plan => plan.cancels)
      cancelAction input cancels true ++
        cancelAction input cancels false ++
        (slots.flatMap (fun plan => plan.replaces)).map
          MmAction.replace ++
        (slots.flatMap (fun plan => plan.places)).map
          MmAction.place

----
-- Execution Order of a Tick
----

def cancelOf? : MmAction → Option CancelAction
  | .cancel action => some action
  | _ => none

def replaceOf? : MmAction → Option ReplaceAction
  | .replace action => some action
  | _ => none

def placeOf? : MmAction → Option PlaceAction
  | .place action => some action
  | _ => none

/- Protective, or to fewer units. -/
def ReplaceAction.early
    (a : ReplaceAction) : Bool :=
  a.protective || decide (a.units < a.fromUnits)

/- A routine bid requote downwards at the same size. -/
def ReplaceAction.escrowOnly
    (a : ReplaceAction) : Bool :=
  !a.early && decide (a.slot = .bid) &&
    decide (a.units = a.fromUnits) &&
    decide (a.price < a.fromPrice)

def ReplaceAction.shrinks
    (a : ReplaceAction) : Bool :=
  decide (a.units ≤ a.fromUnits)

def shrinkFirst
    (xs : List ReplaceAction) : List ReplaceAction :=
  xs.filter (fun a => a.shrinks) ++
    xs.filter (fun a => !a.shrinks)

def PlaceAction.isBid
    (a : PlaceAction) : Bool :=
  decide (a.slot = .bid)

def orderActions
    (perSeries : List (List MmAction)) : List MmAction :=
  let flat := perSeries.flatten
  let replaces := flat.filterMap replaceOf?
  let places := flat.filterMap placeOf?
  (flat.filterMap cancelOf?).map .cancel ++
    (shrinkFirst
      (replaces.filter (fun a => a.early))).map .replace ++
    (places.filter (fun a => !a.isBid)).map .place ++
    (replaces.filter (fun a => a.escrowOnly)).map .replace ++
    (places.filter (fun a => a.isBid)).map .place ++
    (shrinkFirst
      (replaces.filter
        (fun a => !a.early && !a.escrowOnly))).map .replace

end Callhouse.Keeper.Mm
