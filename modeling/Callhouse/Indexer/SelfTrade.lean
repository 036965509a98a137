import Callhouse.Lib.LowerCase
import Callhouse.Lib.UnionFind
import Mathlib.Data.List.Sort
import Mathlib.Data.String.Basic
import Mathlib.Tactic

/-
  indexer/lib/v2/selfTrade.ts: the database-free reduction of
  primary units that a writer's linked wallets resell.

  The reduction's state is kept here with a history: the
  portions it has counted, and the primary fills it has
  attributed to a writer.

  Main declarations:
    * `reduceSelfTrade`, `consume`, `Links.add`
    * `reduceRun_balanced`
    * `reduceRun_reordered`
    * `takenEvents`, `foldlM_reduceRun_attributed`
    * `self_trade_counted_once`
-/

----
-- Events and State
----

namespace Callhouse.Indexer.SelfTrade

def zeroAddress : String :=
  "0x0000000000000000000000000000000000000000"

def priceTick : Int := 100

def selfTradeMinPriceTicks : Int := 1

def selfTradeSuspectPriceTicks : Int := 10

structure SelfTradeFill where
  maker : String
  taker : String
  recipient : String
  buyer : String
  seller : String
  price : Int
  primary : Bool
  takerIsBuyer : Bool
deriving DecidableEq

/- A transfer's two ends are its event's `from` and `to`. -/
inductive EventKind where
  | fill (fill : SelfTradeFill)
  | transfer (sender recipient : String)
  | mint (holder : String)
  | close (holder : String)
  | redemption (holder : String)
deriving DecidableEq

structure SelfTradeEvent where
  id : String
  block : Int
  logIndex : Int
  ts : Int
  longId : Int
  units : Int
  kind : EventKind
deriving DecidableEq

structure SelfTradeLinkEvidence where
  left : String
  right : String
deriving DecidableEq

/- Its id is its two addresses, joined. -/
structure SelfTradeLink where
  left : String
  right : String
deriving DecidableEq

/- A null writer is ordinary inventory. -/
structure SelfTradeLot where
  id : String
  longId : Int
  holder : String
  writer : Option String
  primaryFillId : Option String
  units : Int
  remaining : Int
  createdBlock : Int
  createdLogIndex : Int
  sourceId : String
deriving DecidableEq

structure SelfTradeMaker where
  writer : String
  units : Int
deriving DecidableEq

inductive SelfTradeUnseenReason where
  | priceAboveCountedBand
  | noLinkEvidence
deriving DecidableEq

def SelfTradeUnseenReason.text :
    SelfTradeUnseenReason → String
  | .priceAboveCountedBand => "price-above-counted-band"
  | .noLinkEvidence => "no-link-evidence"

structure SelfTradeUnseen where
  reason : SelfTradeUnseenReason
  units : Int
  fills : Int
deriving DecidableEq

structure SelfTradeState where
  cursor : Int
  links : List SelfTradeLink
  lots : List SelfTradeLot
  makers : List SelfTradeMaker
  unseen : List SelfTradeUnseen
deriving DecidableEq

structure SeriesExpiry where
  longId : Int
  expiry : Int
deriving DecidableEq

structure SelfTradeBatch where
  through : Int
  throughTimestamp : Int
  events : List SelfTradeEvent
  linkEvidence : List SelfTradeLinkEvidence
  seriesExpiries : List SeriesExpiry
  matchedTransferIds : List String
  protocolAddresses : List (Option String)
deriving DecidableEq

def emptySelfTradeState
    (cursor : Int) : SelfTradeState :=
  { cursor := cursor
    links := []
    lots := []
    makers := []
    unseen := [] }

def key
    (value : String) : String :=
  value.toLower

@[simp]
theorem key_key
    (value : String) :
    key (key value) = key value :=
  LowerCase.toLower_toLower value

/-
  localeCompare, as any linear order of strings: the ids and
  addresses compared are ASCII, and equal when they tie.
-/
abbrev Locale : Type :=
  LinearOrder String

def Locale.before
    (locale : Locale)
    (a b : String) : Prop :=
  locale.le a b

instance (locale : Locale) : DecidableRel locale.before :=
  locale.toDecidableLE

----
-- Links
----

/- The pair of an edge, smaller address first. -/
structure Links where
  edges : OrderedMap (String × String) SelfTradeLink
  parent : OrderedMap String String

def Links.empty : Links :=
  { edges := OrderedMap.empty
    parent := OrderedMap.empty }

def orderedPair
    (left right : String) : String × String :=
  if left < right then (left, right) else (right, left)

def Links.add
    (excluded : String → Bool)
    (graph : Links)
    (raw : String × String) : Links :=
  let left := key raw.1
  let right := key raw.2
  if left = right ∨ excluded left = true ∨
      excluded right = true then graph
  else
    let pair := orderedPair left right
    { edges :=
        graph.edges.set pair
          { left := pair.1
            right := pair.2 }
      parent := UnionFind.union graph.parent pair.1 pair.2 }

/- Whether a find compresses a path changes no later answer. -/
def Links.connected
    (excluded : String → Bool)
    (graph : Links)
    (leftRaw rightRaw : String) : Bool :=
  let left := key leftRaw
  let right := key rightRaw
  if excluded left = true ∨ excluded right = true then false
  else if left = right then true
  else UnionFind.connected graph.parent left right

----
-- Lots
----

/- What the loop over the events reads. -/
structure RangeReads where
  locale : Locale
  connected : String → String → Bool
  excluded : String → Bool
  matched : String → Bool
  expiry : Int → Option Int

structure Portion where
  writer : Option String
  primaryFillId : Option String
  units : Int
deriving DecidableEq

/- A primary fill that was attributed to its seller. -/
structure Attribution where
  writer : String
  primaryFillId : String
  units : Int
deriving DecidableEq

structure UnseenTotal where
  units : Int
  fills : Int
deriving DecidableEq

/- The loop's variables, with the history of both ledgers. -/
structure Reduction where
  lots : List SelfTradeLot
  makers : OrderedMap String Int
  unseen : OrderedMap SelfTradeUnseenReason UnseenTotal
  counted : List Portion
  attributed : List Attribution

def positionBefore
    (locale : Locale)
    (a b : SelfTradeEvent) : Prop :=
  a.block < b.block ∨
    a.block = b.block ∧
      (a.logIndex < b.logIndex ∨
        a.logIndex = b.logIndex ∧ locale.before a.id b.id)

instance (locale : Locale) :
    DecidableRel (positionBefore locale) :=
  fun a b =>
    inferInstanceAs
      (Decidable
        (a.block < b.block ∨
          a.block = b.block ∧
            (a.logIndex < b.logIndex ∨
              a.logIndex = b.logIndex ∧
                locale.before a.id b.id)))

def lotBefore
    (locale : Locale)
    (a b : SelfTradeLot) : Prop :=
  a.createdBlock < b.createdBlock ∨
    a.createdBlock = b.createdBlock ∧
      (a.createdLogIndex < b.createdLogIndex ∨
        a.createdLogIndex = b.createdLogIndex ∧
          locale.before a.id b.id)

instance (locale : Locale) :
    DecidableRel (lotBefore locale) :=
  fun a b =>
    inferInstanceAs
      (Decidable
        (a.createdBlock < b.createdBlock ∨
          a.createdBlock = b.createdBlock ∧
            (a.createdLogIndex < b.createdLogIndex ∨
              a.createdLogIndex = b.createdLogIndex ∧
                locale.before a.id b.id)))

def lowerLot
    (lot : SelfTradeLot) : SelfTradeLot :=
  { lot with
    holder := key lot.holder
    writer := lot.writer.map key }

def expireLot
    (reads : RangeReads)
    (at' : Int)
    (onlyLongId : Option Int)
    (lot : SelfTradeLot) : SelfTradeLot :=
  if lot.remaining = 0 ∨
      onlyLongId.any (fun longId => lot.longId ≠ longId) then
    lot
  else
    match reads.expiry lot.longId with
    | none => lot
    | some expiry =>
        if at' ≥ expiry then { lot with remaining := 0 }
        else lot

def expire
    (reads : RangeReads)
    (at' : Int)
    (onlyLongId : Option Int)
    (lots : List SelfTradeLot) : List SelfTradeLot :=
  lots.map (expireLot reads at' onlyLongId)

def addLot
    (lots : List SelfTradeLot)
    (lot : SelfTradeLot) : List SelfTradeLot :=
  if lot.units ≤ 0 then lots else lots ++ [lowerLot lot]

structure Consumption where
  lots : List SelfTradeLot
  missing : Int
  portions : List Portion
deriving DecidableEq

/- Positions of the holder's open lots, oldest first. -/
def openLots
    (locale : Locale)
    (lots : List SelfTradeLot)
    (longId : Int)
    (holder : String) : List Nat :=
  ((lots.zipIdx.filter
      (fun x =>
        decide (x.1.longId = longId) &&
          decide (x.1.holder = holder) &&
            decide (x.1.remaining > 0))).insertionSort
    (fun a b => lotBefore locale a.1 b.1)).map Prod.snd

/- The lot at a position gives what is missing, or all it has. -/
def takeLot
    (state : Consumption)
    (position : Nat) : Consumption :=
  if state.missing = 0 then state
  else
    match state.lots[position]? with
    | none => state
    | some lot =>
        let taken :=
          if lot.remaining < state.missing then lot.remaining
          else state.missing
        { lots :=
            state.lots.set position
              { lot with remaining := lot.remaining - taken }
          missing := state.missing - taken
          portions :=
            state.portions ++
              [{ writer := lot.writer
                 primaryFillId := lot.primaryFillId
                 units := taken }] }

/- Negative units were refused before. -/
def consume
    (locale : Locale)
    (lots : List SelfTradeLot)
    (longId : Int)
    (holderRaw : String)
    (units : Int) : List SelfTradeLot × List Portion :=
  let state :=
    (openLots locale lots longId (key holderRaw)).foldl takeLot
      { lots := lots
        missing := units
        portions := [] }
  (state.lots,
    if state.missing > 0 then
      state.portions ++
        [{ writer := none
           primaryFillId := none
           units := state.missing }]
    else state.portions)

----
-- The Reduction
----

def recordUnseen
    (unseen : OrderedMap SelfTradeUnseenReason UnseenTotal)
    (reason : SelfTradeUnseenReason)
    (units : Int) :
    OrderedMap SelfTradeUnseenReason UnseenTotal :=
  if units ≤ 0 then unseen
  else
    let carried := unseen.getD reason { units := 0, fills := 0 }
    unseen.set reason
      { units := carried.units + units
        fills := carried.fills + 1 }

def addMaker
    (makers : OrderedMap String Int)
    (writer : String)
    (units : Int) : OrderedMap String Int :=
  makers.set writer (makers.getD writer 0 + units)

/- The lot an event leaves, before its holder is lowered. -/
def eventLot
    (event : SelfTradeEvent)
    (id holder : String)
    (writer primaryFillId : Option String)
    (units : Int) : SelfTradeLot :=
  { id := id
    longId := event.longId
    holder := holder
    writer := writer
    primaryFillId := primaryFillId
    units := units
    remaining := units
    createdBlock := event.block
    createdLogIndex := event.logIndex
    sourceId := event.id }

def reduceMint
    (state : Reduction)
    (event : SelfTradeEvent)
    (holder : String) : Reduction :=
  { state with
    lots :=
      addLot state.lots
        (eventLot event s!"mint:{event.id}" holder none none
          event.units) }

/- The recipient's lots, one for each portion. -/
def transferLots
    (reads : RangeReads)
    (event : SelfTradeEvent)
    (sender recipient : String)
    (lots : List SelfTradeLot)
    (portions : List Portion) : List SelfTradeLot :=
  portions.zipIdx.foldl
    (fun lots portion =>
      addLot lots
        (eventLot event s!"transfer:{event.id}:{portion.2}"
          recipient
          (if reads.connected sender recipient then
            portion.1.writer
          else none)
          (if reads.connected sender recipient then
            portion.1.primaryFillId
          else none)
          portion.1.units))
    lots

def reduceTransfer
    (reads : RangeReads)
    (state : Reduction)
    (event : SelfTradeEvent)
    (senderRaw recipientRaw : String) : Reduction :=
  let sender := key senderRaw
  let recipient := key recipientRaw
  if reads.matched event.id = true ∨
      reads.excluded sender = true ∨
        reads.excluded recipient = true ∨ sender = recipient then
    state
  else
    let taken :=
      consume reads.locale state.lots event.longId sender
        event.units
    { state with
      lots :=
        transferLots reads event sender recipient taken.1
          taken.2 }

def reduceExit
    (reads : RangeReads)
    (state : Reduction)
    (event : SelfTradeEvent)
    (holder : String) : Reduction :=
  { state with
    lots :=
      (consume reads.locale state.lots event.longId holder
        event.units).1 }

def minimumPrice
    (fill : SelfTradeFill) : Bool :=
  decide (fill.price > 0) &&
    decide (fill.price ≤ selfTradeMinPriceTicks * priceTick)

def suspectPrice
    (fill : SelfTradeFill) : Bool :=
  decide (fill.price > 0) &&
    decide
      (fill.price ≤ selfTradeSuspectPriceTicks * priceTick)

def linkedFill
    (reads : RangeReads)
    (fill : SelfTradeFill) : Bool :=
  reads.connected fill.seller fill.buyer ||
    reads.connected fill.seller fill.recipient

/- The writer a primary fill is attributed to. -/
def primaryWriter
    (reads : RangeReads)
    (fill : SelfTradeFill) : Option String :=
  if fill.takerIsBuyer && minimumPrice fill &&
      linkedFill reads fill then some (key fill.seller)
  else none

def reducePrimary
    (reads : RangeReads)
    (state : Reduction)
    (event : SelfTradeEvent)
    (fill : SelfTradeFill) : Reduction :=
  let writer := primaryWriter reads fill
  let unseen :=
    if writer = none ∧ fill.takerIsBuyer = true then
      if linkedFill reads fill && !minimumPrice fill &&
          suspectPrice fill then
        recordUnseen state.unseen .priceAboveCountedBand
          event.units
      else if minimumPrice fill && !linkedFill reads fill then
        recordUnseen state.unseen .noLinkEvidence event.units
      else state.unseen
    else state.unseen
  { state with
    lots :=
      addLot state.lots
        (eventLot event s!"fill:{event.id}" fill.buyer writer
          (writer.map (fun _ => event.id)) event.units)
    unseen := unseen
    attributed :=
      state.attributed ++
        (writer.map (fun writer =>
          { writer := writer
            primaryFillId := event.id
            units := event.units })).toList }

def Portion.isCounted
    (portion : Portion) : Bool :=
  portion.writer.isSome

def countPortion
    (makers : OrderedMap String Int)
    (portion : Portion) : OrderedMap String Int :=
  match portion.writer with
  | none => makers
  | some writer => addMaker makers writer portion.units

def reduceResale
    (reads : RangeReads)
    (state : Reduction)
    (event : SelfTradeEvent)
    (fill : SelfTradeFill) : Reduction :=
  let taken :=
    consume reads.locale state.lots event.longId fill.seller
      event.units
  { state with
    lots :=
      addLot taken.1
        (eventLot event s!"fill:{event.id}" fill.buyer none none
          event.units)
    makers := taken.2.foldl countPortion state.makers
    counted :=
      state.counted ++
        taken.2.filter (fun portion => portion.isCounted) }

/- One event that is neither expired nor empty. -/
def reduceKind
    (reads : RangeReads)
    (state : Reduction)
    (event : SelfTradeEvent) : Reduction :=
  match event.kind with
  | .mint holder => reduceMint state event holder
  | .transfer sender recipient =>
      reduceTransfer reads state event sender recipient
  | .close holder => reduceExit reads state event holder
  | .redemption holder => reduceExit reads state event holder
  | .fill fill =>
      if fill.primary then reducePrimary reads state event fill
      else reduceResale reads state event fill

/- None when the event's units are negative: it throws. -/
def reduceEvent
    (reads : RangeReads)
    (state : Reduction)
    (event : SelfTradeEvent) : Option Reduction :=
  if event.units < 0 then none
  else
    let state :=
      { state with
        lots :=
          expire reads event.ts (some event.longId) state.lots }
    if (reads.expiry event.longId).getD (event.ts + 1) ≤
          event.ts ∨
        event.units = 0 then some state
    else some (reduceKind reads state event)

/- A later row of a series overwrites an earlier one. -/
def expiryOf
    (rows : List SeriesExpiry)
    (longId : Int) : Option Int :=
  (rows.findRev? (fun row => row.longId = longId)).map
    (fun row => row.expiry)

def isExcluded
    (batch : SelfTradeBatch)
    (address : String) : Bool :=
  decide
    (address = zeroAddress ∨
      address ∈
        (batch.protocolAddresses.filterMap id).filterMap
          (fun value => if value = "" then none else some (key value)))

def batchEvents
    (locale : Locale)
    (state : SelfTradeState)
    (batch : SelfTradeBatch) : List SelfTradeEvent :=
  (batch.events.filter
    (fun event =>
      decide (event.block > state.cursor) &&
        decide (event.block ≤ batch.through))).insertionSort
      (positionBefore locale)

/- The linkage fact an event is, if it is one. -/
def eventLink
    (batch : SelfTradeBatch)
    (event : SelfTradeEvent) : Option (String × String) :=
  match event.kind with
  | .fill fill => some (fill.taker, fill.recipient)
  | .transfer sender recipient =>
      if event.id ∈ batch.matchedTransferIds then none
      else some (sender, recipient)
  | _ => none

def batchLinks
    (locale : Locale)
    (state : SelfTradeState)
    (batch : SelfTradeBatch) : List (String × String) :=
  state.links.map (fun link => (link.left, link.right)) ++
    batch.linkEvidence.map
      (fun evidence => (evidence.left, evidence.right)) ++
      (batchEvents locale state batch).filterMap
        (eventLink batch)

def batchGraph
    (locale : Locale)
    (state : SelfTradeState)
    (batch : SelfTradeBatch) : Links :=
  (batchLinks locale state batch).foldl
    (Links.add (isExcluded batch)) Links.empty

def rangeReads
    (locale : Locale)
    (graph : Links)
    (batch : SelfTradeBatch) : RangeReads :=
  { locale := locale
    connected := graph.connected (isExcluded batch)
    excluded := isExcluded batch
    matched := fun id => decide (id ∈ batch.matchedTransferIds)
    expiry := expiryOf batch.seriesExpiries }

/- The reduction's state and the history of its two ledgers. -/
structure SelfTradeRun where
  state : SelfTradeState
  counted : List Portion
  attributed : List Attribution
deriving DecidableEq

def beginReduction
    (run : SelfTradeRun) : Reduction :=
  { lots := run.state.lots.map lowerLot
    makers :=
      run.state.makers.foldl
        (fun makers maker =>
          addMaker makers (key maker.writer) maker.units)
        OrderedMap.empty
    unseen :=
      run.state.unseen.foldl
        (fun unseen row =>
          let carried :=
            unseen.getD row.reason { units := 0, fills := 0 }
          unseen.set row.reason
            { units := carried.units + row.units
              fills := carried.fills + row.fills })
        OrderedMap.empty
    counted := run.counted
    attributed := run.attributed }

/- `left:right` sorts as its pair: addresses have one length. -/
def linkBefore
    (locale : Locale)
    (a b : SelfTradeLink) : Prop :=
  locale.lt a.left b.left ∨
    a.left = b.left ∧ locale.before a.right b.right

instance (locale : Locale) :
    DecidableRel (linkBefore locale) :=
  fun a b =>
    haveI := locale.toDecidableLT a.left b.left
    inferInstanceAs
      (Decidable
        (locale.lt a.left b.left ∨
          a.left = b.left ∧ locale.before a.right b.right))

def reduceRun
    (locale : Locale)
    (run : SelfTradeRun)
    (batch : SelfTradeBatch) : Option SelfTradeRun :=
  if batch.through ≤ run.state.cursor then some run
  else do
    let graph := batchGraph locale run.state batch
    let reads := rangeReads locale graph batch
    let final ←
      (batchEvents locale run.state batch).foldlM
        (reduceEvent reads) (beginReduction run)
    return {
      state :=
        { cursor := batch.through
          links :=
            graph.edges.values.insertionSort (linkBefore locale)
          lots :=
            (expire reads batch.throughTimestamp none
              final.lots).insertionSort (lotBefore locale)
          makers :=
            (final.makers.entries.map (fun entry =>
              { writer := entry.1
                units := entry.2 })).insertionSort
              (fun a b => locale.before a.writer b.writer)
          unseen :=
            (final.unseen.entries.map (fun entry =>
              { reason := entry.1
                units := entry.2.units
                fills := entry.2.fills })).insertionSort
              (fun a b =>
                locale.before a.reason.text b.reason.text) }
      counted := final.counted
      attributed := final.attributed }

/- The state alone: the history changes nothing in it. -/
def reduceSelfTrade
    (locale : Locale)
    (state : SelfTradeState)
    (batch : SelfTradeBatch) : Option SelfTradeState :=
  (reduceRun locale
    { state := state, counted := [], attributed := [] }
    batch).map (fun run => run.state)

def selfTradeUnitsFor
    (state : SelfTradeState)
    (writer : String) : Int :=
  ((state.makers.find? (fun row => row.writer = key writer)).map
    (fun row => row.units)).getD 0

----
-- What Lots and Portions Weigh
----

section

/- A choice of writers and primary fills, never of neither. -/
structure Attributed where
  of : Option String → Option String → Bool
  none_of : of none none = false

/- Of one writer, or of one of its primary fills. -/
def Attributed.writer
    (w : String) : Attributed :=
  { of := fun writer _ => decide (writer = some w)
    none_of := rfl }

def Attributed.writerFill
    (w id : String) : Attributed :=
  { of := fun writer primaryFillId =>
      decide (writer = some w ∧ primaryFillId = some id)
    none_of := rfl }

variable (q : Attributed)

def Attributed.weigh
    (writer primaryFillId : Option String)
    (units : Int) : Int :=
  if q.of writer primaryFillId then units else 0

def remainingOf
    (lots : List SelfTradeLot) : Int :=
  (lots.map (fun lot =>
    q.weigh lot.writer lot.primaryFillId lot.remaining)).sum

def countedOf
    (portions : List Portion) : Int :=
  (portions.map (fun portion =>
    q.weigh portion.writer portion.primaryFillId
      portion.units)).sum

def attributedOf
    (attributed : List Attribution) : Int :=
  (attributed.map (fun a =>
    q.weigh (some a.writer) (some a.primaryFillId)
      a.units)).sum

@[simp]
theorem remainingOf_append
    (xs ys : List SelfTradeLot) :
    remainingOf q (xs ++ ys) =
      remainingOf q xs + remainingOf q ys := by
  unfold remainingOf
  rw [List.map_append, List.sum_append]

@[simp]
theorem countedOf_append
    (xs ys : List Portion) :
    countedOf q (xs ++ ys) =
      countedOf q xs + countedOf q ys := by
  unfold countedOf
  rw [List.map_append, List.sum_append]

@[simp]
theorem attributedOf_append
    (xs ys : List Attribution) :
    attributedOf q (xs ++ ys) =
      attributedOf q xs + attributedOf q ys := by
  unfold attributedOf
  rw [List.map_append, List.sum_append]

theorem Attributed.weigh_nonneg
    (writer primaryFillId : Option String)
    {units : Int}
    (h : 0 ≤ units) :
    0 ≤ q.weigh writer primaryFillId units := by
  unfold Attributed.weigh
  split
  · exact h
  · exact le_refl 0

@[simp]
theorem Attributed.weigh_none
    (units : Int) :
    q.weigh none none units = 0 := by
  unfold Attributed.weigh
  rw [q.none_of]
  rfl

theorem Attributed.weigh_sub
    (writer primaryFillId : Option String)
    (a b : Int) :
    q.weigh writer primaryFillId (a - b) =
      q.weigh writer primaryFillId a -
        q.weigh writer primaryFillId b := by
  unfold Attributed.weigh
  split
  · rfl
  · rfl

/- A lot holds no less than nothing, no more than its units. -/
structure SelfTradeLot.Ok
    (lot : SelfTradeLot) : Prop where
  nonneg : 0 ≤ lot.remaining
  within : lot.remaining ≤ lot.units
  lower : lot.writer.map key = lot.writer

structure Portion.Ok
    (portion : Portion) : Prop where
  nonneg : 0 ≤ portion.units
  lower : portion.writer.map key = portion.writer

/- Another lot at a position changes the weight by the two. -/
theorem remainingOf_set
    {lots : List SelfTradeLot}
    {position : Nat}
    {lot : SelfTradeLot}
    (hLot : lots[position]? = some lot)
    (lot' : SelfTradeLot) :
    remainingOf q (lots.set position lot') =
      remainingOf q lots -
          q.weigh lot.writer lot.primaryFillId lot.remaining +
        q.weigh lot'.writer lot'.primaryFillId
          lot'.remaining := by
  unfold remainingOf
  induction lots generalizing position with
  | nil => cases hLot
  | cons first rest ih =>
      cases position with
      | zero =>
          cases hLot
          simp only [List.set_cons_zero, List.map_cons,
            List.sum_cons]
          ring
      | succ position =>
          simp only [List.set_cons_succ, List.map_cons,
            List.sum_cons]
          rw [ih hLot]
          ring

/- Taking from lots moves weight into portions. -/
structure Consumption.Ok
    (state : Consumption)
    (before : List SelfTradeLot) : Prop where
  lots : ∀ lot ∈ state.lots, lot.Ok
  missing : 0 ≤ state.missing
  portions : ∀ portion ∈ state.portions, portion.Ok
  conserved :
    ∀ q,
      remainingOf q state.lots + countedOf q state.portions =
        remainingOf q before

theorem takeLot_ok
    {state : Consumption}
    {before : List SelfTradeLot}
    (h : state.Ok before)
    (position : Nat) :
    (takeLot state position).Ok before := by
  unfold takeLot
  split
  · exact h
  · split
    · exact h
    · next lot hLot =>
        have hIn := List.mem_of_getElem? hLot
        have hOk := h.lots lot hIn
        have hMissing := h.missing
        have hNonneg := hOk.nonneg
        generalize hTaken :
          (if lot.remaining < state.missing then lot.remaining
            else state.missing) = taken
        have hBounds :
            0 ≤ taken ∧ taken ≤ lot.remaining ∧
              taken ≤ state.missing := by
          rw [← hTaken]
          split <;> omega
        refine ⟨?_, ?_, ?_, ?_⟩
        · intro x hx
          rcases List.mem_or_eq_of_mem_set hx with hOld | rfl
          · exact h.lots x hOld
          · exact
              { nonneg := by
                  simp only
                  omega
                within := by
                  have hWithin := hOk.within
                  simp only
                  omega
                lower := hOk.lower }
        · simp only
          omega
        · intro portion hPortion
          rcases List.mem_append.mp hPortion with hOld | hNew
          · exact h.portions portion hOld
          · rw [List.mem_singleton.mp hNew]
            exact { nonneg := hBounds.1, lower := hOk.lower }
        · intro q
          have hConserved := h.conserved q
          simp only [remainingOf_set q hLot, countedOf_append,
            Attributed.weigh_sub]
          simp only [countedOf, List.map_cons, List.map_nil,
            List.sum_cons, List.sum_nil] at hConserved ⊢
          omega

theorem foldl_takeLot_ok
    {state : Consumption}
    {before : List SelfTradeLot}
    (h : state.Ok before)
    (positions : List Nat) :
    (positions.foldl takeLot state).Ok before := by
  induction positions generalizing state with
  | nil => exact h
  | cons position rest ih => exact ih (takeLot_ok h position)

/- What is consumed of a choice is what its lots lose. -/
theorem consume_ok
    (locale : Locale)
    {lots : List SelfTradeLot}
    (hLots : ∀ lot ∈ lots, lot.Ok)
    (longId : Int)
    (holder : String)
    {units : Int}
    (hUnits : 0 ≤ units) :
    (∀ lot ∈ (consume locale lots longId holder units).1,
        lot.Ok) ∧
      (∀ portion ∈ (consume locale lots longId holder units).2,
        portion.Ok) ∧
        ∀ q,
          remainingOf q
                (consume locale lots longId holder units).1 +
              countedOf q
                (consume locale lots longId holder units).2 =
            remainingOf q lots := by
  have hStart :
      Consumption.Ok
        { lots := lots
          missing := units
          portions := [] }
        lots :=
    { lots := hLots
      missing := hUnits
      portions := fun p hp => (List.not_mem_nil hp).elim
      conserved := fun q => by
        simp [countedOf] }
  have hEnd :=
    foldl_takeLot_ok hStart
      (openLots locale lots longId (key holder))
  unfold consume
  simp only
  generalize
    (openLots locale lots longId (key holder)).foldl takeLot
      { lots := lots
        missing := units
        portions := [] } = state at *
  refine ⟨hEnd.lots, ?_, ?_⟩
  · split
    · intro portion hPortion
      rcases List.mem_append.mp hPortion with hOld | hNew
      · exact hEnd.portions portion hOld
      · rw [List.mem_singleton.mp hNew]
        exact { nonneg := hEnd.missing, lower := rfl }
    · exact hEnd.portions
  · intro q
    have hConserved := hEnd.conserved q
    split
    · rw [countedOf_append]
      simpa [countedOf] using hConserved
    · exact hConserved

end

----
-- Each Event Keeps the Ledgers in Balance
----

section

/-
  Lots are well formed, no choice has more counted and left
  than was attributed to it, and makers tally the counted.
-/
structure Reduction.Balanced
    (state : Reduction) : Prop where
  lots : ∀ lot ∈ state.lots, lot.Ok
  balance :
    ∀ q,
      countedOf q state.counted + remainingOf q state.lots ≤
        attributedOf q state.attributed
  makers :
    ∀ w,
      state.makers.getD w 0 =
        countedOf (Attributed.writer w) state.counted
  writers : ∀ w, state.makers.has w = true → key w = w

variable {reads : RangeReads} {state : Reduction}
variable {lots : List SelfTradeLot}

/- Lots that are well formed and hold no more are as good. -/
theorem Reduction.Balanced.withLots
    (h : state.Balanced)
    (hOk : ∀ lot ∈ lots, lot.Ok)
    (hLess : ∀ q, remainingOf q lots ≤ remainingOf q state.lots) :
    Reduction.Balanced { state with lots := lots } where
  lots := hOk
  balance := by
    intro q
    have hOld := h.balance q
    have hNew := hLess q
    simp only
    omega
  makers := h.makers
  writers := h.writers

theorem expireLot_ok
    (at' : Int)
    (onlyLongId : Option Int)
    {lot : SelfTradeLot}
    (h : lot.Ok) :
    (expireLot reads at' onlyLongId lot).Ok ∧
      ∀ q : Attributed,
        q.weigh (expireLot reads at' onlyLongId lot).writer
            (expireLot reads at' onlyLongId lot).primaryFillId
            (expireLot reads at' onlyLongId lot).remaining ≤
          q.weigh lot.writer lot.primaryFillId lot.remaining := by
  have hNonneg := h.nonneg
  have hWithin := h.within
  unfold expireLot
  split
  · exact ⟨h, fun q => le_refl _⟩
  · split
    · exact ⟨h, fun q => le_refl _⟩
    · split
      · refine ⟨⟨le_refl 0, ?_, h.lower⟩, ?_⟩
        · simp only
          omega
        · intro q
          unfold Attributed.weigh
          split
          · exact hNonneg
          · exact le_refl 0
      · exact ⟨h, fun q => le_refl _⟩

theorem expire_balanced
    (at' : Int)
    (onlyLongId : Option Int)
    (h : state.Balanced) :
    Reduction.Balanced
      { state with
        lots := expire reads at' onlyLongId state.lots } := by
  apply h.withLots
  · intro lot hLot
    rcases List.mem_map.mp hLot with ⟨old, hOld, rfl⟩
    exact (expireLot_ok at' onlyLongId (h.lots old hOld)).1
  · intro q
    unfold remainingOf expire
    rw [List.map_map]
    apply List.sum_le_sum
    intro lot hLot
    exact (expireLot_ok at' onlyLongId (h.lots lot hLot)).2 q

/- A new lot is well formed and weighs its units. -/
theorem addLot_ok
    (hLots : ∀ lot ∈ lots, lot.Ok)
    (event : SelfTradeEvent)
    (id holder : String)
    {writer : Option String}
    (hLower : writer.map key = writer)
    (primaryFillId : Option String)
    {units : Int}
    (hUnits : 0 ≤ units) :
    (∀ lot ∈
        addLot lots
          (eventLot event id holder writer primaryFillId units),
        lot.Ok) ∧
      ∀ q,
        remainingOf q
            (addLot lots
              (eventLot event id holder writer primaryFillId
                units)) =
          remainingOf q lots +
            q.weigh writer primaryFillId units := by
  unfold addLot
  split
  · next hNone =>
      have hZero : units = 0 := by
        change units ≤ 0 at hNone
        omega
      refine ⟨hLots, ?_⟩
      intro q
      rw [hZero]
      unfold Attributed.weigh
      split <;> simp
  · constructor
    · intro lot hLot
      rcases List.mem_append.mp hLot with hOld | hNew
      · exact hLots lot hOld
      · rw [List.mem_singleton.mp hNew]
        exact
          { nonneg := hUnits
            within := le_refl units
            lower := by
              simp only [lowerLot, eventLot, Option.map_map]
              congr 1
              funext w
              exact key_key w }
    · intro q
      rw [remainingOf_append]
      simp only [remainingOf, lowerLot, eventLot, List.map_cons,
        List.map_nil, List.sum_cons, List.sum_nil, add_zero]
      rw [hLower]

/- A lot of ordinary inventory attributes nothing. -/
theorem addLot_plain_balanced
    (h : state.Balanced)
    (hOk : ∀ lot ∈ lots, lot.Ok)
    (hLess : ∀ q, remainingOf q lots ≤ remainingOf q state.lots)
    (event : SelfTradeEvent)
    (id holder : String)
    (hUnits : 0 ≤ event.units) :
    Reduction.Balanced
      { state with
        lots :=
          addLot lots
            (eventLot event id holder none none
              event.units) } := by
  obtain ⟨hLots, hWeight⟩ :=
    @addLot_ok lots hOk event id holder none rfl none _ hUnits
  apply h.withLots hLots
  intro q
  rw [hWeight, Attributed.weigh_none, add_zero]
  exact hLess q

/- A transfer passes on at most what it took. -/
theorem transferLots_ok
    (event : SelfTradeEvent)
    (sender recipient : String)
    (portions : List (Portion × Nat))
    (hPortions : ∀ portion ∈ portions, portion.1.Ok)
    (hLots : ∀ lot ∈ lots, lot.Ok) :
    (∀ lot ∈
        portions.foldl
          (fun lots portion =>
            addLot lots
              (eventLot event
                s!"transfer:{event.id}:{portion.2}" recipient
                (if reads.connected sender recipient then
                  portion.1.writer
                else none)
                (if reads.connected sender recipient then
                  portion.1.primaryFillId
                else none)
                portion.1.units))
          lots,
        lot.Ok) ∧
      ∀ q,
        remainingOf q
            (portions.foldl
              (fun lots portion =>
                addLot lots
                  (eventLot event
                    s!"transfer:{event.id}:{portion.2}"
                    recipient
                    (if reads.connected sender recipient then
                      portion.1.writer
                    else none)
                    (if reads.connected sender recipient then
                      portion.1.primaryFillId
                    else none)
                    portion.1.units))
              lots) ≤
          remainingOf q lots +
            countedOf q (portions.map Prod.fst) := by
  induction portions generalizing lots with
  | nil =>
      refine ⟨hLots, ?_⟩
      intro q
      simp [countedOf]
  | cons portion rest ih =>
      have hPortion := hPortions portion List.mem_cons_self
      obtain ⟨hOk, hWeight⟩ :=
        @addLot_ok lots hLots event
          s!"transfer:{event.id}:{portion.2}" recipient
          (if reads.connected sender recipient then
            portion.1.writer
          else none)
          (by
            split
            · exact hPortion.lower
            · rfl)
          (if reads.connected sender recipient then
            portion.1.primaryFillId
          else none)
          portion.1.units hPortion.nonneg
      obtain ⟨hRest, hLess⟩ :=
        ih (fun x hx => hPortions x (List.mem_cons_of_mem _ hx))
          hOk
      refine ⟨hRest, ?_⟩
      intro q
      have hTail := hLess q
      have hHead := hWeight q
      have hPass :
          q.weigh
              (if reads.connected sender recipient then
                portion.1.writer
              else none)
              (if reads.connected sender recipient then
                portion.1.primaryFillId
              else none)
              portion.1.units ≤
            q.weigh portion.1.writer portion.1.primaryFillId
              portion.1.units := by
        split
        · exact le_refl _
        · rw [Attributed.weigh_none]
          exact q.weigh_nonneg _ _ hPortion.nonneg
      rw [List.foldl_cons]
      simp only [countedOf, List.map_cons, List.sum_cons]
        at hTail ⊢
      omega

theorem reduceTransfer_balanced
    (h : state.Balanced)
    (event : SelfTradeEvent)
    (hUnits : 0 ≤ event.units)
    (sender recipient : String) :
    (reduceTransfer reads state event sender
      recipient).Balanced := by
  unfold reduceTransfer
  simp only
  split
  · exact h
  · obtain ⟨hLots, hPortions, hConserved⟩ :=
      consume_ok reads.locale h.lots event.longId (key sender)
        hUnits
    generalize
      consume reads.locale state.lots event.longId (key sender)
        event.units = taken at *
    have hIndexed : ∀ portion ∈ taken.2.zipIdx, portion.1.Ok :=
      fun portion hPortion =>
        hPortions _ (List.fst_mem_of_mem_zipIdx hPortion)
    obtain ⟨hOk, hLess⟩ :=
      @transferLots_ok reads _ event (key sender)
        (key recipient) _ hIndexed hLots
    unfold transferLots
    apply h.withLots hOk
    intro q
    have hPassed := hLess q
    have hTaken := hConserved q
    rw [List.zipIdx_map_fst] at hPassed
    omega

theorem reduceExit_balanced
    (h : state.Balanced)
    (event : SelfTradeEvent)
    (hUnits : 0 ≤ event.units)
    (holder : String) :
    (reduceExit reads state event holder).Balanced := by
  obtain ⟨hLots, hPortions, hConserved⟩ :=
    consume_ok reads.locale h.lots event.longId holder hUnits
  unfold reduceExit
  apply h.withLots hLots
  intro q
  have hTaken := hConserved q
  have hNonneg :
      0 ≤
        countedOf q
          (consume reads.locale state.lots event.longId holder
            event.units).2 := by
    unfold countedOf
    apply List.sum_nonneg
    intro x hx
    rcases List.mem_map.mp hx with ⟨portion, hPortion, rfl⟩
    exact q.weigh_nonneg _ _ (hPortions portion hPortion).nonneg
  omega

theorem primaryWriter_lower
    (reads : RangeReads)
    (fill : SelfTradeFill) :
    (primaryWriter reads fill).map key =
      primaryWriter reads fill := by
  unfold primaryWriter
  split
  · simp
  · rfl

theorem reducePrimary_balanced
    (h : state.Balanced)
    (event : SelfTradeEvent)
    (hUnits : 0 ≤ event.units)
    (fill : SelfTradeFill) :
    (reducePrimary reads state event fill).Balanced := by
  obtain ⟨hLots, hWeight⟩ :=
    addLot_ok h.lots event s!"fill:{event.id}" fill.buyer
      (primaryWriter_lower reads fill)
      ((primaryWriter reads fill).map (fun _ => event.id))
      hUnits
  unfold reducePrimary
  exact
    { lots := hLots
      balance := by
        intro q
        have hOld := h.balance q
        have hNew := hWeight q
        simp only
        rw [hNew, attributedOf_append]
        cases primaryWriter reads fill with
        | none =>
            simp [attributedOf] at hOld ⊢
            omega
        | some writer =>
            simp [attributedOf] at hOld ⊢
            omega
      makers := h.makers
      writers := h.writers }

end

----
-- A Batch Keeps the Ledgers in Balance
----

section

variable {reads : RangeReads} {state : Reduction}

theorem countPortion_getD
    (makers : OrderedMap String Int)
    (portions : List Portion)
    (w : String) :
    (portions.foldl countPortion makers).getD w 0 =
      makers.getD w 0 +
        countedOf (Attributed.writer w)
          (portions.filter (fun p => p.isCounted)) := by
  induction portions generalizing makers with
  | nil => simp [countedOf]
  | cons portion rest ih =>
      rw [List.foldl_cons, ih]
      cases hWriter : portion.writer with
      | none =>
          have hSkip : portion.isCounted = false := by
            unfold Portion.isCounted
            rw [hWriter]
            rfl
          rw [List.filter_cons_of_neg (by rw [hSkip]; decide)]
          unfold countPortion
          rw [hWriter]
      | some writer =>
          have hCount : portion.isCounted = true := by
            unfold Portion.isCounted
            rw [hWriter]
            rfl
          rw [List.filter_cons_of_pos hCount]
          unfold countPortion
          rw [hWriter]
          simp only [addMaker, OrderedMap.getD_set, countedOf,
            List.map_cons, List.sum_cons, Attributed.weigh,
            Attributed.writer, hWriter, Option.some.injEq]
          by_cases hSame : writer = w
          · subst hSame
            simp
            ring
          · simp [hSame]

variable {makers : OrderedMap String Int}

theorem countPortion_writers
    (portions : List Portion)
    (hPortions : ∀ portion ∈ portions, portion.Ok)
    (hMakers : ∀ w, makers.has w = true → key w = w) :
    ∀ w,
      (portions.foldl countPortion makers).has w = true →
        key w = w := by
  induction portions generalizing makers with
  | nil => exact hMakers
  | cons portion rest ih =>
      apply ih
        (fun x hx => hPortions x (List.mem_cons_of_mem _ hx))
      have hLower := (hPortions portion List.mem_cons_self).lower
      intro w hw
      unfold countPortion at hw
      cases hWriter : portion.writer with
      | none =>
          rw [hWriter] at hw
          exact hMakers w hw
      | some writer =>
          rw [hWriter] at hw hLower
          rcases (OrderedMap.has_set _ _ _ w).mp hw with
            rfl | hOld
          · exact Option.some.inj hLower
          · exact hMakers w hOld

theorem countedOf_filter_le
    (q : Attributed)
    {portions : List Portion}
    (hPortions : ∀ portion ∈ portions, portion.Ok) :
    countedOf q (portions.filter (fun p => p.isCounted)) ≤
      countedOf q portions := by
  unfold countedOf
  induction portions with
  | nil => exact le_refl _
  | cons portion rest ih =>
      have hRest :=
        ih (fun x hx => hPortions x (List.mem_cons_of_mem _ hx))
      have hNonneg :=
        q.weigh_nonneg portion.writer portion.primaryFillId
          (hPortions portion List.mem_cons_self).nonneg
      rw [List.filter_cons]
      split
      · rw [List.map_cons, List.sum_cons, List.map_cons,
          List.sum_cons]
        omega
      · rw [List.map_cons, List.sum_cons]
        omega

theorem reduceResale_balanced
    (h : state.Balanced)
    (event : SelfTradeEvent)
    (hUnits : 0 ≤ event.units)
    (fill : SelfTradeFill) :
    (reduceResale reads state event fill).Balanced := by
  obtain ⟨hLots, hPortions, hConserved⟩ :=
    consume_ok reads.locale h.lots event.longId fill.seller
      hUnits
  unfold reduceResale
  simp only
  generalize
    consume reads.locale state.lots event.longId fill.seller
      event.units = taken at *
  obtain ⟨hOk, hWeight⟩ :=
    @addLot_ok taken.1 hLots event s!"fill:{event.id}"
      fill.buyer none rfl none _ hUnits
  exact
    { lots := hOk
      balance := by
        intro q
        have hOld := h.balance q
        have hTaken := hConserved q
        have hLess := countedOf_filter_le q hPortions
        have hNew := hWeight q
        rw [Attributed.weigh_none] at hNew
        simp only
        rw [hNew, countedOf_append]
        omega
      makers := by
        intro w
        simp only
        rw [countPortion_getD, h.makers w, countedOf_append]
      writers :=
        countPortion_writers taken.2 hPortions h.writers }

theorem reduceKind_balanced
    (h : state.Balanced)
    (event : SelfTradeEvent)
    (hUnits : 0 ≤ event.units) :
    (reduceKind reads state event).Balanced := by
  unfold reduceKind
  cases event.kind with
  | mint holder =>
      exact
        addLot_plain_balanced h h.lots (fun q => le_refl _)
          event _ holder hUnits
  | transfer sender recipient =>
      exact
        reduceTransfer_balanced h event hUnits sender recipient
  | close holder =>
      exact reduceExit_balanced h event hUnits holder
  | redemption holder =>
      exact reduceExit_balanced h event hUnits holder
  | fill fill =>
      simp only
      split
      · exact reducePrimary_balanced h event hUnits fill
      · exact reduceResale_balanced h event hUnits fill

/- One event, of any kind, that does not throw. -/
theorem reduceEvent_balanced
    (h : state.Balanced)
    {event : SelfTradeEvent}
    {next : Reduction}
    (hRun : reduceEvent reads state event = some next) :
    next.Balanced := by
  unfold reduceEvent at hRun
  split at hRun
  · cases hRun
  · next hUnits =>
      have hExpired :=
        @expire_balanced reads state event.ts
          (some event.longId) h
      simp only at hRun
      split at hRun
      · cases hRun
        exact hExpired
      · cases hRun
        exact reduceKind_balanced hExpired event (by omega)

theorem foldlM_reduceEvent_balanced
    (events : List SelfTradeEvent)
    (h : state.Balanced)
    {final : Reduction}
    (hRun :
      events.foldlM (reduceEvent reads) state = some final) :
    final.Balanced := by
  induction events generalizing state with
  | nil =>
      cases hRun
      exact h
  | cons event rest ih =>
      rw [List.foldlM_cons] at hRun
      cases hEvent : reduceEvent reads state event with
      | none =>
          rw [hEvent] at hRun
          cases hRun
      | some next =>
          rw [hEvent] at hRun
          exact ih (reduceEvent_balanced h hEvent) hRun

/- What the makers' rows hold of a writer. -/
def tallyOf
    (makers : List SelfTradeMaker)
    (w : String) : Int :=
  ((makers.filter (fun row => row.writer = w)).map
    (fun row => row.units)).sum

/- The same ledgers, as they are stored between batches. -/
structure SelfTradeRun.Balanced
    (run : SelfTradeRun) : Prop where
  lots : ∀ lot ∈ run.state.lots, lot.Ok
  balance :
    ∀ q,
      countedOf q run.counted +
          remainingOf q run.state.lots ≤
        attributedOf q run.attributed
  distinct :
    (run.state.makers.map (fun row => row.writer)).Nodup
  writers :
    ∀ row ∈ run.state.makers, key row.writer = row.writer
  makers :
    ∀ w,
      tallyOf run.state.makers w =
        countedOf (Attributed.writer w) run.counted

theorem lowerLot_eq
    {lot : SelfTradeLot}
    (h : lot.Ok) :
    (lowerLot lot).writer = lot.writer :=
  h.lower

theorem addMakers_getD
    (rows : List SelfTradeMaker)
    (hRows : ∀ row ∈ rows, key row.writer = row.writer)
    (makers : OrderedMap String Int)
    (w : String) :
    (rows.foldl
        (fun makers maker =>
          addMaker makers (key maker.writer) maker.units)
        makers).getD w 0 =
      makers.getD w 0 + tallyOf rows w := by
  induction rows generalizing makers with
  | nil => simp [tallyOf]
  | cons row rest ih =>
      rw [List.foldl_cons,
        ih (fun x hx => hRows x (List.mem_cons_of_mem _ hx)),
        hRows row List.mem_cons_self]
      unfold addMaker tallyOf
      rw [OrderedMap.getD_set, List.filter_cons]
      by_cases hSame : row.writer = w
      · subst hSame
        simp
        ring
      · simp [hSame]

theorem addMakers_writers
    (rows : List SelfTradeMaker)
    (hMakers : ∀ w, makers.has w = true → key w = w) :
    ∀ w,
      (rows.foldl
          (fun makers maker =>
            addMaker makers (key maker.writer) maker.units)
          makers).has w = true →
        key w = w := by
  induction rows generalizing makers with
  | nil => exact hMakers
  | cons row rest ih =>
      apply ih
      intro w hw
      rcases (OrderedMap.has_set _ _ _ w).mp hw with rfl | hOld
      · exact key_key row.writer
      · exact hMakers w hOld

theorem beginReduction_balanced
    {run : SelfTradeRun}
    (h : run.Balanced) :
    (beginReduction run).Balanced where
  lots := by
    intro lot hLot
    rcases List.mem_map.mp hLot with ⟨old, hOld, rfl⟩
    have hOk := h.lots old hOld
    exact
      { nonneg := hOk.nonneg
        within := hOk.within
        lower := by
          rw [lowerLot_eq hOk]
          exact hOk.lower }
  balance := by
    intro q
    have hSame :
        remainingOf q (run.state.lots.map lowerLot) =
          remainingOf q run.state.lots := by
      unfold remainingOf
      rw [List.map_map]
      congr 1
      apply List.map_congr_left
      intro lot hLot
      simp only [Function.comp, lowerLot_eq (h.lots lot hLot)]
      rfl
    have hOld := h.balance q
    change
      countedOf q run.counted +
          remainingOf q (run.state.lots.map lowerLot) ≤
        attributedOf q run.attributed
    rw [hSame]
    exact hOld
  makers := by
    intro w
    have hStart := addMakers_getD run.state.makers h.writers
      OrderedMap.empty w
    have hTally := h.makers w
    change
      (run.state.makers.foldl
          (fun makers maker =>
            addMaker makers (key maker.writer) maker.units)
          OrderedMap.empty).getD w 0 =
        countedOf (Attributed.writer w) run.counted
    rw [hStart, hTally]
    exact zero_add _
  writers :=
    addMakers_writers run.state.makers
      (fun w hw => by cases hw)

theorem tallyOf_perm
    {xs ys : List SelfTradeMaker}
    (h : xs.Perm ys)
    (w : String) :
    tallyOf xs w = tallyOf ys w := by
  unfold tallyOf
  exact ((h.filter _).map _).sum_eq

/- One row of a writer is the whole tally. -/
theorem tallyOf_find?
    {rows : List SelfTradeMaker}
    (h : (rows.map (fun row => row.writer)).Nodup)
    (w : String) :
    tallyOf rows w =
      ((rows.find? (fun row => row.writer = w)).map
        (fun row => row.units)).getD 0 := by
  unfold tallyOf
  induction rows with
  | nil => rfl
  | cons row rest ih =>
      rw [List.map_cons, List.nodup_cons] at h
      by_cases hSame : row.writer = w
      · have hNone :
            rest.filter (fun row => row.writer = w) = [] := by
          rw [List.filter_eq_nil_iff]
          intro x hx hEq
          apply h.1
          rw [hSame, ← of_decide_eq_true hEq]
          exact
            List.mem_map_of_mem
              (f := fun row : SelfTradeMaker => row.writer) hx
        simp [hSame, hNone]
      · simpa [hSame] using ih h.2

/- A tally over a map's entries is what the map holds. -/
theorem tallyOf_entries
    (makers : OrderedMap String Int)
    (w : String) :
    tallyOf
        (makers.entries.map (fun entry =>
          { writer := entry.1
            units := entry.2 }))
        w =
      makers.getD w 0 := by
  rw [tallyOf_find?]
  · unfold OrderedMap.getD OrderedMap.get?
    rw [List.find?_map, Option.map_map]
    rfl
  · rw [List.map_map]
    exact makers.nodup

theorem reduceRun_balanced
    {locale : Locale}
    {run next : SelfTradeRun}
    {batch : SelfTradeBatch}
    (h : run.Balanced)
    (hRun : reduceRun locale run batch = some next) :
    next.Balanced := by
  unfold reduceRun at hRun
  split at hRun
  · cases hRun
    exact h
  · cases hFold :
        (batchEvents locale run.state batch).foldlM
          (reduceEvent
            (rangeReads locale
              (batchGraph locale run.state batch) batch))
          (beginReduction run) with
    | none =>
        simp only [hFold] at hRun
        cases hRun
    | some final =>
        simp only [hFold] at hRun
        cases hRun
        have hFinal :=
          foldlM_reduceEvent_balanced _
            (beginReduction_balanced h) hFold
        have hExpired :=
          @expire_balanced
            (rangeReads locale
              (batchGraph locale run.state batch) batch)
            final batch.throughTimestamp none hFinal
        have hRows :=
          List.perm_insertionSort
            (fun a b : SelfTradeMaker =>
              locale.before a.writer b.writer)
            (final.makers.entries.map (fun entry =>
              { writer := entry.1
                units := entry.2 }))
        exact
          { lots := fun lot hLot =>
              hExpired.lots lot
                ((List.mem_insertionSort _).mp hLot)
            balance := by
              intro q
              have hKept :=
                ((List.perm_insertionSort (lotBefore locale)
                  (expire
                    (rangeReads locale
                      (batchGraph locale run.state batch) batch)
                    batch.throughTimestamp none
                    final.lots)).map
                  (fun lot =>
                    q.weigh lot.writer lot.primaryFillId
                      lot.remaining)).sum_eq
              have hBalance := hExpired.balance q
              simp only [remainingOf] at hBalance ⊢
              rw [hKept]
              exact hBalance
            distinct := by
              apply (hRows.map _).nodup_iff.mpr
              rw [List.map_map]
              exact final.makers.nodup
            writers := by
              intro row hRow
              have hIn := hRows.mem_iff.mp hRow
              rcases List.mem_map.mp hIn with
                ⟨entry, hEntry, rfl⟩
              apply hFinal.writers
              rw [OrderedMap.has_iff]
              exact List.mem_map_of_mem hEntry
            makers := by
              intro w
              simp only
              rw [tallyOf_perm hRows, tallyOf_entries]
              exact hFinal.makers w }

end

----
-- Order of Evidence
----

section

variable {excluded : String → Bool}

/- The pair an address pair adds to the graph, if it adds one. -/
def acceptedPair
    (excluded : String → Bool)
    (raw : String × String) : Option (String × String) :=
  if key raw.1 = key raw.2 ∨ excluded (key raw.1) = true ∨
      excluded (key raw.2) = true then none
  else some (orderedPair (key raw.1) (key raw.2))

theorem Links.add_eq
    (graph : Links)
    (raw : String × String) :
    Links.add excluded graph raw =
      match acceptedPair excluded raw with
      | none => graph
      | some pair =>
          { edges :=
              graph.edges.set pair
                { left := pair.1
                  right := pair.2 }
            parent :=
              UnionFind.union graph.parent pair.1 pair.2 } := by
  unfold Links.add acceptedPair
  by_cases hSkip :
      key raw.1 = key raw.2 ∨ excluded (key raw.1) = true ∨
        excluded (key raw.2) = true
  · simp only [if_pos hSkip]
  · simp only [if_neg hSkip]

/- The graph's edges, and its classes, are those of the pairs. -/
structure Links.Holds
    (graph : Links)
    (pairs : String × String → Prop) : Prop where
  edges :
    ∀ pair link,
      graph.edges.get? pair = some link ↔
        pairs pair ∧ link = { left := pair.1, right := pair.2 }
  parent :
    UnionFind.Represents graph.parent (fun a b => pairs (a, b))

theorem Links.empty_holds :
    Links.empty.Holds (fun _ => False) where
  edges := by simp [Links.empty]
  parent := UnionFind.represents_empty

variable {graph : Links} {pairs : String × String → Prop}

theorem Links.Holds.congr
    {pairs' : String × String → Prop}
    (h : graph.Holds pairs)
    (hSame : ∀ pair, pairs pair ↔ pairs' pair) :
    graph.Holds pairs' := by
  have hEq : pairs = pairs' := funext fun pair =>
    propext (hSame pair)
  rw [← hEq]
  exact h

theorem Links.Holds.add
    (h : graph.Holds pairs)
    (raw : String × String) :
    (Links.add excluded graph raw).Holds
      (fun pair =>
        pairs pair ∨ acceptedPair excluded raw = some pair) := by
  rw [Links.add_eq]
  cases hPair : acceptedPair excluded raw with
  | none => exact h.congr (fun pair => by simp)
  | some new =>
      rcases new with ⟨left, right⟩
      constructor
      · intro pair link
        simp only
        rw [OrderedMap.get?_set]
        by_cases hSame : (left, right) = pair
        · subst hSame
          simp [eq_comm]
        · rw [if_neg hSame, h.edges]
          simp [hSame]
      · have hUnion := h.parent.union left right
        have hEq :
            (fun a b => pairs (a, b) ∨ a = left ∧ b = right) =
              fun a b =>
                pairs (a, b) ∨
                  some (left, right) = some (a, b) := by
          funext a b
          simp [eq_comm]
        rw [hEq] at hUnion
        exact hUnion

theorem Links.foldl_add_holds
    (raws : List (String × String))
    (h : graph.Holds pairs) :
    (raws.foldl (Links.add excluded) graph).Holds
      (fun pair =>
        pairs pair ∨
          ∃ raw ∈ raws, acceptedPair excluded raw = some pair) := by
  induction raws generalizing graph pairs with
  | nil => exact h.congr (fun pair => by simp)
  | cons raw rest ih =>
      rw [List.foldl_cons]
      apply (ih (h.add raw)).congr
      intro pair
      rw [List.exists_mem_cons_iff, or_assoc]

/- Two graphs of the same pairs hold the same edges. -/
theorem Links.Holds.values_perm
    {graph' : Links}
    (h : graph.Holds pairs)
    (h' : graph'.Holds pairs) :
    graph.edges.values.Perm graph'.edges.values := by
  unfold OrderedMap.values
  apply List.Perm.map
  rw [List.perm_ext_iff_of_nodup
    (List.Nodup.of_map _ graph.edges.nodup)
    (List.Nodup.of_map _ graph'.edges.nodup)]
  rintro ⟨pair, link⟩
  rw [OrderedMap.mem_entries_iff, OrderedMap.mem_entries_iff,
    h.edges, h'.edges]

/- Two graphs of the same pairs connect the same addresses. -/
theorem Links.Holds.connected_eq
    {graph' : Links}
    (h : graph.Holds pairs)
    (h' : graph'.Holds pairs) :
    graph.connected excluded = graph'.connected excluded := by
  funext left right
  unfold Links.connected
  simp only
  split
  · rfl
  · split
    · rfl
    · next hNe =>
        rw [Bool.eq_iff_iff, h.parent.connected_iff hNe,
          h'.parent.connected_iff hNe]

/- Sorting forgets the order of a list whose ties are equal. -/
theorem insertionSort_eq_of_perm
    {α : Type}
    (r : α → α → Prop)
    [DecidableRel r]
    (hTotal : ∀ a b, r a b ∨ r b a)
    (hTrans : ∀ a b c, r a b → r b c → r a c)
    {xs ys : List α}
    (hPerm : xs.Perm ys)
    (hTies : ∀ a ∈ xs, ∀ b ∈ xs, r a b → r b a → a = b) :
    xs.insertionSort r = ys.insertionSort r := by
  have : Std.Total r := ⟨hTotal⟩
  have : IsTrans α r := ⟨hTrans⟩
  apply List.Perm.eq_of_pairwise
    _ (List.pairwise_insertionSort r xs)
    (List.pairwise_insertionSort r ys)
  · exact
      ((List.perm_insertionSort r xs).trans hPerm).trans
        (List.perm_insertionSort r ys).symm
  · intro a b ha hb
    rw [List.mem_insertionSort] at ha hb
    exact hTies a ha b (hPerm.mem_iff.mpr hb)

theorem Locale.before_total
    (locale : Locale)
    (a b : String) :
    locale.before a b ∨ locale.before b a :=
  locale.le_total a b

theorem Locale.before_trans
    (locale : Locale)
    {a b c : String}
    (hab : locale.before a b)
    (hbc : locale.before b c) :
    locale.before a c :=
  locale.le_trans a b c hab hbc

theorem Locale.before_antisymm
    (locale : Locale)
    {a b : String}
    (hab : locale.before a b)
    (hba : locale.before b a) :
    a = b :=
  locale.le_antisymm a b hab hba

theorem positionBefore_total
    (locale : Locale)
    (a b : SelfTradeEvent) :
    positionBefore locale a b ∨ positionBefore locale b a := by
  unfold positionBefore
  have hIds := locale.before_total a.id b.id
  rcases lt_trichotomy a.block b.block with hBlock | hBlock | hBlock
  · exact .inl (.inl hBlock)
  · rcases lt_trichotomy a.logIndex b.logIndex with
      hLog | hLog | hLog
    · exact .inl (.inr ⟨hBlock, .inl hLog⟩)
    · rcases hIds with hId | hId
      · exact .inl (.inr ⟨hBlock, .inr ⟨hLog, hId⟩⟩)
      · exact .inr (.inr ⟨hBlock.symm, .inr ⟨hLog.symm, hId⟩⟩)
    · exact .inr (.inr ⟨hBlock.symm, .inl hLog⟩)
  · exact .inr (.inl hBlock)

theorem positionBefore_trans
    (locale : Locale)
    (a b c : SelfTradeEvent)
    (hab : positionBefore locale a b)
    (hbc : positionBefore locale b c) :
    positionBefore locale a c := by
  unfold positionBefore at *
  rcases hab with hab | ⟨hBlock, hab⟩
  · rcases hbc with hbc | ⟨hBlock', _⟩
    · exact .inl (hab.trans hbc)
    · exact .inl (hBlock' ▸ hab)
  · rcases hbc with hbc | ⟨hBlock', hbc⟩
    · exact .inl (hBlock.symm ▸ hbc)
    · refine .inr ⟨hBlock.trans hBlock', ?_⟩
      rcases hab with hab | ⟨hLog, hab⟩
      · rcases hbc with hbc | ⟨hLog', _⟩
        · exact .inl (hab.trans hbc)
        · exact .inl (hLog' ▸ hab)
      · rcases hbc with hbc | ⟨hLog', hbc⟩
        · exact .inl (hLog.symm ▸ hbc)
        · exact
            .inr
              ⟨hLog.trans hLog', locale.before_trans hab hbc⟩

/- Events that tie are in one place of the chain, with one id. -/
theorem positionBefore_tie
    (locale : Locale)
    {a b : SelfTradeEvent}
    (hab : positionBefore locale a b)
    (hba : positionBefore locale b a) :
    a.block = b.block ∧ a.logIndex = b.logIndex ∧
      a.id = b.id := by
  unfold positionBefore at *
  rcases hab with hab | ⟨hBlock, hab⟩
  · rcases hba with hba | ⟨hBlock, _⟩ <;> omega
  · rcases hba with hba | ⟨_, hba⟩
    · omega
    · rcases hab with hab | ⟨hLog, hab⟩
      · rcases hba with hba | ⟨hLog, _⟩ <;> omega
      · rcases hba with hba | ⟨_, hba⟩
        · omega
        · exact ⟨hBlock, hLog, locale.before_antisymm hab hba⟩

theorem linkBefore_total
    (locale : Locale)
    (a b : SelfTradeLink) :
    linkBefore locale a b ∨ linkBefore locale b a := by
  let _ := locale
  unfold linkBefore
  rcases lt_trichotomy a.left b.left with hLeft | hLeft | hLeft
  · exact .inl (.inl hLeft)
  · rcases locale.before_total a.right b.right with
      hRight | hRight
    · exact .inl (.inr ⟨hLeft, hRight⟩)
    · exact .inr (.inr ⟨hLeft.symm, hRight⟩)
  · exact .inr (.inl hLeft)

theorem linkBefore_trans
    (locale : Locale)
    (a b c : SelfTradeLink)
    (hab : linkBefore locale a b)
    (hbc : linkBefore locale b c) :
    linkBefore locale a c := by
  let _ := locale
  unfold linkBefore at *
  rcases hab with hab | ⟨hLeft, hab⟩
  · rcases hbc with hbc | ⟨hLeft, _⟩
    · exact .inl (lt_trans hab hbc)
    · exact .inl (hLeft ▸ hab)
  · rcases hbc with hbc | ⟨hLeft', hbc⟩
    · exact .inl (hLeft.symm ▸ hbc)
    · exact
        .inr
          ⟨hLeft.trans hLeft', locale.before_trans hab hbc⟩

theorem linkBefore_antisymm
    (locale : Locale)
    {a b : SelfTradeLink}
    (hab : linkBefore locale a b)
    (hba : linkBefore locale b a) :
    a = b := by
  let _ := locale
  rcases a with ⟨left, right⟩
  rcases b with ⟨left', right'⟩
  unfold linkBefore at *
  simp only at hab hba
  rcases hab with hab | ⟨rfl, hab⟩
  · rcases hba with hba | ⟨rfl, _⟩
    · exact absurd hba (lt_asymm hab)
    · exact absurd hab (lt_irrefl _)
  · rcases hba with hba | ⟨_, hba⟩
    · exact absurd hba (lt_irrefl _)
    · rw [locale.before_antisymm hab hba]

/- The same batch, its events and its evidence in other orders. -/
structure SelfTradeBatch.Reorders
    (batch batch' : SelfTradeBatch) : Prop where
  events : batch.events.Perm batch'.events
  evidence : batch.linkEvidence.Perm batch'.linkEvidence
  rest :
    batch' =
      { batch with
        events := batch'.events
        linkEvidence := batch'.linkEvidence }

/-
  Rows of one log are told apart by their ids: every event is
  the row of a table whose primary key its id is.
-/
def SelfTradeBatch.Keyed
    (batch : SelfTradeBatch) : Prop :=
  ∀ a ∈ batch.events, ∀ b ∈ batch.events,
    a.block = b.block → a.logIndex = b.logIndex →
      a.id = b.id → a = b

section Reordered

variable {batch batch' : SelfTradeBatch}

theorem batchEvents_reordered
    (locale : Locale)
    (state : SelfTradeState)
    (h : batch.Reorders batch')
    (hKeyed : batch.Keyed) :
    batchEvents locale state batch =
      batchEvents locale state batch' := by
  have hThrough : batch'.through = batch.through := by
    rw [h.rest]
  unfold batchEvents
  rw [hThrough]
  apply
    insertionSort_eq_of_perm _ (positionBefore_total locale)
      (positionBefore_trans locale) (h.events.filter _)
  intro a ha b hb hab hba
  rcases positionBefore_tie locale hab hba with
    ⟨hBlock, hLog, hId⟩
  exact
    hKeyed a (List.mem_of_mem_filter ha) b
      (List.mem_of_mem_filter hb) hBlock hLog hId

theorem batchLinks_reordered
    (locale : Locale)
    (state : SelfTradeState)
    (h : batch.Reorders batch')
    (hKeyed : batch.Keyed) :
    (batchLinks locale state batch).Perm
      (batchLinks locale state batch') := by
  have hLink : eventLink batch = eventLink batch' := by
    rw [h.rest]
    rfl
  unfold batchLinks
  rw [batchEvents_reordered locale state h hKeyed, hLink]
  exact ((h.evidence.map _).append_left _).append_right _

theorem isExcluded_reordered
    (h : batch.Reorders batch') :
    isExcluded batch = isExcluded batch' := by
  rw [h.rest]
  rfl

/- Both orders build the graph of the same pairs. -/
theorem batchGraph_reordered
    (locale : Locale)
    (state : SelfTradeState)
    (h : batch.Reorders batch')
    (hKeyed : batch.Keyed) :
    ∃ pairs,
      (batchGraph locale state batch).Holds pairs ∧
        (batchGraph locale state batch').Holds pairs := by
  have hLinks := batchLinks_reordered locale state h hKeyed
  refine
    ⟨_,
      Links.foldl_add_holds (batchLinks locale state batch)
        Links.empty_holds, ?_⟩
  unfold batchGraph
  rw [← isExcluded_reordered h]
  apply
    (Links.foldl_add_holds (batchLinks locale state batch')
      Links.empty_holds).congr
  intro pair
  simp only [hLinks.mem_iff]

theorem rangeReads_reordered
    (locale : Locale)
    (h : batch.Reorders batch')
    {graph graph' : Links}
    {pairs : String × String → Prop}
    (hGraph : graph.Holds pairs)
    (hGraph' : graph'.Holds pairs) :
    rangeReads locale graph batch =
      rangeReads locale graph' batch' := by
  have hConnected :=
    @Links.Holds.connected_eq (isExcluded batch) graph pairs
      graph' hGraph hGraph'
  unfold rangeReads
  rw [hConnected, h.rest]
  rfl

/- Neither order, of the events or of the evidence, matters. -/
theorem reduceRun_reordered
    (locale : Locale)
    (run : SelfTradeRun)
    (h : batch.Reorders batch')
    (hKeyed : batch.Keyed) :
    reduceRun locale run batch =
      reduceRun locale run batch' := by
  rcases batchGraph_reordered locale run.state h hKeyed with
    ⟨pairs, hGraph, hGraph'⟩
  have hReads := rangeReads_reordered locale h hGraph hGraph'
  have hLinks :
      (batchGraph locale run.state batch).edges.values.insertionSort
          (linkBefore locale) =
        (batchGraph locale run.state batch').edges.values.insertionSort
          (linkBefore locale) :=
    insertionSort_eq_of_perm _ (linkBefore_total locale)
      (linkBefore_trans locale) (hGraph.values_perm hGraph')
      (fun a _ b _ hab hba =>
        linkBefore_antisymm locale hab hba)
  have hThrough : batch'.through = batch.through := by
    rw [h.rest]
  have hTimestamp :
      batch'.throughTimestamp = batch.throughTimestamp := by
    rw [h.rest]
  unfold reduceRun
  simp only
  rw [hReads, hLinks,
    batchEvents_reordered locale run.state h hKeyed, hThrough,
    hTimestamp]

end Reordered

end

----
-- Runs of Batches
----

def emptySelfTradeRun
    (cursor : Int) : SelfTradeRun :=
  { state := emptySelfTradeState cursor
    counted := []
    attributed := [] }

theorem emptySelfTradeRun_balanced
    (cursor : Int) :
    (emptySelfTradeRun cursor).Balanced where
  lots := by
    intro lot hLot
    cases hLot
  balance := fun q => le_refl 0
  distinct := List.nodup_nil
  writers := by
    intro row hRow
    cases hRow
  makers := fun w => rfl

/- Two reductions that differ in their histories only. -/
structure Reduction.Same
    (a b : Reduction) : Prop where
  lots : a.lots = b.lots
  makers : a.makers = b.makers
  unseen : a.unseen = b.unseen

variable {a b : Reduction}

theorem reduceKind_same
    (reads : RangeReads)
    (h : a.Same b)
    (event : SelfTradeEvent) :
    (reduceKind reads a event).Same
      (reduceKind reads b event) := by
  rcases a with ⟨lots, makers, unseen, _, _⟩
  rcases b with ⟨lots', makers', unseen', _, _⟩
  rcases h with ⟨hLots, hMakers, hUnseen⟩
  simp only at hLots hMakers hUnseen
  subst hLots hMakers hUnseen
  unfold reduceKind
  cases event.kind with
  | mint holder => exact ⟨rfl, rfl, rfl⟩
  | transfer sender recipient =>
      simp only [reduceTransfer]
      split
      · exact ⟨rfl, rfl, rfl⟩
      · exact ⟨rfl, rfl, rfl⟩
  | close holder => exact ⟨rfl, rfl, rfl⟩
  | redemption holder => exact ⟨rfl, rfl, rfl⟩
  | fill fill =>
      simp only
      split
      · exact ⟨rfl, rfl, rfl⟩
      · exact ⟨rfl, rfl, rfl⟩

variable {event : SelfTradeEvent}

/- No event reads a history. -/
theorem reduceEvent_same
    (reads : RangeReads)
    {a' : Reduction}
    (h : a.Same b)
    (hRun : reduceEvent reads a event = some a') :
    ∃ b', reduceEvent reads b event = some b' ∧ a'.Same b' := by
  have hExpired :
      Reduction.Same
        { a with
          lots :=
            expire reads event.ts (some event.longId) a.lots }
        { b with
          lots :=
            expire reads event.ts (some event.longId) b.lots } :=
    { lots := by
        simp only
        rw [h.lots]
      makers := h.makers
      unseen := h.unseen }
  unfold reduceEvent at *
  split at hRun
  · cases hRun
  · next hUnits =>
      simp only [if_neg hUnits] at hRun ⊢
      split at hRun
      · next hDone =>
          cases hRun
          rw [if_pos hDone]
          exact ⟨_, rfl, hExpired⟩
      · next hMore =>
          cases hRun
          rw [if_neg hMore]
          exact ⟨_, rfl, reduceKind_same reads hExpired event⟩

theorem foldlM_reduceEvent_same
    (reads : RangeReads)
    (events : List SelfTradeEvent)
    {a' : Reduction}
    (h : a.Same b)
    (hRun : events.foldlM (reduceEvent reads) a = some a') :
    ∃ b',
      events.foldlM (reduceEvent reads) b = some b' ∧
        a'.Same b' := by
  induction events generalizing a b with
  | nil =>
      cases hRun
      exact ⟨b, rfl, h⟩
  | cons event rest ih =>
      rw [List.foldlM_cons] at hRun ⊢
      cases hEvent : reduceEvent reads a event with
      | none =>
          rw [hEvent] at hRun
          cases hRun
      | some next =>
          rw [hEvent] at hRun
          rcases reduceEvent_same reads h hEvent with
            ⟨next', hEvent', hSame⟩
          rw [hEvent']
          exact ih hSame hRun

variable {locale : Locale} {batch : SelfTradeBatch}

/- A state's step is the step of a run of any history. -/
theorem reduceRun_of_reduceSelfTrade
    {state next : SelfTradeState}
    (h : reduceSelfTrade locale state batch = some next)
    (counted : List Portion)
    (attributed : List Attribution) :
    ∃ run,
      run.state = next ∧
        reduceRun locale
            { state := state
              counted := counted
              attributed := attributed }
            batch =
          some run := by
  unfold reduceSelfTrade reduceRun at *
  simp only at *
  split at h
  · next hDone =>
      cases h
      rw [if_pos hDone]
      exact
        ⟨{ state := state
           counted := counted
           attributed := attributed },
          rfl, rfl⟩
  · next hMore =>
      rw [if_neg hMore]
      generalize
        rangeReads locale (batchGraph locale state batch) batch =
          reads at *
      cases hFold :
          (batchEvents locale state batch).foldlM
            (reduceEvent reads)
            (beginReduction
              { state := state
                counted := []
                attributed := [] }) with
      | none =>
          rw [hFold] at h
          cases h
      | some final =>
          rw [hFold] at h
          cases h
          have hBegin :
              (beginReduction
                  { state := state
                    counted := []
                    attributed := [] }).Same
                (beginReduction
                  { state := state
                    counted := counted
                    attributed := attributed }) :=
            ⟨rfl, rfl, rfl⟩
          rcases
              foldlM_reduceEvent_same reads _ hBegin hFold with
            ⟨final', hFold', hSame⟩
          rw [hFold']
          refine ⟨_, ?_, rfl⟩
          simp only [hSame.lots, hSame.makers, hSame.unseen]

/- Every run of the states has its history. -/
theorem foldlM_reduceRun
    (batches : List SelfTradeBatch)
    {run : SelfTradeRun}
    {next : SelfTradeState}
    (h :
      batches.foldlM (reduceSelfTrade locale) run.state =
        some next) :
    ∃ run',
      run'.state = next ∧
        batches.foldlM (reduceRun locale) run = some run' := by
  induction batches generalizing run with
  | nil =>
      cases h
      exact ⟨run, rfl, rfl⟩
  | cons batch rest ih =>
      rw [List.foldlM_cons] at h
      cases hStep : reduceSelfTrade locale run.state batch with
      | none =>
          rw [hStep] at h
          cases h
      | some state =>
          rw [hStep] at h
          rcases
              reduceRun_of_reduceSelfTrade hStep run.counted
                run.attributed with
            ⟨mid, rfl, hMid⟩
          rcases ih h with ⟨run', hState, hRest⟩
          refine ⟨run', hState, ?_⟩
          rw [List.foldlM_cons]
          change
            (reduceRun locale
                { state := run.state
                  counted := run.counted
                  attributed := run.attributed }
                batch >>=
              fun next => rest.foldlM (reduceRun locale) next) =
              some run'
          rw [hMid]
          exact hRest

theorem foldlM_reduceRun_balanced
    (batches : List SelfTradeBatch)
    {run next : SelfTradeRun}
    (h : run.Balanced)
    (hRun :
      batches.foldlM (reduceRun locale) run = some next) :
    next.Balanced := by
  induction batches generalizing run with
  | nil =>
      cases hRun
      exact h
  | cons batch rest ih =>
      rw [List.foldlM_cons] at hRun
      cases hStep : reduceRun locale run batch with
      | none =>
          rw [hStep] at hRun
          cases hRun
      | some mid =>
          rw [hStep] at hRun
          exact ih (reduceRun_balanced h hStep) hRun

theorem SelfTradeRun.Balanced.unitsFor
    {run : SelfTradeRun}
    (h : run.Balanced)
    (w : String) :
    selfTradeUnitsFor run.state w =
      countedOf (Attributed.writer (key w)) run.counted := by
  rw [← h.makers, tallyOf_find? h.distinct]
  rfl

----
-- The Fills That Are Attributed
----

/-
  What a fill adds to the attributed ones, if its sides are
  linked: a taker's purchase at the minimum price.
-/
def SelfTradeEvent.attribution
    (event : SelfTradeEvent) : Option Attribution :=
  match event.kind with
  | .fill fill =>
      if fill.primary && fill.takerIsBuyer &&
          minimumPrice fill then
        some
          { writer := key fill.seller
            primaryFillId := event.id
            units := event.units }
      else none
  | _ => none

/-
  The events of a run, each taken once: a batch takes those
  after the cursor, up to its `through`.
-/
def takenEvents
    (cursor : Int) :
    List SelfTradeBatch → List SelfTradeEvent
  | [] => []
  | batch :: rest =>
      if batch.through ≤ cursor then takenEvents cursor rest
      else
        batch.events.filter
            (fun event =>
              decide (event.block > cursor) &&
                decide (event.block ≤ batch.through)) ++
          takenEvents batch.through rest

def SelfTradeEvent.isFill
    (event : SelfTradeEvent) : Bool :=
  match event.kind with
  | .fill _ => true
  | _ => false

/-
  A batch lists rows of tables, each once, and the fills are
  the rows of one table, told apart by their ids.
-/
structure TableRows
    (batches : List SelfTradeBatch) : Prop where
  nodup : ∀ batch ∈ batches, batch.events.Nodup
  fills :
    ∀ batch ∈ batches, ∀ batch' ∈ batches,
      ∀ a ∈ batch.events, ∀ b ∈ batch'.events,
        a.isFill = true → b.isFill = true →
          a.id = b.id → a = b

theorem reduceKind_attributed
    (reads : RangeReads)
    (state : Reduction)
    (event : SelfTradeEvent) :
    ∃ more : List Attribution,
      (reduceKind reads state event).attributed =
          state.attributed ++ more ∧
        more.Sublist event.attribution.toList := by
  have hNone : state.attributed = state.attributed ++ [] :=
    (List.append_nil _).symm
  unfold reduceKind SelfTradeEvent.attribution
  cases event.kind with
  | mint holder =>
      exact ⟨[], hNone, List.nil_sublist _⟩
  | transfer sender recipient =>
      refine ⟨[], ?_, List.nil_sublist _⟩
      simp only [reduceTransfer]
      split
      · exact hNone
      · exact hNone
  | close holder =>
      exact ⟨[], hNone, List.nil_sublist _⟩
  | redemption holder =>
      exact ⟨[], hNone, List.nil_sublist _⟩
  | fill fill =>
      simp only
      split
      · next hPrimary =>
          refine ⟨_, rfl, ?_⟩
          cases hWriter : primaryWriter reads fill with
          | none => exact List.nil_sublist _
          | some writer =>
              unfold primaryWriter at hWriter
              split at hWriter
              · next hCounted =>
                  cases hWriter
                  rw [Bool.and_eq_true] at hCounted
                  rw [hPrimary, Bool.true_and,
                    if_pos hCounted.1]
                  exact List.Sublist.refl _
              · cases hWriter
      · exact ⟨[], hNone, List.nil_sublist _⟩

theorem reduceEvent_attributed
    {reads : RangeReads}
    {state next : Reduction}
    (h : reduceEvent reads state event = some next) :
    0 ≤ event.units ∧
      ∃ more : List Attribution,
        next.attributed = state.attributed ++ more ∧
          more.Sublist event.attribution.toList := by
  unfold reduceEvent at h
  split at h
  · cases h
  · next hUnits =>
      refine ⟨not_lt.mp hUnits, ?_⟩
      simp only at h
      split at h
      · cases h
        exact
          ⟨[], (List.append_nil _).symm,
            List.nil_sublist _⟩
      · cases h
        exact reduceKind_attributed reads _ event

theorem foldlM_reduceEvent_attributed
    {reads : RangeReads}
    (events : List SelfTradeEvent)
    {state final : Reduction}
    (h :
      events.foldlM (reduceEvent reads) state =
        some final) :
    (∀ event ∈ events, 0 ≤ event.units) ∧
      ∃ more : List Attribution,
        final.attributed = state.attributed ++ more ∧
          more.Sublist
            (events.filterMap
              SelfTradeEvent.attribution) := by
  induction events generalizing state with
  | nil =>
      cases h
      exact
        ⟨by simp,
          [], (List.append_nil _).symm, List.nil_sublist _⟩
  | cons event rest ih =>
      rw [List.foldlM_cons] at h
      cases hEvent : reduceEvent reads state event with
      | none =>
          rw [hEvent] at h
          cases h
      | some next =>
          rw [hEvent] at h
          rcases reduceEvent_attributed hEvent with
            ⟨hUnits, first, hFirst, hHead⟩
          rcases ih h with ⟨hRest, later, hLater, hTail⟩
          refine
            ⟨List.forall_mem_cons.mpr ⟨hUnits, hRest⟩,
              first ++ later, ?_, ?_⟩
          · rw [hLater, hFirst, List.append_assoc]
          · rw [List.filterMap_cons]
            cases hAttribution : event.attribution with
            | none =>
                rw [hAttribution] at hHead
                rw [List.sublist_nil.mp hHead]
                exact hTail
            | some a =>
                rw [hAttribution] at hHead
                exact hHead.append hTail

/- A batch attributes no fill that it does not take. -/
theorem reduceRun_attributed
    {run next : SelfTradeRun}
    (hAhead : ¬ batch.through ≤ run.state.cursor)
    (h : reduceRun locale run batch = some next) :
    next.state.cursor = batch.through ∧
      (∀ event ∈ batchEvents locale run.state batch,
        0 ≤ event.units) ∧
      ∃ more : List Attribution,
        next.attributed = run.attributed ++ more ∧
          more.Sublist
            ((batchEvents locale run.state batch).filterMap
              SelfTradeEvent.attribution) := by
  unfold reduceRun at h
  rw [if_neg hAhead] at h
  simp only at h
  generalize
    rangeReads locale (batchGraph locale run.state batch)
        batch =
      reads at h
  cases hFold :
      (batchEvents locale run.state batch).foldlM
        (reduceEvent reads) (beginReduction run) with
  | none =>
      rw [hFold] at h
      cases h
  | some final =>
      rw [hFold] at h
      cases h
      exact ⟨rfl, foldlM_reduceEvent_attributed _ hFold⟩

/- Over a run, each event it takes is attributed once. -/
theorem foldlM_reduceRun_attributed
    (batches : List SelfTradeBatch)
    {run final : SelfTradeRun}
    (h :
      batches.foldlM (reduceRun locale) run = some final) :
    (∀ event ∈ takenEvents run.state.cursor batches,
        0 ≤ event.units) ∧
      ∃ more : List Attribution,
        final.attributed = run.attributed ++ more ∧
          more.Subperm
            ((takenEvents run.state.cursor batches).filterMap
              SelfTradeEvent.attribution) := by
  induction batches generalizing run with
  | nil =>
      cases h
      exact
        ⟨by simp [takenEvents],
          [], (List.append_nil _).symm,
          List.nil_subperm⟩
  | cons batch rest ih =>
      rw [List.foldlM_cons] at h
      cases hStep : reduceRun locale run batch with
      | none =>
          rw [hStep] at h
          cases h
      | some next =>
          rw [hStep] at h
          rcases ih h with ⟨hLaterUnits, later, hLater, hTail⟩
          unfold takenEvents
          by_cases hOld : batch.through ≤ run.state.cursor
          · have hSame : next = run := by
              unfold reduceRun at hStep
              rw [if_pos hOld] at hStep
              exact (Option.some.inj hStep).symm
            rw [if_pos hOld]
            subst hSame
            exact ⟨hLaterUnits, later, hLater, hTail⟩
          · rcases reduceRun_attributed hOld hStep with
              ⟨hCursor, hUnits, first, hFirst, hHead⟩
            have hSorted :=
              List.perm_insertionSort (positionBefore locale)
                (batch.events.filter
                  (fun event =>
                    decide
                        (event.block > run.state.cursor) &&
                      decide
                        (event.block ≤ batch.through)))
            rw [hCursor] at hLaterUnits hTail
            rw [if_neg hOld]
            refine ⟨?_, first ++ later, ?_, ?_⟩
            · intro event hEvent
              rcases List.mem_append.mp hEvent with
                hHere | hThere
              · exact hUnits event (hSorted.symm.subset hHere)
              · exact hLaterUnits event hThere
            · rw [hLater, hFirst, List.append_assoc]
            · rw [List.filterMap_append]
              exact
                (hHead.subperm.trans
                  (hSorted.filterMap _).subperm).append hTail

variable {cursor : Int}

theorem cursor_lt_of_taken
    (batches : List SelfTradeBatch)
    (h : event ∈ takenEvents cursor batches) :
    cursor < event.block := by
  induction batches generalizing cursor with
  | nil => cases h
  | cons batch rest ih =>
      unfold takenEvents at h
      split at h
      · exact ih h
      · next hAhead =>
          rcases List.mem_append.mp h with hHere | hThere
          · have hBlock := (List.mem_filter.mp hHere).2
            simp only [Bool.and_eq_true,
              decide_eq_true_eq] at hBlock
            exact hBlock.1
          · exact (not_le.mp hAhead).trans (ih hThere)

theorem mem_batch_of_taken
    (batches : List SelfTradeBatch)
    (h : event ∈ takenEvents cursor batches) :
    ∃ batch ∈ batches, event ∈ batch.events := by
  induction batches generalizing cursor with
  | nil => cases h
  | cons batch rest ih =>
      have hLater :
          ∀ {cursor : Int},
            event ∈ takenEvents cursor rest →
              ∃ b ∈ batch :: rest, event ∈ b.events := by
        intro cursor hRest
        rcases ih hRest with ⟨b, hb, hEvent⟩
        exact ⟨b, List.mem_cons_of_mem _ hb, hEvent⟩
      unfold takenEvents at h
      split at h
      · exact hLater h
      · rcases List.mem_append.mp h with hHere | hThere
        · exact
            ⟨batch, List.mem_cons_self ..,
              List.mem_of_mem_filter hHere⟩
        · exact hLater hThere

/- Ranges of blocks follow each other: no event comes twice. -/
theorem takenEvents_nodup
    (batches : List SelfTradeBatch)
    (h : ∀ batch ∈ batches, batch.events.Nodup)
    (cursor : Int) :
    (takenEvents cursor batches).Nodup := by
  induction batches generalizing cursor with
  | nil => exact List.nodup_nil
  | cons batch rest ih =>
      have hRest :=
        fun b hb => h b (List.mem_cons_of_mem batch hb)
      unfold takenEvents
      split
      · exact ih hRest cursor
      · apply List.Nodup.append
        · exact (h batch (List.mem_cons_self ..)).filter _
        · exact ih hRest batch.through
        · intro event hHere hThere
          have hBlock := (List.mem_filter.mp hHere).2
          have hAfter := cursor_lt_of_taken rest hThere
          simp only [Bool.and_eq_true,
            decide_eq_true_eq] at hBlock
          omega

theorem attribution_spec
    {a : Attribution}
    (h : event.attribution = some a) :
    event.isFill = true ∧
      a.primaryFillId = event.id ∧
      a.units = event.units := by
  unfold SelfTradeEvent.attribution at h
  split at h
  · next fill hKind =>
      have hFill : event.isFill = true := by
        simp [SelfTradeEvent.isFill, hKind]
      split at h
      · cases h
        exact ⟨hFill, rfl, rfl⟩
      · cases h
  · cases h

variable {batches : List SelfTradeBatch}

/- Fills of a run with one id are one event of it. -/
theorem TableRows.eq_of_id
    (h : TableRows batches)
    {a b : SelfTradeEvent}
    (ha : a ∈ takenEvents cursor batches)
    (hb : b ∈ takenEvents cursor batches)
    (hFill : a.isFill = true)
    (hFill' : b.isFill = true)
    (hId : a.id = b.id) :
    a = b := by
  rcases mem_batch_of_taken batches ha with
    ⟨batch, hBatch, hIn⟩
  rcases mem_batch_of_taken batches hb with
    ⟨batch', hBatch', hIn'⟩
  exact
    h.fills batch hBatch batch' hBatch' a hIn b hIn' hFill
      hFill' hId

theorem attributions_nodup
    (h : TableRows batches)
    (cursor : Int) :
    (((takenEvents cursor batches).filterMap
        SelfTradeEvent.attribution).map
      (fun a => a.primaryFillId)).Nodup := by
  have hTaken := takenEvents_nodup batches h.nodup cursor
  have hSame :
      ∀ a ∈ takenEvents cursor batches,
        ∀ b ∈ takenEvents cursor batches,
          a.isFill = true → b.isFill = true →
            a.id = b.id → a = b :=
    fun _ ha _ hb => h.eq_of_id ha hb
  generalize takenEvents cursor batches = events at hTaken hSame
  induction events with
  | nil => exact List.nodup_nil
  | cons event rest ih =>
      rw [List.nodup_cons] at hTaken
      have hRest :=
        ih hTaken.2
          (fun a ha b hb =>
            hSame a (List.mem_cons_of_mem _ ha) b
              (List.mem_cons_of_mem _ hb))
      rw [List.filterMap_cons]
      cases hEvent : event.attribution with
      | none => exact hRest
      | some a =>
          simp only [List.map_cons, List.nodup_cons]
          refine ⟨?_, hRest⟩
          intro hAgain
          rcases List.mem_map.mp hAgain with ⟨b, hb, hId⟩
          rcases List.mem_filterMap.mp hb with
            ⟨other, hOther, hSome⟩
          rcases attribution_spec hEvent with
            ⟨hFill, hEventId, _⟩
          rcases attribution_spec hSome with
            ⟨hFill', hOtherId, _⟩
          have hOne : event = other := by
            apply hSame event (List.mem_cons_self ..) other
              (List.mem_cons_of_mem _ hOther) hFill hFill'
            rw [← hEventId, ← hOtherId, hId]
          apply hTaken.1
          rw [hOne]
          exact hOther

variable {attributed : List Attribution}

/- An id listed once weighs no more than its own units. -/
theorem attributedOf_le
    (w id : String)
    {units : Int}
    (hNonneg : 0 ≤ units)
    (hIds :
      (attributed.map (fun a => a.primaryFillId)).Nodup)
    (hUnits :
      ∀ a ∈ attributed,
        a.primaryFillId = id → a.units = units) :
    attributedOf (Attributed.writerFill w id) attributed ≤
      units := by
  induction attributed with
  | nil => exact hNonneg
  | cons a rest ih =>
      rw [List.map_cons, List.nodup_cons] at hIds
      have hRest :=
        ih hIds.2
          (fun b hb => hUnits b (List.mem_cons_of_mem _ hb))
      have hSplit :
          attributedOf (Attributed.writerFill w id)
              (a :: rest) =
            (Attributed.writerFill w id).weigh (some a.writer)
                (some a.primaryFillId) a.units +
              attributedOf (Attributed.writerFill w id)
                rest := by
        simp [attributedOf]
      rw [hSplit]
      by_cases hId : a.primaryFillId = id
      · have hNone :
            attributedOf (Attributed.writerFill w id) rest =
              0 := by
          apply List.sum_eq_zero
          intro x hx
          rcases List.mem_map.mp hx with ⟨b, hb, rfl⟩
          have hOther : b.primaryFillId ≠ id := by
            intro hSame
            apply hIds.1
            rw [hId, ← hSame]
            exact List.mem_map_of_mem hb
          simp [Attributed.weigh, Attributed.writerFill,
            hOther]
        rw [hNone, add_zero]
        have hOwn := hUnits a (List.mem_cons_self ..) hId
        unfold Attributed.weigh
        split
        · exact hOwn.le
        · exact hNonneg
      · have hZero :
            (Attributed.writerFill w id).weigh
                (some a.writer) (some a.primaryFillId)
                a.units =
              0 := by
          simp [Attributed.weigh, Attributed.writerFill, hId]
        rw [hZero, zero_add]
        exact hRest

theorem subperm_ids_nodup
    (h : TableRows batches)
    (hTaken :
      attributed.Subperm
        ((takenEvents cursor batches).filterMap
          SelfTradeEvent.attribution)) :
    (attributed.map (fun a => a.primaryFillId)).Nodup := by
  rcases hTaken with ⟨listed, hPerm, hSublist⟩
  rw [← (hPerm.map _).nodup_iff]
  exact (attributions_nodup h cursor).sublist (hSublist.map _)

theorem units_of_attributed
    (h : TableRows batches)
    (hTaken :
      attributed.Subperm
        ((takenEvents cursor batches).filterMap
          SelfTradeEvent.attribution))
    (hEvent : event ∈ takenEvents cursor batches)
    (hFill : event.isFill = true) :
    ∀ a ∈ attributed,
      a.primaryFillId = event.id → a.units = event.units := by
  intro a ha hId
  rcases List.mem_filterMap.mp (hTaken.subset ha) with
    ⟨other, hOther, hSome⟩
  rcases attribution_spec hSome with
    ⟨hFill', hOtherId, hUnits⟩
  have hOne : other = event :=
    h.eq_of_id hOther hEvent hFill' hFill
      (hOtherId.symm.trans hId)
  rw [hUnits, hOne]

/- A batch that is not ahead of the cursor changes nothing. -/
theorem reduceSelfTrade_again
    (locale : Locale)
    {state : SelfTradeState}
    (h : batch.through ≤ state.cursor) :
    reduceSelfTrade locale state batch = some state := by
  unfold reduceSelfTrade reduceRun
  rw [if_pos h]
  rfl

/-
  What a run from the empty state holds, for every writer and
  every primary fill of it; and what changes nothing.
-/
theorem self_trade_counted_once
    (locale : Locale) :
    (∀ (cursor : Int) (batches : List SelfTradeBatch)
        (state : SelfTradeState),
      batches.foldlM (reduceSelfTrade locale)
          (emptySelfTradeState cursor) = some state →
        ∃ run : SelfTradeRun,
          run.state = state ∧
          batches.foldlM (reduceRun locale)
              (emptySelfTradeRun cursor) = some run ∧
          (∀ w,
            selfTradeUnitsFor state w =
              countedOf (Attributed.writer (key w))
                run.counted) ∧
          (∀ w,
            selfTradeUnitsFor state w +
                remainingOf (Attributed.writer (key w))
                  state.lots ≤
              attributedOf (Attributed.writer (key w))
                run.attributed) ∧
          (∀ w id,
            countedOf (Attributed.writerFill (key w) id)
                  run.counted +
                remainingOf (Attributed.writerFill (key w) id)
                  state.lots ≤
              attributedOf (Attributed.writerFill (key w) id)
                run.attributed) ∧
          run.attributed.Subperm
            ((takenEvents cursor batches).filterMap
              SelfTradeEvent.attribution) ∧
          (TableRows batches →
            (run.attributed.map
                (fun a => a.primaryFillId)).Nodup ∧
              ∀ w, ∀ event ∈ takenEvents cursor batches,
                event.isFill = true →
                  countedOf
                        (Attributed.writerFill (key w)
                          event.id)
                        run.counted +
                      remainingOf
                        (Attributed.writerFill (key w)
                          event.id)
                        state.lots ≤
                    event.units) ∧
          ∀ lot ∈ state.lots,
            0 ≤ lot.remaining ∧ lot.remaining ≤ lot.units) ∧
    (∀ (state : SelfTradeState) (batch : SelfTradeBatch),
      batch.through ≤ state.cursor →
        reduceSelfTrade locale state batch = some state) ∧
    (∀ (state : SelfTradeState)
        (batch batch' : SelfTradeBatch),
      batch.Keyed → batch.Reorders batch' →
        reduceSelfTrade locale state batch =
          reduceSelfTrade locale state batch') := by
  refine ⟨?_, ?_, ?_⟩
  · intro cursor batches state hRun
    rcases
        @foldlM_reduceRun locale batches
          (emptySelfTradeRun cursor) state hRun with
      ⟨run, rfl, hHistory⟩
    have hBalanced :=
      foldlM_reduceRun_balanced batches
        (emptySelfTradeRun_balanced cursor) hHistory
    rcases foldlM_reduceRun_attributed batches hHistory with
      ⟨hUnits, more, hMore, hTaken⟩
    have hAttributed : run.attributed = more := hMore
    rw [← hAttributed] at hTaken
    refine
      ⟨run, rfl, hHistory, hBalanced.unitsFor, ?_, ?_, hTaken,
        ?_, ?_⟩
    · intro w
      rw [hBalanced.unitsFor]
      exact hBalanced.balance _
    · intro w id
      exact hBalanced.balance _
    · intro hRows
      have hIds := subperm_ids_nodup hRows hTaken
      refine ⟨hIds, ?_⟩
      intro w event hEvent hFill
      exact
        (hBalanced.balance _).trans
          (attributedOf_le (key w) event.id
            (hUnits event hEvent) hIds
            (units_of_attributed hRows hTaken hEvent hFill))
    · intro lot hLot
      have hOk := hBalanced.lots lot hLot
      exact ⟨hOk.nonneg, hOk.within⟩
  · intro state batch hOld
    exact reduceSelfTrade_again locale hOld
  · intro state batch batch' hKeyed hReorders
    unfold reduceSelfTrade
    rw [reduceRun_reordered locale _ hReorders hKeyed]

/- A one-tick sale between linked wallets, and its resale. -/
def saleBatch : SelfTradeBatch :=
  { through := 10
    throughTimestamp := 100
    events :=
      [{ id := "2"
         block := 5
         logIndex := 7
         ts := 51
         longId := 1
         units := 3
         kind :=
          .fill
            { maker := "b"
              taker := "c"
              recipient := "c"
              buyer := "c"
              seller := "b"
              price := 900
              primary := false
              takerIsBuyer := true } },
       { id := "1"
         block := 5
         logIndex := 2
         ts := 50
         longId := 1
         units := 4
         kind :=
          .fill
            { maker := "a"
              taker := "b"
              recipient := "b"
              buyer := "b"
              seller := "a"
              price := 100
              primary := true
              takerIsBuyer := true } }]
    linkEvidence := [{ left := "a", right := "b" }]
    seriesExpiries := [{ longId := 1, expiry := 1000 }]
    matchedTransferIds := []
    protocolAddresses := [none] }

def soldState : SelfTradeState :=
  { cursor := 10
    links := [{ left := "a", right := "b" }]
    lots :=
      [{ id := "fill:1"
         longId := 1
         holder := "b"
         writer := some "a"
         primaryFillId := some "1"
         units := 4
         remaining := 1
         createdBlock := 5
         createdLogIndex := 2
         sourceId := "1" },
       { id := "fill:2"
         longId := 1
         holder := "c"
         writer := none
         primaryFillId := none
         units := 3
         remaining := 3
         createdBlock := 5
         createdLogIndex := 7
         sourceId := "2" }]
    makers := [{ writer := "a", units := 3 }]
    unseen := [] }

theorem saleBatch_rows : TableRows [saleBatch] := by
  constructor
  · decide +kernel
  · decide +kernel

theorem self_trade_counted_once_sale :
    selfTradeUnitsFor soldState "A" = 3 ∧
      (∃ run : SelfTradeRun,
        run.state = soldState ∧
          selfTradeUnitsFor soldState "A" +
              remainingOf (Attributed.writer (key "A"))
                soldState.lots ≤
            attributedOf (Attributed.writer (key "A"))
              run.attributed ∧
          countedOf (Attributed.writerFill (key "A") "1")
                run.counted +
              remainingOf
                (Attributed.writerFill (key "A") "1")
                soldState.lots ≤
            4) ∧
      reduceSelfTrade String.instLinearOrder soldState
          saleBatch = some soldState ∧
      reduceSelfTrade String.instLinearOrder
          (emptySelfTradeState (-1)) saleBatch =
        reduceSelfTrade String.instLinearOrder
          (emptySelfTradeState (-1))
          { saleBatch with
            events := saleBatch.events.reverse } := by
  obtain ⟨hRuns, hAgain, hOrder⟩ :=
    self_trade_counted_once String.instLinearOrder
  refine ⟨by decide +kernel, ?_, ?_, ?_⟩
  · rcases
        hRuns (-1) [saleBatch] soldState
          (by decide +kernel) with
      ⟨run, hState, _, _, hWriter, _, _, hRows, _⟩
    have hOnce :=
      (hRows saleBatch_rows).2 "A"
        (saleBatch.events.getLast (by decide))
        (by decide +kernel) (by decide)
    exact ⟨run, hState, hWriter "A", hOnce⟩
  · exact hAgain soldState saleBatch (by decide +kernel)
  · apply hOrder
    · unfold SelfTradeBatch.Keyed
      decide +kernel
    · exact
        { events := (List.reverse_perm _).symm
          evidence := List.Perm.refl _
          rest := rfl }

end Callhouse.Indexer.SelfTrade
