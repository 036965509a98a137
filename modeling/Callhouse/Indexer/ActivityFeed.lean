import Callhouse.Lib.KeysetPage
import Callhouse.Indexer.TakeFees
import Mathlib.Data.Prod.Lex
import Mathlib.Data.String.Basic
import Mathlib.Tactic

/-
  indexer/api/v2/machine.ts: one page of /feed/activity, from
  five tables read at one indexed head.

  A row has what places it in the feed and what it is looked
  up by; the texts of its series and data are left out, and so
  is what the response schema asks of them.  The database
  orders texts by code point, a locale in its own way.  The
  text of a cursor is the base64url of the JSON array of its
  parts, and times are integers that a double holds.

  Main declarations:
    * `Collation`, `compareActivity`, `parseCursor`
    * `activityPage`, `feedActivity`
    * `takerFees_matched`
    * `activityPage_eq`
-/

----
-- Events and Cursors
----

namespace Callhouse.Indexer.ActivityFeed

inductive ActivityKind where
  | fill
  | settlement
  | redemption
  | roll
  | staleCancel
deriving DecidableEq

/- Where an event stands in the feed. -/
structure Position where
  block : Int
  logIndex : Int
  id : String
deriving DecidableEq

def Position.key
    (p : Position) : Int ×ₗ Int ×ₗ String :=
  toLex (p.block, toLex (p.logIndex, p.id))

theorem Position.key_injective :
    Function.Injective Position.key := by
  rintro ⟨block, logIndex, id⟩ ⟨block', logIndex', id'⟩ h
  have hFirst := congrArg (fun k => (ofLex k).1) h
  have hSecond := congrArg (fun k => (ofLex (ofLex k).2).1) h
  have hThird := congrArg (fun k => (ofLex (ofLex k).2).2) h
  exact
    Position.mk.injEq _ _ _ _ _ _ |>.mpr
      ⟨hFirst, hSecond, hThird⟩

instance : LinearOrder Position :=
  LinearOrder.lift' Position.key Position.key_injective

structure Activity where
  position : Position
  kind : ActivityKind
  ts : Int
  longId : Int
deriving DecidableEq

structure ActivityItem where
  id : String
  kind : ActivityKind
  ts : Int
  longId : Int
deriving DecidableEq

def Activity.item
    (e : Activity) : ActivityItem :=
  { id := e.position.id
    kind := e.kind
    ts := e.ts
    longId := e.longId }

/- The parts of a cursor's JSON array. -/
structure CursorText where
  parts : Position
deriving DecidableEq

def cursorOf
    (p : Position) : CursorText :=
  { parts := p }

def decimalLength
    (n : Int) : Nat :=
  (toString n).length

/- Of `["block",logIndex,"id"]`, and of its base64url. -/
def jsonLength
    (p : Position) : Nat :=
  decimalLength p.block + decimalLength p.logIndex +
    p.id.length + 8

def CursorText.length
    (raw : CursorText) : Nat :=
  (4 * jsonLength raw.parts + 2) / 3

def parseCursor
    (raw : Option CursorText) : Option Position :=
  match raw with
  | none => none
  | some text =>
      if text.length > 512 then none
      else if text.parts.block < 0 ∨
          text.parts.block ≥ 10 ^ 19 then none
      else if text.parts.logIndex < 0 ∨
          text.parts.logIndex > 2147483647 then none
      else if text.parts.id.length = 0 ∨
          text.parts.id.length > 256 then none
      else if text.parts.block ≤ 9223372036854775807 then
        some text.parts
      else none

/- Made of digits, lower-case letters and hyphens only. -/
def isPlain
    (text : String) : Bool :=
  text.toList.all
    (fun c => c.isDigit || c.isLower || c == '-')

/-
  The comparison of the process's locale.  Plain texts it
  orders by code point; others, such as `a` and `B`, it may
  order the other way round.
-/
class Collation where
  localeCompare : String → String → Int
  localeCompare_pos_iff : ∀ a b : String,
    isPlain a = true → isPlain b = true →
      (0 < localeCompare a b ↔ b < a)

export Collation (localeCompare)

section

variable [Collation]

def compareActivity
    (a b : Position) : Int :=
  if a.block < b.block then -1
  else if a.block > b.block then 1
  else if a.logIndex - b.logIndex ≠ 0 then
    a.logIndex - b.logIndex
  else localeCompare a.id b.id

end

theorem key_lt_iff
    (a b : Position) :
    a.key < b.key ↔
      a.block < b.block ∨
        a.block = b.block ∧
          (a.logIndex < b.logIndex ∨
            a.logIndex = b.logIndex ∧ a.id < b.id) := by
  unfold Position.key
  rw [Prod.Lex.toLex_lt_toLex, Prod.Lex.toLex_lt_toLex]

section

variable [Collation] {a b : Position}

theorem compareActivity_pos_iff
    (ha : isPlain a.id = true)
    (hb : isPlain b.id = true) :
    0 < compareActivity a b ↔ b.key < a.key := by
  rw [key_lt_iff]
  unfold compareActivity
  by_cases hLess : a.block < b.block
  · rw [if_pos hLess]
    omega
  · rw [if_neg hLess]
    by_cases hMore : a.block > b.block
    · rw [if_pos hMore]
      omega
    · rw [if_neg hMore]
      have hBlock : b.block = a.block := by omega
      by_cases hIndex : a.logIndex - b.logIndex ≠ 0
      · rw [if_pos hIndex]
        omega
      · rw [if_neg hIndex,
          Collation.localeCompare_pos_iff _ _ ha hb]
        have hSame : b.logIndex = a.logIndex := by omega
        simp [hBlock, hSame]

theorem compareActivity_nonpos_iff
    (ha : isPlain a.id = true)
    (hb : isPlain b.id = true) :
    compareActivity a b ≤ 0 ↔ a.key ≤ b.key := by
  rw [← not_lt, compareActivity_pos_iff ha hb, not_lt]

end

theorem decimalLength_le
    {n : Int}
    {digits : Nat}
    (hNonneg : 0 ≤ n)
    (hDigits : 0 < digits)
    (hBound : n < 10 ^ digits) :
    decimalLength n ≤ digits := by
  rcases Int.eq_ofNat_of_zero_le hNonneg with ⟨m, rfl⟩
  exact
    Nat.repr_length m digits hDigits (by exact_mod_cast hBound)

/- What an event of the chain has for its place. -/
structure Position.InRange
    (p : Position) : Prop where
  block_nonneg : 0 ≤ p.block
  block_le : p.block ≤ 9223372036854775807
  logIndex_nonneg : 0 ≤ p.logIndex
  logIndex_le : p.logIndex ≤ 2147483647
  id_pos : 0 < p.id.length
  id_le : p.id.length ≤ 256
  id_plain : isPlain p.id = true

theorem parseCursor_of_inRange
    {text : CursorText}
    (h : text.parts.InRange) :
    parseCursor (some text) = some text.parts := by
  have hBlock : decimalLength text.parts.block ≤ 19 := by
    apply decimalLength_le h.block_nonneg (by decide)
    have := h.block_le
    omega
  have hIndex : decimalLength text.parts.logIndex ≤ 10 := by
    apply decimalLength_le h.logIndex_nonneg (by decide)
    have := h.logIndex_le
    omega
  have hLength : text.length ≤ 512 := by
    have := h.id_le
    unfold CursorText.length jsonLength
    omega
  have hBlockRange :
      ¬ (text.parts.block < 0 ∨
        text.parts.block ≥ 10 ^ 19) := by
    have := h.block_nonneg
    have := h.block_le
    omega
  have hIndexRange :
      ¬ (text.parts.logIndex < 0 ∨
        text.parts.logIndex > 2147483647) := by
    have := h.logIndex_nonneg
    have := h.logIndex_le
    omega
  have hId :
      ¬ (text.parts.id.length = 0 ∨
        text.parts.id.length > 256) := by
    have := h.id_pos
    have := h.id_le
    omega
  simp only [parseCursor]
  rw [if_neg (not_lt.mpr hLength), if_neg hBlockRange,
    if_neg hIndexRange, if_neg hId, if_pos h.block_le]

/- A page's cursor is read back. -/
theorem parseCursor_cursorOf
    {p : Position}
    (h : p.InRange) :
    parseCursor (some (cursorOf p)) = some p :=
  parseCursor_of_inRange h

----
-- One Page
----

/- A row of v2_redemption, v2_roll or v2_stale_cancel. -/
structure EventRow where
  id : String
  block : Int
  logIndex : Int
  ts : Int
  longId : Int
  tx : String
deriving DecidableEq

/- A row of v2_fill, with what its fee is matched by. -/
structure FillRow extends EventRow where
  taker : String
  takerIsBuyer : Bool
  units : Int
  premium : Int
deriving DecidableEq

def FillRow.feeFill
    (row : FillRow) : Reconcile.FeeFill :=
  { id := row.id
    tx := row.tx
    longId := row.longId
    taker := row.taker
    takerIsBuyer := row.takerIsBuyer
    units := row.units
    premium := row.premium
    logIndex := row.logIndex }

/- A row of v2_series; a settlement fills its columns. -/
structure SeriesRow where
  longId : Int
  settledAt : Option Int
  settledBlock : Option Int
  settledLogIndex : Option Int
  settledTx : Option String
  settlementPrice : Option Int
  longPayoutPerUnit : Option Int
  feePerUnit : Option Int
  shortPayoutPerUnit : Option Int
deriving DecidableEq

/- The tables at an indexed checkpoint. -/
structure Tables where
  head : Option Int
  fills : List FillRow
  takes : List Reconcile.TakenCall
  redemptions : List EventRow
  rolls : List EventRow
  staleCancels : List EventRow
  series : List SeriesRow

structure ActivityQuery where
  since : Option Int
  kinds : List ActivityKind
  cursor : Option Position
  size : Nat

def ActivityQuery.ascending
    (q : ActivityQuery) : Bool :=
  q.since.isSome

def ActivityQuery.afterCursor
    (q : ActivityQuery)
    (p : Position) : Bool :=
  match q.cursor with
  | none => true
  | some c =>
      if q.ascending then decide (c.key < p.key)
      else decide (p.key < c.key)

def ActivityQuery.keep
    (q : ActivityQuery)
    (safeBlock ts block : Int) : Bool :=
  decide (block ≤ safeBlock) &&
    match q.since with
    | none => true
    | some since => decide (ts ≥ since)

def ActivityQuery.Before
    (q : ActivityQuery)
    (a b : Position) : Prop :=
  if q.ascending then a.key ≤ b.key else b.key ≤ a.key

instance
    (q : ActivityQuery) : DecidableRel q.Before :=
  fun a b => by
    unfold ActivityQuery.Before
    infer_instance

def EventRow.position
    (row : EventRow) : Position :=
  { block := row.block
    logIndex := row.logIndex
    id := row.id }

def EventRow.activity
    (kind : ActivityKind)
    (row : EventRow) : Activity :=
  { position := row.position
    kind := kind
    ts := row.ts
    longId := row.longId }

/- The select of one table: its condition, order and limit. -/
def selectRows
    (q : ActivityQuery)
    (safeBlock : Int)
    (rows : List EventRow) : List EventRow :=
  ((rows.filter (fun row =>
      q.keep safeBlock row.ts row.block &&
        q.afterCursor row.position)).insertionSort
    (fun a b => q.Before a.position b.position)).take
      (q.size + 1)

/-
  The events of the selected rows.  `checked` rows are tested
  again, and `priced` ones need a settled series.
-/
def pushRows
    (q : ActivityQuery)
    (safeBlock : Int)
    (series : List SeriesRow)
    (kind : ActivityKind)
    (checked priced : Bool) :
    List EventRow → Except String (List Activity)
  | [] => .ok []
  | row :: rest =>
      if checked && !q.keep safeBlock row.ts row.block then
        pushRows q safeBlock series kind checked priced rest
      else
        match series.find?
            (fun ref => ref.longId = row.longId) with
        | none =>
            pushRows q safeBlock series kind checked priced
              rest
        | some ref =>
            if priced && ref.settlementPrice.isNone then
              .error
                ("Redeemed series " ++ toString row.longId ++
                  " has no settlement price")
            else
              match pushRows q safeBlock series kind checked
                  priced rest with
              | .error e => .error e
              | .ok events =>
                  .ok (row.activity kind :: events)

def tableEvents
    (q : ActivityQuery)
    (safeBlock : Int)
    (series : List SeriesRow)
    (kind : ActivityKind)
    (checked priced : Bool)
    (rows : List EventRow) :
    Except String (List Activity) :=
  if kind ∈ q.kinds then
    pushRows q safeBlock series kind checked priced
      (selectRows q safeBlock rows)
  else .ok []

def Tables.fillEvents
    (t : Tables) : List EventRow :=
  t.fills.map FillRow.toEventRow

/-
  The fees of all the fills of some transactions; a fill that
  no take of its transaction closes fails the page.
-/
def takerFeesOf
    (t : Tables)
    (fillTxs : List String) :
    Except String (OrderedMap String Int) :=
  let takes :=
    t.takes.filter (fun call => call.tx ∈ fillTxs)
  let txFills :=
    t.fills.filter (fun fill => fill.tx ∈ fillTxs)
  Reconcile.matchTakeFees (txFills.map FillRow.feeFill) takes

def fillEvents
    (q : ActivityQuery)
    (safeBlock : Int)
    (t : Tables) : Except String (List Activity) := do
  let fills :=
    if .fill ∈ q.kinds then
      selectRows q safeBlock t.fillEvents
    else []
  let _takerFees ← takerFeesOf t (fills.map EventRow.tx)
  tableEvents q safeBlock t.series .fill true false
    t.fillEvents

def redemptionEvents
    (q : ActivityQuery)
    (safeBlock : Int)
    (t : Tables) : Except String (List Activity) :=
  tableEvents q safeBlock t.series .redemption true true
    t.redemptions

def rollEvents
    (q : ActivityQuery)
    (safeBlock : Int)
    (t : Tables) : Except String (List Activity) :=
  tableEvents q safeBlock t.series .roll true false t.rolls

/- The one table whose rows are not tested again. -/
def staleCancelEvents
    (q : ActivityQuery)
    (safeBlock : Int)
    (t : Tables) : Except String (List Activity) :=
  tableEvents q safeBlock t.series .staleCancel false false
    t.staleCancels

/- The event of a series whose settlement columns are filled. -/
def settlementOf
    (ref : SeriesRow) : Option Activity :=
  match ref.settledAt, ref.settledBlock,
    ref.settledLogIndex, ref.settledTx,
    ref.settlementPrice, ref.longPayoutPerUnit,
    ref.feePerUnit, ref.shortPayoutPerUnit with
  | some ts, some block, some logIndex, some tx, some _,
    some _, some _, some _ =>
      some
        { position :=
            { block := block
              logIndex := logIndex
              id :=
                tx ++ "-" ++ toString logIndex ++ "-" ++
                  toString ref.longId }
          kind := .settlement
          ts := ts
          longId := ref.longId }
  | _, _, _, _, _, _, _, _ => none

/- A safe settlement's time and block, at or after `since`. -/
def settledFrom
    (safeBlock since : Int)
    (ref : SeriesRow) : Option (Int ×ₗ Int) :=
  match ref.settledAt, ref.settledBlock with
  | some ts, some block =>
      if ts ≥ since ∧ block ≤ safeBlock then
        some (toLex (ts, block))
      else none
  | _, _ => none

/- The block of the earliest of them. -/
def settlementFloor
    (safeBlock since : Int)
    (series : List SeriesRow) : Option Int :=
  (((series.filterMap
      (settledFrom safeBlock since)).insertionSort
    (fun a b => a ≤ b)).head?).map
      (fun first => (ofLex first).2)

/- The select of settled series, from a floor on. -/
def selectSettlements
    (q : ActivityQuery)
    (safeBlock : Int)
    (floor : Option Int)
    (series : List SeriesRow) : List Activity :=
  (((series.filterMap settlementOf).filter (fun e =>
      q.keep safeBlock e.ts e.position.block &&
        (match floor with
        | none => true
        | some block => decide (e.position.block ≥ block)) &&
        q.afterCursor e.position)).insertionSort
    (fun a b => q.Before a.position b.position)).take
      (q.size + 1)

def settlementEvents
    (q : ActivityQuery)
    (safeBlock : Int)
    (t : Tables) : List Activity :=
  if .settlement ∈ q.kinds then
    match q.since with
    | none => selectSettlements q safeBlock none t.series
    | some since =>
        match settlementFloor safeBlock since t.series with
        | none => []
        | some floor =>
            selectSettlements q safeBlock (some floor)
              t.series
  else []

structure ActivityPage where
  items : List ActivityItem
  nextCursor : Option CursorText
deriving DecidableEq

/- The sign that `compareActivity` is taken with. -/
def ActivityQuery.sign
    (q : ActivityQuery) : Int :=
  if q.ascending then 1 else -1

section

variable [Collation]

def pageOf
    (q : ActivityQuery)
    (events : List Activity) : ActivityPage :=
  let sorted :=
    events.insertionSort
      (fun a b =>
        compareActivity a.position b.position * q.sign ≤ 0)
  let filtered :=
    match q.cursor with
    | none => sorted
    | some c =>
        sorted.filter
          (fun e =>
            compareActivity e.position c * q.sign > 0)
  { items := (filtered.take q.size).map Activity.item
    nextCursor :=
      if filtered.length > q.size then
        (filtered[q.size - 1]?).map
          (fun e => cursorOf e.position)
      else none }

def activityPage
    (t : Tables)
    (q : ActivityQuery) : Except String ActivityPage :=
  match t.head with
  | none =>
      .ok
        { items := []
          nextCursor := none }
  | some head =>
      if head < 3 then
        .ok
          { items := []
            nextCursor := none }
      else do
        let safeBlock := head - 3
        let fills ← fillEvents q safeBlock t
        let redemptions ← redemptionEvents q safeBlock t
        let rolls ← rollEvents q safeBlock t
        let staleCancels ← staleCancelEvents q safeBlock t
        let settlements := settlementEvents q safeBlock t
        return pageOf q
          (fills ++ redemptions ++ rolls ++ staleCancels ++
            settlements)

def allKinds : List ActivityKind :=
  [.fill, .settlement, .redemption, .roll, .staleCancel]

/- `activityBase` of the response schema. -/
def ActivityItem.parses
    (item : ActivityItem) : Bool :=
  decide (0 < item.id.length) && decide (0 ≤ item.ts) &&
    decide (0 ≤ item.longId)

/- A page goes out if it is what the schema asks for. -/
def checkResponse
    (page : ActivityPage) : Except String ActivityPage :=
  if page.items.all ActivityItem.parses then .ok page
  else .error "The indexer returned an invalid v2 response."

/- The route, with every kind asked for. -/
def feedActivity
    (t : Tables)
    (since : Option Int)
    (cursor : Option CursorText)
    (size : Nat) : Except String ActivityPage :=
  if cursor ≠ none ∧ parseCursor cursor = none then
    .error "Invalid activity cursor."
  else do
    let page ←
      activityPage t
        { since := since
          kinds := allKinds
          cursor := parseCursor cursor
          size := size }
    checkResponse page

end

----
-- The Tables and the Chain
----

section

open KeysetPage

/- The chain's events in their order, at its blocks' times. -/
structure Chain
    (time : Int → Int)
    (history : List Activity) : Prop where
  sorted :
    history.Pairwise (fun a b => a.position < b.position)
  time_mono : Monotone time
  ts_eq : ∀ e ∈ history, e.ts = time e.position.block
  ts_nonneg : ∀ e ∈ history, 0 ≤ e.ts
  longId_nonneg : ∀ e ∈ history, 0 ≤ e.longId
  inRange : ∀ e ∈ history, e.position.InRange

def Tables.events
    (t : Tables) : List Activity :=
  t.fillEvents.map (EventRow.activity .fill) ++
    t.redemptions.map (EventRow.activity .redemption) ++
    t.rolls.map (EventRow.activity .roll) ++
    t.staleCancels.map (EventRow.activity .staleCancel) ++
    t.series.filterMap settlementOf

def Tables.rows
    (t : Tables) : List EventRow :=
  t.fillEvents ++ t.redemptions ++ t.rolls ++
    t.staleCancels

/- The transactions of the safe fills. -/
def Tables.fillTxs
    (t : Tables)
    (safeBlock : Int) : List String :=
  (t.fillEvents.filter (fun row => row.block ≤ safeBlock)).map
    EventRow.tx

/- Their takes close their fills, as a book emits them. -/
structure Tables.Taken
    (t : Tables)
    (safeBlock : Int)
    (closings : List Reconcile.Closing) : Prop where
  takes :
    t.takes.filter (fun call => call.tx ∈ t.fillTxs safeBlock) =
      closings.map Reconcile.Closing.taken
  closed :
    Reconcile.Closed closings
      ((t.fills.filter
          (fun fill => fill.tx ∈ t.fillTxs safeBlock)).map
        FillRow.feeFill)
  txs : ∀ c ∈ closings, ∀ fill ∈ c.run, fill.tx = c.taken.tx

/-
  Tables that hold the chain's events up to three blocks under
  their head, whatever they hold above, and the series rows
  and takes that these events need.
-/
structure Tables.Serves
    (t : Tables)
    (time : Int → Int)
    (history : List Activity) : Prop where
  agree : ∀ head, t.head = some head →
    (t.events.filter
        (fun e => e.position.block ≤ head - 3)).Perm
      (history.filter
        (fun e => e.position.block ≤ head - 3))
  series : ∀ head, t.head = some head →
    ∀ row ∈ t.rows, row.block ≤ head - 3 →
      ∃ ref ∈ t.series, ref.longId = row.longId
  priced : ∀ head, t.head = some head →
    ∀ row ∈ t.redemptions, row.block ≤ head - 3 →
      ∀ ref ∈ t.series, ref.longId = row.longId →
        ref.settlementPrice ≠ none
  taken : ∀ head, t.head = some head →
    ∃ closings, t.Taken (head - 3) closings
  settled_ts : ∀ ref ∈ t.series, ∀ ts block,
    ref.settledAt = some ts → ref.settledBlock = some block →
      ts = time block

/- What a page may be made of. -/
def ActivityQuery.eligible
    (q : ActivityQuery)
    (safeBlock : Int)
    (e : Activity) : Bool :=
  q.keep safeBlock e.ts e.position.block &&
    q.afterCursor e.position

/- A table's share of it. -/
def ActivityQuery.part
    (q : ActivityQuery)
    (safeBlock : Int)
    (kind : ActivityKind)
    (events : List Activity) : List Activity :=
  if kind ∈ q.kinds then events.filter (q.eligible safeBlock)
  else []

section

variable {q : ActivityQuery} {safeBlock : Int}
variable {series : List SeriesRow}
variable {rows : List EventRow}

theorem pushRows_eq
    (kind : ActivityKind)
    (checked priced : Bool)
    (hKeep :
      ∀ row ∈ rows,
        q.keep safeBlock row.ts row.block = true)
    (hSeries :
      ∀ row ∈ rows,
        ∃ ref ∈ series, ref.longId = row.longId)
    (hPriced :
      priced = true → ∀ row ∈ rows, ∀ ref ∈ series,
        ref.longId = row.longId →
          ref.settlementPrice ≠ none) :
    pushRows q safeBlock series kind checked priced rows =
      .ok (rows.map (EventRow.activity kind)) := by
  induction rows with
  | nil => rfl
  | cons row rest ih =>
      rw [List.forall_mem_cons] at hKeep hSeries
      have hRest :=
        ih hKeep.2 hSeries.2
          (fun h r hr =>
            hPriced h r (List.mem_cons_of_mem _ hr))
      unfold pushRows
      rw [if_neg (by simp [hKeep.1]), hRest]
      cases hFound :
          series.find?
            (fun ref => ref.longId = row.longId) with
      | none =>
          rcases hSeries.1 with ⟨ref, hRef, hLong⟩
          rw [List.find?_eq_none] at hFound
          exact absurd (decide_eq_true hLong) (hFound ref hRef)
      | some ref =>
          have hLong : ref.longId = row.longId := by
            simpa using List.find?_some hFound
          have hNot :
              ¬ (priced && ref.settlementPrice.isNone) =
                true := by
            intro hBad
            rw [Bool.and_eq_true,
              Option.isNone_iff_eq_none] at hBad
            exact
              hPriced hBad.1 row List.mem_cons_self ref
                (List.mem_of_find?_eq_some hFound) hLong
                hBad.2
          simp only
          rw [if_neg hNot, List.map_cons]

theorem before_iff
    (hSince : q.since.isSome = true)
    (a b : Position) :
    q.Before a b ↔ a ≤ b := by
  unfold ActivityQuery.Before ActivityQuery.ascending
  rw [if_pos hSince]
  rfl

/- The selected rows are a table's first eligible events. -/
theorem selectRows_activity
    (hSince : q.since.isSome = true)
    (kind : ActivityKind)
    (rows : List EventRow) :
    (selectRows q safeBlock rows).map
        (EventRow.activity kind) =
      firstRows Activity.position (q.size + 1)
        ((rows.map (EventRow.activity kind)).filter
          (q.eligible safeBlock)) := by
  have hSort :
      ∀ selected : List EventRow,
        (selected.insertionSort
            (fun a b => q.Before a.position b.position)).map
            (EventRow.activity kind) =
          (selected.map
            (EventRow.activity kind)).insertionSort
              (ByKey Activity.position) := by
    intro selected
    apply List.map_insertionSort
    intro a _ b _
    exact before_iff hSince _ _
  unfold selectRows firstRows
  rw [List.map_take, List.filter_map, hSort]
  rfl

theorem selectRows_subset
    {row : EventRow}
    (hRow : row ∈ selectRows q safeBlock rows) :
    row ∈ rows ∧ q.keep safeBlock row.ts row.block = true := by
  have hSorted := List.mem_of_mem_take hRow
  rw [List.mem_insertionSort, List.mem_filter,
    Bool.and_eq_true] at hSorted
  exact ⟨hSorted.1, hSorted.2.1⟩

theorem block_le_of_keep
    {ts block : Int}
    (h : q.keep safeBlock ts block = true) :
    block ≤ safeBlock := by
  unfold ActivityQuery.keep at h
  rw [Bool.and_eq_true] at h
  exact of_decide_eq_true h.1

theorem tableEvents_eq
    (hSince : q.since.isSome = true)
    (kind : ActivityKind)
    (checked priced : Bool)
    (hSeries :
      ∀ row ∈ rows, row.block ≤ safeBlock →
        ∃ ref ∈ series, ref.longId = row.longId)
    (hPriced :
      priced = true → ∀ row ∈ rows, row.block ≤ safeBlock →
        ∀ ref ∈ series, ref.longId = row.longId →
          ref.settlementPrice ≠ none) :
    tableEvents q safeBlock series kind checked priced rows =
      .ok
        (firstRows Activity.position (q.size + 1)
          (q.part safeBlock kind
            (rows.map (EventRow.activity kind)))) := by
  have hSafe :
      ∀ row ∈ selectRows q safeBlock rows,
        row ∈ rows ∧ row.block ≤ safeBlock := by
    intro row hRow
    have hSelected := selectRows_subset hRow
    exact ⟨hSelected.1, block_le_of_keep hSelected.2⟩
  unfold tableEvents ActivityQuery.part
  split
  · rw [pushRows_eq kind checked priced
        (fun row hRow => (selectRows_subset hRow).2)
        (fun row hRow =>
          hSeries row (hSafe row hRow).1 (hSafe row hRow).2)
        (fun h row hRow =>
          hPriced h row (hSafe row hRow).1
            (hSafe row hRow).2),
      selectRows_activity hSince]
  · rfl

variable {t : Tables} {closings : List Reconcile.Closing}

theorem Tables.Taken.filter_txs
    (h : t.Taken safeBlock closings)
    {txs : List String}
    (hTxs : txs ⊆ t.fillTxs safeBlock) :
    (t.fills.filter (fun fill => fill.tx ∈ txs)).map
          FillRow.feeFill =
        ((t.fills.filter
          (fun fill => fill.tx ∈ t.fillTxs safeBlock)).map
            FillRow.feeFill).filter
              (fun fill => decide (fill.tx ∈ txs)) ∧
      t.takes.filter (fun call => call.tx ∈ txs) =
        (closings.filter
          (fun c => decide (c.taken.tx ∈ txs))).map
            Reconcile.Closing.taken := by
  constructor
  · rw [List.filter_map, List.filter_filter]
    congr 1
    apply List.filter_congr
    intro fill _
    have hIn := @hTxs fill.tx
    rw [Bool.eq_iff_iff, Bool.and_eq_true,
      Function.comp_apply, decide_eq_true_eq]
    constructor
    · intro hTx
      exact ⟨decide_eq_true hTx, decide_eq_true (hIn hTx)⟩
    · intro hBoth
      exact of_decide_eq_true hBoth.1
  · have hTaken :
        (closings.filter
          (fun c => decide (c.taken.tx ∈ txs))).map
            Reconcile.Closing.taken =
          (closings.map Reconcile.Closing.taken).filter
            (fun call => decide (call.tx ∈ txs)) := by
      rw [List.filter_map]
      rfl
    rw [hTaken, ← h.takes, List.filter_filter]
    apply List.filter_congr
    intro call _
    have hIn := @hTxs call.tx
    rw [Bool.eq_iff_iff, Bool.and_eq_true,
      decide_eq_true_eq]
    constructor
    · intro hTx
      exact ⟨hTx, decide_eq_true (hIn hTx)⟩
    · intro hBoth
      exact hBoth.1

/- The fees of safe transactions' fills are found. -/
theorem takerFees_matched
    (h : t.Taken safeBlock closings)
    {txs : List String}
    (hTxs : txs ⊆ t.fillTxs safeBlock) :
    ∃ fees, takerFeesOf t txs = .ok fees := by
  rcases h.filter_txs hTxs with ⟨hFills, hTakes⟩
  have hClosed :=
    h.closed.restrict h.txs (fun tx => decide (tx ∈ txs))
  rcases hClosed.fees_matched with ⟨fees, hFees, _⟩
  refine ⟨fees, ?_⟩
  unfold takerFeesOf
  simp only
  rw [hFills, hTakes]
  exact hFees

/- With their fees, the fills' events are their table's. -/
theorem fillEvents_eq
    (hTaken : t.Taken safeBlock closings) :
    fillEvents q safeBlock t =
      tableEvents q safeBlock t.series .fill true false
        t.fillEvents := by
  have hTxs :
      ((if .fill ∈ q.kinds then
          selectRows q safeBlock t.fillEvents
        else []).map EventRow.tx) ⊆ t.fillTxs safeBlock := by
    intro tx hTx
    rcases List.mem_map.mp hTx with ⟨row, hRow, rfl⟩
    split at hRow
    · have hSelected := selectRows_subset hRow
      exact
        List.mem_map_of_mem
          (List.mem_filter.mpr
            ⟨hSelected.1,
              decide_eq_true (block_le_of_keep hSelected.2)⟩)
    · cases hRow
  rcases takerFees_matched hTaken hTxs with ⟨fees, hFees⟩
  unfold fillEvents
  simp only
  rw [hFees]
  rfl

theorem settlementOf_eq_some
    {ref : SeriesRow}
    {e : Activity}
    (h : settlementOf ref = some e) :
    ref.settledAt = some e.ts ∧
      ref.settledBlock = some e.position.block := by
  unfold settlementOf at h
  split at h
  · next hAt hBlock _ _ _ _ _ _ =>
      rw [← Option.some.inj h]
      exact ⟨hAt, hBlock⟩
  · cases h

/- No safe settlement is before the floor. -/
theorem settlementFloor_le
    {time : Int → Int}
    (hTime : Monotone time)
    (hSettled :
      ∀ ref ∈ series, ∀ ts block,
        ref.settledAt = some ts →
          ref.settledBlock = some block → ts = time block)
    {since : Int}
    {e : Activity}
    (he : e ∈ series.filterMap settlementOf)
    (hSince : since ≤ e.ts)
    (hSafe : e.position.block ≤ safeBlock) :
    ∃ floor,
      settlementFloor safeBlock since series = some floor ∧
        floor ≤ e.position.block := by
  rcases List.mem_filterMap.mp he with ⟨ref, hRef, hOf⟩
  rcases settlementOf_eq_some hOf with ⟨hAt, hBlock⟩
  have hFrom :
      settledFrom safeBlock since ref =
        some (toLex (e.ts, e.position.block)) := by
    unfold settledFrom
    rw [hAt, hBlock]
    exact if_pos ⟨hSince, hSafe⟩
  have hIn :
      toLex (e.ts, e.position.block) ∈
        (series.filterMap
          (settledFrom safeBlock since)).insertionSort
            (fun a b => a ≤ b) := by
    rw [List.mem_insertionSort]
    exact List.mem_filterMap.mpr ⟨ref, hRef, hFrom⟩
  have hSorted :=
    List.pairwise_insertionSort
      (fun a b : Int ×ₗ Int => a ≤ b)
      (series.filterMap (settledFrom safeBlock since))
  unfold settlementFloor
  cases hList :
      (series.filterMap
        (settledFrom safeBlock since)).insertionSort
          (fun a b => a ≤ b) with
  | nil =>
      rw [hList] at hIn
      cases hIn
  | cons first rest =>
      rw [hList] at hIn hSorted
      refine ⟨_, rfl, ?_⟩
      have hFirst : first ≤ toLex (e.ts, e.position.block) := by
        rcases List.mem_cons.mp hIn with hSame | hRest
        · exact hSame.ge
        · exact (List.pairwise_cons.mp hSorted).1 _ hRest
      have hMember :
          first ∈
            series.filterMap
              (settledFrom safeBlock since) := by
        rw [← List.mem_insertionSort (fun a b => a ≤ b),
          hList]
        exact List.mem_cons_self
      rcases List.mem_filterMap.mp hMember with
        ⟨other, hOther, hOtherFrom⟩
      unfold settledFrom at hOtherFrom
      split at hOtherFrom
      · next ts block hTs hOtherBlock =>
          split at hOtherFrom
          · rw [← Option.some.inj hOtherFrom] at hFirst ⊢
            rw [Prod.Lex.toLex_le_toLex] at hFirst
            have hEventTime := hSettled ref hRef _ _ hAt hBlock
            have hFloorTime :=
              hSettled other hOther _ _ hTs hOtherBlock
            change block ≤ e.position.block
            rcases hFirst with hEarlier | ⟨_, hLe⟩
            · by_contra hLater
              have := hTime (not_le.mp hLater).le
              omega
            · exact hLe
          · cases hOtherFrom
      · cases hOtherFrom

theorem settlementEvents_eq
    {time : Int → Int}
    (hTime : Monotone time)
    (hSettled :
      ∀ ref ∈ t.series, ∀ ts block,
        ref.settledAt = some ts →
          ref.settledBlock = some block → ts = time block)
    {since : Int}
    (hSince : q.since = some since) :
    settlementEvents q safeBlock t =
      firstRows Activity.position (q.size + 1)
        (q.part safeBlock .settlement
          (t.series.filterMap settlementOf)) := by
  have hBounds :
      ∀ e, q.eligible safeBlock e = true →
        since ≤ e.ts ∧ e.position.block ≤ safeBlock := by
    intro e hEligible
    unfold ActivityQuery.eligible ActivityQuery.keep
      at hEligible
    rw [hSince, Bool.and_eq_true, Bool.and_eq_true]
      at hEligible
    exact
      ⟨of_decide_eq_true hEligible.1.2,
        of_decide_eq_true hEligible.1.1⟩
  unfold settlementEvents ActivityQuery.part
  split
  · rw [hSince]
    simp only
    cases hFloor : settlementFloor safeBlock since t.series with
    | none =>
        have hNone :
            (t.series.filterMap settlementOf).filter
                (q.eligible safeBlock) = [] := by
          rw [List.filter_eq_nil_iff]
          intro e he hEligible
          rcases hBounds e hEligible with ⟨hFrom, hSafe⟩
          rcases settlementFloor_le hTime hSettled he hFrom
              hSafe with ⟨floor, hSome, _⟩
          rw [hFloor] at hSome
          cases hSome
        rw [hNone]
        rfl
    | some floor =>
        have hSame :
            (t.series.filterMap settlementOf).filter
                (fun e =>
                  q.keep safeBlock e.ts e.position.block &&
                    decide (e.position.block ≥ floor) &&
                    q.afterCursor e.position) =
              (t.series.filterMap settlementOf).filter
                (q.eligible safeBlock) := by
          apply List.filter_congr
          intro e he
          rw [Bool.eq_iff_iff]
          constructor
          · intro hAll
            rw [Bool.and_eq_true, Bool.and_eq_true] at hAll
            unfold ActivityQuery.eligible
            rw [Bool.and_eq_true]
            exact ⟨hAll.1.1, hAll.2⟩
          · intro hEligible
            rcases hBounds e hEligible with ⟨hFrom, hSafe⟩
            rcases settlementFloor_le hTime hSettled he hFrom
                hSafe with ⟨bound, hSome, hLe⟩
            rw [hFloor] at hSome
            unfold ActivityQuery.eligible at hEligible
            rw [Bool.and_eq_true] at hEligible
            rw [Bool.and_eq_true, Bool.and_eq_true]
            refine ⟨⟨hEligible.1, ?_⟩, hEligible.2⟩
            rw [Option.some.inj hSome]
            exact decide_eq_true hLe
        have hSort :
            ∀ selected : List Activity,
              selected.insertionSort
                  (fun a b =>
                    q.Before a.position b.position) =
                selected.insertionSort
                  (ByKey Activity.position) := by
          intro selected
          have hMap :=
            List.map_insertionSort
              (r := fun a b =>
                q.Before a.position b.position)
              (s := ByKey Activity.position) id selected
              (fun a _ b _ => before_iff (by simp [hSince])
                a.position b.position)
          rwa [List.map_id, List.map_id] at hMap
        unfold selectSettlements firstRows
        simp only
        rw [hSame, hSort]
  · rfl

end

end

----
-- A Page of the Chain
----

open KeysetPage

/- What a head shows of the chain. -/
def Tables.shows
    (t : Tables)
    (e : Activity) : Bool :=
  match t.head with
  | none => false
  | some head => decide (e.position.block ≤ head - 3)

def Tables.read
    (t : Tables)
    (size : Nat) : Read Activity :=
  { visible := t.shows
    size := size }

/- The events that a query asks for, in the chain's order. -/
def feedOf
    (kinds : List ActivityKind)
    (since : Int)
    (history : List Activity) : List Activity :=
  history.filter
    (fun e => decide (e.kind ∈ kinds) && decide (e.ts ≥ since))

/- The wire form of a page. -/
def wirePage
    (items : List Activity)
    (next : Option Position) : ActivityPage :=
  { items := items.map Activity.item
    nextCursor := next.map cursorOf }

variable {q : ActivityQuery}

theorem pageOf_eq
    [Collation]
    (hSince : q.since.isSome = true)
    (hSize : 0 < q.size)
    (hCursor :
      ∀ c, q.cursor = some c → isPlain c.id = true)
    {events rows : List Activity}
    (hPlain : ∀ e ∈ events, isPlain e.position.id = true)
    (hAfter :
      ∀ e ∈ events, q.afterCursor e.position = true)
    (hRows :
      firstRows Activity.position (q.size + 1) events =
        rows.take (q.size + 1)) :
    pageOf q events =
      wirePage (rows.take q.size)
        (if rows.length > q.size then
          (rows[q.size - 1]?).map Activity.position
        else none) := by
  have hSign : q.sign = 1 := by
    unfold ActivityQuery.sign ActivityQuery.ascending
    rw [if_pos hSince]
  have hSort :
      events.insertionSort
          (fun a b =>
            compareActivity a.position b.position * q.sign ≤
              0) =
        events.insertionSort (ByKey Activity.position) := by
    have hMap :=
      List.map_insertionSort
        (r := fun a b : Activity =>
          compareActivity a.position b.position * q.sign ≤ 0)
        (s := ByKey Activity.position) id events
        (fun a ha b hb => by
          rw [hSign, mul_one]
          exact
            compareActivity_nonpos_iff (hPlain a ha)
              (hPlain b hb))
    rwa [List.map_id, List.map_id] at hMap
  have hFiltered :
      (match q.cursor with
        | none =>
            events.insertionSort (ByKey Activity.position)
        | some c =>
            (events.insertionSort
              (ByKey Activity.position)).filter
                (fun e =>
                  compareActivity e.position c * q.sign >
                    0)) =
        events.insertionSort (ByKey Activity.position) := by
    cases hCase : q.cursor with
    | none => rfl
    | some c =>
        rw [List.filter_eq_self]
        intro e he
        rw [List.mem_insertionSort] at he
        have hPast := hAfter e he
        unfold ActivityQuery.afterCursor
          ActivityQuery.ascending at hPast
        rw [hCase] at hPast
        simp only at hPast
        rw [if_pos hSince] at hPast
        rw [hSign, mul_one]
        apply decide_eq_true
        rw [gt_iff_lt,
          compareActivity_pos_iff (hPlain e he)
            (hCursor c hCase)]
        exact of_decide_eq_true hPast
  have hTake :
      (events.insertionSort
          (ByKey Activity.position)).take q.size =
        rows.take q.size := by
    have h := congrArg (List.take q.size) hRows
    unfold firstRows at h
    rw [List.take_take, List.take_take,
      min_eq_left (Nat.le_succ _)] at h
    exact h
  have hLength := congrArg List.length hRows
  unfold firstRows at hLength
  rw [List.length_take, List.length_take] at hLength
  have hLast :
      (events.insertionSort
          (ByKey Activity.position))[q.size - 1]? =
        rows[q.size - 1]? := by
    have h := congrArg (fun l => l[q.size - 1]?) hTake
    rw [List.getElem?_take_of_lt (by omega),
      List.getElem?_take_of_lt (by omega)] at h
    exact h
  unfold pageOf wirePage
  simp only
  rw [hSort, hFiltered, hTake, hLast]
  by_cases hMore : rows.length > q.size
  · rw [if_pos hMore, if_pos (by omega), Option.map_map]
    rfl
  · rw [if_neg hMore, if_neg (by omega)]
    rfl

/- A query's cursor, for ascending pages. -/
theorem afterCursor_eq
    (hSince : q.since.isSome = true)
    (e : Activity) :
    q.afterCursor e.position =
      after Activity.position q.cursor e := by
  unfold ActivityQuery.afterCursor after
    ActivityQuery.ascending
  cases q.cursor with
  | none => rfl
  | some c =>
      simp only
      rw [if_pos hSince]
      rfl

variable {time : Int → Int} {history : List Activity}
variable {since : Int} {t : Tables}

theorem rowsAfter_eq
    {head : Int}
    (hSince : q.since = some since)
    (hHead : t.head = some head) :
    rowsAfter Activity.position
        (feedOf q.kinds since history) (t.read q.size)
        q.cursor =
      history.filter
        (fun e =>
          decide (e.kind ∈ q.kinds) &&
            q.eligible (head - 3) e) := by
  unfold rowsAfter feedOf
  rw [List.filter_filter]
  apply List.filter_congr
  intro e _
  have hShows :
      (t.read q.size).visible e =
        decide (e.position.block ≤ head - 3) := by
    change t.shows e = _
    unfold Tables.shows
    rw [hHead]
  unfold ActivityQuery.eligible ActivityQuery.keep
  rw [hShows, hSince, afterCursor_eq (by simp [hSince]),
    Bool.eq_iff_iff]
  simp only [Bool.and_eq_true]
  tauto

variable {read : Read Activity}

theorem mem_history_of_rowsAfter
    {kinds : List ActivityKind}
    {cursor : Option Position}
    {e : Activity}
    (he :
      e ∈ rowsAfter Activity.position
        (feedOf kinds since history) read cursor) :
    e ∈ history :=
  List.mem_of_mem_filter (List.mem_of_mem_filter he)

theorem afterCursor_of_rowsAfter
    (hSince : q.since.isSome = true)
    {feed : List Activity}
    {e : Activity}
    (he :
      e ∈ rowsAfter Activity.position feed read q.cursor) :
    q.afterCursor e.position = true := by
  have hShown := (List.mem_filter.mp he).2
  rw [Bool.and_eq_true] at hShown
  rw [afterCursor_eq hSince]
  exact hShown.2

/- The parts of a page together are the feed's rows. -/
theorem parts_perm
    {head : Int}
    (hSince : q.since = some since)
    (hHead : t.head = some head)
    (hServes : t.Serves time history) :
    [ q.part (head - 3) .fill
        (t.fillEvents.map (EventRow.activity .fill)),
      q.part (head - 3) .redemption
        (t.redemptions.map (EventRow.activity .redemption)),
      q.part (head - 3) .roll
        (t.rolls.map (EventRow.activity .roll)),
      q.part (head - 3) .staleCancel
        (t.staleCancels.map
          (EventRow.activity .staleCancel)),
      q.part (head - 3) .settlement
        (t.series.filterMap settlementOf)].flatten.Perm
      (rowsAfter Activity.position
        (feedOf q.kinds since history) (t.read q.size)
        q.cursor) := by
  have hPart :
      ∀ (kind : ActivityKind) (events : List Activity),
        (∀ e ∈ events, e.kind = kind) →
          q.part (head - 3) kind events =
            events.filter
              (fun e =>
                decide (e.kind ∈ q.kinds) &&
                  q.eligible (head - 3) e) := by
    intro kind events hKind
    unfold ActivityQuery.part
    split
    · next hIn =>
        apply List.filter_congr
        intro e he
        rw [hKind e he, decide_eq_true hIn, Bool.true_and]
    · next hOut =>
        symm
        rw [List.filter_eq_nil_iff]
        intro e he hBoth
        rw [Bool.and_eq_true, hKind e he] at hBoth
        exact hOut (of_decide_eq_true hBoth.1)
  have hRows :
      ∀ (kind : ActivityKind) (rows : List EventRow),
        ∀ e ∈ rows.map (EventRow.activity kind),
          e.kind = kind := by
    intro kind rows e he
    rcases List.mem_map.mp he with ⟨row, _, rfl⟩
    rfl
  have hSettled :
      ∀ e ∈ t.series.filterMap settlementOf,
        e.kind = .settlement := by
    intro e he
    rcases List.mem_filterMap.mp he with ⟨ref, _, hOf⟩
    unfold settlementOf at hOf
    split at hOf
    · rw [← Option.some.inj hOf]
    · cases hOf
  have hSafe :
      ∀ events : List Activity,
        events.filter
            (fun e =>
              decide (e.kind ∈ q.kinds) &&
                q.eligible (head - 3) e) =
          (events.filter
            (fun e => e.position.block ≤ head - 3)).filter
              (fun e =>
                decide (e.kind ∈ q.kinds) &&
                  q.eligible (head - 3) e) := by
    intro events
    rw [List.filter_filter]
    apply List.filter_congr
    intro e _
    unfold ActivityQuery.eligible ActivityQuery.keep
    rw [Bool.eq_iff_iff]
    simp only [Bool.and_eq_true]
    tauto
  rw [rowsAfter_eq hSince hHead, hSafe history,
    hPart _ _ (hRows _ _), hPart _ _ (hRows _ _),
    hPart _ _ (hRows _ _), hPart _ _ (hRows _ _),
    hPart _ _ hSettled]
  have hAgree :=
    (hServes.agree head hHead).filter
      (fun e =>
        decide (e.kind ∈ q.kinds) && q.eligible (head - 3) e)
  rw [← hSafe] at hAgree
  unfold Tables.events at hAgree
  simp only [List.filter_append] at hAgree
  simpa only [List.flatten_cons, List.flatten_nil,
    List.append_nil, List.append_assoc] using hAgree

theorem firstRows_of_perm
    {rows events : List Activity}
    (hSorted :
      rows.Pairwise (fun a b => a.position < b.position))
    (hPerm : events.Perm rows)
    (limit : Nat) :
    firstRows Activity.position limit events =
      rows.take limit := by
  have hKeys : (rows.map Activity.position).Nodup :=
    List.pairwise_map.mpr (hSorted.imp (fun h => h.ne))
  have hEvents :=
    sorted_strictly ((hPerm.map _).nodup_iff.mpr hKeys)
  unfold firstRows
  congr 1
  refine
    List.Perm.eq_of_pairwise ?_ hEvents hSorted
      ((List.perm_insertionSort _ _).trans hPerm)
  intro a b _ _ hLess hMore
  exact absurd hMore (lt_asymm hLess)

/- With nothing to show, a page is empty. -/
theorem wirePage_of_none
    {feed : List Activity}
    {cursor : Option Position}
    (h :
      rowsAfter Activity.position feed read cursor = []) :
    wirePage (pageItems Activity.position feed read cursor)
        (pageNext Activity.position feed read cursor) =
      { items := []
        nextCursor := none } := by
  unfold pageItems pageNext
  simp only
  rw [h, List.take_nil, List.length_nil,
    if_neg (Nat.not_lt_zero _)]
  rfl

theorem rowsAfter_of_no_head
    (hHead : t.head = none) :
    rowsAfter Activity.position
      (feedOf q.kinds since history) (t.read q.size)
      q.cursor = [] := by
  unfold rowsAfter
  rw [List.filter_eq_nil_iff]
  intro e _ hShown
  have hVisible : t.shows e = false := by
    unfold Tables.shows
    rw [hHead]
  rw [Bool.and_eq_true] at hShown
  change t.shows e = true ∧ _ at hShown
  rw [hVisible] at hShown
  exact Bool.false_ne_true hShown.1

theorem rowsAfter_of_low
    {head : Int}
    (hSince : q.since = some since)
    (hHead : t.head = some head)
    (hLow : head < 3)
    (hBlocks : ∀ e ∈ history, 0 ≤ e.position.block) :
    rowsAfter Activity.position
      (feedOf q.kinds since history) (t.read q.size)
      q.cursor = [] := by
  rw [rowsAfter_eq hSince hHead, List.filter_eq_nil_iff]
  intro e he hShown
  unfold ActivityQuery.eligible ActivityQuery.keep at hShown
  simp only [Bool.and_eq_true, decide_eq_true_eq] at hShown
  have := hBlocks e he
  have := hShown.2.1.1
  omega

/-
  A page read at a head is the next rows of the chain's feed
  that the head shows, and its cursor is the last of them.
-/
theorem activityPage_eq
    [Collation]
    (hSince : q.since = some since)
    (hSize : 0 < q.size)
    (hCursor :
      ∀ c, q.cursor = some c → isPlain c.id = true)
    (hChain : Chain time history)
    (hServes : t.Serves time history) :
    activityPage t q =
      .ok
        (wirePage
          (pageItems Activity.position
            (feedOf q.kinds since history) (t.read q.size)
            q.cursor)
          (pageNext Activity.position
            (feedOf q.kinds since history) (t.read q.size)
            q.cursor)) := by
  have hSome : q.since.isSome = true := by simp [hSince]
  have hPlain : ∀ e ∈ history, isPlain e.position.id = true :=
    fun e he => (hChain.inRange e he).id_plain
  unfold activityPage
  cases hHead : t.head with
  | none =>
      rw [wirePage_of_none (rowsAfter_of_no_head hHead)]
  | some head =>
      simp only
      split
      · next hLow =>
          have hNone :=
            rowsAfter_of_low hSince hHead hLow
              (fun e he => (hChain.inRange e he).block_nonneg)
          rw [wirePage_of_none hNone]
      · have hRow :
            ∀ rows : List EventRow, rows ⊆ t.rows →
              ∀ row ∈ rows, row.block ≤ head - 3 →
                ∃ ref ∈ t.series,
                  ref.longId = row.longId :=
          fun rows hIn row hRow =>
            hServes.series head hHead row (hIn hRow)
        have hUnpriced :
            ∀ rows : List EventRow, false = true →
              ∀ row ∈ rows, row.block ≤ head - 3 →
                ∀ ref ∈ t.series, ref.longId = row.longId →
                  ref.settlementPrice ≠ none :=
          fun _ h => absurd h Bool.false_ne_true
        have hPerm := parts_perm hSince hHead hServes
        have hRowsSorted :
            (rowsAfter Activity.position
              (feedOf q.kinds since history)
              (t.read q.size) q.cursor).Pairwise
                (fun a b => a.position < b.position) :=
          (hChain.sorted.filter _).filter _
        have hKeys :
            (rowsAfter Activity.position
              (feedOf q.kinds since history)
              (t.read q.size) q.cursor).map
                Activity.position |>.Nodup :=
          List.pairwise_map.mpr
            (hRowsSorted.imp (fun h => h.ne))
        have hFirst :=
          firstRows_flatten (q.size + 1)
            ((hPerm.map Activity.position).nodup_iff.mpr
              hKeys)
        rw [firstRows_of_perm hRowsSorted hPerm] at hFirst
        have hRows :
            ∀ e ∈
                ([ q.part (head - 3) .fill
                    (t.fillEvents.map
                      (EventRow.activity .fill)),
                  q.part (head - 3) .redemption
                    (t.redemptions.map
                      (EventRow.activity .redemption)),
                  q.part (head - 3) .roll
                    (t.rolls.map (EventRow.activity .roll)),
                  q.part (head - 3) .staleCancel
                    (t.staleCancels.map
                      (EventRow.activity .staleCancel)),
                  q.part (head - 3) .settlement
                    (t.series.filterMap settlementOf)].map
                  (firstRows Activity.position
                    (q.size + 1))).flatten,
              e ∈ rowsAfter Activity.position
                (feedOf q.kinds since history)
                (t.read q.size) q.cursor := by
          intro e he
          apply hPerm.mem_iff.mp
          exact
            (flatten_firstRows_subperm Activity.position
              (q.size + 1) _).subset he
        have hPage :=
          pageOf_eq hSome hSize hCursor
            (fun e he =>
              hPlain e (mem_history_of_rowsAfter (hRows e he)))
            (fun e he =>
              afterCursor_of_rowsAfter hSome (hRows e he))
            hFirst
        rcases hServes.taken head hHead with
          ⟨closings, hTaken⟩
        have hFills : fillEvents q (head - 3) t = _ :=
          (fillEvents_eq hTaken).trans
            (tableEvents_eq hSome .fill true false
              (hRow t.fillEvents
                (fun row h => by simp [Tables.rows, h]))
              (hUnpriced t.fillEvents))
        have hRedemptions : redemptionEvents q (head - 3) t = _ :=
          tableEvents_eq hSome .redemption true true
            (hRow t.redemptions
              (fun row h => by simp [Tables.rows, h]))
            (fun _ => hServes.priced head hHead)
        have hRolls : rollEvents q (head - 3) t = _ :=
          tableEvents_eq hSome .roll true false
            (hRow t.rolls
              (fun row h => by simp [Tables.rows, h]))
            (hUnpriced t.rolls)
        have hStaleCancels :
            staleCancelEvents q (head - 3) t = _ :=
          tableEvents_eq hSome .staleCancel false false
            (hRow t.staleCancels
              (fun row h => by simp [Tables.rows, h]))
            (hUnpriced t.staleCancels)
        have hSettlements : settlementEvents q (head - 3) t = _ :=
          settlementEvents_eq hChain.time_mono
            hServes.settled_ts hSince
        rw [hFills, hRedemptions, hRolls, hStaleCancels,
          hSettlements]
        simp only [List.map_cons, List.map_nil,
          List.flatten_cons, List.flatten_nil,
          List.append_nil, ← List.append_assoc] at hPage
        change Except.ok (pageOf q _) = Except.ok _
        rw [hPage]
        rfl

end Callhouse.Indexer.ActivityFeed
