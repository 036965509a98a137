import Callhouse.Lib.Checkpoint
import Callhouse.Lib.GroupedOrder
import Callhouse.Lib.OrderedMap
import Mathlib.Data.String.Basic

/-
  notifier/src/rules/rules.ts, expiryCountdowns: a held
  series that enters the last 24 hours or the last hour
  before its expiry is told of, one by one or as a digest;
  and the ticks of engine.ts around it, which enqueue first
  and save last.

  Main declarations:
    * `inExpiryWindow`, `expirySingle`, `expiryDigest`
    * `expiryNotices`, `expiryCountdowns`
    * `ExpiryTick`, `noticesOf`
    * `ToldOnce`, `KeysKeepTheirBatch`, `RetoldAlike`
    * `told_of_window`, `retold_unsaved`
    * `expiry_told_once`, `grownBatch_told_twice`
-/

----
-- Snapshots
----

namespace Callhouse.Notifier

/- `opened` is the API's `open`. -/
inductive SeriesStatus where
  | opened
  | cutoff
  | expired
  | settling
  | held
  | settled
deriving DecidableEq

structure SeriesInfo where
  longId : String
  ticker : String
  isPut : Bool
  strikeRaw : Nat
  strikeDecimals : Int
  expiry : Nat
  status : SeriesStatus
deriving DecidableEq

def SeriesStatus.live : SeriesStatus → Bool
  | .opened => true
  | .cutoff => true
  | _ => false

def isLive
    (s : SeriesInfo)
    (time : Nat) : Bool :=
  s.status.live && decide (time < s.expiry)

inductive PositionSide where
  | long
  | short
deriving DecidableEq

def PositionSide.text : PositionSide → String
  | .long => "long"
  | .short => "short"

structure LongRow where
  series : SeriesInfo
  units : Nat
  avgCost : Nat
deriving DecidableEq

structure ShortRow where
  series : SeriesInfo
  units : Nat
deriving DecidableEq

structure Holdings where
  longs : List LongRow
  shorts : List ShortRow
deriving DecidableEq

/- Addresses are stored checksummed. -/
structure Snapshot where
  time : Nat
  spots : OrderedMap String Nat
  holdings : OrderedMap String Holdings

def emptySnapshot : Snapshot :=
  { time := 0
    spots := .empty
    holdings := .empty }

structure Position where
  address : String
  side : PositionSide
  series : SeriesInfo
  units : Nat
  avgCost : Option Nat
deriving DecidableEq

def positionOfLong
    (address : String)
    (l : LongRow) : Position :=
  { address := address
    side := .long
    series := l.series
    units := l.units
    avgCost := some l.avgCost }

def positionOfShort
    (address : String)
    (s : ShortRow) : Position :=
  { address := address
    side := .short
    series := s.series
    units := s.units
    avgCost := none }

def positionsOf
    (snapshot : Snapshot) : List Position :=
  snapshot.holdings.entries.flatMap (fun entry =>
    entry.2.longs.map (positionOfLong entry.1) ++
      entry.2.shorts.map (positionOfShort entry.1))

def findPosition
    (snapshot : Snapshot)
    (address : String)
    (side : PositionSide)
    (longId : String) : Option Position :=
  match snapshot.holdings.get? address with
  | none => none
  | some h =>
      match side with
      | .long =>
          (h.longs.find? (fun x => x.series.longId = longId)).map
            (positionOfLong address)
      | .short =>
          (h.shorts.find?
            (fun x => x.series.longId = longId)).map
            (positionOfShort address)

----
-- Windows
----

inductive ExpiryKind where
  | day
  | hour
deriving DecidableEq

def ExpiryKind.text : ExpiryKind → String
  | .day => "expiry_24h"
  | .hour => "expiry_1h"

/- RULE_TIMING, in seconds. -/
def ExpiryKind.leadS : ExpiryKind → Int
  | .day => 24 * 3600
  | .hour => 3600

def ExpiryKind.windowS : ExpiryKind → Int
  | .day => 3600
  | .hour => 15 * 60

def expiryDigestAfter : Nat := 3

def expiryDigestList : Nat := 10

def inExpiryWindow
    (time : Nat)
    (series : SeriesInfo)
    (kind : ExpiryKind) : Bool :=
  let remaining : Int := (series.expiry : Int) - time
  isLive series time && decide (remaining ≤ kind.leadS) &&
    decide (remaining > kind.leadS - kind.windowS)

/- In its window now, and not yet in the older snapshot. -/
def enters
    (before after : Snapshot)
    (kind : ExpiryKind)
    (p : Position) : Bool :=
  inExpiryWindow after.time p.series kind &&
    !(match findPosition before p.address p.side
        p.series.longId with
      | none => false
      | some was => inExpiryWindow before.time was.series kind)

----
-- Messages
----

structure SeriesPayload where
  longId : String
  ticker : String
  isPut : Bool
  strikeRaw : Nat
  strikeDecimals : Int
  expiry : Nat
deriving DecidableEq

def seriesPayload
    (s : SeriesInfo) : SeriesPayload :=
  { longId := s.longId
    ticker := s.ticker
    isPut := s.isPut
    strikeRaw := s.strikeRaw
    strikeDecimals := s.strikeDecimals
    expiry := s.expiry }

/- Average cost per share times units, rounded up. -/
def longCost
    (avgCostPerShare units : Nat) : Nat :=
  (avgCostPerShare * units + 99) / 100

structure ExpiryLine where
  series : SeriesPayload
  position : PositionSide
  units : Nat
  cost : Option Nat
deriving DecidableEq

def expiryLine
    (p : Position) : ExpiryLine :=
  { series := seriesPayload p.series
    position := p.side
    units := p.units
    cost :=
      match p.side with
      | .long => some (longCost (p.avgCost.getD 0) p.units)
      | .short => none }

/- A digest lists its first positions and counts the others. -/
structure ExpiryPayload where
  line : ExpiryLine
  spot : Option Nat
  positions : Option (List ExpiryLine)
  more : Option Nat
deriving DecidableEq

structure ExpiryRequest where
  kind : ExpiryKind
  address : String
  payload : ExpiryPayload
  dedupeKey : String
deriving DecidableEq

/- delivery.ts; getAddress leaves a checksummed address. -/
def dedupeKey
    (kind : ExpiryKind)
    (address seriesId bucket : String) : String :=
  kind.text ++ ":" ++ address ++ ":" ++ seriesId ++ ":" ++
    bucket

def expirySingle
    (kind : ExpiryKind)
    (p : Position)
    (after : Snapshot) : ExpiryRequest :=
  { kind := kind
    address := p.address
    payload :=
      { line := expiryLine p
        spot := after.spots.get? p.series.ticker
        positions := none
        more := none }
    dedupeKey :=
      dedupeKey kind p.address p.series.longId p.side.text }

/- FNV-1a of 64 bits. -/
def fnv64
    (text : String) : Nat :=
  text.toList.foldl
    (fun h c =>
      (((h ^^^ c.toNat) &&& 0xffffffffffffffff) *
        0x100000001b3) &&& 0xffffffffffffffff)
    0xcbf29ce484222325

def batchIds
    (group : List Position) : List String :=
  (group.map (fun p =>
    p.side.text ++ ":" ++ p.series.longId)).insertionSort
      (fun a b => a ≤ b)

/- Which positions a digest is about. -/
def batchTag
    (group : List Position) : String :=
  let digits :=
    Nat.toDigits 16
      (fnv64 (String.intercalate "," (batchIds group)))
  String.ofList
    (List.replicate (16 - digits.length) '0' ++ digits)

def expiryDigest
    (kind : ExpiryKind)
    (first : Position)
    (group : List Position)
    (after : Snapshot) : ExpiryRequest :=
  let listed := group.take expiryDigestList
  let more := group.length - listed.length
  { kind := kind
    address := first.address
    payload :=
      { line := expiryLine first
        spot := after.spots.get? first.series.ticker
        positions := some (listed.map expiryLine)
        more := if more > 0 then some more else none }
    dedupeKey :=
      dedupeKey kind first.address
        (toString first.series.expiry)
        ("digest-" ++ batchTag group) }

----
-- The Countdowns
----

/- The source joins the three with colons. -/
structure GroupKey where
  address : String
  kind : ExpiryKind
  expiry : Nat
deriving DecidableEq

/- A request with the positions it is about. -/
structure ExpiryNotice where
  request : ExpiryRequest
  about : List Position
deriving DecidableEq

def enteringItems
    (before after : Snapshot) : List (GroupKey × Position) :=
  (positionsOf after).flatMap (fun p =>
    ([ExpiryKind.day, .hour].filter
      (fun kind => enters before after kind p)).map
        (fun kind =>
          ({ address := p.address
             kind := kind
             expiry := p.series.expiry }, p)))

/- One request per position, or one for more than three. -/
def groupNotices
    (after : Snapshot)
    (kind : ExpiryKind)
    (group : List Position) : List ExpiryNotice :=
  if group.length ≤ expiryDigestAfter then
    group.map (fun p =>
      { request := expirySingle kind p after, about := [p] })
  else
    match group with
    | [] => []
    | first :: _ =>
        [{ request := expiryDigest kind first group after
           about := group }]

/- Group by group, in the order in which a Map holds them. -/
def expiryNotices
    (before after : Snapshot) : List ExpiryNotice :=
  let items := enteringItems before after
  (GroupedOrder.firsts Prod.fst items).flatMap (fun key =>
    groupNotices after key.kind
      ((items.filter (fun item => item.1 = key)).map Prod.snd))

def expiryCountdowns
    (before after : Snapshot) : List ExpiryRequest :=
  (expiryNotices before after).map ExpiryNotice.request

/-
  One tick: the snapshot it built, and whether it was saved
  after its requests were enqueued. A settled long may be
  saved as held; neither status is live.
-/
structure ExpiryTick where
  after : Snapshot
  saved : Bool

def ExpiryTick.state
    (t : ExpiryTick) : Option Snapshot :=
  if t.saved then some t.after else none

/- The snapshot that the next tick compares with. -/
def savedAfter
    (ticks : List ExpiryTick) : Snapshot :=
  Checkpoint.last ExpiryTick.state emptySnapshot ticks

/- Everything that a run enqueues, in its order. -/
def noticesOf
    (ticks : List ExpiryTick) : List ExpiryNotice :=
  Checkpoint.outputs ExpiryTick.state
    (fun before t => expiryNotices before t.after)
    emptySnapshot ticks

----
-- Groups
----

/- The positions of one wallet and expiry entering a window. -/
def entering
    (before after : Snapshot)
    (key : GroupKey) : List Position :=
  (positionsOf after).filter (fun p =>
    enters before after key.kind p &&
      (decide (p.address = key.address) &&
        decide (p.series.expiry = key.expiry)))

theorem mem_entering_iff
    (before after : Snapshot)
    (key : GroupKey)
    (p : Position) :
    p ∈ entering before after key ↔
      p ∈ positionsOf after ∧
        enters before after key.kind p = true ∧
          p.address = key.address ∧
            p.series.expiry = key.expiry := by
  unfold entering
  simp [List.mem_filter]

/- What one position adds to one group. -/
theorem filter_windows
    (before after : Snapshot)
    (key : GroupKey)
    (p : Position) :
    ((([ExpiryKind.day, .hour].filter
        (fun kind => enters before after kind p)).map
          (fun kind =>
            (({ address := p.address
                kind := kind
                expiry := p.series.expiry } : GroupKey),
              p))).filter
        (fun item => item.1 = key)).map Prod.snd =
      [p].filter (fun p =>
        enters before after key.kind p &&
          (decide (p.address = key.address) &&
            decide (p.series.expiry = key.expiry))) := by
  rcases key with ⟨address, kind, expiry⟩
  by_cases hKey :
      p.address = address ∧ p.series.expiry = expiry
  · rcases hKey with ⟨rfl, rfl⟩
    cases hDay : enters before after .day p <;>
      cases hHour : enters before after .hour p <;>
        cases kind <;>
          simp [hDay, hHour]
  · cases hDay : enters before after .day p <;>
      cases hHour : enters before after .hour p <;>
        cases kind <;>
          simp [hDay, hHour, hKey]

theorem filter_enteringItems
    (before after : Snapshot)
    (key : GroupKey) :
    ((enteringItems before after).filter
        (fun item => item.1 = key)).map Prod.snd =
      entering before after key := by
  unfold enteringItems entering
  induction positionsOf after with
  | nil => rfl
  | cons p rest ih =>
      rw [List.flatMap_cons, List.filter_append,
        List.map_append, ih, filter_windows,
        ← List.filter_append, List.singleton_append]

theorem mem_expiryNotices_iff
    (before after : Snapshot)
    (n : ExpiryNotice) :
    n ∈ expiryNotices before after ↔
      ∃ key : GroupKey,
        n ∈ groupNotices after key.kind
          (entering before after key) := by
  unfold expiryNotices
  simp only [List.mem_flatMap, filter_enteringItems]
  constructor
  · rintro ⟨key, _, hNotice⟩
    exact ⟨key, hNotice⟩
  · rintro ⟨key, hNotice⟩
    refine ⟨key, ?_, hNotice⟩
    -- A group without positions has no notice.
    have hSome : entering before after key ≠ [] := by
      intro hNone
      rw [hNone] at hNotice
      simp [groupNotices] at hNotice
    rcases List.exists_mem_of_ne_nil _ hSome with ⟨p, hp⟩
    rw [← filter_enteringItems] at hp
    rcases List.mem_map.mp hp with ⟨item, hItem, _⟩
    rcases List.mem_filter.mp hItem with ⟨hIn, hKey⟩
    rw [← of_decide_eq_true hKey]
    exact GroupedOrder.mem_firsts Prod.fst hIn

----
-- Dedupe Keys
----

/- A checksummed address and a longId in decimal are so. -/
def ColonFree
    (text : String) : Prop :=
  ':' ∉ text.toList

instance
    (text : String) :
    Decidable (ColonFree text) :=
  inferInstanceAs (Decidable (_ ∉ _))

theorem colon_split
    {a a' b b' : List Char}
    (ha : ':' ∉ a)
    (ha' : ':' ∉ a')
    (h : a ++ ':' :: b = a' ++ ':' :: b') :
    a = a' ∧ b = b' := by
  induction a generalizing a' with
  | nil =>
      cases a' with
      | nil => exact ⟨rfl, (List.cons.inj h).2⟩
      | cons c rest =>
          have hColon : ':' = c := (List.cons.inj h).1
          exact absurd (List.mem_cons.mpr (.inl hColon)) ha'
  | cons c rest ih =>
      cases a' with
      | nil =>
          have hColon : c = ':' := (List.cons.inj h).1
          exact absurd (List.mem_cons.mpr (.inl hColon.symm)) ha
      | cons c' rest' =>
          rcases List.cons.inj h with ⟨rfl, hRest⟩
          have hSame :=
            ih (fun hIn => ha (List.mem_cons_of_mem _ hIn))
              (fun hIn => ha' (List.mem_cons_of_mem _ hIn))
              hRest
          exact ⟨by rw [hSame.1], hSame.2⟩

theorem colonFree_kind
    (kind : ExpiryKind) :
    ColonFree kind.text := by
  cases kind <;> decide

theorem colonFree_side
    (side : PositionSide) :
    ColonFree side.text := by
  cases side <;> decide

theorem colonFree_number
    (n : Nat) :
    ColonFree (toString n) := by
  intro hColon
  rw [Nat.toString_eq_ofList_toDigits, String.toList_ofList]
    at hColon
  exact absurd
    (Nat.isDigit_of_mem_toDigits (by decide) (by decide) hColon)
    (by decide)

variable {kind : ExpiryKind}

theorem kind_eq_of_text
    {kind' : ExpiryKind}
    (h : kind.text = kind'.text) :
    kind = kind' := by
  cases kind <;> cases kind' <;>
    first
    | rfl
    | simp [ExpiryKind.text] at h

theorem side_eq_of_text
    {side side' : PositionSide}
    (h : side.text = side'.text) :
    side = side' := by
  cases side <;> cases side' <;>
    first
    | rfl
    | simp [PositionSide.text] at h

theorem side_ne_digest
    (side : PositionSide)
    (tag : String) :
    side.text ≠ "digest-" ++ tag := by
  intro h
  have hList := congrArg String.toList h
  rw [String.toList_append] at hList
  cases side <;>
    simp [PositionSide.text] at hList

theorem toList_dedupeKey
    (kind : ExpiryKind)
    (address seriesId bucket : String) :
    (dedupeKey kind address seriesId bucket).toList =
      kind.text.toList ++ ':' ::
        (address.toList ++ ':' ::
          (seriesId.toList ++ ':' :: bucket.toList)) := by
  simp [dedupeKey]

theorem dedupeKey_inj
    {kind' : ExpiryKind}
    {address address' seriesId seriesId' : String}
    {bucket bucket' : String}
    (hAddress : ColonFree address)
    (hAddress' : ColonFree address')
    (hSeries : ColonFree seriesId)
    (hSeries' : ColonFree seriesId')
    (h :
      dedupeKey kind address seriesId bucket =
        dedupeKey kind' address' seriesId' bucket') :
    kind = kind' ∧ address = address' ∧
      seriesId = seriesId' ∧ bucket = bucket' := by
  have hList := congrArg String.toList h
  rw [toList_dedupeKey, toList_dedupeKey] at hList
  rcases colon_split (colonFree_kind kind)
    (colonFree_kind kind') hList with ⟨hKind, hRest⟩
  rcases colon_split hAddress hAddress' hRest with
    ⟨hSame, hRest⟩
  rcases colon_split hSeries hSeries' hRest with
    ⟨hId, hBucket⟩
  exact ⟨kind_eq_of_text (String.toList_inj.mp hKind),
    String.toList_inj.mp hSame, String.toList_inj.mp hId,
    String.toList_inj.mp hBucket⟩

variable {group' : List Position} {p : Position}
variable {group : List Position}

/- A batch's list of ids says which positions are in it. -/
theorem mem_of_batchIds_eq
    (h : batchIds group = batchIds group')
    (hp : p ∈ group) :
    ∃ q ∈ group',
      q.side = p.side ∧ q.series.longId = p.series.longId := by
  have hText :
      p.side.text ++ ":" ++ p.series.longId ∈
        batchIds group' := by
    rw [← h]
    unfold batchIds
    rw [List.mem_insertionSort]
    exact List.mem_map_of_mem hp
  unfold batchIds at hText
  rw [List.mem_insertionSort] at hText
  rcases List.mem_map.mp hText with ⟨q, hq, hSame⟩
  have hList := congrArg String.toList hSame
  simp only [String.toList_append, List.append_assoc] at hList
  rcases colon_split (colonFree_side q.side)
    (colonFree_side p.side) hList with ⟨hSide, hId⟩
  exact ⟨q, hq, side_eq_of_text (String.toList_inj.mp hSide),
    String.toList_inj.mp hId⟩

theorem length_eq_of_batchIds_eq
    (h : batchIds group = batchIds group') :
    group.length = group'.length := by
  have hLength := congrArg List.length h
  unfold batchIds at hLength
  rw [List.length_insertionSort, List.length_insertionSort,
    List.length_map, List.length_map] at hLength
  exact hLength

----
-- What a Batch Names
----

structure PositionId where
  address : String
  side : PositionSide
  longId : String
deriving DecidableEq

def Position.id
    (p : Position) : PositionId :=
  { address := p.address
    side := p.side
    longId := p.series.longId }

def ExpiryNotice.names
    (n : ExpiryNotice)
    (id : PositionId) : Prop :=
  ∃ p ∈ n.about, p.id = id

/- The key that tells of a position of this group. -/
def toldKey
    (key : GroupKey)
    (group : List Position)
    (id : PositionId) : String :=
  if group.length ≤ expiryDigestAfter then
    dedupeKey key.kind id.address id.longId id.side.text
  else
    dedupeKey key.kind key.address (toString key.expiry)
      ("digest-" ++ batchTag group)

theorem groupNotices_cases
    {after : Snapshot}
    {n : ExpiryNotice}
    (h : n ∈ groupNotices after kind group) :
    (group.length ≤ expiryDigestAfter ∧
        ∃ p ∈ group,
          n =
            { request := expirySingle kind p after
              about := [p] }) ∨
      (expiryDigestAfter < group.length ∧
        ∃ first ∈ group,
          n =
            { request := expiryDigest kind first group after
              about := group }) := by
  unfold groupNotices at h
  split at h
  · next hFew =>
      rcases List.mem_map.mp h with ⟨p, hp, hNotice⟩
      exact .inl ⟨hFew, p, hp, hNotice.symm⟩
  · next hMany =>
      cases group with
      | nil => simp at hMany
      | cons first rest =>
          refine .inr ⟨Nat.lt_of_not_le hMany, first, ?_, ?_⟩
          · exact List.mem_cons_self
          · exact List.mem_singleton.mp h

/- Every position of a group is in one of its notices. -/
theorem groupNotices_names
    (after : Snapshot)
    (kind : ExpiryKind)
    (hp : p ∈ group) :
    ∃ n ∈ groupNotices after kind group, n.names p.id := by
  unfold groupNotices
  split
  · refine ⟨_, List.mem_map_of_mem hp, ?_⟩
    exact ⟨p, List.mem_singleton.mpr rfl, rfl⟩
  · cases group with
    | nil => cases hp
    | cons first rest =>
        refine ⟨_, List.mem_singleton.mpr rfl, ?_⟩
        exact ⟨p, hp, rfl⟩

variable {id : PositionId}

/- A notice of a group: whom it names, and under which key. -/
theorem entering_notice
    {before after : Snapshot}
    {key : GroupKey}
    {n : ExpiryNotice}
    (h :
      n ∈ groupNotices after key.kind
        (entering before after key))
    (hNames : n.names id) :
    (∃ p ∈ entering before after key, p.id = id) ∧
      n.request.kind = key.kind ∧
        n.request.dedupeKey =
          toldKey key (entering before after key) id := by
  unfold toldKey
  rcases groupNotices_cases h with
    ⟨hFew, p, hp, rfl⟩ | ⟨hMany, first, hFirst, rfl⟩
  · rcases hNames with ⟨q, hq, rfl⟩
    rw [List.mem_singleton.mp hq, if_pos hFew]
    exact ⟨⟨p, hp, rfl⟩, rfl, rfl⟩
  · rw [if_neg (Nat.not_le.mpr hMany)]
    rcases (mem_entering_iff _ _ _ _).mp hFirst with
      ⟨_, _, hAddress, hExpiry⟩
    refine ⟨hNames, rfl, ?_⟩
    rw [← hAddress, ← hExpiry]
    rfl

/- Both batches are told one by one, or as one digest. -/
def SameBatch
    (group group' : List Position) : Prop :=
  (group.length ≤ expiryDigestAfter ∧
      group'.length ≤ expiryDigestAfter) ∨
    batchIds group = batchIds group'

theorem toldKey_eq_of_sameBatch
    (h : SameBatch group group')
    (key : GroupKey)
    (id : PositionId) :
    toldKey key group id = toldKey key group' id := by
  unfold toldKey
  rcases h with ⟨hFew, hFew'⟩ | hIds
  · rw [if_pos hFew, if_pos hFew']
  · have hTag : batchTag group = batchTag group' := by
      unfold batchTag
      rw [hIds]
    rw [length_eq_of_batchIds_eq hIds, hTag]

theorem sameBatch_of_toldKey_eq
    {key : GroupKey}
    (hAddress : id.address = key.address)
    (hFree : ColonFree key.address)
    (hId : ColonFree id.longId)
    (hTags :
      expiryDigestAfter < group.length →
        expiryDigestAfter < group'.length →
          batchTag group = batchTag group' →
            batchIds group = batchIds group')
    (h : toldKey key group id = toldKey key group' id) :
    SameBatch group group' := by
  unfold toldKey at h
  rw [hAddress] at h
  by_cases hFew : group.length ≤ expiryDigestAfter
  · by_cases hFew' : group'.length ≤ expiryDigestAfter
    · exact .inl ⟨hFew, hFew'⟩
    · rw [if_pos hFew, if_neg hFew'] at h
      have hBucket :=
        (dedupeKey_inj hFree hFree hId
          (colonFree_number key.expiry) h).2.2.2
      exact absurd hBucket (side_ne_digest _ _)
  · by_cases hFew' : group'.length ≤ expiryDigestAfter
    · rw [if_neg hFew, if_pos hFew'] at h
      have hBucket :=
        (dedupeKey_inj hFree hFree
          (colonFree_number key.expiry) hId h).2.2.2
      exact absurd hBucket.symm (side_ne_digest _ _)
    · rw [if_neg hFew, if_neg hFew'] at h
      have hBucket :=
        (dedupeKey_inj hFree hFree
          (colonFree_number key.expiry)
          (colonFree_number key.expiry) h).2.2.2
      have hTag := (String.append_right_inj _).mp hBucket
      exact .inr
        (hTags (Nat.lt_of_not_le hFew)
          (Nat.lt_of_not_le hFew') hTag)

----
-- Windows and Saved Snapshots
----

theorem mem_of_get?
    {m : OrderedMap String Holdings}
    {address : String}
    {h : Holdings}
    (hGet : m.get? address = some h) :
    (address, h) ∈ m.entries := by
  unfold OrderedMap.get? at hGet
  rcases Option.map_eq_some_iff.mp hGet with
    ⟨entry, hFind, hValue⟩
  have hKey := List.find?_some hFind
  rw [← of_decide_eq_true hKey, ← hValue]
  exact List.mem_of_find?_eq_some hFind

theorem findPosition_mem
    {snapshot : Snapshot}
    (h :
      findPosition snapshot id.address id.side id.longId =
        some p) :
    p ∈ positionsOf snapshot ∧ p.id = id := by
  rcases id with ⟨address, side, longId⟩
  unfold findPosition at h
  split at h
  · cases h
  · next held hGet =>
      have hEntry := mem_of_get? hGet
      cases side with
      | long =>
          rcases Option.map_eq_some_iff.mp h with
            ⟨l, hFind, rfl⟩
          have hHere := List.find?_some hFind
          have hId : l.series.longId = longId :=
            of_decide_eq_true hHere
          refine ⟨List.mem_flatMap.mpr ⟨_, hEntry, ?_⟩, ?_⟩
          · exact List.mem_append_left _
              (List.mem_map_of_mem
                (List.mem_of_find?_eq_some hFind))
          · simp [Position.id, positionOfLong, hId]
      | short =>
          rcases Option.map_eq_some_iff.mp h with
            ⟨s, hFind, rfl⟩
          have hHere := List.find?_some hFind
          have hId : s.series.longId = longId :=
            of_decide_eq_true hHere
          refine ⟨List.mem_flatMap.mpr ⟨_, hEntry, ?_⟩, ?_⟩
          · exact List.mem_append_right _
              (List.mem_map_of_mem
                (List.mem_of_find?_eq_some hFind))
          · simp [Position.id, positionOfShort, hId]

theorem enters_iff
    (before after : Snapshot)
    (kind : ExpiryKind)
    (p : Position) :
    enters before after kind p = true ↔
      inExpiryWindow after.time p.series kind = true ∧
        ∀ was,
          findPosition before p.address p.side
              p.series.longId = some was →
            inExpiryWindow before.time was.series kind =
              false := by
  unfold enters
  cases hFind :
    findPosition before p.address p.side p.series.longId with
  | none => simp
  | some was => simp

theorem inExpiryWindow_iff
    (time : Nat)
    (series : SeriesInfo)
    (kind : ExpiryKind) :
    inExpiryWindow time series kind = true ↔
      series.status.live = true ∧ time < series.expiry ∧
        (series.expiry : Int) - time ≤ kind.leadS ∧
        (series.expiry : Int) - time >
          kind.leadS - kind.windowS := by
  unfold inExpiryWindow isLive
  simp [and_assoc]

/- Between two moments of a window there is only the window. -/
theorem inExpiryWindow_between
    {early time late : Nat}
    {series series' series'' : SeriesInfo}
    (hEarly : early ≤ time)
    (hLate : time ≤ late)
    (hTerms : series'.expiry = series.expiry)
    (hTerms' : series''.expiry = series.expiry)
    (hLive : series.status.live = true)
    (hFrom : inExpiryWindow early series' kind = true)
    (hTo : inExpiryWindow late series'' kind = true) :
    inExpiryWindow time series kind = true := by
  rcases (inExpiryWindow_iff _ _ _).mp hFrom with
    ⟨_, _, hLead, _⟩
  rcases (inExpiryWindow_iff _ _ _).mp hTo with
    ⟨_, hBefore, _, hWindow⟩
  rw [hTerms] at hLead
  rw [hTerms'] at hBefore hWindow
  refine (inExpiryWindow_iff _ _ _).mpr ⟨hLive, ?_, ?_, ?_⟩
  · omega
  · omega
  · omega

----
-- Runs
----

section

/-
  Ticks at increasing times. The schema takes only decimal
  longIds, addresses are checksummed hex, and a longId
  commits to its expiry.
-/
structure ExpiryRun
    (ticks : List ExpiryTick) : Prop where
  increasing :
    ticks.Pairwise (fun u t => u.after.time < t.after.time)
  addresses :
    ∀ t ∈ ticks, ∀ p ∈ positionsOf t.after, ColonFree p.address
  longIds :
    ∀ t ∈ ticks, ∀ p ∈ positionsOf t.after,
      ColonFree p.series.longId
  terms :
    ∀ u ∈ ticks, ∀ t ∈ ticks,
      ∀ p ∈ positionsOf u.after, ∀ q ∈ positionsOf t.after,
        p.series.longId = q.series.longId →
          p.series.expiry = q.series.expiry

/- The tags of the digests of distinct batches differ. -/
def TagsDiffer
    (ticks : List ExpiryTick) : Prop :=
  ∀ m ∈ noticesOf ticks, ∀ n ∈ noticesOf ticks,
    expiryDigestAfter < m.about.length →
      expiryDigestAfter < n.about.length →
        batchTag m.about = batchTag n.about →
          batchIds m.about = batchIds n.about

def Holds
    (snapshot : Snapshot)
    (id : PositionId) : Prop :=
  ∃ p ∈ positionsOf snapshot, p.id = id

instance
    (snapshot : Snapshot)
    (id : PositionId) :
    Decidable (Holds snapshot id) :=
  inferInstanceAs (Decidable (∃ p ∈ positionsOf snapshot, _))

def StaysHeld
    (ticks : List ExpiryTick)
    (id : PositionId) : Prop :=
  ticks.Pairwise (fun u t =>
    Holds u.after id → Holds t.after id)

/- Live inside the window at some saved snapshot. -/
def SavedInWindow
    (ticks : List ExpiryTick)
    (kind : ExpiryKind)
    (id : PositionId) : Prop :=
  ∃ t ∈ ticks, t.saved = true ∧
    ∃ p ∈ positionsOf t.after, p.id = id ∧
      inExpiryWindow t.after.time p.series kind = true

/- A request of this kind and key names the position. -/
def ToldBy
    (ticks : List ExpiryTick)
    (kind : ExpiryKind)
    (id : PositionId)
    (k : String) : Prop :=
  ∃ n ∈ noticesOf ticks,
    n.request.kind = kind ∧ n.names id ∧
      n.request.dedupeKey = k

def ToldOnce
    (ticks : List ExpiryTick) : Prop :=
  ∀ kind id,
    StaysHeld ticks id →
      SavedInWindow ticks kind id →
        ∃! k, ToldBy ticks kind id k

/- No key stands for a batch with a position not told by it. -/
def KeysKeepTheirBatch
    (ticks : List ExpiryTick) : Prop :=
  ∀ m ∈ noticesOf ticks, ∀ n ∈ noticesOf ticks,
    m.request.dedupeKey = n.request.dedupeKey →
      ∀ id, n.names id → m.names id

/- The snapshot does not show the position's series trading. -/
def NotTrading
    (snapshot : Snapshot)
    (id : PositionId) : Prop :=
  ∀ was,
    findPosition snapshot id.address id.side id.longId =
        some was →
      was.series.status.live = false

/-
  A tick that tells again of a position, because no snapshot
  was saved since an earlier one told of it or the saved one
  shows its series no longer trading, tells of the same
  batch.
-/
def RetoldAlike
    (ticks : List ExpiryTick) : Prop :=
  ∀ done u mid t later,
    ticks = done ++ u :: (mid ++ t :: later) →
      ∀ key : GroupKey,
      ∀ p ∈ entering (savedAfter done) u.after key,
      ∀ q ∈
          entering (savedAfter (done ++ u :: mid)) t.after key,
        p.id = q.id →
          StaysHeld ticks p.id →
            SavedInWindow ticks key.kind p.id →
              ((∀ s ∈ u :: mid, s.saved = false) ∨
                NotTrading (savedAfter (done ++ u :: mid))
                  p.id) →
                SameBatch
                  (entering (savedAfter done) u.after key)
                  (entering (savedAfter (done ++ u :: mid))
                    t.after key)

variable {ticks : List ExpiryTick}

theorem mem_noticesOf_iff
    (ticks : List ExpiryTick)
    (n : ExpiryNotice) :
    n ∈ noticesOf ticks ↔
      ∃ done t later,
        ticks = done ++ t :: later ∧
          ∃ key : GroupKey,
            n ∈ groupNotices t.after key.kind
              (entering (savedAfter done) t.after key) := by
  unfold noticesOf
  rw [Checkpoint.mem_outputs_iff]
  simp only [mem_expiryNotices_iff]
  rfl

theorem toldBy_iff
    (ticks : List ExpiryTick)
    (kind : ExpiryKind)
    (id : PositionId)
    (k : String) :
    ToldBy ticks kind id k ↔
      ∃ done t later,
        ticks = done ++ t :: later ∧
          ∃ key : GroupKey,
            key.kind = kind ∧
              (∃ p ∈ entering (savedAfter done) t.after key,
                p.id = id) ∧
                k =
                  toldKey key
                    (entering (savedAfter done) t.after key)
                    id := by
  constructor
  · rintro ⟨n, hIn, hKind, hNames, rfl⟩
    rcases (mem_noticesOf_iff _ _).mp hIn with
      ⟨done, t, later, hSplit, key, hNotice⟩
    rcases entering_notice hNotice hNames with
      ⟨hPosition, hSame, hKey⟩
    exact ⟨done, t, later, hSplit, key, hSame.symm.trans hKind,
      hPosition, hKey⟩
  · rintro
      ⟨done, t, later, hSplit, key, rfl, ⟨p, hp, rfl⟩, rfl⟩
    rcases groupNotices_names t.after key.kind hp with
      ⟨n, hNotice, hNames⟩
    have hIn : n ∈ noticesOf ticks :=
      (mem_noticesOf_iff _ _).mpr
        ⟨done, t, later, hSplit, key, hNotice⟩
    rcases entering_notice hNotice hNames with
      ⟨_, hKind, hKey⟩
    exact ⟨n, hIn, hKind, hNames, hKey⟩

/- The snapshot that a tick reads: the last saved, if any. -/
theorem savedAfter_cases
    (done steps : List ExpiryTick) :
    (∃ early s later,
      steps = early ++ s :: later ∧ s.saved = true ∧
        savedAfter (done ++ steps) = s.after) ∨
      (∀ s ∈ steps, s.saved = false) ∧
        savedAfter (done ++ steps) = savedAfter done := by
  unfold savedAfter
  rw [Checkpoint.last_append]
  rcases
      @Checkpoint.last_cases _ _ ExpiryTick.state
        (Checkpoint.last ExpiryTick.state emptySnapshot done)
        steps with
    ⟨early, s, later, snapshot, hSplit, hState, hLast⟩ |
      ⟨hNone, hLast⟩
  · unfold ExpiryTick.state at hState
    split at hState
    · next hSaved =>
        refine .inl ⟨early, s, later, hSplit, hSaved, ?_⟩
        rw [hLast]
        exact (Option.some.inj hState).symm
    · cases hState
  · refine .inr ⟨?_, hLast⟩
    intro s hs
    have hState := hNone s hs
    unfold ExpiryTick.state at hState
    cases hSaved : s.saved with
    | false => rfl
    | true => simp [hSaved] at hState

/- A position of a window was told of when it entered. -/
theorem told_of_window
    (ticks : List ExpiryTick)
    (kind : ExpiryKind)
    (done : List ExpiryTick)
    (t : ExpiryTick)
    (later : List ExpiryTick)
    (hSplit : ticks = done ++ t :: later)
    {p : Position}
    (hp : p ∈ positionsOf t.after)
    (hWindow : inExpiryWindow t.after.time p.series kind = true) :
    ∃ k, ToldBy ticks kind p.id k := by
  induction hLength : done.length using Nat.strong_induction_on
    generalizing done t later p with
  | h n ih =>
      subst hLength
      by_cases hEnters :
          enters (savedAfter done) t.after kind p = true
      · refine ⟨_, (toldBy_iff _ _ _ _).mpr ⟨done, t, later,
          hSplit,
          { address := p.address
            kind := kind
            expiry := p.series.expiry },
          rfl, ⟨p, ?_, rfl⟩, rfl⟩⟩
        exact (mem_entering_iff _ _ _ _).mpr
          ⟨hp, hEnters, rfl, rfl⟩
      · -- The snapshot that it read had it in the window.
        have hWas :
            ∃ was,
              findPosition (savedAfter done) p.address p.side
                  p.series.longId = some was ∧
                inExpiryWindow (savedAfter done).time
                  was.series kind = true := by
          rw [enters_iff] at hEnters
          push Not at hEnters
          rcases hEnters hWindow with ⟨was, hFind, hIn⟩
          exact ⟨was, hFind, Bool.eq_true_of_not_eq_false hIn⟩
        rcases hWas with ⟨was, hFind, hIn⟩
        rcases @findPosition_mem _ p.id _ hFind with
          ⟨hMem, hId⟩
        rcases savedAfter_cases [] done with
          ⟨early, s, between, hDone, _, hSaved⟩ |
            ⟨_, hSaved⟩
        · rw [List.nil_append] at hSaved
          rw [hSaved] at hMem hIn
          rw [← hId]
          refine
            ih early.length ?_ early s (between ++ t :: later)
              ?_ hMem hIn rfl
          · rw [hDone]
            simp
          · rw [hSplit, hDone]
            simp
        · rw [List.nil_append] at hSaved
          rw [hSaved] at hMem
          cases hMem

end

----
-- Told Once
----

section

variable {ticks : List ExpiryTick}

theorem entering_position
    {before after : Snapshot}
    {key : GroupKey}
    (hp : p ∈ entering before after key) :
    p ∈ positionsOf after :=
  ((mem_entering_iff _ _ _ _).mp hp).1

variable {u t : ExpiryTick}

/- One position has one group of each kind, in every tick. -/
theorem groupKey_eq
    (hRun : ExpiryRun ticks)
    (hu : u ∈ ticks)
    (ht : t ∈ ticks)
    {before before' : Snapshot}
    {key key' : GroupKey}
    (hKind : key.kind = key'.kind)
    {q : Position}
    (hp : p ∈ entering before u.after key)
    (hq : q ∈ entering before' t.after key')
    (hId : p.id = q.id) :
    key = key' := by
  rcases (mem_entering_iff _ _ _ _).mp hp with
    ⟨hpIn, _, hpAddress, hpExpiry⟩
  rcases (mem_entering_iff _ _ _ _).mp hq with
    ⟨hqIn, _, hqAddress, hqExpiry⟩
  have hAddress : p.address = q.address :=
    congrArg PositionId.address hId
  have hExpiry :=
    hRun.terms u hu t ht p hpIn q hqIn
      (congrArg PositionId.longId hId)
  rcases key with ⟨address, kind, expiry⟩
  rcases key' with ⟨address', kind', expiry'⟩
  simp only at hpAddress hpExpiry hqAddress hqExpiry hKind
  rw [← hpAddress, ← hqAddress, ← hpExpiry, ← hqExpiry,
    hAddress, hExpiry, hKind]

variable {done : List ExpiryTick}

theorem times_between
    (hRun : ExpiryRun ticks)
    {mid later : List ExpiryTick}
    {s : ExpiryTick}
    (hSplit : ticks = done ++ u :: (mid ++ t :: later))
    (hs : s ∈ u :: mid) :
    u.after.time ≤ s.after.time ∧
      s.after.time < t.after.time := by
  have hTimes := hRun.increasing
  rw [hSplit] at hTimes
  have hTail := (List.pairwise_append.mp hTimes).2.1
  rcases List.pairwise_cons.mp hTail with ⟨hFirst, hRest⟩
  have hMid := (List.pairwise_append.mp hRest).2.2
  rcases List.mem_cons.mp hs with rfl | hIn
  · exact ⟨le_rfl, hFirst t (by simp)⟩
  · refine ⟨(hFirst s ?_).le, hMid s hIn t ?_⟩
    · exact List.mem_append_left _ hIn
    · exact List.mem_cons_self

/-
  A saved snapshot that shows the position's series trading
  keeps it from entering the window again.
-/
theorem retold_unsaved
    (hRun : ExpiryRun ticks)
    {mid later : List ExpiryTick}
    (hSplit : ticks = done ++ u :: (mid ++ t :: later))
    {key : GroupKey}
    {q : Position}
    (hp : p ∈ entering (savedAfter done) u.after key)
    (hq :
      q ∈ entering (savedAfter (done ++ u :: mid)) t.after key)
    (hId : p.id = q.id) :
    (∀ s ∈ u :: mid, s.saved = false) ∨
      NotTrading (savedAfter (done ++ u :: mid)) p.id := by
  rcases savedAfter_cases done (u :: mid) with
    ⟨early, s, between, hSteps, _, hSaved⟩ | ⟨hNone, _⟩
  · right
    intro was hFind
    by_contra hLive
    rcases findPosition_mem hFind with ⟨hMem, hSame⟩
    rw [hSaved] at hMem
    have hs : s ∈ u :: mid := by
      rw [hSteps]
      simp
    have hIn : ∀ x ∈ u :: mid, x ∈ ticks := by
      intro x hx
      rw [hSplit]
      rcases List.mem_cons.mp hx with rfl | hx
      · simp
      · simp [hx]
    have ht : t ∈ ticks := by
      rw [hSplit]
      simp
    rcases (mem_entering_iff _ _ _ _).mp hp with
      ⟨hpIn, hpEnters, _⟩
    rcases (mem_entering_iff _ _ _ _).mp hq with
      ⟨hqIn, hqEnters, _⟩
    rcases (enters_iff _ _ _ _).mp hpEnters with ⟨hFrom, _⟩
    rcases (enters_iff _ _ _ _).mp hqEnters with ⟨hTo, hNot⟩
    have hTerms :=
      hRun.terms u (hIn u List.mem_cons_self) s (hIn s hs)
        p hpIn was hMem
        (congrArg PositionId.longId hSame.symm)
    have hTerms' :=
      hRun.terms t ht s (hIn s hs) q hqIn was hMem
        (congrArg PositionId.longId
          (hId.symm.trans hSame.symm))
    rcases times_between hRun hSplit hs with
      ⟨hEarly, hLate⟩
    have hWindow :=
      inExpiryWindow_between hEarly hLate.le hTerms hTerms'
        (Bool.eq_true_of_not_eq_false hLive) hFrom hTo
    rw [hId] at hFind
    have hOut := hNot was hFind
    rw [hSaved, hWindow] at hOut
    cases hOut
  · exact .inl hNone

/- Two tellings of one position, at one tick or at two. -/
theorem toldBy_unique
    (hRun : ExpiryRun ticks)
    (hAlike : RetoldAlike ticks)
    {kind : ExpiryKind}
    {id : PositionId}
    (hHeld : StaysHeld ticks id)
    (hSaved : SavedInWindow ticks kind id)
    {k k' : String}
    (h : ToldBy ticks kind id k)
    (h' : ToldBy ticks kind id k') :
    k = k' := by
  rcases (toldBy_iff _ _ _ _).mp h with
    ⟨done, t, later, hSplit, key, rfl, ⟨p, hp, rfl⟩, rfl⟩
  rcases (toldBy_iff _ _ _ _).mp h' with
    ⟨done', t', later', hSplit', key', hKind, ⟨q, hq, hId⟩,
      rfl⟩
  have ht := Checkpoint.mem_of_split hSplit
  have ht' := Checkpoint.mem_of_split hSplit'
  have hKeys := groupKey_eq hRun ht ht' hKind.symm hp hq hId.symm
  subst hKeys
  rcases Checkpoint.split_cases (hSplit.symm.trans hSplit')
    with
    ⟨rfl, rfl⟩ | ⟨mid, rfl, rfl⟩ | ⟨mid, rfl, rfl⟩
  · rfl
  · exact toldKey_eq_of_sameBatch
      (hAlike done t mid t' later' hSplit key p hp q hq hId.symm
        hHeld hSaved
        (retold_unsaved hRun hSplit hp hq hId.symm))
      key p.id
  · rw [← hId] at hHeld hSaved ⊢
    exact (toldKey_eq_of_sameBatch
      (hAlike done' t' mid t later hSplit' key q hq p hp hId
        hHeld hSaved (retold_unsaved hRun hSplit' hq hp hId))
      key q.id).symm

/- A group of more than three is some digest's batch. -/
theorem digest_about
    {later : List ExpiryTick}
    (hSplit : ticks = done ++ t :: later)
    {key : GroupKey}
    (hMany :
      expiryDigestAfter <
        (entering (savedAfter done) t.after key).length) :
    ∃ n ∈ noticesOf ticks,
      n.about = entering (savedAfter done) t.after key := by
  have hSome : entering (savedAfter done) t.after key ≠ [] := by
    intro hNone
    simp [hNone] at hMany
  rcases List.exists_mem_of_ne_nil _ hSome with ⟨p, hp⟩
  rcases groupNotices_names t.after key.kind hp with
    ⟨n, hNotice, _⟩
  refine ⟨n, (mem_noticesOf_iff _ _).mpr
    ⟨done, t, later, hSplit, key, hNotice⟩, ?_⟩
  rcases groupNotices_cases hNotice with
    ⟨hFew, _⟩ | ⟨_, first, _, rfl⟩
  · exact absurd hMany (Nat.not_lt.mpr hFew)
  · rfl

section

variable (hRun : ExpiryRun ticks)
include hRun

theorem retoldAlike_of_toldOnce
    (hTags : TagsDiffer ticks)
    (hOnce : ToldOnce ticks) :
    RetoldAlike ticks := by
  intro done u mid t later hSplit key p hp q hq hId hHeld
    hSaved _
  have hSplit' : ticks = (done ++ u :: mid) ++ t :: later := by
    rw [hSplit]
    simp
  have hTold :
      ToldBy ticks key.kind p.id
        (toldKey key (entering (savedAfter done) u.after key)
          p.id) :=
    (toldBy_iff _ _ _ _).mpr
      ⟨done, u, _, hSplit, key, rfl, ⟨p, hp, rfl⟩, rfl⟩
  have hTold' :
      ToldBy ticks key.kind p.id
        (toldKey key
          (entering (savedAfter (done ++ u :: mid)) t.after
            key)
          p.id) :=
    (toldBy_iff _ _ _ _).mpr
      ⟨_, t, later, hSplit', key, rfl, ⟨q, hq, hId.symm⟩, rfl⟩
  have hu := Checkpoint.mem_of_split hSplit
  rcases (mem_entering_iff _ _ _ _).mp hp with
    ⟨hIn, _, hAddress, _⟩
  have hFree := hRun.addresses u hu p hIn
  rw [hAddress] at hFree
  refine sameBatch_of_toldKey_eq hAddress hFree
    (hRun.longIds u hu p hIn) ?_
    ((hOnce key.kind p.id hHeld hSaved).unique hTold hTold')
  intro hMany hMany' hTag
  rcases digest_about hSplit hMany with ⟨m, hm, hAbout⟩
  rcases digest_about hSplit' hMany' with ⟨n, hn, hAbout'⟩
  rw [← hAbout] at hMany hTag ⊢
  rw [← hAbout'] at hMany' hTag ⊢
  exact hTags m hm n hn hMany hMany' hTag

theorem toldOnce_iff
    (hTags : TagsDiffer ticks) :
    ToldOnce ticks ↔ RetoldAlike ticks := by
  constructor
  · exact retoldAlike_of_toldOnce hRun hTags
  · intro hAlike kind id hHeld hSaved
    have hAgain := hSaved
    rcases hSaved with ⟨t, ht, _, p, hp, rfl, hWindow⟩
    rcases List.append_of_mem ht with ⟨done, later, hSplit⟩
    rcases told_of_window ticks kind done t later hSplit hp
      hWindow with ⟨k, hTold⟩
    refine ⟨k, hTold, ?_⟩
    intro k' hTold'
    exact toldBy_unique hRun hAlike hHeld hAgain hTold' hTold

/- A notice's key, by what it is about. -/
theorem notice_cases
    {n : ExpiryNotice}
    (hn : n ∈ noticesOf ticks) :
    (∃ p kind,
      n.about = [p] ∧
        ColonFree p.address ∧ ColonFree p.series.longId ∧
          n.request.dedupeKey =
            dedupeKey kind p.address p.series.longId
              p.side.text) ∨
      ∃ kind address, ∃ expiry : Nat,
        ColonFree address ∧
          expiryDigestAfter < n.about.length ∧
            (∀ p ∈ n.about, p.address = address) ∧
              n.request.dedupeKey =
                dedupeKey kind address (toString expiry)
                  ("digest-" ++ batchTag n.about) := by
  rcases (mem_noticesOf_iff _ _).mp hn with
    ⟨done, t, later, hSplit, key, hNotice⟩
  have ht := Checkpoint.mem_of_split hSplit
  rcases groupNotices_cases hNotice with
    ⟨_, p, hp, rfl⟩ | ⟨hMany, first, hFirst, rfl⟩
  · have hIn := entering_position hp
    exact .inl ⟨p, key.kind, rfl, hRun.addresses t ht p hIn,
      hRun.longIds t ht p hIn, rfl⟩
  · refine .inr ⟨key.kind, first.address,
      first.series.expiry,
      hRun.addresses t ht first (entering_position hFirst),
      hMany, ?_, rfl⟩
    intro p hp
    exact ((mem_entering_iff _ _ _ _).mp hp).2.2.1.trans
      ((mem_entering_iff _ _ _ _).mp hFirst).2.2.1.symm

theorem keysKeepTheirBatch
    (hTags : TagsDiffer ticks) :
    KeysKeepTheirBatch ticks := by
  intro m hm n hn hKey id hNames
  rcases hNames with ⟨q, hq, rfl⟩
  rcases notice_cases hRun hm with
    ⟨p, kind, hAbout, hFree, hId, hText⟩ |
      ⟨kind, address, expiry, hFree, hMany, hWallet, hText⟩
  · rcases notice_cases hRun hn with
      ⟨p', kind', hAbout', hFree', hId', hText'⟩ |
        ⟨kind', address', expiry', hFree', _, _, hText'⟩
    · rw [hText, hText'] at hKey
      rcases dedupeKey_inj hFree hFree' hId hId' hKey with
        ⟨_, hAddress, hLongId, hSide⟩
      rw [hAbout', List.mem_singleton] at hq
      refine ⟨p, ?_, ?_⟩
      · rw [hAbout]
        exact List.mem_singleton.mpr rfl
      · simp [hq, Position.id, hAddress, hLongId,
          side_eq_of_text hSide]
    · rw [hText, hText'] at hKey
      have hBucket :=
        (dedupeKey_inj hFree hFree' hId (colonFree_number _)
          hKey).2.2.2
      exact absurd hBucket (side_ne_digest _ _)
  · rcases notice_cases hRun hn with
      ⟨p', kind', hAbout', hFree', hId', hText'⟩ |
        ⟨kind', address', expiry', hFree', hMany', hWallet',
          hText'⟩
    · rw [hText, hText'] at hKey
      have hBucket :=
        (dedupeKey_inj hFree hFree' (colonFree_number _) hId'
          hKey).2.2.2
      exact absurd hBucket.symm (side_ne_digest _ _)
    · rw [hText, hText'] at hKey
      rcases dedupeKey_inj hFree hFree' (colonFree_number _)
        (colonFree_number _) hKey with
        ⟨_, hAddress, _, hBucket⟩
      have hIds :=
        hTags m hm n hn hMany hMany'
          ((String.append_right_inj _).mp hBucket)
      rcases mem_of_batchIds_eq hIds.symm hq with
        ⟨p, hp, hSide, hLongId⟩
      refine ⟨p, hp, ?_⟩
      simp [Position.id, hSide, hLongId, hWallet p hp,
        hWallet' q hq, hAddress]

end

end

----
-- Exactly Once
----

theorem expiry_told_once
    (ticks : List ExpiryTick)
    (hRun : ExpiryRun ticks)
    (hTags : TagsDiffer ticks) :
    (ToldOnce ticks ∧ KeysKeepTheirBatch ticks) ↔
      RetoldAlike ticks := by
  rw [toldOnce_iff hRun hTags]
  constructor
  · intro hBoth
    exact hBoth.1
  · intro hAlike
    exact ⟨hAlike, keysKeepTheirBatch hRun hTags⟩

/- Longs of one wallet that expire at second 100000. -/
def longOf
    (longId : String) : LongRow :=
  { series :=
      { longId := longId
        ticker := "NVDA"
        isPut := false
        strikeRaw := 215000000
        strikeDecimals := 6
        expiry := 100000
        status := .opened }
    units := 100
    avgCost := 2000000 }

def walletTick
    (time : Nat)
    (longIds : List String)
    (saved : Bool) : ExpiryTick :=
  { after :=
      { time := time
        spots := .empty
        holdings :=
          OrderedMap.empty.set "0xAb"
            { longs := longIds.map longOf
              shorts := [] } }
    saved := saved }

/- The same four longs, told of again after a lost save. -/
def sameBatch : List ExpiryTick :=
  [walletTick 14000 ["1", "2", "3", "4"] false,
    walletTick 14060 ["1", "2", "3", "4"] true]

/- One long, and three more by the time it is told of again. -/
def grownBatch : List ExpiryTick :=
  [walletTick 14000 ["1"] false,
    walletTick 14060 ["1", "2", "3", "4"] true]

theorem sameBatch_retold :
    ExpiryRun sameBatch ∧ TagsDiffer sameBatch ∧
      RetoldAlike sameBatch := by
  refine ⟨?_, ?_, ?_⟩
  · exact
      { increasing := by decide +kernel
        addresses := by decide +kernel
        longIds := by decide +kernel
        terms := by decide +kernel }
  · unfold TagsDiffer
    decide +kernel
  · intro done u mid t later hSplit key p _ q _ _ _ _ _
    -- Two ticks have only one pair of an earlier and a later.
    have hLength :
        2 = (done ++ u :: (mid ++ t :: later)).length :=
      congrArg List.length hSplit
    simp only [List.length_append, List.length_cons] at hLength
    have hDone : done = [] := by
      apply List.eq_nil_of_length_eq_zero
      omega
    have hMid : mid = [] := by
      apply List.eq_nil_of_length_eq_zero
      omega
    have hLater : later = [] := by
      apply List.eq_nil_of_length_eq_zero
      omega
    subst hDone hMid hLater
    simp only [sameBatch, List.nil_append, List.cons.injEq]
      at hSplit
    rcases hSplit with ⟨rfl, rfl, _⟩
    right
    apply congrArg batchIds
    apply List.filter_congr
    intro r hr
    have hEnters :
        ∀ kind,
          ∀ r ∈
              positionsOf
                (walletTick 14000 ["1", "2", "3", "4"]
                  false).after,
            enters emptySnapshot
                (walletTick 14000 ["1", "2", "3", "4"]
                  false).after kind r =
              enters emptySnapshot
                (walletTick 14060 ["1", "2", "3", "4"]
                  true).after kind r := by
      intro kind
      cases kind <;> decide +kernel
    have hSame := hEnters key.kind r hr
    unfold savedAfter Checkpoint.last
    simp only [List.foldl_nil]
    rw [hSame]
    rfl

theorem sameBatch_told_once :
    ToldOnce sameBatch ∧ KeysKeepTheirBatch sameBatch := by
  rcases sameBatch_retold with ⟨hRun, hTags, hAlike⟩
  exact (expiry_told_once sameBatch hRun hTags).mpr hAlike

theorem grownBatch_told_twice :
    ExpiryRun grownBatch ∧ TagsDiffer grownBatch ∧
      ¬ ToldOnce grownBatch := by
  refine ⟨?_, ?_, ?_⟩
  · exact
      { increasing := by decide +kernel
        addresses := by decide +kernel
        longIds := by decide +kernel
        terms := by decide +kernel }
  · unfold TagsDiffer
    decide +kernel
  · intro hOnce
    have hHeld :
        StaysHeld grownBatch
          (positionOfLong "0xAb" (longOf "1")).id := by
      unfold StaysHeld
      decide +kernel
    have hSaved :
        SavedInWindow grownBatch .day
          (positionOfLong "0xAb" (longOf "1")).id := by
      unfold SavedInWindow
      decide +kernel
    have hSingle :
        ToldBy grownBatch .day
          (positionOfLong "0xAb" (longOf "1")).id
          "expiry_24h:0xAb:1:long" := by
      unfold ToldBy ExpiryNotice.names
      decide +kernel
    have hDigest :
        ToldBy grownBatch .day
          (positionOfLong "0xAb" (longOf "1")).id
          "expiry_24h:0xAb:100000:digest-14f49ee00be4f6ab" := by
      unfold ToldBy ExpiryNotice.names
      decide +kernel
    have hKeys := (hOnce _ _ hHeld hSaved).unique hSingle hDigest
    exact absurd hKeys (by decide)

end Callhouse.Notifier
