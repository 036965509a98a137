import Callhouse.Indexer.ActivityPages
import Callhouse.Lib.FeedClient

/-
  notifier/src/rules/engine.ts: the activity step of a tick and
  the cursor that it persists, over the ticks of one
  deployment.  A tick that throws, or whose process stops before
  `saveState` commits, leaves the stored cursor as it was; a
  restart keeps nothing else.  Times are seconds that the
  route's `since` can hold.

  Main declarations:
    * `activityTick`, `runTicks`
    * `activityTick_eq`
    * `runTicks_fresh`
    * `activity_exactly_once`
-/

----
-- The Stored Cursor
----

namespace Callhouse.Notifier

section

open Indexer.ActivityFeed

/- What `in` finds on every plain object. -/
def objectPrototypeNames : List String :=
  ["constructor", "__defineGetter__", "__defineSetter__",
    "hasOwnProperty", "__lookupGetter__", "__lookupSetter__",
    "isPrototypeOf", "propertyIsEnumerable", "toString",
    "valueOf", "__proto__", "toLocaleString"]

/- `id in seen`, where `seen` maps ids to their times. -/
def idIn
    (id : String)
    (seen : List (String × Int)) : Bool :=
  decide (id ∈ objectPrototypeNames) ||
    decide (id ∈ seen.map Prod.fst)

structure Resume where
  since : Int
  cursor : CursorText
deriving DecidableEq

structure Cursor where
  since : Int
  seen : List (String × Int)
  resume : Option Resume
deriving DecidableEq

/- `cursorSchema`; the text of an indexer's cursor is not empty. -/
def Cursor.Parses
    (c : Cursor) : Prop :=
  0 ≤ c.since ∧ (∀ entry ∈ c.seen, 0 ≤ entry.2) ∧
    ∀ resume ∈ c.resume, 0 ≤ resume.since

instance
    (c : Cursor) : Decidable c.Parses := by
  unfold Cursor.Parses
  infer_instance

/- A row that does not parse is treated as absent. -/
def loadCursor
    (stored : Option Cursor) : Option Cursor :=
  stored.filter (fun c => decide c.Parses)

end

----
-- The Activity Step
----

section

open Indexer.ActivityFeed

structure RulesOptions where
  maxAgeS : Int
  lookbackS : Int
  pageLimit : Nat
  maxPages : Nat
deriving DecidableEq

/- The route's `limit` on the size of a page. -/
def limit
    (n : Nat) : Nat :=
  if 0 < n ∧ n ≤ 9007199254740991 then min n 200 else 50

/- The storm guard on restart. -/
def Cursor.jump
    (o : RulesOptions)
    (floor : Int)
    (c : Cursor) : Cursor :=
  if c.since < floor then
    { since := floor
      seen := c.seen
      resume :=
        c.resume.filter
          (fun resume =>
            decide (resume.since ≥ floor - o.lookbackS)) }
  else c

def Cursor.querySince
    (o : RulesOptions)
    (c : Cursor) : Int :=
  match c.resume with
  | some resume => resume.since
  | none => max 0 (c.since - o.lookbackS)

structure Collected where
  seen : List (String × Int)
  since : Int
  items : Nat
  stale : Nat
  fresh : List ActivityItem
deriving DecidableEq

def collect
    (querySince floor : Int)
    (c : Collected)
    (item : ActivityItem) : Collected :=
  if item.ts < querySince ∨ idIn item.id c.seen = true then c
  else
    let handled : Collected :=
      { c with
        seen := c.seen ++ [(item.id, item.ts)]
        items := c.items + 1
        since := max c.since item.ts }
    if item.ts < floor then
      { handled with stale := handled.stale + 1 }
    else { handled with fresh := handled.fresh ++ [item] }

structure TickOutcome where
  pages : FollowedPages
  cursor : Cursor
  items : Nat
  stale : Nat
  fresh : List ActivityItem
deriving DecidableEq

def activityTick
    [Collation]
    (o : RulesOptions)
    (now : Int)
    (reads : Nat → Tables)
    (stored : Option Cursor) : Except String TickOutcome :=
  let floor := now - o.maxAgeS
  let cursor :=
    (stored.getD
      { since := floor, seen := [], resume := none }).jump
        o floor
  let querySince := cursor.querySince o
  -- `page >= maxPages` is asked once a page has been read
  match
    followPages
      (feedPages reads (fun _ => limit o.pageLimit) querySince)
      (o.maxPages - 1) 0 (cursor.resume.map Resume.cursor)
  with
  | .error e => .error e
  | .ok pages =>
      let ordered :=
        pages.items.insertionSort (fun a b => a.ts ≤ b.ts)
      let collected :=
        ordered.foldl (collect querySince floor)
          { seen := cursor.seen
            since := cursor.since
            items := 0
            stale := 0
            fresh := [] }
      .ok
        { pages := pages
          cursor :=
            { since := collected.since
              seen :=
                collected.seen.filter
                  (fun entry =>
                    !decide
                      (entry.2 < collected.since - o.lookbackS))
              resume :=
                pages.nextCursor.map
                  (fun next =>
                    { since := querySince, cursor := next }) }
          items := collected.items
          stale := collected.stale
          fresh := collected.fresh }

/- When a tick runs, what it reads, and whether it persists. -/
structure TickInput where
  now : Int
  reads : Nat → Tables
  saved : Bool

structure SavedTick where
  input : TickInput
  outcome : TickOutcome

/- The ticks whose state is saved. -/
def runTicks
    [Collation]
    (o : RulesOptions) :
    Option Cursor → List TickInput → List SavedTick
| _, [] => []
| stored, input :: rest =>
    match
      activityTick o input.now input.reads (loadCursor stored)
    with
    | .error _ => runTicks o stored rest
    | .ok outcome =>
        if input.saved then
          { input := input, outcome := outcome } ::
            runTicks o (some outcome.cursor) rest
        else runTicks o stored rest

def SavedTick.floor
    (o : RulesOptions)
    (tick : SavedTick) : Int :=
  tick.input.now - o.maxAgeS

/- What the tick's pages went through, or left behind. -/
def SavedTick.reaches
    (tick : SavedTick)
    (e : Activity) : Bool :=
  tick.outcome.pages.passed tick.input.reads e

end

----
-- The Cursor of a Client
----

section

open Indexer.ActivityFeed FeedClient

def seenEntry
    (e : Activity) : String × Int :=
  (e.position.id, e.ts)

def wireResume
    (from_ : Int × Position) : Resume :=
  { since := from_.1
    cursor := cursorOf from_.2 }

/- How a client's state is stored. -/
def wireState
    (s : State Activity Position) : Cursor :=
  { since := s.since
    seen := s.seen.map seenEntry
    resume := s.resume.map wireResume }

/- A state whose paging the route takes up again. -/
def Resumable
    (s : State Activity Position) : Prop :=
  ∀ query cursor, s.resume = some (query, cursor) →
    0 ≤ query ∧ cursor.InRange

/- Events that an id tells apart. -/
structure Feed
    (time : Int → Int)
    (history : List Activity) : Prop where
  chain : Chain time history
  ids : (history.map (fun e => e.position.id)).Nodup
  names : ∀ e ∈ history,
    e.position.id ∉ objectPrototypeNames

variable {time : Int → Int} {history : List Activity}

theorem wireState_jump
    (o : RulesOptions)
    (floor : Int)
    (s : State Activity Position) :
    (wireState s).jump o floor =
      wireState (s.jump o.lookbackS floor) := by
  unfold Cursor.jump State.jump wireState
  by_cases hOld : s.since < floor
  · rw [if_pos hOld, if_pos hOld]
    cases hResume : s.resume with
    | none => rfl
    | some from_ =>
        simp only [Option.map_some, Option.filter_some,
          wireResume]
        split <;> rfl
  · rw [if_neg hOld, if_neg hOld]

theorem wireState_querySince
    (o : RulesOptions)
    (s : State Activity Position) :
    (wireState s).querySince o = s.querySince o.lookbackS := by
  unfold Cursor.querySince State.querySince wireState
  cases s.resume with
  | none => rfl
  | some from_ => rfl

theorem wireState_resume
    (s : State Activity Position) :
    (wireState s).resume.map Resume.cursor =
      s.cursor.map cursorOf := by
  unfold wireState State.cursor
  cases s.resume with
  | none => rfl
  | some from_ => rfl

section

variable (h : Feed time history)
include h

theorem Feed.times :
    ∀ e ∈ history, 0 ≤ e.ts :=
  h.chain.ts_nonneg

/- Two events of the feed with one id are one event. -/
theorem Feed.eq_of_id_eq
    {a b : Activity}
    (ha : a ∈ history)
    (hb : b ∈ history)
    (hId : a.position.id = b.position.id) :
    a = b :=
  List.inj_on_of_nodup_map h.ids ha hb hId

theorem Feed.nodup :
    history.Nodup :=
  h.ids.of_map

/- The seen ids are those of the seen events. -/
theorem Feed.idIn_iff
    {seen : List Activity}
    (hSeen : ∀ e ∈ seen, e ∈ history)
    {e : Activity}
    (he : e ∈ history) :
    idIn e.position.id (seen.map seenEntry) = true ↔
      e ∈ seen := by
  unfold idIn
  rw [Bool.or_eq_true, decide_eq_true_eq, decide_eq_true_eq,
    List.map_map, List.mem_map]
  constructor
  · rintro (hName | ⟨other, hOther, hId⟩)
    · exact absurd hName (h.names e he)
    · have hSame := h.eq_of_id_eq (hSeen other hOther) he hId
      rw [← hSame]
      exact hOther
  · intro hIn
    exact .inr ⟨e, hIn, rfl⟩

end

/- An item of the window that has not been seen. -/
theorem collect_unseen
    {querySince floor : Int}
    {c : Collected}
    {item : ActivityItem}
    (hWindow : item.ts ≥ querySince)
    (hUnseen : idIn item.id c.seen ≠ true) :
    collect querySince floor c item =
      { seen := c.seen ++ [(item.id, item.ts)]
        since := max c.since item.ts
        items := c.items + 1
        stale := c.stale + if item.ts < floor then 1 else 0
        fresh :=
          c.fresh ++ if item.ts < floor then [] else [item] } := by
  have hTake :
      ¬ (item.ts < querySince ∨
        idIn item.id c.seen = true) := by
    rintro (hLess | hOld)
    · exact absurd hWindow (not_le.mpr hLess)
    · exact hUnseen hOld
  unfold collect
  rw [if_neg hTake]
  by_cases hStale : item.ts < floor
  · simp only [if_pos hStale, List.append_nil]
  · simp only [if_neg hStale, Nat.add_zero]

def unseenOf
    (querySince : Int)
    (seen events : List Activity) : List Activity :=
  events.filter
    (fun e => decide (e.ts ≥ querySince) && decide (e ∉ seen))

/- Distinct events do not change what is unseen of each other. -/
theorem unseenOf_append
    (querySince : Int)
    (seen : List Activity)
    {e : Activity}
    {rest : List Activity}
    (hNew : e ∉ rest) :
    unseenOf querySince (seen ++ [e]) rest =
      unseenOf querySince seen rest := by
  unfold unseenOf
  apply List.filter_congr
  intro other hOther
  have hNe : other ≠ e := by
    rintro rfl
    exact hNew hOther
  simp [hNe]

/- The loop over the items, as the client's filters. -/
theorem Feed.foldl_collect
    (h : Feed time history)
    (querySince floor : Int)
    (events : List Activity)
    (hEvents : ∀ e ∈ events, e ∈ history)
    (hNodup : events.Nodup)
    (seen : List Activity)
    (hSeen : ∀ e ∈ seen, e ∈ history)
    (since : Int)
    (items stale : Nat)
    (fresh : List ActivityItem) :
    let unseen := unseenOf querySince seen events
    (events.map Activity.item).foldl (collect querySince floor)
        { seen := seen.map seenEntry
          since := since
          items := items
          stale := stale
          fresh := fresh } =
      { seen := (seen ++ unseen).map seenEntry
        since := newest Activity.ts since unseen
        items := items + unseen.length
        stale :=
          stale +
            unseen.countP (fun e => decide (e.ts < floor))
        fresh :=
          fresh ++
            (unseen.filter
              (fun e => decide (e.ts ≥ floor))).map
                Activity.item } := by
  induction events generalizing seen since items stale fresh with
  | nil => simp [newest, unseenOf]
  | cons e rest ih =>
      rw [List.forall_mem_cons] at hEvents
      rw [List.nodup_cons] at hNodup
      have hIn := h.idIn_iff hSeen hEvents.1
      rw [List.map_cons, List.foldl_cons]
      by_cases hTake : e.ts ≥ querySince ∧ e ∉ seen
      · have hUnseen :
            unseenOf querySince seen (e :: rest) =
              e :: unseenOf querySince seen rest := by
          unfold unseenOf
          rw [List.filter_cons, if_pos (by simpa using hTake)]
        have hStill : ∀ x ∈ seen ++ [e], x ∈ history := by
          intro x hx
          rcases List.mem_append.mp hx with hOld | hNew
          · exact hSeen x hOld
          · rw [List.mem_singleton.mp hNew]
            exact hEvents.1
        have hEntries :
            seen.map seenEntry ++ [(e.item.id, e.item.ts)] =
              (seen ++ [e]).map seenEntry := by
          rw [List.map_append]
          rfl
        rw [collect_unseen hTake.1 (by
              intro hOld
              exact hTake.2 (hIn.mp hOld)),
          hEntries, ih hEvents.2 hNodup.2 _ hStill,
          unseenOf_append querySince seen hNodup.1, hUnseen]
        have hTs : e.item.ts = e.ts := rfl
        simp only [hTs, newest, List.foldl_cons,
          List.length_cons, List.countP_cons,
          List.filter_cons, List.append_assoc,
          List.singleton_append, Collected.mk.injEq,
          decide_eq_true_eq, true_and]
        refine ⟨by omega, by omega, ?_⟩
        by_cases hStale : e.ts < floor
        · rw [if_pos hStale, if_neg (not_le.mpr hStale),
            List.nil_append]
        · rw [if_neg hStale, if_pos (not_lt.mp hStale),
            List.map_cons, List.singleton_append]
      · have hUnseen :
            unseenOf querySince seen (e :: rest) =
              unseenOf querySince seen rest := by
          unfold unseenOf
          rw [List.filter_cons, if_neg (by simpa using hTake)]
        have hSkip :
            e.item.ts < querySince ∨
              idIn e.item.id (seen.map seenEntry) = true := by
          rcases lt_or_ge e.ts querySince with hLess | hMore
          · exact .inl hLess
          · exact
              .inr
                (hIn.mpr
                  (not_not.mp fun hNot => hTake ⟨hMore, hNot⟩))
        have hSame :
            ∀ c : Collected, c.seen = seen.map seenEntry →
              collect querySince floor c e.item = c := by
          intro c hc
          unfold collect
          rw [hc, if_pos hSkip]
        rw [hSame _ rfl, ih hEvents.2 hNodup.2 seen hSeen,
          hUnseen]

end

----
-- A Tick Is the Client's
----

section

open Indexer.ActivityFeed FeedClient KeysetPage

def tickSizes
    (o : RulesOptions)
    (_ : Nat) : Nat :=
  limit o.pageLimit

/- The pages that a state goes through. -/
def tickFollows
    (o : RulesOptions)
    (history : List Activity)
    (reads : Nat → Tables)
    (s : State Activity Position) :
    Followed Activity Position :=
  follow Activity.position
    (eventsSince (s.querySince o.lookbackS) history)
    (keysetReads reads (tickSizes o)) (o.maxPages - 1) 0
    s.cursor

def clientTick
    (o : RulesOptions)
    (history : List Activity)
    (floor : Int)
    (reads : Nat → Tables)
    (s : State Activity Position) : Tick Activity Position :=
  let followed := tickFollows o history reads s
  { floor := floor
    read := keysetReads reads (tickSizes o) followed.last
    next := followed.next }

variable {time : Int → Int} {history : List Activity}
variable {reads : Nat → Tables} {o : RulesOptions}
variable {s : State Activity Position}

theorem limit_pos
    (n : Nat) :
    0 < limit n := by
  unfold limit
  split
  · omega
  · decide

/- A later time is that of a later block. -/
theorem Feed.timed
    (h : Feed time history) :
    Timed Activity.position Activity.ts history := by
  intro a ha b hb hLess
  by_contra hNot
  have hBlock := block_le_of_le (not_lt.mp hNot)
  have hTime := h.chain.time_mono hBlock
  rw [h.chain.ts_eq a ha, h.chain.ts_eq b hb] at hLess
  exact absurd hTime (not_le.mpr hLess)

theorem Feed.ts_sorted
    (h : Feed time history) :
    history.Pairwise (fun a b => a.ts ≤ b.ts) := by
  apply h.chain.sorted.imp_of_mem
  intro a b ha hb hLess
  by_contra hMore
  exact
    absurd (h.timed b hb a ha (not_le.mp hMore))
      (lt_asymm hLess)

theorem tickFollows_items
    (hFeed : Feed time history)
    (hReads : PageReads time history reads)
    (floor : Int) :
    (tickFollows o history reads s).items =
      s.fetched Activity.position Activity.ts history
        o.lookbackS (clientTick o history floor reads s) := by
  have hSpec :=
    follow_spec
      (hFeed.chain.eventsSince_sorted
        (s.querySince o.lookbackS))
      (hReads.advancing (fun _ => limit_pos o.pageLimit) _)
      (o.maxPages - 1) 0 s.cursor
  unfold State.fetched
  have hItems := hSpec.2.1
  rw [eventsSince, List.filter_filter] at hItems
  refine hItems.trans ?_
  apply List.filter_congr
  intro e _
  exact Bool.and_comm _ _

/- What the tick reads of the feed is sound. -/
theorem clientTick_sound
    (hFeed : Feed time history)
    (hReads : PageReads time history reads)
    (floor : Int) :
    (clientTick o history floor reads s).Sound
      Activity.position history s.cursor where
  lower := fun _ _ _ _ hab hShows =>
    Tables.shows_lower hab hShows
  issued := by
    have hSpec :=
      follow_spec
        (hFeed.chain.eventsSince_sorted
          (s.querySince o.lookbackS))
        (hReads.advancing (fun _ => limit_pos o.pageLimit) _)
        (o.maxPages - 1) 0 s.cursor
    intro c hc
    rcases hSpec.2.2 c hc with ⟨e, he, hRest⟩
    exact ⟨e, (List.mem_filter.mp he).1, hRest⟩

theorem wireState_read
    (history : List Activity)
    (lookback : Int)
    (s : State Activity Position)
    (tick : Tick Activity Position) :
    let unseen :=
      s.unseen Activity.position Activity.ts history lookback
        tick
    let since := newest Activity.ts s.since unseen
    wireState
        (s.read Activity.position Activity.ts history lookback
          tick) =
      { since := since
        seen :=
          ((s.seen ++ unseen).map seenEntry).filter
            (fun entry =>
              !decide (entry.2 < since - lookback))
        resume :=
          (tick.next.map cursorOf).map
            (fun next =>
              { since := s.querySince lookback
                cursor := next }) } := by
  intro unseen since
  unfold wireState State.read
  rw [Cursor.mk.injEq]
  refine ⟨rfl, ?_, ?_⟩
  · rw [List.filter_map]
    congr 1
    apply List.filter_congr
    intro e _
    rw [Function.comp_apply, ← decide_not, decide_eq_decide]
    exact not_lt.symm
  · rw [Option.map_map, Option.map_map]
    rfl

/-
  From a stored state a tick leaves the client's next one, and
  its fresh items are the client's.
-/
theorem activityTick_eq
    [Collation]
    (hFeed : Feed time history)
    (hReads : PageReads time history reads)
    (hSeen : ∀ e ∈ s.seen, e ∈ history)
    (hResume : Resumable s)
    {now : Int}
    {stored : Option Cursor}
    (hStored :
      (stored.getD
        { since := now - o.maxAgeS
          seen := []
          resume := none }).jump o (now - o.maxAgeS) =
        wireState s) :
    let tick :=
      clientTick o history (now - o.maxAgeS) reads s
    let unseen :=
      s.unseen Activity.position Activity.ts history
        o.lookbackS tick
    activityTick o now reads stored =
      .ok
        { pages :=
            { items :=
                (tickFollows o history reads s).items.map
                  Activity.item
              nextCursor := tick.next.map cursorOf
              last := (tickFollows o history reads s).last }
          cursor :=
            wireState
              (s.read Activity.position Activity.ts history
                o.lookbackS tick)
          items := unseen.length
          stale :=
            unseen.countP
              (fun e => decide (e.ts < now - o.maxAgeS))
          fresh :=
            (s.fresh Activity.position Activity.ts history
              o.lookbackS tick).map Activity.item } := by
  intro tick unseen
  have hCursor : ∀ p, s.cursor = some p → p.InRange := by
    intro p hp
    unfold State.cursor at hp
    rcases Option.map_eq_some_iff.mp hp with
      ⟨⟨query, cursor⟩, hSome, hEq⟩
    cases hEq
    exact (hResume query cursor hSome).2
  have hPages :
      followPages
          (feedPages reads (fun _ => limit o.pageLimit)
            (s.querySince o.lookbackS))
          (o.maxPages - 1) 0 (s.cursor.map cursorOf) =
        .ok
          { items :=
              (tickFollows o history reads s).items.map
                Activity.item
            nextCursor := tick.next.map cursorOf
            last := (tickFollows o history reads s).last } :=
    followPages_eq hFeed.chain hReads
      (fun _ => limit_pos o.pageLimit)
      (s.querySince o.lookbackS) (o.maxPages - 1) 0 hCursor
  have hItems :
      (tickFollows o history reads s).items =
        s.fetched Activity.position Activity.ts history
          o.lookbackS tick :=
    tickFollows_items hFeed hReads (now - o.maxAgeS)
  have hWithin :
      ((tickFollows o history reads s).items).Sublist
        history := by
    rw [hItems]
    exact List.filter_sublist
  -- the chain's order is already that of the times
  have hOrdered :
      ((tickFollows o history reads s).items.map
          Activity.item).insertionSort
            (fun a b => a.ts ≤ b.ts) =
        (tickFollows o history reads s).items.map
          Activity.item := by
    apply List.Pairwise.insertionSort_eq
    rw [List.pairwise_map]
    exact hFeed.ts_sorted.sublist hWithin
  have hUnseen :
      unseenOf (s.querySince o.lookbackS) s.seen
          (tickFollows o history reads s).items =
        unseen := by
    rw [hItems]
    show _ = (s.fetched Activity.position Activity.ts history
      o.lookbackS tick).filter _
    unfold unseenOf
    apply List.filter_congr
    intro e he
    rw [decide_eq_true (mem_fetched_iff.mp he).2.1,
      Bool.true_and]
  have hLoop :=
    hFeed.foldl_collect (s.querySince o.lookbackS)
      (now - o.maxAgeS) (tickFollows o history reads s).items
      (fun e he => hWithin.subset he)
      (hFeed.nodup.sublist hWithin) s.seen hSeen s.since 0 0 []
  rw [hUnseen] at hLoop
  have hStart :
      ({ seen := (wireState s).seen
         since := (wireState s).since
         items := 0
         stale := 0
         fresh := [] } : Collected) =
        { seen := s.seen.map seenEntry
          since := s.since
          items := 0
          stale := 0
          fresh := [] } := rfl
  simp only [activityTick]
  rw [hStored, wireState_querySince, wireState_resume, hPages]
  simp only
  rw [hOrdered, hStart, hLoop, wireState_read]
  simp only [Nat.zero_add, List.nil_append]
  rfl

end

----
-- What the Store Stands For
----

section

open Indexer.ActivityFeed FeedClient KeysetPage

/-
  A stored cursor is a client's state that has passed
  `passed`; without one nothing has been passed.
-/
def Standing
    (o : RulesOptions)
    (history : List Activity)
    (passed : Activity → Bool)
    (floor : Int)
    (stored : Option Cursor) : Prop :=
  match loadCursor stored with
  | none => ∀ e ∈ history, ¬ passed e = true
  | some c =>
      ∃ s, c = wireState s ∧
        Kept Activity.position Activity.ts history
          o.lookbackS (fun e => passed e = true) floor s ∧
        Resumable s

/- The state that a tick starts from. -/
structure StartsAt
    (o : RulesOptions)
    (history : List Activity)
    (passed : Activity → Bool)
    (floor : Int)
    (stored : Option Cursor)
    (s : State Activity Position) : Prop where
  jumped :
    (stored.getD
      { since := floor, seen := [], resume := none }).jump o
        floor = wireState s
  kept :
    Kept Activity.position Activity.ts history o.lookbackS
      (fun e => passed e = true) floor s
  resumable : Resumable s
  begun : 0 ≤ s.since ∨
    s = start floor ∧ ∀ e ∈ history, ¬ passed e = true

variable {time : Int → Int} {history : List Activity}
variable {reads : Nat → Tables} {o : RulesOptions}
variable {passed : Activity → Bool} {floor : Int}
variable {stored : Option Cursor}

theorem standing_none
    (o : RulesOptions)
    (history : List Activity)
    (floor : Int) :
    Standing o history (fun _ => false) floor none :=
  fun _ _ => Bool.false_ne_true

variable {s : State Activity Position}

theorem Resumable.jump
    (h : Resumable s)
    (lookback floor : Int) :
    Resumable (s.jump lookback floor) := by
  unfold State.jump
  split
  · intro query cursor hResume
    exact
      h query cursor (Option.filter_eq_some_iff.mp hResume).1
  · exact h

theorem Standing.startsAt
    (h : Standing o history passed floor stored)
    (hLookback : 0 ≤ o.lookbackS)
    {later : Int}
    (hFloor : floor ≤ later) :
    ∃ s,
      StartsAt o history passed later (loadCursor stored) s := by
  unfold Standing at h
  cases hLoad : loadCursor stored with
  | none =>
      rw [hLoad] at h
      refine
        ⟨start later,
          { jumped := ?_
            kept := kept_start h later
            resumable := fun _ _ hResume => nomatch hResume
            begun := .inr ⟨rfl, h⟩ }⟩
      rw [Option.getD_none]
      unfold Cursor.jump
      rw [if_neg (lt_irrefl later)]
      rfl
  | some c =>
      rw [hLoad] at h
      rcases h with ⟨s, rfl, hKept, hResumable⟩
      have hParses : (wireState s).Parses := by
        unfold loadCursor at hLoad
        exact
          of_decide_eq_true
            (Option.filter_eq_some_iff.mp hLoad).2
      refine
        ⟨s.jump o.lookbackS later,
          { jumped := wireState_jump o later s
            kept := hKept.jump hLookback hFloor
            resumable := hResumable.jump o.lookbackS later
            begun := .inl ?_ }⟩
      have hSince : 0 ≤ s.since := hParses.1
      unfold State.jump
      split
      · next hOld => exact hSince.trans hOld.le
      · exact hSince

/- What the tick persists can be taken up again. -/
theorem resumable_read
    (hFeed : Feed time history)
    (hReads : PageReads time history reads)
    (hResumable : Resumable s)
    (floor : Int) :
    Resumable
      (s.read Activity.position Activity.ts history
        o.lookbackS (clientTick o history floor reads s)) := by
  intro query cursor hResume
  rcases Option.map_eq_some_iff.mp hResume with
    ⟨next, hNext, hPair⟩
  cases hPair
  constructor
  · unfold State.querySince
    cases hFrom : s.resume with
    | none => exact le_max_left _ _
    | some from_ =>
        exact (hResumable from_.1 from_.2 hFrom).1
  · rcases
        (clientTick_sound hFeed hReads floor).issued cursor
          hNext with
      ⟨e, he, _, _, hKey⟩
    rw [← hKey]
    exact hFeed.chain.inRange e he

/- A state after the epoch parses. -/
theorem parses_wireState
    (hFeed : Feed time history)
    (hSince : 0 ≤ s.since)
    (hSeen : ∀ e ∈ s.seen, e ∈ history)
    (hResumable : Resumable s) :
    (wireState s).Parses := by
  refine ⟨hSince, ?_, ?_⟩
  · intro entry hEntry
    rcases List.mem_map.mp hEntry with ⟨e, he, rfl⟩
    exact hFeed.times e (hSeen e he)
  · intro resume hResume
    rcases Option.map_eq_some_iff.mp hResume with
      ⟨from_, hFrom, rfl⟩
    exact (hResumable from_.1 from_.2 hFrom).1

/- A cursor that does not parse stands for nothing passed. -/
theorem standing_wireState
    (hFeed : Feed time history)
    (hKept :
      Kept Activity.position Activity.ts history o.lookbackS
        (fun e => passed e = true) floor s)
    (hResumable : Resumable s)
    (hBegun : 0 ≤ s.since ∨
      ∀ e ∈ history, ¬ passed e = true) :
    Standing o history passed floor (some (wireState s)) := by
  unfold Standing
  cases hLoad : loadCursor (some (wireState s)) with
  | none =>
      rcases hBegun with hSince | hNone
      · have hParses :=
          parses_wireState hFeed hSince hKept.seen_feed
            hResumable
        unfold loadCursor at hLoad
        rw [Option.filter_some,
          if_pos (decide_eq_true hParses)] at hLoad
        cases hLoad
      · exact hNone
  | some c =>
      unfold loadCursor at hLoad
      have hSame := (Option.filter_eq_some_iff.mp hLoad).1
      exact ⟨s, (Option.some.inj hSame).symm, hKept, hResumable⟩

/- The pages have passed what the client's tick reaches. -/
theorem passed_eq_reached
    (o : RulesOptions)
    (history : List Activity)
    (floor : Int)
    (reads : Nat → Tables)
    (s : State Activity Position)
    (items : List ActivityItem)
    (e : Activity) :
    FollowedPages.passed reads
        { items := items
          nextCursor :=
            (clientTick o history floor reads s).next.map
              cursorOf
          last := (tickFollows o history reads s).last } e =
      reached Activity.position
        (clientTick o history floor reads s).read
        (clientTick o history floor reads s).next e := by
  unfold FollowedPages.passed reached
  simp only
  cases (clientTick o history floor reads s).next with
  | none => rfl
  | some next => rfl

/-
  A tick hands on what it is the first to reach, and the
  cursor that it persists stands for all that was reached.
-/
theorem Standing.tick
    [Collation]
    (h : Standing o history passed floor stored)
    (hFeed : Feed time history)
    (hLookback : 0 ≤ o.lookbackS)
    (hReads : PageReads time history reads)
    {now : Int}
    (hFloor : floor ≤ now - o.maxAgeS) :
    ∃ outcome,
      activityTick o now reads (loadCursor stored) =
          .ok outcome ∧
        outcome.fresh =
          (history.filter
            (fun e =>
              (outcome.pages.passed reads e && !passed e) &&
                decide (now - o.maxAgeS ≤ e.ts))).map
                  Activity.item ∧
        Standing o history
          (fun e => passed e || outcome.pages.passed reads e)
          (now - o.maxAgeS) (some outcome.cursor) := by
  rcases h.startsAt hLookback hFloor with ⟨s, hStart⟩
  have hTick :=
    activityTick_eq hFeed hReads hStart.kept.seen_feed
      hStart.resumable hStart.jumped
  let tick :=
    clientTick o history (now - o.maxAgeS) reads s
  have hSound : tick.Sound Activity.position history s.cursor :=
    clientTick_sound hFeed hReads (now - o.maxAgeS)
  have hKept :
      Kept Activity.position Activity.ts history o.lookbackS
        (fun e => passed e = true) tick.floor s :=
    hStart.kept
  refine ⟨_, hTick, ?_, ?_⟩
  · simp only [passed_eq_reached]
    rw [fresh_eq_filter]
    congr 1
    apply List.filter_congr
    intro e he
    have hFresh := mem_fresh_iff hKept hLookback hFeed.times he
    rw [Bool.eq_iff_iff, decide_eq_true_eq, hFresh,
      Bool.and_eq_true, Bool.and_eq_true, decide_eq_true_eq,
      Bool.not_eq_true', Bool.not_eq_true]
    rfl
  · have hRead :=
      hKept.read hFeed.timed hLookback hFeed.times hSound
    have hPassed :
        (fun e =>
            (passed e ||
              reached Activity.position tick.read tick.next
                e) = true) =
          (fun e => passed e = true ∨
            tick.Reaches Activity.position e) := by
      funext e
      rw [Bool.or_eq_true]
      rfl
    simp only [passed_eq_reached]
    apply
      standing_wireState hFeed ?_
        (resumable_read hFeed hReads hStart.resumable
          (now - o.maxAgeS))
    · rcases hStart.begun with hSince | ⟨hFresh, hNone⟩
      · exact .inl (hSince.trans (le_newest _ _ _))
      · by_cases hNeg :
            (s.read Activity.position Activity.ts history
              o.lookbackS tick).since < 0
        · right
          intro e he hReached
          rcases Bool.or_eq_true_iff.mp hReached with
            hBefore | hNow
          · exact hNone e he hBefore
          · rw [hFresh] at hNeg
            exact
              not_reaches_of_since_neg hLookback hFeed.times
                hNeg he hNow
        · exact .inl (not_lt.mp hNeg)
    · rw [hPassed]
      exact hRead

end

----
-- Every Event Once
----

section

open Indexer.ActivityFeed

variable {time : Int → Int} {history : List Activity}
variable {o : RulesOptions}

/- The ticks before one have gone through the event. -/
def reachedBefore
    (before : List SavedTick)
    (e : Activity) : Bool :=
  before.any (fun tick => tick.reaches e)

/-
  No tick fails, and each saved one hands on what it is the
  first to reach and what is not too old, in the chain's order.
-/
theorem runTicks_from
    [Collation]
    (hFeed : Feed time history)
    (hLookback : 0 ≤ o.lookbackS)
    (inputs : List TickInput)
    (hReads :
      ∀ input ∈ inputs, PageReads time history input.reads)
    (hClock : inputs.Pairwise (fun a b => a.now ≤ b.now))
    {passed : Activity → Bool}
    {floor : Int}
    {stored : Option Cursor}
    (hStanding : Standing o history passed floor stored)
    (hFloors :
      ∀ input ∈ inputs, floor ≤ input.now - o.maxAgeS) :
    (runTicks o stored inputs).map SavedTick.input =
        inputs.filter TickInput.saved ∧
      ∀ before tick after,
        runTicks o stored inputs = before ++ tick :: after →
          tick.outcome.fresh =
            (history.filter
              (fun e =>
                (tick.reaches e &&
                    !(passed e || reachedBefore before e)) &&
                  decide (tick.floor o ≤ e.ts))).map
                    Activity.item := by
  induction inputs generalizing passed floor stored with
  | nil =>
      refine ⟨rfl, ?_⟩
      intro before tick after hSplit
      cases before <;> cases hSplit
  | cons input rest ih =>
      rw [List.forall_mem_cons] at hReads hFloors
      rw [List.pairwise_cons] at hClock
      rcases
          hStanding.tick hFeed hLookback hReads.1 hFloors.1 with
        ⟨outcome, hTick, hFresh, hNext⟩
      simp only [runTicks, hTick]
      by_cases hSaved : input.saved = true
      · rw [if_pos hSaved, List.filter_cons, if_pos hSaved]
        have hLater :
            ∀ later ∈ rest,
              input.now - o.maxAgeS ≤ later.now - o.maxAgeS := by
          intro later hIn
          have hNow := hClock.1 later hIn
          omega
        have hRest := ih hReads.2 hClock.2 hNext hLater
        constructor
        · rw [List.map_cons, hRest.1]
        · intro before tick after hSplit
          cases before with
          | nil =>
              rw [List.nil_append, List.cons.injEq] at hSplit
              rw [← hSplit.1]
              simp only [reachedBefore, List.any_nil,
                Bool.or_false]
              exact hFresh
          | cons first before =>
              rw [List.cons_append, List.cons.injEq] at hSplit
              have hSame := hRest.2 before tick after hSplit.2
              rw [← hSplit.1]
              simp only [reachedBefore, List.any_cons,
                ← Bool.or_assoc] at hSame ⊢
              exact hSame
      · rw [if_neg hSaved, List.filter_cons, if_neg hSaved]
        exact ih hReads.2 hClock.2 hStanding hFloors.2

/-
  Of the ticks whose state is saved, exactly the first to reach
  an event hands it on, unless the event is then too old.
-/
structure DeliveredOnce
    [Collation]
    (o : RulesOptions)
    (history : List Activity)
    (inputs : List TickInput) : Prop where
  saved :
    (runTicks o none inputs).map SavedTick.input =
      inputs.filter TickInput.saved
  reached :
    ∀ tick ∈ runTicks o none inputs,
      ∀ item ∈ tick.outcome.fresh,
        ∃ e ∈ history, e.item = item ∧ tick.reaches e = true
  once :
    ∀ before tick after,
      runTicks o none inputs = before ++ tick :: after →
        ∀ e ∈ history, tick.reaches e = true →
          reachedBefore before e = false →
            (∀ other ∈ before ++ after,
                e.item ∉ other.outcome.fresh) ∧
              tick.outcome.fresh.count e.item =
                if e.ts < tick.floor o then 0 else 1

/-
  A reader that follows the cursors from the first page gets
  each event that it passes once and in order, and passes all
  that the last head shows once no cursor is returned.
-/
def PagedOnce
    [Collation]
    (time : Int → Int)
    (history : List Activity) : Prop :=
  ∀ (reads : Nat → Tables) (sizes : Nat → Nat) (since : Int)
    (left : Nat),
    PageReads time history reads → (∀ n, 0 < sizes n) →
      ∃ followed,
        followPages (feedPages reads sizes since) left 0 none =
            .ok followed ∧
          followed.items =
            ((eventsSince since history).filter
              (followed.passed reads)).map Activity.item ∧
          (history.length ≤ left → followed.nextCursor = none)

theorem Feed.item_injOn
    (h : Feed time history)
    {a b : Activity}
    (ha : a ∈ history)
    (hb : b ∈ history)
    (hItem : a.item = b.item) :
    a = b :=
  h.eq_of_id_eq ha hb (congrArg ActivityItem.id hItem)

theorem Feed.mem_map_item_iff
    (h : Feed time history)
    {p : Activity → Bool}
    {e : Activity}
    (he : e ∈ history) :
    e.item ∈ (history.filter p).map Activity.item ↔
      p e = true := by
  rw [List.mem_map]
  constructor
  · rintro ⟨other, hOther, hItem⟩
    rcases List.mem_filter.mp hOther with ⟨hIn, hHolds⟩
    rw [← h.item_injOn hIn he hItem]
    exact hHolds
  · intro hHolds
    exact ⟨e, List.mem_filter.mpr ⟨he, hHolds⟩, rfl⟩

theorem Feed.nodup_map_item
    (h : Feed time history)
    (p : Activity → Bool) :
    ((history.filter p).map Activity.item).Nodup :=
  List.Nodup.map_on
    (fun _ ha _ hb hItem =>
      h.item_injOn (List.mem_filter.mp ha).1
        (List.mem_filter.mp hb).1 hItem)
    (h.nodup.filter p)

end

----
-- Server and Client
----

section

open Indexer.ActivityFeed

variable {time : Int → Int} {history : List Activity}
variable {o : RulesOptions} {inputs : List TickInput}

/- The ticks of a run that starts with nothing stored. -/
theorem runTicks_fresh
    [Collation]
    (hFeed : Feed time history)
    (hLookback : 0 ≤ o.lookbackS)
    (hReads :
      ∀ input ∈ inputs, PageReads time history input.reads)
    (hClock : inputs.Pairwise (fun a b => a.now ≤ b.now)) :
    (runTicks o none inputs).map SavedTick.input =
        inputs.filter TickInput.saved ∧
      ∀ before tick after,
        runTicks o none inputs = before ++ tick :: after →
          tick.outcome.fresh =
            (history.filter
              (fun e =>
                (tick.reaches e && !reachedBefore before e) &&
                  decide (tick.floor o ≤ e.ts))).map
                    Activity.item := by
  have hFloor :
      ∃ floor, ∀ input ∈ inputs,
        floor ≤ input.now - o.maxAgeS := by
    cases inputs with
    | nil => exact ⟨0, fun _ h => absurd h List.not_mem_nil⟩
    | cons first rest =>
        refine ⟨first.now - o.maxAgeS, ?_⟩
        intro input hIn
        rcases List.mem_cons.mp hIn with rfl | hRest
        · exact le_rfl
        · have hNow :=
            (List.pairwise_cons.mp hClock).1 input hRest
          omega
  rcases hFloor with ⟨floor, hFloors⟩
  have hRun :=
    runTicks_from hFeed hLookback inputs hReads hClock
      (standing_none o history floor) hFloors
  simpa only [Bool.false_or] using hRun

theorem deliveredOnce_of_feed
    [Collation]
    (hFeed : Feed time history)
    (hLookback : 0 ≤ o.lookbackS)
    (hReads :
      ∀ input ∈ inputs, PageReads time history input.reads)
    (hClock : inputs.Pairwise (fun a b => a.now ≤ b.now)) :
    DeliveredOnce o history inputs := by
  rcases runTicks_fresh hFeed hLookback hReads hClock with
    ⟨hSaved, hFresh⟩
  have hMem :
      ∀ before tick after,
        runTicks o none inputs = before ++ tick :: after →
          ∀ e ∈ history,
            e.item ∈ tick.outcome.fresh ↔
              (tick.reaches e = true ∧
                  reachedBefore before e = false) ∧
                tick.floor o ≤ e.ts := by
    intro before tick after hSplit e he
    rw [hFresh before tick after hSplit,
      hFeed.mem_map_item_iff he, Bool.and_eq_true,
      Bool.and_eq_true, decide_eq_true_eq, Bool.not_eq_true']
  refine { saved := hSaved, reached := ?_, once := ?_ }
  · intro tick hTick item hItem
    rcases List.append_of_mem hTick with
      ⟨before, after, hSplit⟩
    have hIn := hItem
    rw [hFresh before tick after hSplit] at hIn
    rcases List.mem_map.mp hIn with ⟨e, he, rfl⟩
    have hHistory := (List.mem_filter.mp he).1
    exact
      ⟨e, hHistory, rfl,
        ((hMem before tick after hSplit e hHistory).mp
          hItem).1.1⟩
  · intro before tick after hSplit e he hReaches hFirst
    constructor
    · intro other hOther hIn
      rcases List.mem_append.mp hOther with hEarly | hLate
      · rcases List.append_of_mem hEarly with
          ⟨early, between, rfl⟩
        rw [List.append_assoc, List.cons_append] at hSplit
        have hReached :=
          ((hMem early other _ hSplit e he).mp hIn).1.1
        unfold reachedBefore at hFirst
        rw [List.any_append, List.any_cons, hReached,
          Bool.true_or, Bool.or_true] at hFirst
        cases hFirst
      · rcases List.append_of_mem hLate with
          ⟨between, late, rfl⟩
        rw [← List.cons_append, ← List.append_assoc] at hSplit
        have hNew := ((hMem _ other late hSplit e he).mp hIn).1.2
        unfold reachedBefore at hNew
        rw [List.any_append, List.any_cons, hReaches,
          Bool.true_or, Bool.or_true] at hNew
        cases hNew
    · have hIn := hMem before tick after hSplit e he
      by_cases hOld : e.ts < tick.floor o
      · rw [if_pos hOld, List.count_eq_zero, hIn]
        rintro ⟨_, hYoung⟩
        exact absurd hOld (not_lt.mpr hYoung)
      · rw [if_neg hOld]
        apply List.count_eq_one_of_mem
        · rw [hFresh before tick after hSplit]
          exact hFeed.nodup_map_item _
        · exact hIn.mpr ⟨⟨hReaches, hFirst⟩, not_lt.mp hOld⟩

/-
  The feed gives each event once to a reader of its pages, and
  the ticks of a notifier hand each event on once.
-/
theorem activity_exactly_once
    [Collation]
    (hChain : Chain time history) :
    PagedOnce time history ∧
      ∀ (o : RulesOptions) (inputs : List TickInput),
        Feed time history → 0 ≤ o.lookbackS →
          (∀ input ∈ inputs,
            PageReads time history input.reads) →
          inputs.Pairwise (fun a b => a.now ≤ b.now) →
            DeliveredOnce o history inputs := by
  constructor
  · intro reads sizes since left hReads hSizes
    exact followPages_complete hChain hReads hSizes since left
  · intro o inputs hFeed hLookback hReads hClock
    exact deliveredOnce_of_feed hFeed hLookback hReads hClock

end

----
-- An English Collation
----

section

open Indexer.ActivityFeed

def foldCase
    (text : String) : List Char :=
  text.toList.map Char.toLower

/- Letters by case last, the small one first. -/
def englishCompare
    (a b : String) : Int :=
  if foldCase a < foldCase b then -1
  else if foldCase b < foldCase a then 1
  else if b < a then -1
  else if a < b then 1
  else 0

theorem toLower_of_plain
    {c : Char}
    (h : (c.isDigit || c.isLower || c == '-') = true) :
    c.toLower = c := by
  unfold Char.toLower
  apply dif_neg
  change
    (((c.val ≥ '0'.val && c.val ≤ '9'.val) ||
        (c.val ≥ 'a'.val && c.val ≤ 'z'.val)) ||
      c == '-') = true at h
  simp only [Bool.or_eq_true, Bool.and_eq_true,
    decide_eq_true_eq, beq_iff_eq] at h
  rintro ⟨hLow, hHigh⟩
  rcases h with (h | h) | rfl
  · exact absurd (UInt32.le_trans hLow h.2) (by decide)
  · exact absurd (UInt32.le_trans h.1 hHigh) (by decide)
  · exact absurd hLow (by decide)

theorem foldCase_of_plain
    {text : String}
    (h : isPlain text = true) :
    foldCase text = text.toList := by
  unfold foldCase
  unfold isPlain at h
  rw [List.all_eq_true] at h
  calc text.toList.map Char.toLower
      = text.toList.map id :=
        List.map_congr_left
          (fun c hc => toLower_of_plain (h c hc))
    _ = text.toList := List.map_id _

instance englishLocale : Collation where
  localeCompare := englishCompare
  localeCompare_pos_iff := by
    intro a b ha hb
    have hOrder : ∀ x y : String, x.toList < y.toList ↔ x < y :=
      fun x y => String.lt_iff_toList_lt.symm
    unfold englishCompare
    rw [foldCase_of_plain ha, foldCase_of_plain hb]
    by_cases hLess : a < b
    · rw [if_pos ((hOrder a b).mpr hLess)]
      exact
        ⟨fun hPos => absurd hPos (by decide),
          fun hMore => absurd hMore (lt_asymm hLess)⟩
    · rw [if_neg (mt (hOrder a b).mp hLess)]
      by_cases hMore : b < a
      · rw [if_pos ((hOrder b a).mpr hMore)]
        exact ⟨fun _ => hMore, fun _ => by decide⟩
      · rw [if_neg (mt (hOrder b a).mp hMore),
          if_neg hMore, if_neg hLess]
        exact
          ⟨fun hPos => absurd hPos (by decide),
            fun h => absurd h hMore⟩

end

----
-- Events of One Series
----

section

open Indexer.ActivityFeed

/- What the tables hold but for redemptions and heads. -/
structure Rows where
  fills : List FillRow
  takes : List Indexer.Reconcile.TakenCall
  rolls : List EventRow
  staleCancels : List EventRow

def Rows.tables
    (r : Rows)
    (head : Int) : Tables :=
  { head := some head
    fills := r.fills
    takes := r.takes
    redemptions := []
    rolls := r.rolls
    staleCancels := r.staleCancels
    series :=
      [{ longId := 7
         settledAt := none
         settledBlock := none
         settledLogIndex := none
         settledTx := none
         settlementPrice := none
         longPayoutPerUnit := none
         feePerUnit := none
         shortPayoutPerUnit := none }] }

def Rows.events
    (r : Rows) : List EventRow :=
  r.fills.map FillRow.toEventRow ++ r.rolls ++ r.staleCancels

def Rows.history
    (r : Rows) : List Activity :=
  (r.fills.map FillRow.toEventRow).map
      (EventRow.activity .fill) ++
    r.rolls.map (EventRow.activity .roll) ++
    r.staleCancels.map (EventRow.activity .staleCancel)

def blockTime
    (block : Int) : Int :=
  100 * block

def eventRow
    (id tx : String)
    (block : Int) : EventRow :=
  { id := id
    block := block
    logIndex := 1
    ts := blockTime block
    longId := 7
    tx := tx }

/- Events of the one series at ever later blocks. -/
structure Rows.InTurn
    (r : Rows) : Prop where
  blocks :
    r.events.Pairwise (fun a b => a.block < b.block)
  range : ∀ row ∈ r.events,
    0 ≤ row.block ∧ row.block ≤ 9223372036854775807 ∧
      0 < row.id.length ∧ row.id.length ≤ 256 ∧
      isPlain row.id = true
  rows : ∀ row ∈ r.events,
    row = eventRow row.id row.tx row.block

instance
    (r : Rows) : Decidable r.InTurn :=
  decidable_of_iff
    (r.events.Pairwise (fun a b => a.block < b.block) ∧
      (∀ row ∈ r.events,
        0 ≤ row.block ∧ row.block ≤ 9223372036854775807 ∧
          0 < row.id.length ∧ row.id.length ≤ 256 ∧
          isPlain row.id = true) ∧
      ∀ row ∈ r.events,
        row = eventRow row.id row.tx row.block)
    ⟨fun h => ⟨h.1, h.2.1, h.2.2⟩,
      fun h => ⟨h.blocks, h.range, h.rows⟩⟩

theorem Rows.position_history
    (r : Rows) :
    r.history.map Activity.position =
      r.events.map EventRow.position := by
  unfold Rows.history Rows.events
  simp only [List.map_append, List.map_map]
  rfl

variable {r : Rows}

theorem Rows.exists_of_mem
    {e : Activity}
    (he : e ∈ r.history) :
    ∃ row ∈ r.events, ∃ kind, e = row.activity kind := by
  unfold Rows.history at he
  unfold Rows.events
  simp only [List.mem_append, List.mem_map] at he ⊢
  rcases he with (⟨row, hRow, rfl⟩ | ⟨row, hRow, rfl⟩) |
    ⟨row, hRow, rfl⟩
  · exact ⟨row, .inl (.inl hRow), .fill, rfl⟩
  · exact ⟨row, .inl (.inr hRow), .roll, rfl⟩
  · exact ⟨row, .inr hRow, .staleCancel, rfl⟩

theorem Rows.InTurn.chain
    (h : r.InTurn) :
    Chain blockTime r.history where
  sorted := by
    apply List.pairwise_map.mp
    rw [r.position_history, List.pairwise_map]
    apply h.blocks.imp
    intro a b hLess
    exact (key_lt_iff a.position b.position).mpr (.inl hLess)
  time_mono := by
    intro a b hLe
    unfold blockTime
    omega
  ts_eq := by
    intro e he
    rcases r.exists_of_mem he with ⟨row, hRow, kind, rfl⟩
    rw [h.rows row hRow]
    rfl
  ts_nonneg := by
    intro e he
    rcases r.exists_of_mem he with ⟨row, hRow, kind, rfl⟩
    have hBlock := (h.range row hRow).1
    rw [h.rows row hRow]
    show 0 ≤ 100 * row.block
    omega
  longId_nonneg := by
    intro e he
    rcases r.exists_of_mem he with ⟨row, hRow, kind, rfl⟩
    rw [h.rows row hRow]
    show (0 : Int) ≤ 7
    omega
  inRange := by
    intro e he
    rcases r.exists_of_mem he with ⟨row, hRow, kind, rfl⟩
    have hRange := h.range row hRow
    have hIndex : row.logIndex = 1 := by
      rw [h.rows row hRow]
      rfl
    exact
      { block_nonneg := hRange.1
        block_le := hRange.2.1
        logIndex_nonneg := by
          show 0 ≤ row.logIndex
          omega
        logIndex_le := by
          show row.logIndex ≤ _
          omega
        id_pos := hRange.2.2.1
        id_le := hRange.2.2.2.1
        id_plain := hRange.2.2.2.2 }

/- At a head, the takes close the fills. -/
def Rows.TakenAt
    (r : Rows)
    (head : Int) : Prop :=
  ∃ closings, (r.tables head).Taken (head - 3) closings

theorem Rows.InTurn.pageReads
    (h : r.InTurn)
    {head : Int}
    (hTaken : r.TakenAt head) :
    PageReads blockTime r.history
      (fun _ => r.tables head) where
  serves := fun _ =>
    { agree := by
        intro head' _
        have hEvents : (r.tables head).events = r.history := by
          simp [Tables.events, Tables.fillEvents, Rows.tables,
            Rows.history, settlementOf]
        rw [hEvents]
      series := by
        intro head' _ row hRow _
        have hIn : row ∈ r.events := by
          simpa [Tables.rows, Tables.fillEvents, Rows.tables,
            Rows.events] using hRow
        refine ⟨_, List.mem_singleton_self _, ?_⟩
        rw [h.rows row hIn]
        rfl
      priced := fun _ _ _ hRow =>
        absurd hRow List.not_mem_nil
      taken := by
        intro head' hHead
        cases hHead
        exact hTaken
      settled_ts := by
        intro ref hRef ts block hTs
        rw [List.mem_singleton.mp hRef] at hTs
        cases hTs }
  heads := fun _ _ _ head' hHead => ⟨head', hHead, le_rfl⟩

theorem Rows.takenAt_of_no_fills
    (h : r.fills = [])
    (head : Int) :
    r.TakenAt head := by
  refine ⟨[], ?_⟩
  have hTxs : (r.tables head).fillTxs (head - 3) = [] := by
    unfold Tables.fillTxs Tables.fillEvents
    show (((r.fills.map _).filter _).map _) = []
    rw [h]
    rfl
  have hFills : (r.tables head).fills = [] := h
  constructor
  · rw [hTxs]
    simp
  · rw [hFills]
    constructor <;> simp
  · exact fun c hc => absurd hc List.not_mem_nil

end

----
-- A Run With a Cut
----

section

open Indexer.ActivityFeed

def exampleOptions : RulesOptions :=
  { maxAgeS := 300
    lookbackS := 10
    pageLimit := 1
    maxPages := 1 }

def tickAt
    (now head : Int)
    (r : Rows)
    (saved : Bool) : TickInput :=
  { now := now
    reads := fun _ => r.tables head
    saved := saved }

theorem Rows.InTurn.tickAt_reads
    {r : Rows}
    (h : r.InTurn)
    {inputs : List TickInput}
    (hInputs :
      ∀ input ∈ inputs,
        ∃ now head saved,
          input = tickAt now head r saved ∧ r.TakenAt head) :
    ∀ input ∈ inputs,
      PageReads blockTime r.history input.reads := by
  intro input hIn
  rcases hInputs input hIn with
    ⟨now, head, saved, rfl, hTaken⟩
  exact h.pageReads hTaken

def fillOf
    (row : EventRow) : FillRow :=
  { row with
    taker := "0x22"
    takerIsBuyer := true
    units := 2
    premium := 10 }

/- The call that the fill is all of. -/
def takeOf
    (row : EventRow) : Indexer.Reconcile.TakenCall :=
  { tx := row.tx
    longId := row.longId
    taker := "0x22"
    buying := true
    units := 2
    premium := 10
    takerFee := 1
    logIndex := 2 }

def twoFillRows : List EventRow :=
  [eventRow "0xa-1" "0xa" 5, eventRow "0xb-1" "0xb" 6]

/- Two fills of a call each, and a roll. -/
def twoFills : Rows :=
  { fills := twoFillRows.map fillOf
    takes := twoFillRows.map takeOf
    rolls := [eventRow "0xc-1" "0xc" 7]
    staleCancels := [] }

theorem twoFills_takenAt : twoFills.TakenAt 20 := by
  refine
    ⟨twoFillRows.map
      (fun row =>
        { taken := takeOf row
          run := [(fillOf row).feeFill] }),
      by decide, ?_, by decide⟩
  have hFills :
      ((twoFills.tables 20).fills.filter
          (fun fill =>
            fill.tx ∈
              (twoFills.tables 20).fillTxs (20 - 3))).map
        FillRow.feeFill =
        twoFillRows.map (fun row => (fillOf row).feeFill) := by
    decide
  rw [hFills]
  constructor
  · intro c hc
    rcases List.mem_map.mp hc with ⟨row, hRow, rfl⟩
    have hRows : row.logIndex = 1 := by
      revert row
      decide
    constructor <;>
      simp [takeOf, fillOf, FillRow.feeFill,
        Indexer.Reconcile.onSide, Indexer.Reconcile.same,
        hRows]
  · decide
  · decide
  · decide +kernel
  · decide +kernel

/- A tick that is lost, and three that are cut after a page. -/
def cutRun : List TickInput :=
  [tickAt 700 20 twoFills false, tickAt 700 20 twoFills true,
    tickAt 730 20 twoFills true, tickAt 760 20 twoFills true]

theorem cutRun_exactly_once :
    PagedOnce blockTime twoFills.history ∧
      DeliveredOnce exampleOptions twoFills.history
        cutRun := by
  have hTurn : twoFills.InTurn := by decide
  have hOnce := activity_exactly_once hTurn.chain
  refine ⟨hOnce.1, ?_⟩
  apply hOnce.2 exampleOptions cutRun
  · exact
      { chain := hTurn.chain
        ids := by decide
        names := by decide }
  · decide
  · apply hTurn.tickAt_reads
    intro input hIn
    rcases hIn with
      _ | ⟨_, _ | ⟨_, _ | ⟨_, _ | ⟨_, hNone⟩⟩⟩⟩
    · exact ⟨700, 20, false, rfl, twoFills_takenAt⟩
    · exact ⟨700, 20, true, rfl, twoFills_takenAt⟩
    · exact ⟨730, 20, true, rfl, twoFills_takenAt⟩
    · exact ⟨760, 20, true, rfl, twoFills_takenAt⟩
    · cases hNone
  · decide

end

----
-- Runs That Lose an Event
----

open Indexer.ActivityFeed

/- The first tick to reach an event would take it. -/
def isDue
    (o : RulesOptions)
    (e : Activity) : List SavedTick → Bool
| [] => false
| tick :: rest =>
    if tick.reaches e = true then decide (tick.floor o ≤ e.ts)
    else isDue o e rest

theorem split_of_isDue
    {o : RulesOptions}
    {e : Activity}
    {ticks : List SavedTick}
    (h : isDue o e ticks = true) :
    ∃ before tick after,
      ticks = before ++ tick :: after ∧
        reachedBefore before e = false ∧
        tick.reaches e = true ∧ tick.floor o ≤ e.ts := by
  induction ticks with
  | nil => cases h
  | cons first rest ih =>
      rw [isDue] at h
      by_cases hReaches : first.reaches e = true
      · rw [if_pos hReaches, decide_eq_true_eq] at h
        exact ⟨[], first, rest, rfl, rfl, hReaches, h⟩
      · rw [if_neg hReaches] at h
        rcases ih h with
          ⟨before, tick, after, rfl, hFirst, hRest⟩
        refine ⟨first :: before, tick, after, rfl, ?_, hRest⟩
        unfold reachedBefore at hFirst ⊢
        rw [List.any_cons, hFirst, Bool.or_false]
        exact Bool.eq_false_iff.mpr hReaches

/-
  A feed as its pages need it, and a run that hands an event on
  in no tick, though the first to reach it is young enough.
-/
def LosesAnEvent
    [Collation]
    (r : Rows)
    (inputs : List TickInput) : Prop :=
  Chain blockTime r.history ∧
    (∀ input ∈ inputs,
      PageReads blockTime r.history input.reads) ∧
    ∃ e ∈ r.history,
      (∃ before tick after,
          runTicks exampleOptions none inputs =
              before ++ tick :: after ∧
            reachedBefore before e = false ∧
            tick.reaches e = true ∧
            tick.floor exampleOptions ≤ e.ts) ∧
        ∀ tick ∈ runTicks exampleOptions none inputs,
          e.item ∉ tick.outcome.fresh

def rollsOf
    (rolls : List EventRow) : Rows :=
  { fills := []
    takes := []
    rolls := rolls
    staleCancels := [] }

theorem Rows.InTurn.tickAt_reads_of_no_fills
    {r : Rows}
    (h : r.InTurn)
    (hFills : r.fills = [])
    {inputs : List TickInput}
    (hInputs :
      ∀ input ∈ inputs,
        ∃ now head saved, input = tickAt now head r saved) :
    ∀ input ∈ inputs,
      PageReads blockTime r.history input.reads := by
  apply h.tickAt_reads
  intro input hIn
  rcases hInputs input hIn with ⟨now, head, saved, hTick⟩
  exact
    ⟨now, head, saved, hTick, r.takenAt_of_no_fills hFills head⟩

def twoOfOneId : Rows :=
  { rollsOf [eventRow "0xa-1" "0xa" 5] with
    staleCancels := [eventRow "0xa-1" "0xb" 6] }

def namedRoll : Rows :=
  rollsOf [eventRow "constructor" "0xa" 6]

def lateRoll : Rows :=
  rollsOf [eventRow "0xa-1" "0xa" 6]

/- A redemption whose series row has no price yet. -/
def unpricedRedemption : Tables :=
  { (rollsOf []).tables 20 with
    redemptions := [eventRow "0xa-1" "0xa" 5] }

/- A fill whose transaction has no take. -/
def untakenFill : Tables :=
  { (rollsOf []).tables 20 with
    fills := [fillOf (eventRow "0xa-1" "0xa" 5)] }

def unnamedRoll : Rows :=
  rollsOf [eventRow "" "0xa" 5]

/- The database has the capital first, the locale last. -/
def capitalRoll : Rows :=
  rollsOf [eventRow "B-1" "0xa" 5, eventRow "a-1" "0xa" 5]

/-
  Two events with one id, an id that names a property of every
  object, a clock that goes back, a redemption without a price,
  a fill without a take, an id that the response schema refuses
  and one that the locale orders otherwise than the database.
-/
theorem activity_lost :
    LosesAnEvent twoOfOneId
        [tickAt 700 20 twoOfOneId true,
          tickAt 700 20 twoOfOneId true] ∧
      LosesAnEvent namedRoll [tickAt 700 20 namedRoll true] ∧
      LosesAnEvent lateRoll
        [tickAt 1000 3 lateRoll true,
          tickAt 800 20 lateRoll true] ∧
      feedActivity unpricedRedemption (some 0) none 50 =
        .error "Redeemed series 7 has no settlement price" ∧
      feedActivity untakenFill (some 0) none 50 =
        .error "OrderFilled without matching Taken" ∧
      feedActivity (unnamedRoll.tables 20) (some 0) none 50 =
        .error "The indexer returned an invalid v2 response." ∧
      followPages
          (feedPages (fun _ => capitalRoll.tables 20)
            (fun _ => 1) 0)
          1 0 none =
        .ok
          { items :=
              [((eventRow "a-1" "0xa" 5).activity .roll).item]
            nextCursor := none
            last := 1 } := by
  refine
    ⟨?_, ?_, ?_, by decide +kernel, by decide +kernel,
      by decide +kernel, by decide +kernel⟩
  · have hTurn : twoOfOneId.InTurn := by decide
    refine
      ⟨hTurn.chain, hTurn.tickAt_reads_of_no_fills rfl ?_,
        (eventRow "0xa-1" "0xb" 6).activity .staleCancel,
        by decide, split_of_isDue (by decide +kernel),
        by decide +kernel⟩
    intro input hIn
    rcases hIn with _ | ⟨_, _ | ⟨_, hNone⟩⟩
    · exact ⟨700, 20, true, rfl⟩
    · exact ⟨700, 20, true, rfl⟩
    · cases hNone
  · have hTurn : namedRoll.InTurn := by decide
    refine
      ⟨hTurn.chain, hTurn.tickAt_reads_of_no_fills rfl ?_,
        (eventRow "constructor" "0xa" 6).activity .roll,
        by decide, split_of_isDue (by decide +kernel),
        by decide +kernel⟩
    intro input hIn
    rw [List.mem_singleton.mp hIn]
    exact ⟨700, 20, true, rfl⟩
  · have hTurn : lateRoll.InTurn := by decide
    refine
      ⟨hTurn.chain, hTurn.tickAt_reads_of_no_fills rfl ?_,
        (eventRow "0xa-1" "0xa" 6).activity .roll,
        by decide, split_of_isDue (by decide +kernel),
        by decide +kernel⟩
    intro input hIn
    rcases hIn with _ | ⟨_, _ | ⟨_, hNone⟩⟩
    · exact ⟨1000, 3, true, rfl⟩
    · exact ⟨800, 20, true, rfl⟩
    · cases hNone

end Callhouse.Notifier
