import Callhouse.Indexer.LiveWalk
import Callhouse.Web.BookFromChain

/-
  The book the app builds from the chain against the book the
  indexer serves of the same block: same orders, balances,
  gates and time.

  Main declarations:
    * `LevelView`, `groupViews`
    * `levels_views`, `served_view`
    * `fallback_agrees_iff`
-/

----
-- What a Book Shows
----

namespace Callhouse.Agreement

/- The units of one order, at its price. -/
structure Shown where
  price : Int
  orderId : Int
  units : Int
deriving DecidableEq

/- A price, the units at it and what each order adds. -/
structure LevelView where
  price : Int
  units : Int
  orders : List (Int × Int)
deriving DecidableEq

structure BookView where
  bids : List LevelView
  asks : List LevelView
deriving DecidableEq

def LevelView.shown
    (view : LevelView) : List Shown :=
  view.orders.map
    (fun o =>
      { price := view.price
        orderId := o.1
        units := o.2 })

def Shown.level
    (s : Shown) : LevelView :=
  { price := s.price
    units := s.units
    orders := [(s.orderId, s.units)] }

def LevelView.push
    (view : LevelView)
    (s : Shown) : LevelView :=
  { view with
    units := view.units + s.units
    orders := view.orders ++ [(s.orderId, s.units)] }

/- One more order: in the last level, or after it. -/
def pushView
    (out : List LevelView)
    (s : Shown) : List LevelView :=
  match out.getLast? with
  | none => [s.level]
  | some last =>
      if last.price = s.price then
        out.dropLast ++ [last.push s]
      else out ++ [s.level]

def groupViews
    (shown : List Shown) : List LevelView :=
  shown.foldl pushView []

theorem pushView_concat
    (front : List LevelView)
    (last : LevelView)
    (s : Shown) :
    pushView (front ++ [last]) s =
      if last.price = s.price then front ++ [last.push s]
      else front ++ [last] ++ [s.level] := by
  simp [pushView]

theorem pushView_shown
    (out : List LevelView)
    (s : Shown) :
    (pushView out s).flatMap LevelView.shown =
      out.flatMap LevelView.shown ++ [s] := by
  rcases List.eq_nil_or_concat' out with
    rfl | ⟨front, last, rfl⟩
  · rfl
  · rw [pushView_concat]
    split
    · next hPrice =>
        simp [LevelView.push, LevelView.shown, hPrice]
    · simp [Shown.level, LevelView.shown]

/- Nothing is lost in the levels: they are read back. -/
theorem groupViews_shown
    (shown : List Shown) :
    (groupViews shown).flatMap LevelView.shown = shown := by
  have hFold :
      ∀ (shown : List Shown) (out : List LevelView),
        (shown.foldl pushView out).flatMap LevelView.shown =
          out.flatMap LevelView.shown ++ shown := by
    intro shown
    induction shown with
    | nil => simp
    | cons s rest ih =>
        intro out
        rw [List.foldl_cons, ih, pushView_shown,
          List.append_assoc]
        rfl
  exact (hFold shown []).trans (List.nil_append _)

theorem groupViews_inj
    {shown shown' : List Shown} :
    groupViews shown = groupViews shown' ↔
      shown = shown' := by
  constructor
  · intro hSame
    rw [← groupViews_shown shown, hSame, groupViews_shown]
  · exact congrArg groupViews

----
-- The Served Levels
----

section

open Indexer

def servedShown
    (o : FillableOrder) : Shown :=
  { price := o.price
    orderId := o.orderId
    units := o.units }

def servedLevel
    (l : Indexer.BookLevel) : LevelView :=
  { price := l.price
    units := l.units
    orders := l.orders.map (fun o => (o.orderId, o.units)) }

def servedView
    (book : AggregatedBook) : BookView :=
  { bids := book.bids.map servedLevel
    asks := book.asks.map servedLevel }

theorem pushOrder_view
    (out : List Indexer.BookLevel)
    (o : FillableOrder) :
    (pushOrder out o).map servedLevel =
      pushView (out.map servedLevel) (servedShown o) := by
  rcases List.eq_nil_or_concat' out with
    rfl | ⟨front, last, rfl⟩
  · rfl
  · have hPrice :
        (servedLevel last).price = last.price := rfl
    have hShown : (servedShown o).price = o.price := rfl
    rw [List.map_append, List.map_singleton,
      pushView_concat, hPrice, hShown]
    unfold pushOrder
    simp only [List.getLast?_append, List.getLast?_singleton,
      Option.some_or, List.dropLast_concat]
    split
    · simp [servedLevel, LevelView.push, servedShown]
    · simp [servedLevel, Shown.level, servedShown]

/- The levels of a side, read as views. -/
theorem levels_views
    (descending : Bool)
    (orders : List FillableOrder) :
    (levels descending orders).map servedLevel =
      groupViews
        ((sortOrders descending orders).map servedShown) := by
  have hFold :
      ∀ (orders : List FillableOrder)
        (out : List Indexer.BookLevel),
        (orders.foldl pushOrder out).map servedLevel =
          (orders.map servedShown).foldl pushView
            (out.map servedLevel) := by
    intro orders
    induction orders with
    | nil => exact fun out => rfl
    | cons o rest ih =>
        intro out
        rw [List.foldl_cons, ih, pushOrder_view]
        rfl
  exact hFold (sortOrders descending orders) []

end

----
-- The App's Levels
----

section

open Indexer Web

def chainLevel
    (l : Web.Level) : LevelView :=
  { price := l.price.raw
    units := l.units
    orders := l.orders.map (fun o => (o.orderId, o.units)) }

def chainView
    (response : BookResponse) : BookView :=
  { bids := response.bids.map chainLevel
    asks := response.asks.map chainLevel }

def chainShown
    (p : Int × LevelOrder) : Shown :=
  { price := p.1
    orderId := p.2.orderId
    units := p.2.units }

/- The levels of the map are the views, each at its own key. -/
structure Groups
    (side : OrderedMap Int Level)
    (out : List LevelView) : Prop where
  views : side.values.map chainLevel = out
  keys : side.entries.map Prod.fst =
    out.map (fun v => v.price)

theorem upsert_of_not_mem
    {entries : List (Int × Level)}
    {k : Int}
    (h : k ∉ entries.map Prod.fst)
    (v : Level)
    (rest : List (Int × Level)) :
    OrderedMap.upsert k v (entries ++ rest) =
      entries ++ OrderedMap.upsert k v rest := by
  induction entries with
  | nil => rfl
  | cons e more ih =>
      rw [List.map_cons, List.mem_cons, not_or] at h
      rw [List.cons_append, OrderedMap.upsert,
        if_neg (Ne.symm h.1), ih h.2]
      rfl

variable {side : OrderedMap Int Level}

theorem get?_of_not_mem
    {k : Int}
    (h : k ∉ side.entries.map Prod.fst) :
    side.get? k = none := by
  unfold OrderedMap.get?
  rw [Option.map_eq_none_iff, List.find?_eq_none]
  intro e he hKey
  exact h (List.mem_map.mpr ⟨e, he, by simpa using hKey⟩)

variable {out : List LevelView} {p : Int × LevelOrder}

/- At a price that has no level yet: one more, at the end. -/
theorem Groups.push_new
    (h : Groups side out)
    (hNew : p.1 ∉ out.map (fun v => v.price)) :
    Groups (pushLevel side p.1 p.2)
      (out ++ [(chainShown p).level]) := by
  rw [← h.keys] at hNew
  have hEntries :
      (pushLevel side p.1 p.2).entries =
        side.entries ++
          [(p.1,
            { price := { raw := p.1, decimals := 6 }
              units := 0 + p.2.units
              orders := [] ++ [p.2] })] := by
    unfold pushLevel
    rw [get?_of_not_mem hNew]
    have hUpsert := upsert_of_not_mem hNew
    simpa [OrderedMap.set, OrderedMap.upsert] using
      hUpsert _ []
  constructor
  · unfold OrderedMap.values
    rw [hEntries, List.map_append, List.map_append]
    have hViews := h.views
    unfold OrderedMap.values at hViews
    rw [hViews]
    simp [chainLevel, chainShown, Shown.level]
  · rw [hEntries, List.map_append, List.map_append, h.keys]
    rfl

/- At the price of the last level: one more order in it. -/
theorem Groups.push_last
    {front : List LevelView}
    {last : LevelView}
    (h : Groups side (front ++ [last]))
    (hPrice : last.price = p.1) :
    Groups (pushLevel side p.1 p.2)
      (front ++ [last.push (chainShown p)]) := by
  have hViews := h.views
  have hKeys := h.keys
  have hNodup := side.nodup
  unfold OrderedMap.values at hViews
  rcases List.eq_nil_or_concat' side.entries with
    hNil | ⟨entries, e, hConcat⟩
  · rw [hNil] at hViews
    simp at hViews
  · rw [hConcat] at hViews hKeys hNodup
    rw [List.map_append, List.map_append] at hViews
    rw [List.map_append, List.map_append] at hKeys
    rw [List.map_append, List.nodup_append] at hNodup
    rcases List.append_inj' hViews rfl with ⟨hFront, hLast⟩
    rcases List.append_inj' hKeys rfl with ⟨hPrices, hKey⟩
    have hEnd : chainLevel e.2 = last := by
      simpa using hLast
    have hSame : e.1 = p.1 := by
      rw [← hPrice]
      simpa using hKey
    have hNew : p.1 ∉ entries.map Prod.fst := by
      intro hIn
      exact hNodup.2.2 _ hIn e.1 (by simp) hSame.symm
    have hGet : side.get? p.1 = some e.2 := by
      unfold OrderedMap.get?
      rw [hConcat, List.find?_append]
      have hNone : entries.find? (fun e => e.1 = p.1) = none := by
        rw [List.find?_eq_none]
        intro x hx hKey
        exact hNew
          (List.mem_map.mpr ⟨x, hx, by simpa using hKey⟩)
      rw [hNone]
      simp [hSame]
    have hEntries :
        (pushLevel side p.1 p.2).entries =
          entries ++
            [(p.1,
              { e.2 with
                units := e.2.units + p.2.units
                orders := e.2.orders ++ [p.2] })] := by
      have hSet :
          ∀ v, (side.set p.1 v).entries =
            OrderedMap.upsert p.1 v side.entries :=
        fun v => rfl
      unfold pushLevel
      rw [hGet, hSet, hConcat]
      simp only [Option.getD_some]
      rw [upsert_of_not_mem hNew]
      simp [OrderedMap.upsert, hSame]
    constructor
    · unfold OrderedMap.values
      rw [hEntries, List.map_append, List.map_append, hFront,
        ← hEnd]
      simp [chainLevel, chainShown, LevelView.push]
    · rw [hEntries, List.map_append, List.map_append,
        hPrices, ← hPrice]
      rfl

variable {descending : Bool}

/- An order that no level stands behind: the last, or a new. -/
theorem Groups.push
    (h : Groups side out)
    (hStrict :
      (out.map (fun v => v.price)).Pairwise
        (Ahead descending))
    (hBehind :
      ∀ v ∈ out, ¬ Ahead descending p.1 v.price) :
    Groups (pushLevel side p.1 p.2)
      (pushView out (chainShown p)) := by
  rcases List.eq_nil_or_concat' out with
    rfl | ⟨front, last, rfl⟩
  · exact h.push_new (by simp)
  · rw [pushView_concat]
    split
    · next hPrice => exact h.push_last hPrice
    · next hPrice =>
        apply h.push_new
        rw [List.map_append, List.map_singleton] at hStrict ⊢
        have hLast : Ahead descending last.price p.1 :=
          ahead_of_not_ahead (hBehind last (by simp)) hPrice
        intro hIn
        rcases List.mem_append.mp hIn with hFront | hEnd
        · have hAhead :=
            ((List.pairwise_append.mp hStrict).2.2 _ hFront
              last.price (by simp)).trans hLast
          unfold Ahead at hAhead
          split at hAhead <;> omega
        · exact hPrice (List.mem_singleton.mp hEnd).symm

theorem mem_pushView
    {s : Shown}
    {v : LevelView}
    (h : v ∈ pushView out s) :
    v.price = s.price ∨ ∃ w ∈ out, v.price = w.price := by
  rcases List.eq_nil_or_concat' out with
    rfl | ⟨front, last, rfl⟩
  · rw [List.mem_singleton.mp h]
    exact .inl rfl
  · rw [pushView_concat] at h
    split at h
    · next hPrice =>
        rcases List.mem_append.mp h with hFront | hEnd
        · exact .inr ⟨v, List.mem_append_left _ hFront, rfl⟩
        · rw [List.mem_singleton.mp hEnd]
          exact .inl hPrice
    · rcases List.mem_append.mp h with hOld | hEnd
      · exact .inr ⟨v, hOld, rfl⟩
      · rw [List.mem_singleton.mp hEnd]
        exact .inl rfl

theorem pushView_strict
    (h :
      (out.map (fun v => v.price)).Pairwise
        (Ahead descending))
    {s : Shown}
    (hBehind :
      ∀ v ∈ out, ¬ Ahead descending s.price v.price) :
    ((pushView out s).map (fun v => v.price)).Pairwise
      (Ahead descending) := by
  rcases List.eq_nil_or_concat' out with
    rfl | ⟨front, last, rfl⟩
  · exact List.pairwise_singleton _ _
  · rw [pushView_concat]
    split
    · rw [List.map_append] at h ⊢
      exact h
    · next hPrice =>
        have hLast : Ahead descending last.price s.price :=
          ahead_of_not_ahead (hBehind last (by simp)) hPrice
        rw [List.map_append, List.pairwise_append]
        refine ⟨h, List.pairwise_singleton _ _, ?_⟩
        intro a ha b hb
        rw [List.mem_singleton.mp hb]
        rw [List.map_append] at h ha
        rcases List.mem_append.mp ha with hFront | hEnd
        · exact
            ((List.pairwise_append.mp h).2.2 a hFront
              last.price (by simp)).trans hLast
        · rw [List.mem_singleton.mp hEnd]
          exact hLast

/- Orders that come best price first end up in their levels. -/
theorem pushLevels_groups
    {ps : List (Int × LevelOrder)}
    (hSorted :
      ps.Pairwise (fun a b => ¬ Ahead descending b.1 a.1))
    (h : Groups side out)
    (hStrict :
      (out.map (fun v => v.price)).Pairwise
        (Ahead descending))
    (hBehind :
      ∀ v ∈ out, ∀ p ∈ ps,
        ¬ Ahead descending p.1 v.price) :
    Groups (pushLevels side ps)
        ((ps.map chainShown).foldl pushView out) ∧
      (((ps.map chainShown).foldl pushView out).map
        (fun v => v.price)).Pairwise (Ahead descending) := by
  induction ps generalizing side out with
  | nil => exact ⟨h, hStrict⟩
  | cons p rest ih =>
      rw [List.pairwise_cons] at hSorted
      have hFirst : ∀ v ∈ out, ¬ Ahead descending p.1 v.price :=
        fun v hv => hBehind v hv p (List.mem_cons_self ..)
      rw [List.map_cons, List.foldl_cons]
      apply ih hSorted.2 (h.push hStrict hFirst)
        (pushView_strict hStrict hFirst)
      intro v hv q hq
      rcases mem_pushView hv with hPrice | ⟨w, hw, hPrice⟩
      · rw [hPrice]
        exact hSorted.1 q hq
      · rw [hPrice]
        exact hBehind w hw q (List.mem_cons_of_mem p hq)

/- The last sort finds the levels already in order. -/
theorem sort_values
    {ps : List (Int × LevelOrder)}
    (hSorted :
      ps.Pairwise (fun a b => ¬ Ahead descending b.1 a.1))
    (r : Level → Level → Prop)
    [DecidableRel r]
    (hr :
      ∀ a b, r a b ↔
        Ahead descending a.price.raw b.price.raw) :
    ((pushLevels OrderedMap.empty ps).values.insertionSort
        r).map chainLevel =
      groupViews (ps.map chainShown) := by
  have hEmpty : Groups OrderedMap.empty [] :=
    { views := rfl, keys := rfl }
  rcases pushLevels_groups hSorted hEmpty List.Pairwise.nil
      (by simp) with ⟨hGroups, hStrict⟩
  have hValues :
      (pushLevels OrderedMap.empty ps).values.Pairwise r := by
    rw [← hGroups.views, List.map_map,
      List.pairwise_map] at hStrict
    exact hStrict.imp (fun hab => (hr _ _).mpr hab)
  rw [hValues.insertionSort_eq]
  exact hGroups.views

end

----
-- One Block, Read Twice
----

section

open Indexer Web

def rawKind : BookKind → Int
  | .Bid => 0
  | .AskResale => 1
  | .AskWrite => 2

/- An open order of the index, as the contract returns it. -/
def rawOrder
    (order : BookOrder) : RawBookOrder :=
  { orderId := order.orderId
    maker := order.maker
    longId := order.longId
    kind := rawKind order.kind
    price := order.price
    units := order.units
    filled := order.filled
    validUntil := order.validUntil
    cancelled := false }

/- The reads of the block that the served book describes. -/
def chainReads
    (input : BookInput)
    (cpu : Int)
    (operators : List String)
    (block : Int) : ChainReads :=
  { orders := input.orders.map rawOrder
    freeByMaker := input.freeByMaker
    collateralPerUnit := cpu
    longId := input.series.longId
    now := input.now
    updatedBlock := block
    mintCutoff := some input.series.mintCutoff
    mintFeePpm := input.series.mintFeePpm
    expiry := some input.series.expiry
    collateralDecimals := if input.series.isPut then 6 else 18
    gates :=
      some
        { tradingPaused :=
            decide (input.tradingPaused = some true)
          mintOpen :=
            decide (input.marketEnabled ≠ some false) &&
              decide (input.mintPaused ≠ some true) &&
              decide (input.bookIsMinter ≠ some false)
          operators := operators } }

def BookInput.liveBid
    (input : BookInput)
    (order : BookOrder) : Bool :=
  decide (order.kind = .Bid) && input.live order

/-
  Open orders whose ids grow with their placement, at most 200
  live on a side, in one block of a series that has not
  changed status before its expiry.
-/
structure Pinned
    (input : BookInput)
    (cpu : Int)
    (operators : List String) : Prop where
  onchain : input.Onchain cpu
  status :
    input.series.status = .open ∨
      input.series.status = .cutoff ∨
      input.series.expiry ≤ input.now
  snapshot : input.snapshot = input.now
  operators_eq : input.operators = some operators
  opened : ∀ o ∈ input.orders, o.status = .open
  valid :
    ∀ o ∈ input.orders,
      0 < o.validUntil ∧ o.validUntil ≤ input.series.expiry
  placed :
    ∀ a ∈ input.orders, ∀ b ∈ input.orders,
      a.orderId < b.orderId →
        a.placedBlock < b.placedBlock ∨
          (a.placedBlock = b.placedBlock ∧
            a.placedAt ≤ b.placedAt)
  bids :
    (input.orders.filter (BookInput.liveBid input)).length ≤
      bookOrdersPerSide
  asks :
    (input.orders.filter input.asks).length ≤
      bookOrdersPerSide
  now_nonneg : 0 ≤ input.now
  now_safe : isSafeInteger input.now = true
  expiry_safe : isSafeInteger input.series.expiry = true

variable {input : BookInput} {cpu : Int} {operators : List String}

theorem Pinned.liveAt_eq
    (h : Pinned input cpu operators) :
    input.liveAt = input.now := by
  unfold BookInput.liveAt
  rw [h.snapshot]
  split <;> rfl

variable {o : BookOrder}

section

variable (h : Pinned input cpu operators)
include h

theorem Pinned.before_deadline
    (ho : o ∈ input.orders) :
    input.now < input.deadline o ↔
      input.now < o.validUntil ∧
        (o.kind = .AskWrite →
          input.now < input.series.mintCutoff) := by
  rcases h.valid o ho with ⟨hPos, hLe⟩
  unfold BookInput.deadline
  by_cases hKind : o.kind = .AskWrite
  · simp only [hKind, if_true, forall_const]
    split <;> omega
  · simp only [hKind, if_false, false_implies, and_true]
    split <;> omega

/- Both sides keep the same bids. -/
theorem Pinned.live_bid
    (block : Int)
    (ho : o ∈ input.orders) :
    ((chainReads input cpu operators block).live
        (rawOrder o) &&
      decide ((rawOrder o).kind = 0)) =
      BookInput.liveBid input o := by
  have hOpened := h.opened o ho
  have hDeadline := h.before_deadline ho
  have hLiveAt := h.liveAt_eq
  unfold BookInput.liveBid BookInput.live ChainReads.live
  rw [hLiveAt, hOpened]
  cases hKind : o.kind with
  | Bid =>
      rw [hKind] at hDeadline
      simp only [reduceCtorEq, false_implies, and_true]
        at hDeadline
      simp only [chainReads, rawOrder, rawKind, hKind,
        hDeadline]
      rw [Bool.eq_iff_iff]
      simp
      omega
  | AskResale =>
      simp [rawOrder, rawKind, hKind]
  | AskWrite =>
      simp [rawOrder, rawKind, hKind]

/- And the same asks. -/
theorem Pinned.live_ask
    (block : Int)
    (ho : o ∈ input.orders) :
    ((chainReads input cpu operators block).live
        (rawOrder o) &&
      decide ((rawOrder o).kind ≠ 0)) =
      input.asks o := by
  have hOpened := h.opened o ho
  have hDeadline := h.before_deadline ho
  have hLiveAt := h.liveAt_eq
  have hOperators := h.operators_eq
  unfold BookInput.asks BookInput.writes BookInput.mintOpen
    BookInput.live ChainReads.live
  rw [hLiveAt, hOpened, hOperators]
  cases hKind : o.kind with
  | Bid =>
      simp [rawOrder, rawKind, hKind]
  | AskResale =>
      rw [hKind] at hDeadline
      simp only [reduceCtorEq, false_implies, and_true]
        at hDeadline
      simp only [chainReads, rawOrder, rawKind, hKind,
        hDeadline]
      rw [Bool.eq_iff_iff]
      simp
      omega
  | AskWrite =>
      rw [hKind] at hDeadline
      simp only [forall_const] at hDeadline
      simp only [chainReads, rawOrder, rawKind, hKind,
        hDeadline, ChainReads.beforeCutoff,
        ChainReads.mintable, makerKey]
      rw [Bool.eq_iff_iff]
      simp
      grind

end

end

----
-- The Sides
----

section

open Indexer Web

variable {input : BookInput} {cpu : Int} {operators : List String}

/- The kept orders of the index, best first. -/
def sortedOrders
    (input : BookInput)
    (descending : Bool)
    (keep : BookOrder → Bool) : List BookOrder :=
  (input.orders.filter keep).insertionSort
    (fun a b =>
      compare (input.plain a) (input.plain b) descending ≤ 0)

theorem sortedOrders_plain
    (descending : Bool)
    (keep : BookOrder → Bool) :
    (sortedOrders input descending keep).map input.plain =
      sortOrders descending
        ((input.orders.filter keep).map input.plain) :=
  List.map_insertionSort _ _ _ _ (fun _ _ _ _ => Iff.rfl)

theorem mem_sortedOrders
    {descending : Bool}
    {keep : BookOrder → Bool}
    {o : BookOrder}
    (h : o ∈ sortedOrders input descending keep) :
    o ∈ input.orders ∧ keep o = true :=
  List.mem_filter.mp
    ((List.perm_insertionSort _ _).subset h)

section

variable (h : Pinned input cpu operators)
include h

/- Ids that grow with placement stand for block and time. -/
theorem Pinned.compare_iff
    (descending : Bool)
    {a b : BookOrder}
    (ha : a ∈ input.orders)
    (hb : b ∈ input.orders) :
    compare (input.plain a) (input.plain b) descending ≤ 0 ↔
      priority (rawOrder a) (rawOrder b) descending ≤ 0 := by
  have hPlace : ∀ x ∈ input.orders, ∀ y ∈ input.orders,
      x.orderId ≤ y.orderId →
        x.placedBlock < y.placedBlock ∨
          (x.placedBlock = y.placedBlock ∧
            x.placedAt ≤ y.placedAt) := by
    intro x hx y hy hLe
    rcases hLe.lt_or_eq with hLt | hEq
    · exact h.placed x hx y hy hLt
    · have hSame :=
        List.inj_on_of_nodup_map h.onchain.ids hx hy hEq
      rw [hSame]
      exact .inr ⟨rfl, le_refl _⟩
  have hAB := hPlace a ha b hb
  have hBA := hPlace b hb a ha
  rw [compare_le_zero_iff]
  unfold Precedes priority
  simp only [BookInput.plain, BookInput.fillable, rawOrder]
  cases descending with
  | true =>
      simp only [if_true]
      split_ifs <;> omega
  | false =>
      simp only [Bool.false_eq_true, if_false]
      split_ifs <;> omega

theorem Pinned.sortedOrders_raw
    (descending : Bool)
    (keep : BookOrder → Bool) :
    (sortedOrders input descending keep).map rawOrder =
      ((input.orders.filter keep).map
        rawOrder).insertionSort
        (fun a b => priority a b descending ≤ 0) := by
  apply List.map_insertionSort
  intro a ha b hb
  exact
    h.compare_iff descending (List.mem_of_mem_filter ha)
      (List.mem_of_mem_filter hb)

/- One side of the reads is the kept orders, best first. -/
theorem Pinned.side_eq
    (block : Int)
    (descending : Bool)
    {ofSide : RawBookOrder → Bool}
    {keep : BookOrder → Bool}
    (hKeep :
      ∀ o ∈ input.orders,
        ((chainReads input cpu operators block).live
            (rawOrder o) &&
          ofSide (rawOrder o)) = keep o)
    (hFew :
      (input.orders.filter keep).length ≤
        bookOrdersPerSide) :
    (chainReads input cpu operators block).side descending
        ofSide =
      (sortedOrders input descending keep).map rawOrder := by
  have hFilter :
      ((chainReads input cpu operators block).orders.filter
          (chainReads input cpu operators block).live).filter
          ofSide =
        (input.orders.filter keep).map rawOrder := by
    show
      ((input.orders.map rawOrder).filter _).filter ofSide =
        _
    rw [List.filter_filter, List.filter_map]
    congr 1
    apply List.filter_congr
    intro o ho
    rw [← hKeep o ho]
    exact Bool.and_comm _ _
  unfold ChainReads.side
  rw [hFilter, ← h.sortedOrders_raw]
  apply List.take_of_length_le
  rw [List.length_map, sortedOrders,
    (List.perm_insertionSort _ _).length_eq]
  exact hFew

end

/- The kept orders stand in their levels, best price first. -/
theorem sortedOrders_not_ahead
    (descending : Bool)
    (keep : BookOrder → Bool) :
    (sortedOrders input descending keep).Pairwise
      (fun a b => ¬ Ahead descending b.price a.price) := by
  have hSorted :=
    sortOrders_sorted descending
      ((input.orders.filter keep).map input.plain)
  rw [← sortedOrders_plain, List.pairwise_map] at hSorted
  exact
    hSorted.imp
      (fun hab => (compare_le_zero_iff.mp hab).not_ahead)

end

----
-- The Units Shown
----

section

open Indexer Web BudgetWalk

variable {input : BookInput} {cpu : Int} {operators : List String}

/- The balances that both books start from. -/
def balances
    (input : BookInput) : String → Int :=
  fun k => input.freeByMaker.getD k 0

/- What the app shows of an order it reads. -/
def shows
    (input : BookInput)
    (cpu : Int)
    (reads : ChainReads)
    (order : RawBookOrder) : LevelOrder :=
  if order.kind = 2 then
    reads.levelOrder order
      (min order.remaining
        (input.backed cpu (reads.freeOf order)))
      (some (input.backed cpu (reads.freeOf order)))
  else reads.levelOrder order order.remaining none

section

variable (h : Pinned input cpu operators)
include h

theorem Pinned.terms_valid
    (block : Int) :
    (chainReads input cpu operators block).rent.Valid where
  cpu_pos := h.onchain.cpu_pos
  ppm_nonneg := h.onchain.ppm_nonneg
  ppm_le := h.onchain.ppm_le
  expiry_safe := h.expiry_safe
  snapshot_safe := h.now_safe
  snapshot_nonneg := h.now_nonneg

section

variable (hOpen : input.closed = false)
include hOpen

theorem Pinned.before_expiry :
    input.now < input.series.expiry := by
  have hLife := life_pos hOpen
  unfold BookInput.life at hLife
  rw [h.snapshot] at hLife
  omega

theorem Pinned.terms_life
    (block : Int) :
    (chainReads input cpu operators block).rent.life =
      input.life := by
  have hBefore := h.before_expiry hOpen
  unfold BookInput.life
  rw [h.snapshot]
  show max 0 (input.series.expiry - input.now) = _
  omega

/- The app's capacity of a balance is the indexer's. -/
theorem Pinned.writerCapacity_eq
    (block : Int)
    (hCutoff : input.now < input.series.mintCutoff)
    {free maximum : Int}
    (hFree : 0 ≤ free)
    (hMaximum : 0 ≤ maximum)
    (hMost : maximum ≤ Web.maxUnits) :
    writerCapacity free
        (chainReads input cpu operators block).rent maximum =
      .ok (min maximum (input.backed cpu free)) := by
  have hTerms : (chainReads input cpu operators block).rent.closed =
      false := by
    have hBefore := h.before_expiry hOpen
    show
      (decide (input.now ≥ input.series.expiry) ||
        decide (input.now ≥ input.series.mintCutoff)) = false
    simp only [Bool.or_eq_false_iff, decide_eq_false_iff_not]
    omega
  have hCapacity := (h.onchain.served hOpen).capacity hFree
  rw [Web.writerCapacity_eq (h.terms_valid block) hTerms
    hFree hMaximum hMost
    (by
      rw [h.terms_life hOpen]
      exact hCapacity)]
  have hSame : Web.maxUnits = Indexer.maxUnits := rfl
  unfold BookInput.backed
  congr 1
  omega

/- The loop shows what `shows` says of every live order. -/
theorem Pinned.shown_eq
    (block : Int)
    {o : BookOrder}
    (ho : o ∈ input.orders)
    (hLive :
      o.kind ≠ .AskWrite ∨ input.asks o = true) :
    (chainReads input cpu operators block).shown
        (rawOrder o) =
      .ok
        (shows input cpu
          (chainReads input cpu operators block)
          (rawOrder o)) := by
  unfold ChainReads.shown shows
  by_cases hKind : o.kind = .AskWrite
  · have hRaw : (rawOrder o).kind = 2 := by
      simp [rawOrder, rawKind, hKind]
    have hAsks : input.asks o = true :=
      hLive.resolve_left (fun hNe => hNe hKind)
    rcases plain_of_live h.onchain.units ho
        (live_of_asks hAsks) with ⟨hPos, hMost, _⟩
    have hCutoff : input.now < input.series.mintCutoff := by
      have hDeadline :=
        (h.before_deadline ho).mp (by
          have hIs := live_of_asks hAsks
          simp only [BookInput.live, Bool.and_eq_true,
            decide_eq_true_eq, h.liveAt_eq] at hIs
          exact hIs.1.2)
      exact hDeadline.2 hKind
    have hFree :
        0 ≤ (chainReads input cpu operators block).freeOf
          (rawOrder o) := h.onchain.balances _
    have hMax : (0 : Int) ≤ Web.maxUnits := by decide
    have hLeft :
        writerCapacity
            ((chainReads input cpu operators block).freeOf
              (rawOrder o))
            (chainReads input cpu operators block).rent
            (rawOrder o).remaining =
          .ok
            (min (rawOrder o).remaining
              (input.backed cpu
                ((chainReads input cpu operators
                  block).freeOf (rawOrder o)))) :=
      h.writerCapacity_eq hOpen block hCutoff hFree hPos.le
        hMost
    rw [if_pos hRaw, if_pos hRaw, hLeft,
      h.writerCapacity_eq hOpen block hCutoff hFree hMax
        (le_refl _)]
    simp only
    have hWhole :
        min Web.maxUnits
            (input.backed cpu
              ((chainReads input cpu operators block).freeOf
                (rawOrder o))) =
          input.backed cpu
            ((chainReads input cpu operators block).freeOf
              (rawOrder o)) :=
      min_eq_right (min_le_left _ _)
    rw [hWhole]
  · have hRaw : (rawOrder o).kind ≠ 2 := by
      cases hIs : o.kind with
      | AskWrite => exact absurd hIs hKind
      | Bid => simp [rawOrder, rawKind, hIs]
      | AskResale => simp [rawOrder, rawKind, hIs]
    rw [if_neg hRaw, if_neg hRaw]

end

end

/- What it says is the listing of the order on its own. -/
theorem shows_units
    (input : BookInput)
    (cpu : Int)
    (operators : List String)
    (block : Int)
    (o : BookOrder) :
    (shows input cpu (chainReads input cpu operators block)
        (rawOrder o)).units =
      (input.market cpu).listed (input.backed cpu)
        (balances input) (input.plain o) := by
  unfold shows
  cases hKind : o.kind with
  | AskWrite =>
      have hRaw : (rawOrder o).kind = 2 := by
        simp [rawOrder, rawKind, hKind]
      have hOwner :
          (input.market cpu).owner (input.plain o) =
            some (makerKey o.maker) := if_pos hKind
      rw [if_pos hRaw, listed_self _ hOwner]
      rfl
  | Bid =>
      have hRaw : (rawOrder o).kind ≠ 2 := by
        simp [rawOrder, rawKind, hKind]
      have hOwner :
          (input.market cpu).owner (input.plain o) = none :=
        if_neg (by simp [BookInput.plain,
          BookInput.fillable, hKind])
      rw [if_neg hRaw]
      simp only [Market.listed, hOwner]
      rfl
  | AskResale =>
      have hRaw : (rawOrder o).kind ≠ 2 := by
        simp [rawOrder, rawKind, hKind]
      have hOwner :
          (input.market cpu).owner (input.plain o) = none :=
        if_neg (by simp [BookInput.plain,
          BookInput.fillable, hKind])
      rw [if_neg hRaw]
      simp only [Market.listed, hOwner]
      rfl

theorem shows_orderId
    (reads : ChainReads)
    (o : RawBookOrder) :
    (shows input cpu reads o).orderId = o.orderId := by
  unfold shows
  split <;> rfl

end

----
-- The Two Books
----

open Indexer Web BudgetWalk

variable {input : BookInput} {cpu : Int} {operators : List String}

/- An offer of the market with the units shown of it. -/
def offerShown
    (p : FillableOrder × Int) : Shown :=
  { price := p.1.price
    orderId := p.1.orderId
    units := p.2 }

/- The asks that the app shows: each on the whole balance. -/
theorem Pinned.asks_shown
    (h : Pinned input cpu operators)
    (hOpen : input.closed = false)
    (block : Int) :
    (shownOn
        (shows input cpu
          (chainReads input cpu operators block))
        (fun o => decide (o.kind ≠ 0))
        ((sortedOrders input false input.asks).map
          rawOrder)).map chainShown =
      ((input.market cpu).listEach (input.backed cpu)
        (balances input) input.liveAsks).map offerShown := by
  have hAll :
      ((sortedOrders input false input.asks).map
          rawOrder).filter (fun o => decide (o.kind ≠ 0)) =
        (sortedOrders input false input.asks).map
          rawOrder := by
    rw [List.filter_eq_self]
    intro r hr
    rcases List.mem_map.mp hr with ⟨o, ho, rfl⟩
    rcases mem_sortedOrders ho with ⟨hIn, hKeep⟩
    have hLive := h.live_ask block hIn
    rw [hKeep, Bool.and_eq_true] at hLive
    exact hLive.2
  unfold shownOn Market.listEach
  rw [hAll, liveAsks_of_open hOpen, ← sortedOrders_plain,
    List.map_map, List.map_map, List.filter_map,
    List.filter_map, List.map_map, List.map_map]
  have hKeep :
      ∀ o ∈ sortedOrders input false input.asks,
        0 ≤ (input.market cpu).listed (input.backed cpu)
          (balances input) (input.plain o) := by
    intro o ho
    rcases mem_sortedOrders ho with ⟨hIn, hAsks⟩
    rcases plain_of_live h.onchain.units hIn
        (live_of_asks hAsks) with ⟨hPos, _, _⟩
    have hSound := market_sound (h.onchain.served hOpen)
    cases hOwner :
        (input.market cpu).owner (input.plain o) with
    | none =>
        simp only [Market.listed, hOwner]
        exact hPos.le
    | some k =>
        rw [listed_self _ hOwner]
        exact hSound.shown_nonneg (h.onchain.balances k) hPos
  have hUnits := shows_units input cpu operators block
  have hFilter :
      (sortedOrders input false input.asks).filter
          ((fun p : Int × LevelOrder =>
              decide (p.2.units ≠ 0)) ∘
            (fun o => (o.price,
              shows input cpu
                (chainReads input cpu operators block) o)) ∘
              rawOrder) =
        (sortedOrders input false input.asks).filter
          ((fun p : FillableOrder × Int =>
              decide (0 < p.2)) ∘
            (fun x => (x,
              (input.market cpu).listed (input.backed cpu)
                (balances input) x)) ∘ input.plain) := by
    apply List.filter_congr
    intro o ho
    have hNonneg := hKeep o ho
    simp only [Function.comp_apply, hUnits o]
    congr 1
    rw [eq_iff_iff]
    omega
  rw [hFilter]
  apply List.map_congr_left
  intro o _
  simp only [Function.comp_apply, chainShown, offerShown,
    hUnits o, shows_orderId]
  rfl

/- Live offers with their units are told apart by their ids. -/
theorem offers_inj
    (h : input.Onchain cpu)
    {ps qs : List (FillableOrder × Int)}
    (hps : ∀ p ∈ ps, p.1 ∈ input.liveAsks)
    (hqs : ∀ q ∈ qs, q.1 ∈ input.liveAsks)
    (hSame : ps.map offerShown = qs.map offerShown) :
    ps = qs := by
  induction ps generalizing qs with
  | nil =>
      cases qs with
      | nil => rfl
      | cons q rest => cases hSame
  | cons p rest ih =>
      cases qs with
      | nil => cases hSame
      | cons q rest' =>
          rw [List.map_cons, List.map_cons,
            List.cons.injEq] at hSame
          have hRest :=
            ih (fun x hx => hps x (List.mem_cons_of_mem p hx))
              (fun x hx => hqs x (List.mem_cons_of_mem q hx))
              hSame.2
          have hId : p.1.orderId = q.1.orderId :=
            congrArg (fun s => s.orderId) hSame.1
          have hUnits : p.2 = q.2 :=
            congrArg (fun s => s.units) hSame.1
          have hOffer : p.1 = q.1 :=
            List.inj_on_of_nodup_map (liveAsks_ids h)
              (hps p (List.mem_cons_self ..))
              (hqs q (List.mem_cons_self ..)) hId
          rw [hRest, Prod.ext hOffer hUnits]

theorem bids_plain
    (input : BookInput) :
    input.orders.filterMap (input.escrowedOf .Bid) =
      (input.orders.filter (BookInput.liveBid input)).map
        input.plain := by
  rw [← List.filterMap_eq_map, List.filterMap_filter]
  apply List.filterMap_congr
  intro o _
  unfold BookInput.escrowedOf BookInput.liveBid
  by_cases hBid : o.kind = .Bid ∧ input.live o = true
  · rw [if_pos hBid, hBid.1, hBid.2]
    rfl
  · have hNot :
        (decide (o.kind = .Bid) && input.live o) = false := by
      simpa using hBid
    rw [if_neg hBid, hNot]
    rfl

/- What the served book shows, as the two walks. -/
theorem served_view
    (h : input.Onchain cpu)
    (hOpen : input.closed = false)
    {book : AggregatedBook}
    (hBook : aggregateBook input = .ok book) :
    servedView book =
      { bids :=
          groupViews
            (((sortedOrders input true
              (BookInput.liveBid input)).map
              input.plain).map servedShown)
        asks :=
          groupViews
            (((input.market cpu).list (input.backed cpu)
              (balances input) input.liveAsks).map
              offerShown) } := by
  have hShown := askOrders_shown h hOpen hBook
  rcases (aggregateBook_ok_iff hOpen).mp hBook with
    ⟨cpu', listed, hCpu, _, hWalk, rfl⟩
  have hLife := (life_pos hOpen).le
  have hAsks :=
    book_asks_eq h.ids h.depth (listed_ids_subperm hLife hWalk)
  unfold servedView
  rw [book_bids_eq cpu' h.depth listed, levels_views]
  unfold AggregatedBook.askOrders at hShown
  rw [hAsks, levels_orders] at hShown
  rw [hAsks, levels_views, collected_eq]
  simp only
  rw [bids_plain, sortedOrders_plain]
  congr 2
  have hOffers := congrArg (fun l => l.map servedShown) hShown
  rw [collected_eq] at hOffers
  simp only [List.map_map] at hOffers
  exact hOffers

theorem shownOn_append
    (shows : RawBookOrder → LevelOrder)
    (ofSide : RawBookOrder → Bool)
    (orders more : List RawBookOrder) :
    shownOn shows ofSide (orders ++ more) =
      shownOn shows ofSide orders ++
        shownOn shows ofSide more := by
  simp [shownOn]

theorem shownOn_eq_nil
    (shows : RawBookOrder → LevelOrder)
    {ofSide : RawBookOrder → Bool}
    {orders : List RawBookOrder}
    (h : ∀ o ∈ orders, ofSide o = false) :
    shownOn shows ofSide orders = [] := by
  have hNone : orders.filter ofSide = [] := by
    rw [List.filter_eq_nil_iff]
    intro o ho
    rw [h o ho]
    decide
  unfold shownOn
  rw [hNone]
  rfl

/- What is shown of a side comes best price first. -/
theorem shownOn_sorted
    (descending : Bool)
    (keep : BookOrder → Bool)
    (shows : RawBookOrder → LevelOrder)
    (ofSide : RawBookOrder → Bool) :
    (shownOn shows ofSide
      ((sortedOrders input descending keep).map
        rawOrder)).Pairwise
      (fun a b => ¬ Ahead descending b.1 a.1) := by
  unfold shownOn
  apply List.Pairwise.filter
  rw [List.pairwise_map]
  apply List.Pairwise.filter
  rw [List.pairwise_map]
  exact sortedOrders_not_ahead descending keep

theorem Pinned.bids_shown
    (h : Pinned input cpu operators)
    (block : Int) :
    (shownOn
        (shows input cpu
          (chainReads input cpu operators block))
        (fun o => decide (o.kind = 0))
        ((sortedOrders input true
          (BookInput.liveBid input)).map
          rawOrder)).map chainShown =
      ((sortedOrders input true
        (BookInput.liveBid input)).map input.plain).map
        servedShown := by
  have hAll :
      ((sortedOrders input true
          (BookInput.liveBid input)).map rawOrder).filter
          (fun o => decide (o.kind = 0)) =
        (sortedOrders input true
          (BookInput.liveBid input)).map rawOrder := by
    rw [List.filter_eq_self]
    intro r hr
    rcases List.mem_map.mp hr with ⟨o, ho, rfl⟩
    rcases mem_sortedOrders ho with ⟨hIn, hKeep⟩
    have hLive := h.live_bid block hIn
    rw [hKeep, Bool.and_eq_true] at hLive
    exact hLive.2
  have hBid :
      ∀ o ∈ sortedOrders input true
          (BookInput.liveBid input),
        (shows input cpu
            (chainReads input cpu operators block)
            (rawOrder o)).units =
          (input.plain o).units ∧
          0 < (input.plain o).units := by
    intro o ho
    rcases mem_sortedOrders ho with ⟨hIn, hKeep⟩
    unfold BookInput.liveBid at hKeep
    rw [Bool.and_eq_true, decide_eq_true_eq] at hKeep
    rcases plain_of_live h.onchain.units hIn hKeep.2 with
      ⟨hPos, _, _⟩
    have hOwner :
        (input.market cpu).owner (input.plain o) = none :=
      if_neg (by simp [BookInput.plain,
        BookInput.fillable, hKeep.1])
    refine ⟨?_, hPos⟩
    rw [shows_units]
    simp only [Market.listed, hOwner]
    rfl
  unfold shownOn
  rw [hAll, List.map_map, List.filter_eq_self.mpr,
    List.map_map, List.map_map]
  · apply List.map_congr_left
    intro o ho
    simp only [Function.comp_apply, chainShown, servedShown,
      (hBid o ho).1, shows_orderId]
    rfl
  · intro p hp
    rcases List.mem_map.mp hp with ⟨o, ho, rfl⟩
    rcases hBid o ho with ⟨hUnits, hPos⟩
    simp only [Function.comp_apply, hUnits,
      decide_eq_true_eq]
    exact hPos.ne'

/- What the app shows of an open book. -/
theorem Pinned.chain_view
    (h : Pinned input cpu operators)
    (hOpen : input.closed = false)
    (block : Int) :
    ∃ response,
      levelsFromChainOrders
          (chainReads input cpu operators block) =
          .ok response ∧
        chainView response =
          { bids :=
              groupViews
                (((sortedOrders input true
                  (BookInput.liveBid input)).map
                  input.plain).map servedShown)
            asks :=
              groupViews
                (((input.market cpu).listEach
                  (input.backed cpu) (balances input)
                  input.liveAsks).map offerShown) } := by
  have hPaused :
      (chainReads input cpu operators block).paused =
        false := by
    simp only [BookInput.closed, Bool.or_eq_false_iff]
      at hOpen
    exact hOpen.2
  have hBids :
      (chainReads input cpu operators block).side true
          (fun o => decide (o.kind = 0)) =
        (sortedOrders input true
          (BookInput.liveBid input)).map rawOrder :=
    h.side_eq block true
      (fun o ho => h.live_bid block ho) h.bids
  have hAsks :
      (chainReads input cpu operators block).side false
          (fun o => decide (o.kind ≠ 0)) =
        (sortedOrders input false input.asks).map rawOrder :=
    h.side_eq block false
      (fun o ho => h.live_ask block ho) h.asks
  have hBidKind :
      ∀ r ∈ (sortedOrders input true
          (BookInput.liveBid input)).map rawOrder,
        r.kind = 0 := by
    intro r hr
    rcases List.mem_map.mp hr with ⟨o, ho, rfl⟩
    have hKeep := (mem_sortedOrders ho).2
    unfold BookInput.liveBid at hKeep
    rw [Bool.and_eq_true, decide_eq_true_eq] at hKeep
    simp [rawOrder, rawKind, hKeep.1]
  have hAskKind :
      ∀ r ∈ (sortedOrders input false input.asks).map
          rawOrder, r.kind ≠ 0 := by
    intro r hr
    rcases List.mem_map.mp hr with ⟨o, ho, rfl⟩
    rcases mem_sortedOrders ho with ⟨hIn, hKeep⟩
    have hLive := h.live_ask block hIn
    rw [hKeep, Bool.and_eq_true, decide_eq_true_eq] at hLive
    exact hLive.2
  have hShown :
      ∀ r ∈ (sortedOrders input true
            (BookInput.liveBid input)).map rawOrder ++
          (sortedOrders input false input.asks).map rawOrder,
        (chainReads input cpu operators block).shown r =
          .ok
            (shows input cpu
              (chainReads input cpu operators block) r) := by
    intro r hr
    rcases List.mem_append.mp hr with hBid | hAsk
    · rcases List.mem_map.mp hBid with ⟨o, ho, rfl⟩
      rcases mem_sortedOrders ho with ⟨hIn, hKeep⟩
      unfold BookInput.liveBid at hKeep
      rw [Bool.and_eq_true, decide_eq_true_eq] at hKeep
      exact h.shown_eq hOpen block hIn
        (.inl (by simp [hKeep.1]))
    · rcases List.mem_map.mp hAsk with ⟨o, ho, rfl⟩
      rcases mem_sortedOrders ho with ⟨hIn, hKeep⟩
      exact h.shown_eq hOpen block hIn (.inr hKeep)
  have hCpu :
      ¬ (chainReads input cpu operators
        block).collateralPerUnit ≤ 0 :=
    not_le.mpr h.onchain.cpu_pos
  unfold levelsFromChainOrders
  rw [if_neg hCpu, hPaused, if_neg (by decide)]
  simp only [hBids, hAsks]
  rw [addOrders_eq hShown]
  refine ⟨_, rfl, ?_⟩
  have hNoBid :=
    shownOn_eq_nil
      (shows input cpu
        (chainReads input cpu operators block))
      (fun r hr => decide_eq_false (hAskKind r hr))
  have hNoAsk :=
    shownOn_eq_nil
      (shows input cpu
        (chainReads input cpu operators block))
      (fun r hr =>
        decide_eq_false (not_not.mpr (hBidKind r hr)))
  unfold chainView
  simp only [shownOn_append]
  rw [hNoBid, hNoAsk, List.append_nil, List.nil_append,
    sort_values (shownOn_sorted true _ _ _) _
      (by intro a b; exact Iff.rfl),
    sort_values (shownOn_sorted false _ _ _) _
      (by intro a b; exact Iff.rfl),
    h.bids_shown block, h.asks_shown hOpen block]

theorem liveAsks_of_closed
    (hClosed : input.closed = true) :
    input.liveAsks = [] := by
  unfold BookInput.liveAsks
  rw [hClosed, if_pos rfl]

/- A closed series shows nothing from the chain either. -/
theorem Pinned.chain_closed
    (h : Pinned input cpu operators)
    (hClosed : input.closed = true)
    (block : Int) :
    ∃ response,
      levelsFromChainOrders
          (chainReads input cpu operators block) =
          .ok response ∧
        chainView response = { bids := [], asks := [] } := by
  have hCpu :
      ¬ (chainReads input cpu operators
        block).collateralPerUnit ≤ 0 :=
    not_le.mpr h.onchain.cpu_pos
  unfold levelsFromChainOrders
  rw [if_neg hCpu]
  by_cases hPaused :
      (chainReads input cpu operators block).paused = true
  · rw [if_pos hPaused]
    exact ⟨_, rfl, rfl⟩
  · have hExpired : input.series.expiry ≤ input.now := by
      have hTrading :
          decide (input.tradingPaused = some true) = false := by
        simpa [chainReads, ChainReads.paused] using hPaused
      have hStatus := h.status
      unfold BookInput.closed at hClosed
      rw [hTrading, h.liveAt_eq, Bool.or_false,
        Bool.or_eq_true, Bool.and_eq_true, decide_eq_true_eq,
        decide_eq_true_eq, decide_eq_true_eq] at hClosed
      rcases hClosed with ⟨hNotOpen, hNotCutoff⟩ | hLate
      · rcases hStatus with hIs | hIs | hIs
        · exact absurd hIs hNotOpen
        · exact absurd hIs hNotCutoff
        · exact hIs
      · exact hLate
    have hNone :
        ∀ (descending : Bool) (ofSide : RawBookOrder → Bool),
          (chainReads input cpu operators block).side
            descending ofSide = [] := by
      intro descending ofSide
      have hDead :
          (chainReads input cpu operators
              block).orders.filter
            (chainReads input cpu operators block).live =
            [] := by
        rw [List.filter_eq_nil_iff]
        intro r hr
        rcases List.mem_map.mp hr with ⟨o, ho, rfl⟩
        have hUntil := (h.valid o ho).2
        have hLate :
            ¬ (rawOrder o).validUntil >
              (chainReads input cpu operators block).now :=
          not_lt.mpr (hUntil.trans hExpired)
        simp [ChainReads.live, hLate]
      unfold ChainReads.side
      rw [hDead]
      rfl
    rw [if_neg hPaused]
    simp only [hNone]
    exact ⟨_, rfl, rfl⟩

/-
  The app's fallback lists the levels that the indexer serves
  exactly when every writer's balance covers, all together,
  the fills that its live write-on-fill asks show one by one.
-/
theorem fallback_agrees_iff
    (input : BookInput)
    (cpu : Int)
    (operators : List String)
    (block : Int)
    (h : Pinned input cpu operators) :
    ∃ book response,
      aggregateBook input = .ok book ∧
        levelsFromChainOrders
            (chainReads input cpu operators block) =
          .ok response ∧
        (chainView response = servedView book ↔
          ∀ k,
            (input.market cpu).spent k
                ((input.market cpu).listEach
                  (input.backed cpu) (balances input)
                  input.liveAsks) ≤
              balances input k) := by
  cases hOpen : input.closed with
  | true =>
      rcases h.chain_closed hOpen block with
        ⟨response, hResponse, hView⟩
      have hBook : aggregateBook input = .ok input.empty := by
        unfold aggregateBook
        rw [hOpen, if_pos rfl]
      refine ⟨input.empty, response, hBook, hResponse, ?_⟩
      rw [hView, liveAsks_of_closed hOpen]
      exact ⟨fun _ k => h.onchain.balances k, fun _ => rfl⟩
  | false =>
      have hServed := h.onchain.served hOpen
      rcases aggregateBook_ok_of_served hServed with
        ⟨book, hBook⟩
      rcases h.chain_view hOpen block with
        ⟨response, hResponse, hView⟩
      have hBalances : ∀ k, 0 ≤ balances input k :=
        h.onchain.balances
      refine ⟨book, response, hBook, hResponse, ?_⟩
      rw [hView, served_view h.onchain hOpen hBook,
        BookView.mk.injEq, groupViews_inj, groupViews_inj,
        ← list_eq_listEach_iff (market_sound hServed)
          (liveAsks_size h.onchain) hBalances]
      constructor
      · rintro ⟨_, hAsks⟩
        refine (offers_inj h.onchain ?_ ?_ hAsks).symm
        · intro p hp
          rcases List.mem_map.mp
              (List.mem_of_mem_filter hp) with ⟨o, ho, rfl⟩
          exact ho
        · intro p hp
          exact
            (list_sublist _ _).subset (List.mem_map_of_mem hp)
      · intro hEq
        rw [hEq]
        exact ⟨rfl, rfl⟩

/- One balance behind two asks, each of which it backs alone. -/
def sharedFallback : BookInput :=
  let order : BookOrder :=
    { orderId := 1
      maker := "0xA"
      longId := 1
      kind := .AskWrite
      price := 100
      units := 4
      filled := 0
      validUntil := 10000
      status := .open
      placedAt := 1
      placedBlock := 1 }
  { series :=
      { longId := 1
        isPut := true
        strike := 100
        mintCutoff := 8200
        mintFeePpm := 3000
        expiry := 10000
        status := .open }
    orders :=
      [order, { order with orderId := 2, price := 200 }]
    freeByMaker := OrderedMap.empty.set "0xa" 6
    now := 10
    snapshotTimestamp := none
    marketEnabled := some true
    mintPaused := some false
    tradingPaused := some false
    bookIsMinter := some true
    operators := some ["0xa"]
    depth := none }

theorem sharedFallback_pinned :
    Pinned sharedFallback 1 ["0xa"] where
  onchain :=
    { cpu_eq := by decide
      cpu_pos := by decide
      ppm_nonneg := by decide
      ppm_le := by decide
      balances := by
        intro k
        show
          0 ≤ (OrderedMap.empty.set "0xa" (6 : Int)).getD k 0
        rw [OrderedMap.getD_set]
        split
        · decide
        · exact le_refl _
      ids := by decide
      units := by decide
      depth := by decide }
  status := .inl rfl
  snapshot := rfl
  operators_eq := rfl
  opened := by decide
  valid := by decide
  placed := by decide
  bids := by decide +kernel
  asks := by decide +kernel
  now_nonneg := by decide
  now_safe := by decide
  expiry_safe := by decide

theorem sharedFallback_iff :
    ∃ book response,
      aggregateBook sharedFallback = .ok book ∧
        levelsFromChainOrders
            (chainReads sharedFallback 1 ["0xa"] 7) =
          .ok response ∧
        (chainView response = servedView book ↔
          ∀ k,
            (sharedFallback.market 1).spent k
                ((sharedFallback.market 1).listEach
                  (sharedFallback.backed 1)
                  (balances sharedFallback)
                  sharedFallback.liveAsks) ≤
              balances sharedFallback k) :=
  fallback_agrees_iff sharedFallback 1 ["0xa"] 7
    sharedFallback_pinned

/- The fallback shows both asks, the indexer only the first. -/
theorem sharedFallback_differs :
    (aggregateBook sharedFallback).toOption.map servedView =
        some
          { bids := []
            asks :=
              [{ price := 100
                 units := 4
                 orders := [(1, 4)] }] } ∧
      (levelsFromChainOrders
          (chainReads sharedFallback 1 ["0xa"]
            7)).toOption.map chainView =
        some
          { bids := []
            asks :=
              [{ price := 100
                 units := 4
                 orders := [(1, 4)] },
                { price := 200
                  units := 4
                  orders := [(2, 4)] }] } := by
  decide +kernel

end Callhouse.Agreement
