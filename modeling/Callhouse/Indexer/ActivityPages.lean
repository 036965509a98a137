import Callhouse.Indexer.ActivityFeed

/-
  The pages of /feed/activity one after another: a reader that
  asks each time with the cursor it was given, while the
  indexer's head moves on.

  Main declarations:
    * `followPages`, `PageReads`
    * `followPages_eq`
    * `followPages_complete`
-/

----
-- Following the Cursors
----

namespace Callhouse.Indexer.ActivityFeed

structure FollowedPages where
  items : List ActivityItem
  nextCursor : Option CursorText
  last : Nat
deriving DecidableEq

/-
  From page `n` on, at most `left` more, while a cursor to the
  next is returned.
-/
def followPages
    (page :
      Nat → Option CursorText → Except String ActivityPage) :
    Nat → Nat → Option CursorText →
      Except String FollowedPages
| 0, n, cursor =>
    match page n cursor with
    | .error e => .error e
    | .ok result =>
        .ok
          { items := result.items
            nextCursor := result.nextCursor
            last := n }
| left + 1, n, cursor =>
    match page n cursor with
    | .error e => .error e
    | .ok result =>
        match result.nextCursor with
        | none =>
            .ok
              { items := result.items
                nextCursor := none
                last := n }
        | some next =>
            match
              followPages page left (n + 1) (some next)
            with
            | .error e => .error e
            | .ok later =>
                .ok
                  { items := result.items ++ later.items
                    nextCursor := later.nextCursor
                    last := later.last }

/- Page `n` is read from the tables `reads n`. -/
def feedPages
    [Collation]
    (reads : Nat → Tables)
    (sizes : Nat → Nat)
    (since : Int)
    (n : Nat)
    (cursor : Option CursorText) :
    Except String ActivityPage :=
  feedActivity (reads n) (some since) cursor (sizes n)

----
-- Pages at a Moving Head
----

open KeysetPage

/- Tables of one chain, read at heads that do not go back. -/
structure PageReads
    (time : Int → Int)
    (history : List Activity)
    (reads : Nat → Tables) : Prop where
  serves : ∀ n, (reads n).Serves time history
  heads : ∀ m n, m ≤ n → ∀ head, (reads m).head = some head →
    ∃ later, (reads n).head = some later ∧ head ≤ later

/- The events at or after a time. -/
def eventsSince
    (since : Int)
    (history : List Activity) : List Activity :=
  history.filter (fun e => decide (e.ts ≥ since))

def keysetReads
    (reads : Nat → Tables)
    (sizes : Nat → Nat)
    (n : Nat) : Read Activity :=
  (reads n).read (sizes n)

variable {time : Int → Int} {history : List Activity}
variable {reads : Nat → Tables} {sizes : Nat → Nat}

theorem feedOf_allKinds
    (since : Int)
    (history : List Activity) :
    feedOf allKinds since history =
      eventsSince since history := by
  unfold feedOf eventsSince
  apply List.filter_congr
  intro e _
  have hKind : e.kind ∈ allKinds := by
    cases e.kind <;> decide
  rw [decide_eq_true hKind, Bool.true_and]

theorem block_le_of_le
    {a b : Position}
    (h : a ≤ b) :
    a.block ≤ b.block := by
  by_contra hMore
  have hLess : b.key < a.key :=
    (key_lt_iff b a).mpr (.inl (not_le.mp hMore))
  have hKeys : a.key ≤ b.key := h
  exact absurd hKeys (not_le.mpr hLess)

/- A head shows a prefix of the chain. -/
theorem Tables.shows_lower
    {t : Tables}
    {a b : Activity}
    (hab : a.position ≤ b.position)
    (hShows : t.shows b = true) :
    t.shows a = true := by
  unfold Tables.shows at *
  cases hHead : t.head with
  | none =>
      rw [hHead] at hShows
      cases hShows
  | some head =>
      rw [hHead] at hShows
      have hBlock := block_le_of_le hab
      have hSafe := of_decide_eq_true hShows
      exact decide_eq_true (hBlock.trans hSafe)

theorem PageReads.advancing
    (h : PageReads time history reads)
    (hSizes : ∀ n, 0 < sizes n)
    (feed : List Activity) :
    Advancing Activity.position feed
      (keysetReads reads sizes) where
  lower := fun _ _ _ _ _ hab hShows =>
    Tables.shows_lower hab hShows
  mono := by
    intro m n hmn e _ hShows
    change (reads m).shows e = true at hShows
    change (reads n).shows e = true
    unfold Tables.shows at *
    cases hHead : (reads m).head with
    | none =>
        rw [hHead] at hShows
        cases hShows
    | some head =>
        rcases h.heads m n hmn head hHead with
          ⟨later, hLater, hLe⟩
        rw [hHead] at hShows
        rw [hLater]
        have hSafe := of_decide_eq_true hShows
        exact decide_eq_true (by omega)
  size_pos := hSizes

theorem Chain.eventsSince_sorted
    (h : Chain time history)
    (since : Int) :
    (eventsSince since history).Pairwise
      (fun a b => a.position < b.position) :=
  h.sorted.filter _

/- The chain's events are what the response schema asks for. -/
theorem Chain.checkResponse_eq
    (h : Chain time history)
    {items : List Activity}
    (hItems : ∀ e ∈ items, e ∈ history)
    (next : Option Position) :
    checkResponse (wirePage items next) =
      .ok (wirePage items next) := by
  unfold checkResponse
  apply if_pos
  rw [List.all_eq_true]
  intro item hItem
  rcases List.mem_map.mp hItem with ⟨e, he, rfl⟩
  have hIn := hItems e he
  unfold ActivityItem.parses
  rw [Bool.and_eq_true, Bool.and_eq_true]
  exact
    ⟨⟨decide_eq_true (h.inRange e hIn).id_pos,
        decide_eq_true (h.ts_nonneg e hIn)⟩,
      decide_eq_true (h.longId_nonneg e hIn)⟩

/- A page at a cursor that the feed issued. -/
theorem feedPages_eq
    [Collation]
    (hChain : Chain time history)
    (hReads : PageReads time history reads)
    (hSizes : ∀ n, 0 < sizes n)
    (since : Int)
    (n : Nat)
    {cursor : Option Position}
    (hCursor : ∀ p, cursor = some p → p.InRange) :
    feedPages reads sizes since n (cursor.map cursorOf) =
      .ok
        (wirePage
          (pageItems Activity.position
            (eventsSince since history)
            (keysetReads reads sizes n) cursor)
          (pageNext Activity.position
            (eventsSince since history)
            (keysetReads reads sizes n) cursor)) := by
  have hParse : parseCursor (cursor.map cursorOf) = cursor := by
    cases hCase : cursor with
    | none => rfl
    | some p =>
        exact parseCursor_cursorOf (hCursor p hCase)
  have hKnown :
      ¬ (cursor.map cursorOf ≠ none ∧
        parseCursor (cursor.map cursorOf) = none) := by
    rw [hParse]
    rintro ⟨hSome, hNone⟩
    rw [hNone] at hSome
    exact hSome rfl
  have hItems :
      ∀ e ∈
          pageItems Activity.position
            (eventsSince since history)
            (keysetReads reads sizes n) cursor,
        e ∈ history := by
    intro e he
    have hRow := List.mem_of_mem_take he
    exact List.mem_of_mem_filter (List.mem_of_mem_filter hRow)
  unfold feedPages feedActivity
  rw [if_neg hKnown, hParse,
    activityPage_eq rfl (hSizes n)
      (fun c hc => (hCursor c hc).id_plain) hChain
      (hReads.serves n),
    feedOf_allKinds]
  exact hChain.checkResponse_eq hItems _

/- The wire's pages are those of the chain's feed. -/
theorem followPages_eq
    [Collation]
    (hChain : Chain time history)
    (hReads : PageReads time history reads)
    (hSizes : ∀ n, 0 < sizes n)
    (since : Int)
    (left n : Nat)
    {cursor : Option Position}
    (hCursor : ∀ p, cursor = some p → p.InRange) :
    followPages (feedPages reads sizes since) left n
        (cursor.map cursorOf) =
      let followed :=
        follow Activity.position (eventsSince since history)
          (keysetReads reads sizes) left n cursor
      .ok
        { items := followed.items.map Activity.item
          nextCursor := followed.next.map cursorOf
          last := followed.last } := by
  induction left generalizing n cursor with
  | zero =>
      rw [followPages,
        feedPages_eq hChain hReads hSizes since n hCursor]
      rfl
  | succ left ih =>
      rw [followPages,
        feedPages_eq hChain hReads hSizes since n hCursor]
      unfold wirePage
      simp only [follow]
      cases hNext :
          pageNext Activity.position
            (eventsSince since history)
            (keysetReads reads sizes n) cursor with
      | none => rfl
      | some next =>
          have hIssued :=
            (page_spec
              (hChain.eventsSince_sorted since)
              (hReads.advancing hSizes _) n cursor).2
          have hRange : ∀ p, some next = some p → p.InRange := by
            intro p hp
            rcases hIssued next hNext with
              ⟨e, he, _, _, hKey⟩
            cases hp
            rw [← hKey]
            exact hChain.inRange e (List.mem_filter.mp he).1
          have hRest := ih (n + 1) hRange
          simp only [Option.map_some] at hRest ⊢
          rw [hRest]
          simp only [List.map_append]

/- What the reader has passed: all shown, or up to a cursor. -/
def FollowedPages.passed
    (reads : Nat → Tables)
    (followed : FollowedPages)
    (e : Activity) : Bool :=
  match followed.nextCursor with
  | none => (reads followed.last).shows e
  | some next => decide (e.position ≤ next.parts)

/-
  From the first page on the reader gets, in the chain's order
  and each once, the events it has passed; and within as many
  pages as there are events it has passed all that are shown.
-/
theorem followPages_complete
    [Collation]
    (hChain : Chain time history)
    (hReads : PageReads time history reads)
    (hSizes : ∀ n, 0 < sizes n)
    (since : Int)
    (left : Nat) :
    ∃ followed,
      followPages (feedPages reads sizes since) left 0 none =
          .ok followed ∧
        followed.items =
          ((eventsSince since history).filter
            (followed.passed reads)).map Activity.item ∧
        (history.length ≤ left → followed.nextCursor = none) := by
  let feed := eventsSince since history
  have hSorted := hChain.eventsSince_sorted since
  have hAdvancing :
      Advancing Activity.position feed
        (keysetReads reads sizes) :=
    hReads.advancing hSizes feed
  have hSpec := follow_spec hSorted hAdvancing left 0 none
  have hFirst :
      ∀ p, (none : Option Position) = some p → p.InRange :=
    fun _ h => nomatch h
  have hRun :=
    followPages_eq hChain hReads hSizes since left 0 hFirst
  refine ⟨_, hRun, ?_, ?_⟩
  · simp only
    rw [hSpec.2.1]
    congr 1
    apply List.filter_congr
    intro e _
    unfold FollowedPages.passed reached
    simp only [after, Bool.true_and]
    cases (follow Activity.position feed
        (keysetReads reads sizes) left 0 none).next with
    | none => rfl
    | some next => rfl
  · intro hLeft
    have hFew : feed.length ≤ left :=
      (List.length_filter_le _ history).trans hLeft
    have hEnds := follow_ends hSorted hAdvancing hFew 0 none
    simp only
    rw [hEnds]
    rfl

end Callhouse.Indexer.ActivityFeed
