import Callhouse.Indexer.LiveWalk
import Callhouse.Lib.WalkDepth
import Callhouse.Lib.SearchMax

/-
  indexer/lib/v2/cards.ts: the largest ticket that the
  whole-or-skip planner fills completely.

  Main declarations:
    * `totalUnits`, `executableAskDepth`
    * `totalUnits_asks`
    * `executableAskDepth_isGreatest`
-/

----
-- The Search
----

namespace Callhouse.Indexer

def totalUnits
    (levels : List BookLevel) : Int :=
  levels.foldl (fun sum level => sum + level.units) 0

/- The ticket of `units` fills all of them. -/
def ticketFills
    (book : AggregatedBook)
    (series : BookSeries)
    (freeByMaker : OrderedMap String Int)
    (fees : CardFees)
    (units : Int) : Except String Bool :=
  match walkAsks book units series freeByMaker fees with
  | .error e => .error e
  | .ok ticket => .ok (decide (ticket.filled = units))

def executableAskDepth
    (book : AggregatedBook)
    (series : BookSeries)
    (freeByMaker : OrderedMap String Int)
    (fees : CardFees) : Except String Ticket :=
  let sum := totalUnits book.asks
  let hi := if sum < maxUnits then sum else maxUnits
  match
    searchMaxE (ticketFills book series freeByMaker fees) 0
      hi with
  | .error e => .error e
  | .ok lo =>
      walkAsks book (if lo > 0 then lo else 1) series
        freeByMaker fees

----
-- The Depth That Is Listed
----

section

open BudgetWalk

theorem totalUnits_eq
    {levels : List BookLevel}
    (h : ∀ level ∈ levels, level.Filled) :
    totalUnits levels =
      ((levels.flatMap (fun l => l.orders)).map
        (fun o => o.units)).sum := by
  have hFold :
      ∀ sum : Int,
        levels.foldl (fun sum level => sum + level.units) sum =
          sum +
            ((levels.flatMap (fun l => l.orders)).map
              (fun o => o.units)).sum := by
    induction levels with
    | nil => simp
    | cons level rest ih =>
        intro sum
        have hUnits := (h level (List.mem_cons_self ..)).units_eq
        rw [List.foldl_cons,
          ih (fun l hl => h l (List.mem_cons_of_mem _ hl)),
          List.flatMap_cons, List.map_append,
          List.sum_append, hUnits, add_assoc]
  rw [totalUnits, hFold, zero_add]

variable {input : BookInput} {cpu : Int}

/- What the served book lists of the live asks. -/
def BookInput.listing
    (input : BookInput)
    (cpu : Int) : List (FillableOrder × Int) :=
  (input.market cpu).list (input.backed cpu)
    (fun k => input.freeByMaker.getD k 0) input.liveAsks

/- The total of an open book is the units of the listing. -/
theorem totalUnits_asks
    (h : input.Onchain cpu)
    (hOpen : input.closed = false)
    {book : AggregatedBook}
    (hBook : aggregateBook input = .ok book) :
    totalUnits book.asks = unitsIn (input.listing cpu) := by
  rcases serves_of_ok hOpen h.ids h.depth hBook with
    ⟨_, _, hServes⟩
  have hShown :=
    congrArg (fun l => (l.map (fun o => o.units)).sum)
      (askOrders_shown h hOpen hBook)
  simp only [List.map_map] at hShown
  rw [totalUnits_eq hServes.askLevels.filled]
  exact hShown

/- A ticket of `m` units, as the market's walk of the listing. -/
theorem ticket_units
    (h : input.Onchain cpu)
    (hOpen : input.closed = false)
    {book : AggregatedBook}
    (hBook : aggregateBook input = .ok book)
    {fees : CardFees}
    (hFees : fees.outside = false)
    {m : Int}
    (hPos : 0 < m) :
    ∃ ticket,
      walkAsks book m input.series input.freeByMaker fees =
          .ok ticket ∧
        ticket.requested = m ∧
        ticket.filled =
          unitsIn
            ((input.market cpu).walk (input.taker m)
              ((input.listing cpu).map Prod.fst)) := by
  rcases ticket_fills h hOpen hBook hPos hFees with
    ⟨ticket, hTicket, hFills, hRequested, hFilled⟩
  refine ⟨ticket, hTicket, hRequested, ?_⟩
  rw [hFilled, hFills, List.map_map]
  rfl

end

----
-- The Depth Is Exact
----

open BudgetWalk SearchMax

variable {input : BookInput} {cpu : Int}

theorem not_outside_of_ok
    {book : AggregatedBook}
    {requested : Int}
    {series : BookSeries}
    {free : OrderedMap String Int}
    {fees : CardFees}
    {ticket : Ticket}
    (h :
      walkAsks book requested series free fees =
        .ok ticket) :
    fees.outside = false := by
  unfold walkAsks at h
  cases hOutside : fees.outside with
  | false => rfl
  | true =>
      rw [hOutside, if_pos rfl] at h
      cases h

/- Nothing is filled of a book that is closed. -/
theorem filled_of_closed
    (hClosed : input.closed = true)
    {book : AggregatedBook}
    (hBook : aggregateBook input = .ok book)
    {requested : Int}
    {free : OrderedMap String Int}
    {fees : CardFees}
    {ticket : Ticket}
    (h :
      walkAsks book requested input.series free fees =
        .ok ticket) :
    ticket.filled = 0 := by
  unfold aggregateBook at hBook
  rw [if_pos hClosed] at hBook
  cases hBook
  unfold walkAsks at h
  split at h
  · cases h
  · split at h
    · cases h
    · split at h
      · cases h
      · simp only [BookInput.empty, walkLevels] at h
        split at h
        · cases h
        · cases h
          rfl

/- A size that the listing's walk fills is not above its units. -/
theorem fillable_le_listing
    (h : input.Onchain cpu)
    (hOpen : input.closed = false)
    {m : Int}
    (hPos : 0 ≤ m)
    (hFull :
      (input.market cpu).Fillable (input.taker m).left
        ((input.listing cpu).map Prod.fst) m) :
    m ≤ unitsIn (input.listing cpu) := by
  have hLe :=
    unitsIn_walk_list_le (market_sound (h.served hOpen))
      (liveAsks_size h) (s := input.taker m) hPos h.balances
  unfold Market.Fillable at hFull
  rw [← hFull]
  exact hLe

/-
  The search ends on the largest ticket that is filled
  completely: every smaller one is, and no larger one.
-/
theorem executableAskDepth_isGreatest
    (input : BookInput)
    (cpu : Int)
    (h : input.Onchain cpu)
    (book : AggregatedBook)
    (hBook : aggregateBook input = .ok book)
    (fees : CardFees)
    (one : Ticket)
    (hOne :
      walkAsks book 1 input.series input.freeByMaker fees =
        .ok one)
    (hFillable : one.filled = 1) :
    ∃ ticket,
      executableAskDepth book input.series input.freeByMaker
          fees = .ok ticket ∧
        walkAsks book ticket.filled input.series
            input.freeByMaker fees = .ok ticket ∧
        ticket.filled = ticket.requested ∧
        1 ≤ ticket.filled ∧ ticket.filled ≤ maxUnits ∧
        ∀ m, 1 ≤ m → m ≤ maxUnits →
          ∃ other,
            walkAsks book m input.series input.freeByMaker
                fees = .ok other ∧
              (m ≤ ticket.filled → other.filled = m) ∧
              (ticket.filled < m → other.filled < m) := by
  have hFees := not_outside_of_ok hOne
  have hOpen : input.closed = false := by
    by_contra hClosed
    have hNone :=
      filled_of_closed (by simpa using hClosed) hBook hOne
    omega
  have hSound := market_sound (h.served hOpen)
  let offers := (input.listing cpu).map Prod.fst
  let left := (input.taker 0).left
  have hTicket :=
    fun m => ticket_units (m := m) h hOpen hBook hFees
  have hDown :
      ∀ m n, 0 < m → m ≤ n →
        (input.market cpu).Fillable left offers n →
          (input.market cpu).Fillable left offers m :=
    fun _ _ hm hmn hn =>
      Fillable.of_le hSound.cost_mono hm.le hmn hn
  let total := totalUnits book.asks
  let hi := if total < maxUnits then total else maxUnits
  have hMost : hi ≤ maxUnits := by
    show (if total < maxUnits then total else maxUnits) ≤ _
    split <;> omega
  have hUpper :
      ∀ m, 0 < m → m ≤ maxUnits →
        (input.market cpu).Fillable left offers m → m ≤ hi := by
    intro m hm hMostM hFits
    have hLe := fillable_le_listing h hOpen hm.le hFits
    rw [← totalUnits_asks h hOpen hBook] at hLe
    show m ≤ if total < maxUnits then total else maxUnits
    split
    · exact hLe
    · exact hMostM
  have hFitsOne : (input.market cpu).Fillable left offers 1 := by
    rcases hTicket 1 one_pos with ⟨t, hT, _, hUnits⟩
    rw [hOne] at hT
    cases hT
    exact hUnits.symm.trans hFillable
  have hHi : 1 ≤ hi := hUpper 1 one_pos (by decide) hFitsOne
  rcases
      searchMaxE_zero
        (ticketFills book input.series input.freeByMaker fees)
        ((input.market cpu).Fillable left offers)
        (show 0 ≤ hi by omega)
        (by
          intro n hn _
          rcases hTicket n hn with ⟨t, hT, _, hUnits⟩
          refine ⟨decide (t.filled = n), ?_, ?_⟩
          · unfold ticketFills
            rw [hT]
          · rw [decide_eq_true_iff, hUnits]
            rfl)
        (fun m n hm hmn _ hn => hDown m n hm hmn hn) with
    ⟨depth, hSearch, _, hDepthLe, hDepthFits, hGreatest⟩
  have hDepth : 1 ≤ depth := hGreatest 1 one_pos hHi hFitsOne
  rcases hTicket depth hDepth with
    ⟨ticket, hRun, hRequested, hUnits⟩
  have hFilled : ticket.filled = depth :=
    hUnits.trans (hDepthFits hDepth)
  refine ⟨ticket, ?_, ?_, ?_, ?_, ?_, ?_⟩
  · unfold executableAskDepth
    simp only
    rw [hSearch]
    simp only
    rw [if_pos (by omega)]
    exact hRun
  · rw [hFilled]
    exact hRun
  · rw [hFilled, hRequested]
  · rw [hFilled]
    exact hDepth
  · rw [hFilled]
    exact hDepthLe.trans hMost
  · intro m hm hMostM
    rcases hTicket m hm with ⟨other, hOther, _, hUnits'⟩
    refine ⟨other, hOther, ?_, ?_⟩
    · intro hLe
      rw [hFilled] at hLe
      rw [hUnits']
      exact hDown m depth hm hLe (hDepthFits hDepth)
    · intro hLt
      rw [hFilled] at hLt
      have hWant : 0 ≤ (input.taker m).want := by
        show 0 ≤ m
        omega
      have hLe :=
        unitsIn_walk_le (m := input.market cpu) hWant offers
      apply lt_of_le_of_ne (hUnits'.trans_le hLe)
      intro hEq
      have hFits : (input.market cpu).Fillable left offers m :=
        hUnits'.symm.trans hEq
      have hMore :=
        hGreatest m hm (hUpper m hm hMostM hFits) hFits
      omega

/- The book whose ticket of ten units fills none of them. -/
theorem lostFillBook_depth :
    ∃ book one ticket,
      aggregateBook lostFillBook = .ok book ∧
        walkAsks book 1 lostFillBook.series
            lostFillBook.freeByMaker noFees = .ok one ∧
        executableAskDepth book lostFillBook.series
            lostFillBook.freeByMaker noFees = .ok ticket ∧
        ticket.filled = ticket.requested := by
  have hBook : ∃ book, aggregateBook lostFillBook = .ok book :=
    aggregateBook_ok_of_served
      (lostFillBook_onchain.served (by decide))
  rcases hBook with ⟨book, hBook⟩
  have hNoFees : noFees.outside = false := by decide
  rcases ticket_units lostFillBook_onchain (by decide) hBook
      hNoFees one_pos with ⟨one, hOne, _, hUnits⟩
  have hFilled : one.filled = 1 := by
    rw [hUnits]
    decide +kernel
  rcases executableAskDepth_isGreatest lostFillBook 1
      lostFillBook_onchain book hBook noFees one hOne hFilled
    with ⟨ticket, hTicket, _, hRequested, _⟩
  exact ⟨book, one, ticket, hBook, hOne, hTicket, hRequested⟩

end Callhouse.Indexer
