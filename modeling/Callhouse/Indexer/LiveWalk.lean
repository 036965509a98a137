import Callhouse.Indexer.Cards

/-
  The ticket on the served book against the contract's own
  walk over every live ask of the series.

  `aggregateBook` spends a writer's balance on all of its
  better asks; the contract skips an ask whose whole fill the
  balance does not cover and keeps the balance for the next.

  Main declarations:
    * `BookInput.liveAsks`, `contractFills`
    * `le_servedUnits_iff`
    * `askOrders_plain`
    * `ticket_fills_eq_iff`
-/

----
-- The Contract's Walk
----

namespace Callhouse.Indexer

section

open BudgetWalk

/- What callers give the book: balances, sizes, full depth. -/
structure BookInput.Onchain
    (input : BookInput)
    (cpu : Int) : Prop where
  cpu_eq :
    collateralPerUnit input.series.isPut
      input.series.strike = .ok cpu
  cpu_pos : 0 < cpu
  ppm_nonneg : 0 ≤ input.series.mintFeePpm
  ppm_le : input.series.mintFeePpm ≤ mintFeeCeilPpm
  balances : ∀ k, 0 ≤ input.freeByMaker.getD k 0
  ids : (input.orders.map (fun o => o.orderId)).Nodup
  units : ∀ o ∈ input.orders, o.units - o.filled ≤ maxUnits
  depth : (input.orders.length : Int) ≤ input.depthLimit

/- A live order as the contract stores it. -/
def BookInput.plain
    (input : BookInput)
    (order : BookOrder) : FillableOrder :=
  input.fillable order none none

/- A live ask: escrowed, or a write with every gate open. -/
def BookInput.asks
    (input : BookInput)
    (order : BookOrder) : Bool :=
  (decide (order.kind = .AskResale) && input.live order) ||
    input.writes order

/- Every live ask of the series, in price-time order. -/
def BookInput.liveAsks
    (input : BookInput) : List FillableOrder :=
  if input.closed then []
  else
    sortOrders false
      ((input.orders.filter input.asks).map input.plain)

def BookInput.market
    (input : BookInput)
    (cpu : Int) : Market FillableOrder String :=
  askMarket cpu input.series.mintFeePpm input.life

/- A taker of `requested` units, before the first ask. -/
def BookInput.taker
    (input : BookInput)
    (requested : Int) : State String :=
  { left := fun k => input.freeByMaker.getD k 0
    want := requested }

/-
  Over all live asks: propose the smaller of what the order
  stores and what is still wanted, skip an AskWrite whose
  writer's remaining balance does not cover all of it, else
  fill it and charge that balance.
-/
def contractFills
    (input : BookInput)
    (cpu requested : Int) : List TicketFill :=
  ((input.market cpu).walk (input.taker requested)
    input.liveAsks).map (fun p => p.1.ticketFill p.2)

variable {input : BookInput} {cpu : Int}

theorem BookInput.Onchain.served
    (h : input.Onchain cpu)
    (hOpen : input.closed = false) :
    input.Served cpu :=
  { open_ := hOpen
    cpu_eq := h.cpu_eq
    cpu_pos := h.cpu_pos
    ppm_nonneg := h.ppm_nonneg
    ppm_le := h.ppm_le
    free_nonneg := fun maker => h.balances (makerKey maker)
    ids := h.ids
    depth := h.depth }

theorem cost_add_le
    {ppm remaining a b : Int} :
    WriteCost.cost cpu ppm remaining (a + b) ≤
      WriteCost.cost cpu ppm remaining a +
        WriteCost.cost cpu ppm remaining b := by
  have hRent :
      WriteCost.rent ((a + b) * cpu) ppm remaining ≤
        WriteCost.rent (a * cpu) ppm remaining +
          WriteCost.rent (b * cpu) ppm remaining := by
    rw [WriteCost.rent_le_iff]
    have hA :=
      WriteCost.rent_le_iff.mp
        (le_refl (WriteCost.rent (a * cpu) ppm remaining))
    have hB :=
      WriteCost.rent_le_iff.mp
        (le_refl (WriteCost.rent (b * cpu) ppm remaining))
    calc (a + b) * cpu * ppm * remaining
        = a * cpu * ppm * remaining +
            b * cpu * ppm * remaining := by ring
      _ ≤ WriteCost.rent (a * cpu) ppm remaining *
              WriteCost.rentDenominator +
            WriteCost.rent (b * cpu) ppm remaining *
              WriteCost.rentDenominator := add_le_add hA hB
      _ = _ := by ring
  have hLocked : (a + b) * cpu = a * cpu + b * cpu := by ring
  unfold WriteCost.cost
  omega

theorem market_sound
    (h : input.Served cpu) :
    (input.market cpu).Sound (input.backed cpu) maxUnits := by
  have hLife := (life_pos h.open_).le
  refine
    { cost_zero := WriteCost.cost_zero
      cost_mono := ?_
      cost_add := fun _ _ _ _ => cost_add_le
      capacity_nonneg := fun _ => h.backed_nonneg
      le_capacity_iff := ?_
      one_le_most := by decide }
  · intro a b hab
    exact
      WriteCost.cost_mono h.cpu_pos.le h.ppm_nonneg hLife hab
  · intro b n hb _ hMost
    have hIff :=
      WriteCost.cost_le_iff_le_capacity (n := n)
        h.cpu_pos.le h.ppm_nonneg hLife (h.capacity hb)
    unfold BookInput.backed
    rw [le_min_iff]
    exact ⟨fun hn => hIff.mpr hn.2,
      fun hn => ⟨hMost, hIff.mp hn⟩⟩

end

----
-- The Served Asks Are the Listing
----

section

open BudgetWalk

variable {input : BookInput} {cpu : Int}

/- An ask without its writer's whole balance beside it. -/
def FillableOrder.cleared
    (o : FillableOrder) : FillableOrder :=
  { o with
    makerFreeUnits := none
    makerFreeCollateral := none }

/- An ask as stored, whatever is shown of it. -/
def FillableOrder.bare
    (o : FillableOrder) : FillableOrder :=
  o.cleared.withUnits o.stored

theorem stored_bare
    (o : FillableOrder) :
    o.bare.stored = o.stored := by
  unfold FillableOrder.bare FillableOrder.cleared
    FillableOrder.withUnits FillableOrder.stored
  cases o.onChainRemainingUnits <;> rfl

theorem stored_of_chain
    {o : FillableOrder}
    (h : o.onChainRemainingUnits = some o.units) :
    o.stored = o.units := by
  unfold FillableOrder.stored
  rw [h, Option.getD_some]

theorem sortOrders_map_cleared
    (orders : List FillableOrder) :
    (sortOrders false orders).map FillableOrder.cleared =
      sortOrders false (orders.map FillableOrder.cleared) :=
  List.map_insertionSort _ _ _ _ (fun _ _ _ _ => Iff.rfl)

/- The market sees of an ask only what `bare` keeps. -/
theorem walk_map_bare
    (s : State String)
    (orders : List FillableOrder) :
    ((input.market cpu).walk s orders).map
        (fun p => p.1.ticketFill p.2) =
      ((input.market cpu).walk s
        (orders.map FillableOrder.bare)).map
        (fun p => p.1.ticketFill p.2) := by
  induction orders generalizing s with
  | nil => rfl
  | cons o rest ih =>
      have hTake :
          (input.market cpu).take s o.bare =
            (input.market cpu).take s o := by
        show min o.bare.stored s.want = min o.stored s.want
        rw [stored_bare]
      have hOwner :
          (input.market cpu).owner o.bare =
            (input.market cpu).owner o := rfl
      have hFills :
          (input.market cpu).fills s o.bare =
            (input.market cpu).fills s o := by
        unfold Market.fills Market.covers
        rw [hOwner, hTake]
      have hStep :
          (input.market cpu).step s o.bare =
            (input.market cpu).step s o := by
        unfold Market.step Market.filled
        rw [hFills, hOwner, hTake]
      rw [List.map_cons, walk_cons, walk_cons, List.map_append,
        List.map_append, hFills, hTake, hStep, ih]
      split <;> rfl

/- The budgets inside the indexer's walk over the writes. -/
def BookInput.budgets
    (input : BookInput)
    (left : OrderedMap String Int) : String → Int :=
  fun k => left.getD k (input.freeByMaker.getD k 0)

/- An offer with the units that a listing shows of it. -/
def showUnits
    (p : FillableOrder × Int) : FillableOrder :=
  p.1.withUnits p.2

/- The writers' walk is the listing of the writes. -/
theorem walkWrites_eq_list
    (h : input.Served cpu)
    {offers : List FillableOrder}
    (hKind : ∀ o ∈ offers, o.kind = .AskWrite)
    (hStored :
      ∀ o ∈ offers, o.onChainRemainingUnits = some o.units)
    {left : OrderedMap String Int}
    (hLeft : BudgetsLeft input left)
    {listed : List FillableOrder}
    (hWalk : walkWrites input cpu left offers = .ok listed) :
    listed.map FillableOrder.cleared =
      (((input.market cpu).list (input.backed cpu)
        (input.budgets left) offers).map showUnits).map
        FillableOrder.cleared := by
  induction offers generalizing left listed with
  | nil =>
      cases hWalk
      rfl
  | cons o rest ih =>
      have hRestKind :=
        fun x hx => hKind x (List.mem_cons_of_mem o hx)
      have hRestStored :=
        fun x hx => hStored x (List.mem_cons_of_mem o hx)
      have hOwner :
          (input.market cpu).owner o =
            some (makerKey o.maker) :=
        if_pos (hKind o (List.mem_cons_self ..))
      have hListed :
          (input.market cpu).listed (input.backed cpu)
              (input.budgets left) o =
            min o.units
              (input.backed cpu
                (left.getD (makerKey o.maker)
                  (input.freeOf o.maker))) := by
        rw [listed_self _ hOwner,
          ← stored_of_chain (hStored o (List.mem_cons_self ..))]
        rfl
      rcases walkWrites_cons h hLeft o rest with
        ⟨hNone, hSame⟩ | ⟨hSome, left', hLeft', hSet, hMore⟩
      · rw [hSame] at hWalk
        rw [list_cons, hListed, if_pos hNone]
        have hKeep :
            (input.market cpu).leftAfter (input.backed cpu)
                (input.budgets left) o =
              input.budgets left := by
          unfold Market.leftAfter
          rw [hListed, if_pos hNone]
        rw [hKeep]
        exact ih hRestKind hRestStored hLeft hWalk
      · rw [hMore] at hWalk
        cases hRest : walkWrites input cpu left' rest with
        | error e =>
            rw [hRest] at hWalk
            cases hWalk
        | ok listed' =>
            rw [hRest] at hWalk
            cases hWalk
            have hAfter :
                (input.market cpu).leftAfter
                    (input.backed cpu) (input.budgets left)
                    o =
                  input.budgets left' := by
              unfold Market.leftAfter
              rw [hListed, if_neg (not_le.mpr hSome), hOwner]
              funext k
              simp only [charge, BookInput.budgets, hSet]
              rw [OrderedMap.getD_set]
              by_cases hk : makerKey o.maker = k
              · subst hk
                rw [if_pos rfl, if_pos rfl]
                rfl
              · rw [if_neg hk, if_neg (Ne.symm hk)]
            rw [list_cons, hListed,
              if_neg (not_le.mpr hSome), hAfter,
              List.map_cons,
              ih hRestKind hRestStored hLeft' hRest]
            rfl

end

----
-- The Book's Asks
----

section

open BudgetWalk

variable {input : BookInput} {cpu : Int}

/- The listing never reads what is cleared. -/
theorem list_map_cleared
    (left : String → Int)
    (offers : List FillableOrder) :
    (((input.market cpu).list (input.backed cpu) left
        offers).map showUnits).map FillableOrder.cleared =
      ((input.market cpu).list (input.backed cpu) left
        (offers.map FillableOrder.cleared)).map showUnits := by
  induction offers generalizing left with
  | nil => rfl
  | cons o rest ih =>
      have hOwner :
          (input.market cpu).owner o.cleared =
            (input.market cpu).owner o := rfl
      have hSize :
          (input.market cpu).size o.cleared =
            (input.market cpu).size o := rfl
      have hListed :
          (input.market cpu).listed (input.backed cpu) left
              o.cleared =
            (input.market cpu).listed (input.backed cpu) left
              o := by
        unfold Market.listed Market.shown
        rw [hOwner, hSize]
      have hAfter :
          (input.market cpu).leftAfter (input.backed cpu)
              left o.cleared =
            (input.market cpu).leftAfter (input.backed cpu)
              left o := by
        unfold Market.leftAfter
        rw [hListed, hOwner]
      rw [List.map_cons, list_cons, list_cons, List.map_append,
        List.map_append, List.map_append, hListed, hAfter, ih]
      split <;> rfl

theorem escrowed_map_cleared
    (orders : List BookOrder) :
    (orders.filterMap (input.escrowedOf .AskResale)).map
        FillableOrder.cleared =
      (orders.filter
        (fun o =>
          decide (o.kind = .AskResale) && input.live o)).map
        input.plain := by
  induction orders with
  | nil => rfl
  | cons o rest ih =>
      rw [List.filterMap_cons, List.filter_cons]
      unfold BookInput.escrowedOf at ih ⊢
      by_cases hKind :
          o.kind = .AskResale ∧ input.live o = true
      · simp only [hKind, and_self, decide_true,
          Bool.and_self, if_true, List.map_cons]
        rw [ih]
        rfl
      · have hNot :
            (decide (o.kind = .AskResale) && input.live o) =
              false := by
          simpa using hKind
        rw [if_neg hKind, hNot]
        exact ih

/- An ask whose writer's whole balance backs a unit. -/
def BookInput.backs
    (input : BookInput)
    (cpu : Int)
    (o : FillableOrder) : Bool :=
  decide (0 < input.backed cpu (input.freeOf o.maker))

theorem offered_map_cleared
    (h : input.Served cpu)
    (orders : List BookOrder) :
    (orders.filterMap (input.offered cpu)).map
        FillableOrder.cleared =
      ((orders.filter input.writes).map input.plain).filter
        (input.backs cpu) := by
  induction orders with
  | nil => rfl
  | cons o rest ih =>
      have hWhole :
          input.capacityOf cpu (input.freeOf o.maker) =
            .ok (input.backed cpu (input.freeOf o.maker)) :=
        h.rentCapacity_eq (h.free_nonneg o.maker)
      have hBacks :
          input.backs cpu (input.plain o) =
            decide
              (0 < input.backed cpu
                (input.freeOf o.maker)) := rfl
      rw [List.filterMap_cons, List.filter_cons]
      unfold BookInput.offered at ih ⊢
      cases hWrites : input.writes o with
      | false => exact ih
      | true =>
          simp only [hWhole, if_true, List.map_cons,
            List.filter_cons, hBacks]
          rcases le_or_gt
              (input.backed cpu (input.freeOf o.maker)) 0 with
            hNone | hSome
          · rw [if_pos hNone,
              decide_eq_false (not_lt.mpr hNone)]
            exact ih
          · rw [if_neg (not_le.mpr hSome),
              decide_eq_true hSome]
            simp only [List.map_cons, if_true]
            rw [ih]
            rfl

theorem live_of_asks
    {o : BookOrder}
    (h : input.asks o = true) :
    input.live o = true := by
  simp only [BookInput.asks, BookInput.writes,
    Bool.or_eq_true, Bool.and_eq_true] at h
  rcases h with ⟨_, hLive⟩ | ⟨⟨_, hLive⟩, _⟩ <;>
    exact hLive

/- The size and the price of what is live. -/
theorem plain_of_live
    (hUnits :
      ∀ o ∈ input.orders, o.units - o.filled ≤ maxUnits)
    {order : BookOrder}
    (hOrder : order ∈ input.orders)
    (hLive : input.live order = true) :
    0 < (input.plain order).stored ∧
      (input.plain order).stored ≤ maxUnits ∧
      0 < (input.plain order).price := by
  simp only [BookInput.live, Bool.and_eq_true,
    decide_eq_true_eq] at hLive
  exact ⟨hLive.2, hUnits order hOrder, hLive.1.1.2⟩

theorem liveAsks_source
    {o : FillableOrder}
    (h : o ∈ input.liveAsks) :
    ∃ order ∈ input.orders,
      input.asks order = true ∧ o = input.plain order := by
  unfold BookInput.liveAsks at h
  split at h
  · cases h
  · have hIn := (sortOrders_perm false _).subset h
    rcases List.mem_map.mp hIn with ⟨order, hOrder, rfl⟩
    rcases List.mem_filter.mp hOrder with ⟨hMem, hAsks⟩
    exact ⟨order, hMem, hAsks, rfl⟩

theorem liveAsks_size
    (h : input.Onchain cpu) :
    ∀ o ∈ input.liveAsks,
      0 < (input.market cpu).size o ∧
        (input.market cpu).size o ≤ maxUnits := by
  intro o ho
  rcases liveAsks_source ho with ⟨order, hIn, hAsks, rfl⟩
  rcases plain_of_live h.units hIn (live_of_asks hAsks) with
    ⟨hPos, hMost, _⟩
  exact ⟨hPos, hMost⟩

theorem asks_ids_nodup
    (hIds : input.DistinctIds)
    (keep : BookOrder → Bool) :
    (((input.orders.filter keep).map input.plain).map
      (fun o => o.orderId)).Nodup := by
  rw [List.map_map]
  exact hIds.sublist (List.filter_sublist.map _)

theorem liveAsks_ids
    (h : input.Onchain cpu) :
    (input.liveAsks.map (fun o => o.orderId)).Nodup := by
  unfold BookInput.liveAsks
  split
  · exact List.nodup_nil
  · exact
      (((sortOrders_perm false _).map _).nodup_iff).mpr
        (asks_ids_nodup h.ids input.asks)

theorem liveAsks_nodup
    (h : input.Onchain cpu) :
    input.liveAsks.Nodup :=
  List.Nodup.of_map _ (liveAsks_ids h)

theorem liveAsks_of_open
    (hOpen : input.closed = false) :
    input.liveAsks =
      sortOrders false
        ((input.orders.filter input.asks).map
          input.plain) := by
  unfold BookInput.liveAsks
  rw [hOpen]
  rfl

/- The writes among the live asks, in the same order. -/
theorem liveAsks_owned
    (h : input.Onchain cpu)
    (hOpen : input.closed = false) :
    input.liveAsks.filter
        (fun o => ((input.market cpu).owner o).isSome) =
      sortOrders false
        ((input.orders.filter input.writes).map
          input.plain) := by
  rw [liveAsks_of_open hOpen,
    sortOrders_filter (asks_ids_nodup h.ids _),
    List.filter_map, List.filter_filter]
  congr 2
  apply List.filter_congr
  intro o _
  unfold BookInput.market askMarket BookInput.asks
    BookInput.writes BookInput.plain BookInput.fillable
  cases hKind : o.kind <;> simp [hKind]

theorem liveAsks_escrowed
    (cpu : Int)
    (hOpen : input.closed = false) :
    (input.liveAsks.filter
        (fun o => ((input.market cpu).owner o).isNone)).Perm
      ((input.orders.filter
        (fun o =>
          decide (o.kind = .AskResale) && input.live o)).map
        input.plain) := by
  rw [liveAsks_of_open hOpen]
  refine ((sortOrders_perm false _).filter _).trans ?_
  rw [List.filter_map, List.filter_filter]
  apply List.Perm.of_eq
  congr 1
  apply List.filter_congr
  intro o _
  unfold BookInput.market askMarket BookInput.asks
    BookInput.writes BookInput.plain BookInput.fillable
  cases hKind : o.kind <;> simp [hKind]

end

----
-- The Ticket and the Contract's Fills
----

open BudgetWalk

variable {input : BookInput} {cpu : Int}

theorem writes_of_offered
    {o : FillableOrder}
    (ho : o ∈ (input.collected cpu).writes) :
    o.kind = .AskWrite ∧
      o.onChainRemainingUnits = some o.units := by
  rw [collected_eq] at ho
  rcases List.mem_filterMap.mp ho with ⟨b, _, hSome⟩
  rcases offered_eq_some hSome with ⟨hWrites, _, _, _, rfl⟩
  simp only [BookInput.writes, Bool.and_eq_true,
    decide_eq_true_eq] at hWrites
  exact ⟨hWrites.1.1, rfl⟩

/- What the writers' walk lists, of all the live writes. -/
theorem listed_map_cleared
    (h : input.Onchain cpu)
    (hOpen : input.closed = false)
    {listed : List FillableOrder}
    (hWalk : input.Lists cpu listed) :
    listed.map FillableOrder.cleared =
      ((input.market cpu).list (input.backed cpu)
        (fun k => input.freeByMaker.getD k 0)
        (input.liveAsks.filter
          (fun o => ((input.market cpu).owner o).isSome))).map
        showUnits := by
  have hServed := h.served hOpen
  have hWrites :
      ∀ o ∈ sortOrders false (input.collected cpu).writes,
        o.kind = .AskWrite ∧
          o.onChainRemainingUnits = some o.units :=
    fun o ho =>
      writes_of_offered ((sortOrders_perm false _).subset ho)
  have hIds := asks_ids_nodup h.ids input.writes
  have hBacked :
      (input.market cpu).list (input.backed cpu)
          (fun k => input.freeByMaker.getD k 0)
          ((sortOrders false
            ((input.orders.filter input.writes).map
              input.plain)).filter (input.backs cpu)) =
        (input.market cpu).list (input.backed cpu)
          (fun k => input.freeByMaker.getD k 0)
          (sortOrders false
            ((input.orders.filter input.writes).map
              input.plain)) := by
    apply list_filter_backed (market_sound hServed)
    · intro o ho
      rw [← liveAsks_owned h hOpen] at ho
      exact liveAsks_size h o (List.mem_of_mem_filter ho)
    · exact fun k => h.balances k
    · intro o ho hNo
      rw [← liveAsks_owned h hOpen] at ho
      rcases List.mem_filter.mp ho with ⟨hIn, hSome⟩
      rcases liveAsks_size h o hIn with ⟨hPos, hMost⟩
      have hOwner :
          (input.market cpu).owner o =
            some (makerKey o.maker) := by
        unfold BookInput.market askMarket at hSome ⊢
        simp only at hSome ⊢
        split at hSome
        · next hKind => exact if_pos hKind
        · cases hSome
      have hNone :
          input.backed cpu (input.freeOf o.maker) ≤ 0 := by
        simpa [BookInput.backs] using hNo
      apply lt_cost_one_of_not_listed (market_sound hServed)
        (fun k => h.balances k) hPos hMost
      rw [listed_self _ hOwner]
      exact (min_le_right _ _).trans hNone
  rw [liveAsks_owned h hOpen, ← hBacked,
    sortOrders_filter hIds,
    ← offered_map_cleared hServed input.orders,
    walkWrites_eq_list hServed
      (fun o ho => (hWrites o ho).1)
      (fun o ho => (hWrites o ho).2)
      (budgetsLeft_empty hServed) hWalk,
    list_map_cleared, sortOrders_map_cleared, collected_eq]
  rfl

/- A live ask shown whole is the ask as it stands. -/
theorem map_showUnits_size
    (cpu : Int)
    {orders : List FillableOrder}
    (h : ∀ o ∈ orders, o ∈ input.liveAsks) :
    orders.map
        (showUnits ∘
          fun o => (o, (input.market cpu).size o)) =
      orders := by
  refine (List.map_congr_left ?_).trans (List.map_id _)
  intro o ho
  rcases liveAsks_source (h o ho) with ⟨order, _, _, rfl⟩
  rfl

/- The book shows of every live ask what the listing does. -/
theorem askOrders_shown
    (h : input.Onchain cpu)
    (hOpen : input.closed = false)
    {book : AggregatedBook}
    (hBook : aggregateBook input = .ok book) :
    book.askOrders.map FillableOrder.cleared =
      ((input.market cpu).list (input.backed cpu)
        (fun k => input.freeByMaker.getD k 0)
        input.liveAsks).map showUnits := by
  have hLife := (life_pos hOpen).le
  rcases (aggregateBook_ok_iff hOpen).mp hBook with
    ⟨cpu', listed, hCpu, _, hWalk, rfl⟩
  have hSame : cpu' = cpu := by
    have hEq := hCpu.symm.trans h.cpu_eq
    cases hEq
    rfl
  subst hSame
  have hSub := listed_ids_subperm hLife hWalk
  have hAsks := book_asks_eq h.ids h.depth hSub
  unfold AggregatedBook.askOrders
  rw [hAsks, levels_orders, sortOrders_map_cleared]
  symm
  apply eq_sortOrders
  · have hIds := ask_ids_nodup h.ids hSub
    rw [List.map_map]
    exact hIds
  · have hSplit :=
      List.filter_append_perm
        (fun p : FillableOrder × Int =>
          ((input.market cpu').owner p.1).isNone)
        ((input.market cpu').list (input.backed cpu')
          (fun k => input.freeByMaker.getD k 0)
          input.liveAsks)
    have hRest :
        (fun p : FillableOrder × Int =>
            !((input.market cpu').owner p.1).isNone) =
          fun p => ((input.market cpu').owner p.1).isSome := by
      funext p
      simp
    rw [hRest, list_filter_owned,
      list_filter_escrow
        (fun o ho => (liveAsks_size h o ho).1)] at hSplit
    refine (hSplit.map showUnits).symm.trans ?_
    rw [List.map_append, List.map_append, List.map_map,
      ← listed_map_cleared h hOpen hWalk]
    apply List.Perm.append_right
    rw [collected_eq, escrowed_map_cleared,
      map_showUnits_size cpu'
        (fun o ho => List.mem_of_mem_filter ho)]
    exact liveAsks_escrowed cpu' hOpen
  · have hSorted :
        (((input.market cpu').list (input.backed cpu')
          (fun k => input.freeByMaker.getD k 0)
          input.liveAsks).map Prod.fst).Pairwise
          (fun a b => compare a b false ≤ 0) := by
      apply List.Pairwise.sublist (list_sublist _ _)
      rw [liveAsks_of_open hOpen]
      exact sortOrders_sorted false _
    rw [List.pairwise_map] at hSorted ⊢
    exact hSorted

/-
  The live writes of the same writer that stand before an ask
  in price-time order.
-/
def BookInput.better
    (input : BookInput)
    (order : BookOrder) : List BookOrder :=
  input.orders.filter
    (fun o =>
      input.writes o &&
        decide
          (makerKey o.maker = makerKey order.maker ∧
            o.orderId ≠ order.orderId ∧
            compare (input.plain o) (input.plain order)
                false ≤ 0))

/- What orders lock, with their rent, each filled whole. -/
def BookInput.locked
    (input : BookInput)
    (cpu : Int)
    (orders : List BookOrder) : Int :=
  (orders.map
    (fun o =>
      WriteCost.cost cpu input.series.mintFeePpm input.life
        (o.units - o.filled))).sum

variable {order : BookOrder}

section

variable (h : input.Onchain cpu) (hOpen : input.closed = false)
include h hOpen

/- As stored, what it lists is what the listing lists. -/
theorem askOrders_plain
    {book : AggregatedBook}
    (hBook : aggregateBook input = .ok book) :
    book.askOrders.map FillableOrder.bare =
      ((input.market cpu).list (input.backed cpu)
        (fun k => input.freeByMaker.getD k 0)
        input.liveAsks).map Prod.fst := by
  have hShown :=
    congrArg (fun l => l.map FillableOrder.bare)
      (askOrders_shown h hOpen hBook)
  simp only [List.map_map] at hShown
  have hBare :
      FillableOrder.bare ∘ FillableOrder.cleared =
        FillableOrder.bare := rfl
  rw [hBare] at hShown
  rw [hShown]
  apply List.map_congr_left
  intro p hp
  have hIn : p.1 ∈ input.liveAsks :=
    (list_sublist _ _).subset (List.mem_map_of_mem hp)
  rcases liveAsks_source hIn with ⟨order, _, _, hPlain⟩
  show (p.1.withUnits p.2).bare = p.1
  rw [hPlain]
  rfl

/- What a ticket needs to know of the asks that are listed. -/
theorem askOrders_spec
    {book : AggregatedBook}
    (hBook : aggregateBook input = .ok book) :
    ∀ o ∈ book.askOrders,
      (0 < o.stored ∧ 0 ≤ o.price) ∧
        (o.kind = .AskWrite →
          input.snapshot < input.series.mintCutoff) := by
  intro o ho
  have hBare : o.bare ∈ input.liveAsks := by
    apply (list_sublist
      (fun k => input.freeByMaker.getD k 0) _).subset
    rw [← askOrders_plain h hOpen hBook]
    exact List.mem_map_of_mem ho
  rcases liveAsks_source hBare with ⟨order, hIn, hAsks, hEq⟩
  rcases plain_of_live h.units hIn (live_of_asks hAsks) with
    ⟨hStored, _, hPrice⟩
  have hKind : o.kind = order.kind :=
    congrArg (fun x => x.kind) hEq
  rw [← hEq] at hStored hPrice
  rw [stored_bare] at hStored
  refine ⟨⟨hStored, hPrice.le⟩, ?_⟩
  intro hWrite
  rw [hKind] at hWrite
  simp only [BookInput.asks, hWrite, BookInput.writes,
    BookInput.mintOpen, Bool.or_eq_true, Bool.and_eq_true,
    decide_eq_true_eq] at hAsks
  rcases hAsks with ⟨hNo, _⟩ | hAsks
  · cases hNo
  · have hLive := hAsks.2.1.1.1.1
    unfold BookInput.liveAt at hLive
    split at hLive <;> omega

end

theorem snapshot_of_ok
    (hOpen : input.closed = false)
    {book : AggregatedBook}
    (hBook : aggregateBook input = .ok book) :
    book.snapshotTimestamp = input.snapshot := by
  rcases (aggregateBook_ok_iff hOpen).mp hBook with
    ⟨_, _, _, _, _, rfl⟩
  rfl

/- The ticket on an open book, as a walk over the listing. -/
theorem ticket_fills
    (h : input.Onchain cpu)
    (hOpen : input.closed = false)
    {book : AggregatedBook}
    (hBook : aggregateBook input = .ok book)
    {requested : Int}
    (hRequested : 0 < requested)
    {fees : CardFees}
    (hFees : fees.outside = false) :
    ∃ ticket,
      walkAsks book requested input.series input.freeByMaker
          fees = .ok ticket ∧
        ticket.fills =
          ((input.market cpu).walk (input.taker requested)
            (((input.market cpu).list (input.backed cpu)
              (input.taker requested).left
              input.liveAsks).map Prod.fst)).map
            (fun p => p.1.ticketFill p.2) ∧
        ticket.requested = requested ∧
        ticket.filled =
          (ticket.fills.map (fun f => f.units)).sum := by
  have hSpec := askOrders_spec h hOpen hBook
  have hSnapshot := snapshot_of_ok hOpen hBook
  have hMarket :
      (ticketTerms book requested cpu input.series).market =
        input.market cpu := by
    unfold WalkTerms.market ticketTerms BookInput.market
      BookInput.life
    rw [hSnapshot]
  have hValid :
      (ticketTerms book requested cpu input.series).Valid :=
    { cpu_pos := h.cpu_pos
      ppm_nonneg := h.ppm_nonneg
      ppm_le := h.ppm_le
      life_nonneg := by
        have hLife := (life_pos hOpen).le
        unfold BookInput.life at hLife
        unfold ticketTerms
        rw [hSnapshot]
        exact hLife }
  rcases walkAsks_ok input.freeByMaker hFees hRequested
      h.cpu_eq hValid (fun o ho => (hSpec o ho).1)
      (by
        intro o ho hKind
        rw [hSnapshot]
        exact (hSpec o ho).2 hKind) with
    ⟨ticket, hTicket, hFills, hSums⟩
  refine ⟨ticket, hTicket, ?_, hSums⟩
  rw [hFills, hMarket, walk_map_bare,
    askOrders_plain h hOpen hBook]
  rfl

/- A fill of an ask that is not listed is on no ticket. -/
theorem mem_of_ticketFill
    (h : input.Onchain cpu)
    {offers : List FillableOrder}
    (hSub : offers.Sublist input.liveAsks)
    {s s' : State String}
    {p : FillableOrder × Int}
    (hp : p ∈ (input.market cpu).walk s input.liveAsks)
    (hFill :
      p.1.ticketFill p.2 ∈
        ((input.market cpu).walk s' offers).map
          (fun p => p.1.ticketFill p.2)) :
    p.1 ∈ offers := by
  rcases List.mem_map.mp hFill with ⟨q, hq, hSame⟩
  have hId : q.1.orderId = p.1.orderId :=
    congrArg (fun f => f.orderId) hSame
  have hQ := walk_subset hq
  have hEq :=
    List.inj_on_of_nodup_map (liveAsks_ids h) (hSub.subset hQ)
      (walk_subset hp) hId
  rw [← hEq]
  exact hQ

/-
  The ticket on the full-depth book has the fills of the
  contract's walk over all live asks exactly when that walk
  never fills an ask of a writer after it has skipped a
  better one of the same writer.
-/
theorem ticket_fills_eq_iff
    (input : BookInput)
    (cpu requested : Int)
    (fees : CardFees)
    (h : input.Onchain cpu)
    (hRequested : 0 < requested)
    (hFees : fees.outside = false) :
    ∃ book ticket,
      aggregateBook input = .ok book ∧
        walkAsks book requested input.series
            input.freeByMaker fees = .ok ticket ∧
        (ticket.fills = contractFills input cpu requested ↔
          ¬ (input.market cpu).FillsAfterSkip
            (input.taker requested) input.liveAsks) := by
  cases hOpen : input.closed with
  | true =>
      have hBook : aggregateBook input = .ok input.empty := by
        unfold aggregateBook
        rw [hOpen, if_pos rfl]
      have hNone : input.liveAsks = [] := by
        unfold BookInput.liveAsks
        rw [hOpen, if_pos rfl]
      rcases takerFee_ok fees (le_refl 0) with ⟨fee, hFee⟩
      let start : TicketWalk :=
        { free := input.freeByMaker
          filled := 0
          premium := 0
          fills := [] }
      refine
        ⟨input.empty, start.ticket requested fee, hBook,
          ?_, ?_⟩
      · unfold walkAsks
        rw [hFees, if_neg (by decide),
          if_neg (not_le.mpr hRequested), h.cpu_eq]
        simp only [BookInput.empty, walkLevels]
        rw [hFee]
      · unfold contractFills
        rw [hNone]
        exact ⟨fun _ => id, fun _ => rfl⟩
  | false =>
      have hServed := h.served hOpen
      have hSound := market_sound hServed
      rcases aggregateBook_ok_of_served hServed with
        ⟨book, hBook⟩
      rcases ticket_fills h hOpen hBook hRequested hFees with
        ⟨ticket, hTicket, hFills, _⟩
      refine ⟨book, ticket, hBook, hTicket, ?_⟩
      rw [hFills]
      constructor
      · intro hEq hLost
        rcases exists_lost_fill hSound (liveAsks_size h)
            (liveAsks_nodup h) h.balances hLost with
          ⟨p, hp, hMissing⟩
        apply hMissing
        apply mem_of_ticketFill h (list_sublist _ _) hp
        rw [hEq]
        exact List.mem_map_of_mem hp
      · intro hClean
        unfold contractFills
        rw [walk_list_eq hSound (liveAsks_size h)
          hRequested.le h.balances hClean]

/- One balance backs the second ask of its writer, not the first. -/
def lostFillBook : BookInput :=
  let order : BookOrder :=
    { orderId := 1
      maker := "0xA"
      longId := 1
      kind := .AskWrite
      price := 100
      units := 10
      filled := 0
      validUntil := 0
      status := .open
      placedAt := 1
      placedBlock := 1 }
  { series :=
      { longId := 1
        isPut := true
        strike := 100
        mintCutoff := 8200
        mintFeePpm := 3000
        expiry := 10000
        status := .open }
    orders :=
      [order, { order with orderId := 2, price := 200, units := 5 }]
    freeByMaker := OrderedMap.empty.set "0xa" 6
    now := 10
    snapshotTimestamp := none
    marketEnabled := none
    mintPaused := none
    tradingPaused := none
    bookIsMinter := none
    operators := none
    depth := none }

def noFees : CardFees :=
  { takerFeeFlat := 0
    takerFeeCapBps := 0
    exerciseFeeBps := 0 }

theorem lostFillBook_onchain :
    lostFillBook.Onchain 1 where
  cpu_eq := by decide
  cpu_pos := by decide
  ppm_nonneg := by decide
  ppm_le := by decide
  balances := by
    intro k
    show
      0 ≤ (OrderedMap.empty.set "0xa" (6 : Int)).getD k 0
    rw [OrderedMap.getD_set]
    split
    · decide
    · exact le_refl _
  ids := by decide
  units := by decide
  depth := by decide

theorem lostFillBook_iff :
    ∃ book ticket,
      aggregateBook lostFillBook = .ok book ∧
        walkAsks book 10 lostFillBook.series
            lostFillBook.freeByMaker noFees = .ok ticket ∧
        (ticket.fills = contractFills lostFillBook 1 10 ↔
          ¬ (lostFillBook.market 1).FillsAfterSkip
            (lostFillBook.taker 10) lostFillBook.liveAsks) :=
  ticket_fills_eq_iff lostFillBook 1 10 noFees
    lostFillBook_onchain (by decide) (by decide)

/- The contract fills five units; the ticket fills none. -/
theorem lostFillBook_ticket :
    contractFills lostFillBook 1 10 =
        [{ orderId := 2
           maker := "0xA"
           kind := .AskWrite
           units := 5
           price := 200 }] ∧
      ∃ book ticket,
        aggregateBook lostFillBook = .ok book ∧
          walkAsks book 10 lostFillBook.series
              lostFillBook.freeByMaker noFees = .ok ticket ∧
          ticket.fills = [] := by
  refine ⟨by decide +kernel, ?_⟩
  have hRun :
      (aggregateBook lostFillBook).toOption.bind
          (fun book =>
            (walkAsks book 10 lostFillBook.series
              lostFillBook.freeByMaker
              noFees).toOption.map (fun t => t.fills)) =
        some [] := by decide +kernel
  cases hBook : aggregateBook lostFillBook with
  | error e =>
      rw [hBook] at hRun
      cases hRun
  | ok book =>
      rw [hBook] at hRun
      cases hTicket :
          walkAsks book 10 lostFillBook.series
            lostFillBook.freeByMaker noFees with
      | error e =>
          simp [hTicket, Except.toOption] at hRun
      | ok ticket =>
          refine ⟨book, ticket, rfl, hTicket, ?_⟩
          simpa [hTicket, Except.toOption] using hRun

end Callhouse.Indexer
