import Callhouse.Indexer.Book

/-
  What the served book of a series shows: its price levels,
  what every writer's balance backs, and that the order in
  which the orders are read does not matter.

  Main declarations:
    * `IsLevels` and `levels_isLevels`
    * `GreedyWalk` and `walkWrites_greedy`
    * `aggregateBook_shuffled`
    * `aggregateBook_serves`
-/

----
-- Price Levels
----

namespace Callhouse.Indexer

/- One price stands strictly before another on its side. -/
def Ahead
    (descending : Bool)
    (p q : Int) : Prop :=
  if descending then q < p else p < q

/- One order for a level at least, all at the level's price. -/
structure BookLevel.Filled
    (level : BookLevel) : Prop where
  nonempty : level.orders ≠ []
  price_eq : ∀ o ∈ level.orders, o.price = level.price
  units_eq :
    level.units = (level.orders.map (fun o => o.units)).sum

/- The levels of one side, best price first. -/
structure IsLevels
    (descending : Bool)
    (levels : List BookLevel) : Prop where
  strict :
    levels.Pairwise (fun a b => Ahead descending a.price b.price)
  filled : ∀ level ∈ levels, level.Filled

variable {descending : Bool}

theorem Ahead.trans
    {p q r : Int}
    (h : Ahead descending p q)
    (h' : Ahead descending q r) :
    Ahead descending p r := by
  unfold Ahead at *
  cases descending with
  | true =>
      simp only [if_true] at *
      omega
  | false =>
      simp only [Bool.false_eq_true, if_false] at *
      omega

/- Two prices neither of which stands behind are the same. -/
theorem ahead_of_not_ahead
    {p q : Int}
    (h : ¬ Ahead descending q p)
    (hNe : p ≠ q) :
    Ahead descending p q := by
  unfold Ahead at *
  cases descending with
  | true =>
      simp only [if_true] at *
      omega
  | false =>
      simp only [Bool.false_eq_true, if_false] at *
      omega

theorem Precedes.not_ahead
    {a b : FillableOrder}
    (h : Precedes descending a b) :
    ¬ Ahead descending b.price a.price := by
  unfold Precedes at h
  unfold Ahead
  cases descending with
  | true =>
      simp only [if_true] at *
      omega
  | false =>
      simp only [Bool.false_eq_true, if_false] at *
      omega

theorem BookLevel.filled_singleton
    (order : FillableOrder) :
    BookLevel.Filled
      { price := order.price
        units := order.units
        orders := [order] } where
  nonempty := List.cons_ne_nil _ _
  price_eq := by simp
  units_eq := by simp

theorem BookLevel.Filled.push
    {level : BookLevel}
    (h : level.Filled)
    {order : FillableOrder}
    (hPrice : level.price = order.price) :
    BookLevel.Filled
      { level with
        units := level.units + order.units
        orders := level.orders ++ [order] } where
  nonempty := by simp
  price_eq := by
    intro o ho
    rcases List.mem_append.mp ho with hOld | hNew
    · exact h.price_eq o hOld
    · rw [List.mem_singleton.mp hNew]
      exact hPrice.symm
  units_eq := by simp [h.units_eq]

/-
  An order that no level stands behind goes into the last
  level or opens the next one.
-/
theorem IsLevels.push
    {out : List BookLevel}
    (h : IsLevels descending out)
    {order : FillableOrder}
    (hBehind :
      ∀ level ∈ out,
        ¬ Ahead descending order.price level.price) :
    IsLevels descending (pushOrder out order) ∧
      ∀ level ∈ pushOrder out order,
        level ∈ out ∨ level.price = order.price ∨
          ∃ old ∈ out, level.price = old.price := by
  unfold pushOrder
  cases hLast : out.getLast? with
  | none =>
      simp only
      refine ⟨⟨List.pairwise_singleton _ _, ?_⟩, ?_⟩
      · intro level hLevel
        rw [List.mem_singleton.mp hLevel]
        exact BookLevel.filled_singleton order
      · intro level hLevel
        rw [List.mem_singleton.mp hLevel]
        exact .inr (.inl rfl)
  | some last =>
      rcases List.getLast?_eq_some_iff.mp hLast with
        ⟨front, rfl⟩
      simp only [List.dropLast_concat]
      have hStrict := List.pairwise_append.mp h.strict
      have hLastFilled := h.filled last (by simp)
      split
      · next hSame =>
          refine ⟨⟨?_, ?_⟩, ?_⟩
          · refine List.pairwise_append.mpr
              ⟨hStrict.1, List.pairwise_singleton _ _, ?_⟩
            intro a ha b hb
            rw [List.mem_singleton.mp hb]
            exact hStrict.2.2 a ha last (by simp)
          · intro level hLevel
            rcases List.mem_append.mp hLevel with
              hOld | hNew
            · exact h.filled level
                (List.mem_append_left _ hOld)
            · rw [List.mem_singleton.mp hNew]
              exact hLastFilled.push hSame
          · intro level hLevel
            rcases List.mem_append.mp hLevel with
              hOld | hNew
            · exact .inl (List.mem_append_left _ hOld)
            · rw [List.mem_singleton.mp hNew]
              exact .inr (.inl hSame)
      · next hOther =>
          have hAhead :=
            ahead_of_not_ahead (hBehind last (by simp)) hOther
          refine ⟨⟨?_, ?_⟩, ?_⟩
          · refine List.pairwise_append.mpr
              ⟨h.strict, List.pairwise_singleton _ _, ?_⟩
            intro a ha b hb
            rw [List.mem_singleton.mp hb]
            rcases List.mem_append.mp ha with hFront | hEnd
            · exact (hStrict.2.2 a hFront last
                (by simp)).trans hAhead
            · rw [List.mem_singleton.mp hEnd]
              exact hAhead
          · intro level hLevel
            rcases List.mem_append.mp hLevel with
              hOld | hNew
            · exact h.filled level hOld
            · rw [List.mem_singleton.mp hNew]
              exact BookLevel.filled_singleton order
          · intro level hLevel
            rcases List.mem_append.mp hLevel with
              hOld | hNew
            · exact .inl hOld
            · rw [List.mem_singleton.mp hNew]
              exact .inr (.inl rfl)

theorem foldl_pushOrder_isLevels
    (orders : List FillableOrder)
    (hSorted :
      orders.Pairwise
        (fun a b => compare a b descending ≤ 0))
    {out : List BookLevel}
    (h : IsLevels descending out)
    (hBehind :
      ∀ level ∈ out, ∀ o ∈ orders,
        ¬ Ahead descending o.price level.price) :
    IsLevels descending (orders.foldl pushOrder out) := by
  induction orders generalizing out with
  | nil => exact h
  | cons order rest ih =>
      rw [List.pairwise_cons] at hSorted
      have hFirst :
          ∀ level ∈ out,
            ¬ Ahead descending order.price level.price :=
        fun level hLevel =>
          hBehind level hLevel order (by simp)
      rcases h.push hFirst with ⟨hPushed, hPrices⟩
      rw [List.foldl_cons]
      apply ih hSorted.2 hPushed
      intro level hLevel o ho
      have hOld := fun old (hIn : old ∈ out) =>
        hBehind old hIn o (List.mem_cons_of_mem _ ho)
      rcases hPrices level hLevel with
        hIn | hPrice | ⟨old, hIn, hPrice⟩
      · exact hOld level hIn
      · rw [hPrice]
        exact (compare_le_zero_iff.mp
          (hSorted.1 o ho)).not_ahead
      · rw [hPrice]
        exact hOld old hIn

theorem levels_isLevels
    (descending : Bool)
    (orders : List FillableOrder) :
    IsLevels descending (levels descending orders) :=
  foldl_pushOrder_isLevels _
    (sortOrders_sorted descending orders)
    ⟨List.Pairwise.nil, by simp⟩ (by simp)

----
-- One Sorted Order
----

variable {orders : List FillableOrder}

/- Orders that tie in every key are one order, by their ids. -/
theorem eq_of_compare_le
    (hIds : (orders.map (fun o => o.orderId)).Nodup)
    {a b : FillableOrder}
    (ha : a ∈ orders)
    (hb : b ∈ orders)
    (hab : compare a b descending ≤ 0)
    (hba : compare b a descending ≤ 0) :
    a = b := by
  rw [compare_le_zero_iff] at hab hba
  apply List.inj_on_of_nodup_map hIds ha hb
  unfold Precedes at hab hba
  cases descending with
  | true =>
      simp only [if_true] at hab hba
      omega
  | false =>
      simp only [Bool.false_eq_true, if_false] at hab hba
      omega

/- A sorted list is found again from any shuffle of it. -/
theorem eq_sortOrders
    {sorted : List FillableOrder}
    (hIds : (orders.map (fun o => o.orderId)).Nodup)
    (hPerm : sorted.Perm orders)
    (hSorted :
      sorted.Pairwise
        (fun a b => compare a b descending ≤ 0)) :
    sorted = sortOrders descending orders := by
  have hSame :=
    hPerm.trans (sortOrders_perm descending orders).symm
  apply hSame.eq_of_pairwise _ hSorted
    (sortOrders_sorted descending orders)
  intro a b ha hb hab hba
  exact eq_of_compare_le hIds (hPerm.subset ha)
    ((sortOrders_perm descending orders).subset hb) hab hba

theorem sortOrders_eq_of_perm
    {orders' : List FillableOrder}
    (hIds : (orders.map (fun o => o.orderId)).Nodup)
    (hPerm : orders'.Perm orders) :
    sortOrders descending orders' =
      sortOrders descending orders :=
  eq_sortOrders hIds
    ((sortOrders_perm descending orders').trans hPerm)
    (sortOrders_sorted descending orders')

theorem sortOrders_filter
    (hIds : (orders.map (fun o => o.orderId)).Nodup)
    (keep : FillableOrder → Bool) :
    (sortOrders descending orders).filter keep =
      sortOrders descending (orders.filter keep) := by
  apply eq_sortOrders
  · exact hIds.sublist (List.filter_sublist.map _)
  · exact (sortOrders_perm descending orders).filter keep
  · exact (sortOrders_sorted descending orders).filter keep

----
-- What Was Collected
----

section

variable {input : BookInput} {cpu : Int}

/- The capacity of a balance of this series, or the error. -/
def BookInput.capacityOf
    (input : BookInput)
    (cpu free : Int) : Except String Int :=
  rentCapacity free cpu input.series.mintFeePpm input.life
    maxUnits

/- A write-on-fill ask with all its units still to list. -/
def BookInput.offer
    (input : BookInput)
    (order : BookOrder)
    (whole : Int) : FillableOrder :=
  input.fillable order (some whole)
    (some (input.freeOf order.maker))

/- The offer, where the whole balance backs a unit. -/
def BookInput.offered
    (input : BookInput)
    (cpu : Int)
    (order : BookOrder) : Option FillableOrder :=
  if input.writes order then
    match input.capacityOf cpu (input.freeOf order.maker) with
    | .error _ => none
    | .ok whole =>
        if whole ≤ 0 then none
        else some (input.offer order whole)
  else none

/- The capacity of the writer is asked for, and found. -/
def BookInput.Priced
    (input : BookInput)
    (cpu : Int)
    (order : BookOrder) : Prop :=
  input.writes order = true →
    ∃ whole,
      input.capacityOf cpu (input.freeOf order.maker) =
        .ok whole

/- The escrowed order of either kind, shown as it stands. -/
def BookInput.escrowed
    (input : BookInput)
    (order : BookOrder) : Option FillableOrder :=
  (input.escrowedOf .Bid order).or
    (input.escrowedOf .AskResale order)

/- The state of the loop once one more order is read. -/
def collectedWith
    (input : BookInput)
    (cpu : Int)
    (acc : Collected)
    (order : BookOrder) : Collected :=
  { bids := acc.bids ++ (input.escrowedOf .Bid order).toList
    asks :=
      acc.asks ++ (input.escrowedOf .AskResale order).toList
    writes := acc.writes ++ (input.offered cpu order).toList
    updatedBlock :=
      (input.escrowed order).toList.foldl laterBlock
        acc.updatedBlock }

theorem collectOrder_of_priced
    (acc : Collected)
    {order : BookOrder}
    (h : input.Priced cpu order) :
    collectOrder input cpu acc order =
      .ok (collectedWith input cpu acc order) := by
  unfold collectOrder collectedWith BookInput.escrowed
    BookInput.escrowedOf BookInput.offered
  cases hLive : input.live order with
  | false => simp [BookInput.writes, hLive]
  | true =>
      rw [if_neg (by decide)]
      cases hKind : order.kind with
      | Bid => simp [BookInput.writes, hKind]
      | AskResale => simp [BookInput.writes, hKind]
      | AskWrite =>
          cases hOpen : input.mintOpen order with
          | false => simp [BookInput.writes, hOpen]
          | true =>
              have hWrites : input.writes order = true := by
                simp [BookInput.writes, hLive, hKind, hOpen]
              rcases h hWrites with ⟨whole, hWhole⟩
              simp only [hWrites, hWhole]
              unfold BookInput.capacityOf at hWhole
              rw [hWhole]
              rcases le_or_gt whole 0 with hNone | hSome
              · simp [hNone]
              · simp [not_le.mpr hSome, BookInput.offer]

theorem priced_of_collectOrder
    {acc acc' : Collected}
    {order : BookOrder}
    (h : collectOrder input cpu acc order = .ok acc') :
    input.Priced cpu order := by
  intro hWrites
  simp only [BookInput.writes, Bool.and_eq_true,
    decide_eq_true_eq] at hWrites
  unfold collectOrder at h
  simp only [hWrites.1.1, hWrites.1.2, hWrites.2,
    Bool.true_eq_false, if_false] at h
  cases hWhole :
      input.capacityOf cpu (input.freeOf order.maker) with
  | error e =>
      unfold BookInput.capacityOf at hWhole
      rw [hWhole] at h
      cases h
  | ok whole => exact ⟨whole, rfl⟩

theorem collectOrder_ok_iff
    {acc acc' : Collected}
    {order : BookOrder} :
    collectOrder input cpu acc order = .ok acc' ↔
      input.Priced cpu order ∧
        acc' = collectedWith input cpu acc order := by
  constructor
  · intro h
    have hPriced := priced_of_collectOrder h
    rw [collectOrder_of_priced acc hPriced] at h
    cases h
    exact ⟨hPriced, rfl⟩
  · rintro ⟨hPriced, rfl⟩
    exact collectOrder_of_priced acc hPriced

theorem collectOrders_ok_iff
    (orders : List BookOrder)
    {acc all : Collected} :
    collectOrders input cpu acc orders = .ok all ↔
      (∀ order ∈ orders, input.Priced cpu order) ∧
        all = orders.foldl (collectedWith input cpu) acc := by
  induction orders generalizing acc with
  | nil => simp [collectOrders, eq_comm]
  | cons order rest ih =>
      rw [collectOrders, List.forall_mem_cons,
        List.foldl_cons]
      cases hStep : collectOrder input cpu acc order with
      | error e =>
          have hUnpriced : ¬ input.Priced cpu order := by
            intro hPriced
            rw [collectOrder_of_priced acc hPriced] at hStep
            cases hStep
          simp [hUnpriced]
      | ok acc' =>
          rcases collectOrder_ok_iff.mp hStep with
            ⟨hPriced, rfl⟩
          simp only [ih, hPriced, true_and]

/- What the whole loop has collected. -/
def BookInput.collected
    (input : BookInput)
    (cpu : Int) : Collected :=
  input.orders.foldl (collectedWith input cpu)
    Collected.empty

theorem foldl_collectedWith
    (orders : List BookOrder)
    (acc : Collected) :
    orders.foldl (collectedWith input cpu) acc =
      { bids :=
          acc.bids ++ orders.filterMap (input.escrowedOf .Bid)
        asks :=
          acc.asks ++
            orders.filterMap (input.escrowedOf .AskResale)
        writes :=
          acc.writes ++ orders.filterMap (input.offered cpu)
        updatedBlock :=
          (orders.filterMap input.escrowed).foldl laterBlock
            acc.updatedBlock } := by
  induction orders generalizing acc with
  | nil => simp
  | cons order rest ih =>
      rw [List.foldl_cons, ih]
      simp only [collectedWith, List.filterMap_cons]
      cases input.escrowedOf .Bid order <;>
        cases input.escrowedOf .AskResale order <;>
        cases input.offered cpu order <;>
        cases input.escrowed order <;> simp

theorem collected_eq :
    input.collected cpu =
      { bids := input.orders.filterMap (input.escrowedOf .Bid)
        asks :=
          input.orders.filterMap (input.escrowedOf .AskResale)
        writes := input.orders.filterMap (input.offered cpu)
        updatedBlock :=
          (input.orders.filterMap input.escrowed).foldl
            laterBlock 0 } := by
  unfold BookInput.collected
  rw [foldl_collectedWith]
  simp [Collected.empty]

end

----
-- One Writer's Walk
----

section

/-
  The asks of one writer, best first, each listed with the
  smaller of its units and the largest fill that the balance
  left by the better ones covers.
-/
inductive GreedyWalk
    (cpu ppm remaining : Int) :
    Int → List FillableOrder → List FillableOrder → Prop where
  | nil
      (free : Int) :
      GreedyWalk cpu ppm remaining free [] []
  | skip
      {free covered : Int}
      {order : FillableOrder}
      {rest listed : List FillableOrder}
      (hMost :
        IsGreatest {n | CoveredUnits free cpu ppm remaining n}
          covered)
      (hNone : min order.units covered ≤ 0)
      (hRest : GreedyWalk cpu ppm remaining free rest listed) :
      GreedyWalk cpu ppm remaining free (order :: rest) listed
  | list
      {free covered need : Int}
      {order : FillableOrder}
      {rest listed : List FillableOrder}
      (hMost :
        IsGreatest {n | CoveredUnits free cpu ppm remaining n}
          covered)
      (hSome : 0 < min order.units covered)
      (hNeed :
        collateralWithRent (min order.units covered) cpu ppm
          remaining = .ok need)
      (hRest :
        GreedyWalk cpu ppm remaining (free - need) rest
          listed) :
      GreedyWalk cpu ppm remaining free (order :: rest)
        (order.withUnits (min order.units covered) :: listed)

/- The balances that the fills of the listed units lock. -/
def Needs
    (cpu ppm remaining : Int)
    (listed : List FillableOrder)
    (needs : List Int) : Prop :=
  List.Forall₂
    (fun o need =>
      collateralWithRent o.units cpu ppm remaining = .ok need)
    listed needs

variable {cpu : Int} {offers : List FillableOrder}
variable {listed : List FillableOrder}

/- Together they stay inside the balance. -/
theorem GreedyWalk.needs_le
    {ppm remaining free : Int}
    (hCpu : 0 < cpu)
    (hRemaining : 0 ≤ remaining)
    (hFree : 0 ≤ free)
    (h : GreedyWalk cpu ppm remaining free offers listed) :
    ∃ needs, Needs cpu ppm remaining listed needs ∧
      needs.sum ≤ free := by
  induction h with
  | nil free => exact ⟨[], .nil, by simpa using hFree⟩
  | skip hMost hNone hRest ih => exact ih hFree
  | @list free covered need order rest listed hMost hSome
      hNeed hRest ih =>
      have hLe :=
        collateralWithRent_le_of_covered hRemaining hCpu
          hMost.1 hSome (min_le_right _ _) hNeed
      rcases ih (by omega) with ⟨needs, hNeeds, hSum⟩
      refine ⟨need :: needs, .cons hNeed hNeeds, ?_⟩
      rw [List.sum_cons]
      omega

/- A writer whose balance backs nothing lists nothing. -/
theorem GreedyWalk.of_nothing
    {ppm remaining free : Int}
    (hMost :
      IsGreatest {n | CoveredUnits free cpu ppm remaining n}
        0)
    (offers : List FillableOrder) :
    GreedyWalk cpu ppm remaining free offers [] := by
  induction offers with
  | nil => exact .nil free
  | cons order rest ih =>
      exact .skip hMost (min_le_right _ _) ih

theorem GreedyWalk.of_nil
    {ppm remaining free : Int}
    (h : GreedyWalk cpu ppm remaining free [] listed) :
    listed = [] := by
  cases h
  rfl

variable {input : BookInput}

def ofWriter
    (writer : String)
    (order : FillableOrder) : Bool :=
  decide (makerKey order.maker = makerKey writer)

theorem freeOf_eq_of_key
    {maker writer : String}
    (h : makerKey maker = makerKey writer) :
    input.freeOf maker = input.freeOf writer := by
  unfold BookInput.freeOf
  rw [h]

/- What is left of a writer's balance inside the walk. -/
def BookInput.leftOf
    (input : BookInput)
    (left : OrderedMap String Int)
    (writer : String) : Int :=
  left.getD (makerKey writer) (input.freeOf writer)

variable {left : OrderedMap String Int}

theorem leftOf_set
    {maker writer : String}
    {rest : Int} :
    input.leftOf (left.set (makerKey maker) rest) writer =
      if makerKey maker = makerKey writer then rest
      else input.leftOf left writer :=
  OrderedMap.getD_set _ _ _ _ _

/- One order of the walk, read off a walk that succeeded. -/
theorem walkWrites_cons_cases
    {order : FillableOrder}
    {rest : List FillableOrder}
    (hLife : 0 ≤ input.life)
    (h :
      walkWrites input cpu left (order :: rest) =
        .ok listed) :
    ∃ covered,
      IsGreatest
          {n |
            CoveredUnits (input.leftOf left order.maker) cpu
              input.series.mintFeePpm input.life n}
          covered ∧
        ((min order.units covered ≤ 0 ∧
            walkWrites input cpu left rest = .ok listed) ∨
          (0 < min order.units covered ∧
            ∃ need listed',
              collateralWithRent (min order.units covered)
                  cpu input.series.mintFeePpm input.life =
                .ok need ∧
              walkWrites input cpu
                  (left.set (makerKey order.maker)
                    (input.leftOf left order.maker - need))
                  rest =
                .ok listed' ∧
              listed =
                order.withUnits (min order.units covered) ::
                  listed')) := by
  have hLeft :
      left.getD (makerKey order.maker)
          (input.freeOf order.maker) =
        input.leftOf left order.maker := rfl
  rw [walkWrites] at h
  simp only [hLeft] at h
  cases hCovered :
      rentCapacity (input.leftOf left order.maker) cpu
        input.series.mintFeePpm input.life maxUnits with
  | error e =>
      rw [hCovered] at h
      cases h
  | ok covered =>
      rw [hCovered] at h
      have hMost := (rentCapacity_isGreatest hLife hCovered).2.2
      have hMin :
          (if order.units < covered then order.units
            else covered) = min order.units covered := by
        omega
      simp only [hMin] at h
      refine ⟨covered, hMost, ?_⟩
      split at h
      · next hNone => exact .inl ⟨hNone, h⟩
      · next hSome =>
          right
          refine ⟨not_le.mp hSome, ?_⟩
          cases hNeed :
              collateralWithRent (min order.units covered)
                cpu input.series.mintFeePpm
                input.life with
          | error e =>
              rw [hNeed] at h
              cases h
          | ok need =>
              rw [hNeed] at h
              simp only at h
              cases hRest :
                  walkWrites input cpu
                    (left.set (makerKey order.maker)
                      (input.leftOf left order.maker -
                        need)) rest with
              | error e =>
                  rw [hRest] at h
                  cases h
              | ok listed' =>
                  rw [hRest] at h
                  cases h
                  exact ⟨need, listed', rfl, hRest, rfl⟩

/-
  Seen by one writer, the walk over everybody's asks is the
  greedy walk over its own: the others never touch its budget.
-/
theorem walkWrites_greedy
    (hLife : 0 ≤ input.life)
    (writer : String)
    (h : walkWrites input cpu left offers = .ok listed) :
    GreedyWalk cpu input.series.mintFeePpm input.life
      (input.leftOf left writer)
      (offers.filter (ofWriter writer))
      (listed.filter (ofWriter writer)) := by
  induction offers generalizing left listed with
  | nil =>
      cases h
      exact .nil _
  | cons order rest ih =>
      rcases walkWrites_cons_cases hLife h with
        ⟨covered, hMost, ⟨hNone, hRest⟩ |
          ⟨hSome, need, listed', hNeed, hRest, rfl⟩⟩
      · have hTail := ih hRest
        rcases Decidable.em
            (makerKey order.maker = makerKey writer) with
          hMine | hOther
        · rw [List.filter_cons_of_pos (by
            simp [ofWriter, hMine])]
          have hSame :
              input.leftOf left order.maker =
                input.leftOf left writer := by
            unfold BookInput.leftOf
            rw [hMine, freeOf_eq_of_key hMine]
          rw [hSame] at hMost
          exact .skip hMost hNone hTail
        · rw [List.filter_cons_of_neg (by
            simp [ofWriter, hOther])]
          exact hTail
      · have hTail := ih hRest
        rw [leftOf_set] at hTail
        rcases Decidable.em
            (makerKey order.maker = makerKey writer) with
          hMine | hOther
        · have hSame :
              input.leftOf left order.maker =
                input.leftOf left writer := by
            unfold BookInput.leftOf
            rw [hMine, freeOf_eq_of_key hMine]
          rw [if_pos hMine, hSame] at hTail
          rw [hSame] at hMost
          rw [List.filter_cons_of_pos (by
              simp [ofWriter, hMine]),
            List.filter_cons_of_pos (by
              simp [ofWriter, FillableOrder.withUnits,
                hMine])]
          exact .list hMost hSome hNeed hTail
        · rw [if_neg hOther] at hTail
          rw [List.filter_cons_of_neg (by
              simp [ofWriter, hOther]),
            List.filter_cons_of_neg (by
              simp [ofWriter, FillableOrder.withUnits,
                hOther])]
          exact hTail

/- What the walk lists is what it walks, with units cut. -/
theorem walkWrites_sublist
    (hLife : 0 ≤ input.life)
    (h : walkWrites input cpu left offers = .ok listed) :
    (listed.map (fun o => o.withUnits 0)).Sublist
      (offers.map (fun o => o.withUnits 0)) := by
  induction offers generalizing left listed with
  | nil =>
      cases h
      exact List.Sublist.refl _
  | cons order rest ih =>
      rcases walkWrites_cons_cases hLife h with
        ⟨covered, _, ⟨_, hRest⟩ |
          ⟨_, need, listed', _, hRest, rfl⟩⟩
      · exact (ih hRest).cons _
      · exact (ih hRest).cons_cons _

end

----
-- Every Shuffle of the Orders
----

section

variable {input : BookInput} {cpu : Int}

/- The parts of an open book that was returned. -/
theorem aggregateBook_ok_iff
    (hOpen : input.closed = false)
    {book : AggregatedBook} :
    aggregateBook input = .ok book ↔
      ∃ cpu listed,
        collateralPerUnit input.series.isPut
            input.series.strike = .ok cpu ∧
          (∀ order ∈ input.orders, input.Priced cpu order) ∧
          walkWrites input cpu OrderedMap.empty
              (sortOrders false
                (input.collected cpu).writes) =
            .ok listed ∧
          book = input.book (input.collected cpu) listed := by
  unfold aggregateBook
  rw [hOpen, if_neg (by decide)]
  cases hCpu :
      collateralPerUnit input.series.isPut
        input.series.strike with
  | error e => simp
  | ok cpu =>
      simp only [Except.ok.injEq, exists_and_left,
        exists_eq_left']
      cases hCollect :
          collectOrders input cpu Collected.empty
            input.orders with
      | error e =>
          constructor
          · intro h
            cases h
          · rintro ⟨hPriced, _⟩
            have hOk :
                collectOrders input cpu Collected.empty
                    input.orders =
                  .ok (input.collected cpu) :=
              (collectOrders_ok_iff _).mpr ⟨hPriced, rfl⟩
            rw [hCollect] at hOk
            cases hOk
      | ok all =>
          rcases (collectOrders_ok_iff _).mp hCollect with
            ⟨hPriced, hAll⟩
          have hAll' : all = input.collected cpu := hAll
          subst hAll'
          simp only
          cases hWalk :
              walkWrites input cpu OrderedMap.empty
                (sortOrders false
                  (input.collected cpu).writes) with
          | error e => simp
          | ok listed =>
              simp only [Except.ok.injEq, exists_eq_left']
              exact
                ⟨fun h => ⟨hPriced, h.symm⟩,
                  fun h => h.2.symm⟩

theorem offered_eq_some
    {order : BookOrder}
    {offer : FillableOrder}
    (h : input.offered cpu order = some offer) :
    input.writes order = true ∧
      ∃ whole,
        input.capacityOf cpu (input.freeOf order.maker) =
            .ok whole ∧
          0 < whole ∧ offer = input.offer order whole := by
  unfold BookInput.offered at h
  split at h
  · next hWrites =>
      refine ⟨hWrites, ?_⟩
      cases hWhole :
          input.capacityOf cpu
            (input.freeOf order.maker) with
      | error e =>
          rw [hWhole] at h
          cases h
      | ok whole =>
          rw [hWhole] at h
          simp only at h
          split at h
          · cases h
          · next hSome =>
              cases h
              exact ⟨whole, rfl, not_le.mp hSome, rfl⟩
  · cases h

theorem offered_orderId
    (order : BookOrder)
    (offer : FillableOrder)
    (h : input.offered cpu order = some offer) :
    offer.orderId = order.orderId := by
  rcases offered_eq_some h with ⟨_, _, _, _, rfl⟩
  rfl

theorem escrowedOf_orderId
    (kind : BookKind)
    (order : BookOrder)
    (listed : FillableOrder)
    (h : input.escrowedOf kind order = some listed) :
    listed.orderId = order.orderId := by
  rw [(escrowedOf_eq_some h).2]
  rfl

/- No order is listed twice. -/
def BookInput.DistinctIds
    (input : BookInput) : Prop :=
  (input.orders.map (fun o => o.orderId)).Nodup

theorem offered_ids_nodup
    (cpu : Int)
    (hIds : input.DistinctIds) :
    ((input.collected cpu).writes.map
      (fun o => o.orderId)).Nodup := by
  rw [collected_eq]
  exact hIds.sublist
    (ids_filterMap_sublist offered_orderId _)

theorem escrowed_ids_nodup
    (hIds : input.DistinctIds)
    (kind : BookKind) :
    ((input.orders.filterMap (input.escrowedOf kind)).map
      (fun o => o.orderId)).Nodup :=
  hIds.sublist
    (ids_filterMap_sublist (escrowedOf_orderId kind) _)

/- The ask side holds an order once, escrowed or written. -/
theorem ask_ids_nodup
    (hIds : input.DistinctIds)
    {listed : List FillableOrder}
    (hListed :
      (listed.map (fun o => o.orderId)).Subperm
        ((input.collected cpu).writes.map
          (fun o => o.orderId))) :
    (((input.collected cpu).asks ++ listed).map
      (fun o => o.orderId)).Nodup := by
  have hWrites := offered_ids_nodup cpu hIds
  have hAsks := escrowed_ids_nodup hIds .AskResale
  rw [List.map_append, List.nodup_append]
  rw [collected_eq] at hListed hWrites ⊢
  refine ⟨hAsks, ?_, ?_⟩
  · rcases hListed with ⟨mid, hPerm, hSub⟩
    exact (hPerm.nodup_iff).mp (hWrites.sublist hSub)
  · intro a ha b hb hSame
    rcases List.mem_map.mp ha with ⟨x, hx, rfl⟩
    rcases List.mem_map.mp (hListed.subset hb) with
      ⟨y, hy, rfl⟩
    rcases List.mem_filterMap.mp hx with ⟨o, ho, hAsk⟩
    rcases List.mem_filterMap.mp hy with ⟨o', ho', hWrite⟩
    rw [escrowedOf_orderId _ _ _ hAsk,
      offered_orderId _ _ hWrite] at hSame
    have hOne := List.inj_on_of_nodup_map hIds ho ho' hSame
    subst hOne
    have hKind := (escrowedOf_eq_some hAsk).1
    have hWrites := (offered_eq_some hWrite).1
    simp [BookInput.writes, hKind] at hWrites

/- What the writers' walk makes of the collected writes. -/
def BookInput.Lists
    (input : BookInput)
    (cpu : Int)
    (listed : List FillableOrder) : Prop :=
  walkWrites input cpu OrderedMap.empty
      (sortOrders false (input.collected cpu).writes) =
    .ok listed

theorem listed_ids_subperm
    (hLife : 0 ≤ input.life)
    {listed : List FillableOrder}
    (hWalk : input.Lists cpu listed) :
    (listed.map (fun o => o.orderId)).Subperm
      ((input.collected cpu).writes.map
        (fun o => o.orderId)) := by
  have hSub :=
    (walkWrites_sublist hLife hWalk).map
      (fun o => o.orderId)
  rw [List.map_map, List.map_map] at hSub
  exact hSub.subperm.trans
    ((sortOrders_perm false _).map _).subperm

theorem foldl_laterBlock_perm
    {orders orders' : List FillableOrder}
    (h : orders'.Perm orders)
    (updatedBlock : Int) :
    orders'.foldl laterBlock updatedBlock =
      orders.foldl laterBlock updatedBlock := by
  have hComm : RightCommutative laterBlock :=
    ⟨by
      intro b o o'
      unfold laterBlock
      split_ifs <;> omega⟩
  exact h.foldl_eq updatedBlock

def BookInput.shuffled
    (input : BookInput)
    (orders : List BookOrder) : BookInput :=
  { input with orders := orders }

/- The walk reads balances and the series, never the orders. -/
theorem walkWrites_shuffled
    (orders : List BookOrder)
    (left : OrderedMap String Int)
    (offers : List FillableOrder) :
    walkWrites (input.shuffled orders) cpu left offers =
      walkWrites input cpu left offers := by
  induction offers generalizing left with
  | nil => rfl
  | cons order rest ih =>
      simp only [walkWrites, ih]
      rfl

theorem levels_eq_of_perm
    {descending : Bool}
    {orders orders' : List FillableOrder}
    (hIds : (orders.map (fun o => o.orderId)).Nodup)
    (hPerm : orders'.Perm orders) :
    levels descending orders' = levels descending orders := by
  unfold levels
  rw [sortOrders_eq_of_perm hIds hPerm]

/- A book that is returned is returned for every shuffle. -/
theorem aggregateBook_shuffled
    {orders : List BookOrder}
    (hIds : input.DistinctIds)
    (hPerm : orders.Perm input.orders)
    {book : AggregatedBook}
    (h : aggregateBook input = .ok book) :
    aggregateBook (input.shuffled orders) = .ok book := by
  cases hOpen : input.closed with
  | true =>
      have hOpen' : (input.shuffled orders).closed = true := hOpen
      unfold aggregateBook at *
      rw [hOpen, if_pos rfl] at h
      rw [hOpen', if_pos rfl]
      exact h
  | false =>
      have hLife := (life_pos hOpen).le
      rcases (aggregateBook_ok_iff hOpen).mp h with
        ⟨cpu, listed, hCpu, hPriced, hWalk, rfl⟩
      have hListed := listed_ids_subperm hLife hWalk
      have hAskIds := ask_ids_nodup hIds hListed
      have hWriteIds := offered_ids_nodup cpu hIds
      have hOpen' : (input.shuffled orders).closed = false :=
        hOpen
      rw [aggregateBook_ok_iff hOpen']
      refine ⟨cpu, listed, hCpu, ?_, ?_, ?_⟩
      · intro order hOrder
        exact hPriced order (hPerm.subset hOrder)
      · rw [walkWrites_shuffled, ← hWalk]
        congr 1
        rw [collected_eq] at hWriteIds ⊢
        rw [collected_eq]
        exact sortOrders_eq_of_perm hWriteIds
          (hPerm.filterMap _)
      · rw [collected_eq] at hAskIds ⊢
        rw [collected_eq]
        unfold BookInput.book
        simp only [AggregatedBook.mk.injEq]
        refine ⟨?_, ?_, ?_, rfl⟩
        · exact congrArg _
            (levels_eq_of_perm (escrowed_ids_nodup hIds .Bid)
              (hPerm.filterMap _)).symm
        · exact congrArg _
            (levels_eq_of_perm hAskIds
              ((hPerm.filterMap _).append_right _)).symm
        · exact congrArg
            (fun b => listed.foldl laterBlock b)
            (foldl_laterBlock_perm (hPerm.filterMap _)
              0).symm

end

----
-- What the Book Shows
----

variable {input : BookInput} {cpu : Int}

def AggregatedBook.bidOrders
    (book : AggregatedBook) : List FillableOrder :=
  book.bids.flatMap (fun l => l.orders)

def AggregatedBook.askOrders
    (book : AggregatedBook) : List FillableOrder :=
  book.asks.flatMap (fun l => l.orders)

/- The write-on-fill asks of one writer, as listed. -/
def AggregatedBook.writesOf
    (book : AggregatedBook)
    (writer : String) : List FillableOrder :=
  book.askOrders.filter
    (fun o => decide (o.kind = .AskWrite) && ofWriter writer o)

/- Every live ask of the writer that passes the gates. -/
def BookInput.offersOf
    (input : BookInput)
    (whole : Int)
    (writer : String) : List FillableOrder :=
  (input.orders.filter
    (fun o =>
      input.writes o &&
        decide (makerKey o.maker = makerKey writer))).map
    (fun o => input.offer o whole)

/-
  What an open book shows: the escrowed orders whole, of each
  writer what one walk of its balance backs, and nothing else.
-/
structure BookInput.Serves
    (input : BookInput)
    (cpu : Int)
    (book : AggregatedBook) : Prop where
  bids :
    book.bidOrders.Perm
      (input.orders.filterMap (input.escrowedOf .Bid))
  resales :
    (book.askOrders.filter
        (fun o => decide (o.kind = .AskResale))).Perm
      (input.orders.filterMap (input.escrowedOf .AskResale))
  asks :
    ∀ o ∈ book.askOrders,
      o.kind = .AskResale ∨ o.kind = .AskWrite
  walks :
    ∀ writer, ∃ whole,
      GreedyWalk cpu input.series.mintFeePpm input.life
        (input.freeOf writer)
        (sortOrders false (input.offersOf whole writer))
        (book.writesOf writer)
  budgets :
    ∀ writer,
      book.writesOf writer ≠ [] ∨ 0 ≤ input.freeOf writer →
        ∃ needs,
          Needs cpu input.series.mintFeePpm input.life
              (book.writesOf writer) needs ∧
            needs.sum ≤ input.freeOf writer
  bidLevels : IsLevels true book.bids
  askLevels : IsLevels false book.asks

theorem ofWriter_offer
    {order : BookOrder}
    {whole : Int}
    {writer : String} :
    ofWriter writer (input.offer order whole) =
      decide (makerKey order.maker = makerKey writer) := rfl

variable {writer : String}

/- A live ask's writer is offered all of it or none of it. -/
theorem filter_offered_eq
    {whole : Int}
    (hWhole :
      input.capacityOf cpu (input.freeOf writer) = .ok whole)
    (orders : List BookOrder) :
    (orders.filterMap (input.offered cpu)).filter
        (ofWriter writer) =
      if whole ≤ 0 then []
      else
        (orders.filter
          (fun o =>
            input.writes o &&
              decide
                (makerKey o.maker = makerKey writer))).map
          (fun o => input.offer o whole) := by
  induction orders with
  | nil => simp
  | cons order rest ih =>
      rw [List.filterMap_cons, List.filter_cons]
      rcases Decidable.em
          (input.writes order = true ∧
            makerKey order.maker = makerKey writer) with
        ⟨hWrites, hMine⟩ | hSkip
      · have hOffered :
            input.offered cpu order =
              if whole ≤ 0 then none
              else some (input.offer order whole) := by
          unfold BookInput.offered
          rw [if_pos hWrites, freeOf_eq_of_key hMine, hWhole]
        have hOf :
            ofWriter writer (input.offer order whole) =
              true := by
          rw [ofWriter_offer]
          exact decide_eq_true hMine
        rw [hOffered, hWrites, decide_eq_true hMine]
        rcases le_or_gt whole 0 with hNone | hSome
        · simp only [if_pos hNone] at ih ⊢
          exact ih
        · rw [if_neg (not_le.mpr hSome)] at ih ⊢
          simp only [Bool.and_self, if_true,
            List.map_cons]
          rw [List.filter_cons_of_pos hOf, ih,
            if_neg (not_le.mpr hSome)]
      · have hKeep :
            (input.writes order &&
              decide
                (makerKey order.maker = makerKey writer)) =
              false := by
          simpa using hSkip
        rw [hKeep]
        simp only [Bool.false_eq_true, if_false]
        rw [← ih]
        cases hOffered : input.offered cpu order with
        | none => rfl
        | some offer =>
            rcases offered_eq_some hOffered with
              ⟨hWrites, _, _, _, rfl⟩
            apply List.filter_cons_of_neg
            intro hOf
            rw [ofWriter_offer] at hOf
            exact hSkip ⟨hWrites, of_decide_eq_true hOf⟩

/- No writer of a live ask: nothing to walk, nothing walked. -/
theorem offersOf_eq_nil
    (cpu whole : Int)
    (hNone :
      ∀ o ∈ input.orders, input.writes o = true →
        makerKey o.maker ≠ makerKey writer) :
    input.offersOf whole writer = [] ∧
      (input.orders.filterMap (input.offered cpu)).filter
        (ofWriter writer) = [] := by
  constructor
  · unfold BookInput.offersOf
    rw [List.map_eq_nil_iff, List.filter_eq_nil_iff]
    intro o ho
    simpa using hNone o ho
  · rw [List.filter_eq_nil_iff]
    intro x hx
    rcases List.mem_filterMap.mp hx with ⟨o, ho, hSome⟩
    rcases offered_eq_some hSome with ⟨hWrites, _, _, _, rfl⟩
    rw [ofWriter_offer]
    simpa using hNone o ho hWrites

variable {listed : List FillableOrder}

/- The walk of all asks, at one writer's own asks. -/
theorem walk_of_writer
    (hIds : input.DistinctIds)
    (hLife : 0 ≤ input.life)
    (hPriced :
      ∀ order ∈ input.orders, input.Priced cpu order)
    (hWalk : input.Lists cpu listed)
    (writer : String) :
    ∃ whole,
      GreedyWalk cpu input.series.mintFeePpm input.life
        (input.freeOf writer)
        (sortOrders false (input.offersOf whole writer))
        (listed.filter (ofWriter writer)) := by
  have hGreedy := walkWrites_greedy hLife writer hWalk
  have hLeft :
      input.leftOf OrderedMap.empty writer =
        input.freeOf writer := rfl
  rw [hLeft, sortOrders_filter (offered_ids_nodup cpu hIds),
    collected_eq] at hGreedy
  simp only at hGreedy
  rcases Decidable.em
      (∃ o ∈ input.orders,
        input.writes o = true ∧
          makerKey o.maker = makerKey writer) with
    ⟨o, ho, hWrites, hMine⟩ | hNone
  · rcases hPriced o ho hWrites with ⟨whole, hWhole⟩
    rw [freeOf_eq_of_key hMine] at hWhole
    refine ⟨whole, ?_⟩
    rw [filter_offered_eq hWhole] at hGreedy
    have hMost := (rentCapacity_isGreatest hLife hWhole).2.2
    split at hGreedy
    · next hNothing =>
        -- Every offer of the writer is passed over.
        have hZero : whole = 0 := le_antisymm hNothing hMost.1.1
        have hListed : listed.filter (ofWriter writer) = [] :=
          hGreedy.of_nil
        rw [hListed]
        rw [hZero] at hMost
        exact GreedyWalk.of_nothing hMost _
    · exact hGreedy
  · have hNone' :
        ∀ o ∈ input.orders, input.writes o = true →
          makerKey o.maker ≠ makerKey writer :=
      fun o ho hWrites hMine =>
        hNone ⟨o, ho, hWrites, hMine⟩
    rcases offersOf_eq_nil cpu 0 hNone' with
      ⟨hOffers, hOffered⟩
    refine ⟨0, ?_⟩
    rw [hOffered] at hGreedy
    rw [hOffers]
    exact hGreedy

/- No level of asks goes beyond the number of orders. -/
theorem asks_length_le
    (hIds : input.DistinctIds)
    (hListed :
      (listed.map (fun o => o.orderId)).Subperm
        ((input.collected cpu).writes.map
          (fun o => o.orderId))) :
    ((input.collected cpu).asks ++ listed).length ≤
      input.orders.length := by
  have hAskIds := ask_ids_nodup hIds hListed
  have hSubset :
      ((input.collected cpu).asks ++ listed).map
          (fun o => o.orderId) ⊆
        input.orders.map (fun o => o.orderId) := by
    intro id hId
    rw [List.map_append, List.mem_append] at hId
    rcases hId with hAsk | hWrite
    · rw [collected_eq] at hAsk
      exact
        (ids_filterMap_sublist (escrowedOf_orderId _)
          input.orders).subset hAsk
    · have hIn := hListed.subset hWrite
      rw [collected_eq] at hIn
      exact
        (ids_filterMap_sublist offered_orderId
          input.orders).subset hIn
  have hLength := (hAskIds.subperm hSubset).length_le
  rw [List.length_map, List.length_map] at hLength
  exact hLength

/- Cutting units moves no order in the walk. -/
theorem walkWrites_sorted
    (hLife : 0 ≤ input.life)
    {offers : List FillableOrder}
    (hWalk :
      walkWrites input cpu OrderedMap.empty
        (sortOrders false offers) = .ok listed) :
    listed.Pairwise (fun a b => compare a b false ≤ 0) := by
  have hOffers :
      ((sortOrders false offers).map
        (fun o => o.withUnits 0)).Pairwise
        (fun a b => compare a b false ≤ 0) := by
    rw [List.pairwise_map]
    exact sortOrders_sorted false offers
  have hListed := hOffers.sublist (walkWrites_sublist hLife hWalk)
  rw [List.pairwise_map] at hListed
  exact hListed

variable {o : FillableOrder}

/- What is listed was a live ask, up to its units. -/
theorem source_of_listed
    (hLife : 0 ≤ input.life)
    (hWalk : input.Lists cpu listed)
    (ho : o ∈ listed) :
    ∃ order ∈ input.orders,
      input.writes order = true ∧
        ∃ whole,
          (input.offer order whole).withUnits 0 =
            o.withUnits 0 := by
  have hMem :=
    (walkWrites_sublist hLife hWalk).subset
      (List.mem_map_of_mem ho)
  rcases List.mem_map.mp hMem with ⟨x, hx, hSame⟩
  have hOffered := (sortOrders_perm false _).subset hx
  rw [collected_eq] at hOffered
  rcases List.mem_filterMap.mp hOffered with
    ⟨order, hOrder, hSome⟩
  rcases offered_eq_some hSome with
    ⟨hWrites, whole, _, _, rfl⟩
  exact ⟨order, hOrder, hWrites, whole, hSame⟩

/- A writer that is listed was priced at its own balance. -/
theorem priced_of_listed
    (hLife : 0 ≤ input.life)
    (hPriced :
      ∀ order ∈ input.orders, input.Priced cpu order)
    (hWalk : input.Lists cpu listed)
    (ho : o ∈ listed) :
    0 ≤ input.freeOf o.maker ∧ 0 < cpu := by
  rcases source_of_listed hLife hWalk ho with
    ⟨order, hOrder, hWrites, whole, hSame⟩
  have hMaker : order.maker = o.maker :=
    congrArg (fun o => o.maker) hSame
  rcases hPriced order hOrder hWrites with ⟨k, hWhole⟩
  rw [hMaker] at hWhole
  have hCapacity := rentCapacity_isGreatest hLife hWhole
  exact ⟨hCapacity.1, hCapacity.2.1⟩

theorem budget_of_walk
    (hLife : 0 ≤ input.life)
    (hPriced :
      ∀ order ∈ input.orders, input.Priced cpu order)
    (hWalk : input.Lists cpu listed)
    (hSome :
      listed.filter (ofWriter writer) ≠ [] ∨
        0 ≤ input.freeOf writer)
    {offers : List FillableOrder}
    (hGreedy :
      GreedyWalk cpu input.series.mintFeePpm input.life
        (input.freeOf writer) offers
        (listed.filter (ofWriter writer))) :
    ∃ needs,
      Needs cpu input.series.mintFeePpm input.life
          (listed.filter (ofWriter writer)) needs ∧
        needs.sum ≤ input.freeOf writer := by
  cases hListed : listed.filter (ofWriter writer) with
  | nil =>
      rw [hListed] at hSome
      exact ⟨[], .nil, by simpa using hSome⟩
  | cons o rest =>
      have ho : o ∈ listed.filter (ofWriter writer) := by
        rw [hListed]
        exact List.mem_cons_self ..
      rcases List.mem_filter.mp ho with ⟨hIn, hMine⟩
      have hKey : makerKey o.maker = makerKey writer :=
        of_decide_eq_true hMine
      rcases priced_of_listed hLife hPriced hWalk hIn with
        ⟨hFree, hCpu⟩
      rw [freeOf_eq_of_key hKey] at hFree
      rw [← hListed]
      exact hGreedy.needs_le hCpu hLife hFree

theorem collected_asks_kind
    (ho : o ∈ (input.collected cpu).asks) :
    o.kind = .AskResale := by
  rw [collected_eq] at ho
  rcases List.mem_filterMap.mp ho with ⟨b, _, hSome⟩
  rcases escrowedOf_eq_some hSome with ⟨hKind, rfl⟩
  exact hKind

theorem listed_kind
    (hLife : 0 ≤ input.life)
    (hWalk : input.Lists cpu listed)
    (ho : o ∈ listed) :
    o.kind = .AskWrite := by
  rcases source_of_listed hLife hWalk ho with
    ⟨b, _, hWrites, whole, hSame⟩
  have hKind : b.kind = o.kind := congrArg (fun o => o.kind) hSame
  rw [← hKind]
  simp only [BookInput.writes, Bool.and_eq_true,
    decide_eq_true_eq] at hWrites
  exact hWrites.1.1

/- Full depth cuts nothing off either side. -/
theorem book_bids_eq
    (cpu : Int)
    (hDepth :
      (input.orders.length : Int) ≤ input.depthLimit)
    (listed : List FillableOrder) :
    (input.book (input.collected cpu) listed).bids =
      levels true (input.collected cpu).bids := by
  apply List.take_of_length_le
  have hLevels := length_levels_le true (input.collected cpu).bids
  have hSome :
      (input.collected cpu).bids.length ≤
        input.orders.length := by
    rw [collected_eq]
    exact List.length_filterMap_le _ _
  omega

theorem book_asks_eq
    (hIds : input.DistinctIds)
    (hDepth :
      (input.orders.length : Int) ≤ input.depthLimit)
    (hListed :
      (listed.map (fun o => o.orderId)).Subperm
        ((input.collected cpu).writes.map
          (fun o => o.orderId))) :
    (input.book (input.collected cpu) listed).asks =
      levels false ((input.collected cpu).asks ++ listed) := by
  apply List.take_of_length_le
  have hLevels :=
    length_levels_le false
      ((input.collected cpu).asks ++ listed)
  have hShort := asks_length_le hIds hListed
  omega

/- A writer's asks stand in the book as the walk left them. -/
theorem filter_writes_of
    (hIds : input.DistinctIds)
    (hLife : 0 ≤ input.life)
    (hWalk : input.Lists cpu listed)
    (writer : String) :
    (sortOrders false
        ((input.collected cpu).asks ++ listed)).filter
        (fun o =>
          decide (o.kind = .AskWrite) && ofWriter writer o) =
      listed.filter (ofWriter writer) := by
  have hAskIds :=
    ask_ids_nodup hIds (listed_ids_subperm hLife hWalk)
  have hNone :
      (input.collected cpu).asks.filter
          (fun o =>
            decide (o.kind = .AskWrite) &&
              ofWriter writer o) = [] := by
    rw [List.filter_eq_nil_iff]
    intro o ho
    simp [collected_asks_kind ho]
  have hOnly :
      listed.filter
          (fun o =>
            decide (o.kind = .AskWrite) &&
              ofWriter writer o) =
        listed.filter (ofWriter writer) := by
    apply List.filter_congr
    intro o ho
    simp [listed_kind hLife hWalk ho]
  have hListedIds : (listed.map (fun o => o.orderId)).Nodup :=
    hAskIds.sublist ((List.sublist_append_right _ _).map _)
  rw [sortOrders_filter hAskIds, List.filter_append, hNone,
    hOnly, List.nil_append]
  symm
  apply eq_sortOrders
  · exact hListedIds.sublist (List.filter_sublist.map _)
  · exact List.Perm.refl _
  · exact (walkWrites_sorted hLife hWalk).filter _

theorem filter_resales
    (hLife : 0 ≤ input.life)
    (hWalk : input.Lists cpu listed) :
    ((input.collected cpu).asks ++ listed).filter
        (fun o => decide (o.kind = .AskResale)) =
      (input.collected cpu).asks := by
  have hNone :
      listed.filter
          (fun o => decide (o.kind = .AskResale)) = [] := by
    rw [List.filter_eq_nil_iff]
    intro o ho
    simp [listed_kind hLife hWalk ho]
  have hAll :
      (input.collected cpu).asks.filter
          (fun o => decide (o.kind = .AskResale)) =
        (input.collected cpu).asks := by
    rw [List.filter_eq_self]
    intro o ho
    simp [collected_asks_kind ho]
  rw [List.filter_append, hNone, hAll, List.append_nil]

/- An open book that is returned shows what it should. -/
theorem serves_of_ok
    (hOpen : input.closed = false)
    (hIds : input.DistinctIds)
    (hDepth :
      (input.orders.length : Int) ≤ input.depthLimit)
    {book : AggregatedBook}
    (h : aggregateBook input = .ok book) :
    ∃ cpu,
      collateralPerUnit input.series.isPut
          input.series.strike = .ok cpu ∧
        input.Serves cpu book := by
  have hLife := (life_pos hOpen).le
  rcases (aggregateBook_ok_iff hOpen).mp h with
    ⟨cpu, listed, hCpu, hPriced, hWalk, rfl⟩
  refine ⟨cpu, hCpu, ?_⟩
  have hBids := book_bids_eq cpu hDepth listed
  have hAsks :=
    book_asks_eq hIds hDepth (listed_ids_subperm hLife hWalk)
  have hAskOrders :
      (input.book (input.collected cpu) listed).askOrders =
        sortOrders false
          ((input.collected cpu).asks ++ listed) := by
    unfold AggregatedBook.askOrders
    rw [hAsks, levels_orders]
  have hWritesOf :
      ∀ writer,
        (input.book (input.collected cpu) listed).writesOf
            writer =
          listed.filter (ofWriter writer) := by
    intro writer
    unfold AggregatedBook.writesOf
    rw [hAskOrders, filter_writes_of hIds hLife hWalk]
  have hWalks := walk_of_writer hIds hLife hPriced hWalk
  refine ⟨?_, ?_, ?_, ?_, ?_, ?_, ?_⟩
  · unfold AggregatedBook.bidOrders
    rw [hBids, levels_orders]
    have hPerm := sortOrders_perm true (input.collected cpu).bids
    rw [collected_eq] at hPerm ⊢
    exact hPerm
  · rw [hAskOrders]
    have hPerm :=
      (sortOrders_perm false
        ((input.collected cpu).asks ++ listed)).filter
        (fun o => decide (o.kind = .AskResale))
    rw [filter_resales hLife hWalk, collected_eq] at hPerm
    rw [collected_eq]
    exact hPerm
  · intro o ho
    rw [hAskOrders] at ho
    rcases List.mem_append.mp
        ((sortOrders_perm false _).subset ho) with
      hIn | hIn
    · exact .inl (collected_asks_kind hIn)
    · exact .inr (listed_kind hLife hWalk hIn)
  · intro writer
    rw [hWritesOf writer]
    exact hWalks writer
  · intro writer hSome
    rw [hWritesOf writer] at hSome ⊢
    rcases hWalks writer with ⟨whole, hGreedy⟩
    exact budget_of_walk hLife hPriced hWalk hSome hGreedy
  · rw [hBids]
    exact levels_isLevels true _
  · rw [hAsks]
    exact levels_isLevels false _

/- A book is returned for what its callers give it. -/
theorem aggregateBook_ok_of_served
    (h : input.Served cpu) :
    ∃ book, aggregateBook input = .ok book := by
  have hPriced : ∀ order ∈ input.orders, input.Priced cpu order :=
    fun order _ _ =>
      ⟨_, h.rentCapacity_eq (h.free_nonneg order.maker)⟩
  rcases walkWrites_ok h
      (sortOrders false (input.collected cpu).writes)
      (budgetsLeft_empty h) with ⟨listed, hWalk, _⟩
  exact
    ⟨_, (aggregateBook_ok_iff h.open_).mpr
      ⟨cpu, listed, h.cpu_eq, hPriced, hWalk, rfl⟩⟩

/-
  The served book at full depth: it is returned for what its
  callers give it, shows what the orders and the balances
  back, and does not depend on the order of the orders.
-/
theorem aggregateBook_serves
    (input : BookInput)
    (hIds : (input.orders.map (fun o => o.orderId)).Nodup)
    (hDepth :
      (input.orders.length : Int) ≤ input.depthLimit) :
    (∀ cpu, input.Served cpu →
        ∃ book, aggregateBook input = .ok book) ∧
      (∀ book, aggregateBook input = .ok book →
        (input.closed = true → book = input.empty) ∧
          (input.closed = false →
            ∃ cpu,
              collateralPerUnit input.series.isPut
                  input.series.strike = .ok cpu ∧
                input.Serves cpu book)) ∧
      (∀ orders, orders.Perm input.orders →
        ∀ book,
          aggregateBook (input.shuffled orders) =
              .ok book ↔
            aggregateBook input = .ok book) := by
  refine ⟨fun cpu h => aggregateBook_ok_of_served h, ?_, ?_⟩
  · intro book hBook
    refine ⟨?_, ?_⟩
    · intro hClosed
      unfold aggregateBook at hBook
      rw [hClosed, if_pos rfl] at hBook
      cases hBook
      rfl
    · intro hOpen
      exact serves_of_ok hOpen hIds hDepth hBook
  · intro orders hPerm book
    constructor
    · intro hShuffled
      have hIds' :
          ((input.shuffled orders).orders.map
            (fun o => o.orderId)).Nodup :=
        ((hPerm.map _).nodup_iff).mpr hIds
      exact aggregateBook_shuffled hIds' hPerm.symm hShuffled
    · intro hBook
      exact aggregateBook_shuffled hIds hPerm hBook

/- Two asks on one balance, beside a bid and a resale ask. -/
def sharedBalanceBook : BookInput :=
  let order : BookOrder :=
    { orderId := 1
      maker := "0xA"
      longId := 1
      kind := .AskWrite
      price := 100
      units := 3
      filled := 1
      validUntil := 0
      status := .open
      placedAt := 1
      placedBlock := 1 }
  { series :=
      { longId := 1
        isPut := true
        strike := 100
        mintCutoff := 8200
        mintFeePpm := 3000
        expiry := 10000
        status := .open }
    orders :=
      [{ order with orderId := 1, price := 120 },
        { order with orderId := 2 },
        { order with orderId := 3, kind := .Bid, price := 90 },
        { order with orderId := 4, kind := .AskResale }]
    freeByMaker := OrderedMap.empty.set "0xa" 6
    now := 10
    snapshotTimestamp := none
    marketEnabled := none
    mintPaused := none
    tradingPaused := none
    bookIsMinter := none
    operators := none
    depth := none }

theorem sharedBalanceBook_serves :
    (∃ book, aggregateBook sharedBalanceBook = .ok book) ∧
      ∀ book, aggregateBook sharedBalanceBook = .ok book →
        ∃ cpu, sharedBalanceBook.Serves cpu book := by
  have hBook :=
    aggregateBook_serves sharedBalanceBook (by decide)
      (by decide)
  refine ⟨?_, ?_⟩
  · have hSome :
        (aggregateBook sharedBalanceBook).toBool = true := by
      decide +kernel
    cases hBook : aggregateBook sharedBalanceBook with
    | error e =>
        rw [hBook] at hSome
        cases hSome
    | ok book => exact ⟨book, rfl⟩
  · intro book hOk
    rcases (hBook.2.1 book hOk).2 (by decide) with
      ⟨cpu, _, hServes⟩
    exact ⟨cpu, hServes⟩

end Callhouse.Indexer
