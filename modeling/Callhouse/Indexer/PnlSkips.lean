import Callhouse.Indexer.PnlClock
import Callhouse.Indexer.SelfTradeLots
import Callhouse.Lib.LockStep

/-
  indexer/src/v2/pnlInput.ts: the ticks of the PnL clock that
  are skipped are exactly those that change nothing.

  A skipped tick is compared with the full one: nothing is in
  its range, every link of an account is stored already, and
  no open lot has expired.

  Main declarations:
    * `linkPair`, `get?_edges`
    * `SelfTradeTables.Filed`, `Settled`
    * `Tracked`, `indexRun`, `IndexedInOrder`
    * `skips_change_nothing`
-/

----
-- Links That Are Stored
----

namespace Callhouse.Indexer.PnlClock

section

open SelfTrade

/- The pair that a linkage fact is filed under, if any. -/
def linkPair
    (excluded : String → Bool)
    (raw : String × String) : Option (String × String) :=
  if key raw.1 = key raw.2 ∨ excluded (key raw.1) = true ∨
      excluded (key raw.2) = true then none
  else some (orderedPair (key raw.1) (key raw.2))

theorem add_edges
    (excluded : String → Bool)
    (graph : Links)
    (raw : String × String) :
    (Links.add excluded graph raw).edges =
      match linkPair excluded raw with
      | none => graph.edges
      | some pair =>
          graph.edges.set pair
            { left := pair.1
              right := pair.2 } := by
  unfold Links.add linkPair
  simp only
  split <;> rfl

/- An edge is a pair that some fact is filed under. -/
theorem get?_edges
    (excluded : String → Bool)
    (raws : List (String × String))
    (pair : String × String)
    (row : SelfTradeLink) :
    (raws.foldl (Links.add excluded) Links.empty).edges.get?
        pair = some row ↔
      row = { left := pair.1, right := pair.2 } ∧
        ∃ raw ∈ raws, linkPair excluded raw = some pair := by
  induction raws using List.reverseRecOn with
  | nil => simp [Links.empty]
  | append_singleton raws raw ih =>
      rw [List.foldl_append, List.foldl_cons, List.foldl_nil,
        add_edges]
      simp only [List.mem_append, List.mem_singleton, or_and_right,
        exists_or, exists_eq_left]
      cases hPair : linkPair excluded raw with
      | none => simp [ih]
      | some other =>
          simp only
          rw [OrderedMap.get?_set]
          by_cases hSame : other = pair
          · rw [if_pos hSame]
            subst hSame
            simp [eq_comm]
          · rw [if_neg hSame, ih]
            simp [hSame]

variable {excluded : String → Bool}

/- What a pair is made of, once it is filed. -/
theorem linkPair_filed
    {raw pair : String × String}
    (h : linkPair excluded raw = some pair) :
    linkPair excluded pair = some pair ∧
      key pair.1 = pair.1 ∧ key pair.2 = pair.2 := by
  unfold linkPair at h
  split at h
  · cases h
  · next hLink =>
      rw [not_or, not_or] at hLink
      rcases hLink with ⟨hNe, hLeft, hRight⟩
      rw [← Option.some.inj h]
      unfold linkPair orderedPair
      by_cases hOrder : key raw.1 < key raw.2
      · simp [hOrder, hNe, hLeft, hRight]
      · have hOther : key raw.2 < key raw.1 :=
          lt_of_le_of_ne (not_lt.mp hOrder) (Ne.symm hNe)
        simp [hOrder, hOther, Ne.symm hNe, hLeft, hRight]

/- The links of the table, each filed under its own pair. -/
def LinksFiled
    (excluded : String → Bool)
    (links : OrderedMap (String × String) SelfTradeLink) :
    Prop :=
  ∀ pair row, links.get? pair = some row →
    row = { left := pair.1, right := pair.2 } ∧
      linkPair excluded pair = some pair

def LinkRow
    (excluded : String → Bool)
    (row : SelfTradeLink) : Prop :=
  linkPair excluded (row.left, row.right) =
    some (row.left, row.right)

variable {links : OrderedMap (String × String) SelfTradeLink}

theorem storeLink_filed
    (h : LinksFiled excluded links)
    {row : SelfTradeLink}
    (hRow : LinkRow excluded row) :
    LinksFiled excluded (storeLink links row) := by
  unfold storeLink
  simp only
  split
  · exact h
  · intro pair stored hGet
    rw [OrderedMap.get?_set] at hGet
    split at hGet
    · next hSame =>
        subst hSame
        rcases linkPair_filed hRow with ⟨_, hLeft, hRight⟩
        rw [← Option.some.inj hGet]
        refine ⟨?_, hRow⟩
        unfold key at hLeft hRight
        unfold address
        simp only at hLeft hRight
        rw [hLeft, hRight]
    · exact h pair stored hGet

theorem has_storeLink
    (links : OrderedMap (String × String) SelfTradeLink)
    (row : SelfTradeLink)
    (pair : String × String) :
    (storeLink links row).has pair = true ↔
      (row.left, row.right) = pair ∨ links.has pair = true := by
  unfold storeLink
  simp only
  split
  · next hHas =>
      constructor
      · exact .inr
      · rintro (rfl | h)
        · exact hHas
        · exact h
  · exact OrderedMap.has_set links _ _ pair

theorem storeLinks_filed
    (h : LinksFiled excluded links)
    {rows : List SelfTradeLink}
    (hRows : ∀ row ∈ rows, LinkRow excluded row) :
    LinksFiled excluded (rows.foldl storeLink links) := by
  induction rows generalizing links with
  | nil => exact h
  | cons row rest ih =>
      rcases List.forall_mem_cons.mp hRows with ⟨hRow, hRest⟩
      exact ih (storeLink_filed h hRow) hRest

theorem has_storeLinks
    (links : OrderedMap (String × String) SelfTradeLink)
    (rows : List SelfTradeLink)
    (pair : String × String) :
    (rows.foldl storeLink links).has pair = true ↔
      (∃ row ∈ rows, (row.left, row.right) = pair) ∨
        links.has pair = true := by
  induction rows generalizing links with
  | nil => simp
  | cons row rest ih =>
      rw [List.foldl_cons, ih, has_storeLink]
      simp only [List.mem_cons, exists_eq_or_imp]
      rw [or_left_comm, or_assoc]

/- Rows that each leave a table as it is. -/
theorem foldl_stays
    {T R : Type}
    {store : T → R → T}
    {table : T}
    {rows : List R}
    (h : ∀ row ∈ rows, store table row = table) :
    rows.foldl store table = table := by
  induction rows with
  | nil => rfl
  | cons row rest ih =>
      rcases List.forall_mem_cons.mp h with ⟨hRow, hRest⟩
      rw [List.foldl_cons, hRow]
      exact ih hRest

theorem storeLinks_stored
    {rows : List SelfTradeLink}
    (h : ∀ row ∈ rows, links.has (row.left, row.right) = true) :
    rows.foldl storeLink links = links := by
  apply foldl_stays
  intro row hRow
  unfold storeLink
  exact if_pos (h row hRow)

end

----
-- The Stored Lots
----

section

open SelfTrade

def LotsFiled
    (lots : OrderedMap String SelfTradeLot) : Prop :=
  ∀ id lot, lots.get? id = some lot → lot.id = id

/- A lot's row, as it is written. -/
def lotValues
    (row : SelfTradeLot) : SelfTradeLot :=
  { row with
    holder := address row.holder
    writer := row.writer.map address }

variable {old lots : OrderedMap String SelfTradeLot}

/- A row writes its lot, or has nothing new for it. -/
theorem storeLot_ok
    {lots' : OrderedMap String SelfTradeLot}
    {row : SelfTradeLot}
    (h : storeLot old lots row = .ok lots') :
    lots' = lots.set row.id (lotValues row) ∨
      lots' = lots ∧
        ∃ previous,
          old.get? row.id = some previous ∧
            previous.remaining = row.remaining := by
  unfold storeLot at h
  simp only at h
  cases hOld : old.get? row.id with
  | none =>
      rw [hOld] at h
      simp only at h
      split at h
      · cases h
      · cases h
        exact .inl rfl
  | some previous =>
      rw [hOld] at h
      simp only at h
      split at h
      · cases h
        exact .inl rfl
      · next hSame =>
          cases h
          exact .inr ⟨rfl, previous, rfl, not_not.mp hSame⟩

/- Where a lot of the table comes from, after its rows. -/
def LotWritten
    (old start : OrderedMap String SelfTradeLot)
    (rows : List SelfTradeLot)
    (id : String)
    (lot : SelfTradeLot) : Prop :=
  (∃ row ∈ rows, row.id = id ∧ lot = lotValues row) ∨
    start.get? id = some lot ∧
      ∀ row ∈ rows, row.id = id →
        ∃ previous,
          old.get? id = some previous ∧
            previous.remaining = row.remaining

variable {rows : List SelfTradeLot}

theorem storeLots_written
    {start : OrderedMap String SelfTradeLot}
    (h : rows.foldlM (storeLot old) start = .ok lots)
    {id : String}
    {lot : SelfTradeLot}
    (hLot : lots.get? id = some lot) :
    LotWritten old start rows id lot := by
  induction rows generalizing start with
  | nil =>
      cases h
      refine .inr ⟨hLot, ?_⟩
      intro row hRow
      cases hRow
  | cons row rest ih =>
      rw [List.foldlM_cons] at h
      cases hFirst : storeLot old start row with
      | error e =>
          rw [hFirst] at h
          cases h
      | ok middle =>
          rw [hFirst] at h
          rcases ih h with
            ⟨last, hLast, hId, hSame⟩ | ⟨hStart, hRest⟩
          · exact
              .inl ⟨last, List.mem_cons_of_mem _ hLast, hId,
                hSame⟩
          · rcases storeLot_ok hFirst with
              rfl | ⟨rfl, previous, hOld, hRemaining⟩
            · rw [OrderedMap.get?_set] at hStart
              split at hStart
              · next hId =>
                  exact
                    .inl ⟨row, List.mem_cons_self, hId,
                      (Option.some.inj hStart).symm⟩
              · next hId =>
                  refine .inr ⟨hStart, ?_⟩
                  intro other hOther hSame
                  rcases List.mem_cons.mp hOther with rfl | hIn
                  · exact absurd hSame hId
                  · exact hRest other hIn hSame
            · refine .inr ⟨hStart, ?_⟩
              intro other hOther hSame
              rcases List.mem_cons.mp hOther with rfl | hIn
              · exact ⟨previous, hSame ▸ hOld, hRemaining⟩
              · exact hRest other hIn hSame

theorem storeLots_filed
    {start : OrderedMap String SelfTradeLot}
    (hFiled : LotsFiled start)
    (h : rows.foldlM (storeLot old) start = .ok lots) :
    LotsFiled lots := by
  intro id lot hLot
  rcases storeLots_written h hLot with
    ⟨row, _, hId, rfl⟩ | ⟨hStart, _⟩
  · exact hId
  · exact hFiled id lot hStart

/- Rows that hold what their lots held before write nothing. -/
theorem storeLots_stored
    (h :
      ∀ row ∈ rows,
        ∃ previous,
          old.get? row.id = some previous ∧
            previous.remaining = row.remaining) :
    rows.foldlM (storeLot old) lots = .ok lots := by
  induction rows with
  | nil => rfl
  | cons row rest ih =>
      rcases List.forall_mem_cons.mp h with
        ⟨⟨previous, hOld, hSame⟩, hRest⟩
      have hFirst : storeLot old lots row = .ok lots := by
        unfold storeLot
        simp only
        rw [hOld]
        simp only
        rw [if_neg (not_not.mpr hSame)]
      rw [List.foldlM_cons, hFirst]
      exact ih hRest

end

----
-- The Earliest Expiry
----

section

open SelfTrade

/- An expiry is no earlier than the one that is recorded. -/
def NotBefore
    (next : Option Int)
    (expiry : Int) : Prop :=
  ∃ earliest, next = some earliest ∧ earliest ≤ expiry

variable {expiry : Int}

theorem earlierExpiry_le
    (expiries : List SeriesExpiry)
    {next : Option Int}
    (h : NotBefore next expiry)
    (lot : SelfTradeLot) :
    NotBefore (earlierExpiry expiries next lot) expiry := by
  rcases h with ⟨earliest, rfl, hLe⟩
  unfold earlierExpiry
  split
  · exact ⟨earliest, rfl, hLe⟩
  · cases expiryOf expiries lot.longId with
    | none => exact ⟨earliest, rfl, hLe⟩
    | some other =>
        simp only
        split
        · next hLess =>
            exact ⟨other, rfl, le_trans (le_of_lt hLess) hLe⟩
        · exact ⟨earliest, rfl, hLe⟩

theorem earlierExpiry_own
    {expiries : List SeriesExpiry}
    (next : Option Int)
    {lot : SelfTradeLot}
    (hOpen : lot.remaining ≠ 0)
    (hExpiry : expiryOf expiries lot.longId = some expiry) :
    NotBefore (earlierExpiry expiries next lot) expiry := by
  unfold earlierExpiry
  rw [if_neg hOpen, hExpiry]
  cases next with
  | none => exact ⟨expiry, rfl, le_refl _⟩
  | some earliest =>
      simp only
      split
      · exact ⟨expiry, rfl, le_refl _⟩
      · next hLe => exact ⟨earliest, rfl, not_lt.mp hLe⟩

theorem nextOpenLotExpiry_le
    {expiries : List SeriesExpiry}
    {lots : List SelfTradeLot}
    {lot : SelfTradeLot}
    (hLot : lot ∈ lots)
    (hOpen : lot.remaining ≠ 0)
    (hExpiry : expiryOf expiries lot.longId = some expiry) :
    NotBefore (nextOpenLotExpiry lots expiries) expiry := by
  unfold nextOpenLotExpiry
  induction lots using List.reverseRecOn with
  | nil => cases hLot
  | append_singleton lots last ih =>
      rw [List.foldl_append, List.foldl_cons, List.foldl_nil]
      rcases List.mem_append.mp hLot with hEarlier | hLast
      · exact earlierExpiry_le expiries (ih hEarlier) last
      · rw [List.mem_singleton] at hLast
        exact earlierExpiry_own _ (hLast ▸ hOpen) (hLast ▸ hExpiry)

end

----
-- What a Full Tick Leaves
----

section

open Reconcile SelfTrade

/- The addresses that are never linked to another. -/
def Env.excluded
    (env : Env) : String → Bool :=
  isExcluded
    { through := 0
      throughTimestamp := 0
      events := []
      linkEvidence := []
      seriesExpiries := []
      matchedTransferIds := []
      protocolAddresses := env.protocolAddresses }

/- What the clock's own writes keep of the tables. -/
structure SelfTradeTables.Filed
    (env : Env)
    (tables : SelfTradeTables) : Prop where
  links : LinksFiled env.excluded tables.links
  lots : LotsFiled tables.lots
  makers :
    ∀ writer, tables.makers.has writer = true →
      key writer = writer

/- What the last full tick has seen to, until the next write. -/
structure Settled
    (env : Env)
    (inputs : Inputs)
    (tables : SelfTradeTables)
    (next : Option Int) : Prop where
  links :
    ∀ row ∈ inputs.accounts, ∀ evidence ∈ accountLinks row,
      ∀ pair,
        linkPair env.excluded (evidence.left, evidence.right) =
            some pair →
          tables.links.has pair = true
  expiries :
    ∀ id lot expiry,
      tables.lots.get? id = some lot → lot.remaining ≠ 0 →
        expiryOf inputs.expiries lot.longId = some expiry →
          NotBefore next expiry

section Update

variable {env : Env} {inputs : Inputs} {rows : RangeRows}
variable {deliveries : Deliveries}
variable {tables tables' : SelfTradeTables}
variable {after through ts : Int}
variable {next : Option Int}

/- The reduction of a tick, and what is written of it. -/
theorem updateSelfTrade_ok
    (h :
      updateSelfTrade env inputs rows deliveries tables after
        through ts = .ok (tables', next)) :
    ∃ state,
      reduceSelfTrade env.locale (tables.state after)
          (selfTradeBatch env inputs rows deliveries through
            ts) = some state ∧
      state.lots.foldlM (storeLot tables.lots) tables.lots =
        .ok tables'.lots ∧
      tables'.links = state.links.foldl storeLink tables.links ∧
      tables'.makers =
        state.makers.foldl
          (storeMaker through ts (makerUnits tables.makers))
          tables.makers ∧
      next = nextOpenLotExpiry state.lots inputs.expiries := by
  unfold updateSelfTrade at h
  cases hReduce :
      reduceSelfTrade env.locale (tables.state after)
        (selfTradeBatch env inputs rows deliveries through
          ts) with
  | none =>
      rw [hReduce] at h
      cases h
  | some state =>
      rw [hReduce] at h
      simp only at h
      cases hLots :
          state.lots.foldlM (storeLot tables.lots)
            tables.lots with
      | error e =>
          rw [hLots] at h
          cases h
      | ok lots =>
          rw [hLots] at h
          cases h
          exact ⟨state, rfl, hLots, rfl, rfl, rfl⟩

/- The rows of the reduction's links, by the facts of a tick. -/
theorem mem_links
    {locale : SelfTrade.Locale}
    {state state' : SelfTradeState}
    {batch : SelfTradeBatch}
    (hAhead : state.cursor < batch.through)
    (h : reduceSelfTrade locale state batch = some state')
    (row : SelfTradeLink) :
    row ∈ state'.links ↔
      ∃ raw ∈ batchLinks locale state batch,
        linkPair (isExcluded batch) raw =
          some (row.left, row.right) := by
  rcases reduceSelfTrade_some hAhead h with
    ⟨_, _, hLinks, _⟩
  rw [hLinks, List.mem_insertionSort, OrderedMap.mem_values_iff]
  unfold batchGraph
  simp only [get?_edges]
  constructor
  · rintro ⟨pair, rfl, hRaw⟩
    exact hRaw
  · rintro hRaw
    exact ⟨(row.left, row.right), rfl, hRaw⟩

variable {makers : OrderedMap String StoredMaker}

theorem storeMaker_lower
    (old : OrderedMap String Int)
    (h :
      ∀ writer, makers.has writer = true → key writer = writer)
    (row : SelfTradeMaker) :
    ∀ writer,
      (storeMaker through ts old makers row).has writer = true →
        key writer = writer := by
  intro writer hHas
  unfold storeMaker at hHas
  split at hHas
  · exact h writer hHas
  · rcases (OrderedMap.has_set _ _ _ _).mp hHas with
      rfl | hOld
    · exact key_key row.writer
    · exact h writer hOld

theorem storeMakers_lower
    (old : OrderedMap String Int)
    (h :
      ∀ writer, makers.has writer = true → key writer = writer)
    (rows : List SelfTradeMaker) :
    ∀ writer,
      (rows.foldl (storeMaker through ts old) makers).has
          writer = true →
        key writer = writer := by
  induction rows generalizing makers with
  | nil => exact h
  | cons row rest ih => exact ih (storeMaker_lower old h row)

/- A full tick keeps the tables filed. -/
theorem updateSelfTrade_filed
    (hAhead : after < through)
    (hFiled : tables.Filed env)
    (h :
      updateSelfTrade env inputs rows deliveries tables after
        through ts = .ok (tables', next)) :
    tables'.Filed env := by
  rcases updateSelfTrade_ok h with
    ⟨state, hReduce, hLots, hLinks, hMakers, _⟩
  exact
    { links := by
        rw [hLinks]
        apply storeLinks_filed hFiled.links
        intro row hRow
        rcases (mem_links hAhead hReduce row).mp hRow with
          ⟨raw, _, hPair⟩
        exact (linkPair_filed hPair).1
      lots := storeLots_filed hFiled.lots hLots
      makers := by
        rw [hMakers]
        exact storeMakers_lower _ hFiled.makers _ }

/- And leaves no more to do, with the same inputs. -/
theorem updateSelfTrade_settled
    (hAhead : after < through)
    (hFiled : tables.Filed env)
    (h :
      updateSelfTrade env inputs rows deliveries tables after
        through ts = .ok (tables', next)) :
    Settled env inputs tables' next := by
  rcases updateSelfTrade_ok h with
    ⟨state, hReduce, hLots, hLinks, _, rfl⟩
  constructor
  · intro row hRow evidence hEvidence pair hPair
    rw [hLinks, has_storeLinks]
    refine
      .inl
        ⟨{ left := pair.1, right := pair.2 }, ?_, rfl⟩
    rw [mem_links hAhead hReduce]
    refine ⟨(evidence.left, evidence.right), ?_, hPair⟩
    unfold batchLinks
    apply List.mem_append_left
    apply List.mem_append_right
    apply List.mem_map.mpr
    refine ⟨evidence, ?_, rfl⟩
    apply List.mem_append_right
    exact List.mem_flatMap.mpr ⟨row, hRow, hEvidence⟩
  · intro id lot expiry hLot hOpen hExpiry
    rcases (storeLots_written hLots hLot) with
      ⟨row, hRow, _, rfl⟩ | ⟨hStart, hRest⟩
    · exact nextOpenLotExpiry_le hRow hOpen hExpiry
    · have hIn : lot ∈ (tables.state after).lots :=
        (OrderedMap.mem_values_iff _).mpr ⟨id, hStart⟩
      rcases reduceSelfTrade_keeps hAhead hReduce hIn with
        ⟨row, hRow, hTag⟩
      have hTags := Prod.mk.inj hTag
      have hId : row.id = id := by
        rw [hTags.1]
        exact hFiled.lots id lot hStart
      rcases hRest row hRow hId with
        ⟨previous, hPrevious, hRemaining⟩
      rw [hStart] at hPrevious
      rw [← Option.some.inj hPrevious] at hRemaining
      apply nextOpenLotExpiry_le hRow
      · rw [← hRemaining]
        exact hOpen
      · rw [hTags.2]
        exact hExpiry

end Update

end

----
-- A Tick With Nothing to Do
----

section

open Reconcile SelfTrade

theorem expireLot_open
    {reads : RangeReads}
    {at' : Int}
    {lot : SelfTradeLot}
    (h :
      lot.remaining ≠ 0 →
        ∀ expiry, reads.expiry lot.longId = some expiry →
          at' < expiry) :
    expireLot reads at' none lot = lot := by
  unfold expireLot
  split
  · rfl
  · next hOpen =>
      rw [not_or] at hOpen
      cases hExpiry : reads.expiry lot.longId with
      | none => rfl
      | some expiry =>
          exact if_neg (not_le.mpr (h hOpen.1 expiry hExpiry))

section Quiet

variable {locale : SelfTrade.Locale} {state : SelfTradeState}
variable {batch : SelfTradeBatch}

theorem batchEvents_quiet
    (locale : SelfTrade.Locale)
    (state : SelfTradeState)
    (hQuiet : batch.events = []) :
    batchEvents locale state batch = [] := by
  unfold batchEvents
  rw [hQuiet]
  rfl

/- A batch without events is reduced. -/
theorem reduceSelfTrade_quiet
    (hAhead : state.cursor < batch.through)
    (hQuiet : batch.events = []) :
    ∃ next, reduceSelfTrade locale state batch = some next := by
  unfold reduceSelfTrade reduceRun
  rw [if_neg (not_le.mpr hAhead)]
  simp only [batchEvents_quiet locale state hQuiet]
  exact ⟨_, rfl⟩

end Quiet

section Noop

variable {env : Env} {inputs : Inputs} {rows : RangeRows}
variable {deliveries : Deliveries}
variable {tables : SelfTradeTables} {after through ts : Int}
variable {recorded : Option Int}
variable {state : SelfTradeState}

/- Makers that are keyed by themselves are carried over. -/
theorem beginReduction_makers
    (hFiled : tables.Filed env) :
    (beginReduction
        { state := tables.state after
          counted := []
          attributed := [] }).makers =
      makerUnits tables.makers := by
  have hKeys :
      tables.makers.entries.map (fun entry => key entry.1) =
        tables.makers.entries.map Prod.fst := by
    apply List.map_congr_left
    intro entry hEntry
    apply hFiled.makers
    exact
      (OrderedMap.has_iff _).mpr (List.mem_map_of_mem hEntry)
  have hCarry :=
    OrderedMap.foldl_carry
      (fun entry : String × StoredMaker => key entry.1)
      (fun total entry => total + entry.2.units) 0
      (hKeys ▸ tables.makers.nodup)
  unfold beginReduction SelfTradeTables.state makerUnits
  simp only [List.foldl_map]
  refine hCarry.trans ?_
  simp only [zero_add]
  rfl

section

variable (hAhead : after < through)
variable (hQuiet : rows.events deliveries.matchedMints = [])
variable
  (h :
    reduceSelfTrade env.locale (tables.state after)
        (selfTradeBatch env inputs rows deliveries through ts) =
      some state)
include hAhead hQuiet h

/- What the reduction leaves of a batch without events. -/
theorem reduceSelfTrade_begin :
    ∃ final : Reduction,
      final =
          beginReduction
            { state := tables.state after
              counted := []
              attributed := [] } ∧
        (∀ row ∈ state.lots,
          ∃ reads : RangeReads,
            reads.expiry = expiryOf inputs.expiries ∧
              ∃ lot ∈ final.lots,
                row = expireLot reads ts none lot) ∧
        (∀ row ∈ state.makers,
          (row.writer, row.units) ∈ final.makers.entries) ∧
        ∀ row ∈ state.unseen,
          (row.reason,
              { units := row.units, fills := row.fills }) ∈
            final.unseen.entries := by
  rcases reduceSelfTrade_some hAhead h with
    ⟨final, hFinal, _, hLots, hMakers, hUnseen⟩
  rw [batchEvents_quiet _ _ hQuiet] at hFinal
  refine ⟨final, (Option.some.inj hFinal).symm, ?_, ?_, ?_⟩
  · intro row hRow
    rw [hLots, List.mem_insertionSort] at hRow
    rcases List.mem_map.mp hRow with ⟨lot, hLot, hSame⟩
    exact ⟨_, rfl, lot, hLot, hSame.symm⟩
  · intro row hRow
    rw [hMakers, List.mem_insertionSort] at hRow
    rcases List.mem_map.mp hRow with ⟨entry, hEntry, rfl⟩
    exact hEntry
  · intro row hRow
    rw [hUnseen, List.mem_insertionSort] at hRow
    rcases List.mem_map.mp hRow with ⟨entry, hEntry, rfl⟩
    exact hEntry

/- No link is new: the accounts' are settled. -/
theorem links_noop
    (hFiled : tables.Filed env)
    (hSettled : Settled env inputs tables recorded)
    (hFlows : rows.cashFlows = []) :
    state.links.foldl storeLink tables.links = tables.links := by
  apply storeLinks_stored
  intro row hRow
  rcases (mem_links hAhead h row).mp hRow with
    ⟨raw, hRaw, hPair⟩
  unfold batchLinks at hRaw
  rw [batchEvents_quiet _ _ hQuiet, List.filterMap_nil,
    List.append_nil] at hRaw
  rcases List.mem_append.mp hRaw with hLink | hEvidence
  · rcases List.mem_map.mp hLink with ⟨link, hIn, rfl⟩
    rcases (OrderedMap.mem_values_iff _).mp hIn with
      ⟨pair, hGet⟩
    rcases hFiled.links pair link hGet with ⟨rfl, hOwn⟩
    have hSame := Option.some.inj (hOwn.symm.trans hPair)
    rw [← hSame]
    exact Option.isSome_iff_exists.mpr ⟨_, hGet⟩
  · rcases List.mem_map.mp hEvidence with
      ⟨evidence, hIn, rfl⟩
    have hAccounts :
        evidence ∈ inputs.accounts.flatMap accountLinks := by
      change
        evidence ∈
          indexedSelfTradeLinks inputs.accounts
            rows.cashFlows at hIn
      unfold indexedSelfTradeLinks at hIn
      rw [hFlows] at hIn
      exact hIn
    rcases List.mem_flatMap.mp hAccounts with
      ⟨account, hAccount, hOf⟩
    exact hSettled.links account hAccount evidence hOf _ hPair

/- No lot has changed: none is past its expiry. -/
theorem lots_noop
    (hFiled : tables.Filed env)
    (hSettled : Settled env inputs tables recorded)
    (hTime : ∀ expiry, recorded = some expiry → ts < expiry) :
    state.lots.foldlM (storeLot tables.lots) tables.lots =
      .ok tables.lots := by
  apply storeLots_stored
  intro row hRow
  rcases reduceSelfTrade_begin hAhead hQuiet h with
    ⟨final, rfl, hLots, _⟩
  rcases hLots row hRow with ⟨reads, hReads, lot, hLot, rfl⟩
  rcases List.mem_map.mp hLot with ⟨stored, hStored, rfl⟩
  rcases (OrderedMap.mem_values_iff _).mp hStored with
    ⟨id, hGet⟩
  have hStays :
      expireLot reads ts none (lowerLot stored) =
        lowerLot stored := by
    apply expireLot_open
    intro hOpen expiry hExpiry
    rw [hReads] at hExpiry
    rcases
        hSettled.expiries id stored expiry hGet hOpen
          hExpiry with
      ⟨earliest, hRecorded, hLe⟩
    exact lt_of_lt_of_le (hTime earliest hRecorded) hLe
  rw [hStays]
  have hId : (lowerLot stored).id = id :=
    hFiled.lots id stored hGet
  rw [hId]
  exact ⟨stored, hGet, rfl⟩

theorem makers_noop
    (hFiled : tables.Filed env) :
    state.makers.foldl
        (storeMaker through ts (makerUnits tables.makers))
        tables.makers =
      tables.makers := by
  rcases reduceSelfTrade_begin hAhead hQuiet h with
    ⟨final, rfl, _, hMakers, _⟩
  rw [beginReduction_makers hFiled] at hMakers
  apply foldl_stays
  intro row hRow
  unfold storeMaker
  exact
    if_pos
      ((OrderedMap.mem_entries_iff _).mp (hMakers row hRow))

theorem unseen_noop :
    state.unseen.foldl
        (storeUnseen through ts tables.unseen)
        tables.unseen =
      tables.unseen := by
  rcases reduceSelfTrade_begin hAhead hQuiet h with
    ⟨final, rfl, _, _, hUnseen⟩
  have hCarry :=
    OrderedMap.foldl_carry
      (fun entry : SelfTradeUnseenReason × StoredUnseen =>
        entry.1)
      (fun (total : UnseenTotal) entry =>
        { units := total.units + entry.2.units
          fills := total.fills + entry.2.fills })
      { units := 0, fills := 0 } tables.unseen.nodup
  have hBegin :
      (beginReduction
          { state := tables.state after
            counted := []
            attributed := [] }).unseen.entries =
        tables.unseen.entries.map
          (fun entry =>
            (entry.1,
              { units := entry.2.units
                fills := entry.2.fills })) := by
    unfold beginReduction SelfTradeTables.state
    simp only [List.foldl_map]
    rw [hCarry, OrderedMap.entries_setAll]
    · simp [OrderedMap.empty]
    · rw [List.map_map]
      exact tables.unseen.nodup
    · exact fun e _ => rfl
  rw [hBegin] at hUnseen
  apply foldl_stays
  intro row hRow
  rcases List.mem_map.mp (hUnseen row hRow) with
    ⟨⟨reason, stored⟩, hStored, hSame⟩
  rcases Prod.mk.inj hSame with ⟨hReason, hTotal⟩
  rcases UnseenTotal.mk.inj hTotal with ⟨hUnits, hFills⟩
  have hGet : tables.unseen.get? row.reason = some stored :=
    (OrderedMap.mem_entries_iff _).mp (hReason ▸ hStored)
  unfold storeUnseen
  rw [hGet]
  apply if_pos
  simpa using And.intro hUnits hFills

end

/- Nothing in range, nothing to link and no lot expired. -/
theorem updateSelfTrade_noop
    (hAhead : after < through)
    (hFiled : tables.Filed env)
    (hSettled : Settled env inputs tables recorded)
    (hTime : ∀ expiry, recorded = some expiry → ts < expiry)
    (hQuiet : rows.events deliveries.matchedMints = [])
    (hFlows : rows.cashFlows = []) :
    ∃ next,
      updateSelfTrade env inputs rows deliveries tables after
        through ts = .ok (tables, next) := by
  have hBatch :
      ∃ state,
        reduceSelfTrade env.locale (tables.state after)
          (selfTradeBatch env inputs rows deliveries through
            ts) = some state :=
    reduceSelfTrade_quiet hAhead hQuiet
  rcases hBatch with ⟨state, hReduce⟩
  unfold updateSelfTrade
  rw [hReduce]
  simp only
  rw [lots_noop hAhead hQuiet hReduce hFiled hSettled hTime,
    links_noop hAhead hQuiet hReduce hFiled hSettled hFlows,
    makers_noop hAhead hQuiet hReduce hFiled,
    unseen_noop hAhead hQuiet hReduce]
  exact ⟨_, rfl⟩

end Noop

end

----
-- Runs of the Indexer
----

def RangeRows.blocks
    (rows : RangeRows) : List Int :=
  rows.transfers.map TransferRow.block ++
    rows.fills.map FillRow.block ++
    rows.takes.map TakeRow.block ++
    rows.mints.map MintRow.block ++
    rows.closes.map CloseRow.block ++
    rows.redemptions.map RedemptionRow.block ++
    rows.cashFlows.map CashFlowRow.block

/- Every row of the range tables. -/
def Inputs.rangeRows
    (inputs : Inputs) : RangeRows :=
  { transfers := inputs.transfers
    fills := inputs.fills
    takes := inputs.takes
    mints := inputs.mints
    closes := inputs.closes
    redemptions := inputs.redemptions
    cashFlows := inputs.cashFlows }

/-
  What the indexer handles: a write of its log handlers or of
  its other clock, with the accounts and series as they are
  after it, and a tick of the PnL clock.
-/
inductive IndexerEvent where
  | write
      (block : Int)
      (rows : RangeRows)
      (accounts : List AccountRow)
      (series : List SeriesRow)
  | tick (through throughTimestamp : Int)
deriving DecidableEq

def IndexerEvent.block : IndexerEvent → Int
  | .write block _ _ _ => block
  | .tick through _ => through

structure Database where
  inputs : Inputs
  stored : Stored

def emptyDatabase : Database :=
  { inputs :=
      { transfers := []
        fills := []
        takes := []
        mints := []
        closes := []
        redemptions := []
        cashFlows := []
        accounts := []
        series := [] }
    stored :=
      { ledger :=
          { positions := OrderedMap.empty
            lots := []
            fairAtFill := OrderedMap.empty
            fillDeltas := OrderedMap.empty
            closeDeltas := OrderedMap.empty
            redemptionDeltas := OrderedMap.empty
            writerStats := OrderedMap.empty
            seriesPremiums := OrderedMap.empty
            leaderboard := OrderedMap.empty
            ranks := OrderedMap.empty }
        selfTrade :=
          { links := OrderedMap.empty
            lots := OrderedMap.empty
            makers := OrderedMap.empty
            unseen := OrderedMap.empty }
        cursor := none
        input := none } }

def Inputs.write
    (inputs : Inputs)
    (rows : RangeRows)
    (accounts : List AccountRow)
    (series : List SeriesRow) : Inputs :=
  { transfers := inputs.transfers ++ rows.transfers
    fills := inputs.fills ++ rows.fills
    takes := inputs.takes ++ rows.takes
    mints := inputs.mints ++ rows.mints
    closes := inputs.closes ++ rows.closes
    redemptions := inputs.redemptions ++ rows.redemptions
    cashFlows := inputs.cashFlows ++ rows.cashFlows
    accounts := accounts
    series := series }

/- Every write is marked beside. -/
def indexEvent
    (tick :
      Inputs → Stored → Int → Int → Except String Stored)
    (db : Database) : IndexerEvent → Except String Database
  | .write block rows accounts series =>
      .ok
        { inputs := db.inputs.write rows accounts series
          stored :=
            { db.stored with
              input :=
                some (markPnlInput db.stored.input block) } }
  | .tick through throughTimestamp => do
      let stored ←
        tick db.inputs db.stored through throughTimestamp
      return { db with stored := stored }

def indexRun
    (tick :
      Inputs → Stored → Int → Int → Except String Stored)
    (events : List IndexerEvent) : Except String Database :=
  events.foldlM (indexEvent tick) emptyDatabase

/-
  The events come in the order of their blocks, and a range
  row is of the block that it is written at.  Accounts, series
  and even range rows may be written after the block's tick.
-/
structure IndexedInOrder
    (events : List IndexerEvent) : Prop where
  blocks : events.Pairwise (fun a b => a.block ≤ b.block)
  rows :
    ∀ block rows accounts series,
      .write block rows accounts series ∈ events →
        ∀ b ∈ rows.blocks, b = block

/- What a reader of the database sees of the clock. -/
structure Booked where
  ledger : Ledger
  selfTrade : SelfTradeTables
  cursor : Option Int

def Stored.booked
    (stored : Stored) : Booked :=
  { ledger := stored.ledger
    selfTrade := stored.selfTrade
    cursor := stored.cursor }

----
-- Two Ticks Side by Side
----

section

open LockStep Reconcile SelfTrade

section Tick

variable {env : Env} {inputs : Inputs} {stored stored' : Stored}
variable {through ts : Int}

/- A tick does not read what is recorded of the last one. -/
theorem bookRange_agree
    (hSame : stored.booked = stored'.booked) :
    Agree (fun a b => a.booked = b.booked)
      (bookRange env inputs stored through ts)
      (bookRange env inputs stored' through ts) := by
  rcases stored with ⟨ledger, selfTrade, cursor, input⟩
  rcases stored' with ⟨ledger', selfTrade', cursor', input'⟩
  rcases Booked.mk.inj hSame with ⟨hLedger, hTables, hCursor⟩
  simp only at hLedger hTables hCursor
  subst hLedger hTables hCursor
  unfold bookRange
  apply (Agree.refl _).bind
  rintro deliveries _ rfl
  apply (Agree.refl _).bind
  rintro fees _ rfl
  apply (Agree.refl _).bind
  rintro ledger _ rfl
  apply (Agree.refl _).bind
  rintro update _ rfl
  exact .ok rfl

/- What a tick that books its range leaves. -/
theorem bookRange_ok
    (h : bookRange env inputs stored through ts = .ok stored') :
    ∃ deliveries next,
      updateSelfTrade env inputs
          (inputs.range (stored.after env) through) deliveries
          stored.selfTrade (stored.after env) through ts =
        .ok (stored'.selfTrade, next) ∧
      stored'.cursor = some through ∧
      stored'.input =
        some (recordNextLotExpiry stored.input next) := by
  unfold bookRange at h
  simp only at h
  rcases bind_eq_ok.mp h with ⟨deliveries, _, hFees⟩
  rcases bind_eq_ok.mp hFees with ⟨fees, _, hItems⟩
  rcases bind_eq_ok.mp hItems with ⟨ledger, _, hUpdate⟩
  rcases bind_eq_ok.mp hUpdate with
    ⟨⟨selfTrade, next⟩, hTables, hDone⟩
  cases hDone
  exact ⟨deliveries, next, hTables, rfl, rfl⟩

/- No row of the range tables is past the cursor. -/
theorem range_empty
    {after : Int}
    (h : ∀ b ∈ inputs.rangeRows.blocks, b ≤ after)
    (through : Int) :
    inputs.range after through =
      { transfers := []
        fills := []
        takes := []
        mints := []
        closes := []
        redemptions := []
        cashFlows := [] } := by
  unfold RangeRows.blocks Inputs.rangeRows at h
  simp only [List.mem_append, or_imp, forall_and,
    List.forall_mem_map] at h
  unfold Inputs.range inRange
  simp only [RangeRows.mk.injEq, List.filter_eq_nil_iff]
  grind

end Tick

end

----
-- Skips
----

section

open LockStep Reconcile SelfTrade

section Skip

variable {env : Env} {inputs : Inputs} {stored stored' : Stored}
variable {through ts : Int}
variable {recorded : Option Int}

/- The full tick, where the other one is skipped. -/
theorem bookRange_noop
    (hAhead : stored.after env < through)
    (hRows :
      ∀ b ∈ inputs.rangeRows.blocks, b ≤ stored.after env)
    (hFiled : stored.selfTrade.Filed env)
    (hSettled : Settled env inputs stored.selfTrade recorded)
    (hTime : ∀ expiry, recorded = some expiry → ts < expiry) :
    ∃ next : Stored,
      bookRange env inputs stored through ts = .ok next ∧
        next.booked =
          { stored.booked with cursor := some through } := by
  have hRange := range_empty hRows through
  have hUpdate :
      ∃ next,
        updateSelfTrade env inputs
            (inputs.range (stored.after env) through)
            { matchedTransfers := [], matchedMints := [] }
            stored.selfTrade (stored.after env) through ts =
          .ok (stored.selfTrade, next) := by
    apply updateSelfTrade_noop hAhead hFiled hSettled hTime
    · rw [hRange]
      rfl
    · rw [hRange]
  rcases hUpdate with ⟨next, hUpdate⟩
  rw [hRange] at hUpdate
  unfold bookRange
  simp only
  rw [hRange]
  refine
    ⟨{ ledger := stored.ledger
       selfTrade := stored.selfTrade
       cursor := some through
       input := some (recordNextLotExpiry stored.input next) },
      ?_, rfl⟩
  apply bind_eq_ok.mpr
  refine ⟨_, rfl, ?_⟩
  apply bind_eq_ok.mpr
  refine ⟨_, rfl, ?_⟩
  apply bind_eq_ok.mpr
  refine ⟨stored.ledger, rfl, ?_⟩
  apply bind_eq_ok.mpr
  exact ⟨_, hUpdate, rfl⟩

theorem pnlTickIsNoop_iff
    (input : Option PnlInput)
    (cursor : Option Int)
    (after ts : Int) :
    pnlTickIsNoop input cursor after ts = true ↔
      ∃ mark,
        input = some mark ∧ cursor.isSome = true ∧
          mark.block < after ∧
          ∀ expiry, mark.nextLotExpiry = some expiry →
            ts < expiry := by
  unfold pnlTickIsNoop
  cases input with
  | none => simp
  | some mark =>
      cases cursor with
      | none => simp
      | some c =>
          cases hNext : mark.nextLotExpiry with
          | none => simp [hNext]
          | some expiry => simp [hNext]

end Skip

/- What a run with skips keeps, with the events to come. -/
structure Tracked
    (env : Env)
    (rest : List IndexerEvent)
    (db : Database) : Prop where
  filed : db.stored.selfTrade.Filed env
  marked :
    ∀ b ∈ db.inputs.rangeRows.blocks,
      ∃ mark, db.stored.input = some mark ∧ b ≤ mark.block
  before :
    ∀ b ∈ db.inputs.rangeRows.blocks, ∀ event ∈ rest,
      b ≤ event.block
  ahead :
    ∀ c, db.stored.cursor = some c → ∀ event ∈ rest,
      c ≤ event.block
  settled :
    ∀ c mark,
      db.stored.cursor = some c → db.stored.input = some mark →
        mark.block < c →
          Settled env db.inputs db.stored.selfTrade
            mark.nextLotExpiry

/- The database of a run with skips, and that of one without. -/
structure InStep
    (env : Env)
    (rest : List IndexerEvent)
    (skipping full : Database) : Prop where
  order : IndexedInOrder rest
  tracked : Tracked env rest skipping
  inputs : skipping.inputs = full.inputs
  booked : skipping.stored.booked = full.stored.booked

end

----
-- Runs With Skips
----

open LockStep Reconcile SelfTrade

variable {env : Env} {event : IndexerEvent}
variable {rest : List IndexerEvent}
variable {db skipping full : Database} {through ts : Int}

theorem IndexedInOrder.tail
    (h : IndexedInOrder (event :: rest)) :
    IndexedInOrder rest :=
  { blocks := (List.pairwise_cons.mp h.blocks).2
    rows := by
      intro block rows accounts series hIn
      exact
        h.rows block rows accounts series
          (List.mem_cons_of_mem _ hIn) }

theorem IndexedInOrder.head_le
    (h : IndexedInOrder (event :: rest)) :
    ∀ later ∈ rest, event.block ≤ later.block :=
  (List.pairwise_cons.mp h.blocks).1

theorem mem_blocks_write
    (inputs : Inputs)
    (rows : RangeRows)
    (accounts : List AccountRow)
    (series : List SeriesRow)
    (b : Int) :
    b ∈ (inputs.write rows accounts series).rangeRows.blocks ↔
      b ∈ inputs.rangeRows.blocks ∨ b ∈ rows.blocks := by
  unfold RangeRows.blocks Inputs.rangeRows Inputs.write
  simp only [List.map_append, List.mem_append]
  tauto

/- A write is marked at its block, behind which no tick is. -/
theorem Tracked.write
    {block : Int}
    {rows : RangeRows}
    {accounts : List AccountRow}
    {series : List SeriesRow}
    (hOrder :
      IndexedInOrder
        (.write block rows accounts series :: rest))
    (h :
      Tracked env (.write block rows accounts series :: rest)
        db) :
    Tracked env rest
      { inputs := db.inputs.write rows accounts series
        stored :=
          { db.stored with
            input := some (markPnlInput db.stored.input block) } } := by
  have hRows : ∀ b ∈ rows.blocks, b = block :=
    hOrder.rows block rows accounts series List.mem_cons_self
  have hMark :
      (markPnlInput db.stored.input block).block = block := by
    unfold markPnlInput
    cases db.stored.input <;> rfl
  constructor
  · exact h.filed
  · intro b hIn
    refine ⟨_, rfl, ?_⟩
    rw [hMark]
    rcases (mem_blocks_write _ _ _ _ b).mp hIn with hOld | hNew
    · exact h.before b hOld _ List.mem_cons_self
    · exact le_of_eq (hRows b hNew)
  · intro b hIn later hLater
    rcases (mem_blocks_write _ _ _ _ b).mp hIn with hOld | hNew
    · exact h.before b hOld later (List.mem_cons_of_mem _ hLater)
    · rw [hRows b hNew]
      exact hOrder.head_le later hLater
  · intro c hCursor later hLater
    exact h.ahead c hCursor later (List.mem_cons_of_mem _ hLater)
  · intro c mark hCursor hInput hBehind
    rw [← Option.some.inj hInput, hMark] at hBehind
    have hAhead := h.ahead c hCursor _ List.mem_cons_self
    exact absurd hBehind (not_lt.mpr hAhead)

/- A tick that is not ahead of the cursor. -/
theorem Tracked.next
    (h : Tracked env (event :: rest) db) :
    Tracked env rest db :=
  { filed := h.filed
    marked := h.marked
    before := fun b hIn later hLater =>
      h.before b hIn later (List.mem_cons_of_mem _ hLater)
    ahead := fun c hCursor later hLater =>
      h.ahead c hCursor later (List.mem_cons_of_mem _ hLater)
    settled := h.settled }

theorem Tracked.booked
    (hOrder : IndexedInOrder (.tick through ts :: rest))
    (h : Tracked env (.tick through ts :: rest) db)
    (hAhead : db.stored.after env < through)
    {stored : Stored}
    (hTick :
      bookRange env db.inputs db.stored through ts =
        .ok stored) :
    Tracked env rest { db with stored := stored } := by
  rcases bookRange_ok hTick with
    ⟨deliveries, next, hUpdate, hCursor, hInput⟩
  constructor
  · exact updateSelfTrade_filed hAhead h.filed hUpdate
  · intro b hIn
    rcases h.marked b hIn with ⟨mark, hMark, hLe⟩
    refine ⟨_, hInput, ?_⟩
    rw [hMark]
    exact hLe
  · exact h.next.before
  · intro c hSame later hLater
    rw [hCursor] at hSame
    rw [← Option.some.inj hSame]
    exact hOrder.head_le later hLater
  · intro c mark _ hMark _
    rw [hInput] at hMark
    have hNext : mark.nextLotExpiry = next := by
      rw [← Option.some.inj hMark]
      unfold recordNextLotExpiry
      cases db.stored.input <;> rfl
    rw [hNext]
    exact updateSelfTrade_settled hAhead h.filed hUpdate

theorem Tracked.skipped
    (hOrder : IndexedInOrder (.tick through ts :: rest))
    (h : Tracked env (.tick through ts :: rest) db)
    (hSkip :
      pnlTickIsNoop db.stored.input db.stored.cursor
        (db.stored.after env) ts = true) :
    Tracked env rest
      { db with
        stored := { db.stored with cursor := some through } } := by
  rcases (pnlTickIsNoop_iff _ _ _ _).mp hSkip with
    ⟨mark, hMark, hSome, hBehind, _⟩
  rcases Option.isSome_iff_exists.mp hSome with ⟨c, hCursor⟩
  have hAfter : db.stored.after env = c := by
    unfold Stored.after
    rw [hCursor]
    rfl
  constructor
  · exact h.filed
  · exact h.marked
  · exact h.next.before
  · intro c' hSame later hLater
    rw [← Option.some.inj hSame]
    exact hOrder.head_le later hLater
  · intro _ mark' _ hMark' _
    rw [hMark] at hMark'
    cases hMark'
    exact h.settled c mark hCursor hMark (hAfter ▸ hBehind)

/- The full tick does at a skip what the skip does. -/
theorem Tracked.skip_agrees
    (h : Tracked env (event :: rest) db)
    (hAhead : db.stored.after env < through)
    (hSkip :
      pnlTickIsNoop db.stored.input db.stored.cursor
        (db.stored.after env) ts = true)
    {stored : Stored}
    (hSame : db.stored.booked = stored.booked) :
    ∃ next,
      bookRange env db.inputs stored through ts = .ok next ∧
        ({ db.stored with cursor := some through } :
            Stored).booked =
          next.booked := by
  rcases (pnlTickIsNoop_iff _ _ _ _).mp hSkip with
    ⟨mark, hMark, hSome, hBehind, hTime⟩
  rcases Option.isSome_iff_exists.mp hSome with ⟨c, hCursor⟩
  have hAfter : db.stored.after env = c := by
    unfold Stored.after
    rw [hCursor]
    rfl
  have hRows :
      ∀ b ∈ db.inputs.rangeRows.blocks,
        b ≤ db.stored.after env := by
    intro b hIn
    rcases h.marked b hIn with ⟨mark', hMark', hLe⟩
    rw [hMark] at hMark'
    cases hMark'
    exact le_of_lt (lt_of_le_of_lt hLe hBehind)
  have hSettled :=
    h.settled c mark hCursor hMark (hAfter ▸ hBehind)
  rcases bookRange_noop hAhead hRows h.filed hSettled hTime with
    ⟨next, hBook, hNext⟩
  have hAgree :=
    @bookRange_agree env db.inputs db.stored stored through ts
      hSame
  rw [hBook] at hAgree
  generalize bookRange env db.inputs stored through ts = result
    at hAgree ⊢
  cases hAgree with
  | ok hBooked => exact ⟨_, rfl, hNext.symm.trans hBooked⟩

/- One tick of each run. -/
theorem tick_agrees
    (h : InStep env (.tick through ts :: rest) skipping full) :
    Agree
      (fun a b =>
        Tracked env rest { skipping with stored := a } ∧
          a.booked = b.booked)
      (pnlTick env skipping.inputs skipping.stored through ts)
      (fullTick env full.inputs full.stored through ts) := by
  have hAfter :
      full.stored.after env = skipping.stored.after env :=
    congrArg
      (fun booked =>
        booked.cursor.getD (env.startBlock - 1))
      h.booked.symm
  unfold pnlTick fullTick
  rw [hAfter, ← h.inputs]
  by_cases hOld : through ≤ skipping.stored.after env
  · rw [if_pos hOld, if_pos hOld]
    exact .ok ⟨h.tracked.next, h.booked⟩
  · rw [if_neg hOld, if_neg hOld]
    have hAhead := not_le.mp hOld
    split
    · next hSkip =>
        rcases h.tracked.skip_agrees hAhead hSkip h.booked with
          ⟨next, hBook, hBooked⟩
        rw [hBook]
        exact .ok ⟨h.tracked.skipped h.order hSkip, hBooked⟩
    · apply (bookRange_agree h.booked).returned.mono
      rintro a b ⟨hTick, hBooked⟩
      exact ⟨h.tracked.booked h.order hAhead hTick, hBooked⟩

/- One event of each run. -/
theorem indexEvent_agrees
    (h : InStep env (event :: rest) skipping full) :
    Agree (InStep env rest)
      (indexEvent (pnlTick env) skipping event)
      (indexEvent (fullTick env) full event) := by
  cases event with
  | write block rows accounts series =>
      exact
        .ok
          { order := h.order.tail
            tracked := h.tracked.write h.order
            inputs := by rw [h.inputs]
            booked := h.booked }
  | tick through ts =>
      apply (tick_agrees h).bind
      rintro a b ⟨hTracked, hBooked⟩
      exact
        .ok
          { order := h.order.tail
            tracked := hTracked
            inputs := h.inputs
            booked := hBooked }

theorem emptyDatabase_tracked
    (env : Env)
    (rest : List IndexerEvent) :
    Tracked env rest emptyDatabase where
  filed :=
    { links := by
        intro pair row hGet
        cases hGet
      lots := by
        intro id lot hGet
        cases hGet
      makers := by
        intro writer hHas
        cases hHas }
  marked := by
    intro b hIn
    cases hIn
  before := by
    intro b hIn
    cases hIn
  ahead := by
    intro c hCursor
    cases hCursor
  settled := by
    intro c mark hCursor
    cases hCursor

/- The two runs keep in step, or throw together. -/
theorem indexRun_agrees
    (env : Env)
    {events : List IndexerEvent}
    (h : IndexedInOrder events) :
    Agree (InStep env [])
      (indexRun (pnlTick env) events)
      (indexRun (fullTick env) events) := by
  have hStart : InStep env events emptyDatabase emptyDatabase :=
    { order := h
      tracked := emptyDatabase_tracked env events
      inputs := rfl
      booked := rfl }
  exact
    foldlM_agree
      (fun event rest a b => indexEvent_agrees) hStart

/-
  From the empty database, the run that skips ticks stores
  what the run of full ticks stores, and throws where it does.
-/
theorem skips_change_nothing
    (env : Env)
    (events : List IndexerEvent)
    (h : IndexedInOrder events) :
    (indexRun (pnlTick env) events).map
        (fun db => db.stored.booked) =
      (indexRun (fullTick env) events).map
        (fun db => db.stored.booked) := by
  have hRuns := indexRun_agrees env h
  exact hRuns.map_eq (fun a b hSame => hSame.booked)

/- A payout to another wallet, and a new operator. -/
def quietEnv : Env :=
  { orderBook := "0xb00c"
    usdg := "0xd011a2"
    startBlock := 5
    protocolAddresses := [some "0xb00c"]
    locale := String.instLinearOrder
    windowStarts := fun _ => { week := 0, month := 0 }
    trySpot := fun _ _ _ => (false, 0) }

def noRows : RangeRows :=
  { transfers := []
    fills := []
    takes := []
    mints := []
    closes := []
    redemptions := []
    cashFlows := [] }

def quietSeries : List SeriesRow :=
  [{ longId := 1
     oracle := "0x0c"
     underlying := "0x0e"
     expiry := 1000
     strike := 200
     isPut := false
     settlementPrice := none }]

def quietEvents : List IndexerEvent :=
  [.write 5
     { noRows with
       cashFlows :=
         [{ account := "0xAA"
            actor := "0xDD"
            block := 5 }] }
     [] quietSeries,
   .tick 6 60,
   .tick 10 100,
   .write 10 noRows
     [{ account := "0xAA"
        operators := [("0xEE", true)]
        approvals := []
        delegates := [] }]
     quietSeries,
   .tick 12 120,
   .tick 14 140]

/- The ticks of blocks 10 and 14 are skipped. -/
theorem skips_change_nothing_quiet :
    (indexRun (pnlTick quietEnv) quietEvents).map
          (fun db => db.stored.booked) =
        (indexRun (fullTick quietEnv) quietEvents).map
          (fun db => db.stored.booked) ∧
      ((indexRun (pnlTick quietEnv) quietEvents).map
          (fun db => db.stored.cursor)).toOption =
        some (some 14) := by
  constructor
  · apply skips_change_nothing
    constructor
    · decide
    · intro block rows accounts series hIn b hB
      simp only [quietEvents, List.mem_cons, reduceCtorEq,
        IndexerEvent.write.injEq, List.not_mem_nil, or_false,
        false_or] at hIn
      rcases hIn with ⟨rfl, rfl, _⟩ | ⟨rfl, rfl, _⟩
      · simpa [RangeRows.blocks, noRows] using hB
      · simp [RangeRows.blocks, noRows] at hB
  · decide +kernel

end Callhouse.Indexer.PnlClock
