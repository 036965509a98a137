import Callhouse.Keeper.Cranker.ExpiryPlan
import Callhouse.Lib.GreedyChunks
import Callhouse.Lib.GroupedOrder

/-
  keeper/src/v2/cranker/planner.ts: createSeries batches with
  a pin for each group of a chunk, and what chunkByGas,
  chunkCreates and the splitting of failed chunks keep.

  Main declarations:
    * `chunkCreates`
    * `GasPartition`
    * `chunkByGas_partition`, `chunkCreates_partition`
    * `SplitStep`, `splits_end`, `splitsDown`
    * `gas_chunks_bounded`
-/

----
-- createSeries Batches
----

namespace Callhouse.Keeper.Cranker

section

structure CreateOptions
    (α : Type) where
  group : α → String
  pinGasOf : String → Int
  eachGas : Int
  baseGas : Int
  capGas : Int
  maxItems : Nat

/- As `ChunkState`, with the groups of the current chunk. -/
structure CreateState
    (α : Type) where
  chunks : List (GasChunk α)
  current : GasChunk α
  groups : List String

variable {α : Type}

def createCost
    (options : CreateOptions α)
    (groups : List String)
    (item : α) : Int :=
  options.eachGas +
    if options.group item ∈ groups then 0
    else options.pinGasOf (options.group item)

/- The test is on the cost before the groups are reset. -/
def addToCreates
    (options : CreateOptions α)
    (state : CreateState α)
    (item : α) : CreateState α :=
  let state :=
    if state.current.items.length > 0 ∧
        (state.current.gas +
              createCost options state.groups item >
            options.capGas ∨
          state.current.items.length ≥ options.maxItems) then
      { chunks := state.chunks ++ [state.current]
        current := { items := [], gas := options.baseGas }
        groups := [] }
    else state
  { state with
    current :=
      { items := state.current.items ++ [item]
        gas :=
          state.current.gas +
            createCost options state.groups item }
    groups := options.group item :: state.groups }

def chunkCreates
    (items : List α)
    (options : CreateOptions α) : List (GasChunk α) :=
  let sorted := GroupedOrder.sorted options.group items
  let state :=
    sorted.foldl (addToCreates options)
      { chunks := []
        current := { items := [], gas := options.baseGas }
        groups := [] }
  let chunks :=
    if state.current.items.length > 0 then
      state.chunks ++ [state.current]
    else state.chunks
  chunks.map (fun c =>
    { items := c.items
      gas :=
        if c.gas > options.capGas then options.capGas
        else c.gas })

end

----
-- Budgets
----

section

variable {α : Type}

/- The summed budget of a chunk of `chunkByGas`. -/
def chunkBudget
    (options : ChunkOptions α)
    (items : List α) : Int :=
  options.baseGas + (items.map options.gasOf).sum

/- Base, items, and one pin for each group in the chunk. -/
def createBudget
    (options : CreateOptions α)
    (items : List α) : Int :=
  options.baseGas + items.length * options.eachGas +
    ∑ g ∈ (items.map options.group).toFinset,
      options.pinGasOf g

/-
  Chunks that partition the items in order: each of one item
  to the limit, with its budget cut to the cap, and a chunk of
  two or more with its full budget.
-/
structure GasPartition
    (budget : List α → Int)
    (capGas : Int)
    (maxItems : Nat)
    (items : List α)
    (chunks : List (GasChunk α)) : Prop where
  items_eq : queueItems chunks = items
  size :
    ∀ c ∈ chunks,
      1 ≤ c.items.length ∧ c.items.length ≤ maxItems
  gas_eq : ∀ c ∈ chunks, c.gas = min capGas (budget c.items)
  full :
    ∀ c ∈ chunks, 2 ≤ c.items.length → c.gas = budget c.items

theorem GasPartition.gas_le
    {budget : List α → Int}
    {capGas : Int}
    {maxItems : Nat}
    {items : List α}
    {chunks : List (GasChunk α)}
    (h : GasPartition budget capGas maxItems items chunks)
    {c : GasChunk α}
    (hc : c ∈ chunks) :
    c.gas ≤ capGas := by
  rw [h.gas_eq c hc]
  exact min_le_left _ _

/- A packed chunk with its budget cut to the cap. -/
def cutChunk
    (budget : List α → Int)
    (capGas : Int)
    (items : List α) : GasChunk α :=
  { items := items
    gas :=
      if budget items > capGas then capGas else budget items }

theorem packed_partition
    (budget : List α → Int)
    (capGas : Int)
    {maxItems : Nat}
    (hMax : 1 ≤ maxItems)
    (items : List α) :
    GasPartition budget capGas maxItems items
      ((GreedyChunks.pack budget capGas maxItems items).map
        (cutChunk budget capGas)) where
  items_eq := by
    unfold queueItems
    rw [List.flatMap_map]
    change (GreedyChunks.pack budget capGas maxItems items).flatMap
      id = items
    rw [List.flatMap_id, GreedyChunks.pack_flatten]
  size := by
    intro c hc
    rcases List.mem_map.mp hc with ⟨is, hIs, rfl⟩
    rcases GreedyChunks.pack_fits hMax items is hIs with
      ⟨hSome, hFits⟩
    exact ⟨hSome, hFits.size⟩
  gas_eq := by
    intro c hc
    rcases List.mem_map.mp hc with ⟨is, _, rfl⟩
    unfold cutChunk
    simp only
    split
    · omega
    · omega
  full := by
    intro c hc hTwo
    rcases List.mem_map.mp hc with ⟨is, hIs, rfl⟩
    have hPaid :=
      (GreedyChunks.pack_fits hMax items is hIs).2.paid hTwo
    exact if_neg (by omega)

end

----
-- The Loops Pack
----

section

variable {α : Type}

/- A packed chunk and its budget, before the cut. -/
def paidChunk
    (budget : List α → Int)
    (items : List α) : GasChunk α :=
  { items := items, gas := budget items }

def paidState
    (budget : List α → Int)
    (s : GreedyChunks.State α) : ChunkState α :=
  { chunks := s.chunks.map (paidChunk budget)
    current := paidChunk budget s.current }

theorem chunkBudget_concat
    (options : ChunkOptions α)
    (items : List α)
    (x : α) :
    chunkBudget options (items ++ [x]) =
      chunkBudget options items + options.gasOf x := by
  unfold chunkBudget
  rw [List.map_append, List.sum_append, List.map_singleton,
    List.sum_singleton, add_assoc]

theorem addToChunk_packs
    (options : ChunkOptions α)
    (s : GreedyChunks.State α)
    (x : α) :
    addToChunk options (paidState (chunkBudget options) s) x =
      paidState (chunkBudget options)
        (GreedyChunks.add (chunkBudget options) options.capGas
          options.maxItems s x) := by
  have hTest :
      (s.current.length > 0 ∧
        (chunkBudget options s.current + options.gasOf x >
            options.capGas ∨
          s.current.length ≥ options.maxItems)) ↔
        GreedyChunks.Flushes (chunkBudget options)
          options.capGas options.maxItems s.current x := by
    unfold GreedyChunks.Flushes
    rw [chunkBudget_concat]
  unfold addToChunk GreedyChunks.add paidState paidChunk
  simp only [hTest]
  split
  · simp [chunkBudget]
  · simp [chunkBudget_concat]

theorem chunkByGas_packs
    (items : List α)
    (options : ChunkOptions α) :
    chunkByGas items options =
      (GreedyChunks.pack (chunkBudget options) options.capGas
        options.maxItems items).map
          (cutChunk (chunkBudget options) options.capGas) := by
  have hFold :
      ∀ (xs : List α) (s : GreedyChunks.State α),
        xs.foldl (addToChunk options)
            (paidState (chunkBudget options) s) =
          paidState (chunkBudget options)
            (GreedyChunks.packFrom (chunkBudget options)
              options.capGas options.maxItems s xs) := by
    intro xs
    induction xs with
    | nil => exact fun _ => rfl
    | cons x rest ih =>
        intro s
        rw [List.foldl_cons, addToChunk_packs, ih]
        rfl
  have hStart := hFold items { chunks := [], current := [] }
  have hEmpty :
      paidState (chunkBudget options)
          { chunks := [], current := [] } =
        { chunks := []
          current := { items := [], gas := options.baseGas } } := by
    simp [paidState, paidChunk, chunkBudget]
  rw [hEmpty] at hStart
  unfold chunkByGas GreedyChunks.pack GreedyChunks.State.close
  rw [hStart]
  unfold paidState paidChunk
  simp only [gt_iff_lt]
  split
  · simp [cutChunk]
  · simp [cutChunk]

theorem chunkByGas_partition
    (items : List α)
    (options : ChunkOptions α)
    (hMax : 1 ≤ options.maxItems) :
    GasPartition (chunkBudget options) options.capGas
      options.maxItems items (chunkByGas items options) := by
  rw [chunkByGas_packs]
  exact packed_partition _ _ hMax items

end

----
-- The createSeries Loop Packs
----

section

variable {α : Type}

def paidCreates
    (options : CreateOptions α)
    (s : GreedyChunks.State α) : CreateState α :=
  { chunks := s.chunks.map (paidChunk (createBudget options))
    current := paidChunk (createBudget options) s.current
    groups := (s.current.map options.group).reverse }

/- An item costs its own gas, and its pin if it is the first. -/
theorem createBudget_concat
    (options : CreateOptions α)
    (items : List α)
    (x : α) :
    createBudget options (items ++ [x]) =
      createBudget options items +
        createCost options (items.map options.group).reverse
          x := by
  have hGroups :
      ((items ++ [x]).map options.group).toFinset =
        insert (options.group x)
          (items.map options.group).toFinset := by
    rw [List.map_append, List.toFinset_append,
      List.map_singleton, Finset.union_comm]
    rfl
  unfold createBudget createCost
  rw [hGroups, List.length_append, List.length_singleton]
  simp only [List.mem_reverse]
  by_cases hIn : options.group x ∈ items.map options.group
  · rw [Finset.insert_eq_of_mem (List.mem_toFinset.mpr hIn),
      if_pos hIn]
    push_cast
    ring
  · rw [Finset.sum_insert
        (fun h => hIn (List.mem_toFinset.mp h)), if_neg hIn]
    push_cast
    ring

theorem createBudget_singleton
    (options : CreateOptions α)
    (x : α) :
    createBudget options [x] =
      options.baseGas + createCost options [] x := by
  have h := createBudget_concat options [] x
  simpa [createBudget] using h

theorem addToCreates_packs
    (options : CreateOptions α)
    (s : GreedyChunks.State α)
    (x : α) :
    addToCreates options (paidCreates options s) x =
      paidCreates options
        (GreedyChunks.add (createBudget options) options.capGas
          options.maxItems s x) := by
  have hTest :
      (s.current.length > 0 ∧
        (createBudget options s.current +
              createCost options
                (s.current.map options.group).reverse x >
            options.capGas ∨
          s.current.length ≥ options.maxItems)) ↔
        GreedyChunks.Flushes (createBudget options)
          options.capGas options.maxItems s.current x := by
    unfold GreedyChunks.Flushes
    rw [createBudget_concat]
  unfold addToCreates GreedyChunks.add paidCreates paidChunk
  simp only [hTest]
  split
  · simp [createBudget_singleton]
  · simp [createBudget_concat]

theorem chunkCreates_packs
    (items : List α)
    (options : CreateOptions α) :
    chunkCreates items options =
      (GreedyChunks.pack (createBudget options) options.capGas
        options.maxItems
        (GroupedOrder.sorted options.group items)).map
          (cutChunk (createBudget options) options.capGas) := by
  have hFold :
      ∀ (xs : List α) (s : GreedyChunks.State α),
        xs.foldl (addToCreates options)
            (paidCreates options s) =
          paidCreates options
            (GreedyChunks.packFrom (createBudget options)
              options.capGas options.maxItems s xs) := by
    intro xs
    induction xs with
    | nil => exact fun _ => rfl
    | cons x rest ih =>
        intro s
        rw [List.foldl_cons, addToCreates_packs, ih]
        rfl
  have hStart :=
    hFold (GroupedOrder.sorted options.group items)
      { chunks := [], current := [] }
  have hEmpty :
      paidCreates options { chunks := [], current := [] } =
        { chunks := []
          current := { items := [], gas := options.baseGas }
          groups := [] } := by
    simp [paidCreates, paidChunk, createBudget]
  rw [hEmpty] at hStart
  unfold chunkCreates GreedyChunks.pack GreedyChunks.State.close
  simp only
  rw [hStart]
  unfold paidCreates paidChunk
  simp only [gt_iff_lt]
  split
  · simp [cutChunk]
  · simp [cutChunk]

/- The items keep their order, group by group. -/
theorem chunkCreates_partition
    (items : List α)
    (options : CreateOptions α)
    (hMax : 1 ≤ options.maxItems) :
    GasPartition (createBudget options) options.capGas
      options.maxItems
      (GroupedOrder.grouped options.group items)
      (chunkCreates items options) := by
  rw [chunkCreates_packs, GroupedOrder.sorted_eq_grouped]
  exact packed_partition _ _ hMax _

end

----
-- Splitting Failed Chunks
----

section

variable {α : Type}

/- One item at the cap: a failure of it is not split again. -/
def IsLast
    (capGas : Int)
    (c : GasChunk α) : Prop :=
  c.items.length = 1 ∧ capGas ≤ c.gas

/- Some chunk fails, and its halves take its place. -/
def SplitStep
    (capGas : Int)
    (queue queue' : List (GasChunk α)) : Prop :=
  ∃ front c back,
    queue = front ++ c :: back ∧ ¬ IsLast capGas c ∧
      queue' = front ++ splitChunk c capGas ++ back

def Splits
    (capGas : Int) :
    List (GasChunk α) → List (GasChunk α) → Prop :=
  Relation.ReflTransGen (SplitStep capGas)

/- Every chunk has an item, and at most the cap. -/
def Sendable
    (capGas : Int)
    (queue : List (GasChunk α)) : Prop :=
  ∀ c ∈ queue, 1 ≤ c.items.length ∧ c.gas ≤ capGas

/- How often a chunk can be split, and its halves after it. -/
def splitsOf
    (capGas : Int)
    (c : GasChunk α) : Nat :=
  if c.items.length = 1 ∧ capGas ≤ c.gas then 0
  else 2 * c.items.length - 1

def splitBudget
    (capGas : Int)
    (queue : List (GasChunk α)) : Nat :=
  (queue.map (splitsOf capGas)).sum

/- Item by item, the gas of its chunk divided among it. -/
def itemShares
    (queue : List (GasChunk α)) : List ℚ :=
  queue.flatMap
    (fun c =>
      List.replicate c.items.length
        ((c.gas : ℚ) / c.items.length))

variable {capGas : Int} {c : GasChunk α}

section

variable (hSome : 1 ≤ c.items.length) (hGas : c.gas ≤ capGas)
include hSome hGas

/- What a chunk of one item becomes, and the two halves. -/
theorem splitChunk_cases :
    (c.items.length = 1 ∧
      splitChunk c capGas =
        [{ items := c.items, gas := capGas }]) ∨
      ∃ first second,
        1 ≤ first.length ∧ 1 ≤ second.length ∧
          c.items = first ++ second ∧
            splitChunk c capGas =
              [{ items := first, gas := c.gas },
                { items := second, gas := c.gas }] := by
  have hNotZero : ¬ c.items.length = 0 := by omega
  have hUncut : ¬ c.gas > capGas := by omega
  unfold splitChunk
  simp only [if_neg hNotZero, if_neg hUncut]
  by_cases hOne : c.items.length = 1
  · exact .inl ⟨hOne, if_pos hOne⟩
  · right
    refine
      ⟨c.items.take ((c.items.length + 1) / 2),
        c.items.drop ((c.items.length + 1) / 2), ?_, ?_, ?_,
        if_neg hOne⟩
    · rw [List.length_take]
      omega
    · rw [List.length_drop]
      omega
    · exact (List.take_append_drop _ _).symm

theorem splitChunk_sendable :
    Sendable capGas (splitChunk c capGas) := by
  rcases splitChunk_cases hSome hGas with
    ⟨_, hSplit⟩ | ⟨first, second, hFirst, hSecond, _, hSplit⟩
  · rw [hSplit]
    intro d hd
    rw [List.mem_singleton.mp hd]
    exact ⟨hSome, le_refl _⟩
  · rw [hSplit]
    intro d hd
    rcases List.mem_pair.mp hd with rfl | rfl
    · exact ⟨hFirst, hGas⟩
    · exact ⟨hSecond, hGas⟩

theorem splitChunk_budget
    (hOpen : ¬ IsLast capGas c) :
    splitBudget capGas (splitChunk c capGas) <
      splitsOf capGas c := by
  have hWhole : splitsOf capGas c = 2 * c.items.length - 1 :=
    if_neg hOpen
  have hPart :
      ∀ d : GasChunk α,
        splitsOf capGas d ≤ 2 * d.items.length - 1 := by
    intro d
    unfold splitsOf
    split
    · exact Nat.zero_le _
    · exact le_refl _
  rcases splitChunk_cases hSome hGas with
    ⟨hOne, hSplit⟩ | ⟨first, second, hFirst, hSecond, hItems,
      hSplit⟩
  · rw [hSplit, hWhole, hOne]
    simp [splitBudget, splitsOf, hOne]
  · have h₁ := hPart { items := first, gas := c.gas }
    have h₂ := hPart { items := second, gas := c.gas }
    have hLength : c.items.length = first.length + second.length := by
      rw [hItems, List.length_append]
    rw [hSplit, hWhole]
    simp only [splitBudget, List.map_cons, List.map_nil,
      List.sum_cons, List.sum_nil] at *
    omega

/- The gas of the chunk stays, and its items get fewer. -/
theorem splitChunk_shares
    (hNonneg : 0 ≤ c.gas) :
    List.Forall₂ (· ≤ ·) (itemShares [c])
      (itemShares (splitChunk c capGas)) := by
  have hGasQ : (0 : ℚ) ≤ c.gas := by exact_mod_cast hNonneg
  have hCapQ : (c.gas : ℚ) ≤ capGas := by exact_mod_cast hGas
  have hReplicate :
      ∀ (n : Nat) (a b : ℚ), a ≤ b →
        List.Forall₂ (· ≤ ·) (List.replicate n a)
          (List.replicate n b) := by
    intro n a b hab
    induction n with
    | zero => exact .nil
    | succ n ih =>
        rw [List.replicate_succ, List.replicate_succ]
        exact .cons hab ih
  rcases splitChunk_cases hSome hGas with
    ⟨hOne, hSplit⟩ | ⟨first, second, hFirst, hSecond, hItems,
      hSplit⟩
  · rw [hSplit]
    simp only [itemShares, List.flatMap_cons,
      List.flatMap_nil, List.append_nil]
    apply hReplicate
    exact div_le_div_of_nonneg_right hCapQ (Nat.cast_nonneg _)
  · have hLength :
        c.items.length = first.length + second.length := by
      rw [hItems, List.length_append]
    have hShare :
        ∀ n : Nat, 1 ≤ n → n ≤ c.items.length →
          (c.gas : ℚ) / c.items.length ≤ (c.gas : ℚ) / n := by
      intro n hn hLe
      apply div_le_div_of_nonneg_left hGasQ
      · exact_mod_cast hn
      · exact_mod_cast hLe
    rw [hSplit]
    simp only [itemShares, List.flatMap_cons,
      List.flatMap_nil, List.append_nil]
    rw [hLength, List.replicate_add]
    apply List.rel_append
    · apply hReplicate
      rw [← hLength]
      exact hShare _ hFirst (by omega)
    · apply hReplicate
      rw [← hLength]
      exact hShare _ hSecond (by omega)

end

end

----
-- Runs of Splits
----

section

variable {α : Type} {capGas : Int}
variable {queue queue' : List (GasChunk α)}

section

variable (h : SplitStep capGas queue queue')
include h

theorem SplitStep.items :
    queueItems queue' = queueItems queue := by
  rcases h with ⟨front, c, back, rfl, _, rfl⟩
  simp only [queueItems_append, queueItems_cons,
    splitChunk_items, List.append_assoc]

theorem SplitStep.sendable
    (hQueue : Sendable capGas queue) :
    Sendable capGas queue' := by
  rcases h with ⟨front, c, back, rfl, _, rfl⟩
  have hc := hQueue c (by simp)
  intro d hd
  simp only [List.mem_append] at hd
  rcases hd with (hd | hd) | hd
  · exact hQueue d (List.mem_append_left _ hd)
  · exact splitChunk_sendable hc.1 hc.2 d hd
  · exact
      hQueue d
        (List.mem_append_right _ (List.mem_cons_of_mem _ hd))

theorem SplitStep.budget
    (hQueue : Sendable capGas queue) :
    splitBudget capGas queue' < splitBudget capGas queue := by
  rcases h with ⟨front, c, back, rfl, hOpen, rfl⟩
  have hc := hQueue c (by simp)
  have hLess := splitChunk_budget hc.1 hc.2 hOpen
  simp only [splitBudget, List.map_append, List.map_cons,
    List.sum_append, List.sum_cons] at *
  omega

end

theorem itemShares_append
    (xs ys : List (GasChunk α)) :
    itemShares (xs ++ ys) = itemShares xs ++ itemShares ys := by
  unfold itemShares
  rw [List.flatMap_append]

theorem forall₂_le_refl
    (shares : List ℚ) :
    List.Forall₂ (· ≤ ·) shares shares :=
  List.forall₂_same.mpr (fun _ _ => le_refl _)

theorem forall₂_le_trans
    {xs ys zs : List ℚ}
    (hFirst : List.Forall₂ (· ≤ ·) xs ys)
    (hSecond : List.Forall₂ (· ≤ ·) ys zs) :
    List.Forall₂ (· ≤ ·) xs zs := by
  induction hFirst generalizing zs with
  | nil =>
      cases hSecond
      exact .nil
  | cons hxy _ ih =>
      cases hSecond with
      | cons hyz hRest => exact .cons (hxy.trans hyz) (ih hRest)

theorem SplitStep.shares
    (h : SplitStep capGas queue queue')
    (hQueue : Sendable capGas queue)
    (hGas : ∀ c ∈ queue, 0 ≤ c.gas) :
    List.Forall₂ (· ≤ ·) (itemShares queue)
      (itemShares queue') := by
  rcases h with ⟨front, c, back, rfl, _, rfl⟩
  have hc := hQueue c (by simp)
  have hSplit := splitChunk_shares hc.1 hc.2 (hGas c (by simp))
  have hCons : front ++ c :: back = front ++ [c] ++ back := by
    simp
  rw [hCons]
  simp only [itemShares_append]
  exact
    List.rel_append
      (List.rel_append (forall₂_le_refl _) hSplit)
      (forall₂_le_refl _)

theorem SplitStep.nonneg
    (h : SplitStep capGas queue queue')
    (hQueue : Sendable capGas queue)
    (hGas : ∀ c ∈ queue, 0 ≤ c.gas) :
    ∀ c ∈ queue', 0 ≤ c.gas := by
  rcases h with ⟨front, c, back, rfl, _, rfl⟩
  have hc := hQueue c (by simp)
  have hcGas := hGas c (by simp)
  intro d hd
  simp only [List.mem_append] at hd
  rcases hd with (hd | hd) | hd
  · exact hGas d (List.mem_append_left _ hd)
  · rcases splitChunk_cases hc.1 hc.2 with
      ⟨_, hSplit⟩ | ⟨first, second, _, _, _, hSplit⟩
    · rw [hSplit] at hd
      rw [List.mem_singleton.mp hd]
      exact hcGas.trans hc.2
    · rw [hSplit] at hd
      rcases List.mem_pair.mp hd with rfl | rfl
      · exact hcGas
      · exact hcGas
  · exact
      hGas d
        (List.mem_append_right _ (List.mem_cons_of_mem _ hd))

/-
  Splitting whichever chunks fail: it ends, with one item a
  chunk at the cap; no item is lost or doubled, and none gets
  a smaller share of gas.
-/
structure SplitsDown
    (capGas : Int)
    (queue : List (GasChunk α)) : Prop where
  items_eq :
    ∀ queue', Splits capGas queue queue' →
      queueItems queue' = queueItems queue
  sendable :
    ∀ queue', Splits capGas queue queue' →
      Sendable capGas queue'
  ends :
    ∀ run : Nat → List (GasChunk α), run 0 = queue →
      ∃ n, ¬ SplitStep capGas (run n) (run (n + 1))
  last :
    ∀ queue', Splits capGas queue queue' →
      (∀ next, ¬ SplitStep capGas queue' next) →
        ∀ c ∈ queue', c.items.length = 1 ∧ c.gas = capGas
  shares :
    (∀ c ∈ queue, 0 ≤ c.gas) →
      ∀ queue', Splits capGas queue queue' →
        List.Forall₂ (· ≤ ·) (itemShares queue)
          (itemShares queue')

section

variable (h : Splits capGas queue queue')
include h

theorem Splits.sendable
    (hQueue : Sendable capGas queue) :
    Sendable capGas queue' := by
  induction h with
  | refl => exact hQueue
  | tail _ hStep ih => exact hStep.sendable ih

theorem Splits.items :
    queueItems queue' = queueItems queue := by
  induction h with
  | refl => rfl
  | tail _ hStep ih => exact hStep.items.trans ih

theorem Splits.shares
    (hQueue : Sendable capGas queue)
    (hGas : ∀ c ∈ queue, 0 ≤ c.gas) :
    List.Forall₂ (· ≤ ·) (itemShares queue)
        (itemShares queue') ∧
      ∀ c ∈ queue', 0 ≤ c.gas := by
  induction h with
  | refl => exact ⟨forall₂_le_refl _, hGas⟩
  | tail hRun hStep ih =>
      have hMid := Splits.sendable hRun hQueue
      have hMore := hStep.shares hMid ih.2
      exact
        ⟨forall₂_le_trans ih.1 hMore, hStep.nonneg hMid ih.2⟩

end

/- The budget of splits falls at every one of them. -/
theorem splits_end
    (hQueue : Sendable capGas queue)
    (run : Nat → List (GasChunk α))
    (hStart : run 0 = queue) :
    ∃ n, ¬ SplitStep capGas (run n) (run (n + 1)) := by
  by_contra hForever
  simp only [not_exists, not_not] at hForever
  have hLess :
      ∀ n,
        Sendable capGas (run n) ∧
          splitBudget capGas (run n) + n ≤
            splitBudget capGas queue := by
    intro n
    induction n with
    | zero =>
        rw [hStart]
        exact ⟨hQueue, le_refl _⟩
    | succ n ih =>
        have hStep := hForever n
        have hFall := hStep.budget ih.1
        exact ⟨hStep.sendable ih.1, by omega⟩
  have hTooMany := (hLess (splitBudget capGas queue + 1)).2
  omega

theorem splitsDown
    (hQueue : Sendable capGas queue) :
    SplitsDown capGas queue where
  items_eq := fun _ h => h.items
  sendable := fun _ h => h.sendable hQueue
  ends := splits_end hQueue
  last := by
    intro queue' h hStuck c hc
    have hLast : IsLast capGas c := by
      by_contra hOpen
      rcases List.append_of_mem hc with ⟨front, back, hSplit⟩
      exact hStuck _ ⟨front, c, back, hSplit, hOpen, rfl⟩
    have hLe := (h.sendable hQueue c hc).2
    exact ⟨hLast.1, le_antisymm hLe hLast.2⟩
  shares := fun hGas _ h => (h.shares hQueue hGas).1

end

----
-- The Bounded Partition
----

variable {α : Type}

theorem GasPartition.sendable
    {budget : List α → Int}
    {capGas : Int}
    {maxItems : Nat}
    {items : List α}
    {chunks : List (GasChunk α)}
    (h : GasPartition budget capGas maxItems items chunks) :
    Sendable capGas chunks :=
  fun c hc => ⟨(h.size c hc).1, h.gas_le hc⟩

/- No gas of the options is negative. -/
structure ChunkOptions.Nonneg
    (options : ChunkOptions α) : Prop where
  base : 0 ≤ options.baseGas
  cap : 0 ≤ options.capGas
  item : ∀ x, 0 ≤ options.gasOf x

theorem chunkBudget_nonneg
    {options : ChunkOptions α}
    (h : options.Nonneg)
    (items : List α) :
    0 ≤ chunkBudget options items := by
  have hSum : 0 ≤ (items.map options.gasOf).sum := by
    apply List.sum_nonneg
    intro g hg
    rcases List.mem_map.mp hg with ⟨x, _, rfl⟩
    exact h.item x
  have hBase := h.base
  unfold chunkBudget
  omega

/-
  Both loops partition their items into chunks within the
  cap, and splitting the chunks that fail ends at one item
  each.
-/
theorem gas_chunks_bounded
    (items : List α)
    (options : ChunkOptions α)
    (creates : CreateOptions α)
    (hMax : 1 ≤ options.maxItems)
    (hCreates : 1 ≤ creates.maxItems) :
    GasPartition (chunkBudget options) options.capGas
        options.maxItems items (chunkByGas items options) ∧
      GasPartition (createBudget creates) creates.capGas
        creates.maxItems
        (GroupedOrder.grouped creates.group items)
        (chunkCreates items creates) ∧
      SplitsDown options.capGas (chunkByGas items options) ∧
      SplitsDown creates.capGas (chunkCreates items creates) ∧
      (options.Nonneg →
        ∀ c ∈ chunkByGas items options, 0 ≤ c.gas) := by
  have hByGas := chunkByGas_partition items options hMax
  have hByGroup := chunkCreates_partition items creates hCreates
  refine
    ⟨hByGas, hByGroup, splitsDown hByGas.sendable,
      splitsDown hByGroup.sendable, ?_⟩
  intro hNonneg c hc
  rw [hByGas.gas_eq c hc]
  exact le_min hNonneg.cap (chunkBudget_nonneg hNonneg c.items)

/- Five creates of two groups, three to a chunk. -/
def fiveCreates : List (String × Nat) :=
  [("a", 1), ("b", 2), ("a", 3), ("b", 4), ("a", 5)]

def creates3 : CreateOptions (String × Nat) :=
  { group := Prod.fst
    pinGasOf := fun _ => 1000
    eachGas := 100
    baseGas := 10
    capGas := 2250
    maxItems := 3 }

theorem fiveCreates_bounded :
    GasPartition (createBudget creates3) 2250 3
      (GroupedOrder.grouped Prod.fst fiveCreates)
      [{ items := [("a", 1), ("a", 3), ("a", 5)], gas := 1310 },
        { items := [("b", 2), ("b", 4)], gas := 1210 }] := by
  have hChunks :
      chunkCreates fiveCreates creates3 =
        [{ items := [("a", 1), ("a", 3), ("a", 5)], gas := 1310 },
          { items := [("b", 2), ("b", 4)], gas := 1210 }] := by
    decide +kernel
  rw [← hChunks]
  exact
    (gas_chunks_bounded fiveCreates
      { gasOf := fun _ => 1
        baseGas := 0
        capGas := 9
        maxItems := 3 }
      creates3 (by decide) (by decide)).2.1

end Callhouse.Keeper.Cranker
