import Callhouse.Keeper.Cranker.Scanner
import Mathlib.Data.List.Sort
import Mathlib.Tactic

/-
  keeper/src/v2/cranker/planner.ts: what is left to do for an
  expiry, whom to redeem, and how a batch is cut into chunks
  of fixed gas.

  Main declarations:
    * `planExpiry`, `planExpiry_finalized`
    * `selectRedeemable`, `mem_selectRedeemable`
    * `chunkByGas_items`, `splitChunk_items`
-/

----
-- Expiries
----

namespace Callhouse.Keeper.Cranker

inductive SettlementStatusName where
  | None
  | Pending
  | Finalized
  | Held
deriving DecidableEq

structure SeriesView where
  longId : Int
  settled : Bool
  longSupply : Int
  shortSupply : Int
  prunableOrders : Int
deriving DecidableEq

structure ExpiryView where
  expiry : Int
  now : Int
  openInterest : Int
  status : SettlementStatusName
  series : List SeriesView
  houseBoundary : Bool
deriving DecidableEq

structure ExpiryPlan where
  settle : List Int
  prune : List Int
  redeem : List Int
  done : Bool
deriving DecidableEq

def SeriesView.hasPrunable
    (s : SeriesView) : Bool :=
  decide (s.prunableOrders > 0)

def SeriesView.toSettle
    (s : SeriesView) : Bool :=
  !s.settled && decide (s.longSupply > 0)

def SeriesView.toRedeem
    (s : SeriesView) : Bool :=
  s.settled &&
    (decide (s.longSupply > 0) || decide (s.shortSupply > 0))

def ExpiryView.needsPrice
    (view : ExpiryView) : Bool :=
  view.houseBoundary || decide (view.openInterest > 0) ||
    view.series.any (fun s =>
      decide (s.longSupply > 0) || decide (s.shortSupply > 0))

def ExpiryPlan.nothing : ExpiryPlan :=
  { settle := []
    prune := []
    redeem := []
    done := false }

/-
  What the settle, prune and redeem steps read of the plan.
  Without a final price an expiry that needs one only prunes;
  how its price is snapshotted and finalized is not here.
-/
def planExpiry
    (view : ExpiryView) : ExpiryPlan :=
  if view.now < view.expiry then .nothing
  else
    let prune :=
      (view.series.filter (fun s => s.hasPrunable)).map
        (fun s => s.longId)
    if view.status = .Finalized then
      let settle :=
        (view.series.filter (fun s => s.toSettle)).map
          (fun s => s.longId)
      let redeem :=
        (view.series.filter (fun s => s.toRedeem)).map
          (fun s => s.longId)
      { settle := settle
        prune := prune
        redeem := redeem
        done := settle.isEmpty && redeem.isEmpty &&
          prune.isEmpty }
    else if view.needsPrice = false then
      { ExpiryPlan.nothing with
        prune := prune
        done := prune.isEmpty }
    else { ExpiryPlan.nothing with prune := prune }

/- A final expiry's plan, series by series. -/
theorem planExpiry_finalized
    {view : ExpiryView}
    (hExpired : view.expiry ≤ view.now)
    (hFinal : view.status = .Finalized) :
    (∀ s ∈ view.series,
        (s.toSettle = true → s.longId ∈ (planExpiry view).settle) ∧
          (s.toRedeem = true →
            s.longId ∈ (planExpiry view).redeem) ∧
          (s.hasPrunable = true →
            s.longId ∈ (planExpiry view).prune)) ∧
      ((planExpiry view).done = true →
        (planExpiry view).settle = [] ∧
          (planExpiry view).redeem = [] ∧
          (planExpiry view).prune = []) := by
  have hOpen : ¬ view.now < view.expiry := by omega
  unfold planExpiry
  simp only [if_neg hOpen, if_pos hFinal]
  constructor
  · intro s hs
    refine ⟨?_, ?_, ?_⟩
    all_goals
      intro h
      exact
        List.mem_map.mpr
          ⟨s, List.mem_filter.mpr ⟨hs, h⟩, rfl⟩
  · intro hDone
    simp only [Bool.and_eq_true, List.isEmpty_iff] at hDone
    exact ⟨hDone.1.1, hDone.1.2, hDone.2⟩

----
-- Orders
----

inductive OrderKindName where
  | Bid
  | AskResale
  | AskWrite
deriving DecidableEq

structure OrderView where
  id : Int
  maker : String
  kind : OrderKindName
  units : Int
  filled : Int
  validUntil : Int
  cancelled : Bool
deriving DecidableEq

def isDeadOrder
    (order : OrderView) : Bool :=
  decide (lc order.maker = zeroAddress) ||
    order.cancelled || decide (order.filled ≥ order.units)

def prunePriority : OrderKindName → Int
  | .AskResale => 0
  | .Bid => 1
  | .AskWrite => 2

/- The book prunes the order now. -/
def isPrunable
    (now : Int)
    (o : OrderView) : Bool :=
  !isDeadOrder o && decide (now ≥ o.validUntil)

/- Resale asks, then bids, then write asks, by id in a kind. -/
def prunesBefore
    (a b : OrderView) : Prop :=
  prunePriority a.kind < prunePriority b.kind ∨
    prunePriority a.kind = prunePriority b.kind ∧ a.id ≤ b.id

instance : DecidableRel prunesBefore :=
  fun a b =>
    inferInstanceAs
      (Decidable
        (prunePriority a.kind < prunePriority b.kind ∨
          prunePriority a.kind = prunePriority b.kind ∧
            a.id ≤ b.id))

def prunableOrders
    (orders : List OrderView)
    (now : Int) : List OrderView :=
  (orders.filter (isPrunable now)).insertionSort prunesBefore

theorem mem_prunableOrders
    (orders : List OrderView)
    (now : Int)
    (o : OrderView) :
    o ∈ prunableOrders orders now ↔
      o ∈ orders ∧ isPrunable now o = true := by
  unfold prunableOrders
  rw [List.mem_insertionSort, List.mem_filter]

----
-- Redemption
----

structure HolderView where
  holder : String
  balance : Int
  thirdPartyAllowed : Bool
  inKind : Bool
deriving DecidableEq

structure RedeemSelection where
  redeem : List HolderView
  empty : Int
  optedOut : Int
  zeroPayout : Int
deriving DecidableEq

structure RedeemOptions where
  perUnitPayout : Int
  burnZero : Bool
deriving DecidableEq

/- The first view of every holder, in order. -/
def firstOfHolder : List HolderView → List HolderView
  | [] => []
  | h :: rest =>
      h ::
        (firstOfHolder rest).filter
          (fun x => lc x.holder ≠ lc h.holder)

/- What `selectRedeemable` makes of one holder. -/
inductive HolderClass where
  | empty
  | optedOut
  | zeroPayout
  | redeem
deriving DecidableEq

def classifyHolder
    (options : RedeemOptions)
    (h : HolderView) : HolderClass :=
  if h.balance = 0 then .empty
  else if h.thirdPartyAllowed = false then .optedOut
  else if options.perUnitPayout = 0 ∧ options.burnZero = false then
    .zeroPayout
  else .redeem

def selectRedeemable
    (holders : List HolderView)
    (options : RedeemOptions) : RedeemSelection :=
  let seen := firstOfHolder holders
  let counted c : Int :=
    (seen.filter (fun h => classifyHolder options h = c)).length
  { redeem :=
      (seen.filter
        (fun h => classifyHolder options h = .redeem)).insertionSort
          (fun a b => ¬ lc b.holder < lc a.holder)
    empty := counted .empty
    optedOut := counted .optedOut
    zeroPayout := counted .zeroPayout }

theorem exists_firstOfHolder
    {holders : List HolderView}
    {h : HolderView}
    (hIn : h ∈ holders) :
    ∃ x ∈ firstOfHolder holders, lc x.holder = lc h.holder := by
  induction holders with
  | nil => cases hIn
  | cons y rest ih =>
      by_cases hSame : lc y.holder = lc h.holder
      · exact ⟨y, List.mem_cons_self, hSame⟩
      · rcases List.mem_cons.mp hIn with rfl | hRest
        · exact absurd rfl hSame
        · rcases ih hRest with ⟨x, hx, hxSame⟩
          refine ⟨x, List.mem_cons_of_mem _ ?_, hxSame⟩
          apply List.mem_filter.mpr
          refine ⟨hx, decide_eq_true ?_⟩
          rw [hxSame]
          exact fun hEq => hSame hEq.symm

theorem firstOfHolder_subset
    (holders : List HolderView) :
    firstOfHolder holders ⊆ holders := by
  induction holders with
  | nil => exact List.Subset.refl _
  | cons y rest ih =>
      intro x hx
      rcases List.mem_cons.mp hx with rfl | hRest
      · exact List.mem_cons_self
      · exact
          List.mem_cons_of_mem _
            (ih (List.mem_filter.mp hRest).1)

theorem mem_selectRedeemable
    (holders : List HolderView)
    (options : RedeemOptions)
    (h : HolderView) :
    h ∈ (selectRedeemable holders options).redeem ↔
      h ∈ firstOfHolder holders ∧
        classifyHolder options h = .redeem := by
  unfold selectRedeemable
  simp only [List.mem_insertionSort, List.mem_filter,
    decide_eq_true_eq]

/- A holder left alone has nothing, or is to be left alone. -/
theorem not_redeem_iff
    (options : RedeemOptions)
    (h : HolderView) :
    classifyHolder options h ≠ .redeem ↔
      h.balance = 0 ∨ h.thirdPartyAllowed = false ∨
        options.perUnitPayout = 0 ∧
          options.burnZero = false := by
  unfold classifyHolder
  by_cases hEmpty : h.balance = 0
  · simp [hEmpty]
  · by_cases hOut : h.thirdPartyAllowed = false
    · simp [hEmpty, hOut]
    · by_cases hZero :
        options.perUnitPayout = 0 ∧ options.burnZero = false
      · simp [hEmpty, hOut, hZero]
      · rw [if_neg hEmpty, if_neg hOut, if_neg hZero]
        simp [hEmpty, hOut, hZero]

----
-- Chunks of Fixed Gas
----

section

structure GasChunk
    (α : Type) where
  items : List α
  gas : Int
deriving DecidableEq

structure ChunkOptions
    (α : Type) where
  gasOf : α → Int
  baseGas : Int
  capGas : Int
  maxItems : Nat

variable {α : Type}

/- The chunks closed so far and the one being filled. -/
structure ChunkState
    (α : Type) where
  chunks : List (GasChunk α)
  current : GasChunk α

def addToChunk
    (options : ChunkOptions α)
    (state : ChunkState α)
    (item : α) : ChunkState α :=
  let g := options.gasOf item
  let state :=
    if state.current.items.length > 0 ∧
        (state.current.gas + g > options.capGas ∨
          state.current.items.length ≥ options.maxItems) then
      { chunks := state.chunks ++ [state.current]
        current := { items := [], gas := options.baseGas } }
    else state
  { state with
    current :=
      { items := state.current.items ++ [item]
        gas := state.current.gas + g } }

def chunkByGas
    (items : List α)
    (options : ChunkOptions α) : List (GasChunk α) :=
  let state :=
    items.foldl (addToChunk options)
      { chunks := []
        current := { items := [], gas := options.baseGas } }
  let chunks :=
    if state.current.items.length > 0 then
      state.chunks ++ [state.current]
    else state.chunks
  chunks.map (fun c =>
    { items := c.items
      gas :=
        if c.gas > options.capGas then options.capGas
        else c.gas })

/- A chunk that fell short, in halves at the parent's gas. -/
def splitChunk
    (chunk : GasChunk α)
    (capGas : Int) : List (GasChunk α) :=
  let n := chunk.items.length
  if n = 0 then []
  else if n = 1 then [{ items := chunk.items, gas := capGas }]
  else
    let gas := if chunk.gas > capGas then capGas else chunk.gas
    let mid := (n + 1) / 2
    [{ items := chunk.items.take mid, gas := gas },
      { items := chunk.items.drop mid, gas := gas }]

/- The items of a queue of chunks, in order. -/
def queueItems
    (queue : List (GasChunk α)) : List α :=
  queue.flatMap (fun c => c.items)

@[simp]
theorem queueItems_cons
    (c : GasChunk α)
    (queue : List (GasChunk α)) :
    queueItems (c :: queue) = c.items ++ queueItems queue := by
  unfold queueItems
  rw [List.flatMap_cons]

@[simp]
theorem queueItems_append
    (xs ys : List (GasChunk α)) :
    queueItems (xs ++ ys) = queueItems xs ++ queueItems ys := by
  unfold queueItems
  rw [List.flatMap_append]

theorem addToChunk_items
    (options : ChunkOptions α)
    (state : ChunkState α)
    (item : α) :
    queueItems (addToChunk options state item).chunks ++
        (addToChunk options state item).current.items =
      queueItems state.chunks ++ state.current.items ++
        [item] := by
  unfold addToChunk
  simp only
  split <;> simp [queueItems]

/- Every item is in exactly one chunk, in its order. -/
theorem chunkByGas_items
    (items : List α)
    (options : ChunkOptions α) :
    queueItems (chunkByGas items options) = items := by
  have hFold :
      ∀ (xs : List α) (state : ChunkState α),
        queueItems (xs.foldl (addToChunk options) state).chunks ++
            (xs.foldl (addToChunk options) state).current.items =
          queueItems state.chunks ++ state.current.items ++
            xs := by
    intro xs
    induction xs with
    | nil =>
        intro state
        rw [List.foldl_nil, List.append_nil]
    | cons x rest ih =>
        intro state
        rw [List.foldl_cons, ih, addToChunk_items,
          List.append_assoc]
        rfl
  have hAll :=
    hFold items
      { chunks := []
        current := { items := [], gas := options.baseGas } }
  have hGas :
      ∀ chunks : List (GasChunk α),
        queueItems
            (chunks.map (fun c =>
              { items := c.items
                gas :=
                  if c.gas > options.capGas then options.capGas
                  else c.gas })) =
          queueItems chunks := by
    intro chunks
    unfold queueItems
    rw [List.flatMap_map]
  unfold chunkByGas
  simp only
  rw [hGas]
  split
  · rw [queueItems_append]
    simpa [queueItems] using hAll
  · next hNone =>
      have hEmpty :=
        List.eq_nil_of_length_eq_zero
          (Nat.eq_zero_of_not_pos hNone)
      rw [hEmpty] at hAll
      simpa [queueItems] using hAll

theorem splitChunk_items
    (chunk : GasChunk α)
    (capGas : Int) :
    queueItems (splitChunk chunk capGas) = chunk.items := by
  unfold splitChunk
  simp only
  split
  · next hZero =>
      rw [List.eq_nil_of_length_eq_zero hZero]
      rfl
  · split
    · simp [queueItems]
    · simp [queueItems]

end

----
-- The Expiries of a Tick
----

structure ExpiryKey where
  oracle : String
  underlying : String
  expiry : Int
deriving DecidableEq

/- The key of its row: addresses in lower case. -/
def expiryKeyString
    (k : ExpiryKey) : ExpiryKey :=
  { k with
    oracle := lc k.oracle
    underlying := lc k.underlying }

/- The first key of every row not done and within reach. -/
def eligibleExpiries
    (done : List ExpiryKey)
    (now horizonS : Int) :
    List ExpiryKey → List ExpiryKey → List ExpiryKey
  | _, [] => []
  | seen, k :: rest =>
      if expiryKeyString k ∈ seen ∨ expiryKeyString k ∈ done ∨
          k.expiry > now + horizonS then
        eligibleExpiries done now horizonS seen rest
      else
        k ::
          eligibleExpiries done now horizonS
            (expiryKeyString k :: seen) rest

/- Recent expiries first, the older backlog in rotation. -/
def selectExpiries
    (all done : List ExpiryKey)
    (now horizonS : Int)
    (limit : Nat)
    (recentS : Option Int)
    (backlogOffset : Nat) : List ExpiryKey :=
  let eligible :=
    eligibleExpiries done now horizonS []
      (all.insertionSort (fun a b => a.expiry ≤ b.expiry))
  match recentS with
  | none => eligible.take limit
  | some recentS =>
      let cutoff := now - recentS
      let recent :=
        eligible.filter (fun k => decide (k.expiry ≥ cutoff))
      let backlog :=
        eligible.filter (fun k => decide (k.expiry < cutoff))
      let out := recent.take limit
      let room := min (limit - out.length) backlog.length
      let start := backlogOffset % backlog.length
      out ++ (backlog.rotate start).take room

end Callhouse.Keeper.Cranker
