import Callhouse.Keeper.Mm.TickPlan
import Callhouse.Lib.Transition

/-
  keeper/src/v2/mm/quoter.ts: the kill switch beside one
  tick's send loop, the sender's serial queue and the chain,
  in every order of their steps.

  Main declarations:
    * `KillStep`, `Unhurried`
    * `kill_done_is_final`
    * `kill_done_then_place_lands`
-/

----
-- The Book
----

namespace Callhouse.Keeper.Mm

/- The chain's orders at one block, and its timestamp. -/
structure ChainBook where
  orders : List ChainOrder
  now : Int
deriving DecidableEq

/- A transaction of the plan with the vault it is sent to. -/
structure VaultTx where
  vault : String
  tx : MmTx
deriving DecidableEq

def MmTx.isCancel : MmTx → Bool
  | .cancel _ => true
  | _ => false

/- Places and replaces put units on the book. -/
def MmTx.rests : MmTx → Bool
  | .replace _ => true
  | .place _ => true
  | _ => false

/- Cancelled or filled orders are skipped, not refused. -/
def ChainOrder.cancelIn
    (o : ChainOrder)
    (vault : String)
    (orderIds : List Int) : ChainOrder :=
  if o.maker = vault ∧ o.id ∈ orderIds ∧ o.filled < o.units then
    { o with cancelled := true }
  else o

/- The orders after a transaction that did not revert. -/
def applyTx
    (orders : List ChainOrder)
    (newId : Int)
    (call : VaultTx) : List ChainOrder :=
  match call.tx with
  | .cancel tx =>
      orders.map (fun o => o.cancelIn call.vault tx.orderIds)
  | .replace a =>
      match
        orders.find? (fun o =>
          o.maker = call.vault ∧ o.id = a.orderId)
      with
      | none => orders
      | some old =>
          orders.map
              (fun o => o.cancelIn call.vault [a.orderId]) ++
            [{ old with
                id := newId
                price := a.price
                units := a.units
                filled := 0
                cancelled := false }]
  | .place a =>
      orders ++
        [{ id := newId
           kind := slotKind a.slot
           price := a.price
           units := a.units
           filled := 0
           validUntil := a.validUntil
           cancelled := false
           maker := call.vault
           longId := a.longId }]
  | .upkeep _ => orders

/- The cancel that a kill pass sends. -/
def killTx
    (vault : String)
    (orderIds : List Int) : VaultTx :=
  { vault := vault
    tx :=
      .cancel
        { orderIds := orderIds
          longIds := []
          reason := "kill switch"
          protective := false } }

/- The kill targets of one vault. -/
def ChainBook.targets
    (book : ChainBook)
    (vault : String) : List ChainOrder :=
  book.orders.filter (fun o =>
    o.maker = vault ∧ isKillTarget o.toLiveOrder book.now)

----
-- Tick, Queue, Kill and Chain
----

inductive TickPhase where
  | idle
  | sending (txs : List VaultTx)
  | reserve (call : VaultTx) (txs : List VaultTx)
  | awaiting (txs : List VaultTx)
deriving DecidableEq

/-
  The kill's passes, numbered from 0; pass 5 is the final
  re-read, which cancels nothing.  `head` is the book at the
  pass's head block: every vault of the pass is read there.
-/
inductive KillPhase where
  | idle
  | reading (pass : Nat)
  | walking
      (pass : Nat) (head : ChainBook)
      (vaults : List String) (anyTargets : Bool)
  | cancelling
      (pass : Nat) (head : ChainBook)
      (vault : String) (orderIds : List Int)
      (vaults : List String)
  | awaiting
      (pass : Nat) (head : ChainBook)
      (vault : String) (orderIds : List Int)
      (vaults : List String)
deriving DecidableEq

/- A place in the sender's queue; only the first one runs. -/
structure QueuedTx where
  call : VaultTx
  byKill : Bool
  broadcast : Bool
deriving DecidableEq

structure KillState where
  book : ChainBook
  mempool : List VaultTx
  queue : List QueuedTx
  tick : TickPhase
  phase : KillPhase
  killed : Bool
  done : Bool
deriving DecidableEq

def KillState.Start
    (s : KillState) : Prop :=
  s.queue = [] ∧ s.tick = .idle ∧ s.phase = .idle ∧
    s.killed = false ∧ s.done = false

def inScope
    (scope : Option String)
    (vault : String) : Prop :=
  ∀ v, scope = some v → vault = v

instance
    (scope : Option String)
    (vault : String) :
    Decidable (inScope scope vault) :=
  match scope with
  | none => .isTrue nofun
  | some v =>
      if h : vault = v then
        .isTrue (fun w hw => by cases hw; exact h)
      else .isFalse (fun hAll => h (hAll v rfl))

/- The vaults that the kill walks. -/
def killVaults
    (scope : Option String)
    (fleet : List String) : List String :=
  match scope with
  | some vault => [vault]
  | none => fleet

/- What `mm.killedFor(vault)` answers. -/
def KillState.killedFor
    (s : KillState)
    (scope : Option String)
    (vault : String) : Prop :=
  s.killed = true ∧ inScope scope vault

/- Both loops wait for their own transaction's outcome. -/
def KillState.finished
    (s : KillState)
    (byKill : Bool)
    (queue : List QueuedTx) : KillState :=
  { s with
    queue := queue
    tick :=
      match byKill, s.tick with
      | false, .awaiting txs => .sending txs
      | _, tick => tick
    phase :=
      match byKill, s.phase with
      | true, .awaiting pass head vault orderIds vaults =>
          .cancelling pass head vault orderIds vaults
      | _, phase => phase }

/- The end of a pass, every vault of it read. -/
def KillState.passed
    (s : KillState)
    (pass : Nat)
    (anyTargets : Bool) : KillState :=
  if anyTargets = false then
    { s with phase := .idle, done := true }
  else if pass < 5 then { s with phase := .reading (pass + 1) }
  else { s with phase := .idle }

inductive KillStep
    (scope : Option String)
    (fleet : List String) : KillState → KillState → Prop where
  | tickBegun
      (s : KillState)
      (txs : List VaultTx)
      (hTick : s.tick = .idle) :
      KillStep scope fleet s { s with tick := .sending txs }
  | withheld
      (s : KillState)
      (call : VaultTx)
      (txs : List VaultTx)
      (hTick : s.tick = .sending (call :: txs)) :
      KillStep scope fleet s { s with tick := .sending txs }
  | tickEnded
      (s : KillState)
      (txs : List VaultTx)
      (hTick : s.tick = .sending txs) :
      KillStep scope fleet s { s with tick := .idle }
  | reserveAsked
      (s : KillState)
      (call : VaultTx)
      (txs : List VaultTx)
      (hTick : s.tick = .sending (call :: txs))
      (hAlive :
        call.tx.isCancel ∨ ¬ s.killedFor scope call.vault)
      (hRests : call.tx.rests) :
      KillStep scope fleet s { s with tick := .reserve call txs }
  | reserveHeld
      (s : KillState)
      (call : VaultTx)
      (txs : List VaultTx)
      (hTick : s.tick = .reserve call txs) :
      KillStep scope fleet s { s with tick := .sending txs }
  | handed
      (s : KillState)
      (call : VaultTx)
      (txs : List VaultTx)
      (hTick : s.tick = .sending (call :: txs))
      (hAlive :
        call.tx.isCancel ∨ ¬ s.killedFor scope call.vault) :
      KillStep scope fleet s
        { s with
          tick := .awaiting txs
          queue := s.queue ++ [⟨call, false, false⟩] }
  | handedAfterReserve
      (s : KillState)
      (call : VaultTx)
      (txs : List VaultTx)
      (hTick : s.tick = .reserve call txs) :
      KillStep scope fleet s
        { s with
          tick := .awaiting txs
          queue := s.queue ++ [⟨call, false, false⟩] }
  | broadcast
      (s : KillState)
      (job : QueuedTx)
      (queue : List QueuedTx)
      (hQueue : s.queue = job :: queue)
      (hNew : job.broadcast = false) :
      KillStep scope fleet s
        { s with
          queue := { job with broadcast := true } :: queue
          mempool := job.call :: s.mempool }
  | answerLost
      (s : KillState)
      (job : QueuedTx)
      (queue : List QueuedTx)
      (hQueue : s.queue = job :: queue)
      (hNew : job.broadcast = false) :
      KillStep scope fleet s
        { s.finished job.byKill queue with
          mempool := job.call :: s.mempool }
  | finished
      (s : KillState)
      (job : QueuedTx)
      (queue : List QueuedTx)
      (hQueue : s.queue = job :: queue) :
      KillStep scope fleet s (s.finished job.byKill queue)
  | killStored
      (s : KillState)
      (hPhase : s.phase = .idle) :
      KillStep scope fleet s
        { s with killed := true, phase := .reading 0 }
  | headRead
      (s : KillState)
      (pass : Nat)
      (hPhase : s.phase = .reading pass) :
      KillStep scope fleet s
        { s with
          phase :=
            .walking pass s.book (killVaults scope fleet)
              false }
  | vaultClear
      (s : KillState)
      (pass : Nat)
      (head : ChainBook)
      (vault : String)
      (vaults : List String)
      (anyTargets : Bool)
      (hPhase :
        s.phase =
          .walking pass head (vault :: vaults) anyTargets)
      (hTargets : head.targets vault = []) :
      KillStep scope fleet s
        { s with
          phase := .walking pass head vaults anyTargets }
  | vaultTargets
      (s : KillState)
      (pass : Nat)
      (head : ChainBook)
      (vault : String)
      (vaults : List String)
      (anyTargets : Bool)
      (hPhase :
        s.phase =
          .walking pass head (vault :: vaults) anyTargets)
      (hTargets : head.targets vault ≠ []) :
      KillStep scope fleet s
        { s with
          phase :=
            if pass < 5 then
              .cancelling pass head vault
                ((head.targets vault).map (fun o => o.id))
                vaults
            else .walking pass head vaults true }
  | cancelHanded
      (s : KillState)
      (pass : Nat)
      (head : ChainBook)
      (vault : String)
      (orderIds : List Int)
      (vaults : List String)
      (hPhase :
        s.phase = .cancelling pass head vault orderIds vaults)
      (hIds : orderIds ≠ []) :
      KillStep scope fleet s
        { s with
          phase :=
            .awaiting pass head vault
              (orderIds.drop cancelChunk) vaults
          queue :=
            s.queue ++
              [⟨killTx vault (orderIds.take cancelChunk),
                true, false⟩] }
  | vaultCancelled
      (s : KillState)
      (pass : Nat)
      (head : ChainBook)
      (vault : String)
      (vaults : List String)
      (hPhase :
        s.phase = .cancelling pass head vault [] vaults) :
      KillStep scope fleet s
        { s with phase := .walking pass head vaults true }
  | passed
      (s : KillState)
      (pass : Nat)
      (head : ChainBook)
      (anyTargets : Bool)
      (hPhase : s.phase = .walking pass head [] anyTargets) :
      KillStep scope fleet s (s.passed pass anyTargets)
  | included
      (s : KillState)
      (call : VaultTx)
      (newId : Int)
      (hPool : call ∈ s.mempool)
      (hNew : ∀ o ∈ s.book.orders, o.id ≠ newId) :
      KillStep scope fleet s
        { s with
          mempool := s.mempool.erase call
          book :=
            { s.book with
              orders := applyTx s.book.orders newId call } }
  | dropped
      (s : KillState)
      (call : VaultTx)
      (hPool : call ∈ s.mempool) :
      KillStep scope fleet s
        { s with mempool := s.mempool.erase call }
  | filled
      (s : KillState)
      (orderId filled : Int)
      (hFilled :
        ∀ o ∈ s.book.orders, o.id = orderId →
          o.filled ≤ filled ∧ filled ≤ o.units) :
      KillStep scope fleet s
        { s with
          book :=
            { s.book with
              orders := s.book.orders.map (fun o =>
                if o.id = orderId then
                  { o with filled := filled }
                else o) } }
  | pruned
      (s : KillState)
      (maker : String)
      (orderIds : List Int) :
      KillStep scope fleet s
        { s with
          book :=
            { s.book with
              orders := s.book.orders.map (fun o =>
                o.cancelIn maker orderIds) } }
  | foreign
      (s : KillState)
      (o : ChainOrder)
      (hMaker : o.maker ∉ killVaults scope fleet) :
      KillStep scope fleet s
        { s with
          book :=
            { s.book with orders := s.book.orders ++ [o] } }
  | clock
      (s : KillState)
      (now : Int)
      (hNow : s.book.now ≤ now) :
      KillStep scope fleet s
        { s with book := { s.book with now := now } }

----
-- Orders That Can Only Shrink
----

section

variable {scope : Option String} {fleet : List String}

/- The same order, filled further or cancelled. -/
structure ChainOrder.Later
    (o o' : ChainOrder) : Prop where
  maker : o'.maker = o.maker
  kind : o'.kind = o.kind
  units : o'.units = o.units
  validUntil : o'.validUntil = o.validUntil
  filled : o.filled ≤ o'.filled
  cancelled : o.cancelled = true → o'.cancelled = true

theorem ChainOrder.later_refl
    (o : ChainOrder) :
    o.Later o :=
  ⟨rfl, rfl, rfl, rfl, le_refl _, fun h => h⟩

theorem ChainOrder.later_cancelIn
    (o : ChainOrder)
    (vault : String)
    (orderIds : List Int) :
    o.Later (o.cancelIn vault orderIds) := by
  unfold ChainOrder.cancelIn
  split
  · exact ⟨rfl, rfl, rfl, rfl, le_refl _, fun _ => rfl⟩
  · exact o.later_refl

theorem isKillTarget_iff
    (o : LiveOrder)
    (now : Int) :
    isKillTarget o now = true ↔
      o.cancelled = false ∧ o.filled < o.units ∧
        (now < o.validUntil ∨ o.kind ≠ .AskWrite) := by
  unfold isKillTarget isLiveOrder isReclaimable
  simp only [Bool.or_eq_true, Bool.and_eq_true,
    Bool.not_eq_true', decide_eq_true_eq]
  constructor
  · rintro (⟨⟨hOpen, hUnits⟩, hLive⟩ |
      ⟨⟨⟨hOpen, hUnits⟩, _⟩, hKind⟩)
    · exact ⟨hOpen, hUnits, .inl hLive⟩
    · exact ⟨hOpen, hUnits, .inr hKind⟩
  · rintro ⟨hOpen, hUnits, hLeft⟩
    rcases lt_or_ge now o.validUntil with hLive | hExpired
    · exact .inl ⟨⟨hOpen, hUnits⟩, hLive⟩
    · rcases hLeft with hLive | hKind
      · omega
      · exact .inr ⟨⟨⟨hOpen, hUnits⟩, hExpired⟩, hKind⟩

/- What a kill need not cancel, it never need cancel. -/
theorem isKillTarget_of_later
    {o o' : ChainOrder}
    {now now' : Int}
    (hLater : o.Later o')
    (hNow : now ≤ now')
    (h : isKillTarget o'.toLiveOrder now' = true) :
    isKillTarget o.toLiveOrder now = true := by
  rw [isKillTarget_iff] at h ⊢
  rcases h with ⟨hOpen, hUnits, hLeft⟩
  refine ⟨?_, ?_, ?_⟩
  · cases hCancelled : o.cancelled with
    | false => rfl
    | true =>
        rw [hLater.cancelled hCancelled] at hOpen
        cases hOpen
  · have hFilled := hLater.filled
    have hSame := hLater.units
    omega
  · rw [hLater.validUntil, hLater.kind] at hLeft
    rcases hLeft with hLive | hKind
    · exact .inl (hNow.trans_lt hLive)
    · exact .inr hKind

/- No vault in the kill's scope has an order to cancel. -/
def NoTargets
    (scope : Option String)
    (fleet : List String)
    (book : ChainBook) : Prop :=
  ∀ vault ∈ killVaults scope fleet, book.targets vault = []

theorem noTargets_iff
    {book : ChainBook} :
    NoTargets scope fleet book ↔
      ∀ o ∈ book.orders, o.maker ∈ killVaults scope fleet →
        isKillTarget o.toLiveOrder book.now = false := by
  unfold NoTargets ChainBook.targets
  constructor
  · intro h o ho hMaker
    have hNone := h o.maker hMaker
    rw [List.filter_eq_nil_iff] at hNone
    have hOrder := hNone o ho
    simpa using hOrder
  · intro h vault hVault
    rw [List.filter_eq_nil_iff]
    intro o ho hTarget
    simp only [decide_eq_true_eq] at hTarget
    have hFalse := h o ho (hTarget.1 ▸ hVault)
    rw [hTarget.2] at hFalse
    cases hFalse

/- The scope's orders only shrink from one book to the next. -/
structure Shrinks
    (scope : Option String)
    (fleet : List String)
    (book book' : ChainBook) : Prop where
  now : book.now ≤ book'.now
  orders :
    ∀ o' ∈ book'.orders, o'.maker ∈ killVaults scope fleet →
      ∃ o ∈ book.orders, o.Later o'

theorem NoTargets.of_shrinks
    {book book' : ChainBook}
    (h : NoTargets scope fleet book)
    (hShrinks : Shrinks scope fleet book book') :
    NoTargets scope fleet book' := by
  rw [noTargets_iff] at h ⊢
  intro o' ho' hMaker
  rcases hShrinks.orders o' ho' hMaker with ⟨o, ho, hLater⟩
  cases hTarget : isKillTarget o'.toLiveOrder book'.now with
  | false => rfl
  | true =>
      have hOld :=
        isKillTarget_of_later hLater hShrinks.now hTarget
      rw [h o ho (hLater.maker ▸ hMaker)] at hOld
      cases hOld

/- Orders changed one by one, each to a later form. -/
theorem shrinks_map
    (book : ChainBook)
    (f : ChainOrder → ChainOrder)
    (hLater : ∀ o ∈ book.orders, o.Later (f o)) :
    Shrinks scope fleet book
      { book with orders := book.orders.map f } := by
  refine ⟨le_refl _, ?_⟩
  intro o' ho' _
  rcases List.mem_map.mp ho' with ⟨o, ho, rfl⟩
  exact ⟨o, ho, hLater o ho⟩

/- A place or a replace of a vault in the kill's scope. -/
def VaultTx.Rests
    (scope : Option String)
    (call : VaultTx) : Prop :=
  inScope scope call.vault ∧ call.tx.rests = true

instance
    (scope : Option String)
    (call : VaultTx) :
    Decidable (call.Rests scope) :=
  inferInstanceAs (Decidable (_ ∧ _))

theorem inScope_of_mem
    {vault : String}
    (h : vault ∈ killVaults scope fleet) :
    inScope scope vault := by
  intro v hv
  rw [hv] at h
  exact List.mem_singleton.mp h

/- Only a place or a replace adds to the scope's orders. -/
theorem shrinks_applyTx
    (book : ChainBook)
    (newId : Int)
    {call : VaultTx}
    (hCall : ¬ call.Rests scope) :
    Shrinks scope fleet book
      { book with
        orders := applyTx book.orders newId call } := by
  have hOutside :
      call.tx.rests = true →
        call.vault ∉ killVaults scope fleet :=
    fun hRests hMem => hCall ⟨inScope_of_mem hMem, hRests⟩
  have hCancel :
      ∀ orderIds, ∀ o' ∈ book.orders.map (fun o =>
          o.cancelIn call.vault orderIds),
        ∃ o ∈ book.orders, o.Later o' := by
    intro orderIds o' ho'
    rcases List.mem_map.mp ho' with ⟨o, ho, rfl⟩
    exact ⟨o, ho, o.later_cancelIn _ _⟩
  refine ⟨le_refl _, ?_⟩
  intro o' ho' hMaker
  unfold applyTx at ho'
  cases hTx : call.tx with
  | cancel tx =>
      rw [hTx] at ho'
      exact hCancel tx.orderIds o' ho'
  | replace a =>
      rw [hTx] at ho'
      have hNot := hOutside (by rw [hTx]; rfl)
      simp only at ho'
      split at ho'
      · exact ⟨o', ho', o'.later_refl⟩
      · next old hOld =>
          rcases List.mem_append.mp ho' with hHere | hNew
          · exact hCancel [a.orderId] o' hHere
          · have hFound := List.find?_some hOld
            simp only [decide_eq_true_eq] at hFound
            rw [List.mem_singleton.mp hNew] at hMaker
            exact absurd (hFound.1 ▸ hMaker) hNot
  | place a =>
      rw [hTx] at ho'
      have hNot := hOutside (by rw [hTx]; rfl)
      rcases List.mem_append.mp ho' with hHere | hNew
      · exact ⟨o', hHere, o'.later_refl⟩
      · rw [List.mem_singleton.mp hNew] at hMaker
        exact absurd hMaker hNot
  | upkeep type =>
      rw [hTx] at ho'
      exact ⟨o', ho', o'.later_refl⟩

end

----
-- A Finished Kill
----

section

variable {scope : Option String} {fleet : List String}
variable {s t : KillState}

/- No place or replace of the scope is on its way. -/
structure KillState.Still
    (s : KillState)
    (scope : Option String) : Prop where
  queue : ∀ job ∈ s.queue, ¬ job.call.Rests scope
  mempool : ∀ call ∈ s.mempool, ¬ call.Rests scope

/- No place or replace of the scope awaits its reserve read. -/
def KillState.Calm
    (s : KillState)
    (scope : Option String) : Prop :=
  ∀ call txs, s.tick = .reserve call txs → ¬ call.Rests scope

/-
  The kill is stored while no place or replace of its scope
  awaits the house-reserve read, and a pass that reads a book
  without targets reads it while none is queued, running, or
  broadcast and not yet included.
-/
def Unhurried
    (scope : Option String)
    (fleet : List String)
    (s t : KillState) : Prop :=
  (s.killed = false → t.killed = true → s.Calm scope) ∧
    ∀ pass, s.phase = .reading pass →
      t.phase ≠ .reading pass →
        NoTargets scope fleet s.book → s.Still scope

def QuietKill
    (scope : Option String)
    (fleet : List String)
    (s t : KillState) : Prop :=
  KillStep scope fleet s t ∧ Unhurried scope fleet s t

/- The calls of the queue that rest an order of the scope. -/
def KillState.resting
    (s : KillState)
    (scope : Option String) : List VaultTx :=
  (s.queue.map (fun job => job.call)).filter
    (fun call => call.Rests scope)

/- The book that the running pass decides on. -/
def KillPhase.head : KillPhase → Option ChainBook
  | .idle => none
  | .reading _ => none
  | .walking _ head _ _ => some head
  | .cancelling _ head _ _ _ => some head
  | .awaiting _ head _ _ _ => some head

/- The vaults behind a pass that has met no target yet. -/
def KillPhase.Walked
    (phase : KillPhase)
    (scope : Option String)
    (fleet : List String) : Prop :=
  ∀ pass head vaults,
    phase = .walking pass head vaults false →
      ∀ vault ∈ killVaults scope fleet,
        vault ∈ vaults ∨ head.targets vault = []

/- Nothing to cancel, and nothing on its way. -/
structure KillState.Clear
    (s : KillState)
    (scope : Option String)
    (fleet : List String) : Prop where
  still : s.Still scope
  book : NoTargets scope fleet s.book

structure KillState.Sound
    (s : KillState)
    (scope : Option String)
    (fleet : List String) : Prop where
  stored : s.phase ≠ .idle ∨ s.done = true → s.killed = true
  calm : s.killed = true → s.Calm scope
  walked : s.phase.Walked scope fleet
  decided :
    ∀ head, s.phase.head = some head →
      NoTargets scope fleet head → s.Clear scope fleet
  done : s.done = true → s.Clear scope fleet

theorem KillState.Start.sound
    (h : s.Start) :
    s.Sound scope fleet := by
  rcases h with ⟨_, _, hPhase, hKilled, hDone⟩
  exact
    { stored := fun hAny => by
        rw [hPhase, hDone] at hAny
        simp at hAny
      calm := fun hTrue => by
        rw [hKilled] at hTrue
        cases hTrue
      walked := fun pass head vaults hWalking => by
        rw [hPhase] at hWalking
        cases hWalking
      decided := fun head hHead => by
        rw [hPhase] at hHead
        cases hHead
      done := fun hTrue => by
        rw [hDone] at hTrue
        cases hTrue }

/- What a step of the tick may hand on once killed. -/
theorem not_rests_of_alive
    {call : VaultTx}
    (hKilled : s.killed = true)
    (hAlive :
      call.tx.isCancel = true ∨
        ¬ s.killedFor scope call.vault) :
    ¬ call.Rests scope := by
  rintro ⟨hScope, hRests⟩
  rcases hAlive with hCancel | hFree
  · unfold MmTx.isCancel at hCancel
    split at hCancel
    · next hTx =>
        rw [hTx] at hRests
        cases hRests
    · cases hCancel
  · exact hFree ⟨hKilled, hScope⟩

theorem KillState.Still.push
    (h : s.Still scope)
    {job : QueuedTx}
    (hJob : ¬ job.call.Rests scope) :
    ∀ x ∈ s.queue ++ [job], ¬ x.call.Rests scope := by
  intro x hx
  rcases List.mem_append.mp hx with hHere | hNew
  · exact h.queue x hHere
  · rw [List.mem_singleton.mp hNew]
    exact hJob

/- The head of the queue leaves it, or is sent. -/
theorem KillState.Still.popped
    (h : s.Still scope)
    {job : QueuedTx}
    {queue : List QueuedTx}
    (hQueue : s.queue = job :: queue) :
    ¬ job.call.Rests scope ∧
      ∀ x ∈ queue, ¬ x.call.Rests scope := by
  have hAll := h.queue
  rw [hQueue] at hAll
  exact
    ⟨hAll job List.mem_cons_self,
      fun x hx => hAll x (List.mem_cons_of_mem _ hx)⟩

theorem KillState.Still.sent
    (h : s.Still scope)
    {call : VaultTx}
    (hCall : ¬ call.Rests scope) :
    ∀ x ∈ call :: s.mempool, ¬ x.Rests scope := by
  intro x hx
  rcases List.mem_cons.mp hx with rfl | hHere
  · exact hCall
  · exact h.mempool x hHere

/- Once killed, no step brings anything back. -/
theorem KillState.Clear.step
    (h : s.Clear scope fleet)
    (hKilled : s.killed = true)
    (hCalm : s.Calm scope)
    (hStep : KillStep scope fleet s t) :
    t.Clear scope fleet := by
  have hStill := h.still
  cases hStep with
  | tickBegun txs hTick => exact ⟨⟨hStill.1, hStill.2⟩, h.2⟩
  | withheld call txs hTick =>
      exact ⟨⟨hStill.1, hStill.2⟩, h.2⟩
  | tickEnded txs hTick => exact ⟨⟨hStill.1, hStill.2⟩, h.2⟩
  | reserveAsked call txs hTick hAlive hRests =>
      exact ⟨⟨hStill.1, hStill.2⟩, h.2⟩
  | reserveHeld call txs hTick =>
      exact ⟨⟨hStill.1, hStill.2⟩, h.2⟩
  | handed call txs hTick hAlive =>
      have hCall := not_rests_of_alive hKilled hAlive
      exact ⟨⟨hStill.push hCall, hStill.2⟩, h.2⟩
  | handedAfterReserve call txs hTick =>
      have hCall := hCalm call txs hTick
      exact ⟨⟨hStill.push hCall, hStill.2⟩, h.2⟩
  | broadcast job queue hQueue hNew =>
      rcases hStill.popped hQueue with ⟨hJob, hRest⟩
      refine ⟨⟨?_, hStill.sent hJob⟩, h.2⟩
      intro x hx
      rcases List.mem_cons.mp hx with rfl | hHere
      · exact hJob
      · exact hRest x hHere
  | answerLost job queue hQueue hNew =>
      rcases hStill.popped hQueue with ⟨hJob, hRest⟩
      exact ⟨⟨hRest, hStill.sent hJob⟩, h.2⟩
  | finished job queue hQueue =>
      exact ⟨⟨(hStill.popped hQueue).2, hStill.2⟩, h.2⟩
  | killStored hPhase => exact ⟨⟨hStill.1, hStill.2⟩, h.2⟩
  | headRead pass hPhase => exact ⟨⟨hStill.1, hStill.2⟩, h.2⟩
  | vaultClear pass head vault vaults anyTargets hPhase hNone =>
      exact ⟨⟨hStill.1, hStill.2⟩, h.2⟩
  | vaultTargets pass head vault vaults anyTargets hPhase hSome =>
      exact ⟨⟨hStill.1, hStill.2⟩, h.2⟩
  | cancelHanded pass head vault orderIds vaults hPhase hIds =>
      refine ⟨⟨hStill.push ?_, hStill.2⟩, h.2⟩
      rintro ⟨_, hRests⟩
      cases hRests
  | vaultCancelled pass head vault vaults hPhase =>
      exact ⟨⟨hStill.1, hStill.2⟩, h.2⟩
  | passed pass head anyTargets hPhase =>
      unfold KillState.passed
      split
      · exact ⟨⟨hStill.1, hStill.2⟩, h.2⟩
      · split <;> exact ⟨⟨hStill.1, hStill.2⟩, h.2⟩
  | included call newId hPool hNew =>
      refine
        ⟨⟨hStill.1, fun x hx => hStill.2 x
            (List.mem_of_mem_erase hx)⟩, ?_⟩
      exact
        h.2.of_shrinks
          (shrinks_applyTx _ _ (hStill.2 call hPool))
  | dropped call hPool =>
      exact
        ⟨⟨hStill.1, fun x hx => hStill.2 x
            (List.mem_of_mem_erase hx)⟩, h.2⟩
  | filled orderId filled hFilled =>
      refine ⟨⟨hStill.1, hStill.2⟩, ?_⟩
      refine h.2.of_shrinks (shrinks_map _ _ ?_)
      intro o ho
      split
      · next hId =>
          exact
            ⟨rfl, rfl, rfl, rfl, (hFilled o ho hId).1,
              fun h => h⟩
      · exact o.later_refl
  | pruned maker orderIds =>
      refine ⟨⟨hStill.1, hStill.2⟩, ?_⟩
      exact
        h.2.of_shrinks
          (shrinks_map _ _ (fun o _ => o.later_cancelIn _ _))
  | foreign o hMaker =>
      refine ⟨⟨hStill.1, hStill.2⟩, ?_⟩
      refine h.2.of_shrinks ⟨le_refl _, ?_⟩
      intro o' ho' hVault
      rcases List.mem_append.mp ho' with hHere | hNew
      · exact ⟨o', hHere, o'.later_refl⟩
      · rw [List.mem_singleton.mp hNew] at hVault
        exact absurd hVault hMaker
  | clock now hNow =>
      refine ⟨⟨hStill.1, hStill.2⟩, ?_⟩
      exact
        h.2.of_shrinks
          ⟨hNow, fun o ho _ => ⟨o, ho, o.later_refl⟩⟩

end

----
-- Every Step of a Kill
----

variable {scope : Option String} {fleet : List String}
variable {s t : KillState}

theorem KillPhase.ne_idle_of_head
    {phase : KillPhase}
    {head : ChainBook}
    (h : phase.head = some head) :
    phase ≠ .idle := by
  intro hIdle
  rw [hIdle] at h
  cases h

/- A step that answers nothing and reads no new head. -/
theorem KillState.Sound.moved
    (h : s.Sound scope fleet)
    (hStep : KillStep scope fleet s t)
    (hKilled : t.killed = s.killed)
    (hDone : t.done = s.done)
    (hPhase : t.phase ≠ .idle → s.phase ≠ .idle)
    (hHead :
      ∀ head, t.phase.head = some head →
        s.phase.head = some head)
    (hWalked : t.phase.Walked scope fleet)
    (hCalm : s.killed = true → t.Calm scope) :
    t.Sound scope fleet where
  stored := by
    intro hAny
    rw [hKilled]
    rw [hDone] at hAny
    exact h.stored (hAny.imp_left hPhase)
  calm := by
    intro hTrue
    rw [hKilled] at hTrue
    exact hCalm hTrue
  walked := hWalked
  decided := by
    intro head hSome hNone
    have hOld := hHead head hSome
    have hStored :=
      h.stored (.inl (KillPhase.ne_idle_of_head hOld))
    exact
      (h.decided head hOld hNone).step hStored
        (h.calm hStored) hStep
  done := by
    intro hTrue
    rw [hDone] at hTrue
    have hStored := h.stored (.inr hTrue)
    exact (h.done hTrue).step hStored (h.calm hStored) hStep

/- A step of the tick, the queue or the chain. -/
theorem KillState.Sound.beside
    (h : s.Sound scope fleet)
    (hStep : KillStep scope fleet s t)
    (hPhase : t.phase = s.phase)
    (hKilled : t.killed = s.killed)
    (hDone : t.done = s.done)
    (hCalm : s.killed = true → t.Calm scope) :
    t.Sound scope fleet := by
  refine h.moved hStep hKilled hDone ?_ ?_ ?_ hCalm
  · rw [hPhase]
    exact fun hNe => hNe
  · rw [hPhase]
    exact fun _ hHead => hHead
  · rw [hPhase]
    exact h.walked

theorem KillState.finished_calm
    (job : Bool)
    (queue : List QueuedTx)
    (h : s.Calm scope) :
    (s.finished job queue).Calm scope := by
  intro call txs hTick
  unfold KillState.finished at hTick
  simp only at hTick
  split at hTick
  · cases hTick
  · exact h call txs hTick

theorem KillState.finished_head
    (job : Bool)
    (queue : List QueuedTx) :
    (s.finished job queue).phase.head = s.phase.head := by
  unfold KillState.finished
  simp only
  split
  · next hPhase =>
      rw [hPhase]
      rfl
  · rfl

theorem KillState.finished_idle
    (job : Bool)
    (queue : List QueuedTx)
    (h : (s.finished job queue).phase ≠ .idle) :
    s.phase ≠ .idle := by
  intro hIdle
  apply h
  unfold KillState.finished
  rw [hIdle]
  cases job <;> rfl

theorem KillState.finished_walked
    (job : Bool)
    (queue : List QueuedTx)
    (h : s.phase.Walked scope fleet) :
    (s.finished job queue).phase.Walked scope fleet := by
  intro pass head vaults hPhase
  unfold KillState.finished at hPhase
  simp only at hPhase
  split at hPhase
  · cases hPhase
  · exact h pass head vaults hPhase

section

variable (h : s.Sound scope fleet)
include h

/- The head of a pass is read. -/
theorem KillState.Sound.headRead
    {pass : Nat}
    (hPhase : s.phase = .reading pass)
    (hQuiet :
      NoTargets scope fleet s.book → s.Still scope) :
    KillState.Sound
      { s with
        phase :=
          .walking pass s.book (killVaults scope fleet)
            false }
      scope fleet where
  stored := fun _ =>
    h.stored (.inl (by rw [hPhase]; exact nofun))
  calm := h.calm
  walked := by
    intro p head vaults hWalking vault hVault
    cases hWalking
    exact .inl hVault
  decided := by
    intro head hHead hNone
    cases hHead
    have hStill := hQuiet hNone
    exact ⟨⟨hStill.queue, hStill.mempool⟩, hNone⟩
  done := by
    intro hTrue
    have hClear := h.done hTrue
    exact
      ⟨⟨hClear.still.queue, hClear.still.mempool⟩,
        hClear.book⟩

/- A pass that met no target answers done. -/
theorem KillState.Sound.passed
    {pass : Nat}
    {head : ChainBook}
    {anyTargets : Bool}
    (hPhase : s.phase = .walking pass head [] anyTargets) :
    (s.passed pass anyTargets).Sound scope fleet := by
  have hStored : s.killed = true :=
    h.stored (.inl (by rw [hPhase]; exact nofun))
  have hClear : anyTargets = false → s.Clear scope fleet := by
    intro hNone
    rw [hNone] at hPhase
    refine h.decided head (by rw [hPhase]; rfl) ?_
    intro vault hVault
    rcases h.walked pass head [] hPhase vault hVault with
      hLeft | hTargets
    · cases hLeft
    · exact hTargets
  unfold KillState.passed
  split
  · next hNone =>
      have hAll := hClear hNone
      exact
        { stored := fun _ => hStored
          calm := h.calm
          walked := nofun
          decided := nofun
          done := fun _ =>
            ⟨⟨hAll.still.queue, hAll.still.mempool⟩,
              hAll.book⟩ }
  · have hDone :
        s.done = true →
          (∀ job ∈ s.queue, ¬ job.call.Rests scope) ∧
            (∀ call ∈ s.mempool, ¬ call.Rests scope) ∧
            NoTargets scope fleet s.book := by
      intro hTrue
      have hAll := h.done hTrue
      exact ⟨hAll.still.queue, hAll.still.mempool, hAll.book⟩
    split
    · exact
        { stored := fun _ => hStored
          calm := h.calm
          walked := nofun
          decided := nofun
          done := fun hTrue =>
            ⟨⟨(hDone hTrue).1, (hDone hTrue).2.1⟩,
              (hDone hTrue).2.2⟩ }
    · exact
        { stored := fun _ => hStored
          calm := h.calm
          walked := nofun
          decided := nofun
          done := fun hTrue =>
            ⟨⟨(hDone hTrue).1, (hDone hTrue).2.1⟩,
              (hDone hTrue).2.2⟩ }

theorem KillState.Sound.killStored
    (hCalm : s.killed = false → s.Calm scope) :
    KillState.Sound
      { s with killed := true, phase := .reading 0 }
      scope fleet where
  stored := fun _ => rfl
  calm := by
    intro _
    cases hKilled : s.killed with
    | true => exact h.calm hKilled
    | false => exact hCalm hKilled
  walked := nofun
  decided := nofun
  done := by
    intro hTrue
    have hAll := h.done hTrue
    exact ⟨⟨hAll.still.queue, hAll.still.mempool⟩, hAll.book⟩

theorem KillState.Sound.step
    (hStep : KillStep scope fleet s t)
    (hQuiet : Unhurried scope fleet s t) :
    t.Sound scope fleet := by
  have hKept := hStep
  cases hStep with
  | tickBegun txs hTick =>
      exact
        h.beside hKept rfl rfl rfl
          (fun _ _ _ hAt => by cases hAt)
  | withheld call txs hTick =>
      exact
        h.beside hKept rfl rfl rfl
          (fun _ _ _ hAt => by cases hAt)
  | tickEnded txs hTick =>
      exact
        h.beside hKept rfl rfl rfl
          (fun _ _ _ hAt => by cases hAt)
  | reserveAsked call txs hTick hAlive hRests =>
      refine h.beside hKept rfl rfl rfl ?_
      intro hKilled c cs hReserve
      cases hReserve
      exact not_rests_of_alive hKilled hAlive
  | reserveHeld call txs hTick =>
      exact
        h.beside hKept rfl rfl rfl
          (fun _ _ _ hAt => by cases hAt)
  | handed call txs hTick hAlive =>
      exact
        h.beside hKept rfl rfl rfl
          (fun _ _ _ hAt => by cases hAt)
  | handedAfterReserve call txs hTick =>
      exact
        h.beside hKept rfl rfl rfl
          (fun _ _ _ hAt => by cases hAt)
  | broadcast job queue hQueue hNew =>
      exact h.beside hKept rfl rfl rfl h.calm
  | answerLost job queue hQueue hNew =>
      exact
        h.moved hKept rfl rfl
          (KillState.finished_idle job.byKill queue)
          (fun head hHead => by
            rw [← KillState.finished_head job.byKill queue]
            exact hHead)
          (KillState.finished_walked job.byKill queue h.walked)
          (fun hKilled =>
            KillState.finished_calm job.byKill queue
              (h.calm hKilled))
  | finished job queue hQueue =>
      exact
        h.moved hKept rfl rfl
          (KillState.finished_idle job.byKill queue)
          (fun head hHead => by
            rw [← KillState.finished_head job.byKill queue]
            exact hHead)
          (KillState.finished_walked job.byKill queue h.walked)
          (fun hKilled =>
            KillState.finished_calm job.byKill queue
              (h.calm hKilled))
  | killStored hPhase =>
      exact h.killStored (fun hFree => hQuiet.1 hFree rfl)
  | headRead pass hPhase =>
      exact
        h.headRead hPhase
          (hQuiet.2 pass hPhase (fun hAt => by cases hAt))
  | vaultClear pass head vault vaults anyTargets hPhase hNone =>
      refine h.moved hKept rfl rfl ?_ ?_ ?_ h.calm
      · rw [hPhase]
        exact fun _ hAt => by cases hAt
      · rw [hPhase]
        exact fun _ hHead => hHead
      · intro p hd vs hWalking v hv
        cases hWalking
        rcases h.walked pass head _ hPhase v hv with
          hLeft | hTargets
        · rcases List.mem_cons.mp hLeft with rfl | hBehind
          · exact .inr hNone
          · exact .inl hBehind
        · exact .inr hTargets
  | vaultTargets pass head vault vaults anyTargets hPhase hSome =>
      refine h.moved hKept rfl rfl ?_ ?_ ?_ h.calm
      · rw [hPhase]
        exact fun _ hAt => by cases hAt
      · rw [hPhase]
        simp only
        split <;> exact fun _ hHead => hHead
      · simp only
        split <;> exact fun _ _ _ hAt => by cases hAt
  | cancelHanded pass head vault orderIds vaults hPhase hIds =>
      refine
        h.moved hKept rfl rfl ?_ ?_
          (fun _ _ _ hAt => by cases hAt) h.calm
      · rw [hPhase]
        exact fun _ hAt => by cases hAt
      · rw [hPhase]
        exact fun _ hHead => hHead
  | vaultCancelled pass head vault vaults hPhase =>
      refine
        h.moved hKept rfl rfl ?_ ?_
          (fun _ _ _ hAt => by cases hAt) h.calm
      · rw [hPhase]
        exact fun _ hAt => by cases hAt
      · rw [hPhase]
        exact fun _ hHead => hHead
  | passed pass head anyTargets hPhase =>
      exact h.passed hPhase
  | included call newId hPool hNew =>
      exact h.beside hKept rfl rfl rfl h.calm
  | dropped call hPool =>
      exact h.beside hKept rfl rfl rfl h.calm
  | filled orderId filled hFilled =>
      exact h.beside hKept rfl rfl rfl h.calm
  | pruned maker orderIds =>
      exact h.beside hKept rfl rfl rfl h.calm
  | foreign o hMaker =>
      exact h.beside hKept rfl rfl rfl h.calm
  | clock now hNow =>
      exact h.beside hKept rfl rfl rfl h.calm

end

theorem killSound_of_quiet
    (h :
      Transition.Reachable KillState.Start
        (QuietKill scope fleet) s) :
    s.Sound scope fleet :=
  Transition.invariant
    (fun s => s.Sound scope fleet)
    (fun _ hStart => hStart.sound)
    (fun _ _ hSound hStep => hSound.step hStep.1 hStep.2) h

theorem resting_push
    (scope : Option String)
    (queue : List QueuedTx)
    {job : QueuedTx}
    (hJob : ¬ job.call.Rests scope) :
    ((queue ++ [job]).map (fun j => j.call)).filter
        (fun call => call.Rests scope) =
      (queue.map (fun j => j.call)).filter
        (fun call => call.Rests scope) := by
  rw [List.map_append, List.filter_append]
  have hNone :
      ([job].map (fun j => j.call)).filter
        (fun call => call.Rests scope) = [] := by
    simp [hJob]
  rw [hNone, List.append_nil]

/- No step of a killed bot queues a place or a replace. -/
theorem KillState.Sound.resting_step
    (h : s.Sound scope fleet)
    (hKilled : s.killed = true)
    (hStep : KillStep scope fleet s t) :
    (t.resting scope).Sublist (s.resting scope) := by
  have hPopped :
      ∀ (job : QueuedTx) (queue : List QueuedTx),
        s.queue = job :: queue →
          ((queue.map (fun j => j.call)).filter
            (fun call => call.Rests scope)).Sublist
            (s.resting scope) := by
    intro job queue hQueue
    unfold KillState.resting
    rw [hQueue]
    exact ((List.sublist_cons_self job queue).map _).filter _
  unfold KillState.resting at *
  cases hStep with
  | handed call txs hTick hAlive =>
      rw [resting_push scope s.queue
        (not_rests_of_alive hKilled hAlive)]
  | handedAfterReserve call txs hTick =>
      rw [resting_push scope s.queue
        (h.calm hKilled call txs hTick)]
  | cancelHanded pass head vault orderIds vaults hPhase hIds =>
      rw [resting_push scope s.queue
        (fun hRests => by cases hRests.2)]
  | broadcast job queue hQueue hNew =>
      rw [hQueue]
      exact List.Sublist.refl _
  | answerLost job queue hQueue hNew =>
      exact hPopped job queue hQueue
  | finished job queue hQueue => exact hPopped job queue hQueue
  | passed pass head anyTargets hPhase =>
      unfold KillState.passed
      split
      · exact List.Sublist.refl _
      · split <;> exact List.Sublist.refl _
  | _ => exact List.Sublist.refl _

/-
  In a run whose kill is stored while no place or replace of
  its scope awaits the reserve read, and whose passes read a
  book without targets only while none is on its way: after
  an answer of done no vault of the scope has, or gets, an
  order with units left; and from the stored kill on, no
  place or replace of the scope is queued.
-/
theorem kill_done_is_final
    (scope : Option String)
    (fleet : List String)
    (s : KillState)
    (h :
      Transition.Reachable KillState.Start
        (QuietKill scope fleet) s) :
    (s.done = true →
        ∀ o ∈ s.book.orders,
          o.maker ∈ killVaults scope fleet →
            isKillTarget o.toLiveOrder s.book.now = false) ∧
      (s.killed = true →
        ∀ t, KillStep scope fleet s t →
          (t.resting scope).Sublist (s.resting scope)) := by
  have hSound := killSound_of_quiet h
  refine ⟨?_, ?_⟩
  · intro hDone
    exact noTargets_iff.mp (hSound.done hDone).book
  · intro hKilled t hStep
    exact hSound.resting_step hKilled hStep

theorem QuietKill.of_phase
    (hStep : KillStep scope fleet s t)
    (hKilled : s.killed = true)
    (hPhase : ∀ pass, s.phase ≠ .reading pass) :
    QuietKill scope fleet s t := by
  refine ⟨hStep, ?_, ?_⟩
  · intro hFree
    rw [hKilled] at hFree
    cases hFree
  · intro pass hReading
    exact absurd hReading (hPhase pass)

/- A bid of the one vault, live until 1000. -/
def restingBid
    (cancelled : Bool) : ChainOrder :=
  { id := 1
    kind := .Bid
    price := 100
    units := 5
    filled := 0
    validUntil := 1000
    cancelled := cancelled
    maker := "vault"
    longId := 7 }

/- The state of a kill run beside an idle tick, at time 10. -/
def killRun
    (orders : List ChainOrder)
    (mempool : List VaultTx)
    (queue : List QueuedTx)
    (phase : KillPhase) : KillState :=
  { book := { orders := orders, now := 10 }
    mempool := mempool
    queue := queue
    tick := .idle
    phase := phase
    killed := true
    done := false }

def cancelBid : VaultTx :=
  killTx "vault" [1]

/-
  One live bid: the first pass cancels it, the second finds
  nothing and the kill answers done.
-/
theorem one_bid_killed :
    ∃ s : KillState,
      s.done = true ∧ restingBid true ∈ s.book.orders ∧
        (∀ o ∈ s.book.orders,
          o.maker ∈ killVaults none ["vault"] →
            isKillTarget o.toLiveOrder s.book.now = false) ∧
        ∀ t, KillStep none ["vault"] s t →
          (t.resting none).Sublist (s.resting none) := by
  let live : ChainBook :=
    { orders := [restingBid false], now := 10 }
  let swept : ChainBook :=
    { orders := [restingBid true], now := 10 }
  have hStored :
      Transition.Reachable KillState.Start
        (QuietKill none ["vault"])
        (killRun live.orders [] [] (.reading 0)) := by
    have hInit :
        Transition.Reachable KillState.Start
          (QuietKill none ["vault"])
          { killRun live.orders [] [] .idle with
            killed := false } :=
      .init ⟨rfl, rfl, rfl, rfl, rfl⟩
    exact
      hInit.step
        ⟨.killStored _ rfl,
          ⟨fun _ _ call txs hTick => (by cases hTick),
            fun pass hReading => by cases hReading⟩⟩
  have hWalking :
      Transition.Reachable KillState.Start
        (QuietKill none ["vault"])
        (killRun live.orders [] []
          (.walking 0 live ["vault"] false)) := by
    refine
      hStored.step
        ⟨.headRead _ 0 rfl,
          ⟨fun hFree => (by cases hFree),
            fun pass _ _ hNone => ?_⟩⟩
    have hBid := hNone "vault" List.mem_cons_self
    cases hBid
  have hCancelling :
      Transition.Reachable KillState.Start
        (QuietKill none ["vault"])
        (killRun live.orders [] []
          (.cancelling 0 live "vault" [1] [])) :=
    hWalking.step
      (.of_phase
        (.vaultTargets _ 0 live "vault" [] false rfl
          (fun hNone => by cases hNone))
        rfl (fun _ hReading => by cases hReading))
  have hHanded :
      Transition.Reachable KillState.Start
        (QuietKill none ["vault"])
        (killRun live.orders [] [⟨cancelBid, true, false⟩]
          (.awaiting 0 live "vault" [] [])) :=
    hCancelling.step
      (.of_phase
        (.cancelHanded _ 0 live "vault" [1] [] rfl
          (fun hNone => by cases hNone))
        rfl (fun _ hReading => by cases hReading))
  have hSent :
      Transition.Reachable KillState.Start
        (QuietKill none ["vault"])
        (killRun live.orders [cancelBid]
          [⟨cancelBid, true, true⟩]
          (.awaiting 0 live "vault" [] [])) :=
    hHanded.step
      (.of_phase
        (.broadcast _ ⟨cancelBid, true, false⟩ [] rfl rfl)
        rfl (fun _ hReading => by cases hReading))
  have hIncluded :
      Transition.Reachable KillState.Start
        (QuietKill none ["vault"])
        (killRun swept.orders [] [⟨cancelBid, true, true⟩]
          (.awaiting 0 live "vault" [] [])) :=
    hSent.step
      (.of_phase
        (.included _ cancelBid 2 (List.mem_singleton.mpr rfl)
          (by decide))
        rfl (fun _ hReading => by cases hReading))
  have hFinished :
      Transition.Reachable KillState.Start
        (QuietKill none ["vault"])
        (killRun swept.orders [] []
          (.cancelling 0 live "vault" [] [])) :=
    hIncluded.step
      (.of_phase
        (.finished _ ⟨cancelBid, true, true⟩ [] rfl)
        rfl (fun _ hReading => by cases hReading))
  have hWalked :
      Transition.Reachable KillState.Start
        (QuietKill none ["vault"])
        (killRun swept.orders [] [] (.walking 0 live [] true)) :=
    hFinished.step
      (.of_phase (.vaultCancelled _ 0 live "vault" [] rfl)
        rfl (fun _ hReading => by cases hReading))
  have hAgain :
      Transition.Reachable KillState.Start
        (QuietKill none ["vault"])
        (killRun swept.orders [] [] (.reading 1)) :=
    hWalked.step
      (.of_phase (.passed _ 0 live true rfl)
        rfl (fun _ hReading => by cases hReading))
  have hReread :
      Transition.Reachable KillState.Start
        (QuietKill none ["vault"])
        (killRun swept.orders [] []
          (.walking 1 swept ["vault"] false)) :=
    hAgain.step
      ⟨.headRead _ 1 rfl,
        ⟨fun hFree => (by cases hFree),
          fun pass _ _ _ =>
            ⟨fun _ hAt => (by cases hAt),
              fun _ hAt => by cases hAt⟩⟩⟩
  have hClear :
      Transition.Reachable KillState.Start
        (QuietKill none ["vault"])
        (killRun swept.orders [] [] (.walking 1 swept [] false)) :=
    hReread.step
      (.of_phase
        (.vaultClear _ 1 swept "vault" [] false rfl (by decide))
        rfl (fun _ hReading => by cases hReading))
  have hDone :
      Transition.Reachable KillState.Start
        (QuietKill none ["vault"])
        { killRun swept.orders [] [] .idle with done := true } :=
    hClear.step
      (.of_phase (.passed _ 1 swept false rfl)
        rfl (fun _ hReading => by cases hReading))
  have hFinal := kill_done_is_final none ["vault"] _ hDone
  exact
    ⟨_, rfl, List.mem_singleton.mpr rfl, hFinal.1 rfl,
      hFinal.2 rfl⟩

def placeBid : VaultTx :=
  { vault := "vault"
    tx :=
      .place
        { longId := 7
          slot := .bid
          kind := 0
          price := 100
          units := 5
          validUntil := 1000
          reason := "no live bid"
          protective := false
          life := none } }

/-
  A place that awaits the house-reserve read when the kill is
  stored: the first pass finds nothing and the kill answers
  done; then the place is queued, broadcast and included.
-/
theorem kill_done_then_place_lands :
    ∃ s t u : KillState,
      Transition.Reachable KillState.Start
          (KillStep none ["vault"]) s ∧
        s.killed = true ∧ KillStep none ["vault"] s t ∧
        ¬ (t.resting none).Sublist (s.resting none) ∧
        Transition.Reachable KillState.Start
          (KillStep none ["vault"]) u ∧
        u.done = true ∧
        ∃ o ∈ u.book.orders,
          o.maker ∈ killVaults none ["vault"] ∧
            isKillTarget o.toLiveOrder u.book.now = true := by
  let bare : ChainBook := { orders := [], now := 10 }
  let free : KillState :=
    { killRun [] [] [] .idle with killed := false }
  have hFree :
      Transition.Reachable KillState.Start
        (KillStep none ["vault"]) free :=
    .init ⟨rfl, rfl, rfl, rfl, rfl⟩
  have hSending :
      Transition.Reachable KillState.Start
        (KillStep none ["vault"])
        { free with tick := .sending [placeBid] } :=
    hFree.step (.tickBegun _ [placeBid] rfl)
  have hReserve :
      Transition.Reachable KillState.Start
        (KillStep none ["vault"])
        { free with tick := .reserve placeBid [] } :=
    hSending.step
      (.reserveAsked _ placeBid [] rfl
        (.inr (fun hKilled => by cases hKilled.1)) rfl)
  have hKilled :
      Transition.Reachable KillState.Start
        (KillStep none ["vault"])
        { killRun [] [] [] (.reading 0) with
          tick := .reserve placeBid [] } :=
    hReserve.step (.killStored _ rfl)
  have hWalking :
      Transition.Reachable KillState.Start
        (KillStep none ["vault"])
        { killRun [] [] [] (.walking 0 bare ["vault"] false) with
          tick := .reserve placeBid [] } :=
    hKilled.step (.headRead _ 0 rfl)
  have hClear :
      Transition.Reachable KillState.Start
        (KillStep none ["vault"])
        { killRun [] [] [] (.walking 0 bare [] false) with
          tick := .reserve placeBid [] } :=
    hWalking.step
      (.vaultClear _ 0 bare "vault" [] false rfl rfl)
  have hDone :
      Transition.Reachable KillState.Start
        (KillStep none ["vault"])
        { killRun [] [] [] .idle with
          tick := .reserve placeBid []
          done := true } :=
    hClear.step (.passed _ 0 bare false rfl)
  have hHand :
      KillStep none ["vault"]
        { killRun [] [] [] .idle with
          tick := .reserve placeBid []
          done := true }
        { killRun [] [] [⟨placeBid, false, false⟩] .idle with
          tick := .awaiting []
          done := true } :=
    .handedAfterReserve _ placeBid [] rfl
  have hSent :
      Transition.Reachable KillState.Start
        (KillStep none ["vault"])
        { killRun [] [placeBid] [⟨placeBid, false, true⟩]
            .idle with
          tick := .awaiting []
          done := true } :=
    (hDone.step hHand).step
      (.broadcast _ ⟨placeBid, false, false⟩ [] rfl rfl)
  refine
    ⟨_, _, _, hDone, rfl, hHand, ?_,
      hSent.step
        (.included _ placeBid 1 (List.mem_singleton.mpr rfl)
          (fun _ hAt => by cases hAt)),
      rfl, restingBid false, List.mem_singleton.mpr rfl,
      List.mem_singleton.mpr rfl, by decide⟩
  intro hSub
  have hLength := hSub.length_le
  revert hLength
  decide

end Callhouse.Keeper.Mm
