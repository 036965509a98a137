import Callhouse.Keeper.Mm.TickPlan

/-
  keeper/src/v2/mm/protocol-accounts.ts and quoter.ts,
  MmBot.tick: every vault of the process plans one tick
  against one book of what they all rest, and all of them
  then send.

  Main declarations:
    * `crossesProtocol`, `unionProtocolBook`
    * `Requoted`
    * `round_uncrossed_iff`
    * `round_crosses`
-/

----
-- The Protocol's Resting Orders
----

namespace Callhouse.Keeper.Mm

def isProtocolOwned
    (addr : String)
    (accounts : List String) : Bool :=
  decide (lc addr ∈ accounts) ||
    accounts.any (fun s => lc s = lc addr)

structure ProtocolResting where
  longId : Int
  maker : String
  kind : OrderKindName
  price : Int
deriving DecidableEq

inductive ProtocolSide where
  | bid
  | ask
deriving DecidableEq

structure ProtocolTarget where
  longId : Int
  side : ProtocolSide
  price : Int
deriving DecidableEq

def isAsk
    (kind : OrderKindName) : Bool :=
  decide (kind = .AskWrite) || decide (kind = .AskResale)

def isBid
    (kind : OrderKindName) : Bool :=
  decide (kind = .Bid)

def crossesProtocol
    (target : ProtocolTarget)
    (accounts : List String)
    (resting : List ProtocolResting) : Bool :=
  resting.any (fun o =>
    decide (o.longId = target.longId) &&
      isProtocolOwned o.maker accounts &&
      (decide (target.side = .bid) && isAsk o.kind &&
          decide (target.price ≥ o.price) ||
        decide (target.side = .ask) && isBid o.kind &&
          decide (target.price ≤ o.price)))

/- A chain order as a resting one, when it is one. -/
def protocolResting?
    (accounts : List String)
    (now : Option Int)
    (o : ChainOrder) : Option ProtocolResting :=
  if o.maker = zeroAddress ∨ o.cancelled = true ∨
      o.filled ≥ o.units then none
  else if
      now.any (fun now =>
        decide (o.validUntil ≠ 0) &&
          decide (o.validUntil ≤ now)) then none
  else if isProtocolOwned o.maker accounts then
    some
      { longId := o.longId
        maker := lc o.maker
        kind := o.kind
        price := o.price }
  else none

def unionProtocolBook
    (perVault : List (List ChainOrder))
    (accounts : List String)
    (now : Option Int) : List ProtocolResting :=
  perVault.flatMap (fun orders =>
    orders.filterMap (protocolResting? accounts now))

def slotSide : Slot → ProtocolSide
  | .bid => .bid
  | .write => .ask
  | .resale => .ask

/- planTick: a target that crosses the book is dropped. -/
def guardTargets
    (accounts : List String)
    (resting : List ProtocolResting)
    (longId : Int)
    (targets : Slot → Option SlotTarget) :
    Slot → Option SlotTarget :=
  fun slot =>
    (targets slot).filter (fun target =>
      !crossesProtocol
        { longId := longId
          side := slotSide slot
          price := target.price }
        accounts resting)

----
-- One Tick of Every Vault
----

/- A vault with what its tick plans from, targets unguarded. -/
structure ProtocolVault where
  vault : String
  tick : TickOfVault

/- One tick: the vaults, the protocol's accounts, the head. -/
structure ProtocolRound where
  vaults : List ProtocolVault
  accounts : List String
  now : Int

def ProtocolVault.chainOrders
    (v : ProtocolVault) : List ChainOrder :=
  v.tick.inputs.flatMap (fun input =>
    input.orders.map (fun o =>
      { o with maker := v.vault, longId := input.longId }))

def ProtocolRound.book
    (r : ProtocolRound) : List ProtocolResting :=
  unionProtocolBook
    (r.vaults.map (fun v => v.chainOrders)) r.accounts
    (some r.now)

/- A series as it is planned: at the head, targets guarded. -/
def ProtocolRound.guarded
    (r : ProtocolRound)
    (input : SeriesActionInput) : SeriesActionInput :=
  { input with
    now := r.now
    targets :=
      input.targets.map
        (guardTargets r.accounts r.book input.longId) }

def ProtocolRound.tickOf
    (r : ProtocolRound)
    (v : ProtocolVault) : TickOfVault :=
  { v.tick with inputs := v.tick.inputs.map r.guarded }

/- Every vault's transactions, planned before any is sent. -/
def ProtocolRound.planned
    (r : ProtocolRound) : List (String × MmTx) :=
  r.vaults.flatMap (fun v =>
    (r.tickOf v).txs.map (fun tx => (v.vault, tx)))

/- The live orders of every vault, by vault. -/
def ProtocolRound.start
    (r : ProtocolRound) : String → List Resting :=
  fun vault =>
    (r.vaults.filter (fun v => v.vault = vault)).flatMap
      (fun v => (r.tickOf v).start)

def sendOne
    (books : String → List Resting)
    (send : String × MmTx) : String → List Resting :=
  fun vault =>
    if vault = send.1 then executeTx (books vault) send.2
    else books vault

def ProtocolRound.after
    (r : ProtocolRound)
    (sends : List (String × MmTx)) : String → List Resting :=
  sends.foldl sendOne r.start

/- No vault's bid is at or above another vault's ask. -/
def ProtocolRound.Uncrossed
    (r : ProtocolRound)
    (books : String → List Resting) : Prop :=
  ∀ v ∈ r.vaults, ∀ w ∈ r.vaults, v.vault ≠ w.vault →
    ∀ bid ∈ books v.vault, ∀ ask ∈ books w.vault,
      bid.kind = .Bid → ask.kind ≠ .Bid →
        bid.longId = ask.longId → bid.price < ask.price

/-
  A slot that rests a new price: it is quotable, and it has
  no live order, or one due for a refresh or a replace.
-/
def Requoted
    (input : SeriesActionInput)
    (slot : Slot)
    (price : Int) : Prop :=
  ∃ targets askFloors target validUntil,
    input.targets = some targets ∧
      input.askFloors = some askFloors ∧
      quotable input targets slot =
        some (target, validUntil) ∧
      target.price = price ∧
      ∀ keep ∈ (newestFirst input slot).head?,
        (keep.validUntil - input.now < input.refreshS ∧
            validUntil > keep.validUntil + input.refreshS) ∨
          (judgeReplace
            { order := keep
              target := target
              slot := slot
              askFloors := askFloors
              bidCap := input.bidCap
              safeFloor := input.safeFloor.map (fun f => f slot)
              params := input.params }).replace = true

/- A new price of a vault that may send it. -/
def ProtocolRound.Newly
    (r : ProtocolRound)
    (v : ProtocolVault)
    (longId : Int)
    (slot : Slot)
    (price : Int) : Prop :=
  v.tick.isQuoter = true ∧ v.tick.killed = false ∧
    ∃ input ∈ (r.tickOf v).inputs,
      input.longId = longId ∧ Requoted input slot price

/- No new bid is at or above a new ask of another vault. -/
def ProtocolRound.NewUncrossed
    (r : ProtocolRound) : Prop :=
  ∀ v ∈ r.vaults, ∀ w ∈ r.vaults, v.vault ≠ w.vault →
    ∀ longId slot bid ask, slot ≠ .bid →
      r.Newly v longId .bid bid →
        r.Newly w longId slot ask → bid < ask

/- What the chain and the bot's configuration give. -/
structure ProtocolRound.WellFormed
    (r : ProtocolRound) : Prop where
  vaults : (r.vaults.map (fun v => v.vault)).Nodup
  ids : ∀ v ∈ r.vaults, DistinctIds v.tick.inputs
  owned : ∀ v ∈ r.vaults, lc v.vault ∈ r.accounts
  nonzero : ∀ v ∈ r.vaults, v.vault ≠ zeroAddress

----
-- New Orders of a Series
----

section

variable {input : SeriesActionInput}

/- An action that rests a price in a slot of the series. -/
def RestsAt
    (input : SeriesActionInput)
    (slot : Slot)
    (price : Int) : MmAction → Prop
  | .cancel _ => False
  | .replace a =>
      a.longId = input.longId ∧ a.slot = slot ∧
        a.price = price
  | .place a =>
      a.longId = input.longId ∧ a.slot = slot ∧
        a.price = price

def SlotPlan.quotes
    (plan : SlotPlan) : List MmAction :=
  plan.replaces.map .replace ++ plan.places.map .place

theorem planKept_quotes
    (askFloors : AskFloors)
    (slot : Slot)
    (keep : LiveOrder)
    (target : SlotTarget)
    (validUntil : Int) :
    ((planKept input askFloors slot keep target
          validUntil).quotes = [] ∧
        ¬ ((keep.validUntil - input.now < input.refreshS ∧
            validUntil > keep.validUntil + input.refreshS) ∨
          (judgeReplace
            { order := keep
              target := target
              slot := slot
              askFloors := askFloors
              bidCap := input.bidCap
              safeFloor := input.safeFloor.map (fun f => f slot)
              params := input.params }).replace = true)) ∨
      ∃ action,
        (planKept input askFloors slot keep target
            validUntil).quotes = [action] ∧
          RestsAt input slot target.price action ∧
          ((keep.validUntil - input.now < input.refreshS ∧
              validUntil > keep.validUntil + input.refreshS) ∨
            (judgeReplace
              { order := keep
                target := target
                slot := slot
                askFloors := askFloors
                bidCap := input.bidCap
                safeFloor :=
                  input.safeFloor.map (fun f => f slot)
                params := input.params }).replace = true) := by
  unfold planKept SlotPlan.quotes
  simp only
  split
  · next hRefresh =>
      exact .inr ⟨_, rfl, ⟨rfl, rfl, rfl⟩, .inl hRefresh⟩
  · next hFresh =>
      split
      · next hReplace =>
          exact .inr ⟨_, rfl, ⟨rfl, rfl, rfl⟩, .inr hReplace.1⟩
      · split
        · next hReplace =>
            exact .inr ⟨_, rfl, ⟨rfl, rfl, rfl⟩, .inr hReplace⟩
        · next hKept =>
            exact .inl ⟨rfl, not_or.mpr ⟨hFresh, hKept⟩⟩

/- A slot's places and replaces are its new prices. -/
theorem planSlot_quotes_iff
    {targets : Slot → Option SlotTarget}
    {askFloors : AskFloors}
    (hTargets : input.targets = some targets)
    (hFloors : input.askFloors = some askFloors)
    (slot : Slot)
    (price : Int) :
    (∃ action ∈ (planSlot input targets askFloors slot).quotes,
        RestsAt input slot price action) ↔
      Requoted input slot price := by
  unfold planSlot Requoted
  simp only
  cases hOrders : newestFirst input slot with
  | nil =>
      cases hQuote : quotable input targets slot with
      | none =>
          simp [SlotPlan.quotes, hTargets, hQuote]
      | some quote =>
          rcases quote with ⟨target, validUntil⟩
          constructor
          · rintro ⟨action, hAction, hRests⟩
            simp only [SlotPlan.quotes, List.map_nil,
              List.map_cons, List.nil_append,
              List.mem_singleton] at hAction
            subst hAction
            exact
              ⟨targets, askFloors, target, validUntil,
                hTargets, hFloors, hQuote, hRests.2.2,
                by simp⟩
          · rintro ⟨targets', _, target', _, hT, _, hQ, hP, _⟩
            rw [hTargets] at hT
            cases hT
            rw [hQuote] at hQ
            cases hQ
            exact ⟨_, List.mem_singleton.mpr rfl, rfl, rfl, hP⟩
  | cons keep extra =>
      cases hQuote : quotable input targets slot with
      | none =>
          simp [SlotPlan.quotes, hTargets, hQuote]
      | some quote =>
          rcases quote with ⟨target, validUntil⟩
          have hKept :=
            @planKept_quotes input askFloors slot keep target
              validUntil
          constructor
          · rintro ⟨action, hAction, hRests⟩
            rcases hKept with ⟨hNone, _⟩ |
              ⟨quoted, hOne, hQuoted, hDue⟩
            · unfold SlotPlan.quotes at hAction hNone
              rw [hNone] at hAction
              cases hAction
            · unfold SlotPlan.quotes at hAction hOne
              rw [hOne] at hAction
              rw [List.mem_singleton.mp hAction] at hRests
              have hPrice : target.price = price := by
                cases quoted with
                | cancel a => exact hRests.elim
                | replace a =>
                    exact hQuoted.2.2.symm.trans hRests.2.2
                | place a =>
                    exact hQuoted.2.2.symm.trans hRests.2.2
              refine
                ⟨targets, askFloors, target, validUntil,
                  hTargets, hFloors, hQuote, hPrice, ?_⟩
              intro x hx
              cases hx
              exact hDue
          · rintro ⟨targets', askFloors', target', validUntil',
              hT, hF, hQ, hP, hDue⟩
            rw [hTargets] at hT
            cases hT
            rw [hFloors] at hF
            cases hF
            rw [hQuote] at hQ
            cases hQ
            rcases hKept with ⟨_, hNot⟩ |
              ⟨quoted, hOne, hQuoted, _⟩
            · exact absurd (hDue keep rfl) hNot
            · refine ⟨quoted, ?_, hP ▸ hQuoted⟩
              unfold SlotPlan.quotes at hOne ⊢
              rw [hOne]
              exact List.mem_singleton.mpr rfl

variable {slot : Slot} {action : MmAction}

/- A slot plans for itself. -/
theorem planSlot_quotes_rest
    (targets : Slot → Option SlotTarget)
    (askFloors : AskFloors)
    (h :
      action ∈ (planSlot input targets askFloors slot).quotes) :
    ∃ price, RestsAt input slot price action := by
  unfold planSlot at h
  simp only at h
  split at h
  · split at h
    · cases h
    · simp only [SlotPlan.quotes, List.map_nil,
        List.map_cons, List.nil_append,
        List.mem_singleton] at h
      subst h
      exact ⟨_, rfl, rfl, rfl⟩
  · next keep extra _ =>
      split at h
      · cases h
      · next target validUntil _ =>
          rcases
            @planKept_quotes input askFloors slot keep target
              validUntil with
            ⟨hNone, _⟩ | ⟨quoted, hOne, hRests, _⟩
          · unfold SlotPlan.quotes at h hNone
            rw [hNone] at h
            cases h
          · unfold SlotPlan.quotes at h hOne
            rw [hOne] at h
            rw [List.mem_singleton.mp h]
            exact ⟨_, hRests⟩

theorem RestsAt.slot_eq
    {slot' : Slot}
    {price price' : Int}
    (h : RestsAt input slot price action)
    (h' : RestsAt input slot' price' action) :
    slot = slot' := by
  cases action with
  | cancel a => exact h.elim
  | replace a => exact h.2.1.symm.trans h'.2.1
  | place a => exact h.2.1.symm.trans h'.2.1

theorem quotes_of_slots
    (slots : List SlotPlan)
    (action : MmAction) :
    action ∈
        (slots.flatMap (fun plan => plan.replaces)).map
            MmAction.replace ++
          (slots.flatMap (fun plan => plan.places)).map
            MmAction.place ↔
      ∃ plan ∈ slots, action ∈ plan.quotes := by
  simp only [SlotPlan.quotes, List.mem_append, List.mem_map,
    List.mem_flatMap]
  constructor
  · rintro (⟨a, ⟨plan, hPlan, ha⟩, rfl⟩ |
      ⟨a, ⟨plan, hPlan, ha⟩, rfl⟩)
    · exact ⟨plan, hPlan, .inl ⟨a, ha, rfl⟩⟩
    · exact ⟨plan, hPlan, .inr ⟨a, ha, rfl⟩⟩
  · rintro ⟨plan, hPlan, ⟨a, ha, rfl⟩ | ⟨a, ha, rfl⟩⟩
    · exact .inl ⟨a, ⟨plan, hPlan, ha⟩, rfl⟩
    · exact .inr ⟨a, ⟨plan, hPlan, ha⟩, rfl⟩

theorem not_rests_cancel
    {price : Int}
    (h : ∃ a, action = .cancel a) :
    ¬ RestsAt input slot price action := by
  rcases h with ⟨a, rfl⟩
  exact fun hRests => hRests

/- What a series rests anew is what its slots want anew. -/
theorem planSeriesActions_rests_iff
    (slot : Slot)
    (price : Int) :
    (∃ action ∈ planSeriesActions input,
        RestsAt input slot price action) ↔
      Requoted input slot price := by
  have hPull :
      ∀ halted,
        ¬ ∃ action ∈ pullSeries input halted,
          RestsAt input slot price action := by
    rintro halted ⟨action, hAction, hRests⟩
    exact not_rests_cancel (pullSeries_cancels hAction) hRests
  unfold planSeriesActions
  split
  · next hTargets =>
      refine iff_of_false (hPull _) ?_
      rintro ⟨_, _, _, _, hT, _⟩
      rw [hTargets] at hT
      cases hT
  · next hTargets hFloors =>
      refine iff_of_false (hPull _) ?_
      rintro ⟨_, _, _, _, _, hF, _⟩
      rw [hFloors] at hF
      cases hF
  · next targets askFloors hTargets hFloors =>
      have hSlot :=
        planSlot_quotes_iff hTargets hFloors slot price
      rw [← hSlot]
      have hMem :=
        quotes_of_slots
          ([Slot.bid, Slot.write, Slot.resale].map
            (planSlot input targets askFloors))
      constructor
      · rintro ⟨action, hAction, hRests⟩
        rw [List.append_assoc, List.mem_append,
          List.mem_append] at hAction
        rcases hAction with (hCancel | hCancel) | hQuote
        · exact
            absurd hRests
              (not_rests_cancel (cancelAction_cancels hCancel))
        · exact
            absurd hRests
              (not_rests_cancel (cancelAction_cancels hCancel))
        · rcases (hMem action).mp hQuote with
            ⟨plan, hPlan, hHere⟩
          rcases List.mem_map.mp hPlan with
            ⟨slot', _, rfl⟩
          rcases
            planSlot_quotes_rest targets askFloors hHere with
            ⟨price', hOwn⟩
          rw [hRests.slot_eq hOwn]
          rw [hRests.slot_eq hOwn] at hRests
          exact ⟨action, hHere, hRests⟩
      · rintro ⟨action, hAction, hRests⟩
        refine ⟨action, ?_, hRests⟩
        rw [List.append_assoc]
        apply List.mem_append_right
        apply (hMem action).mpr
        refine ⟨_, List.mem_map.mpr ⟨slot, ?_, rfl⟩, hAction⟩
        cases slot <;> simp

end

----
-- One Vault's New Orders
----

section

variable {tick : TickOfVault}

/- A place or replace of the plan, as its transaction. -/
theorem mem_txs_iff
    {action : MmAction}
    {tx : MmTx}
    (hTx : quoteTx? action = some tx)
    (hInj : ∀ b, quoteTx? b = some tx → b = action) :
    tx ∈ tick.txs ↔
      tick.isQuoter = true ∧ tick.killed = false ∧
        action ∈ tickActions tick.inputs := by
  have hCancels :
      ∀ protective,
        tx ∉ cancelTxs (tickActions tick.inputs)
          protective := by
    intro protective hMem
    rcases List.mem_map.mp hMem with ⟨part, _, rfl⟩
    cases action <;> cases hTx
  have hUpkeep : tx ∉ tick.upkeep.map MmTx.upkeep := by
    intro hMem
    rcases List.mem_map.mp hMem with ⟨type, _, rfl⟩
    cases action <;> cases hTx
  have hQuotes :
      tx ∈ (tickActions tick.inputs).filterMap quoteTx? ↔
        action ∈ tickActions tick.inputs := by
    rw [List.mem_filterMap]
    constructor
    · rintro ⟨b, hb, hEq⟩
      exact hInj b hEq ▸ hb
    · exact fun hHere => ⟨action, hHere, hTx⟩
  unfold TickOfVault.txs planTxs
  cases tick.isQuoter with
  | false => simp
  | true =>
      simp only [if_true, List.mem_append]
      cases tick.killed with
      | true => simp [hCancels, hUpkeep]
      | false => simp [hCancels, hUpkeep, hQuotes]

theorem replace_mem_txs_iff
    (a : ReplaceAction) :
    .replace a ∈ tick.txs ↔
      tick.isQuoter = true ∧ tick.killed = false ∧
        .replace a ∈ tickActions tick.inputs := by
  apply mem_txs_iff rfl
  intro b hb
  cases b <;> cases hb
  rfl

theorem place_mem_txs_iff
    (a : PlaceAction) :
    .place a ∈ tick.txs ↔
      tick.isQuoter = true ∧ tick.killed = false ∧
        .place a ∈ tickActions tick.inputs := by
  apply mem_txs_iff rfl
  intro b hb
  cases b <;> cases hb
  rfl

theorem mem_tickActions_iff
    (inputs : List SeriesActionInput)
    (action : MmAction) :
    action ∈ tickActions inputs ↔
      ∃ input ∈ inputs, action ∈ planSeriesActions input := by
  unfold tickActions
  rw [(orderActions_perm _).mem_iff]
  simp

/- A new order's series, slot and price are newly quoted. -/
theorem newOrder_requoted
    (hIds : DistinctIds tick.inputs)
    {o : Resting}
    (h : NewOrder tick.start tick.txs o) :
    tick.isQuoter = true ∧ tick.killed = false ∧
      ∃ input ∈ tick.inputs, ∃ slot,
        input.longId = o.longId ∧ slotKind slot = o.kind ∧
          Requoted input slot o.price := by
  cases h with
  | placed a ha =>
      rcases (place_mem_txs_iff a).mp ha with
        ⟨hQuoter, hAlive, hTick⟩
      rcases (mem_tickActions_iff _ _).mp hTick with
        ⟨input, hInput, hPlan⟩
      have hPlace := planSeriesActions_planned hPlan
      refine
        ⟨hQuoter, hAlive, input, hInput, a.slot,
          hPlace.longId.symm, rfl, ?_⟩
      exact
        (planSeriesActions_rests_iff a.slot a.price).mp
          ⟨_, hPlan, hPlace.longId, rfl, rfl⟩
  | replaced a o ha ho hId =>
      rcases (replace_mem_txs_iff a).mp ha with
        ⟨hQuoter, hAlive, hTick⟩
      rcases (mem_tickActions_iff _ _).mp hTick with
        ⟨input, hInput, hPlan⟩
      rcases planSeriesActions_planned hPlan with ⟨_, hOf⟩
      have hMatch := startBook_matches hIds hTick o ho hId
      refine
        ⟨hQuoter, hAlive, input, hInput, a.slot,
          hOf.longId.symm.trans hMatch.1.symm,
          hMatch.2.1.symm, ?_⟩
      exact
        (planSeriesActions_rests_iff a.slot a.price).mp
          ⟨_, hPlan, hOf.longId, rfl, rfl⟩

/- And what is newly quoted becomes a new order. -/
theorem requoted_newOrder
    (hQuoter : tick.isQuoter = true)
    (hAlive : tick.killed = false)
    {input : SeriesActionInput}
    (hInput : input ∈ tick.inputs)
    {slot : Slot}
    {price : Int}
    (h : Requoted input slot price) :
    ∃ o, NewOrder tick.start tick.txs o ∧
      o.longId = input.longId ∧ o.kind = slotKind slot ∧
      o.price = price := by
  rcases (planSeriesActions_rests_iff slot price).mpr h with
    ⟨action, hPlan, hRests⟩
  have hTick :=
    (mem_tickActions_iff _ _).mpr ⟨input, hInput, hPlan⟩
  cases action with
  | cancel a => exact hRests.elim
  | place a =>
      have hTx :=
        (place_mem_txs_iff a).mpr ⟨hQuoter, hAlive, hTick⟩
      rcases hRests with ⟨hLong, hSlot, hPrice⟩
      exact
        ⟨_, .placed a hTx, hLong, congrArg slotKind hSlot,
          hPrice⟩
  | replace a =>
      have hTx :=
        (replace_mem_txs_iff a).mpr ⟨hQuoter, hAlive, hTick⟩
      rcases planSeriesActions_planned hPlan with ⟨o, hOf⟩
      have hStart : restingOf input.longId o ∈ tick.start :=
        List.mem_flatMap.mpr
          ⟨input, hInput,
            List.mem_map.mpr ⟨o, hOf.live, rfl⟩⟩
      rcases hRests with ⟨hLong, hSlot, hPrice⟩
      exact
        ⟨_, .replaced a _ hTx hStart
            (congrArg some hOf.orderId.symm), rfl,
          hOf.kind.trans (congrArg slotKind hSlot), hPrice⟩

end

----
-- Every Vault Sends
----

variable {r : ProtocolRound} {v w : ProtocolVault}

/- One vault's orders after sends of every vault. -/
theorem foldl_sendOne
    (sends : List (String × MmTx))
    (books : String → List Resting)
    (vault : String) :
    sends.foldl sendOne books vault =
      executeTxs (books vault)
        ((sends.filter (fun s => s.1 = vault)).map
          (fun s => s.2)) := by
  induction sends generalizing books with
  | nil => rfl
  | cons send sends ih =>
      rw [List.foldl_cons, ih]
      by_cases hHere : vault = send.1
      · simp [sendOne, executeTxs, hHere]
      · have hOther : send.1 ≠ vault := fun h => hHere h.symm
        simp [sendOne, hHere, hOther]

theorem filter_vaults
    (hNames : (r.vaults.map (fun v => v.vault)).Nodup)
    (hv : v ∈ r.vaults) :
    r.vaults.filter (fun w => w.vault = v.vault) = [v] := by
  have hAll :
      ∀ vaults : List ProtocolVault,
        (vaults.map (fun v => v.vault)).Nodup → v ∈ vaults →
          vaults.filter (fun w => w.vault = v.vault) = [v] := by
    intro vaults
    induction vaults with
    | nil => exact fun _ hMem => absurd hMem List.not_mem_nil
    | cons w vaults ih =>
        intro hNodup hMem
        rw [List.map_cons, List.nodup_cons] at hNodup
        rcases List.mem_cons.mp hMem with rfl | hRest
        · have hNone :
              vaults.filter
                (fun w => decide (w.vault = v.vault)) = [] := by
            rw [List.filter_eq_nil_iff]
            intro u hu hSame
            simp only [decide_eq_true_eq] at hSame
            exact
              hNodup.1
                (List.mem_map.mpr ⟨u, hu, hSame⟩)
          simp [hNone]
        · have hOther : w.vault ≠ v.vault := by
            intro hSame
            apply hNodup.1
            rw [hSame]
            exact List.mem_map.mpr ⟨v, hRest, rfl⟩
          rw [List.filter_cons_of_neg (by simpa using hOther)]
          exact ih hNodup.2 hRest
  exact hAll r.vaults hNames hv

theorem start_of_vault
    (hNames : (r.vaults.map (fun v => v.vault)).Nodup)
    (hv : v ∈ r.vaults) :
    r.start v.vault = (r.tickOf v).start := by
  unfold ProtocolRound.start
  rw [filter_vaults hNames hv]
  simp

variable {sends : List (String × MmTx)}

/- Whatever the order, a vault sends its own plan. -/
theorem sends_of_vault
    (hNames : (r.vaults.map (fun v => v.vault)).Nodup)
    (hv : v ∈ r.vaults)
    (hSends : sends.Perm r.planned) :
    ((sends.filter (fun s => s.1 = v.vault)).map
      (fun s => s.2)).Perm (r.tickOf v).txs := by
  have hPerm :=
    (hSends.filter (fun s => s.1 = v.vault)).map
      (fun s => s.2)
  refine hPerm.trans ?_
  have hOwn :
      ∀ vaults : List ProtocolVault,
        ((vaults.flatMap (fun u =>
            (r.tickOf u).txs.map
              (fun tx => (u.vault, tx)))).filter
            (fun s => s.1 = v.vault)).map (fun s => s.2) =
          (vaults.filter
            (fun u => u.vault = v.vault)).flatMap
              (fun u => (r.tickOf u).txs) := by
    intro vaults
    induction vaults with
    | nil => rfl
    | cons u vaults ih =>
        rw [List.flatMap_cons, List.filter_append,
          List.map_append, ih]
        by_cases hSame : u.vault = v.vault
        · rw [List.filter_cons_of_pos (by simpa using hSame),
            List.flatMap_cons]
          congr 1
          rw [List.filter_eq_self.mpr]
          · simp
          · intro s hs
            rcases List.mem_map.mp hs with ⟨tx, _, rfl⟩
            simpa using hSame
        · rw [List.filter_cons_of_neg (by simpa using hSame)]
          have hNone :
              ((r.tickOf u).txs.map
                  (fun tx => (u.vault, tx))).filter
                (fun s => decide (s.1 = v.vault)) = [] := by
            rw [List.filter_eq_nil_iff]
            intro s hs
            rcases List.mem_map.mp hs with ⟨tx, _, rfl⟩
            simpa using hSame
          rw [hNone]
          rfl
  have hAll := hOwn r.vaults
  rw [filter_vaults hNames hv] at hAll
  unfold ProtocolRound.planned
  rw [hAll]
  simp

theorem distinctIds_tickOf
    (h : DistinctIds v.tick.inputs) :
    DistinctIds (r.tickOf v).inputs := by
  have hSame :
      vaultOrders (r.tickOf v).inputs =
        vaultOrders v.tick.inputs := by
    unfold vaultOrders ProtocolRound.tickOf
    rw [List.flatMap_map]
    rfl
  unfold DistinctIds
  rw [hSame]
  exact h

variable {o : Resting}

/- A vault's orders at the end: of the start, or new. -/
theorem mem_after
    (hForm : r.WellFormed)
    (hv : v ∈ r.vaults)
    (hSends : sends.Perm r.planned)
    (ho : o ∈ r.after sends v.vault) :
    o ∈ (r.tickOf v).start ∨
      NewOrder (r.tickOf v).start (r.tickOf v).txs o := by
  unfold ProtocolRound.after at ho
  rw [foldl_sendOne, start_of_vault hForm.vaults hv] at ho
  have hPerm := sends_of_vault hForm.vaults hv hSends
  exact
    (mem_executeTxs _ _ ho).imp_right
      (NewOrder.mono hPerm.subset)

theorem newOrder_mem_after
    (hForm : r.WellFormed)
    (hv : v ∈ r.vaults)
    (hSends : sends.Perm r.planned)
    (h : NewOrder (r.tickOf v).start (r.tickOf v).txs o) :
    o ∈ r.after sends v.vault := by
  unfold ProtocolRound.after
  rw [foldl_sendOne, start_of_vault hForm.vaults hv]
  have hPerm := sends_of_vault hForm.vaults hv hSends
  have hNodup :=
    planTxs_touched_nodup (r.tickOf v).isQuoter
      (r.tickOf v).killed (r.tickOf v).upkeep
      (@distinctIds_tickOf r v (hForm.ids v hv))
  apply NewOrder.mem_executeTxs
  · exact (hPerm.flatMap_right _).nodup_iff.mpr hNodup
  · exact h.mono hPerm.symm.subset

/- Every live order of the start is in the one book. -/
theorem resting_mem_book
    (hForm : r.WellFormed)
    (hw : w ∈ r.vaults)
    (ho : o ∈ (r.tickOf w).start) :
    ∃ x ∈ r.book, x.longId = o.longId ∧ x.kind = o.kind ∧
      x.price = o.price ∧
      isProtocolOwned x.maker r.accounts = true := by
  rcases mem_startBook ho with ⟨input, hInput, live, hLive, rfl⟩
  rcases List.mem_map.mp hInput with ⟨raw, hRaw, rfl⟩
  rcases List.mem_filter.mp hLive with ⟨hOrder, hIsLive⟩
  have hOwned :
      ∀ addr, lc addr = lc w.vault →
        isProtocolOwned addr r.accounts = true := by
    intro addr hSame
    unfold isProtocolOwned
    rw [hSame]
    simp [hForm.owned w hw]
  let c : ChainOrder :=
    { live with maker := w.vault, longId := raw.longId }
  let x : ProtocolResting :=
    { longId := raw.longId
      maker := lc w.vault
      kind := live.kind
      price := live.price }
  have hResting :
      protocolResting? r.accounts (some r.now) c = some x := by
    unfold isLiveOrder at hIsLive
    simp only [Bool.and_eq_true, Bool.not_eq_true',
      decide_eq_true_eq] at hIsLive
    rcases hIsLive with ⟨⟨hOpen, hUnits⟩, hValid⟩
    have hNow : r.now < live.validUntil := hValid
    unfold protocolResting?
    rw [if_neg, if_neg, if_pos (hOwned w.vault rfl)]
    · simp only [Option.any_some, Bool.and_eq_true,
        decide_eq_true_eq, not_and]
      intro _
      change ¬ live.validUntil ≤ r.now
      omega
    · rintro (hZero | hCancelled | hFilled)
      · exact hForm.nonzero w hw hZero
      · change live.cancelled = true at hCancelled
        rw [hOpen] at hCancelled
        cases hCancelled
      · change live.filled ≥ live.units at hFilled
        omega
  refine
    ⟨x, ?_, rfl, rfl, rfl,
      hOwned (lc w.vault) (lc_lc w.vault)⟩
  · apply List.mem_flatMap.mpr
    refine ⟨w.chainOrders, ?_, ?_⟩
    · exact List.mem_map.mpr ⟨w, hw, rfl⟩
    · apply List.mem_filterMap.mpr
      refine ⟨c, ?_, hResting⟩
      apply List.mem_flatMap.mpr
      exact ⟨raw, hRaw, List.mem_map.mpr ⟨live, hOrder, rfl⟩⟩

variable {slot : Slot} {price : Int} {input : SeriesActionInput}

/- What survives the guard crosses nothing in the book. -/
theorem requoted_uncrossed
    (hInput : input ∈ (r.tickOf v).inputs)
    (h : Requoted input slot price) :
    crossesProtocol
        { longId := input.longId
          side := slotSide slot
          price := price }
        r.accounts r.book = false := by
  rcases List.mem_map.mp hInput with ⟨raw, _, rfl⟩
  rcases h with
    ⟨targets, _, target, _, hTargets, _, hQuote, rfl, _⟩
  have hTarget := (quotable_eq_some hQuote).1
  unfold ProtocolRound.guarded at hTargets
  simp only at hTargets
  cases hRaw : raw.targets with
  | none =>
      rw [hRaw] at hTargets
      cases hTargets
  | some wanted =>
      rw [hRaw] at hTargets
      cases hTargets
      unfold guardTargets at hTarget
      rw [Option.filter_eq_some_iff] at hTarget
      have hKept := hTarget.2
      rw [Bool.not_eq_true'] at hKept
      exact hKept

theorem new_bid_below_resting
    (hForm : r.WellFormed)
    (hw : w ∈ r.vaults)
    (hInput : input ∈ (r.tickOf v).inputs)
    (h : Requoted input .bid price)
    {ask : Resting}
    (hAsk : ask ∈ (r.tickOf w).start)
    (hKind : ask.kind ≠ .Bid)
    (hLong : input.longId = ask.longId) :
    price < ask.price := by
  by_contra hNot
  have hFalse := requoted_uncrossed hInput h
  rcases resting_mem_book hForm hw hAsk with
    ⟨x, hx, hxLong, hxKind, hxPrice, hxOwned⟩
  unfold crossesProtocol at hFalse
  rw [List.any_eq_false] at hFalse
  apply hFalse x hx
  have hAskKind : isAsk x.kind = true := by
    rw [hxKind]
    cases hk : ask.kind with
    | Bid => exact absurd hk hKind
    | AskResale => rfl
    | AskWrite => rfl
  rw [hxOwned, hAskKind]
  simp only [slotSide, hxLong, hLong, hxPrice]
  simpa using hNot

theorem resting_bid_below_new
    (hForm : r.WellFormed)
    (hw : w ∈ r.vaults)
    (hInput : input ∈ (r.tickOf v).inputs)
    (hSlot : slot ≠ .bid)
    (h : Requoted input slot price)
    {bid : Resting}
    (hBid : bid ∈ (r.tickOf w).start)
    (hKind : bid.kind = .Bid)
    (hLong : bid.longId = input.longId) :
    bid.price < price := by
  by_contra hNot
  have hFalse := requoted_uncrossed hInput h
  rcases resting_mem_book hForm hw hBid with
    ⟨x, hx, hxLong, hxKind, hxPrice, hxOwned⟩
  unfold crossesProtocol at hFalse
  rw [List.any_eq_false] at hFalse
  apply hFalse x hx
  have hBidKind : isBid x.kind = true := by
    rw [hxKind, hKind]
    rfl
  have hSide : slotSide slot = .ask := by
    cases slot with
    | bid => exact absurd rfl hSlot
    | write => rfl
    | resale => rfl
  rw [hxOwned, hBidKind, hSide]
  simp only [hxLong, hLong, hxPrice]
  simpa using hNot

theorem slot_eq_bid_iff
    (h : slotKind slot = o.kind) :
    slot = .bid ↔ o.kind = .Bid := by
  rw [← h]
  cases slot <;> simp [slotKind]

/-
  From an uncrossed start, and in whatever order all vaults'
  transactions execute, the protocol's book ends uncrossed
  exactly when no two vaults newly quote a cross in this very
  tick: the guard sees resting orders only.
-/
theorem round_uncrossed_iff
    (r : ProtocolRound)
    (hForm : r.WellFormed)
    (hStart : r.Uncrossed r.start) :
    (∀ sends, sends.Perm r.planned →
        r.Uncrossed (r.after sends)) ↔
      r.NewUncrossed := by
  constructor
  · intro h v hv w hw hNe longId slot bid ask hSlot
      hBid hAsk
    rcases hBid with
      ⟨hQuoter, hAlive, input, hInput, rfl, hNewBid⟩
    rcases hAsk with
      ⟨hQuoter', hAlive', input', hInput', hLong, hNewAsk⟩
    rcases
      @requoted_newOrder (r.tickOf v) hQuoter hAlive input
        hInput _ _ hNewBid with
      ⟨o, ho, hoLong, hoKind, rfl⟩
    rcases
      @requoted_newOrder (r.tickOf w) hQuoter' hAlive' input'
        hInput' _ _ hNewAsk with
      ⟨a, ha, haLong, haKind, rfl⟩
    have hPerm := List.Perm.refl r.planned
    apply h r.planned hPerm v hv w hw hNe
      o (newOrder_mem_after hForm hv hPerm ho)
      a (newOrder_mem_after hForm hw hPerm ha) hoKind
    · rw [haKind]
      cases slot with
      | bid => exact absurd rfl hSlot
      | write => exact fun hk => by cases hk
      | resale => exact fun hk => by cases hk
    · rw [hoLong, haLong, hLong]
  · intro h sends hSends v hv w hw hNe bid hBid ask hAsk
      hBidKind hAskKind hLong
    rcases mem_after hForm hv hSends hBid with
      hOldBid | hNewBid
    · rcases mem_after hForm hw hSends hAsk with
        hOldAsk | hNewAsk
      · rw [← start_of_vault hForm.vaults hv] at hOldBid
        rw [← start_of_vault hForm.vaults hw] at hOldAsk
        exact
          hStart v hv w hw hNe bid hOldBid ask hOldAsk
            hBidKind hAskKind hLong
      · rcases
          newOrder_requoted
            (@distinctIds_tickOf r w (hForm.ids w hw))
            hNewAsk with
          ⟨_, _, input, hInput, slot, hIn, hKind, hReq⟩
        apply
          resting_bid_below_new hForm hv hInput _ hReq
            hOldBid hBidKind (hLong.trans hIn.symm)
        intro hSlot
        exact hAskKind ((slot_eq_bid_iff hKind).mp hSlot)
    · rcases
        newOrder_requoted
          (@distinctIds_tickOf r v (hForm.ids v hv))
          hNewBid with
        ⟨hQuoter, hAlive, input, hInput, slot, hIn, hKind,
          hReq⟩
      have hSlot := (slot_eq_bid_iff hKind).mpr hBidKind
      subst hSlot
      rcases mem_after hForm hw hSends hAsk with
        hOldAsk | hNewAsk
      · exact
          new_bid_below_resting hForm hw hInput hReq hOldAsk
            hAskKind (hIn.trans hLong)
      · rcases
          newOrder_requoted
            (@distinctIds_tickOf r w (hForm.ids w hw))
            hNewAsk with
          ⟨hQuoter', hAlive', input', hInput', slot', hIn',
            hKind', hReq'⟩
        refine
          h v hv w hw hNe bid.longId slot' _ _ ?_
            ⟨hQuoter, hAlive, input, hInput, hIn, hReq⟩
            ⟨hQuoter', hAlive', input', hInput',
              hIn'.trans hLong.symm, hReq'⟩
        intro hSlot'
        exact hAskKind ((slot_eq_bid_iff hKind').mp hSlot')

/- A vault with one series and a target in one slot of it. -/
def quotingVault
    (vault : String)
    (orders : List LiveOrder)
    (slot : Slot)
    (price : Int) : ProtocolVault :=
  { vault := vault
    tick :=
      { inputs :=
          [{ longId := 7
             now := 0
             orders := orders
             targets := some (fun s =>
               if s = slot then some ⟨price, 5⟩ else none)
             haltReason := none
             validUntil := fun _ => some 100000
             life := fun _ => none
             askFloors := some { write := 0, resale := 0 }
             bidCap := 1000
             refreshS := 300
             replaceMarginS := none
             params := { requoteBps := 100, resizeBps := 2500 }
             safeFloor := none }]
        isQuoter := true
        killed := false
        upkeep := [] } }

def twoVaults
    (asks : List LiveOrder)
    (bid ask : Int) : ProtocolRound :=
  { vaults :=
      [quotingVault "0xa" [] .bid bid,
        quotingVault "0xb" asks .write ask]
    accounts := [lc "0xa", lc "0xb"]
    now := 0 }

theorem twoVaults_wellFormed
    (asks : List LiveOrder)
    (bid ask : Int)
    (hIds : (asks.map (fun o => o.id)).Nodup) :
    (twoVaults asks bid ask).WellFormed where
  vaults := by
    change (["0xa", "0xb"] : List String).Nodup
    decide
  ids := by
    intro v hv
    simp only [twoVaults, List.mem_cons, List.not_mem_nil,
      or_false] at hv
    rcases hv with rfl | rfl
    · exact List.nodup_nil
    · simpa [DistinctIds, vaultOrders, quotingVault,
        Function.comp_def] using hIds
  owned := by
    intro v hv
    simp only [twoVaults, List.mem_cons, List.not_mem_nil,
      or_false] at hv
    rcases hv with rfl | rfl
    · exact List.mem_cons_self
    · exact List.mem_cons_of_mem _ List.mem_cons_self
  nonzero := by
    intro v hv
    simp only [twoVaults, List.mem_cons, List.not_mem_nil,
      or_false] at hv
    rcases hv with rfl | rfl
    · change "0xa" ≠ zeroAddress
      decide
    · change "0xb" ≠ zeroAddress
      decide

/- The second vault's ask, live at 99. -/
def restingAsk : LiveOrder :=
  { id := 1
    kind := .AskWrite
    price := 99
    units := 5
    filled := 0
    validUntil := 100000
    cancelled := false }

/- The bidding vault rests nothing at the start. -/
theorem twoVaults_uncrossed
    (asks : List LiveOrder)
    (bid ask : Int) :
    (twoVaults asks bid ask).Uncrossed
      (twoVaults asks bid ask).start := by
  have hEmpty : (twoVaults asks bid ask).start "0xa" = [] := by
    simp [ProtocolRound.start, twoVaults, quotingVault,
      ProtocolRound.tickOf, TickOfVault.start, startBook,
      ProtocolRound.guarded, SeriesActionInput.live]
  intro v hv w hw hNe b hb a ha
  simp only [twoVaults, List.mem_cons, List.not_mem_nil,
    or_false] at hv hw
  rcases hv with rfl | rfl
  · change b ∈ (twoVaults asks bid ask).start "0xa" at hb
    rw [hEmpty] at hb
    cases hb
  · rcases hw with rfl | rfl
    · change a ∈ (twoVaults asks bid ask).start "0xa" at ha
      rw [hEmpty] at ha
      cases ha
    · exact absurd rfl hNe

/- A vault that quotes one slot newly quotes its price. -/
theorem newly_price
    {asks : List LiveOrder}
    {bid ask longId : Int}
    {v : ProtocolVault}
    (hv : v ∈ (twoVaults asks bid ask).vaults)
    (h : (twoVaults asks bid ask).Newly v longId slot price) :
    slot = .bid ∧ price = bid ∨
      slot = .write ∧ price = ask := by
  rcases h with
    ⟨_, _, input, hInput, _, targets, _, target, validUntil,
      hTargets, _, hQuote, rfl, _⟩
  have hTarget := (quotable_eq_some hQuote).1
  simp only [twoVaults, List.mem_cons, List.not_mem_nil,
    or_false] at hv
  rcases hv with rfl | rfl
  all_goals
    rw [List.mem_singleton.mp hInput] at hTargets
    cases hTargets
    have hPlanned := (Option.filter_eq_some_iff.mp hTarget).1
    dsimp only at hPlanned
    split at hPlanned
    · next hSlot =>
        cases hPlanned
        first
        | exact .inl ⟨hSlot, rfl⟩
        | exact .inr ⟨hSlot, rfl⟩
    · cases hPlanned

/- 98 is bid and 99 becomes 103: the round stays uncrossed. -/
theorem round_uncrossed_iff_at :
    (twoVaults [restingAsk] 98 103).planned.length = 2 ∧
      ∀ sends,
        sends.Perm (twoVaults [restingAsk] 98 103).planned →
          (twoVaults [restingAsk] 98 103).Uncrossed
            ((twoVaults [restingAsk] 98 103).after sends) := by
  refine ⟨by decide +kernel, ?_⟩
  refine
    (round_uncrossed_iff (twoVaults [restingAsk] 98 103)
      (twoVaults_wellFormed [restingAsk] 98 103 (by decide))
      (twoVaults_uncrossed [restingAsk] 98 103)).mpr ?_
  intro v hv w hw _ longId slot bid ask hSlot hBid hAsk
  rcases newly_price hv hBid with ⟨_, hb⟩ | ⟨h, _⟩
  · rcases newly_price hw hAsk with ⟨h, _⟩ | ⟨_, ha⟩
    · exact absurd h hSlot
    · omega
  · cases h

/-
  Two empty vaults on one series: one bids 100, the other
  asks 99, and both orders rest.
-/
theorem round_crosses :
    ¬ ∀ r : ProtocolRound, r.WellFormed →
        r.Uncrossed r.start →
          ∀ sends, sends.Perm r.planned →
            r.Uncrossed (r.after sends) := by
  intro h
  have hCross :=
    h (twoVaults [] 100 99)
      (twoVaults_wellFormed [] 100 99 List.nodup_nil)
      (twoVaults_uncrossed [] 100 99)
      (twoVaults [] 100 99).planned (List.Perm.refl _)
      _ List.mem_cons_self
      _ (List.mem_cons_of_mem _ List.mem_cons_self)
      (by
        change "0xa" ≠ "0xb"
        decide)
      { id := none, kind := .Bid, longId := 7, price := 100,
        units := 5 }
      (by
        change _ ∈ (twoVaults [] 100 99).after
          (twoVaults [] 100 99).planned "0xa"
        decide)
      { id := none, kind := .AskWrite, longId := 7, price := 99,
        units := 5 }
      (by
        change _ ∈ (twoVaults [] 100 99).after
          (twoVaults [] 100 99).planned "0xb"
        decide)
      rfl (fun hk => by cases hk) rfl
  exact absurd hCross (by decide)

end Callhouse.Keeper.Mm
