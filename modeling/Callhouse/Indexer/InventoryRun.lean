import Callhouse.Indexer.InventoryTick

/-
  The PnL clock over whole runs of the indexer: no tick throws
  and the lots hold what the chain's balances and escrow hold,
  after every event, just where every fill bears its fee.

  Main declarations:
    * `Indexed`, `InventoryMirrored`
    * `pnlRun_mirrors`, `pnlRun_bears`
    * `inventory_mirrored_iff`
-/

----
-- Runs of the Indexer
----

namespace Callhouse.Indexer.PnlClock

section

open LockStep Reconcile SelfTrade

/- The tables once some events have been handled. -/
def inputsAfter
    (events : List IndexerEvent) : Inputs :=
  events.foldl
    (fun inputs event =>
      match event with
      | .write _ rows accounts series =>
          inputs.write rows accounts series
      | .tick _ _ => inputs)
    emptyDatabase.inputs

/- The last block that is booked after some events. -/
def bookedAfter
    (env : Env)
    (events : List IndexerEvent) : Int :=
  events.foldl
    (fun booked event =>
      match event with
      | .write _ _ _ _ => booked
      | .tick through _ => max booked through)
    (env.startBlock - 1)

/- Every tick finds the rows of its range written. -/
structure Indexed
    (env : Env)
    (tape : List LoggedTx)
    (events : List IndexerEvent) : Prop where
  order : IndexedInOrder events
  ticks :
    ∀ front through ts back,
      events = front ++ .tick through ts :: back →
        RangeIndexed tape (inputsAfter front)
          (bookedAfter env front) through

/-
  No event throws; the lots hold what is owned on chain after
  each of them, and after each event of the range that a tick
  books.
-/
def InventoryMirrored
    (env : Env)
    (tape : List LoggedTx)
    (events : List IndexerEvent) : Prop :=
  ∀ front back, events = front ++ back →
    ∃ db,
      indexRun (pnlTick env) front = .ok db ∧
        db.stored.after env = bookedAfter env front ∧
        (∃ chain,
          chainRun env.orderBook
              (tapeBlocks
                (tapeTo tape (bookedAfter env front))) =
            some chain ∧
          db.stored.ledger.Holds chain.owned) ∧
        ∀ through ts rest,
          back = .tick through ts :: rest →
            bookedAfter env front < through →
              EventsMirrored env tape db.inputs
                db.stored.ledger (bookedAfter env front)
                through

variable {env : Env} {tape : List LoggedTx}
variable {events front back : List IndexerEvent}

theorem IndexedInOrder.earlier
    (h : IndexedInOrder (front ++ back)) :
    IndexedInOrder front where
  blocks := (List.pairwise_append.mp h.blocks).1
  rows := fun block rows accounts series hIn =>
    h.rows block rows accounts series
      (List.mem_append_left _ hIn)

/- The last block that is booked only goes up. -/
theorem bookedAfter_le
    (env : Env)
    (front back : List IndexerEvent) :
    bookedAfter env front ≤ bookedAfter env (front ++ back) := by
  unfold bookedAfter
  rw [List.foldl_append]
  generalize
    front.foldl
      (fun booked event =>
        match event with
        | .write _ _ _ _ => booked
        | .tick through _ => max booked through)
      (env.startBlock - 1) = booked
  induction back generalizing booked with
  | nil => exact le_refl booked
  | cons event rest ih =>
      rw [List.foldl_cons]
      cases event with
      | write block rows accounts series => exact ih booked
      | tick through ts =>
          exact (le_max_left booked through).trans (ih _)

theorem inputsAfter_concat
    (front : List IndexerEvent)
    (event : IndexerEvent) :
    inputsAfter (front ++ [event]) =
      match event with
      | .write _ rows accounts series =>
          (inputsAfter front).write rows accounts series
      | .tick _ _ => inputsAfter front := by
  unfold inputsAfter
  rw [List.foldl_append]
  rfl

theorem bookedAfter_concat
    (env : Env)
    (front : List IndexerEvent)
    (event : IndexerEvent) :
    bookedAfter env (front ++ [event]) =
      match event with
      | .write _ _ _ _ => bookedAfter env front
      | .tick through _ => max (bookedAfter env front) through := by
  unfold bookedAfter
  rw [List.foldl_append]
  rfl

theorem tapeTo_start
    (hTape : TapeOk env tape) :
    tapeTo tape (env.startBlock - 1) = [] := by
  unfold tapeTo
  rw [List.filter_eq_nil_iff]
  intro t ht hLess
  have hStart := hTape.start t ht
  have hLess := of_decide_eq_true hLess
  omega

theorem emptyDatabase_mirrors
    (hTape : TapeOk env tape) :
    Mirrors env tape (env.startBlock - 1)
      emptyDatabase.stored where
  cursor := rfl
  filed := (emptyDatabase_tracked env []).filed
  named := by
    intro id hHas
    cases hHas
  holds := by
    rw [tapeTo_start hTape]
    refine ⟨emptyChain, rfl, ?_, ?_⟩
    · exact
        { balance := fun _ => le_refl 0
          escrow := fun _ => le_refl 0 }
    · exact
        { ok :=
            { lot := by
                intro lot hLot
                cases hLot
              keys := List.nodup_nil }
          held := rfl }

/- A tick's part of the tape is booked once it has run. -/
theorem mem_tapeTo_of_tick
    {through ts : Int}
    {t : LoggedTx}
    (ht : t ∈ tapeIn tape (bookedAfter env front) through) :
    t ∈
      tapeTo tape
        (bookedAfter env (front ++ .tick through ts :: back)) := by
  unfold tapeIn at ht
  unfold tapeTo
  rw [List.mem_filter] at ht ⊢
  refine ⟨ht.1, decide_eq_true ?_⟩
  have hIn := ht.2
  unfold inRange at hIn
  rw [Bool.and_eq_true, decide_eq_true_eq,
    decide_eq_true_eq] at hIn
  have hTick :=
    bookedAfter_le env (front ++ [.tick through ts]) back
  rw [bookedAfter_concat, List.append_assoc] at hTick
  exact hIn.2.trans ((le_max_right _ _).trans hTick)

theorem indexEvent_mirrors
    (hTape : TapeOk env tape)
    (hChain :
      (chainRun env.orderBook (tapeBlocks tape)).isSome = true)
    {event : IndexerEvent}
    (hIndexed : Indexed env tape (front ++ event :: back))
    (hBears :
      ∀ t ∈
          tapeTo tape
            (bookedAfter env (front ++ event :: back)),
        t.Bears)
    {db : Database}
    (hInputs : db.inputs = inputsAfter front)
    (h : Mirrors env tape (bookedAfter env front) db.stored) :
    Succeeds (indexEvent (fullTick env) db event)
      (fun db' =>
        db'.inputs = inputsAfter (front ++ [event]) ∧
          Mirrors env tape (bookedAfter env (front ++ [event]))
            db'.stored) := by
  rw [inputsAfter_concat, bookedAfter_concat, ← hInputs]
  cases event with
  | write block rows accounts series =>
      apply Succeeds.ok
      exact
        ⟨rfl,
          { cursor := h.cursor
            filed := h.filed
            named := h.named
            holds := h.holds }⟩
  | tick through ts =>
      have hRange := hIndexed.ticks front through ts back rfl
      rw [← hInputs] at hRange
      have hTick :
          Succeeds
            (fullTick env db.inputs db.stored through ts)
            (Mirrors env tape
              (max (bookedAfter env front) through)) := by
        unfold fullTick
        rw [h.cursor]
        split
        · next hOld =>
            rw [max_eq_left hOld]
            exact Succeeds.ok h
        · next hAhead =>
            rw [max_eq_right (not_le.mp hAhead).le]
            exact
              bookRange_mirrors hTape hChain
                (fun t ht => hBears t (mem_tapeTo_of_tick ht))
                (not_le.mp hAhead) hRange h ts
      apply hTick.bind
      intro stored hStored
      exact Succeeds.ok ⟨rfl, hStored⟩

theorem fullRun_mirrors
    (hTape : TapeOk env tape)
    (hChain :
      (chainRun env.orderBook (tapeBlocks tape)).isSome = true)
    (hIndexed : Indexed env tape (front ++ back))
    (hBears :
      ∀ t ∈ tapeTo tape (bookedAfter env (front ++ back)),
        t.Bears) :
    Succeeds (indexRun (fullTick env) front)
      (fun db =>
        db.inputs = inputsAfter front ∧
          Mirrors env tape (bookedAfter env front)
            db.stored) := by
  unfold indexRun
  apply Succeeds.foldlM
  · intro seen event later hSplit db hDb
    rw [hSplit, List.append_assoc] at hIndexed hBears
    exact
      indexEvent_mirrors hTape hChain hIndexed hBears hDb.1
        hDb.2
  · exact ⟨rfl, emptyDatabase_mirrors hTape⟩

/- The run with skipped ticks is in step with the full one. -/
theorem pnlRun_mirrors
    (hTape : TapeOk env tape)
    (hChain :
      (chainRun env.orderBook (tapeBlocks tape)).isSome = true)
    (hIndexed : Indexed env tape events)
    (hBears :
      ∀ t ∈ tapeTo tape (bookedAfter env events), t.Bears) :
    InventoryMirrored env tape events := by
  intro front back hSplit
  subst hSplit
  rcases fullRun_mirrors hTape hChain hIndexed hBears with
    ⟨full, hFull, hInputs, hMirrors⟩
  have hAgree := indexRun_agrees env hIndexed.order.earlier
  rw [hFull] at hAgree
  generalize hRun : indexRun (pnlTick env) front = result
    at hAgree
  cases hAgree with
  | @ok db _ hStep =>
      have hLedger : db.stored.ledger = full.stored.ledger :=
        congrArg Booked.ledger hStep.booked
      have hCursor : db.stored.cursor = full.stored.cursor :=
        congrArg Booked.cursor hStep.booked
      refine ⟨db, rfl, ?_, ?_, ?_⟩
      · rw [← hMirrors.cursor]
        unfold Stored.after
        rw [hCursor]
      · rcases hMirrors.holds with
          ⟨chain, hChainRun, _, hHolds⟩
        rw [hLedger]
        exact ⟨chain, hChainRun, hHolds⟩
      · intro through ts rest hBack hAhead
        subst hBack
        rw [hStep.inputs, hLedger]
        apply
          events_mirrored hTape hChain
            (fun t ht => hBears t (mem_tapeTo_of_tick ht))
            hAhead.le _ hMirrors
        rw [hInputs]
        exact hIndexed.ticks front through ts rest rfl

end

----
-- Runs That Do Not Throw
----

section

open LockStep Reconcile SelfTrade

variable {env : Env} {tape : List LoggedTx}
variable {events front back : List IndexerEvent}

/- What a run has booked has borne its fees. -/
structure Borne
    (env : Env)
    (tape : List LoggedTx)
    (front : List IndexerEvent)
    (db : Database) : Prop where
  inputs : db.inputs = inputsAfter front
  cursor : db.stored.after env = bookedAfter env front
  bears :
    ∀ t ∈ tapeTo tape (bookedAfter env front), t.Bears

theorem fullTick_cursor
    {inputs : Inputs}
    {stored stored' : Stored}
    {through ts : Int}
    (h : fullTick env inputs stored through ts = .ok stored') :
    stored'.after env = max (stored.after env) through := by
  unfold fullTick at h
  split at h
  · next hOld =>
      cases h
      rw [max_eq_left hOld]
  · next hAhead =>
      rcases bookRange_ok h with ⟨_, _, _, hCursor, _⟩
      rw [max_eq_right (not_le.mp hAhead).le]
      unfold Stored.after
      rw [hCursor]
      rfl

variable {db : Database}

theorem indexEvent_borne
    (hTape : TapeOk env tape)
    {event : IndexerEvent}
    (hIndexed : Indexed env tape (front ++ event :: back))
    {db' : Database}
    (h : Borne env tape front db)
    (hStep : indexEvent (fullTick env) db event = .ok db') :
    Borne env tape (front ++ [event]) db' := by
  cases event with
  | write block rows accounts series =>
      cases hStep
      exact
        { inputs := by
            rw [inputsAfter_concat, h.inputs]
          cursor := by
            rw [bookedAfter_concat]
            exact h.cursor
          bears := by
            rw [bookedAfter_concat]
            exact h.bears }
  | tick through ts =>
      rcases bind_eq_ok.mp hStep with ⟨stored, hTick, hDone⟩
      cases hDone
      have hCursor := fullTick_cursor hTick
      constructor
      · rw [inputsAfter_concat]
        exact h.inputs
      · rw [bookedAfter_concat, hCursor, h.cursor]
      · rw [bookedAfter_concat]
        change
          ∀ t ∈
              tapeTo tape (max (bookedAfter env front) through),
            t.Bears
        have hRange := hIndexed.ticks front through ts back rfl
        rw [← h.inputs, ← h.cursor] at hRange
        unfold fullTick at hTick
        split at hTick
        · next hOld =>
            rw [h.cursor] at hOld
            rw [max_eq_left hOld]
            exact h.bears
        · next hAhead =>
            have hLe := (not_le.mp hAhead).le
            rw [h.cursor] at hLe
            rw [max_eq_right hLe,
              tapeTo_eq_append hTape.order hLe]
            have hBooked := bookRange_bears hTape hRange hTick
            rw [h.cursor] at hBooked
            intro t ht
            rcases List.mem_append.mp ht with hOld | hNew
            · exact h.bears t hOld
            · exact hBooked t hNew

theorem fullRun_borne
    (hTape : TapeOk env tape)
    (hIndexed : Indexed env tape (front ++ back))
    (h : indexRun (fullTick env) front = .ok db) :
    Borne env tape front db := by
  induction front using List.reverseRecOn generalizing back db with
  | nil =>
      cases h
      exact
        { inputs := rfl
          cursor := rfl
          bears := by
            have hNone := tapeTo_start hTape
            intro t ht
            rw [bookedAfter, List.foldl_nil, hNone] at ht
            cases ht }
  | append_singleton front event ih =>
      unfold indexRun at h
      rw [List.foldlM_append] at h
      rcases bind_eq_ok.mp h with ⟨mid, hFront, hEvent⟩
      rw [List.foldlM_cons] at hEvent
      rcases bind_eq_ok.mp hEvent with ⟨last, hStep, hDone⟩
      cases hDone
      rw [List.append_assoc] at hIndexed
      exact
        indexEvent_borne hTape hIndexed (ih hIndexed hFront)
          hStep

theorem pnlRun_bears
    (hTape : TapeOk env tape)
    (hIndexed : Indexed env tape events)
    (h : indexRun (pnlTick env) events = .ok db) :
    ∀ t ∈ tapeTo tape (bookedAfter env events), t.Bears := by
  have hAgree := indexRun_agrees env hIndexed.order
  rw [h] at hAgree
  generalize hFull : indexRun (fullTick env) events = result
    at hAgree
  cases hAgree with
  | ok _ =>
      rw [← List.append_nil events] at hIndexed
      exact (fullRun_borne hTape hIndexed hFull).bears

/-
  The clock mirrors the chain, and never throws, just where
  every fill that is booked bears its share of its call's fee.
-/
theorem inventory_mirrored_iff
    (hTape : TapeOk env tape)
    (hChain :
      (chainRun env.orderBook (tapeBlocks tape)).isSome = true)
    (hIndexed : Indexed env tape events) :
    InventoryMirrored env tape events ↔
      ∀ t ∈ tapeTo tape (bookedAfter env events), t.Bears := by
  constructor
  · intro hMirrored
    rcases hMirrored events [] (List.append_nil _).symm with
      ⟨db, hRun, _⟩
    exact pnlRun_bears hTape hIndexed hRun
  · exact pnlRun_mirrors hTape hChain hIndexed

end

----
-- A Sale Into Three Bids
----

open Reconcile SelfTrade

def saleEnv : Env :=
  { orderBook := "0xb00c"
    usdg := "0xd011a2"
    startBlock := 5
    protocolAddresses := [some "0xb00c"]
    locale := String.instLinearOrder
    windowStarts := fun _ => { week := 0, month := 0 }
    trySpot := fun _ _ _ => (false, 0) }

def saleSeries : SeriesRow :=
  { longId := 1
    oracle := "0x0c"
    underlying := "0x0e"
    expiry := 1000
    strike := 200
    isPut := false
    settlementPrice := none }

/- A writer mints three units to the wallet that sells them. -/
def saleMint : LogBlock :=
  .mint
    { id := "0x01-0"
      tx := "0x01"
      longId := 1
      sender := zero
      recipient := "0xcc"
      units := 3
      block := 6
      logIndex := 0
      ts := 60 }
    { id := "0x01-1"
      tx := "0x01"
      longId := 1
      writer := "0xaa"
      longTo := "0xcc"
      units := 3
      block := 6
      logIndex := 1
      ts := 60 }

def saleFill
    (id deliveryId buyer : String)
    (premium logIndex : Int) : LogBlock :=
  .fill
    { id := deliveryId
      tx := "0x02"
      longId := 1
      sender := "0xcc"
      recipient := buyer
      units := 1
      block := 6
      logIndex := logIndex
      ts := 60 }
    none
    { id := id
      tx := "0x02"
      longId := 1
      maker := buyer
      taker := "0xcc"
      recipient := "0xcc"
      buyer := buyer
      seller := "0xcc"
      units := 1
      price := 100 * premium
      premium := premium
      sellerFee := 0
      makerRebate := 0
      primary := false
      takerIsBuyer := false
      block := 6
      logIndex := logIndex + 1
      ts := 60 }

/- One unit into each of three bids, the best ones first. -/
def saleFills : List LogBlock :=
  [saleFill "0x02-3" "0x02-2" "0xd1" 14 2,
   saleFill "0x02-5" "0x02-4" "0xd2" 14 4,
   saleFill "0x02-7" "0x02-6" "0xd3" 1 6]

def saleRun : List FeeFill :=
  (saleFills.flatMap LogBlock.fills).map FillRow.feeFill

def saleTaken
    (takerFee : Int) : TakenCall :=
  { tx := "0x02"
    longId := 1
    taker := "0xcc"
    buying := false
    units := 3
    premium := 29
    takerFee := takerFee
    logIndex := 8 }

def saleTape
    (takerFee : Int) : List LoggedTx :=
  [{ hash := "0x01"
     block := 6
     blocks := [saleMint]
     calls := [] },
   { hash := "0x02"
     block := 6
     blocks := saleFills
     calls := [{ taken := saleTaken takerFee, run := saleRun }] }]

/- The rows of the tape, all of them of one block. -/
def saleRows
    (takerFee : Int) : RangeRows :=
  { transfers :=
      (saleMint :: saleFills).flatMap LogBlock.transfers
    fills := saleFills.flatMap LogBlock.fills
    takes := [{ call := saleTaken takerFee, block := 6 }]
    mints := saleMint.mints
    closes := []
    redemptions := []
    cashFlows := [] }

def saleEvents
    (takerFee : Int) : List IndexerEvent :=
  [.write 6 (saleRows takerFee) [] [saleSeries],
   .tick 6 60]

theorem saleFill_ok
    (id deliveryId buyer : String)
    (premium logIndex : Int) :
    (saleFill id deliveryId buyer premium logIndex).indexed.Ok
      saleEnv.orderBook "0x02" := by
  refine
    FillBlock.Ok.mk (same_refl _) (same_refl _) rfl rfl
      (same_refl _) (same_refl _) rfl ?_ ?_
  · exact List.pairwise_pair.mpr (Int.lt_succ logIndex)
  · intro m hm
    cases hm

theorem saleClosed
    {takerFee : Int}
    (hFee : 0 ≤ takerFee) :
    Closed [{ taken := saleTaken takerFee, run := saleRun }]
      saleRun where
  whole := by
    rw [List.forall_mem_singleton]
    exact
      { run_ne_nil := (by decide : saleRun ≠ [])
        sorted :=
          (by decide :
            saleRun.Pairwise
              (fun a b => a.logIndex < b.logIndex))
        onSide :=
          (by decide +kernel :
            ∀ fill ∈ saleRun, onSide (saleTaken 0) fill = true)
        before :=
          (by decide : ∀ fill ∈ saleRun, fill.logIndex < 8)
        units_pos :=
          (by decide : ∀ fill ∈ saleRun, 0 < fill.units)
        premium_pos :=
          (by decide : ∀ fill ∈ saleRun, 0 < fill.premium)
        units_eq := rfl
        premium_eq := rfl
        fee_nonneg := hFee }
  fills_perm := List.Perm.refl _
  ids_nodup := by decide
  logIndex_inj := by decide +kernel
  latest := by
    intro c hc d hd _ _ _ _
    left
    rw [List.mem_singleton.mp hc, List.mem_singleton.mp hd]

theorem saleMint_ok :
    saleMint.indexed.Ok saleEnv.orderBook "0x01" :=
  MintBlock.Ok.mk (by decide) (same_refl _) (same_refl _) rfl
    rfl (same_refl _) (same_refl _)

theorem saleFills_ordered :
    (saleFills.map LogBlock.indexed).Pairwise Block.Before := by
  unfold Block.Before
  decide

theorem saleFills_after :
    ∀ a ∈ saleMint.items,
      ∀ b ∈ saleFills.flatMap LogBlock.items,
        a.logIndex < b.logIndex := by
  decide

theorem saleTape_ok
    {takerFee : Int}
    (hFee : 0 ≤ takerFee) :
    TapeOk saleEnv (saleTape takerFee) where
  tx := by
    unfold saleTape
    rw [List.forall_mem_cons, List.forall_mem_singleton]
    constructor
    · exact
        { matched :=
            { block := List.forall_mem_singleton.mpr saleMint_ok
              ordered := List.pairwise_singleton _ _ }
          closed :=
            { whole := List.forall_mem_nil _
              fills_perm := List.Perm.refl _
              ids_nodup := List.nodup_nil
              logIndex_inj := List.forall_mem_nil _
              latest := List.forall_mem_nil _ }
          block := by decide
          sound :=
            List.forall_mem_singleton.mpr
              (by decide : (0 : Int) < 3) }
    · exact
        { matched :=
            { block := by
                intro b hb
                rcases List.mem_map.mp hb with ⟨own, hOwn, rfl⟩
                simp only [saleFills, List.mem_cons,
                  List.not_mem_nil, or_false] at hOwn
                rcases hOwn with rfl | rfl | rfl
                · exact saleFill_ok _ _ _ _ _
                · exact saleFill_ok _ _ _ _ _
                · exact saleFill_ok _ _ _ _ _
              ordered := saleFills_ordered }
          closed := saleClosed hFee
          block :=
            (by decide :
              ∀ item ∈ saleFills.flatMap LogBlock.items,
                item.block = 6)
          sound := by
            intro b hb
            simp only [saleFills, List.mem_cons,
              List.not_mem_nil, or_false] at hb
            rcases hb with rfl | rfl | rfl
            · exact ⟨by decide, by decide⟩
            · exact ⟨by decide, by decide⟩
            · exact ⟨by decide, by decide⟩ }
  start := by
    unfold saleTape
    rw [List.forall_mem_cons, List.forall_mem_singleton]
    have hStart : (5 : Int) ≤ 6 := by decide
    exact ⟨hStart, hStart⟩
  hashes :=
    List.pairwise_pair.mpr
      (by decide +kernel : same "0x01" "0x02" = false)
  order :=
    List.pairwise_pair.mpr (.inr ⟨rfl, saleFills_after⟩)
  transfer_ids :=
    (by decide :
      (((saleMint :: saleFills).flatMap
        LogBlock.transfers).map (fun row => row.id)).Nodup)
  mint_ids :=
    (by decide :
      (((saleMint :: saleFills).flatMap
        LogBlock.mints).map (fun row => row.id)).Nodup)
  fill_ids :=
    (by decide :
      (((saleMint :: saleFills).flatMap
        LogBlock.fills).map (fun row => row.id)).Nodup)

theorem saleRows_of
    (takerFee : Int) :
    (saleRows takerFee).Of (saleTape takerFee) where
  transfers := List.Perm.refl _
  fills := List.Perm.refl _
  takes := List.Perm.refl _
  mints := List.Perm.refl _
  closes := List.Perm.refl _
  redemptions := List.Perm.refl _

theorem saleEvents_indexed
    (takerFee : Int) :
    Indexed saleEnv (saleTape takerFee) (saleEvents takerFee) where
  order := by
    constructor
    · exact List.pairwise_pair.mpr (le_refl 6)
    · intro block rows accounts series hIn
      rcases List.mem_pair.mp hIn with hWrite | hTick
      · cases hWrite
        exact (by decide : ∀ b ∈ (saleRows 0).blocks, b = 6)
      · cases hTick
  ticks := by
    intro front through ts back hSplit
    cases front with
    | nil => cases hSplit
    | cons first rest =>
        cases rest with
        | nil =>
            cases hSplit
            constructor
            · exact saleRows_of takerFee
            · intro b hb
              change b ∈ saleMint :: saleFills at hb
              have hSeries :
                  ∃ series,
                    Inputs.findSeries
                        (inputsAfter
                          [.write 6 (saleRows takerFee) []
                            [saleSeries]])
                        1 = some series ∧
                      0 ≤ series.strike :=
                ⟨saleSeries, rfl, by decide⟩
              simp only [saleFills, List.mem_cons,
                List.not_mem_nil, or_false] at hb
              rcases hb with rfl | rfl | rfl | rfl
              · exact hSeries
              · exact hSeries
              · exact hSeries
              · exact hSeries
        | cons second rest =>
            have hLength := congrArg List.length hSplit
            simp [saleEvents] at hLength

theorem saleTape_bears :
    ∀ t ∈ saleTape 1, t.Bears := by
  have hShares :
      ∀ share ∈
          saleRun.zip
            (feeShares { taken := saleTaken 1, run := saleRun }),
        ∀ fill ∈ saleFills.flatMap LogBlock.fills,
          fill.feeFill = share.1 →
            (fill.primary = false →
                0 ≤ fillProceeds fill share.2) ∧
              0 ≤ fillCost fill share.2 := by
    decide +kernel
  unfold saleTape
  rw [List.forall_mem_cons, List.forall_mem_singleton]
  constructor
  · exact List.forall_mem_nil _
  · unfold LoggedTx.Bears
    rw [List.forall_mem_singleton]
    intro share hShare fill hFill hSame
    rcases hShares share hShare fill hFill hSame with
      ⟨hProceeds, hCost⟩
    exact
      { proceeds := hProceeds
        cost := hCost }

theorem inventory_mirrored_iff_sale :
    InventoryMirrored saleEnv (saleTape 1) (saleEvents 1) := by
  apply
    (inventory_mirrored_iff (saleTape_ok (by decide))
      (by decide +kernel) (saleEvents_indexed 1)).mpr
  intro t ht
  exact saleTape_bears t (List.mem_of_mem_filter ht)

/- The last bid's premium does not bear the rest of the fee. -/
theorem sale_dust_throws :
    TapeOk saleEnv (saleTape 2) ∧
      (chainRun saleEnv.orderBook
        (tapeBlocks (saleTape 2))).isSome = true ∧
      Indexed saleEnv (saleTape 2) (saleEvents 2) ∧
      (∀ db,
        indexRun (pnlTick saleEnv) (saleEvents 2) ≠ .ok db) ∧
      ¬ InventoryMirrored saleEnv (saleTape 2)
        (saleEvents 2) := by
  have hLast :
      ∃ share ∈
          saleRun.zip
            (feeShares { taken := saleTaken 2, run := saleRun }),
        ∃ fill ∈ saleFills.flatMap LogBlock.fills,
          fill.feeFill = share.1 ∧ fill.primary = false ∧
            fillProceeds fill share.2 < 0 := by
    decide +kernel
  have hThrows :
      ∀ db,
        indexRun (pnlTick saleEnv) (saleEvents 2) ≠
          .ok db := by
    intro db hRun
    rcases hLast with
      ⟨share, hShare, fill, hFill, hSame, hResale, hLess⟩
    have hBears :=
      pnlRun_bears (saleTape_ok (by decide))
        (saleEvents_indexed 2) hRun _
        (List.mem_filter.mpr
          ⟨List.mem_cons_of_mem _ List.mem_cons_self, rfl⟩)
        _ (List.mem_singleton_self _) share hShare fill hFill
        hSame
    exact not_lt.mpr (hBears.proceeds hResale) hLess
  refine
    ⟨saleTape_ok (by decide), by decide +kernel,
      saleEvents_indexed 2, hThrows, ?_⟩
  intro hMirrored
  rcases hMirrored (saleEvents 2) [] rfl with ⟨db, hRun, _⟩
  exact hThrows db hRun

end Callhouse.Indexer.PnlClock
