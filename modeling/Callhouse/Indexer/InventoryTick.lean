import Callhouse.Indexer.Inventory
import Callhouse.Indexer.SelfTradeRows
import Callhouse.Lib.KeysetPage

/-
  One tick of the PnL clock over its part of the tape: it
  books the range event by event, with the lots in step with
  the chain, unless a fill does not bear its fee.

  Main declarations:
    * `tapeTo`, `tapeIn`, `tapeOrigins`
    * `Mirrors`, `EventsMirrored`
    * `bookRange_mirrors`, `bookRange_bears`
-/

----
-- The Blocks of a Range
----

namespace Callhouse.Indexer.PnlClock

section

open Reconcile

section Blocks

variable {env : Env} {inputs : Inputs} {deliveries : Deliveries}
variable {fees : OrderedMap String Int}
variable {rows : RangeRows} {txs : List LoggedTx}

/- A block of the tape that a tick has all the rows for. -/
structure Bookable
    (env : Env)
    (inputs : Inputs)
    (deliveries : Deliveries)
    (fees : OrderedMap String Int)
    (b : LogBlock) : Prop where
  ok : ∃ hash, b.indexed.Ok env.orderBook hash
  sound : b.Sound
  listed : b.Listed inputs
  matched : b.Matched deliveries
  bears : ∀ fill ∈ b.fills, fill.Bears (fees.getD fill.id 0)

/- Block after block, the lots hold what is owned on chain. -/
theorem blocks_hold
    {ledger : Ledger}
    {chain chain' : Chain}
    (h : ledger.Holds chain.owned)
    (hChain : chain.Nonneg)
    {blocks : List LogBlock}
    (hRun :
      blocks.foldlM (chainBlock env.orderBook) chain =
        some chain')
    (hBlocks :
      ∀ b ∈ blocks, Bookable env inputs deliveries fees b) :
    chain'.Nonneg ∧
      Succeeds
        (handleItems env inputs deliveries fees
          (blocks.flatMap LogBlock.items) ledger)
        (fun ledger' => ledger'.Holds chain'.owned) := by
  induction blocks generalizing ledger chain with
  | nil =>
      cases hRun
      exact ⟨hChain, Succeeds.ok h⟩
  | cons b rest ih =>
      rw [List.foldlM_cons] at hRun
      rcases Option.bind_eq_some_iff.mp hRun with
        ⟨mid, hStep, hRest⟩
      rcases List.forall_mem_cons.mp hBlocks with
        ⟨hOwn, hLater⟩
      rcases hOwn.ok with ⟨hash, hOk⟩
      have hMid := chainBlock_nonneg hChain hOwn.sound hStep
      have hBlock :=
        block_holds h hChain hStep hOk hOwn.sound hOwn.listed
          hOwn.matched hOwn.bears
      rcases hBlock with ⟨booked, hBooked, hHolds⟩
      rcases ih hHolds hMid hRest hLater with
        ⟨hNonneg, hSucceeds⟩
      refine ⟨hNonneg, ?_⟩
      rw [List.flatMap_cons, handleItems_append, hBooked]
      exact hSucceeds

/- The tick finds the delivery, the fees and the series. -/
theorem blocks_bookable
    (h : TapeOk env txs)
    (hRows : rows.Of txs)
    (hBears : ∀ t ∈ txs, t.Bears)
    (hListed : ∀ b ∈ tapeBlocks txs, b.Listed inputs) :
    ∃ deliveries fees,
      rows.deliveries env.orderBook = .ok deliveries ∧
        rows.fees = .ok fees ∧
        ∀ b ∈ tapeBlocks txs,
          Bookable env inputs deliveries fees b := by
  rcases deliveries_of h hRows with
    ⟨deliveries, hDeliveries, hMatched⟩
  rcases fees_of h hRows hBears with ⟨fees, hFees, hShares⟩
  refine ⟨deliveries, fees, hDeliveries, hFees, ?_⟩
  intro b hb
  rcases List.mem_flatMap.mp hb with ⟨t, ht, hOf⟩
  exact
    { ok :=
        ⟨t.hash,
          (h.tx t ht).matched.block b.indexed
            (List.mem_map_of_mem hOf)⟩
      sound := (h.tx t ht).sound b hOf
      listed := hListed b hb
      matched := hMatched b hb
      bears := fun fill hFill =>
        hShares fill (List.mem_flatMap.mpr ⟨b, hb, hFill⟩) }

end Blocks

end

----
-- Parts of a Tape
----

section

open Reconcile SelfTrade

variable {env : Env} {rows : RangeRows} {txs tape : List LoggedTx}
variable {after through : Int}

/- The transactions up to a block. -/
def tapeTo
    (tape : List LoggedTx)
    (through : Int) : List LoggedTx :=
  tape.filter (fun t => decide (t.block ≤ through))

/- The transactions of a block range. -/
def tapeIn
    (tape : List LoggedTx)
    (after through : Int) : List LoggedTx :=
  tape.filter (fun t => inRange after through t.block)

section

variable (hOrder : tape.Pairwise LoggedTx.Before)
include hOrder

theorem tape_sorted :
    tape.Pairwise (fun a b => a.block ≤ b.block) := by
  apply hOrder.imp
  rintro a b (hLess | ⟨hSame, _⟩)
  · exact hLess.le
  · exact hSame.le

/- What has been booked is the front of the tape. -/
theorem tapeTo_prefix
    (through : Int) :
    tapeTo tape through <+: tape :=
  ⟨_,
    KeysetPage.filter_le_append_lt (tape_sorted hOrder)
      through⟩

theorem tapeTo_eq_append
    (hLe : after ≤ through) :
    tapeTo tape through =
      tapeTo tape after ++ tapeIn tape after through := by
  have hCut :=
    KeysetPage.filter_le_append_lt
      ((tape_sorted hOrder).filter
        (fun t => decide (t.block ≤ through)))
      after
  rw [List.filter_filter, List.filter_filter] at hCut
  unfold tapeTo tapeIn
  rw [← hCut]
  congr 1
  apply List.filter_congr
  intro t _
  rw [Bool.and_eq_left_iff_imp, decide_eq_true_eq,
    decide_eq_true_eq]
  exact fun hBooked => hBooked.trans hLe

end

/- The logs of a tape that self-traded lots are named after. -/
def tapeOrigins
    (txs : List LoggedTx) : List Origin :=
  ((tapeBlocks txs).flatMap LogBlock.transfers).map
      (fun row => Origin.transfer row.id) ++
    (((tapeBlocks txs).flatMap LogBlock.fills).map
        (fun row => Origin.fill row.id) ++
      ((tapeBlocks txs).flatMap LogBlock.mints).map
        (fun row => Origin.mint row.id))

theorem nodup_origins
    {α : Type}
    {rows : List α}
    {id : α → String}
    {f : String → Origin}
    (hInj : Function.Injective f)
    (hIds : (rows.map id).Nodup) :
    (rows.map (fun row => f (id row))).Nodup := by
  have hMap := hIds.map hInj
  rw [List.map_map] at hMap
  exact hMap

theorem TapeOk.origins_nodup
    (h : TapeOk env txs) :
    (tapeOrigins txs).Nodup := by
  unfold tapeOrigins
  rw [List.nodup_append, List.nodup_append]
  refine ⟨?_, ⟨?_, ?_, ?_⟩, ?_⟩
  · exact
      nodup_origins (fun _ _ => Origin.transfer.inj)
        h.transfer_ids
  · exact nodup_origins (fun _ _ => Origin.fill.inj) h.fill_ids
  · exact nodup_origins (fun _ _ => Origin.mint.inj) h.mint_ids
  · intro a ha b hb
    rcases List.mem_map.mp ha with ⟨_, _, rfl⟩
    rcases List.mem_map.mp hb with ⟨_, _, rfl⟩
    exact Origin.noConfusion
  · intro a ha b hb
    rcases List.mem_map.mp ha with ⟨_, _, rfl⟩
    rcases List.mem_append.mp hb with hIn | hIn
    · rcases List.mem_map.mp hIn with ⟨_, _, rfl⟩
      exact Origin.noConfusion
    · rcases List.mem_map.mp hIn with ⟨_, _, rfl⟩
      exact Origin.noConfusion

theorem tapeOrigins_append
    (a b : List LoggedTx) :
    (tapeOrigins (a ++ b)).Perm
      (tapeOrigins a ++ tapeOrigins b) := by
  unfold tapeOrigins tapeBlocks
  simp only [List.flatMap_append, List.map_append]
  rw [List.perm_iff_count]
  intro origin
  simp only [List.count_append]
  omega

/- What the range's events are named after is on its tape. -/
theorem events_origins
    (hRows : rows.Of txs)
    (matchedMints : List String) :
    ((rows.events matchedMints).filterMap
        SelfTradeEvent.origin).Subperm (tapeOrigins txs) := by
  have hEvents :
      (rows.events matchedMints).filterMap
          SelfTradeEvent.origin =
        rows.transfers.map (fun row => Origin.transfer row.id) ++
          (rows.fills.map (fun row => Origin.fill row.id) ++
            (rows.mints.filter
              (fun row => decide (row.id ∉ matchedMints))).map
                (fun row => Origin.mint row.id)) := by
    unfold RangeRows.events
    simp [List.filterMap_append, List.filterMap_map,
      Function.comp_def, SelfTradeEvent.origin,
      TransferRow.event, FillRow.event, MintRow.event,
      CloseRow.event, RedemptionRow.event]
  rw [hEvents]
  unfold tapeOrigins
  refine
    (hRows.transfers.map _).subperm.append
      ((hRows.fills.map _).subperm.append ?_)
  exact
    (List.filter_sublist.map _).subperm.trans
      (hRows.mints.map _).subperm

def Item.units : Item → Int
  | .transfer row => row.units
  | .fill row => row.units
  | .mint row => row.units
  | .close row => row.units
  | .redeem row => row.units

theorem LogBlock.items_units
    {book hash : String}
    {b : LogBlock}
    (hOk : b.indexed.Ok book hash)
    (hSound : b.Sound) :
    ∀ item ∈ b.items, 0 ≤ item.units := by
  cases b with
  | fill delivery minted row =>
      have hRow : 0 ≤ row.units := hSound.1.le
      have hDelivery : delivery.units = row.units :=
        FillBlock.Ok.units_eq hOk
      intro item hItem
      unfold LogBlock.items at hItem
      rcases List.mem_cons.mp hItem with rfl | hItem
      · exact hRow.trans_eq hDelivery.symm
      · rcases List.mem_append.mp hItem with hMint | hFill
        · rcases List.mem_map.mp hMint with ⟨mint, hOf, rfl⟩
          have hSome := Option.mem_toList.mp hOf
          have hUnits : mint.units = row.units :=
            (FillBlock.Ok.minted hOk mint.indexed
              (Option.mem_map_of_mem _ hSome)).2.2.1
          exact hRow.trans_eq hUnits.symm
        · rw [List.mem_singleton.mp hFill]
          exact hRow
  | mint delivery minted =>
      have hMinted : 0 ≤ minted.units := le_of_lt hSound
      have hDelivery : delivery.units = minted.units :=
        MintBlock.Ok.units_eq hOk
      intro item hItem
      rcases List.mem_pair.mp hItem with rfl | rfl
      · exact hMinted.trans_eq hDelivery.symm
      · exact hMinted
  | exit burn ending =>
      have hEnding :
          0 ≤ ending.exit.units ∧
            ending.item.units = ending.exit.units := by
        cases ending with
        | close row => exact ⟨hSound.1.le, rfl⟩
        | redeem row => exact ⟨hSound.1.le, rfl⟩
      have hBurn : burn.units = ending.exit.units :=
        ExitBlock.Ok.units_eq hOk
      intro item hItem
      rcases List.mem_pair.mp hItem with rfl | rfl
      · exact hEnding.1.trans_eq hBurn.symm
      · exact hEnding.1.trans_eq hEnding.2.symm
  | move row =>
      intro item hItem
      rw [List.mem_singleton.mp hItem]
      exact hSound.1

/- Each event has the units of one of the range's logs. -/
theorem events_units
    (h : TapeOk env txs)
    (hRows : rows.Of txs)
    (matchedMints : List String) :
    ∀ event ∈ rows.events matchedMints, 0 ≤ event.units := by
  have hItems : ∀ item ∈ rows.unsorted, 0 ≤ item.units := by
    intro item hItem
    rw [(unsorted_perm hRows).mem_iff, List.mem_flatMap] at hItem
    rcases hItem with ⟨b, hb, hIn⟩
    rcases List.mem_flatMap.mp hb with ⟨t, ht, hOf⟩
    exact
      LogBlock.items_units
        ((h.tx t ht).matched.block b.indexed
          (List.mem_map_of_mem hOf))
        ((h.tx t ht).sound b hOf) item hIn
  unfold RangeRows.unsorted at hItems
  unfold RangeRows.events
  simp only [List.mem_append, or_imp, forall_and,
    List.forall_mem_map] at hItems ⊢
  rcases hItems with
    ⟨⟨⟨⟨hTransfers, hFills⟩, hMints⟩, hCloses⟩, hRedeems⟩
  refine ⟨⟨⟨⟨hTransfers, hFills⟩, ?_⟩, hCloses⟩, ?_⟩
  · intro row hRow
    exact hMints row (List.mem_of_mem_filter hRow)
  · intro row hRow
    exact hRedeems row (List.mem_of_mem_filter hRow)

end

----
-- One Tick
----

open LockStep Reconcile SelfTrade

/- A tick reads the rows of its part of the tape. -/
structure RangeIndexed
    (tape : List LoggedTx)
    (inputs : Inputs)
    (after through : Int) : Prop where
  rows :
    (inputs.range after through).Of (tapeIn tape after through)
  listed :
    ∀ b ∈ tapeBlocks (tapeIn tape after through),
      b.Listed inputs

/- What the clock has stored once it has booked up to a block. -/
structure Mirrors
    (env : Env)
    (tape : List LoggedTx)
    (booked : Int)
    (stored : Stored) : Prop where
  cursor : stored.after env = booked
  filed : stored.selfTrade.Filed env
  named :
    LotsNamed (tapeOrigins (tapeTo tape booked))
      stored.selfTrade.lots
  holds :
    ∃ chain,
      chainRun env.orderBook (tapeBlocks (tapeTo tape booked)) =
          some chain ∧
        chain.Nonneg ∧ stored.ledger.Holds chain.owned

/-
  A range is booked log by log in the order of the tape, and
  after each of its events the lots hold what is owned on
  chain.
-/
def EventsMirrored
    (env : Env)
    (tape : List LoggedTx)
    (inputs : Inputs)
    (ledger : Ledger)
    (after through : Int) : Prop :=
  ∃ deliveries fees,
    (inputs.range after through).deliveries env.orderBook =
        .ok deliveries ∧
      (inputs.range after through).fees = .ok fees ∧
      (inputs.range after through).items env.locale =
        (tapeBlocks (tapeIn tape after through)).flatMap
          LogBlock.items ∧
      ∀ seen later,
        tapeBlocks (tapeIn tape after through) = seen ++ later →
          ∃ chain,
            chainRun env.orderBook
                (tapeBlocks (tapeTo tape after) ++ seen) =
              some chain ∧
            chain.Nonneg ∧
            Succeeds
              (handleItems env inputs deliveries fees
                (seen.flatMap LogBlock.items) ledger)
              (fun ledger' => ledger'.Holds chain.owned)

variable {env : Env} {tape : List LoggedTx} {inputs : Inputs}
variable {stored : Stored}
variable {after through : Int}

theorem chainRun_front
    {book : String}
    {front back : List LogBlock}
    (h : (chainRun book (front ++ back)).isSome = true) :
    (chainRun book front).isSome = true := by
  unfold chainRun at *
  rw [List.foldlM_append] at h
  rcases Option.isSome_iff_exists.mp h with ⟨chain, hRun⟩
  rcases Option.bind_eq_some_iff.mp hRun with ⟨mid, hFront, _⟩
  rw [hFront]
  rfl

theorem tapeBlocks_append
    (a b : List LoggedTx) :
    tapeBlocks (a ++ b) = tapeBlocks a ++ tapeBlocks b :=
  List.flatMap_append

theorem events_mirrored
    (hTape : TapeOk env tape)
    (hChain :
      (chainRun env.orderBook (tapeBlocks tape)).isSome = true)
    (hBears : ∀ t ∈ tapeIn tape after through, t.Bears)
    (hLe : after ≤ through)
    (hIndexed : RangeIndexed tape inputs after through)
    (h : Mirrors env tape after stored) :
    EventsMirrored env tape inputs stored.ledger after
      through := by
  have hPart : TapeOk env (tapeIn tape after through) :=
    hTape.sublist List.filter_sublist
  rcases
      blocks_bookable hPart hIndexed.rows hBears
        hIndexed.listed with
    ⟨deliveries, fees, hDeliveries, hFees, hBlocks⟩
  refine
    ⟨deliveries, fees, hDeliveries, hFees,
      items_of hPart hIndexed.rows env.locale, ?_⟩
  intro seen later hSplit
  rcases h.holds with ⟨start, hStart, hNonneg, hHolds⟩
  have hSeen :
      (chainRun env.orderBook
        (tapeBlocks (tapeTo tape after) ++ seen)).isSome =
          true := by
    rcases tapeTo_prefix hTape.order through with ⟨rest, hRest⟩
    apply
      @chainRun_front env.orderBook _
        (later ++ tapeBlocks rest)
    rw [List.append_assoc, ← List.append_assoc seen, ← hSplit,
      ← List.append_assoc, ← tapeBlocks_append,
      ← tapeTo_eq_append hTape.order hLe, ← tapeBlocks_append,
      hRest]
    exact hChain
  rcases Option.isSome_iff_exists.mp hSeen with ⟨chain, hRun⟩
  have hFrom :
      seen.foldlM (chainBlock env.orderBook) start =
        some chain := by
    have hWhole := hRun
    unfold chainRun at hStart hWhole
    rw [List.foldlM_append, hStart] at hWhole
    exact hWhole
  have hBooked :=
    blocks_hold hHolds hNonneg hFrom
      (fun b hb => hBlocks b (by
        rw [hSplit]
        exact List.mem_append_left _ hb))
  exact ⟨chain, hRun, hBooked.1, hBooked.2⟩

/- A tick books its range, and does not throw. -/
theorem bookRange_mirrors
    (hTape : TapeOk env tape)
    (hChain :
      (chainRun env.orderBook (tapeBlocks tape)).isSome = true)
    (hBears : ∀ t ∈ tapeIn tape after through, t.Bears)
    (hAhead : after < through)
    (hIndexed : RangeIndexed tape inputs after through)
    (h : Mirrors env tape after stored)
    (ts : Int) :
    Succeeds (bookRange env inputs stored through ts)
      (Mirrors env tape through) := by
  have hCut := tapeTo_eq_append hTape.order hAhead.le
  have hPart : TapeOk env (tapeIn tape after through) :=
    hTape.sublist List.filter_sublist
  rcases
      events_mirrored hTape hChain hBears hAhead.le hIndexed
        h with
    ⟨deliveries, fees, hDeliveries, hFees, hItems, hEvents⟩
  rcases hEvents _ [] (List.append_nil _).symm with
    ⟨chain, hRun, hNonneg, ledger, hLedger, hHolds⟩
  have hNamed := tapeOrigins_append (tapeTo tape after)
    (tapeIn tape after through)
  rw [← hCut] at hNamed
  have hOrigins :=
    events_origins hIndexed.rows deliveries.matchedMints
  have hNodup :
      (tapeOrigins (tapeTo tape after) ++
        ((inputs.range after through).events
            deliveries.matchedMints).filterMap
          SelfTradeEvent.origin).Nodup := by
    have hTo : TapeOk env (tapeTo tape through) :=
      hTape.sublist List.filter_sublist
    have hWhole := hNamed.nodup_iff.mp hTo.origins_nodup
    rcases (List.Subperm.refl
        (tapeOrigins (tapeTo tape after))).append hOrigins with
      ⟨_, hSame, hSub⟩
    exact hSame.nodup_iff.mp (hWhole.sublist hSub)
  rcases
      updateSelfTrade_runs env inputs ts hAhead h.filed h.named
        (events_units hPart hIndexed.rows
          deliveries.matchedMints)
        hNodup with
    ⟨⟨selfTrade, next⟩, hUpdate, hFiled, hLots⟩
  refine
    ⟨{ ledger := ledger
       selfTrade := selfTrade
       cursor := some through
       input := some (recordNextLotExpiry stored.input next) },
      ?_, ?_⟩
  · unfold bookRange
    simp only [h.cursor]
    apply bind_eq_ok.mpr
    refine ⟨deliveries, hDeliveries, ?_⟩
    apply bind_eq_ok.mpr
    refine ⟨fees, hFees, ?_⟩
    apply bind_eq_ok.mpr
    refine ⟨ledger, hItems ▸ hLedger, ?_⟩
    apply bind_eq_ok.mpr
    exact ⟨_, hUpdate, rfl⟩
  · exact
      { cursor := rfl
        filed := hFiled
        named := by
          intro id hId
          rcases hLots id hId with ⟨origin, hOf, hNames⟩
          refine ⟨origin, ?_, hNames⟩
          rw [hNamed.mem_iff]
          rcases List.mem_append.mp hOf with hOld | hNew
          · exact List.mem_append_left _ hOld
          · exact List.mem_append_right _ (hOrigins.subset hNew)
        holds := by
          refine ⟨chain, ?_, hNonneg, hHolds⟩
          rw [hCut, tapeBlocks_append]
          exact hRun }

theorem handleItems_bears
    {deliveries : Deliveries}
    {fees : OrderedMap String Int}
    {items : List Item}
    {ledger ledger' : Ledger}
    (h :
      handleItems env inputs deliveries fees items ledger =
        .ok ledger') :
    ∀ fill, Item.fill fill ∈ items →
      fill.Bears (fees.getD fill.id 0) := by
  induction items generalizing ledger with
  | nil =>
      intro fill hIn
      cases hIn
  | cons item rest ih =>
      rw [handleItems_cons] at h
      rcases bind_eq_ok.mp h with ⟨mid, hFirst, hRest⟩
      intro fill hIn
      rcases List.mem_cons.mp hIn with rfl | hLater
      · exact handleFill_bears hFirst
      · exact ih hRest fill hLater

/- A tick that does not throw has fees that are borne. -/
theorem bookRange_bears
    (hTape : TapeOk env tape)
    (hIndexed :
      RangeIndexed tape inputs (stored.after env) through)
    {ts : Int}
    {stored' : Stored}
    (h : bookRange env inputs stored through ts = .ok stored') :
    ∀ t ∈ tapeIn tape (stored.after env) through, t.Bears := by
  have hPart :
      TapeOk env (tapeIn tape (stored.after env) through) :=
    hTape.sublist List.filter_sublist
  rcases shares_of hPart hIndexed.rows with
    ⟨fees, hFees, hShares⟩
  unfold bookRange at h
  simp only at h
  rcases bind_eq_ok.mp h with ⟨deliveries, _, hRest⟩
  rcases bind_eq_ok.mp hRest with ⟨_, hSame, hItems⟩
  cases hFees.symm.trans hSame
  rcases bind_eq_ok.mp hItems with ⟨ledger, hLedger, _⟩
  intro t ht c hc share hShare fill hFill hOf
  rw [← hShares t ht c hc share hShare, ← hOf]
  apply handleItems_bears hLedger fill
  unfold RangeRows.items
  rw [List.mem_insertionSort]
  have hRow :
      fill ∈ (inputs.range (stored.after env) through).fills := by
    rw [hIndexed.rows.fills.mem_iff, mem_tapeFills]
    exact ⟨t, ht, hFill⟩
  simp only [List.mem_append]
  exact .inl (.inl (.inl (.inr (List.mem_map_of_mem hRow))))

end Callhouse.Indexer.PnlClock
