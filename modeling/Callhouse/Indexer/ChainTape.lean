import Callhouse.Indexer.Deliveries
import Callhouse.Indexer.LotInventory
import Callhouse.Indexer.TakeFees

/-
  The event tape that the PnL clock reads: transactions made
  of blocks of logs, what they move on chain, and the rows of
  a block range.

  Main declarations:
    * `LogBlock`, `LoggedTx`, `TapeOk`
    * `Chain`, `chainBlock`
    * `RangeRows.Of`, `deliveries_of`, `fees_of`, `items_of`
-/

----
-- Blocks of Logs
----

namespace Callhouse.Indexer.PnlClock

section

open Reconcile

/- What ends an exit: a Closed, or a long Redemption. -/
inductive ExitRow where
  | close (row : CloseRow)
  | redeem (row : RedemptionRow)
deriving DecidableEq

def ExitRow.exit : ExitRow → IndexedExit
  | .close row => row.exit
  | .redeem row => row.exit

def ExitRow.item : ExitRow → Item
  | .close row => .close row
  | .redeem row => .redeem row

/- A move is one of escrow, or of wallets among themselves. -/
inductive LogBlock where
  | fill
      (delivery : TransferRow)
      (minted : Option MintRow)
      (row : FillRow)
  | mint (delivery : TransferRow) (minted : MintRow)
  | exit (burn : TransferRow) (ending : ExitRow)
  | move (row : TransferRow)
deriving DecidableEq

def LogBlock.indexed : LogBlock → Block
  | .fill delivery minted row =>
      .fill
        { delivery := delivery.indexed
          minted := minted.map MintRow.indexed
          fill := row.indexed }
  | .mint delivery minted =>
      .mint
        { delivery := delivery.indexed
          minted := minted.indexed }
  | .exit burn ending =>
      .exit
        { burn := burn.indexed
          exit := ending.exit }
  | .move row => .plain [row.indexed]

def LogBlock.transfers : LogBlock → List TransferRow
  | .fill delivery _ _ => [delivery]
  | .mint delivery _ => [delivery]
  | .exit burn _ => [burn]
  | .move row => [row]

def LogBlock.fills : LogBlock → List FillRow
  | .fill _ _ row => [row]
  | _ => []

def LogBlock.mints : LogBlock → List MintRow
  | .fill _ minted _ => minted.toList
  | .mint _ minted => [minted]
  | _ => []

def LogBlock.closes : LogBlock → List CloseRow
  | .exit _ (.close row) => [row]
  | _ => []

def LogBlock.redemptions : LogBlock → List RedemptionRow
  | .exit _ (.redeem row) => [row]
  | _ => []

/- The logs of a block, in their order. -/
def LogBlock.items : LogBlock → List Item
  | .fill delivery minted row =>
      .transfer delivery ::
        (minted.toList.map Item.mint ++ [.fill row])
  | .mint delivery minted => [.transfer delivery, .mint minted]
  | .exit burn ending => [.transfer burn, ending.item]
  | .move row => [.transfer row]

/- A transaction, with the calls that closed its fills. -/
structure LoggedTx where
  hash : String
  block : Int
  blocks : List LogBlock
  calls : List Closing

def LoggedTx.indexed
    (t : LoggedTx) : Transaction :=
  { hash := t.hash
    blocks := t.blocks.map LogBlock.indexed }

def LoggedTx.items
    (t : LoggedTx) : List Item :=
  t.blocks.flatMap LogBlock.items

def LoggedTx.fills
    (t : LoggedTx) : List FillRow :=
  t.blocks.flatMap LogBlock.fills

def tapeBlocks
    (tape : List LoggedTx) : List LogBlock :=
  tape.flatMap LoggedTx.blocks

end

----
-- Balances on Chain
----

section

open Balances Reconcile

/- Long balances of holders, and what makers have in escrow. -/
structure Chain where
  balance : Int × String → Int
  escrow : Int × String → Int

def emptyChain : Chain :=
  { balance := fun _ => 0
    escrow := fun _ => 0 }

/- What a holder owns of a series, in its wallet and the book. -/
def Chain.owned
    (chain : Chain) : Int × String → Int :=
  total chain.balance chain.escrow

structure Chain.Nonneg
    (chain : Chain) : Prop where
  balance : Balances.Nonneg chain.balance
  escrow : Balances.Nonneg chain.escrow

def chainFill
    (chain : Chain)
    (row : FillRow) : Option Chain :=
  let buyer := (row.longId, address row.buyer)
  let seller := (row.longId, address row.seller)
  if row.primary then
    some
      { chain with
        balance := credit chain.balance buyer row.units }
  else if row.takerIsBuyer then do
    let escrow ← debit chain.escrow seller row.units
    return { balance := credit chain.balance buyer row.units
             escrow := escrow }
  else do
    let balance ← debit chain.balance seller row.units
    return { chain with
             balance := credit balance buyer row.units }

def chainMove
    (book : String)
    (chain : Chain)
    (row : TransferRow) : Option Chain :=
  let sender := (row.longId, address row.sender)
  let recipient := (row.longId, address row.recipient)
  if address row.sender = address book then do
    let escrow ← debit chain.escrow recipient row.units
    return { balance := credit chain.balance recipient row.units
             escrow := escrow }
  else if address row.recipient = address book then do
    let balance ← debit chain.balance sender row.units
    return { balance := balance
             escrow := credit chain.escrow sender row.units }
  else do
    let balance ← debit chain.balance sender row.units
    return { chain with
             balance := credit balance recipient row.units }

def chainExit
    (chain : Chain)
    (exit : IndexedExit) : Option Chain := do
  let balance ←
    debit chain.balance (exit.longId, address exit.holder)
      exit.units
  return { chain with balance := balance }

/- None where a balance would turn negative. -/
def chainBlock
    (book : String)
    (chain : Chain) : LogBlock → Option Chain
  | .fill _ _ row => chainFill chain row
  | .mint _ minted =>
      some
        { chain with
          balance :=
            credit chain.balance
              (minted.longId, address minted.longTo)
              minted.units }
  | .exit _ ending => chainExit chain ending.exit
  | .move row => chainMove book chain row

def chainRun
    (book : String)
    (blocks : List LogBlock) : Option Chain :=
  blocks.foldlM (chainBlock book) emptyChain

end

----
-- Well-Formed Tapes
----

section

open Reconcile

/- What the contracts let a row of a block say. -/
def LogBlock.Sound : LogBlock → Prop
  | .fill _ _ row => 0 < row.units ∧ 0 ≤ row.ts
  | .mint _ minted => 0 < minted.units
  | .exit _ (.close row) => 0 < row.units ∧ 0 ≤ row.ts
  | .exit _ (.redeem row) =>
      0 < row.units ∧ 0 ≤ row.ts ∧ 0 ≤ row.amount ∧
        row.side = .long
  | .move row =>
      0 ≤ row.units ∧ 0 ≤ row.ts ∧
        address row.sender ≠ zero ∧
        address row.recipient ≠ zero

/- The transaction's blocks, and one Taken for every call. -/
structure LoggedTx.Ok
    (t : LoggedTx)
    (book : String) : Prop where
  matched : t.indexed.Ok book
  closed : Closed t.calls (t.fills.map FillRow.feeFill)
  block : ∀ item ∈ t.items, item.block = t.block
  sound : ∀ b ∈ t.blocks, b.Sound

def LoggedTx.Before
    (t later : LoggedTx) : Prop :=
  t.block < later.block ∨
    t.block = later.block ∧
      ∀ a ∈ t.items, ∀ b ∈ later.items,
        a.logIndex < b.logIndex

structure TapeOk
    (env : Env)
    (tape : List LoggedTx) : Prop where
  tx : ∀ t ∈ tape, t.Ok env.orderBook
  start : ∀ t ∈ tape, env.startBlock ≤ t.block
  hashes :
    tape.Pairwise (fun a b => same a.hash b.hash = false)
  order : tape.Pairwise LoggedTx.Before
  transfer_ids :
    (((tapeBlocks tape).flatMap LogBlock.transfers).map
      (fun row => row.id)).Nodup
  mint_ids :
    (((tapeBlocks tape).flatMap LogBlock.mints).map
      (fun row => row.id)).Nodup
  fill_ids :
    (((tapeBlocks tape).flatMap LogBlock.fills).map
      (fun row => row.id)).Nodup

theorem tapeBlocks_sublist
    {txs tape : List LoggedTx}
    (h : txs.Sublist tape) :
    (tapeBlocks txs).Sublist (tapeBlocks tape) :=
  h.flatMap _

/- A tape's transactions, with some of them left out. -/
theorem TapeOk.sublist
    {env : Env}
    {txs tape : List LoggedTx}
    (h : TapeOk env tape)
    (hSub : txs.Sublist tape) :
    TapeOk env txs where
  tx := fun t ht => h.tx t (hSub.subset ht)
  start := fun t ht => h.start t (hSub.subset ht)
  hashes := h.hashes.sublist hSub
  order := h.order.sublist hSub
  transfer_ids :=
    h.transfer_ids.sublist
      (((tapeBlocks_sublist hSub).flatMap _).map _)
  mint_ids :=
    h.mint_ids.sublist
      (((tapeBlocks_sublist hSub).flatMap _).map _)
  fill_ids :=
    h.fill_ids.sublist
      (((tapeBlocks_sublist hSub).flatMap _).map _)

/- The rows of some of the tape's transactions, in any order. -/
structure RangeRows.Of
    (rows : RangeRows)
    (txs : List LoggedTx) : Prop where
  transfers :
    rows.transfers.Perm
      ((tapeBlocks txs).flatMap LogBlock.transfers)
  fills :
    rows.fills.Perm ((tapeBlocks txs).flatMap LogBlock.fills)
  takes :
    (rows.takes.map TakeRow.call).Perm
      ((txs.flatMap LoggedTx.calls).map Closing.taken)
  mints :
    rows.mints.Perm ((tapeBlocks txs).flatMap LogBlock.mints)
  closes :
    rows.closes.Perm ((tapeBlocks txs).flatMap LogBlock.closes)
  redemptions :
    rows.redemptions.Perm
      ((tapeBlocks txs).flatMap LogBlock.redemptions)

end

----
-- The Deliveries of a Range
----

section

open Reconcile

variable {env : Env} {rows : RangeRows} {txs : List LoggedTx}

def LogBlock.owned : LogBlock → List TransferRow
  | .move _ => []
  | b => b.transfers

def LogBlock.free : LogBlock → List TransferRow
  | .move row => [row]
  | _ => []

def LogBlock.fillMints : LogBlock → List MintRow
  | .fill _ minted _ => minted.toList
  | _ => []

def LogBlock.ownMints : LogBlock → List MintRow
  | .mint _ minted => [minted]
  | _ => []

/- Which logs of a block the deliveries have taken. -/
structure LogBlock.Matched
    (b : LogBlock)
    (deliveries : Deliveries) : Prop where
  owned :
    ∀ row ∈ b.owned, row.id ∈ deliveries.matchedTransfers
  free : ∀ row ∈ b.free, row.id ∉ deliveries.matchedTransfers
  fillMints :
    ∀ row ∈ b.fillMints, row.id ∈ deliveries.matchedMints
  ownMints :
    ∀ row ∈ b.ownMints, row.id ∉ deliveries.matchedMints

theorem transfers_split
    (blocks : List LogBlock) :
    (blocks.flatMap LogBlock.owned ++
        blocks.flatMap LogBlock.free).Perm
      (blocks.flatMap LogBlock.transfers) := by
  have hSplit :
      LogBlock.transfers = fun b => b.owned ++ b.free := by
    funext b
    cases b <;> rfl
  rw [hSplit]
  exact List.flatMap_append_perm blocks _ _

theorem mints_split
    (blocks : List LogBlock) :
    (blocks.flatMap LogBlock.fillMints ++
        blocks.flatMap LogBlock.ownMints).Perm
      (blocks.flatMap LogBlock.mints) := by
  have hSplit :
      LogBlock.mints = fun b => b.fillMints ++ b.ownMints := by
    funext b
    cases b <;>
      simp [LogBlock.mints, LogBlock.fillMints,
        LogBlock.ownMints]
  rw [hSplit]
  exact List.flatMap_append_perm blocks _ _

theorem exits_split
    (blocks : List LogBlock) :
    ((blocks.flatMap LogBlock.closes).map CloseRow.exit ++
        (blocks.flatMap LogBlock.redemptions).map
          RedemptionRow.exit).Perm
      ((blocks.map LogBlock.indexed).flatMap
          Block.exitBlocks |>.map ExitBlock.exit) := by
  have hSplit :
      (fun b : LogBlock =>
          b.indexed.exitBlocks.map ExitBlock.exit) =
        fun b =>
          b.closes.map CloseRow.exit ++
            b.redemptions.map RedemptionRow.exit := by
    funext b
    cases b with
    | exit burn ending => cases ending <;> rfl
    | fill _ _ _ | mint _ _ | move _ => rfl
  rw [List.flatMap_map, List.map_flatMap, List.map_flatMap,
    List.map_flatMap, hSplit]
  exact List.flatMap_append_perm blocks _ _

theorem allBlocks_indexed
    (txs : List LoggedTx) :
    allBlocks (txs.map LoggedTx.indexed) =
      (tapeBlocks txs).map LogBlock.indexed := by
  unfold allBlocks tapeBlocks
  rw [List.flatMap_map, List.map_flatMap]
  rfl

theorem flatMap_indexed
    {α β : Type}
    {of : LogBlock → List α}
    {of' : Block → List β}
    {f : α → β}
    (h : ∀ b : LogBlock, of' b.indexed = (of b).map f)
    (blocks : List LogBlock) :
    (blocks.map LogBlock.indexed).flatMap of' =
      (blocks.flatMap of).map f := by
  rw [List.flatMap_map, List.map_flatMap]
  exact congrArg (blocks.flatMap) (funext h)

theorem LogBlock.indexed_transfers
    (b : LogBlock) :
    b.indexed.transfers = b.transfers.map TransferRow.indexed := by
  cases b <;> rfl

theorem LogBlock.indexed_owned
    (b : LogBlock) :
    b.indexed.owned = b.owned.map TransferRow.indexed := by
  cases b <;> rfl

theorem LogBlock.indexed_mints
    (b : LogBlock) :
    b.indexed.mints = b.mints.map MintRow.indexed := by
  cases b with
  | fill _ minted _ => cases minted <;> rfl
  | mint _ _ | exit _ _ | move _ => rfl

theorem LogBlock.indexed_fillMints
    (b : LogBlock) :
    b.indexed.fillMints = b.fillMints.map MintRow.indexed := by
  cases b with
  | fill _ minted _ => cases minted <;> rfl
  | mint _ _ | exit _ _ | move _ => rfl

theorem LogBlock.indexed_fills
    (b : LogBlock) :
    b.indexed.fillBlocks.map FillBlock.fill =
      b.fills.map FillRow.indexed := by
  cases b <;> rfl

section

variable (h : TapeOk env txs)
include h

/- A tape's redemptions are those of longs. -/
theorem longRedemptions_of
    (hRows : rows.Of txs) :
    longRedemptions rows.redemptions = rows.redemptions := by
  unfold longRedemptions
  rw [List.filter_eq_self]
  intro row hRow
  rw [hRows.redemptions.mem_iff, List.mem_flatMap] at hRow
  rcases hRow with ⟨b, hb, hIn⟩
  rcases List.mem_flatMap.mp hb with ⟨t, ht, hOf⟩
  have hSound := (h.tx t ht).sound b hOf
  cases b with
  | exit burn ending =>
      cases ending with
      | close _ => cases hIn
      | redeem own =>
          rw [LogBlock.redemptions, List.mem_singleton] at hIn
          rw [hIn]
          exact decide_eq_true hSound.2.2.2
  | fill _ _ _ | mint _ _ | move _ => cases hIn

theorem eq_of_hash
    {t t' : LoggedTx}
    (ht : t ∈ txs)
    (ht' : t' ∈ txs)
    (hSame : same t.hash t'.hash = true) :
    t = t' := by
  by_contra hNe
  have : Std.Symm
      (fun a b : LoggedTx => same a.hash b.hash = false) := by
    constructor
    intro a b hab
    rw [Bool.eq_false_iff] at hab ⊢
    exact mt same_symm hab
  have hOther := h.hashes.forall ht ht' hNe
  rw [hSame] at hOther
  cases hOther

theorem logs_of
    (hRows : rows.Of txs) :
    Logs (txs.map LoggedTx.indexed) env.orderBook
      (rows.transfers.map TransferRow.indexed)
      (rows.fills.map FillRow.indexed)
      (rows.mints.map MintRow.indexed)
      (rows.closes.map CloseRow.exit ++
        (longRedemptions rows.redemptions).map
          RedemptionRow.exit) where
  transaction := by
    intro t ht
    rcases List.mem_map.mp ht with ⟨own, hOwn, rfl⟩
    exact (h.tx own hOwn).matched
  hash_inj := by
    intro t ht t' ht' hSame
    rcases List.mem_map.mp ht with ⟨own, hOwn, rfl⟩
    rcases List.mem_map.mp ht' with ⟨other, hOther, rfl⟩
    rw [eq_of_hash h hOwn hOther hSame]
  transfers_perm := by
    rw [allBlocks_indexed,
      flatMap_indexed LogBlock.indexed_transfers]
    exact hRows.transfers.map _
  fills_perm := by
    rw [allBlocks_indexed, List.map_flatMap,
      flatMap_indexed LogBlock.indexed_fills]
    exact hRows.fills.map _
  mints_perm := by
    rw [allBlocks_indexed,
      flatMap_indexed LogBlock.indexed_mints]
    exact hRows.mints.map _
  exits_perm := by
    rw [allBlocks_indexed, longRedemptions_of h hRows]
    exact
      ((hRows.closes.map _).append
        (hRows.redemptions.map _)).trans
        (exits_split (tapeBlocks txs))
  transfer_ids := by
    rw [List.map_map]
    exact ((hRows.transfers.map _).nodup_iff).mpr h.transfer_ids
  mint_ids := by
    rw [List.map_map]
    exact ((hRows.mints.map _).nodup_iff).mpr h.mint_ids

/- The deliveries are those of the range's own blocks. -/
theorem deliveries_of
    (hRows : rows.Of txs) :
    Succeeds (rows.deliveries env.orderBook)
      (fun deliveries =>
        ∀ b ∈ tapeBlocks txs, b.Matched deliveries) := by
  rcases receipts_matched (logs_of h hRows) with
    ⟨deliveries, hRun, hTransfers, hMints⟩
  refine ⟨deliveries, hRun, ?_⟩
  rw [allBlocks_indexed, flatMap_indexed LogBlock.indexed_owned,
    List.map_map] at hTransfers
  rw [allBlocks_indexed,
    flatMap_indexed LogBlock.indexed_fillMints,
    List.map_map] at hMints
  have hTransferIds :=
    (((transfers_split (tapeBlocks txs)).map
      (fun row => row.id)).nodup_iff).mpr h.transfer_ids
  have hMintIds :=
    (((mints_split (tapeBlocks txs)).map
      (fun row => row.id)).nodup_iff).mpr h.mint_ids
  rw [List.map_append, List.nodup_append] at hTransferIds
  rw [List.map_append, List.nodup_append] at hMintIds
  intro b hb
  constructor
  · intro row hRow
    rw [hTransfers.mem_iff]
    exact
      List.mem_map_of_mem (f := fun row : TransferRow => row.id)
        (List.mem_flatMap.mpr ⟨b, hb, hRow⟩)
  · intro row hRow hMatched
    rw [hTransfers.mem_iff] at hMatched
    apply hTransferIds.2.2 row.id hMatched row.id _ rfl
    exact
      List.mem_map_of_mem (f := fun row : TransferRow => row.id)
        (List.mem_flatMap.mpr ⟨b, hb, hRow⟩)
  · intro row hRow
    rw [hMints.mem_iff]
    exact
      List.mem_map_of_mem (f := fun row : MintRow => row.id)
        (List.mem_flatMap.mpr ⟨b, hb, hRow⟩)
  · intro row hRow hMatched
    rw [hMints.mem_iff] at hMatched
    apply hMintIds.2.2 row.id hMatched row.id _ rfl
    exact
      List.mem_map_of_mem (f := fun row : MintRow => row.id)
        (List.mem_flatMap.mpr ⟨b, hb, hRow⟩)

end

end

----
-- The Fees of a Range
----

section

open Reconcile

variable {env : Env} {rows : RangeRows} {txs : List LoggedTx}

/- Every fill bears its share of the fee of its own call. -/
def LoggedTx.Bears
    (t : LoggedTx) : Prop :=
  ∀ c ∈ t.calls, ∀ share ∈ c.run.zip (feeShares c),
    ∀ fill ∈ t.fills, fill.feeFill = share.1 →
      fill.Bears share.2

theorem Closed_perm
    {closings closings' : List Closing}
    {fills : List FeeFill}
    (h : Closed closings fills)
    (hPerm : closings'.Perm closings) :
    Closed closings' fills where
  whole := fun c hc => h.whole c (hPerm.mem_iff.mp hc)
  fills_perm :=
    h.fills_perm.trans (hPerm.symm.flatMap_right _)
  ids_nodup := h.ids_nodup
  logIndex_inj := h.logIndex_inj
  latest := fun c hc d hd =>
    h.latest c (hPerm.mem_iff.mp hc) d (hPerm.mem_iff.mp hd)

theorem mem_tapeFills
    {fill : FillRow} :
    fill ∈ (tapeBlocks txs).flatMap LogBlock.fills ↔
      ∃ t ∈ txs, fill ∈ t.fills := by
  unfold tapeBlocks LoggedTx.fills
  rw [List.flatMap_assoc, List.mem_flatMap]

variable {t : LoggedTx}

theorem fill_tx_of
    {book : String}
    (h : t.Ok book)
    {fill : FillRow}
    (hFill : fill ∈ t.fills) :
    same fill.tx t.hash = true := by
  rcases List.mem_flatMap.mp hFill with ⟨b, hb, hIn⟩
  have hOk := h.matched.block b.indexed (List.mem_map_of_mem hb)
  cases b with
  | fill delivery minted row =>
      rw [LogBlock.fills, List.mem_singleton] at hIn
      rw [hIn]
      exact FillBlock.Ok.fill_tx hOk
  | mint _ _ | exit _ _ | move _ => cases hIn

/- What a call closes is in its own transaction. -/
theorem mem_run_of
    {book : String}
    (h : t.Ok book)
    {c : Closing}
    (hc : c ∈ t.calls)
    {fill : FeeFill}
    (hFill : fill ∈ c.run) :
    ∃ row ∈ t.fills, row.feeFill = fill := by
  have hIn : fill ∈ t.calls.flatMap Closing.run :=
    List.mem_flatMap.mpr ⟨c, hc, hFill⟩
  rw [← h.closed.fills_perm.mem_iff] at hIn
  exact List.mem_map.mp hIn

theorem run_tx_of
    {book : String}
    (h : t.Ok book)
    {c : Closing}
    (hc : c ∈ t.calls)
    {fill : FeeFill}
    (hFill : fill ∈ c.run) :
    same fill.tx t.hash = true := by
  rcases mem_run_of h hc hFill with ⟨row, hRow, rfl⟩
  exact fill_tx_of h hRow

section

variable (h : TapeOk env txs)
include h

theorem closed_of
    (hRows : rows.Of txs) :
    Closed (txs.flatMap LoggedTx.calls)
      (rows.fills.map FillRow.feeFill) where
  whole := by
    intro c hc
    rcases List.mem_flatMap.mp hc with ⟨t, ht, hIn⟩
    exact (h.tx t ht).closed.whole c hIn
  fills_perm := by
    refine (hRows.fills.map _).trans ?_
    unfold tapeBlocks
    rw [List.flatMap_assoc, List.map_flatMap,
      List.flatMap_assoc]
    apply List.Perm.flatMap_left
    intro t ht
    exact (h.tx t ht).closed.fills_perm
  ids_nodup := by
    rw [List.map_map]
    exact ((hRows.fills.map _).nodup_iff).mpr h.fill_ids
  logIndex_inj := by
    intro a ha b hb hTx hLog
    rcases List.mem_map.mp ha with ⟨x, hx, rfl⟩
    rcases List.mem_map.mp hb with ⟨y, hy, rfl⟩
    rw [hRows.fills.mem_iff, mem_tapeFills] at hx hy
    rcases hx with ⟨t, ht, hx⟩
    rcases hy with ⟨t', ht', hy⟩
    have hHash :=
      same_trans (same_symm (fill_tx_of (h.tx t ht) hx))
        (same_trans hTx (fill_tx_of (h.tx t' ht') hy))
    have hSame := eq_of_hash h ht ht' hHash
    subst hSame
    exact
      (h.tx t ht).closed.logIndex_inj _ (List.mem_map_of_mem hx)
        _ (List.mem_map_of_mem hy) hTx hLog
  latest := by
    intro c hc d hd fill hFill hSide hBefore
    rcases List.mem_flatMap.mp hc with ⟨t, ht, hc⟩
    rcases List.mem_flatMap.mp hd with ⟨t', ht', hd⟩
    have hWhole := (h.tx t ht).closed.whole c hc
    rcases List.exists_mem_of_ne_nil _ hWhole.run_ne_nil with
      ⟨own, hOwn⟩
    have hTx := same_tx_of_onSide (hWhole.onSide own hOwn) hSide
    have hHash :=
      same_trans
        (same_symm (run_tx_of (h.tx t ht) hc hOwn))
        (same_trans hTx (run_tx_of (h.tx t' ht') hd hFill))
    have hSame := eq_of_hash h ht ht' hHash
    subst hSame
    exact
      (h.tx t ht).closed.latest c hc d hd fill hFill hSide
        hBefore

/- The fees that the range's fills are booked with. -/
theorem shares_of
    (hRows : rows.Of txs) :
    Succeeds rows.fees
      (fun fees =>
        ∀ t ∈ txs, ∀ c ∈ t.calls,
          ∀ share ∈ c.run.zip (feeShares c),
            fees.getD share.1.id 0 = share.2) := by
  rcases exists_perm_of_perm_map hRows.takes with
    ⟨closings, hPerm, hTakes⟩
  rcases (Closed_perm (closed_of h hRows) hPerm).fees_matched with
    ⟨fees, hRun, hFees⟩
  rw [← hTakes] at hRun
  refine ⟨fees, hRun, ?_⟩
  intro t ht c hc share hShare
  have hListed : c ∈ closings :=
    hPerm.mem_iff.mpr (List.mem_flatMap.mpr ⟨t, ht, hc⟩)
  unfold OrderedMap.getD
  rw [hFees c hListed share hShare]
  rfl

/- Every fill is in a call, with a share of its fee. -/
theorem exists_share_of
    (ht : t ∈ txs)
    {fill : FillRow}
    (hFill : fill ∈ t.fills) :
    ∃ c ∈ t.calls, ∃ share ∈ c.run.zip (feeShares c),
      fill.feeFill = share.1 := by
  have hOf := List.mem_map_of_mem (f := FillRow.feeFill) hFill
  rw [(h.tx t ht).closed.fills_perm.mem_iff,
    List.mem_flatMap] at hOf
  rcases hOf with ⟨c, hc, hRun⟩
  have hFirst : (c.run.zip (feeShares c)).map Prod.fst = c.run :=
    List.map_fst_zip (length_feeShares c).ge
  rw [← hFirst, List.mem_map] at hRun
  rcases hRun with ⟨share, hShare, hSame⟩
  exact ⟨c, hc, share, hShare, hSame.symm⟩

theorem fees_of
    (hRows : rows.Of txs)
    (hBears : ∀ t ∈ txs, t.Bears) :
    Succeeds rows.fees
      (fun fees =>
        ∀ fill ∈ (tapeBlocks txs).flatMap LogBlock.fills,
          fill.Bears (fees.getD fill.id 0)) := by
  apply (shares_of h hRows).mono
  intro fees hShares fill hFill
  rcases mem_tapeFills.mp hFill with ⟨t, ht, hIn⟩
  rcases exists_share_of h ht hIn with
    ⟨c, hc, share, hShare, hSame⟩
  have hGet := hShares t ht c hc share hShare
  rw [← hSame] at hGet
  have hFee : fees.getD fill.id 0 = share.2 := hGet
  rw [hFee]
  exact hBears t ht c hc share hShare fill hIn hSame

end

end

----
-- The Logs of a Range in Order
----

open Reconcile SelfTrade

variable {env : Env} {rows : RangeRows} {txs : List LoggedTx}

/- The rows of the five kinds of logs, as items. -/
def RangeRows.unsorted
    (rows : RangeRows) : List Item :=
  rows.transfers.map Item.transfer ++
    rows.fills.map Item.fill ++ rows.mints.map Item.mint ++
    rows.closes.map Item.close ++
    rows.redemptions.map Item.redeem

theorem LogBlock.items_perm
    (b : LogBlock) :
    (b.transfers.map Item.transfer ++ b.fills.map Item.fill ++
        b.mints.map Item.mint ++ b.closes.map Item.close ++
        b.redemptions.map Item.redeem).Perm b.items := by
  cases b with
  | fill delivery minted row =>
      simp only [LogBlock.transfers, LogBlock.fills,
        LogBlock.mints, LogBlock.closes, LogBlock.redemptions,
        LogBlock.items, List.map_cons, List.map_nil,
        List.append_nil, List.cons_append, List.nil_append]
      exact (List.perm_append_singleton _ _).symm.cons _
  | mint _ _ | move _ =>
      simp [LogBlock.transfers, LogBlock.fills, LogBlock.mints,
        LogBlock.closes, LogBlock.redemptions, LogBlock.items]
  | exit burn ending =>
      cases ending <;>
        simp [LogBlock.transfers, LogBlock.fills,
          LogBlock.mints, LogBlock.closes,
          LogBlock.redemptions, LogBlock.items, ExitRow.item]

theorem unsorted_perm
    (hRows : rows.Of txs) :
    rows.unsorted.Perm
      ((tapeBlocks txs).flatMap LogBlock.items) := by
  have hSplit :
      ((tapeBlocks txs).flatMap
          (fun b =>
            b.transfers.map Item.transfer ++
              b.fills.map Item.fill ++ b.mints.map Item.mint ++
              b.closes.map Item.close ++
              b.redemptions.map Item.redeem)).Perm
        ((tapeBlocks txs).flatMap LogBlock.items) :=
    List.Perm.flatMap_left _ (fun b _ => b.items_perm)
  refine List.Perm.trans ?_ hSplit
  refine List.Perm.trans ?_ (List.flatMap_append_perm _ _ _)
  apply List.Perm.append
  · refine List.Perm.trans ?_ (List.flatMap_append_perm _ _ _)
    apply List.Perm.append
    · refine List.Perm.trans ?_ (List.flatMap_append_perm _ _ _)
      apply List.Perm.append
      · refine
          List.Perm.trans ?_ (List.flatMap_append_perm _ _ _)
        apply List.Perm.append
        · rw [← List.map_flatMap]
          exact hRows.transfers.map _
        · rw [← List.map_flatMap]
          exact hRows.fills.map _
      · rw [← List.map_flatMap]
        exact hRows.mints.map _
    · rw [← List.map_flatMap]
      exact hRows.closes.map _
  · rw [← List.map_flatMap]
    exact hRows.redemptions.map _

theorem LogBlock.items_logs
    (b : LogBlock) :
    b.items.map Item.logIndex = b.indexed.logs := by
  cases b with
  | fill delivery minted row => cases minted <;> rfl
  | mint _ _ => rfl
  | exit burn ending => cases ending <;> rfl
  | move row => rfl

theorem LogBlock.items_ordered
    {book hash : String}
    {b : LogBlock}
    (hOk : b.indexed.Ok book hash) :
    (b.items.map Item.logIndex).Pairwise
      (fun i j => i < j) := by
  rw [LogBlock.items_logs]
  cases b with
  | fill delivery minted row => exact FillBlock.Ok.ordered hOk
  | mint delivery minted =>
      have hLess := MintBlock.Ok.ordered hOk
      simpa [LogBlock.indexed, Block.logs] using hLess
  | exit burn ending =>
      have hLess := ExitBlock.Ok.ordered hOk
      simpa [LogBlock.indexed, Block.logs] using hLess
  | move row => exact List.pairwise_singleton _ _

/- One log is earlier on chain than another. -/
def Item.Before
    (a b : Item) : Prop :=
  a.block < b.block ∨
    a.block = b.block ∧ a.logIndex < b.logIndex

theorem LoggedTx.Ok.items_ordered
    {book : String}
    {t : LoggedTx}
    (h : t.Ok book) :
    t.items.Pairwise (fun a b => a.logIndex < b.logIndex) := by
  unfold LoggedTx.items
  rw [List.pairwise_flatMap]
  constructor
  · intro b hb
    rw [← List.pairwise_map (f := Item.logIndex)]
    exact
      LogBlock.items_ordered
        (h.matched.block b.indexed (List.mem_map_of_mem hb))
  · have hOrdered := h.matched.ordered
    unfold LoggedTx.indexed at hOrdered
    rw [List.pairwise_map] at hOrdered
    apply hOrdered.imp
    intro b later hBefore x hx y hy
    apply hBefore
    · rw [← LogBlock.items_logs]
      exact List.mem_map_of_mem hx
    · rw [← LogBlock.items_logs]
      exact List.mem_map_of_mem hy

theorem tape_items_ordered
    (h : TapeOk env txs) :
    (txs.flatMap LoggedTx.items).Pairwise Item.Before := by
  rw [List.pairwise_flatMap]
  constructor
  · intro t ht
    apply (h.tx t ht).items_ordered.imp_of_mem
    intro a b ha hb hLess
    refine .inr ⟨?_, hLess⟩
    rw [(h.tx t ht).block a ha, (h.tx t ht).block b hb]
  · apply h.order.imp_of_mem
    intro t later ht hLater hBefore a ha b hb
    have hA := (h.tx t ht).block a ha
    have hB := (h.tx later hLater).block b hb
    rcases hBefore with hLess | ⟨hSame, hLogs⟩
    · left
      rw [hA, hB]
      exact hLess
    · exact .inr ⟨by rw [hA, hB, hSame], hLogs a ha b hb⟩

theorem itemBefore_total
    (locale : SelfTrade.Locale)
    (a b : Item) :
    itemBefore locale a b ∨ itemBefore locale b a := by
  have hIds := locale.le_total a.id b.id
  unfold itemBefore Locale.before
  rcases lt_trichotomy a.block b.block with h | h | h
  · exact .inl (.inl h)
  · rcases lt_trichotomy a.logIndex b.logIndex with h' | h' | h'
    · exact .inl (.inr ⟨h, .inl h'⟩)
    · rcases hIds with hIds | hIds
      · exact .inl (.inr ⟨h, .inr ⟨h', hIds⟩⟩)
      · exact .inr (.inr ⟨h.symm, .inr ⟨h'.symm, hIds⟩⟩)
    · exact .inr (.inr ⟨h.symm, .inl h'⟩)
  · exact .inr (.inl h)

theorem itemBefore_trans
    (locale : SelfTrade.Locale)
    (a b c : Item)
    (hab : itemBefore locale a b)
    (hbc : itemBefore locale b c) :
    itemBefore locale a c := by
  have hIds := locale.le_trans a.id b.id c.id
  unfold itemBefore Locale.before at *
  rcases hab with hab | ⟨hBlock, hab⟩
  · rcases hbc with hbc | ⟨hBlock', _⟩
    · exact .inl (lt_trans hab hbc)
    · exact .inl (hBlock' ▸ hab)
  · rcases hbc with hbc | ⟨hBlock', hbc⟩
    · exact .inl (hBlock ▸ hbc)
    · refine .inr ⟨hBlock.trans hBlock', ?_⟩
      rcases hab with hab | ⟨hLog, hab⟩
      · rcases hbc with hbc | ⟨hLog', _⟩
        · exact .inl (lt_trans hab hbc)
        · exact .inl (hLog' ▸ hab)
      · rcases hbc with hbc | ⟨hLog', hbc⟩
        · exact .inl (hLog ▸ hbc)
        · exact .inr ⟨hLog.trans hLog', hIds hab hbc⟩

/- Two logs of a tape stand at different places. -/
theorem itemBefore_ties
    {items : List Item}
    (h : items.Pairwise Item.Before)
    {locale : SelfTrade.Locale}
    {a b : Item}
    (ha : a ∈ items)
    (hb : b ∈ items)
    (hab : itemBefore locale a b)
    (hba : itemBefore locale b a) :
    a = b := by
  by_contra hNe
  have : Std.Symm
      (fun a b : Item => a.Before b ∨ b.Before a) :=
    ⟨fun _ _ => Or.symm⟩
  have hEither : a.Before b ∨ b.Before a := by
    have hPairs :
        items.Pairwise (fun a b => a.Before b ∨ b.Before a) :=
      h.imp Or.inl
    exact hPairs.forall ha hb hNe
  unfold itemBefore at hab hba
  unfold Item.Before at hEither
  omega

/- The clock sorts the rows of its range as the chain did. -/
theorem items_of
    (h : TapeOk env txs)
    (hRows : rows.Of txs)
    (locale : SelfTrade.Locale) :
    rows.items locale =
      (tapeBlocks txs).flatMap LogBlock.items := by
  have hOrdered :
      ((tapeBlocks txs).flatMap LogBlock.items).Pairwise
        Item.Before := by
    have hTape := tape_items_ordered h
    unfold tapeBlocks
    rw [List.flatMap_assoc]
    exact hTape
  have hPerm := unsorted_perm hRows
  have hSort :
      rows.unsorted.insertionSort (itemBefore locale) =
        ((tapeBlocks txs).flatMap
          LogBlock.items).insertionSort (itemBefore locale) := by
    apply
      insertionSort_eq_of_perm _ (itemBefore_total locale)
        (itemBefore_trans locale) hPerm
    intro a ha b hb hab hba
    exact
      itemBefore_ties hOrdered (hPerm.mem_iff.mp ha)
        (hPerm.mem_iff.mp hb) hab hba
  have hSorted :
      ((tapeBlocks txs).flatMap LogBlock.items).Pairwise
        (itemBefore locale) := by
    apply hOrdered.imp
    rintro a b (hLess | ⟨hSame, hLess⟩)
    · exact .inl hLess
    · exact .inr ⟨hSame, .inl hLess⟩
  rw [hSorted.insertionSort_eq] at hSort
  exact hSort

end Callhouse.Indexer.PnlClock
