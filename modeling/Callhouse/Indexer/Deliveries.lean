import Callhouse.Indexer.Reconcile
import Mathlib.Data.List.Perm.Basic

/-
  matchDeliveries on transactions made of blocks of logs: a
  delivery and its fill, a mint transfer and its Minted, a
  burn and its exit, with other transfers between them.

  A block's own transfer is the last one before its receipt,
  so the nearest transfer that fits is the block's own, and
  what other receipts took was theirs.

  Main declarations:
    * `Block`, `Transaction`, `Logs`
    * `preceding_own`
    * `matchDeliveries_exact`
-/

----
-- Blocks of Logs
----

namespace Callhouse.Indexer.Reconcile

/- `minted` is there for a primary fill. -/
structure FillBlock where
  delivery : IndexedTransfer
  minted : Option IndexedMint
  fill : IndexedFill
deriving DecidableEq

structure MintBlock where
  delivery : IndexedTransfer
  minted : IndexedMint
deriving DecidableEq

structure ExitBlock where
  burn : IndexedTransfer
  exit : IndexedExit
deriving DecidableEq

inductive Block where
  | fill (b : FillBlock)
  | mint (b : MintBlock)
  | exit (b : ExitBlock)
  | plain (moves : List IndexedTransfer)
deriving DecidableEq

structure Transaction where
  hash : String
  blocks : List Block

def Block.transfers : Block → List IndexedTransfer
  | .fill b => [b.delivery]
  | .mint b => [b.delivery]
  | .exit b => [b.burn]
  | .plain moves => moves

/- The transfers that are the protocol's own. -/
def Block.owned : Block → List IndexedTransfer
  | .fill b => [b.delivery]
  | .mint b => [b.delivery]
  | .exit b => [b.burn]
  | .plain _ => []

def Block.fillBlocks : Block → List FillBlock
  | .fill b => [b]
  | _ => []

def Block.mintBlocks : Block → List MintBlock
  | .mint b => [b]
  | _ => []

def Block.exitBlocks : Block → List ExitBlock
  | .exit b => [b]
  | _ => []

/- The Minted events of primary fills. -/
def Block.fillMints : Block → List IndexedMint
  | .fill b => b.minted.toList
  | _ => []

def Block.mints : Block → List IndexedMint
  | .fill b => b.minted.toList
  | .mint b => [b.minted]
  | _ => []

/- Where the logs of a block stand in their transaction. -/
def Block.logs : Block → List Int
  | .fill b =>
      b.delivery.logIndex ::
        (b.minted.toList.map (fun m => m.logIndex) ++
          [b.fill.logIndex])
  | .mint b => [b.delivery.logIndex, b.minted.logIndex]
  | .exit b => [b.burn.logIndex, b.exit.logIndex]
  | .plain moves => moves.map (fun move => move.logIndex)

def Block.Before
    (b later : Block) : Prop :=
  ∀ i ∈ b.logs, ∀ j ∈ later.logs, i < j

structure FillBlock.Ok
    (b : FillBlock)
    (book hash : String) : Prop where
  fill_tx : same b.fill.tx hash = true
  delivery_tx : same b.delivery.tx hash = true
  longId_eq : b.delivery.longId = b.fill.longId
  units_eq : b.delivery.units = b.fill.units
  recipient : same b.delivery.recipient b.fill.buyer = true
  sender :
    same b.delivery.sender
      (if b.fill.primary then zero
      else if b.fill.takerIsBuyer then book
      else b.fill.seller) = true
  minted_iff : b.minted.isSome = b.fill.primary
  ordered : (Block.fill b).logs.Pairwise (fun i j => i < j)
  minted : ∀ m ∈ b.minted,
    same m.tx hash = true ∧ m.longId = b.fill.longId ∧
      m.units = b.fill.units ∧
      same m.longTo b.fill.buyer = true

structure MintBlock.Ok
    (b : MintBlock)
    (hash : String) : Prop where
  ordered : b.delivery.logIndex < b.minted.logIndex
  minted_tx : same b.minted.tx hash = true
  delivery_tx : same b.delivery.tx hash = true
  longId_eq : b.delivery.longId = b.minted.longId
  units_eq : b.delivery.units = b.minted.units
  sender : same b.delivery.sender zero = true
  recipient : same b.delivery.recipient b.minted.longTo = true

structure ExitBlock.Ok
    (b : ExitBlock)
    (hash : String) : Prop where
  ordered : b.burn.logIndex < b.exit.logIndex
  exit_tx : same b.exit.tx hash = true
  burn_tx : same b.burn.tx hash = true
  longId_eq : b.burn.longId = b.exit.longId
  units_eq : b.burn.units = b.exit.units
  sender : same b.burn.sender b.exit.holder = true
  recipient : same b.burn.recipient zero = true

def Block.Ok
    (book hash : String) : Block → Prop
  | .fill b => b.Ok book hash
  | .mint b => b.Ok hash
  | .exit b => b.Ok hash
  | .plain moves => ∀ move ∈ moves, same move.tx hash = true

structure Transaction.Ok
    (t : Transaction)
    (book : String) : Prop where
  block : ∀ b ∈ t.blocks, b.Ok book t.hash
  ordered : t.blocks.Pairwise Block.Before

def allBlocks
    (txs : List Transaction) : List Block :=
  txs.flatMap Transaction.blocks

/- The logs of some transactions, in any order. -/
structure Logs
    (txs : List Transaction)
    (book : String)
    (transfers : List IndexedTransfer)
    (fills : List IndexedFill)
    (mints : List IndexedMint)
    (exits : List IndexedExit) : Prop where
  transaction : ∀ t ∈ txs, t.Ok book
  hash_inj :
    ∀ t ∈ txs, ∀ t' ∈ txs,
      same t.hash t'.hash = true → t = t'
  transfers_perm :
    transfers.Perm ((allBlocks txs).flatMap Block.transfers)
  fills_perm :
    fills.Perm
      (((allBlocks txs).flatMap Block.fillBlocks).map
        FillBlock.fill)
  mints_perm :
    mints.Perm ((allBlocks txs).flatMap Block.mints)
  exits_perm :
    exits.Perm
      (((allBlocks txs).flatMap Block.exitBlocks).map
        ExitBlock.exit)
  transfer_ids : (transfers.map (fun t => t.id)).Nodup
  mint_ids : (mints.map (fun m => m.id)).Nodup

----
-- The Nearest Log
----

variable {α : Type}

/- The latest of some logs is the first of them, sorted back. -/
theorem head?_latest
    {logIndex : α → Int}
    {logs : List α}
    {own : α}
    (hIn : own ∈ logs)
    (hLatest :
      ∀ log ∈ logs, log = own ∨ logIndex log < logIndex own) :
    (logs.insertionSort
      (fun a b => logIndex b ≤ logIndex a)).head? =
        some own := by
  have : Std.Total
      (fun a b : α => logIndex b ≤ logIndex a) :=
    ⟨fun a b => le_total (logIndex b) (logIndex a)⟩
  have : IsTrans α (fun a b => logIndex b ≤ logIndex a) :=
    ⟨fun _ _ _ hab hbc => hbc.trans hab⟩
  have hSorted :=
    List.pairwise_insertionSort
      (fun a b => logIndex b ≤ logIndex a) logs
  have hMem := fun log =>
    List.mem_insertionSort
      (fun a b : α => logIndex b ≤ logIndex a)
      (x := log) (l := logs)
  cases hList :
      logs.insertionSort
        (fun a b => logIndex b ≤ logIndex a) with
  | nil =>
      rw [← hMem, hList] at hIn
      cases hIn
  | cons first rest =>
      rw [hList] at hSorted
      have hFirst := (hMem first).mp (by simp [hList])
      rcases hLatest first hFirst with rfl | hLess
      · rfl
      · exfalso
        rw [← hMem, hList] at hIn
        rcases List.mem_cons.mp hIn with rfl | hRest
        · exact lt_irrefl _ hLess
        · have := (List.pairwise_cons.mp hSorted).1 own hRest
          omega

theorem preceding_own
    {transfers : List IndexedTransfer}
    {matchedTransfers : List String}
    {input : Receipt}
    {predicate : IndexedTransfer → Bool}
    {own : IndexedTransfer}
    (hIn : own ∈ transfers)
    (hOpen : own.id ∉ matchedTransfers)
    (hTx : same own.tx input.tx = true)
    (hLongId : own.longId = input.longId)
    (hUnits : own.units = input.units)
    (hBefore : own.logIndex < input.logIndex)
    (hFits : predicate own = true)
    (hLatest :
      ∀ t ∈ transfers, same t.tx input.tx = true →
        t.logIndex < input.logIndex →
          t = own ∨ t.logIndex < own.logIndex) :
    preceding transfers matchedTransfers input predicate =
      some own := by
  unfold preceding
  apply head?_latest
  · rw [List.mem_filter]
    refine ⟨hIn, ?_⟩
    simp [hOpen, hTx, hLongId, hUnits, hBefore, hFits]
  · intro t ht
    rw [List.mem_filter] at ht
    simp only [Bool.and_eq_true, decide_eq_true_eq] at ht
    exact hLatest t ht.1 ht.2.1.1.1.1.2 ht.2.1.2

theorem precedingMint_own
    {mints : List IndexedMint}
    {matchedMints : List String}
    {fill : IndexedFill}
    {own : IndexedMint}
    (hIn : own ∈ mints)
    (hOpen : own.id ∉ matchedMints)
    (hTx : same own.tx fill.tx = true)
    (hLongId : own.longId = fill.longId)
    (hUnits : own.units = fill.units)
    (hLongTo : same own.longTo fill.buyer = true)
    (hBefore : own.logIndex < fill.logIndex)
    (hLatest :
      ∀ m ∈ mints, same m.tx fill.tx = true →
        m.logIndex < fill.logIndex →
          m = own ∨ m.logIndex < own.logIndex) :
    precedingMint mints matchedMints fill = some own := by
  unfold precedingMint
  apply head?_latest
  · rw [List.mem_filter]
    refine ⟨hIn, ?_⟩
    simp [hOpen, hTx, hLongId, hUnits, hBefore, hLongTo]
  · intro m hm
    rw [List.mem_filter] at hm
    simp only [Bool.and_eq_true, decide_eq_true_eq] at hm
    exact hLatest m hm.1 hm.2.1.1.1.1.2 hm.2.2

theorem Block.logIndex_mem_of_transfer
    (b : Block) :
    ∀ t ∈ b.transfers, t.logIndex ∈ b.logs := by
  cases b with
  | plain moves => exact fun t ht => List.mem_map_of_mem ht
  | fill b | mint b | exit b =>
      simp [Block.transfers, Block.logs]

theorem Block.logIndex_mem_of_mint
    (b : Block) :
    ∀ m ∈ b.mints, m.logIndex ∈ b.logs := by
  cases b with
  | fill b =>
      intro m hm
      apply List.mem_cons_of_mem
      apply List.mem_append_left
      exact List.mem_map_of_mem hm
  | mint b | exit b | plain moves =>
      simp [Block.mints, Block.logs]

variable {b : Block}

theorem Block.Ok.transfer_tx
    {book hash : String}
    (h : b.Ok book hash) :
    ∀ t ∈ b.transfers, same t.tx hash = true := by
  cases b with
  | fill b => simpa [Block.transfers] using h.delivery_tx
  | mint b => simpa [Block.transfers] using h.delivery_tx
  | exit b => simpa [Block.transfers] using h.burn_tx
  | plain moves => exact h

theorem Block.Ok.mint_tx
    {book hash : String}
    (h : b.Ok book hash) :
    ∀ m ∈ b.mints, same m.tx hash = true := by
  cases b with
  | fill b =>
      intro m hm
      exact (h.minted m (Option.mem_toList.mp hm)).1
  | mint b => simpa [Block.mints] using h.minted_tx
  | exit b => simp [Block.mints]
  | plain moves => simp [Block.mints]

variable {blocks : List Block}

/-
  Of the logs before a receipt, those of its own block are
  the last.
-/
theorem latest_of_ordered
    {rows : Block → List α}
    {logIndex : α → Int}
    (hRows : ∀ b, ∀ x ∈ rows b, logIndex x ∈ b.logs)
    (hOrdered : blocks.Pairwise Block.Before)
    {other : Block}
    (hb : b ∈ blocks)
    (hOther : other ∈ blocks)
    {own x : α}
    (hOwn : rows b = [own])
    (hx : x ∈ rows other)
    {receipt : Int}
    (hReceipt : receipt ∈ b.logs)
    (hBefore : logIndex x < receipt) :
    x = own ∨ logIndex x < logIndex own := by
  have : Std.Symm
      (fun b b' : Block =>
        b = b' ∨ b.Before b' ∨ b'.Before b) := by
    constructor
    rintro b b' (rfl | h | h)
    · exact Or.inl rfl
    · exact Or.inr (Or.inr h)
    · exact Or.inr (Or.inl h)
  have hEither :
      blocks.Pairwise
        (fun b b' => b = b' ∨ b.Before b' ∨ b'.Before b) :=
    hOrdered.imp (fun h => Or.inr (Or.inl h))
  have hRelated :
      b = other ∨ b.Before other ∨ other.Before b := by
    refine hEither.forall_of_forall ?_ hb hOther
    intro b _
    exact Or.inl rfl
  have hOwnLog : logIndex own ∈ b.logs :=
    hRows b own (by simp [hOwn])
  have hLog := hRows other x hx
  rcases hRelated with rfl | hFirst | hLast
  · rw [hOwn, List.mem_singleton] at hx
    exact Or.inl hx
  · have := hFirst _ hReceipt _ hLog
    omega
  · exact Or.inr (hLast _ hLog _ hOwnLog)

----
-- Own Logs
----

section

variable {txs : List Transaction} {book : String}
variable {transfers : List IndexedTransfer}
variable {fills : List IndexedFill} {mints : List IndexedMint}
variable {exits : List IndexedExit}

theorem mem_allBlocks
    {b : Block} :
    b ∈ allBlocks txs ↔ ∃ t ∈ txs, b ∈ t.blocks :=
  List.mem_flatMap

variable {hash : String}

section

variable (h : Logs txs book transfers fills mints exits)
include h

theorem Logs.latest
    {α : Type}
    {rows : Block → List α}
    {logIndex : α → Int}
    {tx : α → String}
    (hRows : ∀ b, ∀ x ∈ rows b, logIndex x ∈ b.logs)
    (hTx :
      ∀ hash b, Block.Ok book hash b →
        ∀ x ∈ rows b, same (tx x) hash = true)
    {t : Transaction}
    (ht : t ∈ txs)
    (hb : b ∈ t.blocks)
    {own : α}
    (hOwn : rows b = [own])
    {receipt : Int}
    (hReceipt : receipt ∈ b.logs)
    (hHash : same hash t.hash = true) :
    ∀ x ∈ (allBlocks txs).flatMap rows,
      same (tx x) hash = true → logIndex x < receipt →
        x = own ∨ logIndex x < logIndex own := by
  intro x hx hSame hBefore
  rcases List.mem_flatMap.mp hx with ⟨other, hOther, hx⟩
  rcases mem_allBlocks.mp hOther with ⟨t', ht', hOther⟩
  have hTransaction : t' = t := by
    apply h.hash_inj t' ht' t ht
    have hIn :=
      hTx t'.hash other
        ((h.transaction t' ht').block other hOther) x hx
    exact same_trans (same_symm hIn) (same_trans hSame hHash)
  rw [hTransaction] at hOther
  exact
    latest_of_ordered hRows (h.transaction t ht).ordered hb
      hOther hOwn hx hReceipt hBefore

theorem Logs.mem_transfers
    (hb : b ∈ allBlocks txs)
    {own : IndexedTransfer}
    (hOwn : own ∈ b.transfers) :
    own ∈ transfers :=
  h.transfers_perm.mem_iff.mpr
    (List.mem_flatMap.mpr ⟨b, hb, hOwn⟩)

/- A receipt finds the transfer of its own block. -/
theorem Logs.preceding_own
    (hb : b ∈ allBlocks txs)
    {own : IndexedTransfer}
    (hOwn : b.transfers = [own])
    {matchedTransfers : List String}
    (hOpen : own.id ∉ matchedTransfers)
    {input : Receipt}
    {predicate : IndexedTransfer → Bool}
    (hReceipt : input.logIndex ∈ b.logs)
    (hTx :
      ∀ hash, b.Ok book hash → same input.tx hash = true)
    (hLongId : own.longId = input.longId)
    (hUnits : own.units = input.units)
    (hBefore : own.logIndex < input.logIndex)
    (hFits : predicate own = true) :
    preceding transfers matchedTransfers input predicate =
      some own := by
  rcases mem_allBlocks.mp hb with ⟨t, ht, hIn⟩
  have hOk := (h.transaction t ht).block b hIn
  have hMem : own ∈ b.transfers := by simp [hOwn]
  have hInput := hTx t.hash hOk
  apply
    Reconcile.preceding_own (h.mem_transfers hb hMem) hOpen
      (same_trans (hOk.transfer_tx own hMem)
        (same_symm hInput))
      hLongId hUnits hBefore hFits
  intro x hx
  exact
    h.latest Block.logIndex_mem_of_transfer
      (fun _ _ hOk => hOk.transfer_tx) ht hIn hOwn hReceipt
      hInput x (h.transfers_perm.mem_iff.mp hx)

end

variable {b : FillBlock}

theorem FillBlock.Ok.before
    (h : b.Ok book hash) :
    b.delivery.logIndex < b.fill.logIndex ∧
      ∀ m ∈ b.minted, m.logIndex < b.fill.logIndex := by
  have hOrdered := h.ordered
  simp only [Block.logs] at hOrdered
  rw [List.pairwise_cons, List.pairwise_append] at hOrdered
  constructor
  · exact hOrdered.1 _ (by simp)
  · intro m hm
    apply hOrdered.2.2.2 _ _ _ (List.mem_singleton_self _)
    exact List.mem_map_of_mem (Option.mem_toList.mpr hm)

theorem FillBlock.Ok.delivers
    (h : b.Ok book hash) :
    deliversFill book b.fill b.delivery = true := by
  have hSender := h.sender
  unfold deliversFill
  rw [Bool.and_eq_true]
  refine ⟨h.recipient, ?_⟩
  by_cases hPrimary : b.fill.primary = true
  · rw [if_pos hPrimary] at hSender ⊢
    exact hSender
  · rw [if_neg hPrimary] at hSender ⊢
    by_cases hBuyer : b.fill.takerIsBuyer = true
    · rw [if_pos hBuyer] at hSender ⊢
      exact hSender
    · rw [if_neg hBuyer] at hSender ⊢
      exact hSender

section

variable (h : Logs txs book transfers fills mints exits)
include h

/- One fill takes its own delivery, and its own Minted. -/
theorem Logs.matchFill_own
    (hb : Block.fill b ∈ allBlocks txs)
    {state : Deliveries}
    (hOpen : b.delivery.id ∉ state.matchedTransfers)
    (hMinted : ∀ m ∈ b.minted, m.id ∉ state.matchedMints) :
    matchFill transfers mints book state b.fill =
      .ok
        { matchedTransfers :=
            state.matchedTransfers ++ [b.delivery.id]
          matchedMints :=
            state.matchedMints ++
              b.minted.toList.map (fun m => m.id) } := by
  rcases mem_allBlocks.mp hb with ⟨t, ht, hIn⟩
  have hOk : b.Ok book t.hash := (h.transaction t ht).block _ hIn
  have hDelivery :
      preceding transfers state.matchedTransfers
          (fillReceipt b.fill) (deliversFill book b.fill) =
        some b.delivery :=
    h.preceding_own hb rfl hOpen
      (by simp [fillReceipt, Block.logs])
      (fun _ hOk => FillBlock.Ok.fill_tx hOk) hOk.longId_eq
      hOk.units_eq hOk.before.1 hOk.delivers
  unfold matchFill
  rw [hDelivery]
  simp only
  have hIff := hOk.minted_iff
  cases hMint : b.minted with
  | none =>
      rw [hMint] at hIff
      rw [if_neg (by simp [← hIff])]
      simp
  | some m =>
      have hm : m ∈ b.minted := by simp [hMint]
      have hPrimary : b.fill.primary = true := by
        rw [← hIff, hMint]
        rfl
      rw [if_pos hPrimary]
      rcases hOk.minted m hm with
        ⟨hTx, hLongId, hUnits, hLongTo⟩
      have hRow : m ∈ (Block.fill b).mints := by
        simp [Block.mints, hMint]
      have hOwn :
          precedingMint mints state.matchedMints b.fill =
            some m := by
        apply
          precedingMint_own
            (h.mints_perm.mem_iff.mpr
              (List.mem_flatMap.mpr ⟨_, hb, hRow⟩))
            (hMinted m hm)
            (same_trans hTx (same_symm hOk.fill_tx)) hLongId
            hUnits hLongTo (hOk.before.2 m hm)
        intro x hx
        exact
          h.latest Block.logIndex_mem_of_mint
            (fun _ _ hOk => hOk.mint_tx) ht hIn
            (by simp [Block.mints, hMint])
            (by simp [Block.logs]) hOk.fill_tx x
            (h.mints_perm.mem_iff.mp hx)
      rw [hOwn]
      rfl

/- One direct mint takes its own transfer. -/
theorem Logs.matchMint_own
    {b : MintBlock}
    (hb : Block.mint b ∈ allBlocks txs)
    {state : Deliveries}
    (hOpen : b.delivery.id ∉ state.matchedTransfers)
    (hMinted : b.minted.id ∉ state.matchedMints) :
    matchMint transfers state b.minted =
      .ok
        { state with
          matchedTransfers :=
            state.matchedTransfers ++ [b.delivery.id] } := by
  rcases mem_allBlocks.mp hb with ⟨t, ht, hIn⟩
  have hOk : b.Ok t.hash := (h.transaction t ht).block _ hIn
  have hFits : deliversMint b.minted b.delivery = true := by
    unfold deliversMint
    rw [Bool.and_eq_true]
    exact ⟨hOk.sender, hOk.recipient⟩
  have hDelivery :
      preceding transfers state.matchedTransfers
          (mintReceipt b.minted) (deliversMint b.minted) =
        some b.delivery :=
    h.preceding_own hb rfl hOpen
      (by simp [mintReceipt, Block.logs])
      (fun _ hOk => MintBlock.Ok.minted_tx hOk) hOk.longId_eq
      hOk.units_eq hOk.ordered hFits
  unfold matchMint
  rw [if_neg hMinted, hDelivery]

/- One exit takes its own burn. -/
theorem Logs.matchExit_own
    {b : ExitBlock}
    (hb : Block.exit b ∈ allBlocks txs)
    {state : Deliveries}
    (hOpen : b.burn.id ∉ state.matchedTransfers) :
    matchExit transfers state b.exit =
      .ok
        { state with
          matchedTransfers :=
            state.matchedTransfers ++ [b.burn.id] } := by
  rcases mem_allBlocks.mp hb with ⟨t, ht, hIn⟩
  have hOk : b.Ok t.hash := (h.transaction t ht).block _ hIn
  have hFits : deliversExit b.exit b.burn = true := by
    unfold deliversExit
    rw [Bool.and_eq_true]
    exact ⟨hOk.sender, hOk.recipient⟩
  have hBurn :
      preceding transfers state.matchedTransfers
          (exitReceipt b.exit) (deliversExit b.exit) =
        some b.burn :=
    h.preceding_own hb rfl hOpen
      (by simp [exitReceipt, Block.logs])
      (fun _ hOk => ExitBlock.Ok.exit_tx hOk) hOk.longId_eq
      hOk.units_eq hOk.ordered hFits
  unfold matchExit
  rw [hBurn]

end

end

----
-- The Three Passes
----

variable {txs : List Transaction} {book : String}
variable {transfers : List IndexedTransfer}
variable {fills : List IndexedFill} {mints : List IndexedMint}
variable {exits : List IndexedExit}

/- Logs in another order are those of the blocks in another. -/
theorem exists_perm_of_perm_map
    {β : Type}
    {f : α → β}
    {l : List β}
    {rows : List α}
    (h : l.Perm (rows.map f)) :
    ∃ rows' : List α, rows'.Perm rows ∧ l = rows'.map f := by
  generalize hImage : rows.map f = image at h
  induction h generalizing rows with
  | nil =>
      rw [List.map_eq_nil_iff] at hImage
      exact ⟨[], by rw [hImage], rfl⟩
  | cons x _ ih =>
      rcases List.map_eq_cons_iff.mp hImage with
        ⟨row, rest, rfl, rfl, hRest⟩
      rcases ih hRest with ⟨rows', hPerm, rfl⟩
      exact ⟨row :: rows', hPerm.cons row, rfl⟩
  | swap x y rest =>
      rcases List.map_eq_cons_iff.mp hImage with
        ⟨row, rows', rfl, rfl, hRest⟩
      rcases List.map_eq_cons_iff.mp hRest with
        ⟨next, rows'', rfl, rfl, rfl⟩
      exact ⟨next :: row :: rows'', List.Perm.swap _ _ _, rfl⟩
  | trans _ _ ihFirst ihSecond =>
      rcases ihSecond hImage with ⟨rows', hPerm, hSame⟩
      rcases ihFirst hSame.symm with ⟨rows'', hPerm', hSame'⟩
      exact ⟨rows'', hPerm'.trans hPerm, hSame'⟩

def mintIds
    (blocks : List FillBlock) : List String :=
  blocks.flatMap
    (fun b => b.minted.toList.map (fun m => m.id))

theorem Logs.matchFills_own
    (h : Logs txs book transfers fills mints exits)
    (todo : List FillBlock)
    (hTodo : ∀ b ∈ todo, Block.fill b ∈ allBlocks txs)
    (state : Deliveries)
    (hTransfers :
      (state.matchedTransfers ++
        todo.map (fun b => b.delivery.id)).Nodup)
    (hMints : (state.matchedMints ++ mintIds todo).Nodup) :
    (todo.map FillBlock.fill).foldlM
        (matchFill transfers mints book) state =
      .ok
        { matchedTransfers :=
            state.matchedTransfers ++
              todo.map (fun b => b.delivery.id)
          matchedMints :=
            state.matchedMints ++ mintIds todo } := by
  induction todo generalizing state with
  | nil =>
      unfold mintIds
      rw [List.map_nil, List.map_nil, List.flatMap_nil,
        List.append_nil, List.append_nil]
      rfl
  | cons b rest ih =>
      rw [List.forall_mem_cons] at hTodo
      have hIds :
          mintIds (b :: rest) =
            b.minted.toList.map (fun m => m.id) ++
              mintIds rest :=
        List.flatMap_cons
      rw [List.map_cons] at hTransfers ⊢
      rw [List.append_cons] at hTransfers
      rw [hIds, ← List.append_assoc] at hMints
      have hOpen : b.delivery.id ∉ state.matchedTransfers := by
        intro hOld
        exact
          (List.nodup_append.mp
            (List.nodup_append.mp hTransfers).1).2.2 _ hOld _
              (List.mem_singleton_self _) rfl
      have hMinted :
          ∀ m ∈ b.minted, m.id ∉ state.matchedMints := by
        intro m hm hOld
        exact
          (List.nodup_append.mp
            (List.nodup_append.mp hMints).1).2.2 _ hOld _
              (List.mem_map_of_mem
                (Option.mem_toList.mpr hm)) rfl
      rw [List.foldlM_cons,
        h.matchFill_own hTodo.1 hOpen hMinted]
      have hRest :=
        ih hTodo.2
          { matchedTransfers :=
              state.matchedTransfers ++ [b.delivery.id]
            matchedMints :=
              state.matchedMints ++
                b.minted.toList.map (fun m => m.id) }
          hTransfers hMints
      rw [hIds, List.map_cons,
        List.append_cons state.matchedTransfers _
          (rest.map (fun b => b.delivery.id)),
        ← List.append_assoc state.matchedMints]
      exact hRest

/- A Minted, and its transfer when no fill has it. -/
def Block.mintRows :
    Block → List (IndexedMint × Option IndexedTransfer)
  | .fill b => b.minted.toList.map (fun m => (m, none))
  | .mint b => [(b.minted, some b.delivery)]
  | _ => []

def deliveryIds
    (rows : List (IndexedMint × Option IndexedTransfer)) :
    List String :=
  rows.flatMap
    (fun row => row.2.toList.map (fun t => t.id))

theorem Logs.matchMints_own
    (h : Logs txs book transfers fills mints exits)
    (todo : List (IndexedMint × Option IndexedTransfer))
    (state : Deliveries)
    (hTodo :
      ∀ row ∈ todo,
        (row.2 = none ∧ row.1.id ∈ state.matchedMints) ∨
          ∃ b : MintBlock,
            row = (b.minted, some b.delivery) ∧
              Block.mint b ∈ allBlocks txs ∧
              b.minted.id ∉ state.matchedMints)
    (hTransfers :
      (state.matchedTransfers ++ deliveryIds todo).Nodup) :
    (todo.map Prod.fst).foldlM (matchMint transfers) state =
      .ok
        { state with
          matchedTransfers :=
            state.matchedTransfers ++ deliveryIds todo } := by
  induction todo generalizing state with
  | nil =>
      unfold deliveryIds
      rw [List.flatMap_nil, List.append_nil]
      rfl
  | cons row rest ih =>
      rw [List.forall_mem_cons] at hTodo
      have hIds :
          deliveryIds (row :: rest) =
            row.2.toList.map (fun t => t.id) ++
              deliveryIds rest :=
        List.flatMap_cons
      rw [hIds, ← List.append_assoc] at hTransfers
      rw [List.map_cons, List.foldlM_cons, hIds]
      rcases hTodo.1 with
        ⟨hNone, hMatched⟩ | ⟨b, rfl, hb, hMinted⟩
      · have hSkip :
            matchMint transfers state row.1 = .ok state :=
          if_pos hMatched
        rw [hSkip, hNone]
        rw [hNone] at hTransfers
        exact
          ih state hTodo.2
            (by simpa using hTransfers)
      · have hOpen : b.delivery.id ∉ state.matchedTransfers := by
          intro hOld
          exact
            (List.nodup_append.mp
              (List.nodup_append.mp hTransfers).1).2.2 _ hOld
                _ (List.mem_singleton_self _) rfl
        rw [h.matchMint_own hb hOpen hMinted,
          ← List.append_assoc]
        exact ih _ hTodo.2 hTransfers

theorem Logs.matchExits_own
    (h : Logs txs book transfers fills mints exits)
    (todo : List ExitBlock)
    (hTodo : ∀ b ∈ todo, Block.exit b ∈ allBlocks txs)
    (state : Deliveries)
    (hTransfers :
      (state.matchedTransfers ++
        todo.map (fun b => b.burn.id)).Nodup) :
    (todo.map ExitBlock.exit).foldlM (matchExit transfers)
        state =
      .ok
        { state with
          matchedTransfers :=
            state.matchedTransfers ++
              todo.map (fun b => b.burn.id) } := by
  induction todo generalizing state with
  | nil =>
      rw [List.map_nil, List.map_nil, List.append_nil]
      rfl
  | cons b rest ih =>
      rw [List.forall_mem_cons] at hTodo
      rw [List.map_cons] at hTransfers ⊢
      rw [List.append_cons] at hTransfers
      have hOpen : b.burn.id ∉ state.matchedTransfers := by
        intro hOld
        exact
          (List.nodup_append.mp
            (List.nodup_append.mp hTransfers).1).2.2 _ hOld _
              (List.mem_singleton_self _) rfl
      rw [List.foldlM_cons, h.matchExit_own hTodo.1 hOpen]
      have hRest :=
        ih hTodo.2
          { state with
            matchedTransfers :=
              state.matchedTransfers ++ [b.burn.id] }
          hTransfers
      rw [List.map_cons,
        List.append_cons state.matchedTransfers _
          (rest.map (fun b => b.burn.id))]
      exact hRest

/- The three kinds of owned transfers are all of them. -/
theorem owned_perm
    (blocks : List Block) :
    ((blocks.flatMap Block.fillBlocks).map
          (fun b => b.delivery.id) ++
        deliveryIds (blocks.flatMap Block.mintRows) ++
        (blocks.flatMap Block.exitBlocks).map
          (fun b => b.burn.id)).Perm
      ((blocks.flatMap Block.owned).map (fun t => t.id)) := by
  induction blocks with
  | nil => exact List.Perm.refl _
  | cons b rest ih =>
      have hRows :
          deliveryIds
              ((b :: rest).flatMap Block.mintRows) =
            deliveryIds b.mintRows ++
              deliveryIds (rest.flatMap Block.mintRows) := by
        unfold deliveryIds
        rw [List.flatMap_cons, List.flatMap_append]
      rw [hRows, List.flatMap_cons, List.flatMap_cons,
        List.flatMap_cons, List.map_append, List.map_append,
        List.map_append]
      cases b with
      | fill b =>
          have hNone : deliveryIds (Block.fill b).mintRows = [] := by
            simp [deliveryIds, Block.mintRows]
          rw [hNone]
          exact ih.cons b.delivery.id
      | mint b =>
          rw [List.append_assoc] at ih ⊢
          exact List.perm_middle.trans (ih.cons b.delivery.id)
      | exit b =>
          exact List.perm_middle.trans (ih.cons b.burn.id)
      | plain moves => exact ih

theorem mints_perm
    (blocks : List Block) :
    (blocks.flatMap Block.fillMints ++
        (blocks.flatMap Block.mintBlocks).map
          MintBlock.minted).Perm
      (blocks.flatMap Block.mints) := by
  induction blocks with
  | nil => exact List.Perm.refl _
  | cons b rest ih =>
      rw [List.flatMap_cons, List.flatMap_cons,
        List.flatMap_cons, List.map_append]
      cases b with
      | fill b =>
          rw [List.append_assoc]
          exact ih.append_left _
      | mint b =>
          exact List.perm_middle.trans (ih.cons b.minted)
      | exit b => exact ih
      | plain moves => exact ih

theorem owned_sublist
    (blocks : List Block) :
    (blocks.flatMap Block.owned).Sublist
      (blocks.flatMap Block.transfers) := by
  induction blocks with
  | nil => exact List.Sublist.refl _
  | cons b rest ih =>
      rw [List.flatMap_cons, List.flatMap_cons]
      apply List.Sublist.append _ ih
      cases b with
      | fill b | mint b | exit b => exact List.Sublist.refl _
      | plain moves => exact List.nil_sublist _

theorem map_fst_mintRows
    (blocks : List Block) :
    (blocks.flatMap Block.mintRows).map Prod.fst =
      blocks.flatMap Block.mints := by
  rw [List.map_flatMap]
  congr 1
  funext b
  cases b with
  | fill b =>
      unfold Block.mintRows Block.mints
      rw [List.map_map]
      exact List.map_id _
  | mint b | exit b | plain moves => rfl

theorem mintIds_fillBlocks
    (blocks : List Block) :
    mintIds (blocks.flatMap Block.fillBlocks) =
      (blocks.flatMap Block.fillMints).map
        (fun m => m.id) := by
  unfold mintIds
  rw [List.flatMap_assoc, List.map_flatMap]
  congr 1
  funext b
  cases b with
  | fill b => exact List.flatMap_singleton _ _
  | mint b | exit b | plain moves => rfl

theorem mem_fillBlocks
    {b : FillBlock}
    (h : b ∈ blocks.flatMap Block.fillBlocks) :
    Block.fill b ∈ blocks := by
  rcases List.mem_flatMap.mp h with ⟨block, hBlock, hIn⟩
  cases block with
  | fill own =>
      rw [Block.fillBlocks, List.mem_singleton] at hIn
      rwa [hIn]
  | mint _ | exit _ | plain _ => cases hIn

theorem mem_exitBlocks
    {b : ExitBlock}
    (h : b ∈ blocks.flatMap Block.exitBlocks) :
    Block.exit b ∈ blocks := by
  rcases List.mem_flatMap.mp h with ⟨block, hBlock, hIn⟩
  cases block with
  | exit own =>
      rw [Block.exitBlocks, List.mem_singleton] at hIn
      rwa [hIn]
  | mint _ | fill _ | plain _ => cases hIn

/- A Minted is a primary fill's, or has a transfer of its own. -/
theorem mem_mintRows
    {row : IndexedMint × Option IndexedTransfer}
    (h : row ∈ blocks.flatMap Block.mintRows) :
    (row.2 = none ∧
        row.1 ∈ blocks.flatMap Block.fillMints) ∨
      ∃ b : MintBlock,
        row = (b.minted, some b.delivery) ∧
          Block.mint b ∈ blocks := by
  rcases List.mem_flatMap.mp h with ⟨block, hBlock, hIn⟩
  cases block with
  | fill b =>
      rcases List.mem_map.mp hIn with ⟨m, hm, rfl⟩
      exact
        Or.inl
          ⟨rfl, List.mem_flatMap.mpr ⟨_, hBlock, hm⟩⟩
  | mint b =>
      rw [Block.mintRows, List.mem_singleton] at hIn
      exact Or.inr ⟨b, hIn, hBlock⟩
  | exit _ | plain _ => cases hIn

/- Every receipt of the blocks takes its own transfer. -/
theorem receipts_matched
    (h : Logs txs book transfers fills mints exits) :
    ∃ result,
      matchDeliveries transfers fills mints exits book =
          .ok result ∧
        result.matchedTransfers.Perm
          (((allBlocks txs).flatMap Block.owned).map
            (fun t => t.id)) ∧
        result.matchedMints.Perm
          (((allBlocks txs).flatMap Block.fillMints).map
            (fun m => m.id)) := by
  rcases
      exists_perm_of_perm_map
        ((List.perm_insertionSort
          (fun a b : IndexedFill => a.logIndex ≤ b.logIndex)
          fills).trans h.fills_perm) with
    ⟨fillBlocks, hFillBlocks, hFills⟩
  have hRowsPerm := h.mints_perm
  rw [← map_fst_mintRows] at hRowsPerm
  rcases exists_perm_of_perm_map hRowsPerm with
    ⟨rows, hRows, hMints⟩
  rcases exists_perm_of_perm_map h.exits_perm with
    ⟨exitBlocks, hExitBlocks, hExits⟩
  have hOwned :
      (fillBlocks.map (fun b => b.delivery.id) ++
          deliveryIds rows ++
          exitBlocks.map (fun b => b.burn.id)).Perm
        (((allBlocks txs).flatMap Block.owned).map
          (fun t => t.id)) :=
    (((hFillBlocks.map _).append (hRows.flatMap_right _)).append
      (hExitBlocks.map _)).trans (owned_perm (allBlocks txs))
  have hTransferIds :
      (fillBlocks.map (fun b => b.delivery.id) ++
        deliveryIds rows ++
        exitBlocks.map (fun b => b.burn.id)).Nodup := by
    rw [hOwned.nodup_iff]
    apply
      List.Nodup.sublist ((owned_sublist _).map (fun t => t.id))
    exact (h.transfers_perm.map _).nodup_iff.mp h.transfer_ids
  have hFillMints :
      (mintIds fillBlocks).Perm
        (((allBlocks txs).flatMap Block.fillMints).map
          (fun m => m.id)) := by
    rw [← mintIds_fillBlocks]
    exact hFillBlocks.flatMap_right _
  -- Direct mints have other ids than those of fills.
  have hMintIds :=
    ((mints_perm (allBlocks txs)).map
      (fun m => m.id)).nodup_iff.mpr
        ((h.mints_perm.map _).nodup_iff.mp h.mint_ids)
  rw [List.map_append, List.nodup_append] at hMintIds
  have hFilled :=
    h.matchFills_own fillBlocks
      (fun b hb =>
        mem_fillBlocks (hFillBlocks.mem_iff.mp hb))
      { matchedTransfers := []
        matchedMints := [] }
      (List.nodup_append.mp
        (List.nodup_append.mp hTransferIds).1).1
      (hFillMints.nodup_iff.mpr hMintIds.1)
  have hRow :
      ∀ row ∈ rows,
        (row.2 = none ∧ row.1.id ∈ mintIds fillBlocks) ∨
          ∃ b : MintBlock,
            row = (b.minted, some b.delivery) ∧
              Block.mint b ∈ allBlocks txs ∧
              b.minted.id ∉ mintIds fillBlocks := by
    intro row hIn
    rcases mem_mintRows (hRows.mem_iff.mp hIn) with
      ⟨hNone, hOf⟩ | ⟨b, hSame, hb⟩
    · left
      refine ⟨hNone, ?_⟩
      rw [hFillMints.mem_iff]
      exact List.mem_map_of_mem hOf
    · right
      refine ⟨b, hSame, hb, ?_⟩
      intro hOld
      rw [hFillMints.mem_iff] at hOld
      apply hMintIds.2.2 _ hOld _ _ rfl
      apply
        List.mem_map_of_mem (f := fun m : IndexedMint => m.id)
      apply List.mem_map_of_mem
      exact
        List.mem_flatMap.mpr
          ⟨_, hb, List.mem_singleton_self _⟩
  have hMinted :=
    h.matchMints_own rows
      { matchedTransfers :=
          fillBlocks.map (fun b => b.delivery.id)
        matchedMints := mintIds fillBlocks }
      hRow (List.nodup_append.mp hTransferIds).1
  have hExited :=
    h.matchExits_own exitBlocks
      (fun b hb =>
        mem_exitBlocks (hExitBlocks.mem_iff.mp hb))
      { matchedTransfers :=
          fillBlocks.map (fun b => b.delivery.id) ++
            deliveryIds rows
        matchedMints := mintIds fillBlocks }
      hTransferIds
  refine
    ⟨{ matchedTransfers :=
        fillBlocks.map (fun b => b.delivery.id) ++
          deliveryIds rows ++
          exitBlocks.map (fun b => b.burn.id)
       matchedMints := mintIds fillBlocks },
      ?_, hOwned, hFillMints⟩
  unfold matchDeliveries
  rw [← hMints] at hMinted
  rw [hFills, hExits, hFilled]
  simp only [bind, Except.bind, List.nil_append]
  rw [hMinted]
  exact hExited

/-
  The matched transfers are those of the fill, mint and exit
  blocks, and the matched mints those of primary fills.
-/
theorem matchDeliveries_exact
    (h : Logs txs book transfers fills mints exits) :
    ∃ result,
      matchDeliveries transfers fills mints exits book =
          .ok result ∧
        result.matchedTransfers.Perm
          (((allBlocks txs).flatMap Block.owned).map
            (fun t => t.id)) ∧
        result.matchedMints.Perm
          (((allBlocks txs).flatMap Block.fillMints).map
            (fun m => m.id)) :=
  receipts_matched h

/- Two writes of the same size to one buyer, and a burn. -/
def twinTransfer
    (id sender recipient : String)
    (logIndex : Int) : IndexedTransfer :=
  { id := id
    tx := "0xabc"
    longId := 100
    sender := sender
    recipient := recipient
    units := 2
    logIndex := logIndex }

def twinMint
    (id : String)
    (logIndex : Int) : IndexedMint :=
  { id := id
    tx := "0xabc"
    longId := 100
    longTo := "0x22"
    units := 2
    logIndex := logIndex }

def twinFill
    (id : String)
    (logIndex : Int) : IndexedFill :=
  { id := id
    tx := "0xabc"
    longId := 100
    buyer := "0x22"
    seller := "0x11"
    takerIsBuyer := true
    units := 2
    logIndex := logIndex
    primary := true }

def twinExit : IndexedExit :=
  { id := "closed"
    tx := "0xabc"
    longId := 100
    holder := "0x22"
    units := 2
    logIndex := 11 }

def twinTransaction : Transaction :=
  { hash := "0xabc"
    blocks :=
      [ .fill
          { delivery := twinTransfer "a" zero "0x22" 1
            minted := some (twinMint "ma" 2)
            fill := twinFill "fa" 3 },
        .plain [twinTransfer "gift" "0x22" "0x11" 4],
        .fill
          { delivery := twinTransfer "b" zero "0x22" 5
            minted := some (twinMint "mb" 6)
            fill := twinFill "fb" 7 },
        .mint
          { delivery := twinTransfer "c" zero "0x22" 8
            minted := twinMint "mc" 9 },
        .exit
          { burn := twinTransfer "d" "0x22" zero 10
            exit := twinExit }] }

theorem twinTransaction_logs :
    Logs [twinTransaction] "0x44"
      [twinTransfer "a" zero "0x22" 1,
        twinTransfer "gift" "0x22" "0x11" 4,
        twinTransfer "b" zero "0x22" 5,
        twinTransfer "c" zero "0x22" 8,
        twinTransfer "d" "0x22" zero 10]
      [twinFill "fa" 3, twinFill "fb" 7]
      [twinMint "ma" 2, twinMint "mb" 6, twinMint "mc" 9]
      [twinExit] where
  transaction := by
    intro t ht
    rw [List.mem_singleton] at ht
    subst ht
    constructor
    · unfold twinTransaction
      simp only [List.forall_mem_cons]
      refine ⟨?_, ?_, ?_, ?_, ?_, by simp⟩
      · constructor <;>
          simp [twinFill, twinTransfer, twinMint, same,
            Block.logs]
      · simp [Block.Ok, twinTransfer, same]
      · constructor <;>
          simp [twinFill, twinTransfer, twinMint, same,
            Block.logs]
      · constructor <;> simp [twinTransfer, twinMint, same]
      · constructor <;> simp [twinTransfer, twinExit, same]
    · simp [twinTransaction, Block.Before, Block.logs,
        twinFill, twinTransfer, twinMint, twinExit]
  hash_inj := by simp
  transfers_perm := List.Perm.refl _
  fills_perm := List.Perm.refl _
  mints_perm := List.Perm.refl _
  exits_perm := List.Perm.refl _
  transfer_ids := by simp [twinTransfer]
  mint_ids := by simp [twinMint]

theorem matchDeliveries_exact_twins :
    ∃ result,
      matchDeliveries
          [twinTransfer "a" zero "0x22" 1,
            twinTransfer "gift" "0x22" "0x11" 4,
            twinTransfer "b" zero "0x22" 5,
            twinTransfer "c" zero "0x22" 8,
            twinTransfer "d" "0x22" zero 10]
          [twinFill "fa" 3, twinFill "fb" 7]
          [twinMint "ma" 2, twinMint "mb" 6, twinMint "mc" 9]
          [twinExit] "0x44" = .ok result ∧
        result.matchedTransfers.Perm
          (((allBlocks [twinTransaction]).flatMap
            Block.owned).map (fun t => t.id)) ∧
        result.matchedMints.Perm
          (((allBlocks [twinTransaction]).flatMap
            Block.fillMints).map (fun m => m.id)) :=
  matchDeliveries_exact twinTransaction_logs

end Callhouse.Indexer.Reconcile
