import Callhouse.Indexer.ChainTape

/-
  The PnL clock's lots against the chain: block by block they
  hold what a holder has in its wallet and in the book, and
  no tick fails while every fill bears its fee.

  Main declarations:
    * `chainBlock_nonneg`, `block_holds`
-/

----
-- What a Block Moves
----

namespace Callhouse.Indexer.PnlClock

section

open Balances Reconcile

variable {chain chain' : Chain}

/- A resale takes what its seller owns, wherever it is held. -/
theorem chainFill_owned
    (hChain : chain.Nonneg)
    {row : FillRow}
    (h : chainFill chain row = some chain') :
    chain'.owned = afterFill chain.owned row ∧
      (row.primary = false →
        row.units ≤
          chain.owned (row.longId, address row.seller)) := by
  unfold chainFill at h
  simp only at h
  unfold afterFill
  split at h
  · next hPrimary =>
      cases h
      rw [if_pos hPrimary]
      refine ⟨total_credit_left _ _ _ _, ?_⟩
      intro hResale
      rw [hPrimary] at hResale
      cases hResale
  · next hResale =>
      rw [if_neg hResale]
      split at h
      · rcases Option.bind_eq_some_iff.mp h with
          ⟨escrow, hDebit, hDone⟩
        cases hDone
        rcases debit_eq_some.mp hDebit with ⟨hEnough, rfl⟩
        refine ⟨?_, ?_⟩
        · unfold Chain.owned
          simp only [total_credit_left, total_credit_right]
          exact credit_comm _ _ _ _ _
        · intro _
          exact hEnough.trans (hChain.balance.le_total_right _)
      · rcases Option.bind_eq_some_iff.mp h with
          ⟨balance, hDebit, hDone⟩
        cases hDone
        rcases debit_eq_some.mp hDebit with ⟨hEnough, rfl⟩
        refine ⟨?_, ?_⟩
        · unfold Chain.owned
          simp only [total_credit_left]
        · intro _
          exact hEnough.trans (hChain.escrow.le_total_left _)

/- A move of escrow changes nothing that its maker owns. -/
theorem chainMove_owned
    (env : Env)
    (hChain : chain.Nonneg)
    {row : TransferRow}
    (h : chainMove env.orderBook chain row = some chain') :
    chain'.owned = afterTransfer env chain.owned row ∧
      (address row.sender ≠ address env.orderBook →
        address row.recipient ≠ address env.orderBook →
          row.units ≤
            chain.owned (row.longId, address row.sender)) := by
  unfold chainMove at h
  simp only at h
  unfold afterTransfer
  split at h
  · next hBook =>
      rcases Option.bind_eq_some_iff.mp h with
        ⟨escrow, hDebit, hDone⟩
      cases hDone
      rcases debit_eq_some.mp hDebit with ⟨_, rfl⟩
      rw [if_pos (.inl hBook)]
      refine ⟨?_, fun hOther => absurd hBook hOther⟩
      unfold Chain.owned
      simp only [total_credit_left, total_credit_right]
      rw [credit_comm, credit_neg_credit]
  · next hSender =>
      split at h
      · next hBook =>
          rcases Option.bind_eq_some_iff.mp h with
            ⟨balance, hDebit, hDone⟩
          cases hDone
          rcases debit_eq_some.mp hDebit with ⟨_, rfl⟩
          rw [if_pos (.inr hBook)]
          refine ⟨?_, fun _ hOther => absurd hBook hOther⟩
          unfold Chain.owned
          simp only [total_credit_left, total_credit_right,
            credit_neg_credit]
      · next hRecipient =>
          rcases Option.bind_eq_some_iff.mp h with
            ⟨balance, hDebit, hDone⟩
          cases hDone
          rcases debit_eq_some.mp hDebit with ⟨hEnough, rfl⟩
          rw [if_neg (not_or.mpr ⟨hSender, hRecipient⟩)]
          refine ⟨?_, ?_⟩
          · unfold Chain.owned
            simp only [total_credit_left]
          · intro _ _
            exact hEnough.trans (hChain.escrow.le_total_left _)

theorem chainExit_owned
    (hChain : chain.Nonneg)
    {exit : IndexedExit}
    (h : chainExit chain exit = some chain') :
    chain'.owned =
        credit chain.owned (exit.longId, address exit.holder)
          (-exit.units) ∧
      exit.units ≤
        chain.owned (exit.longId, address exit.holder) := by
  unfold chainExit at h
  rcases Option.bind_eq_some_iff.mp h with
    ⟨balance, hDebit, hDone⟩
  cases hDone
  rcases debit_eq_some.mp hDebit with ⟨hEnough, rfl⟩
  refine ⟨?_, hEnough.trans (hChain.escrow.le_total_left _)⟩
  unfold Chain.owned
  simp only [total_credit_left]

theorem chainMove_nonneg
    {book : String}
    (hChain : chain.Nonneg)
    {row : TransferRow}
    (hUnits : 0 ≤ row.units)
    (h : chainMove book chain row = some chain') :
    chain'.Nonneg := by
  unfold chainMove at h
  simp only at h
  split at h
  · rcases Option.bind_eq_some_iff.mp h with
      ⟨escrow, hDebit, hDone⟩
    cases hDone
    exact
      { balance := hChain.balance.credit _ hUnits
        escrow := hChain.escrow.debit hDebit }
  · split at h
    · rcases Option.bind_eq_some_iff.mp h with
        ⟨balance, hDebit, hDone⟩
      cases hDone
      exact
        { balance := hChain.balance.debit hDebit
          escrow := hChain.escrow.credit _ hUnits }
    · rcases Option.bind_eq_some_iff.mp h with
        ⟨balance, hDebit, hDone⟩
      cases hDone
      exact
        { balance :=
            (hChain.balance.debit hDebit).credit _ hUnits
          escrow := hChain.escrow }

theorem chainFill_nonneg
    (hChain : chain.Nonneg)
    {row : FillRow}
    (hUnits : 0 < row.units)
    (h : chainFill chain row = some chain') :
    chain'.Nonneg := by
  unfold chainFill at h
  simp only at h
  split at h
  · cases h
    exact
      { balance := hChain.balance.credit _ hUnits.le
        escrow := hChain.escrow }
  · split at h
    · rcases Option.bind_eq_some_iff.mp h with
        ⟨escrow, hDebit, hDone⟩
      cases hDone
      exact
        { balance := hChain.balance.credit _ hUnits.le
          escrow := hChain.escrow.debit hDebit }
    · rcases Option.bind_eq_some_iff.mp h with
        ⟨balance, hDebit, hDone⟩
      cases hDone
      exact
        { balance :=
            (hChain.balance.debit hDebit).credit _ hUnits.le
          escrow := hChain.escrow }

theorem chainBlock_nonneg
    {book : String}
    (hChain : chain.Nonneg)
    {b : LogBlock}
    (hSound : b.Sound)
    (h : chainBlock book chain b = some chain') :
    chain'.Nonneg := by
  cases b with
  | fill delivery minted row =>
      exact chainFill_nonneg hChain hSound.1 h
  | mint delivery minted =>
      cases h
      exact
        { balance := hChain.balance.credit _ (le_of_lt hSound)
          escrow := hChain.escrow }
  | exit burn ending =>
      rcases Option.bind_eq_some_iff.mp h with
        ⟨balance, hDebit, hDone⟩
      cases hDone
      exact
        { balance := hChain.balance.debit hDebit
          escrow := hChain.escrow }
  | move row => exact chainMove_nonneg hChain hSound.1 h

end

----
-- What the Clock Books of a Block
----

open Balances Reconcile

variable {env : Env} {inputs : Inputs} {deliveries : Deliveries}
variable {fees : OrderedMap String Int}
variable {ledger : Ledger} {chain chain' : Chain}

/- The series rows that booking a block reads. -/
def LogBlock.Listed
    (inputs : Inputs) : LogBlock → Prop
  | .fill _ _ row =>
      ∃ series,
        inputs.findSeries row.longId = some series ∧
          0 ≤ series.strike
  | .mint _ minted =>
      ∃ series,
        inputs.findSeries minted.longId = some series ∧
          0 ≤ series.strike
  | .exit _ (.close _) => True
  | .exit _ (.redeem row) =>
      ∃ series price,
        settledPrice inputs row.longId = some (series, price) ∧
          0 ≤ price
  | .move _ => True

theorem handleItems_cons
    (item : Item)
    (items : List Item) :
    handleItems env inputs deliveries fees (item :: items)
        ledger =
      (handleItem env inputs deliveries fees ledger item >>=
        fun ledger =>
          handleItems env inputs deliveries fees items
            ledger) :=
  List.foldlM_cons

theorem handleItems_one
    (item : Item) :
    handleItems env inputs deliveries fees [item] ledger =
      handleItem env inputs deliveries fees ledger item := by
  rw [handleItems_cons]
  exact bind_pure _

theorem handleItems_append
    (front back : List Item) :
    handleItems env inputs deliveries fees (front ++ back)
        ledger =
      (handleItems env inputs deliveries fees front ledger >>=
        fun ledger =>
          handleItems env inputs deliveries fees back
            ledger) :=
  List.foldlM_append

/- A transfer of the protocol's own is left to its receipt. -/
theorem handleItem_owned
    {row : TransferRow}
    (hMatched : row.id ∈ deliveries.matchedTransfers) :
    handleItem env inputs deliveries fees ledger
        (.transfer row) = .ok ledger :=
  handleTransfer_matched hMatched

theorem exit_holds
    (h : ledger.Holds chain.owned)
    (hChain : chain.Nonneg)
    {burn : TransferRow}
    {ending : ExitRow}
    (hStep : chainExit chain ending.exit = some chain')
    (hSound : (LogBlock.exit burn ending).Sound)
    (hListed : (LogBlock.exit burn ending).Listed inputs) :
    Succeeds
      (handleItem env inputs deliveries fees ledger
        ending.item)
      (fun ledger' => ledger'.Holds chain'.owned) := by
  rcases chainExit_owned hChain hStep with ⟨hOwned, hEnough⟩
  rw [hOwned]
  cases ending with
  | close row =>
      exact handleClose_holds h hSound.1 hSound.2 hEnough
  | redeem row =>
      rcases hSound with ⟨hUnits, hTime, hAmount, hSide⟩
      rcases hListed with ⟨series, price, hSettled, hPrice⟩
      unfold ExitRow.item handleItem
      simp only
      rw [hSide]
      exact
        redeemLong_holds h hSettled hPrice hAmount hUnits hTime
          hEnough

theorem move_holds
    (h : ledger.Holds chain.owned)
    (hChain : chain.Nonneg)
    {row : TransferRow}
    (hStep : chainMove env.orderBook chain row = some chain')
    (hSound : (LogBlock.move row).Sound)
    (hMatched : (LogBlock.move row).Matched deliveries) :
    Succeeds
      (handleItem env inputs deliveries fees ledger
        (.transfer row))
      (fun ledger' => ledger'.Holds chain'.owned) := by
  rcases hSound with ⟨hUnits, hTime, hSender, hRecipient⟩
  rcases chainMove_owned env hChain hStep with
    ⟨hOwned, hEnough⟩
  rw [hOwned]
  exact
    handleTransfer_holds h
      (hMatched.free row (List.mem_singleton_self row)) hUnits
      hTime hSender hRecipient hEnough

variable {delivery : TransferRow}

section

variable (h : ledger.Holds chain.owned)
include h

/- The Minted of a primary fill adds no lot of its own. -/
theorem minted_holds
    {minted : Option MintRow}
    {row : FillRow}
    {hash : String}
    (hOk :
      (LogBlock.fill delivery minted row).indexed.Ok
        env.orderBook hash)
    (hSound : (LogBlock.fill delivery minted row).Sound)
    (hListed : (LogBlock.fill delivery minted row).Listed inputs)
    (hMatched :
      (LogBlock.fill delivery minted row).Matched deliveries) :
    Succeeds
      (handleItems env inputs deliveries fees
        (minted.toList.map Item.mint) ledger)
      (fun ledger' => ledger'.Holds chain.owned) := by
  cases minted with
  | none => exact Succeeds.ok h
  | some mint =>
      rcases FillBlock.Ok.minted hOk mint.indexed rfl with
        ⟨_, hLongId, hUnits, _⟩
      rcases hListed with ⟨series, hSeries, hStrike⟩
      have hOwn : mint.id ∈ deliveries.matchedMints :=
        hMatched.fillMints mint List.mem_cons_self
      have hMintSeries :
          inputs.findSeries mint.longId = some series := by
        have hSame : mint.longId = row.longId := hLongId
        rw [hSame]
        exact hSeries
      have hMintUnits : 0 < mint.units := by
        have hSame : mint.units = row.units := hUnits
        rw [hSame]
        exact hSound.1
      have hMint :=
        @handleMint_holds env inputs ledger chain.owned series
          h mint hMintSeries hStrike hMintUnits
          deliveries.matchedMints
      rw [if_pos hOwn] at hMint
      change
        Succeeds
          (handleItems env inputs deliveries fees
            [Item.mint mint] ledger) _
      rw [handleItems_one]
      exact hMint

theorem fill_holds
    (hChain : chain.Nonneg)
    {minted : Option MintRow}
    {row : FillRow}
    (hStep : chainFill chain row = some chain')
    (hSound : (LogBlock.fill delivery minted row).Sound)
    (hListed : (LogBlock.fill delivery minted row).Listed inputs)
    (hBears : row.Bears (fees.getD row.id 0)) :
    Succeeds
      (handleItem env inputs deliveries fees ledger (.fill row))
      (fun ledger' => ledger'.Holds chain'.owned) := by
  rcases hListed with ⟨series, hSeries, _⟩
  rcases chainFill_owned hChain hStep with ⟨hOwned, hEnough⟩
  rw [hOwned]
  exact
    handleFill_holds h hSeries hSound.1 hSound.2 hEnough hBears

/- A mint of its own is a lot of its holder. -/
theorem mint_holds
    {minted : MintRow}
    {book : String}
    (hStep :
      chainBlock book chain (.mint delivery minted) =
        some chain')
    (hSound : (LogBlock.mint delivery minted).Sound)
    (hListed : (LogBlock.mint delivery minted).Listed inputs)
    (hMatched :
      (LogBlock.mint delivery minted).Matched deliveries) :
    Succeeds
      (handleItem env inputs deliveries fees ledger
        (.mint minted))
      (fun ledger' => ledger'.Holds chain'.owned) := by
  rcases hListed with ⟨series, hSeries, hStrike⟩
  have hOwn : minted.id ∉ deliveries.matchedMints :=
    hMatched.ownMints minted (List.mem_singleton_self minted)
  have hMint :=
    @handleMint_holds env inputs ledger chain.owned series h
      minted hSeries hStrike hSound deliveries.matchedMints
  rw [if_neg hOwn] at hMint
  cases hStep
  unfold Chain.owned at hMint ⊢
  simp only [total_credit_left]
  exact hMint

/- A block moves the lots as it moves what is owned on chain. -/
theorem block_holds
    (hChain : chain.Nonneg)
    {b : LogBlock}
    (hStep : chainBlock env.orderBook chain b = some chain')
    {hash : String}
    (hOk : b.indexed.Ok env.orderBook hash)
    (hSound : b.Sound)
    (hListed : b.Listed inputs)
    (hMatched : b.Matched deliveries)
    (hBears :
      ∀ fill ∈ b.fills, fill.Bears (fees.getD fill.id 0)) :
    Succeeds
      (handleItems env inputs deliveries fees b.items ledger)
      (fun ledger' => ledger'.Holds chain'.owned) := by
  cases b with
  | fill delivery minted row =>
      unfold LogBlock.items
      rw [handleItems_cons,
        handleItem_owned
          (hMatched.owned delivery List.mem_cons_self)]
      change
        Succeeds
          (handleItems env inputs deliveries fees
            (minted.toList.map Item.mint ++ [.fill row])
            ledger) _
      rw [handleItems_append]
      apply (minted_holds h hOk hSound hListed hMatched).bind
      intro written hWritten
      rw [handleItems_one]
      exact
        fill_holds hWritten hChain hStep hSound hListed
          (hBears row (List.mem_singleton_self row))
  | mint delivery minted =>
      unfold LogBlock.items
      rw [handleItems_cons,
        handleItem_owned
          (hMatched.owned delivery List.mem_cons_self)]
      change
        Succeeds
          (handleItems env inputs deliveries fees
            [.mint minted] ledger) _
      rw [handleItems_one]
      exact mint_holds h hStep hSound hListed hMatched
  | exit burn ending =>
      unfold LogBlock.items
      rw [handleItems_cons,
        handleItem_owned
          (hMatched.owned burn List.mem_cons_self)]
      change
        Succeeds
          (handleItems env inputs deliveries fees
            [ending.item] ledger) _
      rw [handleItems_one]
      exact exit_holds h hChain hStep hSound hListed
  | move row =>
      unfold LogBlock.items
      rw [handleItems_one]
      exact move_holds h hChain hStep hSound hMatched

end

end Callhouse.Indexer.PnlClock
