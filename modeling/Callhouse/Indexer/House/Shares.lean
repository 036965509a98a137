import Callhouse.Indexer.House.Steps

/-
  A transfer of a vault's shares: the supply moves with the
  zero address, the two balances move by the value, and no
  balance and no supply goes below zero.

  Main declarations:
    * `totalShares_set`, `sharesOf_le_total`
    * `Bumped`, `bump_ok`, `applyTransferSupply_ok`
    * `vaultOk_transferred`
-/

----
-- Balances
----

namespace Callhouse.Indexer.House

open Projection (LogMeta logId zeroAddress)
open RowTable LockStep

section

open RowTable

variable {balances : OrderedMap (String × String) ShareBalanceRow}
variable {vault account : String}

theorem sharesOf_set
    (row : ShareBalanceRow)
    (id other : String × String) :
    sharesOf (balances.set id row) other =
      if id = other then row.shares else sharesOf balances other := by
  unfold sharesOf
  rw [OrderedMap.get?_set]
  split <;> rfl

/- One row is written: its vault's total moves with it. -/
theorem totalShares_set
    (h : ShareKeys balances)
    (row : ShareBalanceRow)
    (hRow : row.vault = vault)
    (other : String) :
    totalShares (balances.set (vault, account) row) other =
      totalShares balances other +
        (if vault = other then
          row.shares - sharesOf balances (vault, account)
        else 0) := by
  unfold totalShares sharesOf
  cases hFound : balances.get? (vault, account) with
  | none =>
      rw [sumBy_insert _ _ hFound, hRow]
      simp
  | some found =>
      have hVault : found.vault = vault := h _ found hFound
      rw [sumBy_update _ _ hFound, hRow, hVault]
      split
      · simp
        ring
      · simp

/- No account has more than the vault's rows together. -/
theorem sharesOf_le_total
    (h : ShareKeys balances)
    (hNonneg : ∀ other, 0 ≤ sharesOf balances (vault, other)) :
    sharesOf balances (vault, account) ≤
      totalShares balances vault := by
  have hTerms :
      ∀ id row, balances.get? id = some row →
        0 ≤ (if row.vault = vault then row.shares else 0) := by
    intro id row hRow
    split
    · next hVault =>
        have hKey : id = (vault, id.2) := by
          rw [← hVault, h id row hRow]
        have hShares := hNonneg id.2
        rw [← hKey] at hShares
        unfold sharesOf at hShares
        rw [hRow] at hShares
        exact hShares
    · exact le_refl 0
  have hSum :
      ∀ entry ∈ balances.entries.map (fun entry =>
          if entry.2.vault = vault then entry.2.shares else 0),
        0 ≤ entry := by
    intro share hShare
    rcases List.mem_map.mp hShare with ⟨⟨id, row⟩, hIn, rfl⟩
    exact hTerms id row (balances.mem_entries_iff.mp hIn)
  cases hFound : balances.get? (vault, account) with
  | none =>
      unfold sharesOf
      rw [hFound]
      exact List.sum_nonneg hSum
  | some found =>
      have hIn : ((vault, account), found) ∈ balances.entries :=
        balances.mem_entries_iff.mpr hFound
      have hLe :=
        List.single_le_sum hSum _
          (List.mem_map.mpr ⟨_, hIn, rfl⟩)
      dsimp only at hLe
      rw [if_pos (h _ found hFound)] at hLe
      unfold sharesOf
      rw [hFound]
      exact hLe

end

----
-- One Side of a Transfer
----

section

variable {balances : OrderedMap (String × String) ShareBalanceRow}
variable {balances' : OrderedMap (String × String) ShareBalanceRow}
variable {vault account : String} {delta : Int} {event : LogMeta}

/- What one side of a transfer adds to an account of the vault. -/
def sideOf
    (account : String)
    (delta : Int)
    (other : String) : Int :=
  if account = zeroAddress then 0
  else if account = other then delta
  else 0

structure Bumped
    (balances balances' :
      OrderedMap (String × String) ShareBalanceRow)
    (vault account : String)
    (delta : Int) : Prop where
  keys : ShareKeys balances'
  others :
    ∀ other account', vault ≠ other →
      balances'.get? (other, account') =
        balances.get? (other, account')
  shares :
    ∀ other,
      sharesOf balances' (vault, other) =
        sharesOf balances (vault, other) +
          sideOf account delta other
  total :
    ∀ other,
      totalShares balances' other =
        totalShares balances other +
          (if vault = other then sideOf account delta account else 0)

theorem bump_ok
    (hKeys : ShareKeys balances)
    (hVault : lower vault = vault)
    (hAccount : lower account = account)
    (hEnough :
      account = zeroAddress ∨
        0 ≤ sharesOf balances (vault, account) + delta) :
    ∃ balances',
      bump vault account delta event balances = .ok balances' ∧
        Bumped balances balances' vault account delta := by
  unfold bump
  by_cases hZero : account = zeroAddress
  · rw [if_pos hZero]
    refine ⟨_, rfl, hKeys, fun _ _ _ => rfl, ?_, ?_⟩
    · intro other
      rw [sideOf, if_pos hZero, add_zero]
    · intro other
      rw [sideOf, if_pos hZero, ite_self, add_zero]
  · rw [if_neg hZero]
    have hId : queueId vault account = (vault, account) := by
      rw [queueId, hVault, hAccount]
    have hNext :
        nextShareBalance
            ((balances.get? (vault, account)).map
              (fun row => row.shares)) delta =
          .ok (sharesOf balances (vault, account) + delta) :=
      if_neg (not_lt.mpr (hEnough.resolve_left hZero))
    rw [hId]
    dsimp only
    rw [hNext]
    refine ⟨_, rfl, ?_, ?_, ?_, ?_⟩
    · intro id row hRow
      rw [OrderedMap.get?_set] at hRow
      split at hRow
      · next hSame =>
          cases hRow
          exact congrArg Prod.fst hSame
      · exact hKeys id row hRow
    · intro other account' hOther
      exact balances.get?_set_of_ne _ (other_vault hOther)
    · intro other
      rw [sharesOf_set, sideOf, if_neg hZero]
      by_cases hOther : account = other
      · subst hOther
        rw [if_pos rfl, if_pos rfl]
      · rw [if_neg (fun hSame => hOther (congrArg Prod.snd hSame)),
          if_neg hOther, add_zero]
    · intro other
      rw [@totalShares_set balances vault account hKeys _ rfl,
        sideOf, if_neg hZero, if_pos rfl, add_sub_cancel_left]

/- The supply after a transfer, from what it was. -/
def supplyAfter
    (supply : Int)
    (sender recipient : String)
    (value : Int) : Int :=
  if sender = zeroAddress then supply + value
  else if recipient = zeroAddress then supply - value
  else supply

theorem applyTransferSupply_ok
    {previous : Option Int}
    {sender recipient : String}
    {value : Int}
    (hSender : lower sender = sender)
    (hRecipient : lower recipient = recipient)
    (hEnough :
      sender = zeroAddress ∨ value ≤ previous.getD 0) :
    applyTransferSupply previous sender recipient value =
      .ok (supplyAfter (previous.getD 0) sender recipient value) := by
  unfold applyTransferSupply supplyAfter
  rw [hSender, hRecipient]
  by_cases hMint : sender = zeroAddress
  · rw [if_pos hMint, if_pos hMint]
  · rw [if_neg hMint, if_neg hMint]
    by_cases hBurn : recipient = zeroAddress
    · have hLe := hEnough.resolve_left hMint
      rw [if_pos hBurn, if_pos hBurn, if_neg (by omega)]
    · rw [if_neg hBurn, if_neg hBurn]

end

----
-- Transfers
----

variable {db db' : HouseDb} {vault : String} {s : VaultState}
variable {event : LogMeta} {vaults : Vaults}
variable {sender recipient : String} {value : Int}

/- Both sides of a transfer, as the vault keeps its shares. -/
theorem moveShares_eq
    (shares : String → Int)
    (account : String) :
    moveShares shares sender recipient value account =
      shares account + sideOf sender (-value) account +
        sideOf recipient value account := by
  unfold moveShares sideOf
  grind

theorem moveShares_nonneg
    {shares : String → Int}
    (h : ∀ account, 0 ≤ shares account)
    (hValue : 0 ≤ value)
    (hEnough : sender = zeroAddress ∨ value ≤ shares sender)
    (account : String) :
    0 ≤ moveShares shares sender recipient value account := by
  have hAccount := h account
  unfold moveShares
  grind

/- The supply moves as the sum of the balances does. -/
theorem supplyAfter_eq
    {supply : Int}
    (hSome : sender ≠ zeroAddress ∨ recipient ≠ zeroAddress) :
    supplyAfter supply sender recipient value =
      supply + sideOf sender (-value) sender +
        sideOf recipient value recipient := by
  unfold supplyAfter sideOf
  grind

theorem shareTransfer_eq_ok
    {address : String}
    {value : Int} :
    shareTransfer db address sender recipient value event =
        .ok db' ↔
      ∃ vaults paid received,
        moveSupply db.vaults (lower address) (lower sender)
            (lower recipient) value = .ok vaults ∧
          bump (lower address) (lower sender) (-value) event
              db.shareBalances = .ok paid ∧
          bump (lower address) (lower recipient) value event paid =
            .ok received ∧
          db' =
            { db with vaults := vaults, shareBalances := received } := by
  unfold shareTransfer
  simp only [bind_eq_ok, pure_eq_ok]
  constructor
  · rintro ⟨vaults, hMoved, paid, hPaid, received, hReceived, rfl⟩
    exact ⟨vaults, paid, received, hMoved, hPaid, hReceived, rfl⟩
  · rintro ⟨vaults, paid, received, hMoved, hPaid, hReceived, rfl⟩
    exact ⟨vaults, hMoved, paid, hPaid, received, hReceived, rfl⟩

theorem vaultOk_transferred
    {address : String}
    (h : ∀ other, VaultOk db other (vaults other))
    (hKeys : ShareKeys db.shareBalances)
    (hVault : vaults (lower address) = some s)
    (hListed : s.listed = true)
    (hValue : 0 ≤ value)
    (hEnough :
      lower sender = zeroAddress ∨ value ≤ s.shares (lower sender))
    (hSome :
      lower sender ≠ zeroAddress ∨ lower recipient ≠ zeroAddress) :
    ∃ db',
      shareTransfer db address sender recipient value event =
          .ok db' ∧
        (∀ other,
          VaultOk db' other
            (Function.update vaults (lower address)
              (some
                { s with
                  shares :=
                    moveShares s.shares (lower sender)
                      (lower recipient) value })
              other)) ∧
        ShareKeys db'.shareBalances ∧
        db'.claims = db.claims ∧ db'.navs = db.navs ∧
        db'.queueSettlements = db.queueSettlements ∧
        db'.performanceFees = db.performanceFees := by
  have hOk := h (lower address)
  rw [hVault] at hOk
  rcases listed_mirror hOk hListed with ⟨row, current, hMirror⟩
  have hNonneg :
      ∀ other, 0 ≤ sharesOf db.shareBalances (lower address, other) := by
    intro other
    rw [hMirror.shares]
    exact hMirror.nonneg other
  have hSupply :
      lower sender = zeroAddress ∨
        value ≤ row.sharesSupply.getD 0 := by
    refine hEnough.imp_right (fun hHeld => ?_)
    calc
      value ≤ s.shares (lower sender) := hHeld
      _ = sharesOf db.shareBalances (lower address, lower sender) :=
          (hMirror.shares _).symm
      _ ≤ totalShares db.shareBalances (lower address) :=
          sharesOf_le_total hKeys hNonneg
      _ = row.sharesSupply.getD 0 := hMirror.total.symm
  have hMoved :
      moveSupply db.vaults (lower address) (lower sender)
          (lower recipient) value =
        .ok (db.vaults.set (lower address)
          { row with
            sharesSupply :=
              some
                (supplyAfter (row.sharesSupply.getD 0) (lower sender)
                  (lower recipient) value) }) := by
    unfold moveSupply
    rw [hMirror.stored]
    dsimp only
    rw [applyTransferSupply_ok (lower_lower _) (lower_lower _) hSupply]
    rfl
  have hPayer :
      lower sender = zeroAddress ∨
        0 ≤ sharesOf db.shareBalances (lower address, lower sender) +
          -value := by
    refine hEnough.imp_right (fun hHeld => ?_)
    rw [hMirror.shares]
    omega
  rcases
    @bump_ok _ _ _ _ event hKeys (lower_lower address)
      (lower_lower sender) hPayer with
    ⟨paid, hPaid, hPaidIs⟩
  have hPayee :
      lower recipient = zeroAddress ∨
        0 ≤ sharesOf paid (lower address, lower recipient) +
          value := by
    right
    rw [hPaidIs.shares, hMirror.shares]
    have hHeld := hMirror.nonneg (lower recipient)
    unfold sideOf
    grind
  rcases
    @bump_ok _ _ _ _ event hPaidIs.keys (lower_lower address)
      (lower_lower recipient) hPayee with
    ⟨received, hReceived, hReceivedIs⟩
  refine
    ⟨_, shareTransfer_eq_ok.mpr
      ⟨_, _, _, hMoved, hPaid, hReceived, rfl⟩, ?_,
      hReceivedIs.keys, rfl, rfl, rfl, rfl⟩
  apply vaults_ok_update h
  · intro other hOther
    exact
      { vaults := db.vaults.get?_set_of_ne _ hOther
        opened := rfl
        epochs := fun _ => rfl
        deposits := fun _ => rfl
        withdraws := fun _ => rfl
        shares := fun account =>
          (hReceivedIs.others other account hOther).trans
            (hPaidIs.others other account hOther)
        total := by
          dsimp only
          rw [hReceivedIs.total, hPaidIs.total, if_neg hOther,
            if_neg hOther, add_zero, add_zero] }
  · refine
      vaultOk_of_mirror hListed
        { hMirror with
          stored := db.vaults.get?_set_self _ _
          knows := hMirror.knows
          shares := ?_
          nonneg := moveShares_nonneg hMirror.nonneg hValue hEnough
          total := ?_ }
    · intro account
      dsimp only
      rw [hReceivedIs.shares, hPaidIs.shares, hMirror.shares,
        moveShares_eq]
    · dsimp only
      rw [hReceivedIs.total, hPaidIs.total, if_pos rfl, if_pos rfl,
        ← hMirror.total]
      exact supplyAfter_eq hSome

end Callhouse.Indexer.House
