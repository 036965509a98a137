import Callhouse.Indexer.House.Vaults

/-
  The House tables follow the vaults: one log of a vault is
  taken without an error, changes no other vault's rows, and
  leaves the vault's own as the vault is.

  Main declarations:
    * `queuedRequest`, `queuedRequest_requested`
    * `VaultMirror`, `VaultOk`, `HouseOk`, `SameFor`
    * `queued_update`, `retire_current`
-/

----
-- Queued Requests
----

namespace Callhouse.Indexer.House

open Projection (LogMeta logId zeroAddress)
open RowTable

section

open Projection (LogMeta)

variable {A : Type} {queue : Queue A} {id other : String × String}
variable {event : LogMeta}

/- The request that a row is waiting with. -/
def queuedRequest
    (found : Option (QueueRow A)) : Option (Request A) :=
  found.bind (fun row =>
    if row.status = .queued then
      some { epochId := row.epochId, amount := row.amount }
    else none)

theorem get?_closeQueue_of_ne
    (status : QueueStatus)
    (h : id ≠ other) :
    (closeQueue queue id status event).get? other =
      queue.get? other := by
  unfold closeQueue
  split
  · rfl
  · split
    · rfl
    · exact queue.get?_set_of_ne _ h

theorem queuedRequest_closeQueue
    {status : QueueStatus}
    (h : status ≠ .queued) :
    queuedRequest ((closeQueue queue id status event).get? id) =
      none := by
  unfold closeQueue queuedRequest
  cases hRow : queue.get? id with
  | none =>
      dsimp only
      rw [hRow]
      rfl
  | some row =>
      dsimp only
      split
      · next hClosed =>
          rw [hRow]
          exact if_neg hClosed
      · rw [OrderedMap.get?_set_self]
        exact if_neg h

theorem get?_closeMaturedQueue_of_ne
    (current : Option Int)
    (h : id ≠ other) :
    (closeMaturedQueue queue id current event).get? other =
      queue.get? other := by
  unfold closeMaturedQueue
  cases current with
  | none => rfl
  | some current =>
      dsimp only
      split
      · rfl
      · split
        · rfl
        · split
          · rfl
          · exact get?_closeQueue_of_ne .claimed h

theorem queuedRequest_closeMaturedQueue
    (current : Int) :
    queuedRequest
        ((closeMaturedQueue queue id (some current) event).get? id) =
      retire (queuedRequest (queue.get? id)) current := by
  unfold closeMaturedQueue
  dsimp only
  cases hRow : queue.get? id with
  | none =>
      dsimp only
      rw [hRow]
      rfl
  | some row =>
      dsimp only
      by_cases hQueued : row.status = .queued
      · have hRequest :
            queuedRequest (some row) =
              some { epochId := row.epochId, amount := row.amount } :=
          if_pos hQueued
        rw [if_neg (not_not.mpr hQueued), hRequest]
        unfold retire
        rw [Option.filter_some]
        by_cases hOpen : current ≤ row.epochId
        · rw [if_pos hOpen, hRow, hRequest, if_pos (by simpa using hOpen)]
        · rw [if_neg hOpen, if_neg (by simpa using hOpen)]
          exact queuedRequest_closeQueue (by simp)
      · rw [if_pos hQueued, hRow,
          show queuedRequest (some row) = none from if_neg hQueued]
        rfl

theorem get?_requested_of_ne
    [Add A]
    {vault account : String}
    {epochId : Int}
    {amount : A}
    (h : queueId vault account ≠ other) :
    (requested queue vault account epochId amount event).get? other =
      queue.get? other :=
  queue.get?_set_of_ne _ h

theorem queuedRequest_requested
    [Add A]
    {vault account : String}
    {epochId : Int}
    {amount : A}
    (hOpen :
      ∀ request ∈ queuedRequest (queue.get? (queueId vault account)),
        request.epochId = epochId) :
    queuedRequest
        ((requested queue vault account epochId amount event).get?
          (queueId vault account)) =
      some
        (topUp (queuedRequest (queue.get? (queueId vault account)))
          epochId amount) := by
  unfold requested
  dsimp only
  rw [OrderedMap.get?_set_self]
  cases hRow : queue.get? (queueId vault account) with
  | none => rfl
  | some row =>
      by_cases hQueued : row.status = .queued
      · have hRequest :
            queuedRequest (some row) =
              some { epochId := row.epochId, amount := row.amount } :=
          if_pos hQueued
        rw [hRow] at hOpen
        have hEpoch : row.epochId = epochId := hOpen _ hRequest
        rw [hRequest]
        unfold topUp queuedRequest
        dsimp only
        rw [if_pos ⟨hQueued, hEpoch⟩]
        rfl
      · rw [show queuedRequest (some row) = none from if_neg hQueued]
        unfold topUp queuedRequest
        dsimp only
        rw [if_neg (fun h => hQueued h.1)]
        rfl

end

----
-- One Vault's Rows
----

section

def sharesOf
    (balances : OrderedMap (String × String) ShareBalanceRow)
    (id : String × String) : Int :=
  ((balances.get? id).map (fun row => row.shares)).getD 0

/- All the shares that a vault's rows have. -/
def totalShares
    (balances : OrderedMap (String × String) ShareBalanceRow)
    (vault : String) : Int :=
  sumBy (fun row => if row.vault = vault then row.shares else 0)
    balances

/- Nothing of the vault is known but when its epoch ends. -/
structure Blank
    (db : HouseDb)
    (vault : String) : Prop where
  vaults : db.vaults.get? vault = none
  epochs : ∀ epochId, db.epochs.get? (vault, epochId) = none
  deposits : ∀ account, db.depositQueue.get? (vault, account) = none
  withdraws : ∀ account, db.withdrawQueue.get? (vault, account) = none
  shares : ∀ account, db.shareBalances.get? (vault, account) = none
  total : totalShares db.shareBalances vault = 0

/- A matured request is one that a claim would close. -/
def Matures
    {A : Type}
    (requests : String → Option (Request A))
    (epochId current : Int) : Prop :=
  ∀ account request, requests account = some request →
    request.epochId < epochId → request.epochId < current

structure VaultMirror
    (db : HouseDb)
    (vault : String)
    (s : VaultState)
    (row : HouseVaultRow)
    (current : Int) : Prop where
  stored : db.vaults.get? vault = some row
  knows : row.currentEpochId = some current
  reached : current ≤ s.epochId
  epochs :
    ∀ epochId found, db.epochs.get? (vault, epochId) = some found →
      epochId ≤ s.epochId
  deposits :
    ∀ account,
      queuedRequest (db.depositQueue.get? (vault, account)) =
        s.deposits account
  withdraws :
    ∀ account,
      queuedRequest (db.withdrawQueue.get? (vault, account)) =
        s.withdraws account
  depositsMature : Matures s.deposits s.epochId current
  withdrawsMature : Matures s.withdraws s.epochId current
  shares :
    ∀ account, sharesOf db.shareBalances (vault, account) =
      s.shares account
  nonneg : ∀ account, 0 ≤ s.shares account
  total :
    row.sharesSupply.getD 0 = totalShares db.shareBalances vault

def VaultOk
    (db : HouseDb)
    (vault : String)
    (found : Option VaultState) : Prop :=
  match found with
  | none => Blank db vault ∧ db.epochsOpened.get? vault = none
  | some s =>
      if s.listed then
        ∃ row current, VaultMirror db vault s row current
      else
        s = .fresh false s.epochId ∧ Blank db vault ∧
          ∃ opened, db.epochsOpened.get? vault = some opened ∧
            opened.epochId = s.epochId

/- One vault's rows are the same. -/
structure SameFor
    (vault : String)
    (db db' : HouseDb) : Prop where
  vaults : db'.vaults.get? vault = db.vaults.get? vault
  opened : db'.epochsOpened.get? vault = db.epochsOpened.get? vault
  epochs :
    ∀ epochId,
      db'.epochs.get? (vault, epochId) = db.epochs.get? (vault, epochId)
  deposits :
    ∀ account,
      db'.depositQueue.get? (vault, account) =
        db.depositQueue.get? (vault, account)
  withdraws :
    ∀ account,
      db'.withdrawQueue.get? (vault, account) =
        db.withdrawQueue.get? (vault, account)
  shares :
    ∀ account,
      db'.shareBalances.get? (vault, account) =
        db.shareBalances.get? (vault, account)
  total :
    totalShares db'.shareBalances vault =
      totalShares db.shareBalances vault

variable {db db' : HouseDb} {vault : String}

theorem Blank.same
    (h : Blank db vault)
    (hSame : SameFor vault db db') :
    Blank db' vault :=
  { vaults := hSame.vaults.trans h.vaults
    epochs := fun epochId =>
      (hSame.epochs epochId).trans (h.epochs epochId)
    deposits := fun account =>
      (hSame.deposits account).trans (h.deposits account)
    withdraws := fun account =>
      (hSame.withdraws account).trans (h.withdraws account)
    shares := fun account =>
      (hSame.shares account).trans (h.shares account)
    total := hSame.total.trans h.total }

variable {s : VaultState}

theorem VaultMirror.same
    {row : HouseVaultRow}
    {current : Int}
    (h : VaultMirror db vault s row current)
    (hSame : SameFor vault db db') :
    VaultMirror db' vault s row current :=
  { h with
    stored := hSame.vaults.trans h.stored
    epochs := fun epochId found hFound =>
      h.epochs epochId found ((hSame.epochs epochId).symm.trans hFound)
    deposits := fun account =>
      (congrArg queuedRequest (hSame.deposits account)).trans
        (h.deposits account)
    withdraws := fun account =>
      (congrArg queuedRequest (hSame.withdraws account)).trans
        (h.withdraws account)
    shares := by
      intro account
      rw [← h.shares account]
      unfold sharesOf
      rw [hSame.shares account]
    total := h.total.trans hSame.total.symm }

theorem VaultOk.same
    {found : Option VaultState}
    (h : VaultOk db vault found)
    (hSame : SameFor vault db db') :
    VaultOk db' vault found := by
  unfold VaultOk at h ⊢
  cases found with
  | none => exact ⟨h.1.same hSame, hSame.opened.trans h.2⟩
  | some s =>
      dsimp only at h ⊢
      split
      · next hListed =>
          rw [if_pos hListed] at h
          rcases h with ⟨row, current, hMirror⟩
          exact ⟨row, current, hMirror.same hSame⟩
      · next hListed =>
          rw [if_neg hListed] at h
          rcases h with ⟨hFresh, hBlank, opened, hOpened, hEpoch⟩
          exact
            ⟨hFresh, hBlank.same hSame, opened,
              hSame.opened.trans hOpened, hEpoch⟩

/- A balance row names the vault of its key. -/
def ShareKeys
    (balances : OrderedMap (String × String) ShareBalanceRow) :
    Prop :=
  ∀ id row, balances.get? id = some row → row.vault = id.1

/- Every vault's rows, and the logs that the tapes are keyed by. -/
structure HouseOk
    (logs : List HouseLog)
    (db : HouseDb)
    (vaults : Vaults) : Prop where
  vault : ∀ vault, VaultOk db vault (vaults vault)
  keys : ShareKeys db.shareBalances
  claims :
    ∀ id, db.claims.has id = true →
      id ∈ logs.map (fun entry => logId entry.log)
  navs :
    ∀ id, db.navs.has id = true →
      id ∈ logs.map (fun entry => logId entry.log)
  queueSettlements :
    ∀ id, db.queueSettlements.has id = true →
      id ∈ logs.map (fun entry => logId entry.log)
  performanceFees :
    ∀ id, db.performanceFees.has id = true →
      id ∈ logs.map (fun entry => logId entry.log)

/- What one vault's log may write of the others: nothing. -/
theorem vaults_ok_update
    {vaults : Vaults}
    (h : ∀ other, VaultOk db other (vaults other))
    (hSame : ∀ other, vault ≠ other → SameFor other db db')
    (hVault : VaultOk db' vault (some s)) :
    ∀ other,
      VaultOk db' other (Function.update vaults vault (some s) other) := by
  intro other
  by_cases hOther : other = vault
  · subst hOther
    rw [Function.update_self]
    exact hVault
  · rw [Function.update_of_ne hOther]
    exact (h other).same (hSame other (Ne.symm hOther))

theorem listed_mirror
    (h : VaultOk db vault (some s))
    (hListed : s.listed = true) :
    ∃ row current, VaultMirror db vault s row current := by
  unfold VaultOk at h
  dsimp only at h
  rw [if_pos hListed] at h
  exact h

theorem vaultOk_of_mirror
    {row : HouseVaultRow}
    {current : Int}
    (hListed : s.listed = true)
    (h : VaultMirror db vault s row current) :
    VaultOk db vault (some s) := by
  unfold VaultOk
  dsimp only
  rw [if_pos hListed]
  exact ⟨row, current, h⟩

end

----
-- Requests and Claims
----

variable {A : Type} {queue queue' : Queue A}
variable {db db' : HouseDb} {vault : String} {s : VaultState}
variable {row : HouseVaultRow} {current : Int}
variable {requests : String → Option (Request A)} {account : String}

/- One account's row changes, and its request with it. -/
theorem queued_update
    {request : Option (Request A)}
    (h :
      ∀ other, queuedRequest (queue.get? (vault, other)) =
        requests other)
    (hSelf : queuedRequest (queue'.get? (vault, account)) = request)
    (hOthers :
      ∀ other, (vault, account) ≠ other →
        queue'.get? other = queue.get? other)
    (other : String) :
    queuedRequest (queue'.get? (vault, other)) =
      Function.update requests account request other := by
  by_cases hOther : other = account
  · subst hOther
    rw [Function.update_self, hSelf]
  · rw [Function.update_of_ne hOther, ← h other,
      hOthers (vault, other)]
    exact fun hSame => hOther (congrArg Prod.snd hSame).symm

variable {epochId : Int}

theorem Matures.update
    (h : Matures requests epochId current)
    {changed : Option (Request A)}
    (hChanged :
      ∀ request, changed = some request →
        request.epochId < epochId → request.epochId < current) :
    Matures (Function.update requests account changed) epochId
      current := by
  intro other request hRequest
  by_cases hOther : other = account
  · subst hOther
    rw [Function.update_self] at hRequest
    exact hChanged request hRequest
  · rw [Function.update_of_ne hOther] at hRequest
    exact h other request hRequest

theorem VaultMirror.withDeposits
    (h : VaultMirror db vault s row current)
    {queue : Queue DepositAmount}
    {deposits : String → Option (Request DepositAmount)}
    (hQueue :
      ∀ account, queuedRequest (queue.get? (vault, account)) =
        deposits account)
    (hMature : Matures deposits s.epochId current) :
    VaultMirror { db with depositQueue := queue } vault
      { s with deposits := deposits } row current :=
  { h with
    deposits := hQueue
    depositsMature := hMature }

theorem VaultMirror.withWithdraws
    (h : VaultMirror db vault s row current)
    {queue : Queue Int}
    {withdraws : String → Option (Request Int)}
    (hQueue :
      ∀ account, queuedRequest (queue.get? (vault, account)) =
        withdraws account)
    (hMature : Matures withdraws s.epochId current) :
    VaultMirror { db with withdrawQueue := queue } vault
      { s with withdraws := withdraws } row current :=
  { h with
    withdraws := hQueue
    withdrawsMature := hMature }

theorem sameFor_queues
    {other : String}
    {depositQueue : Queue DepositAmount}
    {withdrawQueue : Queue Int}
    (hDeposits :
      ∀ account,
        depositQueue.get? (other, account) =
          db.depositQueue.get? (other, account))
    (hWithdraws :
      ∀ account,
        withdrawQueue.get? (other, account) =
          db.withdrawQueue.get? (other, account))
    (claims : OrderedMap (String × Int) ClaimRow) :
    SameFor other db
      { db with
        claims := claims
        depositQueue := depositQueue
        withdrawQueue := withdrawQueue } :=
  { vaults := rfl
    opened := rfl
    epochs := fun _ => rfl
    deposits := hDeposits
    withdraws := hWithdraws
    shares := fun _ => rfl
    total := rfl }

theorem other_vault
    {other account' : String}
    (h : vault ≠ other) :
    (vault, account) ≠ (other, account') :=
  fun hSame => h (congrArg Prod.fst hSame)

/- Requests the vault would retire are those the index closes. -/
theorem retire_current
    (hReached : current ≤ epochId)
    (hMature : Matures requests epochId current)
    (account : String) :
    retire (requests account) current =
      retire (requests account) epochId := by
  unfold retire
  cases hRequest : requests account with
  | none => rfl
  | some request =>
      have hIff :
          current ≤ request.epochId ↔ epochId ≤ request.epochId := by
        constructor
        · intro hOpen
          by_contra hPast
          exact
            absurd hOpen
              (not_le.mpr
                (hMature account request hRequest (not_le.mp hPast)))
        · exact hReached.trans
      rw [Option.filter_some, Option.filter_some]
      simp only [hIff]

theorem Matures.retire
    (h : Matures requests epochId current)
    (account : String) :
    Matures
      (Function.update requests account
        (retire (requests account) epochId))
      epochId current := by
  apply h.update
  intro request hRequest hPast
  have hKept := (Option.filter_eq_some_iff.mp hRequest).2
  exact absurd hPast (not_lt.mpr (of_decide_eq_true hKept))

end Callhouse.Indexer.House
