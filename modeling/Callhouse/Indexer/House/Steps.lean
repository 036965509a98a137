import Callhouse.Indexer.House.Mirror

/-
  Each log of a House vault, taken by the index: the boundary,
  the epoch's opening, the factory's log, and the requests.

  Main declarations:
    * `vaultOk_rolled`, `vaultOk_opened`, `vaultOk_created`
    * `vaultOk_depositQueue`, `vaultOk_withdrawQueue`
    * `vaultOk_claimed`
-/

----
-- Boundaries
----

namespace Callhouse.Indexer.House

open Projection (LogMeta logId zeroAddress)
open RowTable LockStep

section

variable {db db' : HouseDb} {vault : String} {s : VaultState}
variable {row : HouseVaultRow} {current : Int} {event : LogMeta}

theorem get?_updateVault
    {vaults : OrderedMap String HouseVaultRow}
    {change : HouseVaultRow → HouseVaultRow}
    (other : String) :
    (updateVault vaults vault change).get? other =
      if vault = other then (vaults.get? other).map change
      else vaults.get? other := by
  unfold updateVault
  cases hRow : vaults.get? vault with
  | none =>
      dsimp only
      split
      · next hSame =>
          rw [← hSame, hRow]
          rfl
      · rfl
  | some row =>
      dsimp only
      rw [OrderedMap.get?_set]
      split
      · next hSame =>
          rw [← hSame, hRow]
          rfl
      · rfl

/- A key that a table has not got yet. -/
theorem insert_of_not_has
    {K V : Type}
    [DecidableEq K]
    {table : OrderedMap K V}
    {key : K}
    (row : V)
    (h : ¬ table.has key = true) :
    RowTable.insert table key row = .ok (table.set key row) :=
  if_neg h

theorem has_of_get?
    {K V : Type}
    [DecidableEq K]
    {table : OrderedMap K V}
    {key : K} :
    ¬ table.has key = true ↔ table.get? key = none := by
  rw [OrderedMap.has, Option.not_isSome_iff_eq_none]

/- The epochs' rows after a boundary. -/
theorem get?_epochs_rolled
    {epochs : OrderedMap (String × Int) HouseEpochRow}
    {closed next : HouseEpochRow}
    {epochId : Int}
    {key : String × Int} :
    ((epochs.set (vault, epochId) closed).set (vault, epochId + 1)
        next).get? key =
      if (vault, epochId + 1) = key then some next
      else if (vault, epochId) = key then some closed
      else epochs.get? key := by
  rw [OrderedMap.get?_set, OrderedMap.get?_set]

theorem vaultOk_rolled
    {vaults : Vaults}
    {address : String}
    {args : EpochRolled}
    (h : ∀ other, VaultOk db other (vaults other))
    (hVault : vaults (lower address) = some s)
    (hListed : s.listed = true)
    (hEpoch : args.epochId = s.epochId)
    (hNavs : ¬ db.navs.has (logId event) = true)
    (hSettlements : ¬ db.queueSettlements.has (logId event) = true)
    (hFees : ¬ db.performanceFees.has (logId event) = true) :
    ∃ db', epochRolled db address args event = .ok db' ∧
      (∀ other,
        VaultOk db' other
          (Function.update vaults (lower address)
            (some { s with epochId := s.epochId + 1 }) other)) ∧
      db'.shareBalances = db.shareBalances ∧
      db'.claims = db.claims ∧
      (∀ id, db'.navs.has id = true →
        id = logId event ∨ db.navs.has id = true) ∧
      (∀ id, db'.queueSettlements.has id = true →
        id = logId event ∨ db.queueSettlements.has id = true) ∧
      ∀ id, db'.performanceFees.has id = true →
        id = logId event ∨ db.performanceFees.has id = true := by
  have hOk := h (lower address)
  rw [hVault] at hOk
  rcases listed_mirror hOk hListed with ⟨row, current, hMirror⟩
  have hFree :
      ¬ (db.epochs.set (lower address, args.epochId)
          (closedEpoch (db.epochs.get? (lower address, args.epochId))
            (lower address) args event)).has
        (lower address, args.epochId + 1) = true := by
    rw [has_of_get?, OrderedMap.get?_set_of_ne]
    · cases hFound :
          db.epochs.get? (lower address, args.epochId + 1) with
      | none => rfl
      | some found =>
          have hLe := hMirror.epochs _ found hFound
          omega
    · intro hSame
      have hNext := congrArg Prod.snd hSame
      dsimp only at hNext
      omega
  unfold epochRolled
  dsimp only
  rw [insert_of_not_has _ hFree, insert_of_not_has _ hNavs,
    insert_of_not_has _ hSettlements, insert_of_not_has _ hFees]
  refine ⟨_, rfl, ?_, rfl, rfl, ?_, ?_, ?_⟩
  · apply vaults_ok_update h
    · intro other hOther
      refine
        { vaults := ?_
          opened := rfl
          epochs := ?_
          deposits := fun _ => rfl
          withdraws := fun _ => rfl
          shares := fun _ => rfl
          total := rfl }
      · exact (get?_updateVault other).trans (if_neg hOther)
      · intro epochId
        dsimp only
        rw [get?_epochs_rolled, if_neg, if_neg]
        · exact fun hSame => hOther (congrArg Prod.fst hSame)
        · exact fun hSame => hOther (congrArg Prod.fst hSame)
    · refine
        @vaultOk_of_mirror _ _ _
          { row with
            currentEpochId := some (args.epochId + 1)
            currentEpochEnd := args.nextEnd }
          (args.epochId + 1) hListed ?_
      refine
        { hMirror with
          stored := ?_
          knows := rfl
          reached := ?_
          epochs := ?_
          depositsMature := ?_
          withdrawsMature := ?_ }
      · refine (get?_updateVault (lower address)).trans ?_
        rw [if_pos rfl, hMirror.stored, Option.map_some]
      · exact le_of_eq (congrArg (fun e => e + 1) hEpoch)
      · intro epochId found hFound
        dsimp only at hFound ⊢
        rw [get?_epochs_rolled] at hFound
        split at hFound
        · next hSame =>
            have hNext := congrArg Prod.snd hSame
            dsimp only at hNext
            omega
        · split at hFound
          · next hSame =>
              have hClosed := congrArg Prod.snd hSame
              dsimp only at hClosed
              omega
          · have hLe := hMirror.epochs epochId found hFound
            omega
      · intro account request _ hPast
        rw [hEpoch]
        exact hPast
      · intro account request _ hPast
        rw [hEpoch]
        exact hPast
  · intro id hHas
    exact ((OrderedMap.has_set _ _ _ _).mp hHas).imp_left Eq.symm
  · intro id hHas
    exact ((OrderedMap.has_set _ _ _ _).mp hHas).imp_left Eq.symm
  · intro id hHas
    exact ((OrderedMap.has_set _ _ _ _).mp hHas).imp_left Eq.symm

end

----
-- Epochs That Open
----

section

variable {db db' : HouseDb} {vault : String} {s : VaultState}
variable {event : LogMeta} {vaults : Vaults}

/- A null end is filled in, and no row comes or goes. -/
theorem get?_fillEnd
    {epochs : OrderedMap (String × Int) HouseEpochRow}
    {key other : String × Int}
    {epochEnd : Int} :
    (key ≠ other →
      (fillEnd epochs key epochEnd).get? other = epochs.get? other) ∧
      ((fillEnd epochs key epochEnd).get? other = none ↔
        epochs.get? other = none) := by
  unfold fillEnd
  cases hRow : epochs.get? key with
  | none => exact ⟨fun _ => rfl, Iff.rfl⟩
  | some row =>
      dsimp only
      split
      · constructor
        · exact fun hOther => epochs.get?_set_of_ne _ hOther
        · rw [OrderedMap.get?_set]
          split
          · next hSame =>
              rw [← hSame, hRow]
              simp
          · exact Iff.rfl
      · exact ⟨fun _ => rfl, Iff.rfl⟩

theorem sameFor_epochOpened
    {address other : String}
    {epochId epochEnd : Int}
    (h : lower address ≠ other) :
    SameFor other db
      (epochOpened db address epochId epochEnd event) := by
  refine
    { vaults := ?_
      opened := ?_
      epochs := ?_
      deposits := fun _ => rfl
      withdraws := fun _ => rfl
      shares := fun _ => rfl
      total := rfl }
  · exact (get?_updateVault other).trans (if_neg h)
  · exact db.epochsOpened.get?_set_of_ne _ h
  · intro epochId'
    exact
      get?_fillEnd.1 (fun hSame => h (congrArg Prod.fst hSame))

theorem openEpoch_keeps
    {row : HouseVaultRow}
    {current epochId epochEnd : Int}
    (h : row.currentEpochId = some current) :
    (openEpoch epochId epochEnd row).currentEpochId = some current ∧
      (openEpoch epochId epochEnd row).sharesSupply =
        row.sharesSupply := by
  unfold openEpoch
  split
  · next hSame =>
      rw [h] at hSame
      rcases hSame with hNone | hSame
      · cases hNone
      · exact ⟨hSame.symm, rfl⟩
  · exact ⟨h, rfl⟩

/- The next epoch opens: its end is written down. -/
theorem vaultOk_opened
    {address : String}
    {epochId epochEnd : Int}
    (h : ∀ other, VaultOk db other (vaults other))
    (hVault : vaults (lower address) = some s)
    (hListed : s.listed = true)
    (other : String) :
    VaultOk (epochOpened db address epochId epochEnd event) other
      (vaults other) := by
  by_cases hOther : lower address = other
  · subst hOther
    have hOk := h (lower address)
    rw [hVault] at hOk ⊢
    rcases listed_mirror hOk hListed with ⟨row, current, hMirror⟩
    have hKeeps :=
      @openEpoch_keeps row current epochId epochEnd hMirror.knows
    refine
      @vaultOk_of_mirror _ _ _ (openEpoch epochId epochEnd row) current
        hListed ?_
    refine
      { hMirror with
        stored := ?_
        knows := hKeeps.1
        epochs := ?_
        total := hKeeps.2.symm ▸ hMirror.total }
    · refine (get?_updateVault (lower address)).trans ?_
      rw [if_pos rfl, hMirror.stored, Option.map_some]
    · intro epochId' found hFound
      cases hBefore : db.epochs.get? (lower address, epochId') with
      | none =>
          have hNone :
              (fillEnd db.epochs (lower address, epochId)
                epochEnd).get? (lower address, epochId') = none :=
            get?_fillEnd.2.mpr hBefore
          cases hNone.symm.trans hFound
      | some before => exact hMirror.epochs epochId' before hBefore
  · exact (h other).same (sameFor_epochOpened hOther)

/- The first epoch of a vault that has not been named yet. -/
theorem vaultOk_constructed
    {address : String}
    {epochId epochEnd : Int}
    (h : ∀ other, VaultOk db other (vaults other))
    (hNew : vaults (lower address) = none) :
    ∀ other,
      VaultOk (epochOpened db address epochId epochEnd event) other
        (Function.update vaults (lower address)
          (some (.fresh false epochId)) other) := by
  apply vaults_ok_update h
  · exact fun other hOther => sameFor_epochOpened hOther
  · have hOk := h (lower address)
    rw [hNew] at hOk
    have hBlank : Blank db (lower address) := hOk.1
    unfold VaultOk
    refine ⟨rfl, ?_, _, db.epochsOpened.get?_set_self _ _, rfl⟩
    exact
      { vaults :=
          (get?_updateVault (lower address)).trans (by
            rw [if_pos rfl, hBlank.vaults, Option.map_none])
        epochs := fun epochId' =>
          get?_fillEnd.2.mpr (hBlank.epochs epochId')
        deposits := hBlank.deposits
        withdraws := hBlank.withdraws
        shares := hBlank.shares
        total := hBlank.total }

end

----
-- Vaults That Are Created
----

section

variable {db db' : HouseDb} {vault : String} {s : VaultState}
variable {event : LogMeta} {vaults : Vaults} {env : HouseEnv}

/- A read that fails makes the epoch no later than it is. -/
theorem firstEpoch_le
    {opened : Option EpochOpenedRow}
    {answer : Option (Int × Int)}
    {epochId : Int}
    (hOpened : ∀ row ∈ opened, row.epochId = epochId)
    (hAnswer : ∀ read ∈ answer, read.2 = epochId)
    (hEpoch : 0 ≤ epochId) :
    (firstEpoch opened answer).2 ≤ epochId := by
  unfold firstEpoch
  cases opened with
  | some row => exact le_of_eq (hOpened row rfl)
  | none =>
      cases answer with
      | some read => exact le_of_eq (hAnswer read rfl)
      | none => exact hEpoch

theorem vaultOk_created
    {address : String}
    {args : VaultCreated}
    {epochId : Int}
    (h : ∀ other, VaultOk db other (vaults other))
    (hNew :
      vaults (lower args.vault) = none ∨
        vaults (lower args.vault) = some (.fresh false epochId))
    (hEpoch : 0 ≤ epochId)
    (hAnswer : ∀ answer ∈ args.epoch, answer.2 = epochId) :
    ∃ db', recordVaultCreated env db address args event = .ok db' ∧
      (∀ other,
        VaultOk db' other
          (Function.update vaults (lower args.vault)
            (some (.fresh true epochId)) other)) ∧
      db'.shareBalances = db.shareBalances ∧
      db'.claims = db.claims ∧ db'.navs = db.navs ∧
      db'.queueSettlements = db.queueSettlements ∧
      db'.performanceFees = db.performanceFees := by
  have hBlank :
      Blank db (lower args.vault) ∧
        ∀ row ∈ db.epochsOpened.get? (lower args.vault),
          row.epochId = epochId := by
    have hOk := h (lower args.vault)
    rcases hNew with hNone | hFresh
    · rw [hNone] at hOk
      refine ⟨hOk.1, ?_⟩
      rw [hOk.2]
      intro row hRow
      cases hRow
    · rw [hFresh] at hOk
      rcases hOk with ⟨_, hBlank, opened, hOpened, hSame⟩
      refine ⟨hBlank, ?_⟩
      rw [hOpened]
      intro row hRow
      cases hRow
      exact hSame
  have hFirst := firstEpoch_le hBlank.2 hAnswer hEpoch
  unfold recordVaultCreated
  dsimp only
  rw [insert_of_not_has _ (has_of_get?.mpr hBlank.1.vaults),
    insert_of_not_has _ (has_of_get?.mpr (hBlank.1.epochs _))]
  refine ⟨_, rfl, ?_, rfl, rfl, rfl, rfl, rfl⟩
  apply vaults_ok_update h
  · intro other hOther
    refine
      { vaults := db.vaults.get?_set_of_ne _ hOther
        opened := rfl
        epochs := ?_
        deposits := fun _ => rfl
        withdraws := fun _ => rfl
        shares := fun _ => rfl
        total := rfl }
    intro epochId'
    exact
      db.epochs.get?_set_of_ne _
        (fun hSame => hOther (congrArg Prod.fst hSame))
  · refine
      vaultOk_of_mirror rfl
        { stored := db.vaults.get?_set_self _ _
          knows := rfl
          reached := hFirst
          epochs := ?_
          deposits := ?_
          withdraws := ?_
          depositsMature := ?_
          withdrawsMature := ?_
          shares := ?_
          nonneg := fun _ => le_refl 0
          total := ?_ }
    · intro epochId' found hFound
      dsimp only at hFound
      rw [OrderedMap.get?_set] at hFound
      split at hFound
      · next hSame =>
          have hId := congrArg Prod.snd hSame
          dsimp only at hId
          rw [← hId]
          exact hFirst
      · rw [hBlank.1.epochs] at hFound
        cases hFound
    · intro account
      dsimp only
      rw [hBlank.1.deposits]
      rfl
    · intro account
      dsimp only
      rw [hBlank.1.withdraws]
      rfl
    · intro account request hRequest
      cases hRequest
    · intro account request hRequest
      cases hRequest
    · intro account
      unfold sharesOf
      dsimp only
      rw [hBlank.1.shares]
      rfl
    · exact hBlank.1.total.symm

end

----
-- Requests
----

variable {db db' : HouseDb} {vault : String} {s : VaultState}
variable {event : LogMeta} {vaults : Vaults} {account : String}

/- One deposit row is written: the account's request changes. -/
theorem vaultOk_depositQueue
    {queue : Queue DepositAmount}
    {request : Option (Request DepositAmount)}
    (h : ∀ other, VaultOk db other (vaults other))
    (hVault : vaults vault = some s)
    (hListed : s.listed = true)
    (hSelf : queuedRequest (queue.get? (vault, account)) = request)
    (hOthers :
      ∀ other, (vault, account) ≠ other →
        queue.get? other = db.depositQueue.get? other)
    (hPast :
      ∀ waiting ∈ request, ¬ waiting.epochId < s.epochId) :
    ∀ other,
      VaultOk { db with depositQueue := queue } other
        (Function.update vaults vault
          (some
            { s with
              deposits :=
                Function.update s.deposits account request })
          other) := by
  have hOk := h vault
  rw [hVault] at hOk
  rcases listed_mirror hOk hListed with ⟨row, current, hMirror⟩
  apply vaults_ok_update h
  · intro other hOther
    exact
      sameFor_queues
        (fun account' => hOthers _ (other_vault hOther))
        (fun _ => rfl) db.claims
  · refine vaultOk_of_mirror hListed (hMirror.withDeposits ?_ ?_)
    · exact queued_update hMirror.deposits hSelf hOthers
    · apply hMirror.depositsMature.update
      intro waiting hWaiting hMatured
      exact absurd hMatured (hPast waiting hWaiting)

theorem vaultOk_withdrawQueue
    {queue : Queue Int}
    {request : Option (Request Int)}
    (h : ∀ other, VaultOk db other (vaults other))
    (hVault : vaults vault = some s)
    (hListed : s.listed = true)
    (hSelf : queuedRequest (queue.get? (vault, account)) = request)
    (hOthers :
      ∀ other, (vault, account) ≠ other →
        queue.get? other = db.withdrawQueue.get? other)
    (hPast :
      ∀ waiting ∈ request, ¬ waiting.epochId < s.epochId) :
    ∀ other,
      VaultOk { db with withdrawQueue := queue } other
        (Function.update vaults vault
          (some
            { s with
              withdraws :=
                Function.update s.withdraws account request })
          other) := by
  have hOk := h vault
  rw [hVault] at hOk
  rcases listed_mirror hOk hListed with ⟨row, current, hMirror⟩
  apply vaults_ok_update h
  · intro other hOther
    exact
      sameFor_queues (fun _ => rfl)
        (fun account' => hOthers _ (other_vault hOther)) db.claims
  · refine vaultOk_of_mirror hListed (hMirror.withWithdraws ?_ ?_)
    · exact queued_update hMirror.withdraws hSelf hOthers
    · apply hMirror.withdrawsMature.update
      intro waiting hWaiting hMatured
      exact absurd hMatured (hPast waiting hWaiting)

/- The epoch that the index knows closes what the vault retires. -/
theorem queued_claimed
    {A : Type}
    {queue : Queue A}
    {requests : String → Option (Request A)}
    {current epochId : Int}
    (h :
      ∀ other, queuedRequest (queue.get? (vault, other)) =
        requests other)
    (hReached : current ≤ epochId)
    (hMature : Matures requests epochId current)
    (other : String) :
    queuedRequest
        ((closeMaturedQueue queue (vault, account) (some current)
          event).get? (vault, other)) =
      Function.update requests account
        (retire (requests account) epochId) other := by
  apply queued_update h
  · rw [queuedRequest_closeMaturedQueue, h account]
    exact retire_current hReached hMature account
  · exact fun other hOther => get?_closeMaturedQueue_of_ne _ hOther

theorem vaultOk_claimed
    {address : String}
    {shares usdgAmount stockAmount : Int}
    (h : ∀ other, VaultOk db other (vaults other))
    (hVault : vaults (lower address) = some s)
    (hListed : s.listed = true)
    (hClaims : ¬ db.claims.has (logId event) = true) :
    ∃ db',
      claimed db address account shares usdgAmount stockAmount
          event = .ok db' ∧
        (∀ other,
          VaultOk db' other
            (Function.update vaults (lower address)
              (some (s.claim (lower account))) other)) ∧
        db'.shareBalances = db.shareBalances ∧
        (∀ id, db'.claims.has id = true →
          id = logId event ∨ db.claims.has id = true) ∧
        db'.navs = db.navs ∧
        db'.queueSettlements = db.queueSettlements ∧
        db'.performanceFees = db.performanceFees := by
  have hOk := h (lower address)
  rw [hVault] at hOk
  rcases listed_mirror hOk hListed with ⟨row, current, hMirror⟩
  have hCurrent :
      (db.vaults.get? (lower address)).bind
          (fun row => row.currentEpochId) = some current := by
    rw [hMirror.stored]
    exact hMirror.knows
  unfold claimed
  dsimp only
  rw [insert_of_not_has _ hClaims, hCurrent]
  refine ⟨_, rfl, ?_, rfl, ?_, rfl, rfl, rfl⟩
  · apply vaults_ok_update h
    · intro other hOther
      have hKey :
          ∀ account', queueId (lower address) account ≠
            (other, account') := by
        intro account'
        unfold queueId
        rw [lower_lower]
        exact other_vault hOther
      exact
        sameFor_queues
          (fun account' => get?_closeMaturedQueue_of_ne _ (hKey account'))
          (fun account' => get?_closeMaturedQueue_of_ne _ (hKey account'))
          _
    · have hId :
          queueId (lower address) account =
            (lower address, lower account) := by
        unfold queueId
        rw [lower_lower]
      rw [hId]
      exact
        vaultOk_of_mirror hListed
          { hMirror with
            deposits :=
              queued_claimed hMirror.deposits hMirror.reached
                hMirror.depositsMature
            withdraws :=
              queued_claimed hMirror.withdraws hMirror.reached
                hMirror.withdrawsMature
            depositsMature := hMirror.depositsMature.retire _
            withdrawsMature := hMirror.withdrawsMature.retire _ }
  · intro id hHas
    exact ((OrderedMap.has_set _ _ _ _).mp hHas).imp_left Eq.symm

end Callhouse.Indexer.House
