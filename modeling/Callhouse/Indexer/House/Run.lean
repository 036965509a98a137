import Callhouse.Indexer.House.Shares

/-
  The House tables over whole tapes: any number of vaults and
  accounts, in any order of their logs, with chain reads that
  may have failed.

  Main declarations:
    * `houseOk_apply`, `houseOk_run`
    * `queues_hold_open_requests`
    * `supply_is_the_balances`
-/

----
-- One Log
----

namespace Callhouse.Indexer.House

open RowTable LockStep

section

open Projection (LogMeta logId)

variable {logs : List HouseLog} {entry : HouseLog}
variable {db db' : HouseDb} {vaults vaults' : Vaults}
variable {env : HouseEnv}

def logIds
    (logs : List HouseLog) : List (String × Int) :=
  logs.map (fun entry => logId entry.log)

/- What a tape had is what it had before the log. -/
theorem mem_logIds_concat
    {id : String × Int}
    (h : id = logId entry.log ∨ id ∈ logIds logs) :
    id ∈ logIds (logs ++ [entry]) := by
  unfold logIds at h ⊢
  rw [List.map_append, List.mem_append]
  rcases h with rfl | hBefore
  · exact Or.inr (List.mem_singleton_self _)
  · exact Or.inl hBefore

/- The four tapes have no rows of logs that are not there. -/
theorem HouseOk.after
    (h : HouseOk logs db vaults)
    (hVaults : ∀ vault, VaultOk db' vault (vaults' vault))
    (hKeys : ShareKeys db'.shareBalances)
    (hClaims :
      ∀ id, db'.claims.has id = true →
        id = logId entry.log ∨ db.claims.has id = true)
    (hNavs :
      ∀ id, db'.navs.has id = true →
        id = logId entry.log ∨ db.navs.has id = true)
    (hSettlements :
      ∀ id, db'.queueSettlements.has id = true →
        id = logId entry.log ∨ db.queueSettlements.has id = true)
    (hFees :
      ∀ id, db'.performanceFees.has id = true →
        id = logId entry.log ∨ db.performanceFees.has id = true) :
    HouseOk (logs ++ [entry]) db' vaults' :=
  { vault := hVaults
    keys := hKeys
    claims := fun id hHas =>
      mem_logIds_concat ((hClaims id hHas).imp_right (h.claims id))
    navs := fun id hHas =>
      mem_logIds_concat ((hNavs id hHas).imp_right (h.navs id))
    queueSettlements := fun id hHas =>
      mem_logIds_concat
        ((hSettlements id hHas).imp_right (h.queueSettlements id))
    performanceFees := fun id hHas =>
      mem_logIds_concat
        ((hFees id hHas).imp_right (h.performanceFees id)) }

/- A log that writes to none of the tapes. -/
theorem HouseOk.off
    (h : HouseOk logs db vaults)
    (hVaults : ∀ vault, VaultOk db' vault (vaults' vault))
    (hKeys : ShareKeys db'.shareBalances)
    (hClaims : db'.claims = db.claims)
    (hNavs : db'.navs = db.navs)
    (hSettlements : db'.queueSettlements = db.queueSettlements)
    (hFees : db'.performanceFees = db.performanceFees) :
    HouseOk (logs ++ [entry]) db' vaults' :=
  h.after hVaults hKeys
    (fun _ hHas => Or.inr (hClaims ▸ hHas))
    (fun _ hHas => Or.inr (hNavs ▸ hHas))
    (fun _ hHas => Or.inr (hSettlements ▸ hHas))
    (fun _ hHas => Or.inr (hFees ▸ hHas))

/- The requests that are waiting at a vault are its queue rows. -/
theorem VaultOk.queues
    {vault : String}
    {found : Option VaultState}
    (h : VaultOk db vault found)
    (account : String) :
    queuedRequest (db.depositQueue.get? (vault, account)) =
        found.bind (fun s => s.deposits account) ∧
      queuedRequest (db.withdrawQueue.get? (vault, account)) =
        found.bind (fun s => s.withdraws account) := by
  have hBlank :
      Blank db vault →
        queuedRequest (db.depositQueue.get? (vault, account)) = none ∧
          queuedRequest (db.withdrawQueue.get? (vault, account)) =
            none := by
    intro hBlank
    rw [hBlank.deposits, hBlank.withdraws]
    exact ⟨rfl, rfl⟩
  cases found with
  | none => exact hBlank h.1
  | some s =>
      by_cases hListed : s.listed = true
      · rcases listed_mirror h hListed with ⟨row, current, hMirror⟩
        exact ⟨hMirror.deposits account, hMirror.withdraws account⟩
      · unfold VaultOk at h
        dsimp only at h
        rw [if_neg hListed] at h
        rw [h.1]
        exact hBlank h.2.1

theorem houseOk_apply
    (h : HouseOk logs db vaults)
    (hEmits : Emits vaults entry vaults')
    (hNew : logId entry.log ∉ logIds logs) :
    ∃ db', applyHouse env db entry = .ok db' ∧
      HouseOk (logs ++ [entry]) db' vaults' := by
  have hClaims := mt (h.claims (logId entry.log)) hNew
  have hNavs := mt (h.navs (logId entry.log)) hNew
  have hSettlements := mt (h.queueSettlements (logId entry.log)) hNew
  have hFees := mt (h.performanceFees (logId entry.log)) hNew
  cases hEmits with
  | constructed hEvent hUnknown hEpoch =>
      unfold applyHouse
      rw [hEvent]
      exact
        ⟨_, rfl,
          h.off (vaultOk_constructed h.vault hUnknown) h.keys rfl rfl
            rfl rfl⟩
  | created hEvent hUnknown hEpoch hAnswer =>
      unfold applyHouse
      rw [hEvent]
      rcases vaultOk_created h.vault hUnknown hEpoch hAnswer with
        ⟨db', hDb, hVaults, hShares, hRest⟩
      exact
        ⟨db', hDb,
          h.off hVaults (hShares ▸ h.keys) hRest.1 hRest.2.1
            hRest.2.2.1 hRest.2.2.2⟩
  | opened hEvent hVault hListed hEpoch =>
      unfold applyHouse
      rw [hEvent]
      exact
        ⟨_, rfl,
          h.off (vaultOk_opened h.vault hVault hListed) h.keys rfl rfl
            rfl rfl⟩
  | rolled hEvent hVault hListed hEpoch =>
      unfold applyHouse
      rw [hEvent]
      rcases
        vaultOk_rolled h.vault hVault hListed hEpoch hNavs hSettlements
          hFees with
        ⟨db', hDb, hVaults, hShares, hClaimRows, hRest⟩
      exact
        ⟨db', hDb,
          h.after hVaults (hShares ▸ h.keys)
            (fun _ hHas => Or.inr (hClaimRows ▸ hHas)) hRest.1
            hRest.2.1 hRest.2.2⟩
  | @depositRequested s account _ _ hEvent hVault hListed hOpen =>
      have hQueue :=
        ((h.vault (lower entry.address)).queues (lower account)).1
      rw [hVault, Option.bind_some] at hQueue
      rw [← hQueue] at hOpen
      unfold applyHouse
      rw [hEvent, ← hQueue]
      exact
        ⟨_, rfl,
          h.off
            (vaultOk_depositQueue h.vault hVault hListed
              (queuedRequest_requested hOpen)
              (fun _ => get?_requested_of_ne)
              (fun _ hWaiting => by
                cases hWaiting
                exact lt_irrefl _))
            h.keys rfl rfl rfl rfl⟩
  | depositCancelled hEvent hVault hListed =>
      unfold applyHouse
      rw [hEvent]
      exact
        ⟨_, rfl,
          h.off
            (vaultOk_depositQueue h.vault hVault hListed
              (queuedRequest_closeQueue (by simp))
              (fun _ => get?_closeQueue_of_ne .cancelled)
              (fun _ hWaiting => by cases hWaiting))
            h.keys rfl rfl rfl rfl⟩
  | @withdrawRequested s account _ hEvent hVault hListed hOpen =>
      have hQueue :=
        ((h.vault (lower entry.address)).queues (lower account)).2
      rw [hVault, Option.bind_some] at hQueue
      rw [← hQueue] at hOpen
      unfold applyHouse
      rw [hEvent, ← hQueue]
      exact
        ⟨_, rfl,
          h.off
            (vaultOk_withdrawQueue h.vault hVault hListed
              (queuedRequest_requested hOpen)
              (fun _ => get?_requested_of_ne)
              (fun _ hWaiting => by
                cases hWaiting
                exact lt_irrefl _))
            h.keys rfl rfl rfl rfl⟩
  | withdrawCancelled hEvent hVault hListed =>
      unfold applyHouse
      rw [hEvent]
      exact
        ⟨_, rfl,
          h.off
            (vaultOk_withdrawQueue h.vault hVault hListed
              (queuedRequest_closeQueue (by simp))
              (fun _ => get?_closeQueue_of_ne .cancelled)
              (fun _ hWaiting => by cases hWaiting))
            h.keys rfl rfl rfl rfl⟩
  | claimed hEvent hVault hListed =>
      unfold applyHouse
      rw [hEvent]
      rcases vaultOk_claimed h.vault hVault hListed hClaims with
        ⟨db', hDb, hVaults, hShares, hClaimRows, hRest⟩
      exact
        ⟨db', hDb,
          h.after hVaults (hShares ▸ h.keys) hClaimRows
            (fun _ hHas => Or.inr (hRest.1 ▸ hHas))
            (fun _ hHas => Or.inr (hRest.2.1 ▸ hHas))
            (fun _ hHas => Or.inr (hRest.2.2 ▸ hHas))⟩
  | transferred hEvent hVault hListed hValue hEnough hSome =>
      unfold applyHouse
      rw [hEvent]
      rcases
        vaultOk_transferred h.vault h.keys hVault hListed hValue
          hEnough hSome with
        ⟨db', hDb, hVaults, hKeys, hRest⟩
      exact
        ⟨db', hDb,
          h.off hVaults hKeys hRest.1 hRest.2.1 hRest.2.2.1
            hRest.2.2.2⟩

end

----
-- Whole Tapes
----

open Projection (LogMeta logId zeroAddress)

variable {logs : List HouseLog} {db : HouseDb} {vaults : Vaults}

theorem houseOk_start :
    HouseOk [] emptyHouse (fun _ => none) :=
  { vault := fun _ =>
      ⟨{ vaults := rfl
         epochs := fun _ => rfl
         deposits := fun _ => rfl
         withdraws := fun _ => rfl
         shares := fun _ => rfl
         total := rfl }, rfl⟩
    keys := fun _ _ hRow => by cases hRow
    claims := fun _ hHas => by cases hHas
    navs := fun _ hHas => by cases hHas
    queueSettlements := fun _ hHas => by cases hHas
    performanceFees := fun _ hHas => by cases hHas }

/- Each log is indexed once. -/
theorem houseOk_run
    (env : HouseEnv)
    (h : Tape logs vaults)
    (hOnce : (logIds logs).Nodup) :
    ∃ db, runHouse env emptyHouse logs = .ok db ∧
      HouseOk logs db vaults := by
  induction h with
  | start => exact ⟨emptyHouse, rfl, houseOk_start⟩
  | @next logs entry vaults vaults' hBefore hLog ih =>
      have hIds :
          logIds (logs ++ [entry]) =
            logIds logs ++ [logId entry.log] := by
        unfold logIds
        rw [List.map_append, List.map_singleton]
      rw [hIds, List.nodup_append] at hOnce
      rcases ih hOnce.1 with ⟨db, hRun, hOk⟩
      have hNew : logId entry.log ∉ logIds logs := fun hIn =>
        hOnce.2.2 _ hIn _ (List.mem_singleton_self _) rfl
      rcases @houseOk_apply _ _ _ _ _ env hOk hLog hNew with
        ⟨db', hApply, hOk'⟩
      refine ⟨db', ?_, hOk'⟩
      unfold runHouse at hRun ⊢
      rw [List.foldlM_append, hRun]
      exact
        bind_eq_ok.mpr
          ⟨db, rfl, bind_eq_ok.mpr ⟨db', hApply, rfl⟩⟩

def sampleMeta
    (logIndex : Int) : LogMeta :=
  { timestamp := 10
    number := 1
    tx := "0x1"
    logIndex := logIndex }

def sampleEvents : List (String × HouseEvent) :=
  [ ("0xaa", .epochOpened 3 900),
    ("0xf0",
      .vaultCreated
        { underlying := "0xbb"
          vault := "0xaa"
          name := "NVDA"
          symbol := "hNVDA"
          weekly := some true
          epoch := none
          readWeekly := none }),
    ("0xaa", .transfer zeroAddress "0xa1" 5),
    ("0xaa", .transfer "0xa1" "0xaa" 4),
    ("0xaa", .withdrawRequested "0xa1" 4 3),
    ("0xaa", .depositRequested "0xb2" 100 0 3),
    ("0xaa",
      .epochRolled
        { epochId := 3
          epochEnd := 900
          price := 10
          nav := 100
          supply := 5
          sharesMinted := 0
          sharesBurned := 4
          performanceFee := 0
          nextEnd := some 1800
          owedBefore := some 0
          owedAfter := none }),
    ("0xaa", .epochOpened 4 1800),
    ("0xaa", .depositRequested "0xc3" 7 0 4),
    ("0xaa", .claimed "0xa1" 0 40 0),
    ("0xaa", .claimed "0xc3" 0 0 0) ]

def sampleTape : List HouseLog :=
  sampleEvents.zipIdx.map (fun entry =>
    { address := entry.1.1
      event := entry.1.2
      log := sampleMeta entry.2 })

/-
  Named after its first epoch opened, with a read that failed.
  After the roll a claim retires what matured, one that has not
  matured outlasts a claim, and one is not claimed.
-/
theorem sampleTape_emitted :
    ∃ vaults, Tape sampleTape vaults ∧
      ∃ s, vaults (lower "0xaa") = some s ∧ s.listed = true ∧
        s.withdraws (lower "0xa1") = none ∧
        s.deposits (lower "0xc3") =
          some
            { epochId := 4
              amount := { usdgAmount := 7, stockAmount := 0 } } ∧
        s.deposits (lower "0xb2") =
          some
            { epochId := 3
              amount := { usdgAmount := 100, stockAmount := 0 } } := by
  have hZero : lower zeroAddress = zeroAddress := by
    decide +kernel
  have hHolder : lower "0xa1" ≠ zeroAddress := by
    decide +kernel
  have hOpened :=
    Tape.start.next
      (@Emits.constructed _ (sampleTape[0]) 3 900 rfl rfl (by decide))
  have hCreated :=
    hOpened.next
      (@Emits.created _ (sampleTape[1]) _ 3 rfl
        (Or.inr (Function.update_self ..)) (by decide)
        (fun _ hAnswer => by cases hAnswer))
  have hMinted :=
    hCreated.next
      (@Emits.transferred _ (sampleTape[2]) _ _ _ 5 rfl
        (Function.update_self ..) rfl (by decide) (Or.inl hZero)
        (Or.inr hHolder))
  have hEscrowed :=
    hMinted.next
      (@Emits.transferred _ (sampleTape[3]) _ _ _ 4 rfl
        (Function.update_self ..) rfl (by decide)
        (Or.inr (by decide +kernel)) (Or.inl hHolder))
  have hWithdraw :=
    hEscrowed.next
      (@Emits.withdrawRequested _ (sampleTape[4]) _ _ 4 rfl
        (Function.update_self ..) rfl
        (fun _ hOpen => by cases hOpen))
  have hDeposit :=
    hWithdraw.next
      (@Emits.depositRequested _ (sampleTape[5]) _ _ 100 0 rfl
        (Function.update_self ..) rfl
        (fun _ hOpen => by cases hOpen))
  have hRolled :=
    hDeposit.next
      (@Emits.rolled _ (sampleTape[6]) _ _ rfl
        (Function.update_self ..) rfl rfl)
  have hNext :=
    hRolled.next
      (@Emits.opened _ (sampleTape[7]) _ 4 1800 rfl
        (Function.update_self ..) rfl (Or.inl rfl))
  have hQueued :=
    hNext.next
      (@Emits.depositRequested _ (sampleTape[8]) _ _ 7 0 rfl
        (Function.update_self ..) rfl (by decide +kernel))
  have hPaid :=
    hQueued.next
      (@Emits.claimed _ (sampleTape[9]) _ _ 0 40 0 rfl
        (Function.update_self ..) rfl)
  have hUnpaid :=
    hPaid.next
      (@Emits.claimed _ (sampleTape[10]) _ _ 0 0 0 rfl
        (Function.update_self ..) rfl)
  exact
    ⟨_, hUnpaid, _, Function.update_self .., rfl,
      by decide +kernel, by decide +kernel, by decide +kernel⟩

/-
  The index takes every log without an error, and the rows
  that it shows as queued are the requests that are waiting.
-/
theorem queues_hold_open_requests
    (env : HouseEnv)
    (h : Tape logs vaults)
    (hOnce : (logIds logs).Nodup) :
    ∃ db, runHouse env emptyHouse logs = .ok db ∧
      ∀ vault account,
        queuedRequest (db.depositQueue.get? (vault, account)) =
            (vaults vault).bind (fun s => s.deposits account) ∧
          queuedRequest (db.withdrawQueue.get? (vault, account)) =
            (vaults vault).bind (fun s => s.withdraws account) := by
  rcases houseOk_run env h hOnce with ⟨db, hRun, hOk⟩
  exact ⟨db, hRun, fun vault => (hOk.vault vault).queues⟩

theorem queues_hold_open_requests_sample :
    ∃ db,
      runHouse { legacy := [], kinded := [] } emptyHouse sampleTape =
          .ok db ∧
      queuedRequest
          (db.withdrawQueue.get? (lower "0xaa", lower "0xa1")) =
        none ∧
      queuedRequest
          (db.depositQueue.get? (lower "0xaa", lower "0xc3")) =
        some
          { epochId := 4
            amount := { usdgAmount := 7, stockAmount := 0 } } ∧
      queuedRequest
          (db.depositQueue.get? (lower "0xaa", lower "0xb2")) =
        some
          { epochId := 3
            amount := { usdgAmount := 100, stockAmount := 0 } } := by
  rcases sampleTape_emitted with
    ⟨vaults, hTape, s, hVault, _, hPaid, hWaits, hUnclaimed⟩
  rcases
    queues_hold_open_requests { legacy := [], kinded := [] } hTape
      (by decide) with
    ⟨db, hRun, hQueues⟩
  refine ⟨db, hRun, ?_, ?_, ?_⟩
  · rw [(hQueues _ _).2, hVault, Option.bind_some, hPaid]
  · rw [(hQueues _ _).1, hVault, Option.bind_some, hWaits]
  · rw [(hQueues _ _).1, hVault, Option.bind_some, hUnclaimed]

/-
  A vault's balance rows are what its shares' transfers left,
  none is below zero, and its supply is what they add up to.
-/
theorem supply_is_the_balances
    (env : HouseEnv)
    (h : Tape logs vaults)
    (hOnce : (logIds logs).Nodup) :
    ∃ db, runHouse env emptyHouse logs = .ok db ∧
      ∀ vault s, vaults vault = some s → s.listed = true →
        ∃ row, db.vaults.get? vault = some row ∧
          row.sharesSupply.getD 0 =
            totalShares db.shareBalances vault ∧
          ∀ account,
            sharesOf db.shareBalances (vault, account) =
                s.shares account ∧
              0 ≤ s.shares account := by
  rcases houseOk_run env h hOnce with ⟨db, hRun, hOk⟩
  refine ⟨db, hRun, ?_⟩
  intro vault s hVault hListed
  have hMirrored := hOk.vault vault
  rw [hVault] at hMirrored
  rcases listed_mirror hMirrored hListed with ⟨row, current, hMirror⟩
  exact
    ⟨row, hMirror.stored, hMirror.total, fun account =>
      ⟨hMirror.shares account, hMirror.nonneg account⟩⟩

theorem supply_is_the_balances_sample :
    ∃ db row,
      runHouse { legacy := [], kinded := [] } emptyHouse sampleTape =
          .ok db ∧
        db.vaults.get? (lower "0xaa") = some row ∧
        row.sharesSupply.getD 0 =
          totalShares db.shareBalances (lower "0xaa") := by
  rcases sampleTape_emitted with ⟨vaults, hTape, s, hVault, hListed, _⟩
  rcases
    supply_is_the_balances { legacy := [], kinded := [] } hTape
      (by decide) with
    ⟨db, hRun, hShares⟩
  rcases hShares (lower "0xaa") s hVault hListed with
    ⟨row, hRow, hSupply, _⟩
  exact ⟨db, row, hRun, hRow, hSupply⟩

end Callhouse.Indexer.House
