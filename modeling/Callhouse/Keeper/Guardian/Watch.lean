import Mathlib
import Callhouse.Keeper.Guardian.Planner
import Callhouse.Lib.KeyedTable
import Callhouse.Lib.Transition

/-
  keeper/src/v2/guardian/watch.ts: the open set of the
  guardian's watch, what a log and a read of one expiry do to
  it, and the scan of the oracle's logs.

  Main declarations:
    * `GuardianWatch.apply`, `watchExpiry`
    * `watchExpiry_watch`, `watchExpiry_pages`
    * `OracleHistory`, `OracleHistory.last_opened`
    * `beginScan`, `isOpen_foldl_apply`
-/

----
-- Logs and the Open Set
----

namespace Callhouse.Keeper.Guardian

section

open Cranker (SettlementStatusName lc)

def reorgOverlap : Nat := 100

def minChunk : Nat := 100

inductive GuardianEventName where
  | SettlementCandidate
  | SettlementUnvetoed
  | SettlementFinalized
deriving DecidableEq

abbrev WatchKey : Type :=
  String × Int

def keyOf
    (underlying : String)
    (expiry : Int) : WatchKey :=
  (lc underlying, expiry)

structure GuardianLog where
  eventName : GuardianEventName
  underlying : String
  expiry : Int
  price : Option Int
deriving DecidableEq

def GuardianLog.key
    (log : GuardianLog) : WatchKey :=
  keyOf log.underlying log.expiry

structure OpenExpiry where
  underlying : String
  expiry : Int
deriving DecidableEq

def OpenExpiry.key
    (e : OpenExpiry) : WatchKey :=
  keyOf e.underlying e.expiry

/- `underlying` in lower case, as the map has it. -/
structure FinalizedPrice where
  underlying : String
  expiry : Int
  price : Int
deriving DecidableEq

def FinalizedPrice.key
    (f : FinalizedPrice) : WatchKey :=
  (f.underlying, f.expiry)

/- What the process keeps in memory between its ticks. -/
structure GuardianWatch where
  cursor : Option Nat
  opened : List OpenExpiry
  finalized : List FinalizedPrice
deriving DecidableEq

def GuardianWatch.fresh : GuardianWatch :=
  { cursor := none
    opened := []
    finalized := [] }

def GuardianWatch.isOpen
    (w : GuardianWatch)
    (k : WatchKey) : Prop :=
  k ∈ w.opened.map OpenExpiry.key

def GuardianWatch.knowsFinal
    (w : GuardianWatch)
    (k : WatchKey) : Prop :=
  k ∈ w.finalized.map FinalizedPrice.key

instance
    (w : GuardianWatch)
    (k : WatchKey) : Decidable (w.isOpen k) :=
  inferInstanceAs (Decidable (k ∈ w.opened.map OpenExpiry.key))

instance
    (w : GuardianWatch)
    (k : WatchKey) : Decidable (w.knowsFinal k) :=
  inferInstanceAs
    (Decidable (k ∈ w.finalized.map FinalizedPrice.key))

def GuardianWatch.close
    (w : GuardianWatch)
    (k : WatchKey) : GuardianWatch :=
  { w with opened := KeyedTable.delete OpenExpiry.key k w.opened }

/- The market's latest finalized price before an expiry. -/
def GuardianWatch.lastFinalizedBefore
    (w : GuardianWatch)
    (underlying : String)
    (expiry : Int) : Option Int :=
  let later (best : Option FinalizedPrice) (f : FinalizedPrice) :=
    match best with
    | none => true
    | some b => decide (f.expiry > b.expiry)
  (w.finalized.foldl
    (fun best f =>
      if f.underlying = lc underlying ∧ f.expiry < expiry ∧
          later best f = true then some f
      else best)
    none).map FinalizedPrice.price

def GuardianWatch.recordPrice
    (w : GuardianWatch)
    (log : GuardianLog) : List FinalizedPrice :=
  match log.price with
  | none => w.finalized
  | some price =>
      if price > 0 then
        KeyedTable.set FinalizedPrice.key w.finalized
          { underlying := lc log.underlying
            expiry := log.expiry
            price := price }
      else w.finalized

def GuardianWatch.apply
    (w : GuardianWatch)
    (log : GuardianLog) : GuardianWatch :=
  match log.eventName with
  | .SettlementFinalized =>
      { w.close log.key with finalized := w.recordPrice log }
  | _ =>
      if w.knowsFinal log.key then w
      else
        { w with
          opened :=
            KeyedTable.set OpenExpiry.key w.opened
              { underlying := log.underlying
                expiry := log.expiry } }

variable {w : GuardianWatch}

theorem isOpen_close_iff
    {k k' : WatchKey} :
    (w.close k).isOpen k' ↔ w.isOpen k' ∧ k' ≠ k :=
  KeyedTable.key_mem_delete_iff

variable {log : GuardianLog} {k : WatchKey}

theorem knowsFinal_recordPrice
    (h :
      k ∈ (w.recordPrice log).map FinalizedPrice.key) :
    w.knowsFinal k ∨ k = log.key := by
  unfold GuardianWatch.recordPrice at h
  split at h
  · exact .inl h
  · split at h
    · rcases KeyedTable.key_mem_set_iff.mp h with hNew | hOld
      · exact .inr hNew
      · exact .inl hOld
    · exact .inl h

/- A log opens its expiry unless that is known final. -/
theorem isOpen_apply_opens
    (hOpens : log.eventName ≠ .SettlementFinalized)
    (hFinal : ¬ w.knowsFinal log.key) :
    (w.apply log).isOpen log.key := by
  unfold GuardianWatch.apply
  split
  · next hName => exact absurd hName hOpens
  · rw [if_neg hFinal]
    exact KeyedTable.key_mem_set_iff.mpr (.inl rfl)

/- No log closes an expiry but its finalization. -/
theorem isOpen_apply
    (hOpen : w.isOpen k)
    (hLog :
      log.eventName = .SettlementFinalized → log.key ≠ k) :
    (w.apply log).isOpen k := by
  unfold GuardianWatch.apply
  split
  · next hName =>
      exact isOpen_close_iff.mpr ⟨hOpen, (hLog hName).symm⟩
  · split
    · exact hOpen
    · exact KeyedTable.key_mem_set_iff.mpr (.inr hOpen)

theorem knowsFinal_apply_of
    (log : GuardianLog)
    (h : w.knowsFinal k) :
    (w.apply log).knowsFinal k := by
  unfold GuardianWatch.apply
  split
  · unfold GuardianWatch.knowsFinal
    dsimp only
    unfold GuardianWatch.recordPrice
    split
    · exact h
    · split
      · exact KeyedTable.key_mem_set_iff.mpr (.inr h)
      · exact h
  · split <;> exact h

theorem knowsFinal_apply
    (h : (w.apply log).knowsFinal k) :
    w.knowsFinal k ∨
      log.eventName = .SettlementFinalized ∧ log.key = k := by
  unfold GuardianWatch.apply at h
  split at h
  · next hName =>
      rcases knowsFinal_recordPrice h with hOld | rfl
      · exact .inl hOld
      · exact .inr ⟨hName, rfl⟩
  · split at h
    · exact .inl h
    · exact .inl h

end

----
-- One Expiry
----

section

open Cranker (SettlementStatusName lc)

structure RecordedSources where
  sources : List String
  ok : List Bool
  prices : List Int
deriving DecidableEq

structure ExpiryReads where
  status : SettlementStatusName
  candidate : Option CandidateState
  recorded : RecordedSources
  sources : List String
  maxDeviationBps : Int
deriving DecidableEq

/- A confirmed transaction has the block it was mined in. -/
inductive TxOutcome where
  | alreadyAdvanced
  | inFlight
  | noOp
  | simulationReverted
  | sendFailed
  | confirmed (blockNumber : Nat)
  | reverted
  | unconfirmed
deriving DecidableEq

inductive VetoNote where
  | off
  | adminSafe
  | sent (outcome : TxOutcome)
deriving DecidableEq

inductive GuardianAlert where
  | candidate
  | scaleFault
  | staleRound
  | vetoed
  | vetoFailed
deriving DecidableEq

structure GuardianWatchOptions where
  fromBlock : Nat
  chunkBlocks : Nat
  chunksPerTick : Nat
  thresholds : GuardianThresholds
  adminSafe : Option String
deriving DecidableEq

structure Head where
  blockNumber : Nat
  timestamp : Int
deriving DecidableEq

/- What the chain and the sender answer about one expiry. -/
structure WatchAnswers where
  reads : ExpiryReads
  latest : String → Option Int
  roundAge : String → RoundAge
  outcome : TxOutcome

structure GuardianExpiryReport where
  underlying : String
  expiry : Int
  status : SettlementStatusName
  candidatePrice : Option Int
  finalizableAt : Option Int
  poolPrice : Option Int
  lastFinalizedPrice : Option Int
  roundAge : RoundAge
  plan : PlanReason
  scaleFault : Bool
  staleRound : Bool
  veto : Option VetoNote
deriving DecidableEq

structure WatchedExpiry where
  watch : GuardianWatch
  report : GuardianExpiryReport
  alerts : List GuardianAlert

/- A recorded ok price of another source, else a live one. -/
def otherSourcePrice
    (reads : ExpiryReads)
    (candidateIndex : Nat)
    (latest : String → Option Int) : Option Int :=
  let recorded :=
    (List.range reads.recorded.sources.length).filterMap
      (fun i =>
        if i ≠ candidateIndex ∧
            reads.recorded.ok.getD i false = true ∧
            reads.recorded.prices.getD i 0 > 0 then
          some (reads.recorded.prices.getD i 0)
        else none)
  let live :=
    (List.range reads.sources.length).filterMap
      (fun i =>
        if i = candidateIndex then none
        else
          (latest (reads.sources.getD i "")).filter
            (fun p => decide (p > 0)))
  recorded.head? <|> live.head?

/- After the lock the key cannot veto. -/
def GuardianWatchOptions.planThresholds
    (o : GuardianWatchOptions) : GuardianThresholds :=
  if o.adminSafe.isSome then
    { o.thresholds with autoVeto := false }
  else o.thresholds

def viewOf
    (w : GuardianWatch)
    (e : OpenExpiry)
    (head : Head)
    (a : WatchAnswers) : GuardianView :=
  let pending :=
    if a.reads.status = .Pending then a.reads.candidate else none
  { status := a.reads.status
    candidate := a.reads.candidate
    poolPrice :=
      pending.bind
        (fun c =>
          otherSourcePrice a.reads c.sourceIndex a.latest)
    lastFinalizedPrice := w.lastFinalizedBefore e.underlying e.expiry
    roundAge :=
      match
        pending.bind (fun c => a.reads.sources[c.sourceIndex]?)
        with
      | none => .none
      | some source => a.roundAge source
    maxDeviationBps := some a.reads.maxDeviationBps
    now := head.timestamp }

def reportOf
    (w : GuardianWatch)
    (e : OpenExpiry)
    (head : Head)
    (a : WatchAnswers)
    (plan : GuardianPlan) : GuardianExpiryReport :=
  { underlying := e.underlying
    expiry := e.expiry
    status := a.reads.status
    candidatePrice := a.reads.candidate.map CandidateState.price
    finalizableAt :=
      a.reads.candidate.map CandidateState.finalizableAt
    poolPrice := (viewOf w e head a).poolPrice
    lastFinalizedPrice := (viewOf w e head a).lastFinalizedPrice
    roundAge := (viewOf w e head a).roundAge
    plan := plan.reason
    scaleFault := plan.scaleFault
    staleRound := plan.staleRound
    veto := none }

/- The pages of a planned candidate, before any veto. -/
def pagesOf
    (plan : GuardianPlan) : List GuardianAlert :=
  [GuardianAlert.candidate] ++
    (if plan.scaleFault = true then [.scaleFault] else []) ++
    (if plan.staleRound = true then [.staleRound] else [])

/- What a veto that was sent to the chain leaves. -/
def vetoOutcome
    (w : GuardianWatch)
    (e : OpenExpiry)
    (report : GuardianExpiryReport)
    (pages : List GuardianAlert)
    (outcome : TxOutcome) : WatchedExpiry :=
  let report := { report with veto := some (.sent outcome) }
  match outcome with
  | .confirmed _ =>
      { watch := w.close e.key
        report := report
        alerts := pages ++ [.vetoed] }
  | .inFlight =>
      { watch := w, report := report, alerts := pages }
  | .alreadyAdvanced =>
      { watch := w, report := report, alerts := pages }
  | _ =>
      { watch := w
        report := report
        alerts := pages ++ [.vetoFailed] }

def watchExpiry
    (o : GuardianWatchOptions)
    (w : GuardianWatch)
    (e : OpenExpiry)
    (head : Head)
    (a : WatchAnswers) : WatchedExpiry :=
  let plan := planGuardian (viewOf w e head a) o.planThresholds
  let report := reportOf w e head a plan
  if a.reads.status = .Finalized ∨ a.reads.status = .Held then
    { watch := w.close e.key, report := report, alerts := [] }
  else if plan.page = false ∨ a.reads.candidate = none then
    { watch := w, report := report, alerts := [] }
  else if
      (plan.scaleFault ||
        (plan.staleRound && plan.poolDisagrees)) = false then
    { watch := w, report := report, alerts := pagesOf plan }
  else if plan.veto = false then
    { watch := w
      report :=
        { report with
          veto :=
            some
              (if o.adminSafe.isSome then .adminSafe else .off) }
      alerts := pagesOf plan }
  else vetoOutcome w e report (pagesOf plan) a.outcome

/- The block at which a report's expiry was seen to be closed. -/
def GuardianExpiryReport.closedAt
    (report : GuardianExpiryReport)
    (head : Head) : Option Nat :=
  if report.status = .Finalized ∨ report.status = .Held then
    some head.blockNumber
  else
    match report.veto with
    | some (.sent (.confirmed blockNumber)) => some blockNumber
    | _ => none

theorem watchExpiry_status
    (o : GuardianWatchOptions)
    (w : GuardianWatch)
    (e : OpenExpiry)
    (head : Head)
    (a : WatchAnswers) :
    (watchExpiry o w e head a).report.status =
      a.reads.status := by
  unfold watchExpiry vetoOutcome
  dsimp only
  split
  · rfl
  · split
    · rfl
    · split
      · rfl
      · split
        · rfl
        · split <;> rfl

theorem watchExpiry_key
    (o : GuardianWatchOptions)
    (w : GuardianWatch)
    (e : OpenExpiry)
    (head : Head)
    (a : WatchAnswers) :
    keyOf (watchExpiry o w e head a).report.underlying
        (watchExpiry o w e head a).report.expiry =
      e.key := by
  unfold watchExpiry vetoOutcome
  dsimp only
  split
  · rfl
  · split
    · rfl
    · split
      · rfl
      · split
        · rfl
        · split <;> rfl

/-
  An expiry leaves the open set when its report says where it
  was seen closed, and only then.
-/
theorem watchExpiry_watch
    (o : GuardianWatchOptions)
    (w : GuardianWatch)
    (e : OpenExpiry)
    (head : Head)
    (a : WatchAnswers) :
    (watchExpiry o w e head a).watch =
      if ((watchExpiry o w e head a).report.closedAt
          head).isSome then w.close e.key
      else w := by
  unfold GuardianExpiryReport.closedAt
  rw [watchExpiry_status]
  by_cases hClosed :
      a.reads.status = .Finalized ∨ a.reads.status = .Held
  · rw [if_pos hClosed, Option.isSome_some, if_pos rfl]
    unfold watchExpiry
    dsimp only
    rw [if_pos hClosed]
  · rw [if_neg hClosed]
    unfold watchExpiry vetoOutcome
    dsimp only
    rw [if_neg hClosed]
    split
    · rfl
    · split
      · rfl
      · split
        · split <;> rfl
        · cases a.outcome <;> rfl

theorem watchExpiry_outcome
    {o : GuardianWatchOptions}
    {w : GuardianWatch}
    {e : OpenExpiry}
    {head : Head}
    {a : WatchAnswers}
    {outcome : TxOutcome}
    (h :
      (watchExpiry o w e head a).report.veto =
        some (.sent outcome)) :
    a.outcome = outcome := by
  unfold watchExpiry vetoOutcome at h
  dsimp only at h
  split at h
  · cases h
  · split at h
    · cases h
    · split at h
      · cases h
      · split at h
        · split at h <;> cases h
        · split at h <;> cases h <;> rfl

/- A pending candidate that is read is paged. -/
theorem watchExpiry_pages
    {o : GuardianWatchOptions}
    {w : GuardianWatch}
    {e : OpenExpiry}
    {head : Head}
    {a : WatchAnswers}
    {c : CandidateState}
    (hStatus : a.reads.status = .Pending)
    (hCandidate : a.reads.candidate = some c)
    (hPrice : 0 < c.price) :
    GuardianAlert.candidate ∈
      (watchExpiry o w e head a).alerts := by
  have hPage :
      (planGuardian (viewOf w e head a) o.planThresholds).page =
        true :=
    planGuardian_page_iff.mpr ⟨hStatus, c, hCandidate, hPrice⟩
  have hIn : ∀ plan, GuardianAlert.candidate ∈ pagesOf plan := by
    intro plan
    unfold pagesOf
    simp
  unfold watchExpiry vetoOutcome
  dsimp only
  rw [hStatus, hCandidate, hPage]
  split
  · next h => rcases h with h | h <;> cases h
  · split
    · next h => rcases h with h | h <;> cases h
    · split
      · exact hIn _
      · split
        · exact hIn _
        · split
          · exact List.mem_append_left _ (hIn _)
          · exact hIn _
          · exact hIn _
          · exact List.mem_append_left _ (hIn _)

end

----
-- The Oracle and the Scan
----

open Cranker (SettlementStatusName lc)

def GuardianLog.Opens
    (log : GuardianLog)
    (k : WatchKey) : Prop :=
  log.eventName ≠ .SettlementFinalized ∧ log.key = k

def GuardianLog.Finalizes
    (log : GuardianLog)
    (k : WatchKey) : Prop :=
  log.eventName = .SettlementFinalized ∧ log.key = k

/-
  The SettlementOracle, whose contract is not here: its logs in
  every block, and the status of every expiry after it. It
  turns Pending with a candidate or an unveto only, and a
  finalization is final.
-/
structure OracleHistory where
  deployBlock : Nat
  logs : Nat → List GuardianLog
  status : WatchKey → Nat → SettlementStatusName
  before : ∀ b, b < deployBlock → logs b = []
  opened :
    ∀ k b, status k b = .Pending →
      (∃ log ∈ logs b, log.Opens k) ∨
        ∃ b', b = b' + 1 ∧ status k b' = .Pending
  final :
    ∀ k b, (∃ log ∈ logs b, log.Finalizes k) →
      ∀ b', b ≤ b' → status k b' = .Finalized

/- A candidate or an unveto of the expiry in that block. -/
def OracleHistory.Opens
    (H : OracleHistory)
    (k : WatchKey)
    (block : Nat) : Prop :=
  ∃ log ∈ H.logs block, log.Opens k

def OracleHistory.Finalizes
    (H : OracleHistory)
    (k : WatchKey)
    (block : Nat) : Prop :=
  ∃ log ∈ H.logs block, log.Finalizes k

variable {k : WatchKey}

/- What made a pending expiry pending, and has kept it so. -/
theorem OracleHistory.last_opened
    (H : OracleHistory)
    {c : Nat}
    (hPending : H.status k c = .Pending) :
    ∃ u, u ≤ c ∧ H.Opens k u ∧
      (∀ b, u ≤ b → b ≤ c → H.status k b = .Pending) ∧
      ∀ u', u < u' → u' ≤ c → ¬ H.Opens k u' := by
  induction c with
  | zero =>
      rcases H.opened k 0 hPending with hOpens | ⟨b', hb', _⟩
      · refine ⟨0, le_refl 0, hOpens, ?_, ?_⟩
        · intro b _ hb
          rw [Nat.le_zero.mp hb]
          exact hPending
        · intro u' hu' hLe
          omega
      · omega
  | succ c ih =>
      by_cases hNow : H.Opens k (c + 1)
      · refine ⟨c + 1, le_refl _, hNow, ?_, ?_⟩
        · intro b hb hLe
          rw [show b = c + 1 by omega]
          exact hPending
        · intro u' hu' hLe
          omega
      · rcases H.opened k (c + 1) hPending with hOpens | hBefore
        · exact absurd hOpens hNow
        · rcases hBefore with ⟨c', hc', hc⟩
          cases hc'
          rcases ih hc with ⟨u, hu, hOpens, hKept, hLast⟩
          refine ⟨u, by omega, hOpens, ?_, ?_⟩
          · intro b hb hLe
            rcases Nat.lt_or_ge c b with hTop | hIn
            · rw [show b = c + 1 by omega]
              exact hPending
            · exact hKept b hb hIn
          · intro u' hu' hLe
            rcases Nat.lt_or_ge c u' with hTop | hIn
            · rw [show u' = c + 1 by omega]
              exact hNow
            · exact hLast u' hu' hIn

def getLogs
    (H : OracleHistory)
    (fromBlock toBlock : Nat) : List GuardianLog :=
  (List.range (toBlock + 1 - fromBlock)).flatMap
    (fun i => H.logs (fromBlock + i))

theorem mem_getLogs_iff
    {H : OracleHistory}
    {fromBlock toBlock : Nat}
    {log : GuardianLog} :
    log ∈ getLogs H fromBlock toBlock ↔
      ∃ b, fromBlock ≤ b ∧ b ≤ toBlock ∧ log ∈ H.logs b := by
  unfold getLogs
  simp only [List.mem_flatMap, List.mem_range]
  constructor
  · rintro ⟨i, hi, hLog⟩
    exact ⟨fromBlock + i, by omega, by omega, hLog⟩
  · rintro ⟨b, hFrom, hTo, hLog⟩
    refine ⟨b - fromBlock, by omega, ?_⟩
    rw [Nat.add_sub_cancel' hFrom]
    exact hLog

/- The variables of `scan`, between two of its awaits. -/
structure LogScan where
  start : Nat
  chunk : Nat
  logHead : Nat
  i : Nat
  last : Option Nat
deriving DecidableEq

/- A start below block 0 would be below `fromBlock` as well. -/
def scanStart
    (o : GuardianWatchOptions)
    (cursor : Option Nat) : Nat :=
  let start :=
    match cursor with
    | none => o.fromBlock
    | some cursor => cursor + 1 - reorgOverlap
  if start < o.fromBlock then o.fromBlock else start

def beginScan
    (o : GuardianWatchOptions)
    (cursor : Option Nat)
    (logHead : Nat) : LogScan :=
  { start := scanStart o cursor
    chunk := o.chunkBlocks
    logHead := logHead
    i := 0
    last := none }

def LogScan.more
    (o : GuardianWatchOptions)
    (scan : LogScan) : Bool :=
  decide (scan.i < o.chunksPerTick) &&
    decide (scan.start ≤ scan.logHead)

/- The last block of the next range. -/
def LogScan.toBlock
    (scan : LogScan) : Nat :=
  if scan.start + scan.chunk - 1 > scan.logHead then
    scan.logHead
  else scan.start + scan.chunk - 1

def LogScan.scanned
    (scan : LogScan) : LogScan :=
  { scan with
    start := scan.toBlock + 1
    i := scan.i + 1
    last := some scan.toBlock }

def LogScan.halved
    (scan : LogScan) : LogScan :=
  { scan with
    chunk :=
      if scan.chunk / 2 < minChunk then minChunk
      else scan.chunk / 2 }

def GuardianWatch.scanned
    (w : GuardianWatch)
    (logs : List GuardianLog)
    (toBlock : Nat) : GuardianWatch :=
  { logs.foldl GuardianWatch.apply w with
    cursor := some toBlock }

/- No scan loops forever. -/
inductive LogScan.Next
    (o : GuardianWatchOptions) : LogScan → LogScan → Prop where
  | scanned
      (scan : LogScan)
      (hMore : scan.more o = true) :
      LogScan.Next o scan scan.scanned
  | halved
      (scan : LogScan)
      (hMore : scan.more o = true)
      (hChunk : minChunk < scan.chunk) :
      LogScan.Next o scan scan.halved

/-
  Applying a range: a log that opens leaves its expiry open or
  known final, and nothing but a finalization closes one.
-/
theorem isOpen_foldl_apply
    {logs : List GuardianLog}
    {w : GuardianWatch}
    (h :
      w.isOpen k ∨ w.knowsFinal k ∨
        ∃ log ∈ logs, log.Opens k) :
    (logs.foldl GuardianWatch.apply w).isOpen k ∨
      w.knowsFinal k ∨ ∃ log ∈ logs, log.Finalizes k := by
  induction logs generalizing w with
  | nil =>
      rcases h with h | h | ⟨log, hLog, _⟩
      · exact .inl h
      · exact .inr (.inl h)
      · cases hLog
  | cons log rest ih =>
      rw [List.foldl_cons]
      by_cases hFinalizes : log.Finalizes k
      · exact .inr (.inr ⟨log, List.mem_cons_self, hFinalizes⟩)
      · have hNext :
            (w.apply log).isOpen k ∨
              (w.apply log).knowsFinal k ∨
              ∃ log ∈ rest, log.Opens k := by
          rcases h with hOpen | hFinal | ⟨l, hl, hOpens⟩
          · left
            apply isOpen_apply hOpen
            exact fun hName hKey => hFinalizes ⟨hName, hKey⟩
          · exact .inr (.inl (knowsFinal_apply_of log hFinal))
          · rcases List.mem_cons.mp hl with rfl | hRest
            · by_cases hFinal : w.knowsFinal k
              · exact .inr (.inl (knowsFinal_apply_of l hFinal))
              · left
                rcases hOpens with ⟨hName, rfl⟩
                exact isOpen_apply_opens hName hFinal
            · exact .inr (.inr ⟨l, hRest, hOpens⟩)
        rcases ih hNext with hOpen | hFinal | ⟨l, hl, hFin⟩
        · exact .inl hOpen
        · rcases knowsFinal_apply hFinal with hOld | hNew
          · exact .inr (.inl hOld)
          · exact absurd hNew hFinalizes
        · exact .inr (.inr ⟨l, List.mem_cons_of_mem _ hl, hFin⟩)

theorem knowsFinal_foldl_apply
    {logs : List GuardianLog}
    {w : GuardianWatch}
    (h : (logs.foldl GuardianWatch.apply w).knowsFinal k) :
    w.knowsFinal k ∨ ∃ log ∈ logs, log.Finalizes k := by
  induction logs generalizing w with
  | nil => exact .inl h
  | cons log rest ih =>
      rw [List.foldl_cons] at h
      rcases ih h with hNow | ⟨l, hl, hFin⟩
      · rcases knowsFinal_apply hNow with hOld | hNew
        · exact .inl hOld
        · exact .inr ⟨log, List.mem_cons_self, hNew⟩
      · exact .inr ⟨l, List.mem_cons_of_mem _ hl, hFin⟩

end Callhouse.Keeper.Guardian
