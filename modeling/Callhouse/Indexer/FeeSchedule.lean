import Callhouse.Lib.ScheduledValue

/-
  indexer/lib/v2/fees.ts: the order book's fee schedule as the
  indexer folds it from the log, in columns, and what is in
  effect at a time.  A thrown error is its message.

  Main declarations:
    * `effectiveFees`, `scheduleFees`
    * `feeStateFromRow`, `feeStateColumns`
    * `scheduledFeeColumns`, `foldScheduled`
    * `feeStateFromRow_feeStateColumns`
    * `effectiveFees_eq_inForce`
-/

----
-- Fees and States
----

namespace Callhouse.Indexer

structure OrderBookFees where
  premiumFeeBps : Int
  resaleFeeBps : Int
  takerFeeFlat : Int
  takerFeeCapBps : Int
  makerRebateBps : Int
deriving DecidableEq

structure FeeSchedule where
  fees : OrderBookFees
  effectiveAt : Int
deriving DecidableEq

structure FeeState where
  active : OrderBookFees
  pending : Option FeeSchedule
deriving DecidableEq

/- FeeParamsScheduled.params, in the widths of the event. -/
structure FeeParamsLog where
  premiumFeeBps : UInt16
  resaleFeeBps : UInt16
  takerFeeFlat : UInt32
  takerFeeCapBps : UInt16
  makerRebateBps : UInt16
deriving DecidableEq

def feesFromLog
    (params : FeeParamsLog) : OrderBookFees :=
  { premiumFeeBps := params.premiumFeeBps.toNat
    resaleFeeBps := params.resaleFeeBps.toNat
    takerFeeFlat := params.takerFeeFlat.toNat
    takerFeeCapBps := params.takerFeeCapBps.toNat
    makerRebateBps := params.makerRebateBps.toNat }

/- A change takes effect without an event. -/
def effectiveFees
    (state : FeeState)
    (time : Int) : OrderBookFees :=
  match state.pending with
  | some pending =>
      if time ≥ pending.effectiveAt then pending.fees
      else state.active
  | none => state.active

def scheduleFees
    (state : FeeState)
    (fees : OrderBookFees)
    (effectiveAt scheduledAt : Int) : Except String FeeState :=
  if effectiveAt ≤ scheduledAt then
    .error "fee effectiveAt must follow its scheduling block"
  else
    .ok
      { active := effectiveFees state scheduledAt
        pending :=
          some { fees := fees, effectiveAt := effectiveAt } }

----
-- Columns
----

/- The fee columns of `v2_order_book_state`. -/
structure StoredFeeState where
  premiumFeeBps : Option Int
  resaleFeeBps : Option Int
  takerFeeFlat : Option Int
  takerFeeCapBps : Option Int
  makerRebateBps : Option Int
  pendingPremiumFeeBps : Option Int
  pendingResaleFeeBps : Option Int
  pendingTakerFeeFlat : Option Int
  pendingTakerFeeCapBps : Option Int
  pendingMakerRebateBps : Option Int
  pendingEffectiveAt : Option Int
deriving DecidableEq

/- The pending fees of a row, if none of them is missing. -/
def StoredFeeState.pendingFees
    (row : StoredFeeState) : Option OrderBookFees := do
  let premiumFeeBps ← row.pendingPremiumFeeBps
  let resaleFeeBps ← row.pendingResaleFeeBps
  let takerFeeFlat ← row.pendingTakerFeeFlat
  let takerFeeCapBps ← row.pendingTakerFeeCapBps
  let makerRebateBps ← row.pendingMakerRebateBps
  some
    { premiumFeeBps := premiumFeeBps
      resaleFeeBps := resaleFeeBps
      takerFeeFlat := takerFeeFlat
      takerFeeCapBps := takerFeeCapBps
      makerRebateBps := makerRebateBps }

/- Absent constructor logs fall back to the registry. -/
def feeStateFromRow
    (row : Option StoredFeeState)
    (defaults : OrderBookFees) : Except String FeeState :=
  match row with
  | none => .ok { active := defaults, pending := none }
  | some row =>
      let active : OrderBookFees :=
        { premiumFeeBps :=
            row.premiumFeeBps.getD defaults.premiumFeeBps
          resaleFeeBps :=
            row.resaleFeeBps.getD defaults.resaleFeeBps
          takerFeeFlat :=
            row.takerFeeFlat.getD defaults.takerFeeFlat
          takerFeeCapBps :=
            row.takerFeeCapBps.getD defaults.takerFeeCapBps
          makerRebateBps :=
            row.makerRebateBps.getD defaults.makerRebateBps }
      match row.pendingEffectiveAt with
      | none => .ok { active := active, pending := none }
      | some effectiveAt =>
          match row.pendingFees with
          | none => .error "incomplete scheduled OrderBook fees"
          | some fees =>
              .ok
                { active := active
                  pending :=
                    some
                      { fees := fees
                        effectiveAt := effectiveAt } }

def feeStateColumns
    (state : FeeState) : StoredFeeState :=
  let pending := state.pending.map (fun p => p.fees)
  { premiumFeeBps := some state.active.premiumFeeBps
    resaleFeeBps := some state.active.resaleFeeBps
    takerFeeFlat := some state.active.takerFeeFlat
    takerFeeCapBps := some state.active.takerFeeCapBps
    makerRebateBps := some state.active.makerRebateBps
    pendingPremiumFeeBps := pending.map (fun p => p.premiumFeeBps)
    pendingResaleFeeBps := pending.map (fun p => p.resaleFeeBps)
    pendingTakerFeeFlat := pending.map (fun p => p.takerFeeFlat)
    pendingTakerFeeCapBps :=
      pending.map (fun p => p.takerFeeCapBps)
    pendingMakerRebateBps :=
      pending.map (fun p => p.makerRebateBps)
    pendingEffectiveAt :=
      state.pending.map (fun p => p.effectiveAt) }

def scheduledFeeColumns
    (row : Option StoredFeeState)
    (defaults : OrderBookFees)
    (params : FeeParamsLog)
    (effectiveAt scheduledAt : Int) :
    Except String StoredFeeState := do
  let state ← feeStateFromRow row defaults
  let next ←
    scheduleFees state (feesFromLog params) effectiveAt
      scheduledAt
  return feeStateColumns next

/- A FeeParamsScheduled log; its block's time schedules it. -/
structure ScheduledLog where
  params : FeeParamsLog
  effectiveAt : Int
  scheduledAt : Int
deriving DecidableEq

/- orderBook.ts: each log reads the row and writes it again. -/
def foldScheduled
    (defaults : OrderBookFees)
    (row : Option StoredFeeState)
    (logs : List ScheduledLog) :
    Except String (Option StoredFeeState) :=
  logs.foldlM
    (fun row log => do
      let columns ←
        scheduledFeeColumns row defaults log.params
          log.effectiveAt log.scheduledAt
      return some columns)
    row

theorem feeStateFromRow_feeStateColumns
    (state : FeeState)
    (defaults : OrderBookFees) :
    feeStateFromRow (some (feeStateColumns state)) defaults =
      .ok state := by
  rcases state with ⟨active, _ | pending⟩
  · rfl
  · rfl

----
-- The Schedule the Columns Stand For
----

def ScheduledLog.change
    (log : ScheduledLog) :
    ScheduledValue.Change OrderBookFees :=
  { value := feesFromLog log.params
    effective := log.effectiveAt
    scheduled := log.scheduledAt }

/- The pair of a current and a pending value. -/
def FeeState.pair
    (state : FeeState) : ScheduledValue.State OrderBookFees :=
  { active := state.active
    pending :=
      state.pending.map (fun p => (p.fees, p.effectiveAt)) }

theorem effectiveFees_eq_valueAt
    (state : FeeState)
    (time : Int) :
    effectiveFees state time = state.pair.valueAt time := by
  rcases state with ⟨active, _ | pending⟩
  · rfl
  · rfl

/- One log: the columns written stand for the changed pair. -/
theorem scheduledFeeColumns_pair
    {row : Option StoredFeeState}
    {defaults : OrderBookFees}
    {state : FeeState}
    (hRow : feeStateFromRow row defaults = .ok state)
    {log : ScheduledLog}
    (hLate : log.scheduledAt < log.effectiveAt) :
    ∃ next,
      scheduledFeeColumns row defaults log.params
          log.effectiveAt log.scheduledAt =
        .ok (feeStateColumns next) ∧
        next.pair = state.pair.schedule log.change := by
  have hNot : ¬ log.effectiveAt ≤ log.scheduledAt := by omega
  refine
    ⟨{ active := effectiveFees state log.scheduledAt
       pending :=
         some
           { fees := feesFromLog log.params
             effectiveAt := log.effectiveAt } }, ?_, ?_⟩
  · unfold scheduledFeeColumns
    rw [hRow]
    exact congrArg (Except.map feeStateColumns) (if_neg hNot)
  · unfold FeeState.pair ScheduledValue.State.schedule
    rw [effectiveFees_eq_valueAt]
    rfl

/- Any sequence of logs, from any row. -/
theorem foldScheduled_pair
    {defaults : OrderBookFees}
    {logs : List ScheduledLog}
    (hLate : ∀ log ∈ logs, log.scheduledAt < log.effectiveAt)
    (row : Option StoredFeeState)
    {state : FeeState}
    (hRow : feeStateFromRow row defaults = .ok state) :
    ∃ row' next,
      foldScheduled defaults row logs = .ok row' ∧
        feeStateFromRow row' defaults = .ok next ∧
          next.pair =
            (logs.map ScheduledLog.change).foldl
              ScheduledValue.State.schedule state.pair := by
  induction logs generalizing row state with
  | nil => exact ⟨row, state, rfl, hRow, rfl⟩
  | cons log rest ih =>
      rcases scheduledFeeColumns_pair hRow
          (hLate log List.mem_cons_self) with
        ⟨next, hColumns, hPair⟩
      rcases ih
          (fun l hl => hLate l (List.mem_cons_of_mem _ hl))
          _ (feeStateFromRow_feeStateColumns next defaults) with
        ⟨row', last, hFold, hLast, hRun⟩
      refine ⟨row', last, ?_, hLast, ?_⟩
      · unfold foldScheduled at *
        rw [List.foldlM_cons, hColumns]
        exact hFold
      · rw [hRun, hPair]
        rfl

/- Logs in the order of their blocks, each due later. -/
structure WellScheduled
    (logs : List ScheduledLog) : Prop where
  ordered :
    logs.Pairwise (fun a b => a.scheduledAt ≤ b.scheduledAt)
  late : ∀ log ∈ logs, log.scheduledAt < log.effectiveAt

/-
  The fees in effect after any sequence of logs are those of
  the latest change that was due and never replaced; columns
  lose nothing of a state.
-/
theorem effectiveFees_eq_inForce
    (defaults : OrderBookFees)
    (logs : List ScheduledLog)
    (hLogs : WellScheduled logs)
    (time : Int)
    (hTime : ∀ log ∈ logs, log.scheduledAt ≤ time) :
    (∃ row state,
      foldScheduled defaults none logs = .ok row ∧
        feeStateFromRow row defaults = .ok state ∧
          effectiveFees state time =
            ScheduledValue.inForce defaults
              (logs.map ScheduledLog.change) time) ∧
      ∀ (state : FeeState) (others : OrderBookFees),
        feeStateFromRow (some (feeStateColumns state)) others =
          .ok state := by
  refine ⟨?_, feeStateFromRow_feeStateColumns⟩
  rcases foldScheduled_pair hLogs.late none rfl with
    ⟨row, state, hFold, hRow, hPair⟩
  refine ⟨row, state, hFold, hRow, ?_⟩
  have hOrder :
      ScheduledValue.Ordered
        (logs.map ScheduledLog.change) :=
    List.pairwise_map.mpr hLogs.ordered
  have hBefore :
      ∀ c ∈ logs.map ScheduledLog.change,
        c.scheduled ≤ time := by
    intro c hc
    rcases List.mem_map.mp hc with ⟨log, hLog, rfl⟩
    exact hTime log hLog
  rw [effectiveFees_eq_valueAt, hPair,
    ← ScheduledValue.valueAt_run defaults hOrder hBefore]
  rfl

def bpsLog
    (bps : UInt16)
    (scheduledAt effectiveAt : Int) : ScheduledLog :=
  { params :=
      { premiumFeeBps := bps
        resaleFeeBps := bps
        takerFeeFlat := 0
        takerFeeCapBps := 0
        makerRebateBps := 0 }
    effectiveAt := effectiveAt
    scheduledAt := scheduledAt }

/- The second replaces the first; the third comes as it is due. -/
def threeLogs : List ScheduledLog :=
  [bpsLog 1 0 10, bpsLog 2 5 15, bpsLog 3 15 30]

theorem second_change_in_force :
    ∃ row state,
      foldScheduled (feesFromLog (bpsLog 9 0 1).params) none
          threeLogs = .ok row ∧
        feeStateFromRow row
            (feesFromLog (bpsLog 9 0 1).params) = .ok state ∧
          effectiveFees state 20 =
            feesFromLog (bpsLog 2 5 15).params := by
  have hLogs : WellScheduled threeLogs :=
    { ordered := by decide
      late := by decide }
  have hInForce :
      ScheduledValue.inForce
          (feesFromLog (bpsLog 9 0 1).params)
          (threeLogs.map ScheduledLog.change) 20 =
        feesFromLog (bpsLog 2 5 15).params := by
    decide +kernel
  rw [← hInForce]
  exact
    (effectiveFees_eq_inForce
      (feesFromLog (bpsLog 9 0 1).params) threeLogs hLogs 20
      (by decide)).1

end Callhouse.Indexer
