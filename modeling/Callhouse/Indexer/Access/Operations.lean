import Callhouse.Indexer.Access.Handlers
import Callhouse.Lib.LastWhere
import Mathlib.Data.String.Basic
import Mathlib.Data.Prod.Lex

/-
  indexer/src/api/v2/admin.ts: the pending operations that the
  configuration reports, against the AccessManager's logs in
  whatever order schedules and terminal logs have come.

  Main declarations:
    * `loadPendingOperations`
    * `OperationOk`
    * `operationOk_runLogs`, `mappedRole_runLogs`
    * `pending_operations_are_shown`
-/

----
-- The Notice
----

namespace Callhouse.Indexer.Access

open Projection (LogMeta)

structure OperationWire where
  key : String
  id : String
  role : String
  target : String
  selector : Option String
  label : String
  caller : String
  scheduledAt : Int
  readyAt : Int
deriving DecidableEq

/- COMPLETE_OPERATION is that the schedule has been seen. -/
def operationWire
    (key : String)
    (row : OperationRow) : Option OperationWire :=
  row.schedule.map (fun schedule =>
    { key := key
      id := row.opId
      role := schedule.roleName
      target := schedule.target
      selector := schedule.selector
      label := schedule.annotated.label
      caller := schedule.caller
      scheduledAt := schedule.log.timestamp
      readyAt := schedule.readyAt })

def IsOpen
    (indexedAt : Int)
    (row : OperationRow) : Prop :=
  row.status = .pending ∧
    ∃ schedule ∈ row.schedule, indexedAt < schedule.expiresAt

instance
    (indexedAt : Int)
    (row : OperationRow) :
    Decidable (IsOpen indexedAt row) :=
  inferInstanceAs (Decidable (_ ∧ _))

/- By the time they are ready, then by key. -/
def OperationWire.place
    (item : OperationWire) : Int ×ₗ String :=
  toLex (item.readyAt, item.key)

def loadPendingOperations
    (db : AccessDb)
    (indexedAt : Int) : List OperationWire :=
  ((db.operations.entries.filter
    (fun entry => decide (IsOpen indexedAt entry.2))).filterMap
      (fun entry => operationWire entry.1 entry.2)).mergeSort
        (fun first second => decide (first.place ≤ second.place))

----
-- The Logs of One Operation
----

section

def AccessLog.schedules
    (key : String)
    (entry : AccessLog) : Bool :=
  match entry.event with
  | .operationScheduled args => args.key = key
  | _ => false

def AccessLog.finishes
    (key : String)
    (entry : AccessLog) : Bool :=
  match entry.event with
  | .operationExecuted operationId nonce =>
      operationKey operationId nonce = key
  | .operationCanceled operationId nonce =>
      operationKey operationId nonce = key
  | _ => false

variable {logs : List AccessLog} {entry : AccessLog}
variable {m : AccessManifest} {key : String}

/- What is kept of an operation, whatever order its logs came in. -/
structure OperationOk
    (m : AccessManifest)
    (logs : List AccessLog)
    (key : String)
    (found : Option OperationRow) : Prop where
  absent :
    found = none →
      ∀ entry ∈ logs, entry.schedules key = false
  status :
    ∀ row, found = some row →
      (row.status = .pending ↔
        ∀ entry ∈ logs, entry.finishes key = false)
  unseen :
    ∀ row, found = some row →
      (row.schedule = none ↔
        ∀ entry ∈ logs, entry.schedules key = false)
  schedule :
    ∀ before args log row,
      LastWhere (AccessLog.schedules key) logs before
          { event := .operationScheduled args, log := log } →
        found = some row →
          row.opId = lower args.operationId ∧
            row.schedule =
              some (scheduleOf m (runLogs m .empty before) args log)
  untouched :
    found = none →
      ∀ entry ∈ logs, entry.finishes key = false

theorem operationOk_nil :
    OperationOk m [] key none := by
  constructor
  · intro _ entry hIn
    cases hIn
  · intro row hRow
    cases hRow
  · intro row hRow
    cases hRow
  · intro before args log row _ hRow
    cases hRow
  · intro _ entry hIn
    cases hIn

theorem forall_concat
    {P : AccessLog → Prop} :
    (∀ e ∈ logs ++ [entry], P e) ↔ (∀ e ∈ logs, P e) ∧ P entry := by
  simp [or_imp, forall_and]

variable {found : Option OperationRow}

section

variable (h : OperationOk m logs key found)
include h

/- A log of something else changes nothing of it. -/
theorem OperationOk.skip
    (hSchedules : entry.schedules key = false)
    (hFinishes : entry.finishes key = false) :
    OperationOk m (logs ++ [entry]) key found := by
  constructor
  · intro hNone
    exact forall_concat.mpr ⟨h.absent hNone, hSchedules⟩
  · intro row hRow
    rw [h.status row hRow, forall_concat]
    exact ⟨fun hAll => ⟨hAll, hFinishes⟩, fun hAll => hAll.1⟩
  · intro row hRow
    rw [h.unseen row hRow, forall_concat]
    exact ⟨fun hAll => ⟨hAll, hSchedules⟩, fun hAll => hAll.1⟩
  · intro before args log row hLast hRow
    exact
      h.schedule before args log row
        ((LastWhere.concat_of_false hSchedules).mp hLast) hRow
  · intro hNone
    exact forall_concat.mpr ⟨h.untouched hNone, hFinishes⟩

/- A schedule fills its columns in and leaves the status. -/
theorem OperationOk.scheduled
    {args : OperationScheduled}
    {log : LogMeta}
    (hEntry : entry = ⟨.operationScheduled args, log⟩)
    (hKey : args.key = key)
    {row : OperationRow}
    (hOpId : row.opId = lower args.operationId)
    (hSchedule :
      row.schedule =
        some (scheduleOf m (runLogs m .empty logs) args log))
    (hStatus :
      row.status = (found.map (fun old => old.status)).getD .pending) :
    OperationOk m (logs ++ [entry]) key (some row) := by
  subst hEntry
  have hSchedules :
      AccessLog.schedules key ⟨.operationScheduled args, log⟩ =
        true :=
    decide_eq_true hKey
  constructor
  · exact fun hNone => by cases hNone
  · intro row' hRow
    cases hRow
    rw [hStatus, forall_concat]
    cases found with
    | none =>
        constructor
        · exact fun _ => ⟨h.untouched rfl, rfl⟩
        · exact fun _ => rfl
    | some old =>
        refine (h.status old rfl).trans ?_
        exact ⟨fun hAll => ⟨hAll, rfl⟩, fun hAll => hAll.1⟩
  · intro row' hRow
    cases hRow
    rw [hSchedule]
    constructor
    · exact fun hNone => by cases hNone
    · intro hAll
      rw [(forall_concat.mp hAll).2] at hSchedules
      cases hSchedules
  · intro before args' log' row' hLast hRow
    cases hRow
    rcases (LastWhere.concat_of_true hSchedules).mp hLast with
      ⟨rfl, hSame⟩
    cases hSame
    exact ⟨hOpId, hSchedule⟩
  · exact fun hNone => by cases hNone

/- A terminal log settles the status and leaves the rest. -/
theorem OperationOk.finished
    (hSchedules : entry.schedules key = false)
    (hFinishes : entry.finishes key = true)
    {row : OperationRow}
    (hStatus : row.status ≠ .pending)
    (hSchedule :
      row.schedule = found.bind (fun old => old.schedule))
    (hOpId : ∀ old, found = some old → row.opId = old.opId) :
    OperationOk m (logs ++ [entry]) key (some row) := by
  constructor
  · exact fun hNone => by cases hNone
  · intro row' hRow
    cases hRow
    constructor
    · exact fun hPending => absurd hPending hStatus
    · intro hAll
      rw [(forall_concat.mp hAll).2] at hFinishes
      cases hFinishes
  · intro row' hRow
    cases hRow
    rw [hSchedule, forall_concat]
    cases found with
    | none =>
        exact ⟨fun _ => ⟨h.absent rfl, hSchedules⟩, fun _ => rfl⟩
    | some old =>
        refine (h.unseen old rfl).trans ?_
        exact ⟨fun hAll => ⟨hAll, hSchedules⟩, fun hAll => hAll.1⟩
  · intro before args log row' hLast hRow
    cases hRow
    have hBefore := (LastWhere.concat_of_false hSchedules).mp hLast
    cases found with
    | none =>
        have hSome := hBefore.mem
        rw [h.absent rfl _ hSome.1] at hSome
        cases hSome.2
    | some old =>
        have hOld := h.schedule before args log old hBefore rfl
        rw [hSchedule, hOpId old rfl]
        exact hOld
  · exact fun hNone => by cases hNone

end

end

----
-- Every Run Keeps the Operations
----

section

open RowHistory

variable {m : AccessManifest} {logs : List AccessLog}
variable {key : String}

theorem operationOk_scheduled
    {db : AccessDb}
    (h : OperationOk m logs key (db.operations.get? key))
    (hDb : db = runLogs m .empty logs)
    (args : OperationScheduled)
    (log : LogMeta) :
    OperationOk m (logs ++ [⟨.operationScheduled args, log⟩]) key
      ((operationScheduled m db args log).operations.get? key) := by
  unfold operationScheduled
  dsimp only
  rw [get?_write]
  by_cases hKey : args.key = key
  · rw [if_pos hKey]
    cases hFound : db.operations.get? key with
    | none =>
        rw [hFound] at h
        exact h.scheduled rfl hKey rfl (by rw [hDb]) rfl
    | some row =>
        rw [hFound] at h
        exact h.scheduled rfl hKey rfl (by rw [hDb]) rfl
  · rw [if_neg hKey]
    exact h.skip (decide_eq_false hKey) rfl

theorem operationOk_finished
    {db : AccessDb}
    {entry : AccessLog}
    {rawId : String}
    {nonce : Int}
    {status : OperationStatus}
    (h : OperationOk m logs key (db.operations.get? key))
    (hSchedules : entry.schedules key = false)
    (hFinishes :
      entry.finishes key = decide (operationKey rawId nonce = key))
    (hStatus : status ≠ .pending) :
    OperationOk m (logs ++ [entry]) key
      ((finishOperation db rawId nonce status entry.log).operations.get?
        key) := by
  unfold finishOperation
  dsimp only
  rw [get?_write]
  by_cases hKey : operationKey rawId nonce = key
  · rw [if_pos hKey]
    have hTrue := hFinishes.trans (decide_eq_true hKey)
    cases hFound : db.operations.get? key with
    | none =>
        rw [hFound] at h
        refine h.finished hSchedules hTrue hStatus rfl ?_
        intro old hOld
        cases hOld
    | some row =>
        rw [hFound] at h
        refine h.finished hSchedules hTrue hStatus rfl ?_
        intro old hOld
        cases hOld
        rfl
  · rw [if_neg hKey]
    exact h.skip hSchedules (hFinishes.trans (decide_eq_false hKey))

theorem operationOk_runLogs
    (m : AccessManifest)
    (logs : List AccessLog)
    (key : String) :
    OperationOk m logs key
      ((runLogs m .empty logs).operations.get? key) := by
  induction logs using List.reverseRecOn with
  | nil => exact operationOk_nil
  | append_singleton logs entry ih =>
      rw [runLogs_concat]
      rcases entry with ⟨event, log⟩
      cases event with
      | operationScheduled args =>
          exact operationOk_scheduled ih rfl args log
      | operationExecuted operationId nonce =>
          exact
            @operationOk_finished m logs key _
              ⟨.operationExecuted operationId nonce, log⟩ operationId
              nonce .executed ih rfl rfl (by decide)
      | operationCanceled operationId nonce =>
          exact
            @operationOk_finished m logs key _
              ⟨.operationCanceled operationId nonce, log⟩ operationId
              nonce .canceled ih rfl rfl (by decide)
      | _ => exact ih.skip rfl rfl

/- The role that a selector is mapped to, by its last log. -/
def roleMapped
    (logs : List AccessLog)
    (id : String) : Int :=
  (logs.foldl
    (fun role entry =>
      match entry.event with
      | .targetFunctionRoleUpdated target selector roleId =>
          if targetFunctionId target selector = id then some roleId
          else role
      | _ => role)
    none).getD 0

theorem targetFunctionId_lower
    (target selector : String) :
    targetFunctionId (lower target) (lower selector) =
      targetFunctionId target selector := by
  unfold targetFunctionId lower
  rw [LowerCase.toLower_toLower, LowerCase.toLower_toLower]

theorem mappedRole_runLogs
    (m : AccessManifest)
    (logs : List AccessLog)
    (target selector : String) :
    mappedRole (runLogs m .empty logs) target selector =
      roleMapped logs (targetFunctionId target selector) := by
  unfold mappedRole roleMapped
  congr 1
  induction logs using List.reverseRecOn with
  | nil => rfl
  | append_singleton logs entry ih =>
      rw [runLogs_concat, List.foldl_append, List.foldl_cons,
        List.foldl_nil, ← ih]
      rcases entry with ⟨event, log⟩
      cases event with
      | targetFunctionRoleUpdated target' selector' roleId =>
          unfold applyLog targetFunctionRoleUpdated
          dsimp only
          rw [OrderedMap.get?_set, targetFunctionId_lower]
          split
          · rfl
          · rfl
      | _ => rfl

end

----
-- No Pending Operation Is Hidden
----

variable {m : AccessManifest} {logs : List AccessLog}
variable {indexedAt : Int}

def OperationScheduled.role
    (args : OperationScheduled)
    (before : List AccessLog) : Int :=
  match selectorFromData args.data with
  | none => 0
  | some selector =>
      roleMapped before (targetFunctionId (lower args.target) selector)

def OperationScheduled.annotated
    (m : AccessManifest)
    (args : OperationScheduled) : AccessManifest.Annotated :=
  match selectorFromData args.data with
  | none => m.bareFunction (lower args.target)
  | some selector => m.manifestFunction (lower args.target) selector

/- What a log that schedules should be shown as. -/
def OperationScheduled.wire
    (m : AccessManifest)
    (args : OperationScheduled)
    (before : List AccessLog)
    (log : LogMeta) : OperationWire :=
  { key := args.key
    id := lower args.operationId
    role := m.roleName (args.role before)
    target := lower args.target
    selector := selectorFromData args.data
    label := (args.annotated m).label
    caller := lower args.caller
    scheduledAt := log.timestamp
    readyAt := args.schedule }

theorem operationWire_scheduled
    {row : OperationRow}
    {args : OperationScheduled}
    {before : List AccessLog}
    {log : LogMeta}
    (hOpId : row.opId = lower args.operationId)
    (hSchedule :
      row.schedule =
        some (scheduleOf m (runLogs m .empty before) args log)) :
    operationWire args.key row = some (args.wire m before log) := by
  have hRole :
      (scheduleOf m (runLogs m .empty before) args log).roleName =
        m.roleName (args.role before) := by
    unfold scheduleOf OperationScheduled.role
    dsimp only
    cases selectorFromData args.data with
    | none => rfl
    | some selector =>
        dsimp only
        rw [mappedRole_runLogs]
  have hLabel :
      (scheduleOf m (runLogs m .empty before) args log).annotated =
        args.annotated m :=
    rfl
  unfold operationWire
  rw [hSchedule, Option.map_some, hRole, hLabel, hOpId]
  rfl

theorem exists_scheduled
    {key : String}
    (h : ∃ entry ∈ logs, entry.schedules key = true) :
    ∃ before args log, args.key = key ∧
      LastWhere (AccessLog.schedules key) logs before
        ⟨.operationScheduled args, log⟩ := by
  rcases LastWhere.exists_iff.mpr h with ⟨before, ⟨event, log⟩, hLast⟩
  have hSchedules := hLast.mem.2
  cases event with
  | operationScheduled args =>
      exact ⟨before, args, log, of_decide_eq_true hSchedules, hLast⟩
  | _ => cases hSchedules

theorem mem_loadPendingOperations
    {item : OperationWire} :
    item ∈ loadPendingOperations (runLogs m .empty logs) indexedAt ↔
      ∃ before args log,
        LastWhere (AccessLog.schedules args.key) logs before
            ⟨.operationScheduled args, log⟩ ∧
          (∀ entry ∈ logs, entry.finishes args.key = false) ∧
          indexedAt < args.schedule + operationExpiration ∧
          item = args.wire m before log := by
  unfold loadPendingOperations
  rw [List.mem_mergeSort, List.mem_filterMap]
  simp only [List.mem_filter, decide_eq_true_eq, Prod.exists,
    OrderedMap.mem_entries_iff]
  constructor
  · rintro ⟨key, row, ⟨hRow, hPending, schedule, hSome, hLive⟩, hWire⟩
    have hOk := operationOk_runLogs m logs key
    have hSeen : ∃ entry ∈ logs, entry.schedules key = true := by
      by_contra hNone
      have hUnseen := (hOk.unseen row hRow).mpr (by
        intro entry hIn
        exact Bool.eq_false_iff.mpr
          (fun hTrue => hNone ⟨entry, hIn, hTrue⟩))
      rw [hUnseen] at hSome
      cases hSome
    rcases exists_scheduled hSeen with
      ⟨before, args, log, rfl, hLast⟩
    have hKept := hOk.schedule before args log row hLast hRow
    rw [operationWire_scheduled hKept.1 hKept.2] at hWire
    rw [hKept.2] at hSome
    cases hSome
    exact
      ⟨before, args, log, hLast, (hOk.status row hRow).mp hPending,
        hLive, (Option.some.inj hWire).symm⟩
  · rintro ⟨before, args, log, hLast, hOpen, hLive, rfl⟩
    have hOk := operationOk_runLogs m logs args.key
    cases hRow :
      (runLogs m .empty logs).operations.get? args.key with
    | none =>
        have hSome := hLast.mem
        rw [hOk.absent hRow _ hSome.1] at hSome
        cases hSome.2
    | some row =>
        have hKept := hOk.schedule before args log row hLast hRow
        exact
          ⟨args.key, row,
            ⟨hRow, (hOk.status row hRow).mpr hOpen, _, hKept.2, hLive⟩,
            operationWire_scheduled hKept.1 hKept.2⟩

theorem keys_sublist
    (entries : List (String × OperationRow)) :
    ((entries.filterMap
        (fun entry => operationWire entry.1 entry.2)).map
          (fun item => item.key)).Sublist
      (entries.map (fun entry => entry.1)) := by
  induction entries with
  | nil => exact .slnil
  | cons entry rest ih =>
      rw [List.filterMap_cons, List.map_cons]
      unfold operationWire
      cases entry.2.schedule with
      | none => exact ih.cons entry.1
      | some schedule => exact ih.cons_cons entry.1

theorem nodup_keys
    (db : AccessDb) :
    ((loadPendingOperations db indexedAt).map
      (fun item => item.key)).Nodup := by
  unfold loadPendingOperations
  refine ((List.mergeSort_perm _ _).map _).nodup_iff.mpr ?_
  refine (keys_sublist _).nodup ?_
  exact (List.filter_sublist.map _).nodup db.operations.nodup

/-
  Whatever logs have come and in whatever order, an operation
  is reported as pending exactly when it was scheduled, no log
  has finished it and it has not expired: under its own key, as
  its last schedule has it, in the order they become ready.
-/
theorem pending_operations_are_shown
    (m : AccessManifest)
    (logs : List AccessLog)
    (indexedAt : Int) :
    (∀ item,
      item ∈ loadPendingOperations (runLogs m .empty logs) indexedAt ↔
        ∃ before args log,
          LastWhere (AccessLog.schedules args.key) logs before
              ⟨.operationScheduled args, log⟩ ∧
            (∀ entry ∈ logs, entry.finishes args.key = false) ∧
            indexedAt < args.schedule + operationExpiration ∧
            item = args.wire m before log) ∧
      (loadPendingOperations (runLogs m .empty logs)
        indexedAt).Pairwise
          (fun first second => first.place < second.place) := by
  refine ⟨fun item => mem_loadPendingOperations, ?_⟩
  have hSorted :
      (loadPendingOperations (runLogs m .empty logs)
        indexedAt).Pairwise
          (fun first second =>
            decide (first.place ≤ second.place) = true) := by
    apply List.pairwise_mergeSort
    · intro first second third hOne hTwo
      rw [decide_eq_true_eq] at hOne hTwo ⊢
      exact hOne.trans hTwo
    · intro first second
      rw [Bool.or_eq_true, decide_eq_true_eq, decide_eq_true_eq]
      exact le_total first.place second.place
  refine
    (hSorted.and (List.pairwise_map.mp (nodup_keys _))).imp ?_
  rintro first second ⟨hLe, hKeys⟩
  refine lt_of_le_of_ne (of_decide_eq_true hLe) ?_
  intro hSame
  exact hKeys (congrArg (fun place => (ofLex place).2) hSame)

end Callhouse.Indexer.Access
