import Callhouse.Indexer.Access.Tables
import Callhouse.Lib.RowHistory

/-
  indexer/src/v2/accessManager.ts: its handlers, one log after
  another.

  Main declarations:
    * `operationScheduled`, `finishOperation`
    * `roleGranted`, `roleRevoked`, `roleGrantDelayChanged`
    * `AccessEvent`, `AccessLog`, `applyLog`, `runLogs`
-/

----
-- Operations
----

namespace Callhouse.Indexer.Access

open Projection (LogMeta)
open RowHistory

section

variable (m : AccessManifest)

structure OperationScheduled where
  operationId : String
  nonce : Int
  schedule : Int
  caller : String
  target : String
  data : String
deriving DecidableEq

def OperationScheduled.key
    (args : OperationScheduled) : String :=
  operationKey args.operationId args.nonce

/- A selector that is not mapped needs ADMIN_ROLE. -/
def mappedRole
    (db : AccessDb)
    (target selector : String) : Int :=
  ((db.targetFunctions.get? (targetFunctionId target selector)).map
    (fun row => row.roleId)).getD 0

def scheduleOf
    (db : AccessDb)
    (args : OperationScheduled)
    (event : LogMeta) : Schedule :=
  let target := lower args.target
  let selector := selectorFromData args.data
  let roleId :=
    match selector with
    | none => 0
    | some selector => mappedRole db target selector
  { caller := lower args.caller
    target := target
    data := lower args.data
    selector := selector
    annotated :=
      match selector with
      | none => m.bareFunction target
      | some selector => m.manifestFunction target selector
    roleId := roleId
    roleName := m.roleName roleId
    readyAt := args.schedule
    expiresAt := args.schedule + operationExpiration
    log := event }

/- A terminal log may come first: it is never reopened. -/
def operationScheduled
    (db : AccessDb)
    (args : OperationScheduled)
    (event : LogMeta) : AccessDb :=
  let schedule := scheduleOf m db args event
  { db with
    operations :=
      write db.operations args.key (fun current =>
        match current with
        | none =>
            { opId := lower args.operationId
              nonce := args.nonce
              status := .pending
              schedule := some schedule
              finished := none }
        | some row =>
            { row with
              opId := lower args.operationId
              nonce := args.nonce
              schedule := some schedule }) }

def finishOperation
    (db : AccessDb)
    (rawId : String)
    (nonce : Int)
    (status : OperationStatus)
    (event : LogMeta) : AccessDb :=
  { db with
    operations :=
      write db.operations (operationKey rawId nonce) (fun current =>
        match current with
        | none =>
            { opId := lower rawId
              nonce := nonce
              status := status
              schedule := none
              finished := some event }
        | some row =>
            { row with
              status := status
              finished := some event }) }

end

----
-- Roles and Members
----

section

variable (m : AccessManifest)

/- A role's row as its first log finds it. -/
def newRole
    (roleId : Int)
    (event : LogMeta) : RoleRow :=
  { roleId := roleId
    name := m.roleName roleId
    chainLabel := none
    expectedExecutionDelayS := m.expectedDelay roleId
    adminRoleId := 0
    guardianRoleId := 0
    grantDelayS := 0
    pendingGrantDelayS := none
    pendingGrantDelayAt := none
    updated := event }

variable (db : AccessDb)

def updateRole
    (event : LogMeta)
    (roleId : Int)
    (change : RoleRow → RoleRow) : AccessDb :=
  { db with
    roles :=
      write db.roles roleId (fun current =>
        { change (current.getD (newRole m roleId event)) with
          updated := event }) }

def roleLabel
    (roleId : Int)
    (label : String)
    (event : LogMeta) : AccessDb :=
  updateRole m db event roleId
    (fun row => { row with chainLabel := some label })

def roleAdminChanged
    (roleId admin : Int)
    (event : LogMeta) : AccessDb :=
  updateRole m db event roleId
    (fun row => { row with adminRoleId := admin })

def roleGuardianChanged
    (roleId guardian : Int)
    (event : LogMeta) : AccessDb :=
  updateRole m db event roleId
    (fun row => { row with guardianRoleId := guardian })

def RoleRow.delaying
    (row : RoleRow)
    (delay since : Int)
    (event : LogMeta) : RoleRow :=
  let next := delayedValue row.delay delay since event.timestamp
  { row with
    grantDelayS := next.current.getD 0
    pendingGrantDelayS := next.pending
    pendingGrantDelayAt := next.pendingAt }

def roleGrantDelayChanged
    (roleId delay since : Int)
    (event : LogMeta) : AccessDb :=
  updateRole m db event roleId
    (fun row => row.delaying delay since event)

structure RoleGranted where
  roleId : Int
  account : String
  delay : Int
  since : Int
  newMember : Bool
deriving DecidableEq

def newRoleMember
    (roleId : Int)
    (account : String) : RoleMemberRow :=
  { roleId := roleId
    roleName := m.roleName roleId
    account := lower account
    granted := false
    memberSince := none
    executionDelayS := none
    pendingExecutionDelayS := none
    pendingExecutionDelayAt := none
    lastGrantNewMember := none
    grant := none
    revoke := none }

/- A new member starts over; an old one's delay is changed. -/
def RoleMemberRow.granting
    (row : RoleMemberRow)
    (args : RoleGranted)
    (event : LogMeta) : RoleMemberRow :=
  let next :=
    if args.newMember then
      { current := some args.delay
        pending := none
        pendingAt := none }
    else
      delayedValue row.delay args.delay args.since event.timestamp
  { row with
    granted := true
    memberSince :=
      if args.newMember then some args.since else row.memberSince
    executionDelayS := next.current
    pendingExecutionDelayS := next.pending
    pendingExecutionDelayAt := next.pendingAt
    lastGrantNewMember := some args.newMember
    grant := some event
    revoke := none }

def roleGranted
    (args : RoleGranted)
    (event : LogMeta) : AccessDb :=
  { db with
    members :=
      write db.members (memberId args.roleId args.account)
        (fun current =>
          (current.getD (newRoleMember m args.roleId args.account)).granting
            args event) }

def RoleMemberRow.revoking
    (row : RoleMemberRow)
    (event : LogMeta) : RoleMemberRow :=
  { row with
    granted := false
    executionDelayS := none
    pendingExecutionDelayS := none
    pendingExecutionDelayAt := none
    revoke := some event }

def roleRevoked
    (roleId : Int)
    (account : String)
    (event : LogMeta) : AccessDb :=
  { db with
    members :=
      write db.members (memberId roleId account) (fun current =>
        (current.getD (newRoleMember m roleId account)).revoking
          event) }

end

----
-- Targets
----

section

variable (m : AccessManifest)

def newTarget
    (target : String)
    (event : LogMeta) : TargetRow :=
  { target := target
    targetName := m.targetName target
    closed := false
    adminDelayS := 0
    pendingAdminDelayS := none
    pendingAdminDelayAt := none
    updated := event }

def updateTarget
    (db : AccessDb)
    (event : LogMeta)
    (target : String)
    (change : TargetRow → TargetRow) : AccessDb :=
  { db with
    targets :=
      write db.targets target (fun current =>
        { change (current.getD (newTarget m target event)) with
          targetName := m.targetName target
          updated := event }) }

def targetClosed
    (db : AccessDb)
    (target : String)
    (closed : Bool)
    (event : LogMeta) : AccessDb :=
  updateTarget m db event (lower target)
    (fun row => { row with closed := closed })

def targetAdminDelayUpdated
    (db : AccessDb)
    (target : String)
    (delay since : Int)
    (event : LogMeta) : AccessDb :=
  updateTarget m db event (lower target) (fun row =>
    let next := delayedValue row.delay delay since event.timestamp
    { row with
      adminDelayS := next.current.getD 0
      pendingAdminDelayS := next.pending
      pendingAdminDelayAt := next.pendingAt })

def targetFunctionRoleUpdated
    (db : AccessDb)
    (target selector : String)
    (roleId : Int)
    (event : LogMeta) : AccessDb :=
  let address := lower target
  let bytes := lower selector
  { db with
    targetFunctions :=
      db.targetFunctions.set (targetFunctionId address bytes)
        { target := address
          selector := bytes
          annotated := m.manifestFunction address bytes
          roleId := roleId
          roleName := m.roleName roleId
          changed := event } }

end

----
-- Logs
----

inductive AccessEvent where
  | operationScheduled (args : OperationScheduled)
  | operationExecuted (operationId : String) (nonce : Int)
  | operationCanceled (operationId : String) (nonce : Int)
  | roleLabel (roleId : Int) (label : String)
  | roleAdminChanged (roleId admin : Int)
  | roleGuardianChanged (roleId guardian : Int)
  | roleGrantDelayChanged (roleId delay since : Int)
  | roleGranted (args : RoleGranted)
  | roleRevoked (roleId : Int) (account : String)
  | targetClosed (target : String) (closed : Bool)
  | targetAdminDelayUpdated (target : String) (delay since : Int)
  | targetFunctionRoleUpdated
      (target selector : String)
      (roleId : Int)
deriving DecidableEq

structure AccessLog where
  event : AccessEvent
  log : LogMeta
deriving DecidableEq

def applyLog
    (m : AccessManifest)
    (db : AccessDb)
    (entry : AccessLog) : AccessDb :=
  match entry.event with
  | .operationScheduled args =>
      operationScheduled m db args entry.log
  | .operationExecuted operationId nonce =>
      finishOperation db operationId nonce .executed entry.log
  | .operationCanceled operationId nonce =>
      finishOperation db operationId nonce .canceled entry.log
  | .roleLabel roleId label => roleLabel m db roleId label entry.log
  | .roleAdminChanged roleId admin =>
      roleAdminChanged m db roleId admin entry.log
  | .roleGuardianChanged roleId guardian =>
      roleGuardianChanged m db roleId guardian entry.log
  | .roleGrantDelayChanged roleId delay since =>
      roleGrantDelayChanged m db roleId delay since entry.log
  | .roleGranted args => roleGranted m db args entry.log
  | .roleRevoked roleId account =>
      roleRevoked m db roleId account entry.log
  | .targetClosed target closed =>
      targetClosed m db target closed entry.log
  | .targetAdminDelayUpdated target delay since =>
      targetAdminDelayUpdated m db target delay since entry.log
  | .targetFunctionRoleUpdated target selector roleId =>
      targetFunctionRoleUpdated m db target selector roleId entry.log

def runLogs
    (m : AccessManifest)
    (db : AccessDb)
    (logs : List AccessLog) : AccessDb :=
  logs.foldl (applyLog m) db

theorem runLogs_concat
    (m : AccessManifest)
    (db : AccessDb)
    (logs : List AccessLog)
    (entry : AccessLog) :
    runLogs m db (logs ++ [entry]) =
      applyLog m (runLogs m db logs) entry := by
  unfold runLogs
  rw [List.foldl_append, List.foldl_cons, List.foldl_nil]

end Callhouse.Indexer.Access
