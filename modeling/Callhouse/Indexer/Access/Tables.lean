import Callhouse.Indexer.Projection.Tables

/-
  indexer/src/v2/accessManager.ts: the AccessManager's tables
  and what its logs do to them.  The role manifest, the
  targets' addresses and the hash that makes a selector of a
  signature are parameters.

  Main declarations:
    * `AccessManifest`, `manifestFunction`, `delayedValue`
    * `AccessDb`
-/

----
-- The Manifest
----

namespace Callhouse.Indexer.Access

open Projection (LogMeta)

/- V2_ACCESS_MANIFEST, with the addresses its targets have. -/
structure AccessManifest where
  roles : List (String × Int)
  delaysS : List (String × Int)
  targets : List (String × List (String × String))
  targetAddresses : List (String × Option String)
  toFunctionSelector : String → String

def lower
    (value : String) : String :=
  value.toLower

/- A record's field. -/
def field
    {V : Type}
    (record : List (String × V))
    (name : String) : Option V :=
  (record.find? (fun entry => entry.1 = name)).map
    (fun entry => entry.2)

namespace AccessManifest

variable (m : AccessManifest)

def roleName
    (roleId : Int) : String :=
  ((m.roles.find? (fun entry => entry.2 = roleId)).map
    (fun entry => entry.1)).getD s!"ROLE_{roleId}"

def expectedDelay
    (roleId : Int) : Option Int :=
  field m.delaysS (m.roleName roleId)

def targetName
    (target : String) : Option String :=
  (m.targetAddresses.find? (fun entry =>
    entry.2.map lower = some (lower target))).map
      (fun entry => entry.1)

/- What the manifest says of a target's function. -/
structure Annotated where
  targetName : Option String
  functionSignature : Option String
  expectedRoleId : Option Int
  label : String
deriving DecidableEq

def unknownTargetLabel
    (target selector : String) : String :=
  let address := lower target
  let bytes := lower selector
  s!"unknown-target {address} {bytes}"

def functionLabel
    (name : String)
    (signature : Option String) : String :=
  match signature with
  | none => name
  | some signature => s!"{name}.{signature}"

def manifestFunction
    (target selector : String) : Annotated :=
  match m.targetName target with
  | none =>
      { targetName := none
        functionSignature := none
        expectedRoleId := none
        label := unknownTargetLabel target selector }
  | some name =>
      let functions := (field m.targets name).getD []
      let signature :=
        (functions.find? (fun entry =>
          m.toFunctionSelector entry.1 = selector)).map
            (fun entry => entry.1)
      let expectedName := signature.bind (field functions)
      { targetName := some name
        functionSignature := signature
        expectedRoleId := expectedName.bind (field m.roles)
        label := functionLabel name signature }

/- An operation whose calldata has no selector. -/
def bareFunction
    (target : String) : Annotated :=
  { targetName := m.targetName target
    functionSignature := none
    expectedRoleId := none
    label :=
      (m.targetName target).getD
        s!"unknown-target {target} no-selector" }

end AccessManifest

def selectorFromData
    (data : String) : Option String :=
  if data.length < 10 then none
  else some (lower (data.take 10).toString)

def operationKey
    (operationId : String)
    (nonce : Int) : String :=
  let opId := lower operationId
  s!"{opId}:{nonce}"

/- The parts that the member's id is joined of. -/
def memberId
    (roleId : Int)
    (account : String) : Int × String :=
  (roleId, lower account)

def targetFunctionId
    (target selector : String) : String :=
  let address := lower target
  let bytes := lower selector
  s!"{address}:{bytes}"

/- A delay, and the one that replaces it once it is due. -/
structure DelayedValue where
  current : Option Int
  pending : Option Int
  pendingAt : Option Int
deriving DecidableEq

def promoted
    (value : DelayedValue)
    (time : Int) : Option Int :=
  match value.pending, value.pendingAt with
  | some pending, some due =>
      if due ≤ time then some pending else value.current
  | _, _ => value.current

def delayedValue
    (value : DelayedValue)
    (next effect time : Int) : DelayedValue :=
  if effect ≤ time then
    { current := some next, pending := none, pendingAt := none }
  else
    { current := promoted value time
      pending := some next
      pendingAt := some effect }

----
-- Rows
----

/- OPERATION_EXPIRATION, a week. -/
def operationExpiration : Int :=
  7 * 86400

inductive OperationStatus where
  | pending
  | executed
  | canceled
deriving DecidableEq

/- The columns that OperationScheduled writes, all at once. -/
structure Schedule where
  caller : String
  target : String
  data : String
  selector : Option String
  annotated : AccessManifest.Annotated
  roleId : Int
  roleName : String
  readyAt : Int
  expiresAt : Int
  log : LogMeta
deriving DecidableEq

structure OperationRow where
  opId : String
  nonce : Int
  status : OperationStatus
  schedule : Option Schedule
  finished : Option LogMeta
deriving DecidableEq

structure RoleRow where
  roleId : Int
  name : String
  chainLabel : Option String
  expectedExecutionDelayS : Option Int
  adminRoleId : Int
  guardianRoleId : Int
  grantDelayS : Int
  pendingGrantDelayS : Option Int
  pendingGrantDelayAt : Option Int
  updated : LogMeta
deriving DecidableEq

structure RoleMemberRow where
  roleId : Int
  roleName : String
  account : String
  granted : Bool
  memberSince : Option Int
  executionDelayS : Option Int
  pendingExecutionDelayS : Option Int
  pendingExecutionDelayAt : Option Int
  lastGrantNewMember : Option Bool
  grant : Option LogMeta
  revoke : Option LogMeta
deriving DecidableEq

structure TargetRow where
  target : String
  targetName : Option String
  closed : Bool
  adminDelayS : Int
  pendingAdminDelayS : Option Int
  pendingAdminDelayAt : Option Int
  updated : LogMeta
deriving DecidableEq

structure TargetFunctionRow where
  target : String
  selector : String
  annotated : AccessManifest.Annotated
  roleId : Int
  roleName : String
  changed : LogMeta
deriving DecidableEq

structure AccessDb where
  operations : OrderedMap String OperationRow
  roles : OrderedMap Int RoleRow
  members : OrderedMap (Int × String) RoleMemberRow
  targets : OrderedMap String TargetRow
  targetFunctions : OrderedMap String TargetFunctionRow

def AccessDb.empty : AccessDb :=
  { operations := .empty
    roles := .empty
    members := .empty
    targets := .empty
    targetFunctions := .empty }

def RoleRow.delay
    (row : RoleRow) : DelayedValue :=
  { current := some row.grantDelayS
    pending := row.pendingGrantDelayS
    pendingAt := row.pendingGrantDelayAt }

def RoleMemberRow.delay
    (row : RoleMemberRow) : DelayedValue :=
  { current := row.executionDelayS
    pending := row.pendingExecutionDelayS
    pendingAt := row.pendingExecutionDelayAt }

def TargetRow.delay
    (row : TargetRow) : DelayedValue :=
  { current := some row.adminDelayS
    pending := row.pendingAdminDelayS
    pendingAt := row.pendingAdminDelayAt }

end Callhouse.Indexer.Access
