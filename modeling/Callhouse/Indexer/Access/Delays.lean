import Callhouse.Indexer.Access.Handlers
import Callhouse.Lib.ScheduledValue

/-
  indexer/src/api/v2/markets.ts: the roles that the
  configuration reports, with their grant delays and holders,
  against the AccessManager's logs.

  Main declarations:
    * `effectiveDelay`, `accessRoles`
    * `Reads`, `reads_delayedValue`
    * `Membership`, `membershipOf`, `MemberOk`
    * `roles_in_force`
-/

----
-- The Configuration's Roles
----

namespace Callhouse.Indexer.Access

open ScheduledValue RowHistory

def effectiveDelay
    (value : DelayedValue)
    (indexedAt : Int) : Int :=
  match value.pending, value.pendingAt with
  | some pending, some due =>
      if due ≤ indexedAt then pending else value.current.getD 0
  | _, _ => value.current.getD 0

structure RoleHolder where
  address : String
  delayS : Int
deriving DecidableEq

structure RoleWire where
  id : Int
  name : String
  delayS : Int
  holders : List RoleHolder
deriving DecidableEq

/- Granted, and past the time the grant takes effect. -/
def IsHolder
    (indexedAt : Int)
    (member : RoleMemberRow) : Prop :=
  member.granted = true ∧
    ∀ since ∈ member.memberSince, since ≤ indexedAt

instance
    (indexedAt : Int)
    (member : RoleMemberRow) :
    Decidable (IsHolder indexedAt member) :=
  inferInstanceAs (Decidable (_ ∧ _))

def holdersOf
    (members : List RoleMemberRow)
    (roleId indexedAt : Int) : List RoleHolder :=
  ((members.filter (fun member =>
    decide (IsHolder indexedAt member ∧ member.roleId = roleId))).map
      (fun member =>
        { address := member.account
          delayS := effectiveDelay member.delay indexedAt })).mergeSort
    (fun left right => decide (left.address ≤ right.address))

/- A role of the manifest that no log has named is left out. -/
def accessRoles
    (m : AccessManifest)
    (db : AccessDb)
    (indexedAt : Int) : List RoleWire :=
  (m.roles.filterMap (fun entry =>
    (db.roles.get? entry.2).map (fun row =>
      { id := entry.2
        name := entry.1
        delayS := effectiveDelay row.delay indexedAt
        holders :=
          holdersOf db.members.values entry.2 indexedAt }))).mergeSort
    (fun left right => decide (left.id ≤ right.id))

theorem effectiveDelay_eq
    (value : DelayedValue)
    (indexedAt : Int) :
    effectiveDelay value indexedAt =
      (promoted value indexedAt).getD 0 := by
  rcases value with ⟨current, pending, pendingAt⟩
  unfold effectiveDelay promoted
  cases pending with
  | none => rfl
  | some pending =>
      cases pendingAt with
      | none => rfl
      | some due =>
          dsimp only
          split
          · rfl
          · rfl

----
-- A Delay and Its Changes
----

section

open ScheduledValue

variable {V : Type} {f : V → Option Int}

/- The columns say what the changes leave, from `now` on. -/
def Reads
    (f : V → Option Int)
    (value : DelayedValue)
    (s : State V)
    (now : Int) : Prop :=
  ∀ t, now ≤ t → promoted value t = f (s.valueAt t)

variable {value : DelayedValue}

theorem reads_start
    {initial : V}
    (hCurrent : value.current = f initial)
    (hPending : value.pending = none)
    (now : Int) :
    Reads f value (.start initial) now := by
  intro t _
  unfold promoted
  rw [hPending]
  exact hCurrent

theorem Reads.later
    {s : State V}
    {now later : Int}
    (h : Reads f value s now)
    (hLater : now ≤ later) :
    Reads f value s later :=
  fun t ht => h t (hLater.trans ht)

theorem reads_delayedValue
    {s : State V}
    {now effect time delay : Int}
    {next : V}
    (h : Reads f value s now)
    (hNow : now ≤ time)
    (hNext : f next = some delay) :
    Reads f (delayedValue value delay effect time)
      (s.schedule
        { value := next, effective := effect, scheduled := time })
      time := by
  intro t ht
  have hPromoted := h time hNow
  unfold delayedValue State.schedule State.valueAt
  dsimp only
  by_cases hEarly : effect ≤ time
  · rw [if_pos hEarly, if_pos (hEarly.trans ht), hNext]
    rfl
  · rw [if_neg hEarly]
    unfold promoted
    dsimp only
    split
    · exact hNext.symm
    · exact hPromoted

end

----
-- Roles
----

section

/- Logs come in the order of their blocks. -/
def InOrder
    (logs : List AccessLog) : Prop :=
  logs.Pairwise (fun first second =>
    first.log.timestamp ≤ second.log.timestamp)

def latest
    (logs : List AccessLog) : Int → Prop :=
  fun t => ∀ entry ∈ logs, entry.log.timestamp ≤ t

/- A change of a role's grant delay, as its log schedules it. -/
def AccessLog.grantDelayChange
    (roleId : Int)
    (entry : AccessLog) : Option (Change Int) :=
  match entry.event with
  | .roleGrantDelayChanged roleId' delay since =>
      if roleId' = roleId then
        some
          { value := delay
            effective := since
            scheduled := entry.log.timestamp }
      else none
  | _ => none

def grantDelayChanges
    (logs : List AccessLog)
    (roleId : Int) : List (Change Int) :=
  logs.filterMap (AccessLog.grantDelayChange roleId)

/- A role's delay, none for one that has no row. -/
def grantDelayOf
    (found : Option RoleRow) : DelayedValue :=
  match found with
  | some row => row.delay
  | none => { current := some 0, pending := none, pendingAt := none }

def RoleOk
    (logs : List AccessLog)
    (roleId : Int)
    (found : Option RoleRow) : Prop :=
  ∀ t, latest logs t →
    Reads some (grantDelayOf found)
      (.run 0 (grantDelayChanges logs roleId)) t

variable {m : AccessManifest} {logs : List AccessLog}
variable {entry : AccessLog}

theorem latest_concat
    {t : Int} :
    latest (logs ++ [entry]) t ↔
      latest logs t ∧ entry.log.timestamp ≤ t := by
  unfold latest
  simp [or_imp, forall_and]

theorem inOrder_concat
    (h : InOrder (logs ++ [entry])) :
    InOrder logs ∧ latest logs entry.log.timestamp := by
  have hParts := List.pairwise_append.mp h
  exact
    ⟨hParts.1,
      fun e hIn => hParts.2.2 e hIn entry (List.mem_singleton_self _)⟩

variable {roleId : Int}

/- A log that is not about the delay leaves it as it was. -/
theorem RoleOk.skip
    {found found' : Option RoleRow}
    (h : RoleOk logs roleId found)
    (hChange : entry.grantDelayChange roleId = none)
    (hSame : grantDelayOf found' = grantDelayOf found) :
    RoleOk (logs ++ [entry]) roleId found' := by
  intro t ht
  have hChanges :
      grantDelayChanges (logs ++ [entry]) roleId =
        grantDelayChanges logs roleId := by
    unfold grantDelayChanges
    rw [List.filterMap_append, List.filterMap_cons_none hChange,
      List.filterMap_nil, List.append_nil]
  rw [hChanges, hSame]
  exact h t (latest_concat.mp ht).1

variable {log : Projection.LogMeta}

theorem delay_getD_newRole
    (found : Option RoleRow) :
    (found.getD (newRole m roleId log)).delay = grantDelayOf found := by
  cases found with
  | none => rfl
  | some row => rfl

/- A field of the row, as updateRole writes it. -/
theorem roleOk_updateRole
    {db : AccessDb}
    {roleId' : Int}
    {change : RoleRow → RoleRow}
    (h : RoleOk logs roleId (db.roles.get? roleId))
    (hChange : entry.grantDelayChange roleId = none)
    (hDelay : ∀ row, (change row).delay = row.delay) :
    RoleOk (logs ++ [entry]) roleId
      ((updateRole m db entry.log roleId' change).roles.get?
        roleId) := by
  apply h.skip hChange
  unfold updateRole
  dsimp only
  rw [get?_write]
  split
  · refine (hDelay _).trans ?_
    exact delay_getD_newRole _
  · rfl

/- A column that is never null loses nothing of the delay. -/
theorem delay_delaying
    {row : RoleRow}
    {delay since kept : Int}
    (h : promoted row.delay log.timestamp = some kept) :
    (row.delaying delay since log).delay =
      delayedValue row.delay delay since log.timestamp := by
  unfold RoleRow.delaying
  generalize hValue : row.delay = value at h
  dsimp only
  unfold RoleRow.delay delayedValue
  dsimp only
  split
  · rfl
  · rw [h]
    rfl

theorem roleOk_grantDelayChanged
    {db : AccessDb}
    {roleId' delay since : Int}
    (h : RoleOk logs roleId (db.roles.get? roleId))
    (hLatest : latest logs log.timestamp) :
    RoleOk
      (logs ++ [⟨.roleGrantDelayChanged roleId' delay since, log⟩])
      roleId
      ((roleGrantDelayChanged m db roleId' delay since log).roles.get?
        roleId) := by
  unfold roleGrantDelayChanged updateRole
  dsimp only
  rw [get?_write]
  by_cases hRole : roleId' = roleId
  · subst hRole
    intro t ht
    have hChanges :
        grantDelayChanges
            (logs ++
              [⟨.roleGrantDelayChanged roleId' delay since, log⟩])
            roleId' =
          grantDelayChanges logs roleId' ++
            [{ value := delay
               effective := since
               scheduled := log.timestamp }] := by
      unfold grantDelayChanges AccessLog.grantDelayChange
      rw [List.filterMap_append]
      simp
    have hBefore := h log.timestamp hLatest
    rw [← @delay_getD_newRole m roleId' log] at hBefore
    have hNext : Reads some _ _ log.timestamp :=
      @reads_delayedValue Int some _ _ _ since log.timestamp delay
        delay hBefore (le_refl _) rfl
    have hStored :
        grantDelayOf
            (some
              { ((db.roles.get? roleId').getD
                  (newRole m roleId' log)).delaying delay since log with
                updated := log }) =
          _ :=
      delay_delaying (hBefore log.timestamp (le_refl _))
    rw [hChanges, run_concat, if_pos rfl, hStored]
    exact hNext.later (latest_concat.mp ht).2
  · rw [if_neg hRole]
    apply h.skip
    · unfold AccessLog.grantDelayChange
      exact if_neg hRole
    · rfl

theorem roleOk_runLogs
    (m : AccessManifest)
    (logs : List AccessLog)
    (hOrder : InOrder logs)
    (roleId : Int) :
    RoleOk logs roleId ((runLogs m .empty logs).roles.get? roleId) := by
  induction logs using List.reverseRecOn with
  | nil =>
      intro t _
      exact reads_start rfl rfl t
  | append_singleton logs entry ih =>
      rcases inOrder_concat hOrder with ⟨hLogs, hLatest⟩
      rw [runLogs_concat]
      rcases entry with ⟨event, log⟩
      cases event with
      | roleLabel roleId' label =>
          exact roleOk_updateRole (ih hLogs) rfl (fun _ => rfl)
      | roleAdminChanged roleId' admin =>
          exact roleOk_updateRole (ih hLogs) rfl (fun _ => rfl)
      | roleGuardianChanged roleId' guardian =>
          exact roleOk_updateRole (ih hLogs) rfl (fun _ => rfl)
      | roleGrantDelayChanged roleId' delay since =>
          exact roleOk_grantDelayChanged (ih hLogs) hLatest
      | _ => exact (ih hLogs).skip rfl rfl

end

----
-- Members
----

section

/- A membership, as the grants and revocations leave it. -/
structure Membership where
  granted : Bool
  since : Option Int
  base : Option Int
  changes : List (Change (Option Int))

def Membership.none : Membership :=
  { granted := false
    since := .none
    base := .none
    changes := [] }

/- A new membership starts over, an old one is rescheduled. -/
def Membership.grant
    (s : Membership)
    (args : RoleGranted)
    (time : Int) : Membership :=
  if args.newMember then
    { granted := true
      since := some args.since
      base := some args.delay
      changes := [] }
  else
    { s with
      granted := true
      changes :=
        s.changes ++
          [{ value := some args.delay
             effective := args.since
             scheduled := time }] }

def Membership.revoke
    (s : Membership) : Membership :=
  { s with
    granted := false
    base := .none
    changes := [] }

def Membership.step
    (key : Int × String)
    (s : Membership)
    (entry : AccessLog) : Membership :=
  match entry.event with
  | .roleGranted args =>
      if memberId args.roleId args.account = key then
        s.grant args entry.log.timestamp
      else s
  | .roleRevoked roleId account =>
      if memberId roleId account = key then s.revoke else s
  | _ => s

def membershipOf
    (logs : List AccessLog)
    (key : Int × String) : Membership :=
  logs.foldl (Membership.step key) .none

def Membership.Holds
    (s : Membership)
    (time : Int) : Prop :=
  s.granted = true ∧ ∀ since ∈ s.since, since ≤ time

def Membership.delayAt
    (s : Membership)
    (time : Int) : Int :=
  (inForce s.base s.changes time).getD 0

/- What a row has of a membership, at a time no log is after. -/
structure MemberOk
    (key : Int × String)
    (s : Membership)
    (time : Int)
    (row : RoleMemberRow) : Prop where
  roleId : row.roleId = key.1
  account : row.account = key.2
  granted : row.granted = s.granted
  since : row.memberSince = s.since
  delay : Reads id row.delay (.run s.base s.changes) time
  ordered : Ordered s.changes
  before : ∀ c ∈ s.changes, c.scheduled ≤ time

/- A member who has no row holds nothing. -/
def MemberFound
    (key : Int × String)
    (s : Membership)
    (time : Int)
    (found : Option RoleMemberRow) : Prop :=
  match found with
  | .none => s = .none
  | some row => MemberOk key s time row

variable {m : AccessManifest} {logs : List AccessLog}
variable {key : Int × String} {s : Membership} {time later : Int}
variable {row : RoleMemberRow} {found : Option RoleMemberRow}

theorem memberOk_newRoleMember
    (roleId : Int)
    (account : String)
    (time : Int) :
    MemberOk (memberId roleId account) .none time
      (newRoleMember m roleId account) :=
  { roleId := rfl
    account := rfl
    granted := rfl
    since := rfl
    delay := reads_start rfl rfl time
    ordered := .nil
    before := by
      intro c hIn
      cases hIn }

theorem MemberOk.at_later
    (h : MemberOk key s time row)
    (hLater : time ≤ later) :
    MemberOk key s later row :=
  { h with
    delay := h.delay.later hLater
    before := fun c hIn => (h.before c hIn).trans hLater }

theorem MemberFound.at_later
    (h : MemberFound key s time found)
    (hLater : time ≤ later) :
    MemberFound key s later found := by
  cases found with
  | none => exact h
  | some row => exact MemberOk.at_later h hLater

/- The row that a log is applied to. -/
theorem MemberFound.getD
    {roleId : Int}
    {account : String}
    (h : MemberFound (memberId roleId account) s time found) :
    MemberOk (memberId roleId account) s time
      (found.getD (newRoleMember m roleId account)) := by
  cases found with
  | none =>
      rw [show s = .none from h]
      exact memberOk_newRoleMember roleId account time
  | some row => exact h

variable {log : Projection.LogMeta}

theorem MemberOk.granting
    (h : MemberOk key s time row)
    (args : RoleGranted)
    (hTime : time = log.timestamp) :
    MemberOk key (s.grant args log.timestamp) time
      (row.granting args log) := by
  unfold Membership.grant RoleMemberRow.granting
  cases args.newMember with
  | true =>
      exact
        { roleId := h.roleId
          account := h.account
          granted := rfl
          since := rfl
          delay := reads_start rfl rfl time
          ordered := .nil
          before := by
            intro c hIn
            cases hIn }
  | false =>
      have hDelay :
          Reads id
            (delayedValue row.delay args.delay args.since
              log.timestamp) _ log.timestamp :=
        reads_delayedValue h.delay (le_of_eq hTime)
          (show id (some args.delay) = some args.delay from rfl)
      refine
        { roleId := h.roleId
          account := h.account
          granted := rfl
          since := h.since
          delay := ?_
          ordered := ?_
          before := ?_ }
      · rw [← run_concat] at hDelay
        rw [hTime]
        exact hDelay
      · refine List.pairwise_append.mpr ⟨h.ordered, ?_, ?_⟩
        · exact List.pairwise_singleton _ _
        · intro c hIn d hLast
          rw [List.mem_singleton.mp hLast, ← hTime]
          exact h.before c hIn
      · intro c hIn
        rcases List.mem_append.mp hIn with hIn | hIn
        · exact h.before c hIn
        · rw [List.mem_singleton.mp hIn]
          exact le_of_eq hTime.symm

theorem MemberOk.revoking
    (h : MemberOk key s time row)
    (log : Projection.LogMeta) :
    MemberOk key s.revoke time (row.revoking log) :=
  { roleId := h.roleId
    account := h.account
    granted := rfl
    since := h.since
    delay := reads_start rfl rfl time
    ordered := .nil
    before := by
      intro c hIn
      cases hIn }

theorem memberFound_granted
    {db : AccessDb}
    {args : RoleGranted}
    (h : MemberFound key s log.timestamp (db.members.get? key)) :
    MemberFound key (s.step key ⟨.roleGranted args, log⟩)
      log.timestamp
      ((roleGranted m db args log).members.get? key) := by
  unfold roleGranted Membership.step
  dsimp only
  rw [get?_write]
  by_cases hKey : memberId args.roleId args.account = key
  · subst hKey
    rw [if_pos rfl, if_pos rfl]
    exact h.getD.granting args rfl
  · rw [if_neg hKey, if_neg hKey]
    exact h

theorem memberFound_revoked
    {db : AccessDb}
    {roleId : Int}
    {account : String}
    (h : MemberFound key s log.timestamp (db.members.get? key)) :
    MemberFound key (s.step key ⟨.roleRevoked roleId account, log⟩)
      log.timestamp
      ((roleRevoked m db roleId account log).members.get? key) := by
  unfold roleRevoked Membership.step
  dsimp only
  rw [get?_write]
  by_cases hKey : memberId roleId account = key
  · subst hKey
    rw [if_pos rfl, if_pos rfl]
    exact h.getD.revoking log
  · rw [if_neg hKey, if_neg hKey]
    exact h

theorem memberFound_runLogs
    (m : AccessManifest)
    (logs : List AccessLog)
    (hOrder : InOrder logs)
    (key : Int × String)
    {time : Int}
    (hTime : latest logs time) :
    MemberFound key (membershipOf logs key) time
      ((runLogs m .empty logs).members.get? key) := by
  induction logs using List.reverseRecOn generalizing time with
  | nil => rfl
  | append_singleton logs entry ih =>
      rcases inOrder_concat hOrder with ⟨hLogs, hLatest⟩
      have hBefore := ih hLogs hLatest
      have hLater := (latest_concat.mp hTime).2
      rw [runLogs_concat]
      unfold membershipOf at hBefore ⊢
      rw [List.foldl_append, List.foldl_cons, List.foldl_nil]
      rcases entry with ⟨event, log⟩
      cases event with
      | roleGranted args =>
          exact (memberFound_granted hBefore).at_later hLater
      | roleRevoked roleId account =>
          exact (memberFound_revoked hBefore).at_later hLater
      | _ => exact hBefore.at_later hLater

end

----
-- What Is Reported Is in Force
----

variable {m : AccessManifest} {logs : List AccessLog}
variable {indexedAt : Int}
variable {roleId : Int}

theorem scheduled_grantDelayChange
    {entry : AccessLog}
    {c : Change Int}
    (h : entry.grantDelayChange roleId = some c) :
    c.scheduled = entry.log.timestamp := by
  unfold AccessLog.grantDelayChange at h
  split at h
  · split at h
    · cases h
      rfl
    · cases h
  · cases h

theorem ordered_grantDelayChanges
    (hOrder : InOrder logs)
    (roleId : Int) :
    Ordered (grantDelayChanges logs roleId) := by
  refine List.pairwise_filterMap.mpr (hOrder.imp ?_)
  intro first second hLe c hc d hd
  rw [scheduled_grantDelayChange hc, scheduled_grantDelayChange hd]
  exact hLe

theorem grantDelay_in_force
    (hOrder : InOrder logs)
    (hNow : latest logs indexedAt)
    {row : RoleRow}
    (hRow : (runLogs m .empty logs).roles.get? roleId = some row) :
    effectiveDelay row.delay indexedAt =
      inForce 0 (grantDelayChanges logs roleId) indexedAt := by
  have hOk := roleOk_runLogs m logs hOrder roleId
  rw [hRow] at hOk
  have hRead := hOk indexedAt hNow indexedAt (le_refl _)
  have hBefore :
      ∀ c ∈ grantDelayChanges logs roleId,
        c.scheduled ≤ indexedAt := by
    intro c hIn
    rcases List.mem_filterMap.mp hIn with ⟨entry, hEntry, hChange⟩
    rw [scheduled_grantDelayChange hChange]
    exact hNow entry hEntry
  rw [effectiveDelay_eq,
    ← valueAt_run 0 (ordered_grantDelayChanges hOrder roleId) hBefore]
  exact congrArg (fun found => found.getD 0) hRead

theorem MemberOk.delay_in_force
    {key : Int × String}
    {s : Membership}
    {row : RoleMemberRow}
    (h : MemberOk key s indexedAt row) :
    effectiveDelay row.delay indexedAt = s.delayAt indexedAt := by
  unfold Membership.delayAt
  rw [effectiveDelay_eq, ← valueAt_run s.base h.ordered h.before]
  exact
    congrArg (fun found => found.getD 0)
      (h.delay indexedAt (le_refl _))

theorem MemberOk.isHolder_iff
    {key : Int × String}
    {s : Membership}
    {row : RoleMemberRow}
    (h : MemberOk key s indexedAt row) :
    IsHolder indexedAt row ↔ s.Holds indexedAt := by
  unfold IsHolder Membership.Holds
  rw [h.granted, h.since]

theorem mem_holdersOf
    (hOrder : InOrder logs)
    (hNow : latest logs indexedAt)
    {holder : RoleHolder} :
    holder ∈
        holdersOf (runLogs m .empty logs).members.values roleId
          indexedAt ↔
      (membershipOf logs (roleId, holder.address)).Holds indexedAt ∧
        holder.delayS =
          (membershipOf logs (roleId, holder.address)).delayAt
            indexedAt := by
  unfold holdersOf
  rw [List.mem_mergeSort, List.mem_map]
  simp only [List.mem_filter, OrderedMap.mem_values_iff,
    decide_eq_true_eq]
  constructor
  · rintro ⟨row, ⟨⟨key, hRow⟩, hHolder, hRole⟩, rfl⟩
    have hFound := memberFound_runLogs m logs hOrder key hNow
    rw [hRow] at hFound
    have hOk : MemberOk key _ indexedAt row := hFound
    have hKey : key = (roleId, row.account) :=
      Prod.ext (hOk.roleId.symm.trans hRole) hOk.account.symm
    subst hKey
    exact ⟨hOk.isHolder_iff.mp hHolder, hOk.delay_in_force⟩
  · rintro ⟨hHolds, hDelay⟩
    have hFound :=
      memberFound_runLogs m logs hOrder (roleId, holder.address) hNow
    cases hRow :
        (runLogs m .empty logs).members.get?
          (roleId, holder.address) with
    | none =>
        rw [hRow] at hFound
        rw [show membershipOf _ _ = .none from hFound] at hHolds
        cases hHolds.1
    | some row =>
        rw [hRow] at hFound
        have hOk : MemberOk (roleId, holder.address) _ indexedAt row :=
          hFound
        refine
          ⟨row, ⟨⟨_, hRow⟩, hOk.isHolder_iff.mpr hHolds, hOk.roleId⟩,
            ?_⟩
        rw [hOk.delay_in_force, hOk.account, ← hDelay]

/-
  Logs that come in the order of their blocks: at the indexed
  head a role is reported with the grant delay in force, and
  its holders are exactly the accounts whose membership has
  been granted, not revoked since, and has taken effect, each
  with the execution delay in force for it.
-/
theorem roles_in_force
    (m : AccessManifest)
    (logs : List AccessLog)
    (hOrder : InOrder logs)
    (indexedAt : Int)
    (hNow : ∀ entry ∈ logs, entry.log.timestamp ≤ indexedAt)
    (role : RoleWire)
    (hRole :
      role ∈ accessRoles m (runLogs m .empty logs) indexedAt) :
    (role.name, role.id) ∈ m.roles ∧
      role.delayS =
        inForce 0 (grantDelayChanges logs role.id) indexedAt ∧
      ∀ holder,
        holder ∈ role.holders ↔
          (membershipOf logs (role.id, holder.address)).Holds
              indexedAt ∧
            holder.delayS =
              (membershipOf logs (role.id, holder.address)).delayAt
                indexedAt := by
  unfold accessRoles at hRole
  rw [List.mem_mergeSort, List.mem_filterMap] at hRole
  rcases hRole with ⟨⟨name, id⟩, hIn, hWire⟩
  rcases Option.map_eq_some_iff.mp hWire with ⟨row, hRow, rfl⟩
  exact
    ⟨hIn, grantDelay_in_force hOrder hNow hRow,
      fun holder => mem_holdersOf hOrder hNow⟩

def sampleManifest : AccessManifest :=
  { roles := [("KEEPER", 3)]
    delaysS := [("KEEPER", 0)]
    targets := []
    targetAddresses := []
    toFunctionSelector := fun signature => signature }

def sampleEvents : List (AccessEvent × Int) :=
  [ (.roleGrantDelayChanged 3 60 10, 10),
    (.roleGrantDelayChanged 3 120 500, 20),
    (.roleGranted
      { roleId := 3
        account := "0xA1"
        delay := 100
        since := 90
        newMember := true }, 30),
    (.roleGranted
      { roleId := 3
        account := "0xB2"
        delay := 0
        since := 90
        newMember := true }, 30),
    (.roleGranted
      { roleId := 3
        account := "0xA1"
        delay := 40
        since := 210
        newMember := false }, 150),
    (.roleRevoked 3 "0xB2", 160),
    (.roleGranted
      { roleId := 3
        account := "0xC3"
        delay := 0
        since := 440
        newMember := true }, 380) ]

/-
  A role whose grant delay is raised, a member whose execution
  delay is lowered, one who is revoked and one still to come.
-/
def sampleRoleLogs : List AccessLog :=
  sampleEvents.zipIdx.map (fun entry =>
    { event := entry.1.1
      log :=
        { timestamp := entry.1.2
          number := entry.1.2
          tx := "0x1"
          logIndex := entry.2 } })

theorem roles_in_force_sample :
    ∃ role,
      role ∈
          accessRoles sampleManifest
            (runLogs sampleManifest .empty sampleRoleLogs) 400 ∧
        role.delayS = 60 ∧
        { address := "0xa1", delayS := 40 } ∈ role.holders ∧
        ∀ holder ∈ role.holders,
          holder.address ≠ "0xb2" ∧ holder.address ≠ "0xc3" := by
  have hSome :
      ((runLogs sampleManifest .empty sampleRoleLogs).roles.get?
        3).isSome = true := by
    decide +kernel
  rcases Option.isSome_iff_exists.mp hSome with ⟨row, hRow⟩
  have hRole :
      ∃ role ∈
          accessRoles sampleManifest
            (runLogs sampleManifest .empty sampleRoleLogs) 400,
        role.id = 3 := by
    unfold accessRoles
    simp only [List.mem_mergeSort, List.mem_filterMap,
      Option.map_eq_some_iff]
    exact ⟨_, ⟨("KEEPER", 3), .head _, row, hRow, rfl⟩, rfl⟩
  rcases hRole with ⟨role, hIn, hId⟩
  have hAll :=
    roles_in_force sampleManifest sampleRoleLogs
      (by unfold InOrder; decide +kernel) 400
      (by decide +kernel) role hIn
  rw [hId] at hAll
  refine
    ⟨role, hIn, hAll.2.1.trans (by decide +kernel),
      (hAll.2.2 _).mpr ?_, ?_⟩
  · unfold Membership.Holds
    decide +kernel
  · intro holder hHolder
    have hHolds := ((hAll.2.2 holder).mp hHolder).1
    unfold Membership.Holds at hHolds
    constructor
    all_goals
      intro hAddress
      rw [hAddress] at hHolds
      revert hHolds
      decide +kernel

end Callhouse.Indexer.Access
