import Callhouse.Keeper.Cranker.ExpiryPlan
import Mathlib.Tactic

/-
  keeper/src/v2/guardian/planner.ts: what the guardian does
  about one settlement candidate.

  Main declarations:
    * `planGuardian`
    * `planGuardian_page_iff`
-/

----
-- Views
----

namespace Callhouse.Keeper.Guardian

section

open Cranker (SettlementStatusName)

structure CandidateState where
  price : Int
  sourceIndex : Nat
  disagreed : Bool
  finalizableAt : Int
deriving DecidableEq

/- `none`: not from a Chainlink feed, or no such round. -/
inductive RoundAge where
  | none
  | unread
  | age (seconds : Int)
deriving DecidableEq

structure GuardianView where
  status : SettlementStatusName
  candidate : Option CandidateState
  poolPrice : Option Int
  lastFinalizedPrice : Option Int
  roundAge : RoundAge
  maxDeviationBps : Option Int
  now : Int
deriving DecidableEq

structure GuardianThresholds where
  scaleFactor : Int
  autoVeto : Bool
  staleRoundAfterS : Int
deriving DecidableEq

inductive PlanReason where
  | notPending
  | noCandidate
  | noReference
  | inBand
  | scaleFault
  | staleRound
  | roundUnread
deriving DecidableEq

structure GuardianPlan where
  page : Bool
  scaleFault : Bool
  staleRound : Bool
  poolDisagrees : Bool
  veto : Bool
  late : Bool
  reason : PlanReason
deriving DecidableEq

end

----
-- The Plan
----

open Cranker (SettlementStatusName)

def scaleApart
    (a b factor : Int) : Bool :=
  if a ≤ 0 ∨ b ≤ 0 then false
  else decide (a ≥ b * factor) || decide (b ≥ a * factor)

def agree
    (a b maxDeviationBps : Int) : Bool :=
  let lo := if a < b then a else b
  let hi := if a < b then b else a
  decide ((hi - lo) * 10000 ≤ lo * maxDeviationBps)

def noPlan
    (reason : PlanReason) : GuardianPlan :=
  { page := false
    scaleFault := false
    staleRound := false
    poolDisagrees := false
    veto := false
    late := false
    reason := reason }

def GuardianView.stale
    (view : GuardianView)
    (thresholds : GuardianThresholds) : Bool :=
  match view.roundAge with
  | .age seconds => decide (seconds > thresholds.staleRoundAfterS)
  | _ => false

def GuardianView.poolDisagrees
    (view : GuardianView)
    (c : CandidateState) : Bool :=
  match view.poolPrice, view.maxDeviationBps with
  | some pool, some bps =>
      decide (pool > 0) && !agree c.price pool bps
  | _, _ => false

/- The prices read to measure the candidate against. -/
def GuardianView.refs
    (view : GuardianView) : List Int :=
  ([view.poolPrice, view.lastFinalizedPrice].reduceOption).filter
    (fun r => decide (r > 0))

def GuardianView.scaleFault
    (view : GuardianView)
    (thresholds : GuardianThresholds)
    (c : CandidateState) : Bool :=
  !view.refs.isEmpty &&
    view.refs.all
      (fun r => scaleApart c.price r thresholds.scaleFactor)

/- The plan of a pending candidate. -/
def planCandidate
    (view : GuardianView)
    (thresholds : GuardianThresholds)
    (c : CandidateState) : GuardianPlan :=
  let base : GuardianPlan :=
    { page := true
      scaleFault := false
      staleRound := view.stale thresholds
      poolDisagrees := view.poolDisagrees c
      veto := false
      late := decide (view.now ≥ c.finalizableAt)
      reason := .inBand }
  if view.scaleFault thresholds c = true then
    { base with
      scaleFault := true
      veto := thresholds.autoVeto
      reason := .scaleFault }
  else if view.stale thresholds = true then
    { base with
      veto := thresholds.autoVeto && view.poolDisagrees c
      reason := .staleRound }
  else if view.roundAge = .unread then
    { base with reason := .roundUnread }
  else if view.refs.isEmpty = true then
    { base with reason := .noReference }
  else base

def planGuardian
    (view : GuardianView)
    (thresholds : GuardianThresholds) : GuardianPlan :=
  if view.status ≠ .Pending then noPlan .notPending
  else
    match view.candidate with
    | none => noPlan .noCandidate
    | some c =>
        if c.price ≤ 0 then noPlan .noCandidate
        else planCandidate view thresholds c

theorem planCandidate_page
    (view : GuardianView)
    (thresholds : GuardianThresholds)
    (c : CandidateState) :
    (planCandidate view thresholds c).page = true := by
  unfold planCandidate
  dsimp only
  split
  · rfl
  · split
    · rfl
    · split
      · rfl
      · split <;> rfl

/- Every pending candidate with a price pages. -/
theorem planGuardian_page_iff
    {view : GuardianView}
    {thresholds : GuardianThresholds} :
    (planGuardian view thresholds).page = true ↔
      view.status = .Pending ∧
        ∃ c, view.candidate = some c ∧ 0 < c.price := by
  unfold planGuardian
  split
  · next hStatus =>
      constructor
      · intro h
        cases h
      · exact fun h => absurd h.1 hStatus
  · next hStatus =>
      rw [not_not] at hStatus
      cases hCandidate : view.candidate with
      | none =>
          constructor
          · intro h
            cases h
          · rintro ⟨_, c, hc, _⟩
            cases hc
      | some c =>
          dsimp only
          split
          · next hPrice =>
              constructor
              · intro h
                cases h
              · rintro ⟨_, c', hc, hPos⟩
                cases hc
                omega
          · next hPrice =>
              constructor
              · intro _
                exact ⟨hStatus, c, rfl, by omega⟩
              · intro _
                exact planCandidate_page view thresholds c

end Callhouse.Keeper.Guardian
