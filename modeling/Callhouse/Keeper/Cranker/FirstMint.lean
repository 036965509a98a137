import Callhouse.Keeper.Cranker.RedeemStep
import Callhouse.Lib.OrderedMap
import Callhouse.Lib.Quota
import Callhouse.Lib.TruncDiv

/-
  keeper/src/v2/cranker/firstmint.ts: the first mint of each
  fresh expiry, taken into the keeper's account under a daily
  cap, over ticks that may stop anywhere.

  Main declarations:
    * `firstMintCost`, `planFirstMint`, `stepFirstMint`
    * `firstMintTicks_sound`
    * `firstMint_moved_le_cap`
    * `cheap_ask_gone_overspends`
-/

----
-- The Plan
----

namespace Callhouse.Keeper.Cranker

def settlementWindow : Int := 1800

def unitsPerShare : Int := 100

def bps : Int := 10000

def firstMintDailyCap : Int := 5000000

def firstMintMaxCost : Int := 500000

def takerFeeCapCeilBps : Int := 1000

def firstMintDeadlineS : Int := 120

def firstMintCutoffMarginS : Int := 300

def firstMintMaxOrderIds : Nat := 8

def firstMintMaxPerTick : Int := 4

/- OrderBook OrderKind.AskWrite. -/
def askWrite : Int := 2

/- Days of four-digit years, which their dates tell apart. -/
def utcDay
    (timestamp : Int) : Int :=
  timestamp / 86400

def mintCutoff
    (expiry : Int) : Int :=
  expiry - settlementWindow

structure FirstMintAsk where
  orderId : Int
  longId : Int
  maker : String
  kind : Int
  price : Int
  units : Int
  filled : Int
  validUntil : Int
  cancelled : Bool
deriving DecidableEq

inductive FirstMintPlan where
  | pinned
  | pastCutoff
  | noAsk
  | overCap (cheapest bound : Int)
  | take
      (longId : Int)
      (orderIds : List Int)
      (limitPrice maxTotalFee maxCost : Int)
deriving DecidableEq

structure FirstMintCost where
  premium : Int
  fee : Int
  total : Int
deriving DecidableEq

def firstMintCost
    (limitPrice : Int) : FirstMintCost :=
  let premium := limitPrice.tdiv unitsPerShare
  let fee := (premium * takerFeeCapCeilBps).tdiv bps
  { premium := premium
    fee := fee
    total := premium + fee }

structure FirstMintInput where
  expiry : Int
  pinnedBy : String
  clearinghouse : String
  asks : List FirstMintAsk
  now : Int
  keeper : String
  capLeft : Int
  maxCost : Option Int

def FirstMintInput.qualifies
    (input : FirstMintInput)
    (a : FirstMintAsk) : Bool :=
  decide (a.kind = askWrite) && !a.cancelled &&
    decide (a.filled < a.units) &&
    decide (a.validUntil > input.now + firstMintDeadlineS) &&
    decide (lc a.maker ≠ lc input.keeper) &&
    decide (a.price > 0)

def cheaperAsk
    (a b : FirstMintAsk) : Prop :=
  a.price < b.price ∨
    a.price = b.price ∧ a.orderId ≤ b.orderId

instance : DecidableRel cheaperAsk :=
  fun a b =>
    inferInstanceAs
      (Decidable
        (a.price < b.price ∨
          a.price = b.price ∧ a.orderId ≤ b.orderId))

def FirstMintInput.live
    (input : FirstMintInput) : List FirstMintAsk :=
  (input.asks.filter input.qualifies).insertionSort cheaperAsk

def FirstMintInput.bound
    (input : FirstMintInput) : Int :=
  let perTake := input.maxCost.getD firstMintMaxCost
  if input.capLeft < perTake then input.capLeft else perTake

def FirstMintInput.affordable
    (input : FirstMintInput) : List FirstMintAsk :=
  input.live.filter
    (fun a => decide ((firstMintCost a.price).total ≤ input.bound))

/- The asks one take names, and the dearest of them. -/
def takeOf
    (first : FirstMintAsk)
    (affordable : List FirstMintAsk) : FirstMintPlan :=
  let named :=
    (affordable.filter
      (fun a => decide (a.longId = first.longId))).take
        firstMintMaxOrderIds
  let limitPrice := (named.getLastD first).price
  let cost := firstMintCost limitPrice
  .take first.longId (named.map FirstMintAsk.orderId) limitPrice
    cost.fee cost.total

def planFirstMint
    (input : FirstMintInput) : FirstMintPlan :=
  if lc input.pinnedBy = lc input.clearinghouse then .pinned
  else if input.now ≥
      mintCutoff input.expiry - firstMintCutoffMarginS then
    .pastCutoff
  else
    match input.live with
    | [] => .noAsk
    | cheapest :: _ =>
        match input.affordable with
        | [] =>
            .overCap (firstMintCost cheapest.price).total
              input.bound
        | first :: rest => takeOf first (first :: rest)

----
-- One Step
----

/-
  What the sender returns for one call, with the simulation's
  (filled, premium, takerFee) where it has that shape.
-/
inductive SendOutcome where
  | alreadyAdvanced
  | inFlight
  | noOp
  | simulationReverted
  | sendFailed
  | confirmed (result : Option (Nat × Nat × Nat))
  | reverted
  | unconfirmed
  | wouldSend
deriving DecidableEq

def SendOutcome.advanced : SendOutcome → Bool
  | .confirmed _ => true
  | .wouldSend => true
  | _ => false

def SendOutcome.uses : SendOutcome → Bool
  | .confirmed _ => true
  | .reverted => true
  | .unconfirmed => true
  | .sendFailed => true
  | .wouldSend => true
  | _ => false

def spentBy
    (outcome : SendOutcome)
    (maxCost : Int) : Int :=
  match outcome with
  | .confirmed (some (_, premium, takerFee)) =>
      (premium : Int) + takerFee
  | .confirmed none => maxCost
  | .unconfirmed => maxCost
  | _ => 0

/- The arguments of `take` that the plan decides. -/
structure FirstMintTake where
  longId : Int
  orderIds : List Int
  limitPrice : Int
  maxTotalFee : Int
  recipient : String
  deadline : Int
deriving DecidableEq

/-
  How a send of a take ends, no outcome when the process stops
  or the send throws, and the USDG the take moves if it is
  included, whenever that is.
-/
structure TakeFate where
  ends : Option SendOutcome
  moved : Nat
deriving DecidableEq

/- Only what may have been broadcast can move USDG. -/
def TakeFate.spent
    (fate : TakeFate) : Int :=
  match fate.ends with
  | none => fate.moved
  | some (.confirmed _) => fate.moved
  | some .unconfirmed => fate.moved
  | some .sendFailed => fate.moved
  | some _ => 0

/- One run of the step and what it meets. -/
structure FirstMintTick where
  enabled : Bool
  maxTxPerStep : Int
  dryRun : Bool
  keeper : String
  clearinghouse : String
  now : Int
  index : CrankerIndex
  live : List String
  done : List ExpiryKey
  pinnedBy : ExpiryKey → Option String
  keeperHasCode : Option Bool
  asks : Option (List FirstMintAsk)
  balance : Option Int
  allowance : Option Int
  stops : ExpiryKey → Bool
  yields : ExpiryKey → Bool
  approve : ExpiryKey → Option SendOutcome
  yieldsAfterApprove : ExpiryKey → Bool
  fate : ExpiryKey → FirstMintTake → TakeFate

/- `booked` is what the step wrote for the take. -/
structure SentTake where
  take : FirstMintTake
  charge : Quota.Charge Int Int
deriving DecidableEq

/-
  The spent figure of each day in `v2_meta`, and every take
  handed to the sender so far.
-/
structure FirstMintState where
  spentMeta : OrderedMap Int Int
  takes : List SentTake

def FirstMintState.start : FirstMintState :=
  { spentMeta := OrderedMap.empty
    takes := [] }

variable (s : FirstMintState)

def FirstMintState.spentOn
    (day : Int) : Int :=
  s.spentMeta.getD day 0

structure FirstMintLoop where
  spent : Int
  balance : Int
  allowance : Int
  used : Int
  stopped : Bool
  state : FirstMintState

def FirstMintTick.budgetMax
    (tick : FirstMintTick) : Int :=
  if firstMintMaxPerTick < tick.maxTxPerStep then
    firstMintMaxPerTick
  else tick.maxTxPerStep

def FirstMintTick.budgetLeft
    (tick : FirstMintTick)
    (used : Int)
    (yields : Bool) : Bool :=
  decide (used < tick.budgetMax) && !yields

def SendOutcome.usesOf
    (outcome : SendOutcome) : Int :=
  if outcome.uses then 1 else 0

def FirstMintState.sent
    (tick : FirstMintTick)
    (take : FirstMintTake)
    (maxCost booked : Int)
    (fate : TakeFate) : FirstMintState :=
  { s with
    takes :=
      s.takes ++
        [{ take := take
           charge :=
             { key := utcDay tick.now
               bound := maxCost
               booked := booked
               spent := fate.spent } }] }

/- A dry run signs nothing, so it leaves the state alone. -/
def sendTake
    (tick : FirstMintTick)
    (k : ExpiryKey)
    (take : FirstMintTake)
    (maxCost : Int)
    (l : FirstMintLoop) : FirstMintLoop :=
  let fate := tick.fate k take
  match fate.ends with
  | none =>
      if tick.dryRun then { l with stopped := true }
      else
        { l with
          stopped := true
          state := l.state.sent tick take maxCost 0 fate }
  | some outcome =>
      let used := l.used + outcome.usesOf
      if tick.dryRun then { l with used := used }
      else
        let cost := spentBy outcome maxCost
        if cost > 0 then
          { spent := l.spent + cost
            balance := l.balance - cost
            allowance := l.allowance - cost
            used := used
            stopped := false
            state :=
              { (l.state.sent tick take maxCost cost fate) with
                spentMeta :=
                  l.state.spentMeta.set (utcDay tick.now)
                    (l.spent + cost) } }
        else
          { l with
            used := used
            state := l.state.sent tick take maxCost 0 fate }

def capLeft
    (spent : Int) : Int :=
  if spent ≥ firstMintDailyCap then 0
  else firstMintDailyCap - spent

def FirstMintTick.planOf
    (tick : FirstMintTick)
    (asks : List FirstMintAsk)
    (spent : Int)
    (k : ExpiryKey)
    (pinnedBy : String) : FirstMintPlan :=
  let longIds :=
    (tick.index.seriesOf k).map (fun r => r.series.longId)
  planFirstMint
    { expiry := k.expiry
      pinnedBy := pinnedBy
      clearinghouse := tick.clearinghouse
      asks := asks.filter (fun a => decide (a.longId ∈ longIds))
      now := tick.now
      keeper := tick.keeper
      capLeft := capLeft spent
      maxCost := none }

/- The take of a planned group, approved first when it must be. -/
def takeGroup
    (tick : FirstMintTick)
    (k : ExpiryKey)
    (take : FirstMintTake)
    (maxCost : Int)
    (l : FirstMintLoop) : FirstMintLoop :=
  if !tick.budgetLeft l.used (tick.yields k) then l
  else if l.balance < maxCost then l
  else if l.allowance < maxCost then
    match tick.approve k with
    | none => { l with stopped := true }
    | some approved =>
        let used := l.used + approved.usesOf
        if !approved.advanced then { l with used := used }
        else
          let l' :=
            { l with
              used := used
              allowance := firstMintDailyCap }
          if !tick.budgetLeft used (tick.yieldsAfterApprove k)
          then l'
          else sendTake tick k take maxCost l'
  else sendTake tick k take maxCost l

def firstMintGroup
    (tick : FirstMintTick)
    (asks : List FirstMintAsk)
    (l : FirstMintLoop)
    (o : ExpiryKey × String) : FirstMintLoop :=
  if l.stopped then l
  else if tick.stops o.1 then { l with stopped := true }
  else
    match tick.planOf asks l.spent o.1 o.2 with
    | .take longId orderIds limitPrice maxTotalFee maxCost =>
        takeGroup tick o.1
          { longId := longId
            orderIds := orderIds
            limitPrice := limitPrice
            maxTotalFee := maxTotalFee
            recipient := tick.keeper
            deadline := tick.now + firstMintDeadlineS }
          maxCost l
    | _ => l

def FirstMintTick.groups
    (tick : FirstMintTick) : List ExpiryKey :=
  tick.index.expiries.filter
    (fun g =>
      decide (lc g.underlying ∈ tick.live) &&
        !decide (g ∈ tick.done) &&
        decide (tick.now < mintCutoff g.expiry))

def FirstMintTick.openGroups
    (tick : FirstMintTick) : List (ExpiryKey × String) :=
  tick.groups.filterMap
    (fun g =>
      match tick.pinnedBy g with
      | none => none
      | some p =>
          if lc p = lc tick.clearinghouse then none
          else some (g, p))

def stepFirstMint
    (tick : FirstMintTick) : FirstMintState :=
  if !tick.enabled then s
  else if tick.openGroups = [] then s
  else
    match tick.keeperHasCode, tick.asks, tick.balance,
        tick.allowance with
    | some false, some asks, some balance, some allowance =>
        (tick.openGroups.foldl (firstMintGroup tick asks)
          { spent := s.spentOn (utcDay tick.now)
            balance := balance
            allowance := allowance
            used := 0
            stopped := false
            state := s }).state
    | _, _, _, _ => s

def firstMintTicks
    (ticks : List FirstMintTick) : FirstMintState :=
  ticks.foldl stepFirstMint FirstMintState.start

/- What the first mints sent on a UTC day really moved. -/
def FirstMintState.movedOn
    (day : Int) : Int :=
  Quota.total Quota.Charge.spent
    (s.takes.map SentTake.charge) day

----
-- What a Take Is Booked At
----

/- What the step writes for a take, nothing where it stops. -/
def TakeFate.booked
    (fate : TakeFate)
    (maxCost : Int) : Int :=
  match fate.ends with
  | none => 0
  | some outcome =>
      if spentBy outcome maxCost > 0 then spentBy outcome maxCost
      else 0

def FirstMintTick.charge
    (tick : FirstMintTick)
    (k : ExpiryKey)
    (take : FirstMintTake)
    (maxCost : Int) : Quota.Charge Int Int :=
  { key := utcDay tick.now
    bound := maxCost
    booked := (tick.fate k take).booked maxCost
    spent := (tick.fate k take).spent }

variable {limitPrice maxCost : Int}

/- A take is priced by one of the asks it can afford. -/
theorem takeOf_cost
    {first : FirstMintAsk}
    {rest : List FirstMintAsk}
    {longId maxTotalFee : Int}
    {orderIds : List Int}
    (hTake :
      takeOf first (first :: rest) =
        .take longId orderIds limitPrice maxTotalFee maxCost) :
    maxCost = (firstMintCost limitPrice).total ∧
      ∃ a ∈ first :: rest, a.price = limitPrice := by
  unfold takeOf at hTake
  simp only [FirstMintPlan.take.injEq] at hTake
  rcases hTake with ⟨-, -, hLimit, -, hCost⟩
  rw [hLimit] at hCost
  refine ⟨hCost.symm, _, ?_, hLimit⟩
  rw [List.getLastD_eq_getLast?]
  cases hLast :
      ((List.filter (fun a => decide (a.longId = first.longId))
        (first :: rest)).take firstMintMaxOrderIds).getLast? with
  | none => exact List.mem_cons_self
  | some a =>
      have hMem := List.mem_of_getLast? hLast
      exact List.mem_of_mem_filter (List.mem_of_mem_take hMem)

theorem FirstMintInput.mem_affordable
    {input : FirstMintInput}
    {a : FirstMintAsk}
    (h : a ∈ input.affordable) :
    0 < a.price ∧ (firstMintCost a.price).total ≤ input.bound := by
  unfold FirstMintInput.affordable FirstMintInput.live at h
  rw [List.mem_filter, List.mem_insertionSort,
    List.mem_filter] at h
  rcases h with ⟨⟨-, hQualifies⟩, hCost⟩
  unfold FirstMintInput.qualifies at hQualifies
  rw [Bool.and_eq_true] at hQualifies
  exact
    ⟨of_decide_eq_true hQualifies.2, of_decide_eq_true hCost⟩

theorem planFirstMint_take
    {input : FirstMintInput}
    {longId maxTotalFee : Int}
    {orderIds : List Int}
    (hPlan :
      planFirstMint input =
        .take longId orderIds limitPrice maxTotalFee maxCost) :
    maxCost = (firstMintCost limitPrice).total ∧
      0 < limitPrice ∧ maxCost ≤ input.capLeft := by
  unfold planFirstMint at hPlan
  split at hPlan
  · cases hPlan
  · split at hPlan
    · cases hPlan
    · split at hPlan
      · cases hPlan
      · split at hPlan
        · cases hPlan
        · next first rest hAffordable =>
            rcases takeOf_cost hPlan with ⟨hCost, a, ha, rfl⟩
            rw [← hAffordable] at ha
            rcases FirstMintInput.mem_affordable ha with
              ⟨hPrice, hLe⟩
            refine ⟨hCost, hPrice, ?_⟩
            rw [hCost]
            refine hLe.trans ?_
            unfold FirstMintInput.bound
            dsimp only
            split <;> omega

variable {l : FirstMintLoop}

/- A send leaves the state alone, or records the one take. -/
theorem sendTake_cases
    (tick : FirstMintTick)
    (k : ExpiryKey)
    (take : FirstMintTake)
    (maxCost : Int)
    (hSpent : l.spent = l.state.spentOn (utcDay tick.now)) :
    (sendTake tick k take maxCost l).state = l.state ∧
        (sendTake tick k take maxCost l).spent = l.spent ∨
      (sendTake tick k take maxCost l).state.takes =
          l.state.takes ++
            [{ take := take
               charge := tick.charge k take maxCost }] ∧
        (∀ day,
          (sendTake tick k take maxCost l).state.spentOn day =
            if utcDay tick.now = day then
              l.spent + (tick.fate k take).booked maxCost
            else l.state.spentOn day) ∧
        (sendTake tick k take maxCost l).spent =
          l.spent + (tick.fate k take).booked maxCost := by
  have hSame :
      ∀ day,
        l.state.spentOn day =
          if utcDay tick.now = day then l.spent + 0
          else l.state.spentOn day := by
    intro day
    split
    · next hDay => rw [← hDay, hSpent, add_zero]
    · rfl
  unfold sendTake FirstMintTick.charge TakeFate.booked
  cases hEnds : (tick.fate k take).ends with
  | none =>
      cases tick.dryRun with
      | true =>
          left
          simp only [hEnds, if_true, and_self]
      | false =>
          simp only [hEnds, Bool.false_eq_true, if_false]
          exact Or.inr ⟨rfl, hSame, (add_zero _).symm⟩
  | some outcome =>
      cases tick.dryRun with
      | true =>
          left
          simp only [hEnds, if_true, and_self]
      | false =>
          simp only [hEnds, Bool.false_eq_true, if_false]
          right
          by_cases hCost : spentBy outcome maxCost > 0
          · simp only [if_pos hCost, and_true]
            refine ⟨rfl, ?_⟩
            intro day
            exact OrderedMap.getD_set _ _ _ _ _
          · simp only [if_neg hCost]
            exact ⟨rfl, hSame, (add_zero _).symm⟩

----
-- The Ledger of a Run
----

/- The take was sent in this tick, under its own cost bound. -/
def FirstMintTick.Sent
    (tick : FirstMintTick)
    (t : SentTake) : Prop :=
  0 < t.take.limitPrice ∧
    ∃ k,
      t.charge =
        tick.charge k t.take
          (firstMintCost t.take.limitPrice).total

/-
  The stored figures are what the takes sent so far were booked
  at, and each take was sent within the room these left.
-/
structure FirstMintState.Sound
    (s : FirstMintState)
    (ticks : List FirstMintTick) : Prop where
  admitted :
    Quota.Admitted firstMintDailyCap
      (s.takes.map SentTake.charge)
  written :
    ∀ day,
      s.spentOn day =
        Quota.total Quota.Charge.booked
          (s.takes.map SentTake.charge) day
  sent : ∀ t ∈ s.takes, ∃ tick ∈ ticks, tick.Sent t

structure FirstMintLoop.Sound
    (l : FirstMintLoop)
    (tick : FirstMintTick)
    (ticks : List FirstMintTick) : Prop where
  state : l.state.Sound ticks
  spent : l.spent = l.state.spentOn (utcDay tick.now)

variable {ticks : List FirstMintTick}

theorem FirstMintState.Sound.sentOne
    {s s' : FirstMintState}
    (hSound : s.Sound ticks)
    {tick : FirstMintTick}
    (hTick : tick ∈ ticks)
    {t : SentTake}
    (hSent : tick.Sent t)
    (hDay : t.charge.key = utcDay tick.now)
    (hFits :
      t.charge.bound ≤ capLeft (s.spentOn (utcDay tick.now)))
    (hTakes : s'.takes = s.takes ++ [t])
    (hMeta :
      ∀ day,
        s'.spentOn day =
          if utcDay tick.now = day then
            s.spentOn (utcDay tick.now) + t.charge.booked
          else s.spentOn day) :
    s'.Sound ticks := by
  constructor
  · rw [hTakes, List.map_append, List.map_singleton]
    apply Quota.Admitted.concat hSound.admitted
    rw [← hSound.written, hDay]
    exact hFits
  · intro day
    rw [hTakes, List.map_append, List.map_singleton, hMeta day]
    split
    · next hSame =>
        subst hSame
        rw [← hDay, Quota.total_concat_self, ← hSound.written]
    · next hOther =>
        rw [Quota.total_concat_of_ne _ _ (by rwa [hDay]),
          hSound.written]
  · intro t' ht
    rw [hTakes, List.mem_append, List.mem_singleton] at ht
    rcases ht with ht | rfl
    · exact hSound.sent t' ht
    · exact ⟨tick, hTick, hSent⟩

theorem FirstMintLoop.Sound.sendTake
    {tick : FirstMintTick}
    (hSound : l.Sound tick ticks)
    (hTick : tick ∈ ticks)
    (k : ExpiryKey)
    {take : FirstMintTake}
    (hCost : maxCost = (firstMintCost take.limitPrice).total)
    (hPrice : 0 < take.limitPrice)
    (hFits : maxCost ≤ capLeft l.spent) :
    (sendTake tick k take maxCost l).Sound tick ticks := by
  rcases sendTake_cases tick k take maxCost hSound.spent with
    ⟨hState, hSpent⟩ | ⟨hTakes, hMeta, hSpent⟩
  · constructor
    · rw [hState]
      exact hSound.state
    · rw [hSpent, hState]
      exact hSound.spent
  · constructor
    · refine hSound.state.sentOne hTick ⟨hPrice, k, ?_⟩ rfl ?_ hTakes ?_
      · rw [← hCost]
      · rw [← hSound.spent]
        exact hFits
      · rw [← hSound.spent]
        exact hMeta
    · rw [hSpent, hMeta, if_pos rfl]

/- Only the figures that a take is booked in matter. -/
theorem FirstMintLoop.Sound.of_eq
    {l' : FirstMintLoop}
    {tick : FirstMintTick}
    (hSound : l.Sound tick ticks)
    (hState : l'.state = l.state)
    (hSpent : l'.spent = l.spent) :
    l'.Sound tick ticks := by
  constructor
  · rw [hState]
    exact hSound.state
  · rw [hSpent, hState]
    exact hSound.spent

theorem FirstMintLoop.Sound.takeGroup
    {tick : FirstMintTick}
    (hSound : l.Sound tick ticks)
    (hTick : tick ∈ ticks)
    (k : ExpiryKey)
    {take : FirstMintTake}
    (hCost : maxCost = (firstMintCost take.limitPrice).total)
    (hPrice : 0 < take.limitPrice)
    (hFits : maxCost ≤ capLeft l.spent) :
    (takeGroup tick k take maxCost l).Sound tick ticks := by
  unfold Cranker.takeGroup
  split
  · exact hSound
  · split
    · exact hSound
    · split
      · split
        · exact hSound.of_eq rfl rfl
        · next approved hApproved =>
            dsimp only
            split
            · exact hSound.of_eq rfl rfl
            · have hApprovedSound :
                  FirstMintLoop.Sound
                    { l with
                      used := l.used + approved.usesOf
                      allowance := firstMintDailyCap }
                    tick ticks :=
                hSound.of_eq rfl rfl
              split
              · exact hApprovedSound
              · exact hApprovedSound.sendTake hTick k hCost hPrice hFits
      · exact hSound.sendTake hTick k hCost hPrice hFits

theorem FirstMintLoop.Sound.group
    {tick : FirstMintTick}
    (hSound : l.Sound tick ticks)
    (hTick : tick ∈ ticks)
    (asks : List FirstMintAsk)
    (o : ExpiryKey × String) :
    (firstMintGroup tick asks l o).Sound tick ticks := by
  unfold firstMintGroup
  split
  · exact hSound
  · split
    · exact hSound.of_eq rfl rfl
    · split
      · next hPlan =>
          rcases planFirstMint_take hPlan with
            ⟨hCost, hPrice, hFits⟩
          exact hSound.takeGroup hTick o.1 hCost hPrice hFits
      · exact hSound

theorem FirstMintState.Sound.step
    {s : FirstMintState}
    (hSound : s.Sound ticks)
    {tick : FirstMintTick}
    (hTick : tick ∈ ticks) :
    (stepFirstMint s tick).Sound ticks := by
  unfold stepFirstMint
  split
  · exact hSound
  · split
    · exact hSound
    · split
      · next asks balance allowance _ _ _ _ =>
          have hLoop :
              ∀ (open' : List (ExpiryKey × String))
                (l : FirstMintLoop),
                l.Sound tick ticks →
                  (open'.foldl (firstMintGroup tick asks) l).Sound
                    tick ticks := by
            intro open'
            induction open' with
            | nil => exact fun l hl => hl
            | cons o rest ih =>
                intro l hl
                exact ih _ (hl.group hTick asks o)
          exact (hLoop _ _ ⟨hSound, rfl⟩).state
      · exact hSound

theorem FirstMintState.sound_start
    (ticks : List FirstMintTick) :
    FirstMintState.start.Sound ticks := by
  constructor
  · exact Quota.Admitted.nil
  · intro day
    rfl
  · intro t ht
    cases ht

/-
  Whatever the sends come back with and wherever the process
  stops, every take fits the room its day had left on paper.
-/
theorem firstMintTicks_sound
    (ticks : List FirstMintTick) :
    (firstMintTicks ticks).Sound ticks := by
  have hRun :
      ∀ (rest : List FirstMintTick) (s : FirstMintState),
        (∀ tick ∈ rest, tick ∈ ticks) →
          s.Sound ticks →
            (rest.foldl stepFirstMint s).Sound ticks := by
    intro rest
    induction rest with
    | nil => exact fun s _ hs => hs
    | cons tick rest ih =>
        intro s hAll hs
        exact ih _
          (fun t ht => hAll t (List.mem_cons_of_mem _ ht))
          (hs.step (hAll tick List.mem_cons_self))
  exact hRun ticks _ (fun tick hTick => hTick)
    (FirstMintState.sound_start ticks)

----
-- The Daily Cap
----

/- An included take charges at most the cost of its limit. -/
def FirstMintTick.ChargesAtMost
    (tick : FirstMintTick) : Prop :=
  ∀ k take, 0 < take.limitPrice →
    ((tick.fate k take).moved : Int) ≤
      (firstMintCost take.limitPrice).total

/-
  A take is booked before the step ends, a send that failed was
  not broadcast, and an included take charges no more than its
  simulation returned.
-/
def TakeFate.AsSimulated
    (fate : TakeFate) : Prop :=
  match fate.ends with
  | none => fate.moved = 0
  | some .sendFailed => fate.moved = 0
  | some (.confirmed (some (_, premium, takerFee))) =>
      fate.moved ≤ premium + takerFee
  | some _ => True

theorem TakeFate.spent_le_bound
    (fate : TakeFate)
    (hCost : (fate.moved : Int) ≤ maxCost) :
    fate.spent ≤ maxCost := by
  unfold TakeFate.spent
  split <;> omega

theorem TakeFate.AsSimulated.spent_le_booked
    {fate : TakeFate}
    (hFate : fate.AsSimulated)
    (hCost : (fate.moved : Int) ≤ maxCost) :
    fate.spent ≤ fate.booked maxCost := by
  unfold TakeFate.AsSimulated at hFate
  unfold TakeFate.spent TakeFate.booked
  cases hEnds : fate.ends with
  | none =>
      rw [hEnds] at hFate
      simp only at hFate ⊢
      omega
  | some outcome =>
      rw [hEnds] at hFate
      have hMax : ∀ x : Int, x ≤ if x > 0 then x else 0 := by
        intro x
        split <;> omega
      refine le_trans ?_ (hMax _)
      unfold spentBy
      cases outcome with
      | confirmed result =>
          cases result with
          | none => exact hCost
          | some r =>
              simp only at hFate ⊢
              omega
      | unconfirmed => exact hCost
      | sendFailed =>
          simp only at hFate ⊢
          omega
      | _ => exact le_refl _

/-
  In every run whose takes meet the condition, the first mints
  sent on a UTC day move at most the daily cap.
-/
theorem firstMint_moved_le_cap
    (ticks : List FirstMintTick)
    (hCharges : ∀ tick ∈ ticks, tick.ChargesAtMost)
    (hFates :
      ∀ tick ∈ ticks, ∀ k take,
        (tick.fate k take).AsSimulated)
    (day : Int) :
    (firstMintTicks ticks).movedOn day ≤ firstMintDailyCap := by
  have hSound := firstMintTicks_sound ticks
  have hEach :
      ∀ c ∈ (firstMintTicks ticks).takes.map SentTake.charge,
        c.spent ≤ c.bound ∧ c.spent ≤ c.booked := by
    intro c hc
    rcases List.mem_map.mp hc with ⟨t, ht, rfl⟩
    rcases hSound.sent t ht with
      ⟨tick, hTick, hPrice, k, hCharge⟩
    rw [hCharge]
    have hCost := hCharges tick hTick k t.take hPrice
    exact
      ⟨TakeFate.spent_le_bound _ hCost,
        (hFates tick hTick k t.take).spent_le_booked hCost⟩
  exact hSound.admitted.spent_le (by decide)
    (fun c hc => (hEach c hc).1) (fun c hc => (hEach c hc).2) day

/- One indexed series of a fresh expiry for each tick. -/
def freshSeries
    (n : Nat) : SeriesRow :=
  { series :=
      { longId := n
        underlying := "0xu"
        isPut := false
        strike := 100
        expiry := 1800000000 + 86400 * n
        oracle := "0xo" }
    block := 1 }

def restingAsk
    (orderId longId price : Int) : FirstMintAsk :=
  { orderId := orderId
    longId := longId
    maker := "0xm"
    kind := askWrite
    price := price
    units := 5
    filled := 0
    validUntil := 1900000000
    cancelled := false }

/-
  The simulation fills the ask of 100; another taker has it
  first, and the take fills the one of 45454500.
-/
def cheapAskGone
    (take : FirstMintTake) : TakeFate :=
  { ends := some (.confirmed (some (1, 1, 0)))
    moved := if take.limitPrice = 45454500 then 499999 else 0 }

def cheapAskTick
    (n : Nat) : FirstMintTick :=
  { enabled := true
    maxTxPerStep := 25
    dryRun := false
    keeper := "0xk"
    clearinghouse := "0xc"
    now := 1700000000 + 60 * n
    index :=
      { CrankerIndex.empty with series := [freshSeries n] }
    live := ["0xu"]
    done := []
    pinnedBy := fun _ => some zeroAddress
    keeperHasCode := some false
    asks :=
      some
        [restingAsk (2 * n + 1) n 100,
          restingAsk (2 * n + 2) n 45454500]
    balance := some 10000000
    allowance := some firstMintDailyCap
    stops := fun _ => false
    yields := fun _ => false
    approve := fun _ => none
    yieldsAfterApprove := fun _ => false
    fate := fun _ => cheapAskGone }

theorem firstMintCost_nonneg
    (hPrice : 0 < limitPrice) :
    0 ≤ (firstMintCost limitPrice).total := by
  have hPremium : 0 ≤ limitPrice.tdiv unitsPerShare :=
    Int.tdiv_nonneg hPrice.le (by decide)
  have hFee :
      0 ≤ (limitPrice.tdiv unitsPerShare *
        takerFeeCapCeilBps).tdiv bps :=
    Int.tdiv_nonneg (mul_nonneg hPremium (by decide)) (by decide)
  exact add_nonneg hPremium hFee

theorem cheapAskTick_charges
    (n : Nat) :
    (cheapAskTick n).ChargesAtMost := by
  intro k take hPrice
  have hMoved :
      ((cheapAskTick n).fate k take).moved =
        if take.limitPrice = 45454500 then 499999 else 0 := rfl
  rw [hMoved]
  split
  · next hLimit =>
      rw [hLimit]
      decide
  · exact firstMintCost_nonneg hPrice

/- Eleven takes booked at one base unit each, in one day. -/
theorem cheap_ask_gone_overspends :
    (∀ tick ∈ (List.range 11).map cheapAskTick,
        tick.ChargesAtMost) ∧
      (firstMintTicks ((List.range 11).map cheapAskTick)).movedOn
          (utcDay 1700000000) = 5499989 ∧
        firstMintDailyCap < 5499989 := by
  refine ⟨?_, ?_, ?_⟩
  · intro tick hTick
    rcases List.mem_map.mp hTick with ⟨n, -, rfl⟩
    exact cheapAskTick_charges n
  · decide +kernel
  · decide

/- The same take when the ask it simulated is still there. -/
def cheapAskThere
    (take : FirstMintTake) : TakeFate :=
  { ends := some (.confirmed (some (1, 1, 0)))
    moved := if take.limitPrice = 45454500 then 1 else 0 }

theorem cheap_ask_there_stays_within :
    (firstMintTicks
        [{ cheapAskTick 0 with
          fate := fun _ => cheapAskThere }]).movedOn
      (utcDay 1700000000) ≤ firstMintDailyCap := by
  apply firstMint_moved_le_cap
  · intro tick hTick
    rw [List.mem_singleton] at hTick
    subst hTick
    intro k take hPrice
    unfold cheapAskThere
    dsimp only
    split
    · next hLimit =>
        rw [hLimit]
        decide
    · exact firstMintCost_nonneg hPrice
  · intro tick hTick k take
    rw [List.mem_singleton] at hTick
    subst hTick
    unfold cheapAskThere TakeFate.AsSimulated
    dsimp only
    split <;> omega

end Callhouse.Keeper.Cranker
