import Callhouse.Keeper.Mm.Constants
import Callhouse.Lib.LeakyBucket

/-
  keeper/src/v2/mm/outflow.ts: the bot's projection of the
  vault's daily outflow level, and the foreign spend it reads
  from it.

  The vault is the leaky bucket that the file describes: it
  drains at its cap since the last booked call, and books the
  calls of every quoter and of the admin. A tick's reading of
  it is a view: it books nothing, and dates nothing.

  Main declarations:
    * `project`, `decay`, `foreignSpend`
    * `bookCalls`, `Observes`
    * `observed_le_decay`, `FairLook`
    * `foreignSpend_fair_iff`
-/

----
-- Projection
----

namespace Callhouse.Keeper.Mm

/- 0.001 USDG. -/
def foreignSpendTolerance : Int := 1000

/- Positive is charged, negative is credited. -/
structure BookedCall where
  what : String
  delta : Int
deriving DecidableEq

def bookLevel
    (level : Int)
    (c : BookedCall) : Int :=
  if c.delta ≥ 0 then level + c.delta
  else max (level - -c.delta) 0

def project
    (used : Int)
    (calls : List BookedCall) : Int :=
  calls.foldl bookLevel (max used 0)

def decay
    (level cap elapsedS : Int) : Int :=
  if elapsedS ≤ 0 ∨ cap ≤ 0 then max level 0
  else
    max
      (max level 0 -
        (cap * elapsedS).tdiv outflowWindowS) 0

/- `timestamp` is at or past the last booked call. -/
structure Projection where
  used : Int
  timestamp : Int
  cap : Int
deriving DecidableEq

structure ForeignSpendInput where
  observedUsed : Int
  now : Int
  cap : Int
  previous : Option Projection
  tolerance : Option Int

/- What is left of a projection at a later look. -/
def expectedUsed
    (previous : Projection)
    (cap now : Int) : Int :=
  decay previous.used (min previous.cap cap)
    (now - previous.timestamp)

def foreignSpend
    (input : ForeignSpendInput) : Option Int :=
  match input.previous with
  | none => none
  | some previous =>
      if input.now < previous.timestamp then none
      else
        let expected :=
          expectedUsed previous input.cap input.now
        let excess := input.observedUsed - expected
        if excess >
            input.tolerance.getD foreignSpendTolerance then
          some excess
        else none

----
-- The Vault's Bucket
----

/- A booked call of the bot, or of another party. -/
structure VaultCall where
  call : BookedCall
  byBot : Bool
  cap : Int
  timestamp : Int
deriving DecidableEq

/- Drain at the cap since the last call, then book. -/
def bookCall
    (b : LeakyBucket)
    (c : VaultCall) : LeakyBucket :=
  (b.refill c.cap c.timestamp).charge outflowWindowS
    c.call.delta

def bookCalls
    (b : LeakyBucket)
    (calls : List VaultCall) : LeakyBucket :=
  calls.foldl bookCall b

/- The calls that the bot projects. -/
def botCalls
    (calls : List VaultCall) : List BookedCall :=
  (calls.filter (fun c => c.byBot)).map (fun c => c.call)

/- USDG that the other parties' calls charged. -/
def spentByOthers
    (calls : List VaultCall) : Int :=
  ((calls.filter (fun c => !c.byBot)).map
    (fun c => max c.call.delta 0)).sum

/- Calls at non-decreasing times, none before `start`. -/
structure InOrder
    (start : Int)
    (calls : List VaultCall) : Prop where
  after : ∀ c ∈ calls, start ≤ c.timestamp
  ordered :
    calls.Pairwise (fun c c' => c.timestamp ≤ c'.timestamp)
  caps_nonneg : ∀ c ∈ calls, 0 ≤ c.cap

/-
  What `used` reads at `now`. The bucket drains since its last
  booked call: at the cap of now, or at the cap that the tick
  read at `head` until the cap changed.
-/
inductive Observes
    (b : LeakyBucket)
    (head cap cap' now : Int) : Int → Prop where
  | drained :
      b.since ≤ now →
        Observes b head cap cap' now
          ((b.refill cap' now).used outflowWindowS)
  | changed
      (middle : Int) :
      head ≤ middle → b.since ≤ middle → middle ≤ now →
        Observes b head cap cap' now
          (((b.refill cap middle).refill cap' now).used
            outflowWindowS)

----
-- The Projection Bounds the Bucket
----

theorem bookLevel_eq
    {level : Int}
    (hLevel : 0 ≤ level)
    (c : BookedCall) :
    bookLevel level c = max (level + c.delta) 0 := by
  unfold bookLevel
  split
  · next hCharge =>
      rw [max_eq_left (add_nonneg hLevel hCharge)]
  · rw [sub_neg_eq_add]

theorem bookLevel_nonneg
    {level : Int}
    (hLevel : 0 ≤ level)
    (c : BookedCall) :
    0 ≤ bookLevel level c := by
  rw [bookLevel_eq hLevel]
  exact le_max_right _ _

variable {b : LeakyBucket}

/- A call moves both levels by the same units, or up. -/
theorem bookCall_level_le
    {c : VaultCall}
    {k : Int}
    (hCap : 0 ≤ c.cap)
    (hTime : b.since ≤ c.timestamp)
    (h : b.level ≤ k * outflowWindowS) :
    (bookCall b c).level ≤
      max (k + c.call.delta) 0 * outflowWindowS := by
  apply LeakyBucket.charge_level_le outflowWindowS_pos
  exact (LeakyBucket.refill_level_le_self hCap hTime).trans h

variable {calls : List VaultCall}

/-
  Whole units that bound the bucket still bound it after any
  calls: the bot's projected, and the others' spend on top.
-/
theorem bookCalls_level_le
    {level others : Int}
    (hOrder : InOrder b.since calls)
    (hLevel : 0 ≤ level)
    (hOthers : 0 ≤ others)
    (h : b.level ≤ (level + others) * outflowWindowS) :
    (bookCalls b calls).level ≤
      ((botCalls calls).foldl bookLevel level +
          (others + spentByOthers calls)) *
        outflowWindowS := by
  induction calls generalizing b level others with
  | nil => simpa [bookCalls, botCalls, spentByOthers] using h
  | cons c rest ih =>
      have hMem : c ∈ c :: rest := List.mem_cons_self ..
      have hBooked :=
        bookCall_level_le (hOrder.caps_nonneg c hMem)
          (hOrder.after c hMem) h
      have hRest : InOrder (bookCall b c).since rest := by
        have hSorted := List.pairwise_cons.mp hOrder.ordered
        constructor
        · exact hSorted.1
        · exact hSorted.2
        · intro c' hc'
          exact hOrder.caps_nonneg c'
            (List.mem_cons_of_mem _ hc')
      have hRun :
          bookCalls b (c :: rest) =
            bookCalls (bookCall b c) rest := rfl
      rw [hRun]
      cases hBot : c.byBot with
      | true =>
          have hCalls :
              botCalls (c :: rest) =
                c.call :: botCalls rest := by
            simp [botCalls, hBot]
          have hSpent :
              spentByOthers (c :: rest) =
                spentByOthers rest := by
            simp [spentByOthers, hBot]
          rw [hCalls, hSpent, List.foldl_cons]
          apply ih hRest (bookLevel_nonneg hLevel c.call)
            hOthers
          refine hBooked.trans ?_
          apply mul_le_mul_of_nonneg_right _
            outflowWindowS_pos.le
          rw [bookLevel_eq hLevel]
          omega
      | false =>
          have hCalls : botCalls (c :: rest) = botCalls rest := by
            simp [botCalls, hBot]
          have hSpent :
              spentByOthers (c :: rest) =
                max c.call.delta 0 + spentByOthers rest := by
            simp [spentByOthers, hBot]
          rw [hCalls, hSpent, ← add_assoc others]
          apply ih hRest hLevel
            (add_nonneg hOthers (le_max_right _ _))
          refine hBooked.trans ?_
          apply mul_le_mul_of_nonneg_right _
            outflowWindowS_pos.le
          omega

variable {dated : Int}

/- The bucket is dated by its last call. -/
theorem bookCalls_since_le
    (hStart : b.since ≤ dated)
    (hDated : ∀ c ∈ calls, c.timestamp ≤ dated) :
    (bookCalls b calls).since ≤ dated := by
  induction calls generalizing b with
  | nil => exact hStart
  | cons c rest ih =>
      apply ih
      · exact hDated c (List.mem_cons_self ..)
      · intro c' hc'
        exact hDated c' (List.mem_cons_of_mem _ hc')

----
-- A Later Look
----

variable {cap : Int}

theorem decay_eq
    {level elapsedS : Int}
    (hLevel : 0 ≤ level)
    (hCap : 0 ≤ cap)
    (hElapsed : 0 ≤ elapsedS) :
    decay level cap elapsedS =
      max
        (level - (cap * elapsedS).tdiv outflowWindowS)
        0 := by
  unfold decay
  rw [max_eq_left hLevel]
  split
  · next hStill =>
      have hNone : cap * elapsedS = 0 := by
        rcases hStill with hTime | hFrozen
        · rw [le_antisymm hTime hElapsed, mul_zero]
        · rw [le_antisymm hFrozen hCap, zero_mul]
      rw [hNone, Int.zero_tdiv, sub_zero,
        max_eq_left hLevel]
  · rfl

variable {cap' : Int} {head now : Int}

/- What drains after the projection's date, at the least. -/
theorem drained_level_le
    {used : Int}
    (hCap : 0 ≤ cap)
    (hCap' : 0 ≤ cap')
    (h : Observes b head cap cap' now used) :
    ∃ b' : LeakyBucket,
      used = b'.used outflowWindowS ∧
        b'.level ≤
          max (b.level - min cap cap' * (now - b.since))
            0 := by
  cases h with
  | drained hTime =>
      exact
        ⟨_, rfl,
          LeakyBucket.refill_level_le (min_le_right _ _)
            hTime⟩
  | changed middle _ hFirst hThen =>
      exact
        ⟨_, rfl,
          LeakyBucket.refill_refill_level_le
            (le_min hCap hCap') (min_le_left _ _)
            (min_le_right _ _) hFirst hThen⟩

theorem observed_le_decay
    {used level others : Int}
    (hCap : 0 ≤ cap)
    (hCap' : 0 ≤ cap')
    (hDated : b.since ≤ dated)
    (hNow : dated ≤ now)
    (hLevel : 0 ≤ level)
    (hOthers : 0 ≤ others)
    (hBound : b.level ≤ (level + others) * outflowWindowS)
    (h : Observes b head cap cap' now used) :
    used ≤
      decay level (min cap cap') (now - dated) + others := by
  rcases drained_level_le hCap hCap' h with
    ⟨b', rfl, hDrained⟩
  have hLeast : 0 ≤ min cap cap' := le_min hCap hCap'
  have hElapsed : 0 ≤ now - dated := sub_nonneg.mpr hNow
  have hShorter :
      min cap cap' * (now - dated) ≤
        min cap cap' * (now - b.since) :=
    mul_le_mul_of_nonneg_left
      (sub_le_sub_left hDated _) hLeast
  have hFromDate :
      b'.level ≤
        max (b.level - min cap cap' * (now - dated)) 0 :=
    hDrained.trans
      (max_le_max_right 0 (sub_le_sub_left hShorter _))
  have hUsed :=
    LeakyBucket.used_le_of_drained outflowWindowS_pos hBound
      (mul_nonneg hLeast hElapsed) hFromDate
  rw [decay_eq hLevel hLeast hElapsed]
  omega

theorem spentByOthers_nonneg
    (calls : List VaultCall) :
    0 ≤ spentByOthers calls := by
  apply List.sum_nonneg
  intro x hx
  rcases List.mem_map.mp hx with ⟨c, _, rfl⟩
  exact le_max_right _ _

theorem project_nonneg
    (used : Int)
    (calls : List BookedCall) :
    0 ≤ project used calls := by
  unfold project
  have hStart : 0 ≤ max used 0 := le_max_right _ _
  generalize max used 0 = level at hStart
  induction calls generalizing level with
  | nil => exact hStart
  | cons c rest ih =>
      exact ih _ (bookLevel_nonneg hStart c)

/- A look at `now` against the projection of a tick. -/
def lookAt
    (b : LeakyBucket)
    (calls : List VaultCall)
    (cap dated cap' now observed : Int) :
    ForeignSpendInput :=
  { observedUsed := observed
    now := now
    cap := cap'
    previous :=
      some
        { used :=
            project (b.used outflowWindowS) (botCalls calls)
          timestamp := dated
          cap := cap }
    tolerance := none }

variable {observed : Int}

theorem foreignSpend_lookAt
    (hNow : dated ≤ now)
    (excess : Int) :
    foreignSpend
          (lookAt b calls cap dated cap' now observed) =
        some excess ↔
      foreignSpendTolerance < excess ∧
        observed =
          decay
              (project (b.used outflowWindowS)
                (botCalls calls))
              (min cap cap') (now - dated) +
            excess := by
  unfold foreignSpend lookAt expectedUsed
  simp only [if_neg (not_lt.mpr hNow), Option.getD_none]
  split
  · next hMore =>
      rw [Option.some.injEq]
      omega
  · next hFew =>
      constructor
      · intro h
        cases h
      · rintro ⟨hExcess, hObserved⟩
        omega

theorem foreignSpend_lookAt_early
    (hNow : now < dated) :
    foreignSpend
        (lookAt b calls cap dated cap' now observed) =
      none :=
  if_pos hNow

theorem observed_le_expected
    (hCap : 0 ≤ cap)
    (hCap' : 0 ≤ cap')
    (hOrder : InOrder b.since calls)
    (hHead : b.since ≤ dated)
    (hDated : ∀ c ∈ calls, c.timestamp ≤ dated)
    (hNow : dated ≤ now)
    (hObserved :
      Observes (bookCalls b calls) head cap cap' now
        observed) :
    observed ≤
      decay
          (project (b.used outflowWindowS) (botCalls calls))
          (min cap cap') (now - dated) +
        spentByOthers calls := by
  have hUsed : 0 ≤ b.used outflowWindowS :=
    LeakyBucket.used_nonneg outflowWindowS_pos
  have hStart :
      b.level ≤
        (b.used outflowWindowS + 0) * outflowWindowS := by
    rw [add_zero]
    exact LeakyBucket.level_le_used outflowWindowS_pos
  have hBooked :=
    bookCalls_level_le hOrder hUsed (le_refl 0) hStart
  have hProject :
      project (b.used outflowWindowS) (botCalls calls) =
        (botCalls calls).foldl bookLevel
          (b.used outflowWindowS) := by
    unfold project
    rw [max_eq_left hUsed]
  rw [zero_add, ← hProject] at hBooked
  exact
    observed_le_decay hCap hCap'
      (bookCalls_since_le hHead hDated) hNow
      (project_nonneg _ _) (spentByOthers_nonneg calls)
      hBooked hObserved

----
-- The Tick's View
----

/-
  The first booked call drains from the call before the tick,
  as if the tick had never looked.
-/
theorem bookCalls_refill
    {last : LeakyBucket}
    (hCap : 0 ≤ cap)
    (hLast : last.since ≤ head)
    (hOrder : InOrder head calls)
    (hFirst : ∀ c ∈ calls.head?, c.cap = cap)
    (hCalls : calls ≠ []) :
    bookCalls (last.refill cap head) calls =
      bookCalls last calls := by
  cases calls with
  | nil => exact absurd rfl hCalls
  | cons c rest =>
      have hTime : head ≤ c.timestamp :=
        hOrder.after c (List.mem_cons_self ..)
      have hSame : c.cap = cap := hFirst c rfl
      have hBooked :
          bookCall (last.refill cap head) c =
            bookCall last c := by
        unfold bookCall
        rw [hSame,
          LeakyBucket.refill_refill hCap hLast hTime]
      change
        bookCalls (bookCall (last.refill cap head) c) rest =
          bookCalls (bookCall last c) rest
      rw [hBooked]

/-
  Without a booked call the look falls on what the tick read,
  or on the level that the later cap alone left at `dated`.
-/
theorem idle_observed_le
    {last : LeakyBucket}
    (hCap : 0 ≤ cap)
    (hCap' : 0 ≤ cap')
    (hLast : last.since ≤ head)
    (hHead : head ≤ dated)
    (hNow : dated ≤ now)
    (hRead :
      (last.refill cap' dated).used outflowWindowS ≤
        (last.refill cap head).used outflowWindowS +
          foreignSpendTolerance)
    (h : Observes last head cap cap' now observed) :
    observed ≤
      decay ((last.refill cap head).used outflowWindowS)
          (min cap cap') (now - dated) +
        foreignSpendTolerance := by
  have hTolerance : 0 ≤ foreignSpendTolerance := by decide
  have hUsed : 0 ≤ (last.refill cap head).used outflowWindowS :=
    LeakyBucket.used_nonneg outflowWindowS_pos
  cases h with
  | drained _ =>
      have hThrough :=
        LeakyBucket.refill_refill hCap'
          (hLast.trans hHead) hNow
      have hLook :
          Observes (last.refill cap' dated) head cap cap' now
            (((last.refill cap' dated).refill cap' now).used
              outflowWindowS) :=
        Observes.drained hNow
      rw [← hThrough]
      exact
        observed_le_decay hCap hCap' (le_refl _) hNow hUsed
          hTolerance
          ((LeakyBucket.used_le_iff outflowWindowS_pos).mp
            hRead)
          hLook
  | changed middle hMiddle _ hThen =>
      have hThrough :=
        LeakyBucket.refill_refill hCap hLast hMiddle
      have hLook :
          Observes (last.refill cap head) head cap cap' now
            ((((last.refill cap head).refill cap
              middle).refill cap' now).used
              outflowWindowS) :=
        Observes.changed middle hMiddle hMiddle hThen
      rw [← hThrough]
      apply
        observed_le_decay hCap hCap' hHead hNow hUsed
          hTolerance _ hLook
      rw [← LeakyBucket.used_le_iff outflowWindowS_pos]
      exact le_add_of_nonneg_right hTolerance

/- A cap that was not lowered drains at least as much. -/
theorem used_le_of_cap_le
    {last : LeakyBucket}
    (hCap : 0 ≤ cap)
    (hLast : last.since ≤ head)
    (hHead : head ≤ dated)
    (hLe : cap ≤ cap') :
    (last.refill cap' dated).used outflowWindowS ≤
      (last.refill cap head).used outflowWindowS := by
  rw [LeakyBucket.used_le_iff outflowWindowS_pos,
    ← LeakyBucket.refill_refill (hCap.trans hLe) hLast hHead]
  calc
    ((last.refill cap' head).refill cap' dated).level ≤
        (last.refill cap' head).level :=
      LeakyBucket.refill_level_le_self (hCap.trans hLe) hHead
    _ ≤ (last.refill cap head).level :=
      LeakyBucket.refill_level_le hLe hLast
    _ ≤ _ := LeakyBucket.level_le_used outflowWindowS_pos

/-
  A look at `now` accuses no one while all calls are the
  bot's, and reports what lies above the projection whole.
-/
def FairLook
    (view : LeakyBucket)
    (calls : List VaultCall)
    (cap dated cap' now observed : Int) : Prop :=
  ((∀ c ∈ calls, c.byBot = true) →
      foreignSpend
          (lookAt view calls cap dated cap' now observed) =
        none) ∧
    (dated ≤ now → ∀ excess,
      foreignSpend
            (lookAt view calls cap dated cap' now
              observed) =
          some excess ↔
        foreignSpendTolerance < excess ∧
          observed =
            decay
                (project (view.used outflowWindowS)
                  (botCalls calls))
                (min cap cap') (now - dated) +
              excess)

theorem fairLook_of_bound
    {view : LeakyBucket}
    (hBound :
      (∀ c ∈ calls, c.byBot = true) → ∀ excess,
        foreignSpend
              (lookAt view calls cap dated cap' now
                observed) =
            some excess →
          excess ≤ 0) :
    FairLook view calls cap dated cap' now observed := by
  refine ⟨?_, ?_⟩
  · intro hBot
    cases hFound :
        foreignSpend
          (lookAt view calls cap dated cap' now observed) with
    | none => rfl
    | some excess =>
        have hNone := hBound hBot excess hFound
        rcases lt_or_ge now dated with hEarly | hNow
        · rw [foreignSpend_lookAt_early hEarly] at hFound
          cases hFound
        · have hMore :=
            ((foreignSpend_lookAt hNow excess).mp hFound).1
          have hTolerance : 0 < foreignSpendTolerance := by
            decide
          omega
  · exact fun hNow excess => foreignSpend_lookAt hNow excess

/- An idle tick's look, right at its reading. -/
theorem used_le_of_fairLook
    {last : LeakyBucket}
    (hFair :
      FairLook (last.refill cap head) [] cap dated cap' dated
        ((last.refill cap' dated).used outflowWindowS)) :
    (last.refill cap' dated).used outflowWindowS ≤
      (last.refill cap head).used outflowWindowS +
        foreignSpendTolerance := by
  have hQuiet :=
    hFair.1 (fun c hc => absurd hc List.not_mem_nil)
  by_contra hOver
  have hUsed :
      0 ≤ (last.refill cap head).used outflowWindowS :=
    LeakyBucket.used_nonneg outflowWindowS_pos
  have hView :
      decay
          (project
            ((last.refill cap head).used outflowWindowS)
            (botCalls []))
          (min cap cap') (dated - dated) =
        (last.refill cap head).used outflowWindowS := by
    simp [decay, project, botCalls, hUsed]
  have hFound :
      foreignSpend
          (lookAt (last.refill cap head) [] cap dated cap'
            dated
            ((last.refill cap' dated).used
              outflowWindowS)) =
        some
          ((last.refill cap' dated).used outflowWindowS -
            (last.refill cap head).used outflowWindowS) :=
    (foreignSpend_lookAt (le_refl dated) _).mpr
      ⟨by omega, by rw [hView, add_sub_cancel]⟩
  rw [hQuiet] at hFound
  cases hFound

/- What a look reports, the others have spent. -/
theorem excess_le_spentByOthers
    {last : LeakyBucket}
    {excess : Int}
    (hCap : 0 ≤ cap)
    (hCap' : 0 ≤ cap')
    (hLast : last.since ≤ head)
    (hOrder : InOrder head calls)
    (hFirst : ∀ c ∈ calls.head?, c.cap = cap)
    (hHead : head ≤ dated)
    (hDated : ∀ c ∈ calls, c.timestamp ≤ dated)
    (hRead :
      calls ≠ [] ∨
        (last.refill cap' dated).used outflowWindowS ≤
          (last.refill cap head).used outflowWindowS +
            foreignSpendTolerance)
    (hObserved :
      Observes (bookCalls last calls) head cap cap' now
        observed)
    (hFound :
      foreignSpend
          (lookAt (last.refill cap head) calls cap dated
            cap' now observed) =
        some excess) :
    excess ≤ spentByOthers calls := by
  rcases lt_or_ge now dated with hEarly | hNow
  · rw [foreignSpend_lookAt_early hEarly] at hFound
    cases hFound
  · rcases (foreignSpend_lookAt hNow excess).mp hFound with
      ⟨hMore, hEq⟩
    by_cases hCalls : calls = []
    · subst hCalls
      have hLe :=
        idle_observed_le hCap hCap' hLast hHead hNow
          (hRead.resolve_left (fun h => h rfl)) hObserved
      have hView :
          project
              ((last.refill cap head).used outflowWindowS)
              (botCalls []) =
            (last.refill cap head).used outflowWindowS :=
        max_eq_left
          (LeakyBucket.used_nonneg outflowWindowS_pos)
      rw [hView] at hEq
      omega
    · rw [← bookCalls_refill hCap hLast hOrder hFirst hCalls]
        at hObserved
      have hLe :=
        observed_le_expected hCap hCap' hOrder hHead hDated
          hNow hObserved
      omega

/-
  Every look is fair exactly when the tick booked a call, or
  the cap was not lowered by so much that the level drained
  since the call before the tick stands above what it read.
-/
theorem foreignSpend_fair_iff
    (last : LeakyBucket)
    (head cap cap' dated : Int)
    (calls : List VaultCall)
    (hCap : 0 ≤ cap)
    (hCap' : 0 ≤ cap')
    (hLast : last.since ≤ head)
    (hOrder : InOrder head calls)
    (hFirst : ∀ c ∈ calls.head?, c.cap = cap)
    (hHead : head ≤ dated)
    (hDated : ∀ c ∈ calls, c.timestamp ≤ dated) :
    ((∀ now observed,
        Observes (bookCalls last calls) head cap cap' now
            observed →
          FairLook (last.refill cap head) calls cap dated
            cap' now observed) ↔
      calls ≠ [] ∨
        (last.refill cap' dated).used outflowWindowS ≤
          (last.refill cap head).used outflowWindowS +
            foreignSpendTolerance) ∧
      (calls ≠ [] ∨
          (last.refill cap' dated).used outflowWindowS ≤
            (last.refill cap head).used outflowWindowS +
              foreignSpendTolerance →
        ∀ now observed excess,
          Observes (bookCalls last calls) head cap cap' now
              observed →
            foreignSpend
                  (lookAt (last.refill cap head) calls cap
                    dated cap' now observed) =
                some excess →
              excess ≤ spentByOthers calls) ∧
      (cap ≤ cap' →
        (last.refill cap' dated).used outflowWindowS ≤
          (last.refill cap head).used outflowWindowS) := by
  refine ⟨⟨?_, ?_⟩, ?_, ?_⟩
  · intro hFair
    by_cases hCalls : calls = []
    · subst hCalls
      exact
        Or.inr
          (used_le_of_fairLook
            (hFair dated _
              (Observes.drained (hLast.trans hHead))))
    · exact Or.inl hCalls
  · intro hRead now observed hObserved
    apply fairLook_of_bound
    intro hBot excess hFound
    have hAlone : spentByOthers calls = 0 := by
      have hNone : calls.filter (fun c => !c.byBot) = [] := by
        simpa using hBot
      simp [spentByOthers, hNone]
    rw [← hAlone]
    exact
      excess_le_spentByOthers hCap hCap' hLast hOrder hFirst
        hHead hDated hRead hObserved hFound
  · intro hRead now observed excess hObserved hFound
    exact
      excess_le_spentByOthers hCap hCap' hLast hOrder hFirst
        hHead hDated hRead hObserved hFound
  · exact used_le_of_cap_le hCap hLast hHead

/-
  A tick's two calls, and another quoter's spend of 5000
  between them.
-/
def sharedTick : List VaultCall :=
  [{ call := { what := "place", delta := 400 }
     byBot := true
     cap := 86400
     timestamp := 1010 },
    { call := { what := "place", delta := 5000 }
      byBot := false
      cap := 86400
      timestamp := 1020 },
    { call := { what := "cancel", delta := -100 }
      byBot := true
      cap := 86400
      timestamp := 1020 }]

def emptyBucket : LeakyBucket :=
  LeakyBucket.mk 0 0 le_rfl

def sharedUsed : Int :=
  LeakyBucket.used outflowWindowS
    ((bookCalls emptyBucket sharedTick).refill 86400 1020)

theorem sharedTick_reported :
    foreignSpend
        (lookAt (emptyBucket.refill 86400 1000) sharedTick
          86400 1020 86400 1020 sharedUsed) =
      some 4990 ∧
    4990 ≤ spentByOthers sharedTick := by
  have hOrder : InOrder 1000 sharedTick := by
    constructor <;> decide
  have hBooked : sharedTick ≠ [] := by decide
  have hObserved :
      Observes (bookCalls emptyBucket sharedTick) 1000 86400
        86400 1020 sharedUsed :=
    Observes.drained (by decide)
  rcases
    foreignSpend_fair_iff emptyBucket 1000 86400 86400 1020
      sharedTick (by decide) (by decide) (by decide) hOrder
      (by decide) (by decide) (by decide) with
    ⟨hFair, hBound, _⟩
  have hLook :=
    hFair.mpr (Or.inl hBooked) 1020 sharedUsed hObserved
  have hFound := (hLook.2 le_rfl 4990).mpr (by decide +kernel)
  exact
    ⟨hFound,
      hBound (Or.inl hBooked) 1020 sharedUsed 4990 hObserved
        hFound⟩

/- 50000 USDG used, and no booked call since. -/
def idleVault : LeakyBucket :=
  LeakyBucket.mk (50000000000 * outflowWindowS) 0 (by decide)

/-
  The tick at 3600 reads 46400 USDG and books nothing. A cap
  halved after it leaves 48170 USDG at 3660, where the bot
  expects 46370.
-/
theorem idle_tick_accuses :
    Observes (bookCalls idleVault []) 3600 86400000000
        43200000000 3660 48170000000 ∧
      (idleVault.refill 86400000000 3600).used
          outflowWindowS =
        46400000000 ∧
      foreignSpend
          (lookAt (idleVault.refill 86400000000 3600) []
            86400000000 3600 43200000000 3660
            48170000000) =
        some 1800000000 := by
  have hUsed :
      (idleVault.refill 43200000000 3660).used
          outflowWindowS =
        48170000000 := by
    decide +kernel
  refine ⟨?_, by decide +kernel, by decide +kernel⟩
  rw [← hUsed]
  exact Observes.drained (by decide)

end Callhouse.Keeper.Mm
