import Callhouse.Keeper.Mm.Risk
import Callhouse.Lib.PrunedWindow

/-
  keeper/src/v2/mm/engine.ts, SpotMoveBreaker: the breaker
  that halts a market whose spot moved too far inside its
  window.

  Main declarations:
    * `SpotMoveBreaker.observe`, `SpotMoveBreaker.haltOf`
    * `observe_recorded`, `observeAll_recorded`
    * `breaker_off_never_halts`
    * `haltOf_iff_moved`
-/

----
-- The Breaker
----

namespace Callhouse.Keeper.Mm

/- `bps = 0` turns the breaker off. -/
structure BreakerParams where
  bps : Int
  windowS : Int
  haltS : Int
deriving DecidableEq

structure SpotReading where
  readAt : Int
  spot : Int
deriving DecidableEq

structure BreakerTrip where
  haltUntil : Int
  moveBps : Int
  spotFrom : Int
  spotTo : Int
deriving DecidableEq

inductive HaltName where
  | killed
  | lossStop
  | notQuoter
  | tradingPaused
  | expired
  | pullWindow
  | marketClosed
  | marketNotQuoted
  | marketDisabled
  | spotStale
  | notSelected
  | fairUnavailable
  | fairStale
  | fairSpotMismatch
  | fairOutOfBounds
  | guardsUnreadable
  | epochOutside
  | epochWinddown
  | protocolCross
  | otherAsker
  | spotAge
  | openGrace
  | spotMoveBreaker
  | eventUncertainty
  | fairBeforeOpen
  | quotingPaused
deriving DecidableEq

structure Halt where
  halt : HaltName
  detail : Option String
deriving DecidableEq

/- Both maps are keyed by the lower-case underlying. -/
structure SpotMoveBreaker where
  history : String → List SpotReading
  tripped : String → Option BreakerTrip

def SpotMoveBreaker.new : SpotMoveBreaker :=
  { history := fun _ => []
    tripped := fun _ => none }

/- The move from a reading to a spot. -/
def spotMoveOf
    (r : SpotReading)
    (spot : Int) : Int :=
  let gap := if spot > r.spot then spot - r.spot else r.spot - spot
  (gap * bps).tdiv r.spot

/- The largest move over the limit, and what it moved from. -/
def worstMove
    (params : BreakerParams)
    (kept : List SpotReading)
    (spot : Int) : Option (Int × Int) :=
  kept.foldl
    (fun worst r =>
      let moved := spotMoveOf r spot
      if moved > params.bps ∧
          worst.all (fun w => decide (moved > w.1)) = true then
        some (moved, r.spot)
      else worst)
    none

/- The move in bps that tripped it, and the breaker after. -/
def SpotMoveBreaker.observe
    (params : BreakerParams)
    (b : SpotMoveBreaker)
    (underlying : String)
    (now : Int)
    (spot : Option Int) : Option Int × SpotMoveBreaker :=
  match spot with
  | none => (none, b)
  | some spot =>
      if params.bps ≤ 0 ∨ spot ≤ 0 then (none, b)
      else
        let key := toLowerCase underlying
        let kept :=
          (b.history key).filter
            (fun r => decide (now - r.readAt ≤ params.windowS))
        let history :=
          Function.update b.history key
            (kept ++ [{ readAt := now, spot := spot }])
        match worstMove params kept spot with
        | none => (none, { b with history := history })
        | some worst =>
            (some worst.1,
              { history := history
                tripped :=
                  Function.update b.tripped key
                    (some
                      { haltUntil := now + params.haltS
                        moveBps := worst.1
                        spotFrom := worst.2
                        spotTo := spot }) })

def SpotMoveBreaker.haltOf
    (params : BreakerParams)
    (b : SpotMoveBreaker)
    (underlying : String)
    (now : Int) : Option Halt :=
  match b.tripped (toLowerCase underlying) with
  | none => none
  | some h =>
      if now ≥ h.haltUntil then none
      else
        some
          { halt := .spotMoveBreaker
            detail :=
              some
                (s!"spot {h.spotFrom} -> {h.spotTo} " ++
                  s!"({h.moveBps} bps > {params.bps} in " ++
                  s!"{params.windowS} s); halted until " ++
                  s!"{h.haltUntil}") }

/- One market read of a tick. -/
structure SpotObservation where
  underlying : String
  now : Int
  spot : Option Int
deriving DecidableEq

def SpotMoveBreaker.observeAll
    (params : BreakerParams)
    (observations : List SpotObservation) : SpotMoveBreaker :=
  observations.foldl
    (fun b o => (b.observe params o.underlying o.now o.spot).2)
    .new

----
-- One Observation
----

section

/- The move from one reading to a later one is too far. -/
def MovedTooFar
    (params : BreakerParams)
    (a b : SpotReading) : Prop :=
  b.readAt - a.readAt ≤ params.windowS ∧
    params.bps < |b.spot - a.spot| * 10000 / a.spot

/- The reading an observation records of a market. -/
def readingOf
    (market : String)
    (o : SpotObservation) : Option SpotReading :=
  if toLowerCase o.underlying = toLowerCase market then
    match o.spot with
    | none => none
    | some spot =>
        if 0 < spot then
          some { readAt := o.now, spot := spot }
        else none
  else none

def readingsOf
    (market : String)
    (observations : List SpotObservation) :
    List SpotReading :=
  observations.filterMap (readingOf market)

variable {params : BreakerParams}

theorem spotMoveOf_eq
    (r : SpotReading)
    (spot : Int) :
    spotMoveOf r spot = |spot - r.spot| * 10000 / r.spot := by
  have hGap :
      (if spot > r.spot then spot - r.spot
        else r.spot - spot) = |spot - r.spot| := by
    split
    · rw [abs_of_pos (by omega)]
    · rw [abs_of_nonpos (by omega)]
      omega
  unfold spotMoveOf
  simp only
  rw [hGap, Int.tdiv_eq_ediv_of_nonneg]
  · rfl
  · exact mul_nonneg (abs_nonneg _) (by decide)

/- A move is found exactly when some kept reading has one. -/
theorem worstMove_isSome
    (params : BreakerParams)
    (kept : List SpotReading)
    (spot : Int) :
    (worstMove params kept spot).isSome ↔
      ∃ r ∈ kept, params.bps < spotMoveOf r spot := by
  have hFold :
      ∀ (kept : List SpotReading) (worst : Option (Int × Int)),
        (kept.foldl
          (fun worst r =>
            let moved := spotMoveOf r spot
            if moved > params.bps ∧
                worst.all (fun w => decide (moved > w.1)) =
                  true then
              some (moved, r.spot)
            else worst)
          worst).isSome ↔
          worst.isSome ∨
            ∃ r ∈ kept, params.bps < spotMoveOf r spot := by
    intro kept
    induction kept with
    | nil => simp
    | cons r rest ih =>
        intro worst
        rw [List.foldl_cons, ih]
        simp only [List.mem_cons, exists_eq_or_imp]
        cases worst with
        | none =>
            by_cases hMove : params.bps < spotMoveOf r spot
            · simp [hMove]
            · simp [hMove]
        | some w => split <;> simp
  unfold worstMove
  rw [hFold]
  simp

/- An observation that records nothing of the market. -/
theorem observe_other
    (params : BreakerParams)
    (b : SpotMoveBreaker)
    (market : String)
    {o : SpotObservation}
    (h : params.bps ≤ 0 ∨ readingOf market o = none) :
    let after := (b.observe params o.underlying o.now o.spot).2
    after.history (toLowerCase market) =
        b.history (toLowerCase market) ∧
      after.tripped (toLowerCase market) =
        b.tripped (toLowerCase market) := by
  unfold SpotMoveBreaker.observe
  cases hSpot : o.spot with
  | none => exact ⟨rfl, rfl⟩
  | some spot =>
      by_cases hOff : params.bps ≤ 0 ∨ spot ≤ 0
      · simp only [if_pos hOff, and_self]
      · have hKey :
            toLowerCase market ≠ toLowerCase o.underlying := by
          intro hKey
          rcases h with h | h
          · exact hOff (.inl h)
          · unfold readingOf at h
            rw [if_pos hKey.symm, hSpot] at h
            simp only at h
            rw [if_pos (by omega)] at h
            cases h
        simp only [if_neg hOff]
        cases worstMove params
            ((b.history (toLowerCase o.underlying)).filter
              (fun r =>
                decide (o.now - r.readAt ≤ params.windowS)))
            spot with
        | none =>
            exact ⟨Function.update_of_ne hKey _ _, rfl⟩
        | some worst =>
            exact
              ⟨Function.update_of_ne hKey _ _,
                Function.update_of_ne hKey _ _⟩

/-
  An observation that records a reading prunes the market's
  history to it, and trips on a move from what is kept.
-/
theorem observe_recorded
    (b : SpotMoveBreaker)
    {market : String}
    {o : SpotObservation}
    {x : SpotReading}
    (hOn : 0 < params.bps)
    (h : readingOf market o = some x) :
    let after := (b.observe params o.underlying o.now o.spot).2
    let kept :=
      PrunedWindow.within SpotReading.readAt params.windowS
        (b.history (toLowerCase market)) x.readAt
    after.history (toLowerCase market) = kept ++ [x] ∧
      (((∃ r ∈ kept, params.bps < spotMoveOf r x.spot) ∧
          ∃ trip,
            after.tripped (toLowerCase market) = some trip ∧
              trip.haltUntil = x.readAt + params.haltS) ∨
        ((¬ ∃ r ∈ kept, params.bps < spotMoveOf r x.spot) ∧
          after.tripped (toLowerCase market) =
            b.tripped (toLowerCase market))) := by
  unfold readingOf at h
  split at h
  · next hKey =>
      cases hSpot : o.spot with
      | none =>
          rw [hSpot] at h
          cases h
      | some spot =>
          rw [hSpot] at h
          simp only at h
          split at h
          · next hPos =>
              cases h
              have hOff : ¬ (params.bps ≤ 0 ∨ spot ≤ 0) := by
                omega
              unfold SpotMoveBreaker.observe
              simp only [if_neg hOff, hKey]
              have hWorst :=
                worstMove_isSome params
                  (PrunedWindow.within SpotReading.readAt
                    params.windowS
                    (b.history (toLowerCase market)) o.now)
                  spot
              unfold PrunedWindow.within at *
              cases hFound : worstMove params
                  ((b.history (toLowerCase market)).filter
                    (fun r =>
                      decide
                        (o.now - r.readAt ≤ params.windowS)))
                  spot with
              | none =>
                  rw [hFound] at hWorst
                  simp only [Function.update_self, true_and]
                  right
                  refine ⟨fun hMove => ?_, trivial⟩
                  exact absurd (hWorst.mpr hMove) (by simp)
              | some worst =>
                  rw [hFound] at hWorst
                  simp only [Function.update_self, true_and]
                  left
                  exact ⟨hWorst.mp rfl, _, rfl, rfl⟩
          · cases h
  · cases h

end

----
-- Runs of Observations
----

section

variable {params : BreakerParams}

/- Some reading of the market moved too far from an earlier. -/
def TrippedAt
    (params : BreakerParams)
    (readings : List SpotReading)
    (b : SpotReading) : Prop :=
  ∃ a, [a, b].Sublist readings ∧ MovedTooFar params a b

/-
  What the breaker holds of a market: the pruned history, and
  the end of the halt of the last reading that moved too far.
-/
structure Recorded
    (params : BreakerParams)
    (market : String)
    (readings : List SpotReading)
    (b : SpotMoveBreaker) : Prop where
  history :
    b.history (toLowerCase market) =
      PrunedWindow.pushAll SpotReading.readAt params.windowS
        readings
  quiet :
    b.tripped (toLowerCase market) = none →
      ∀ c, ¬ TrippedAt params readings c
  reached :
    ∀ trip, b.tripped (toLowerCase market) = some trip →
      ∃ c, TrippedAt params readings c ∧
        trip.haltUntil = c.readAt + params.haltS
  latest :
    ∀ trip, b.tripped (toLowerCase market) = some trip →
      ∀ c, TrippedAt params readings c →
        c.readAt + params.haltS ≤ trip.haltUntil

/- One more reading: an old trip, or one of the new reading. -/
theorem trippedAt_concat
    {readings : List SpotReading}
    {x c : SpotReading} :
    TrippedAt params (readings ++ [x]) c ↔
      TrippedAt params readings c ∨
        (c = x ∧ ∃ a ∈ readings, MovedTooFar params a x) := by
  unfold TrippedAt
  constructor
  · rintro ⟨a, hPair, hMove⟩
    rcases PrunedWindow.pair_concat.mp hPair with
      hOld | ⟨ha, rfl⟩
    · exact .inl ⟨a, hOld, hMove⟩
    · exact .inr ⟨rfl, a, ha, hMove⟩
  · rintro (⟨a, hOld, hMove⟩ | ⟨rfl, a, ha, hMove⟩)
    · exact ⟨a, PrunedWindow.pair_concat.mpr (.inl hOld), hMove⟩
    · exact
        ⟨a, PrunedWindow.pair_concat.mpr (.inr ⟨ha, rfl⟩),
          hMove⟩

/- A move from a kept reading, told from the whole history. -/
theorem moved_from_kept_iff
    {readings : List SpotReading}
    {x : SpotReading}
    (hOrder :
      PrunedWindow.InOrder SpotReading.readAt
        (readings ++ [x])) :
    (∃ r ∈
        PrunedWindow.within SpotReading.readAt params.windowS
          (PrunedWindow.pushAll SpotReading.readAt
            params.windowS readings) x.readAt,
        params.bps < spotMoveOf r x.spot) ↔
      ∃ a ∈ readings, MovedTooFar params a x := by
  have hParts := List.pairwise_append.mp hOrder
  rw [PrunedWindow.within_pushAll hParts.1
    (fun r hr => hParts.2.2 r hr x (List.mem_singleton_self x))]
  unfold PrunedWindow.within MovedTooFar
  simp only [List.mem_filter, decide_eq_true_eq, and_assoc,
    spotMoveOf_eq]

theorem readingsOf_concat
    (market : String)
    (observations : List SpotObservation)
    (o : SpotObservation) :
    readingsOf market (observations ++ [o]) =
      match readingOf market o with
      | none => readingsOf market observations
      | some x => readingsOf market observations ++ [x] := by
  unfold readingsOf
  rw [List.filterMap_append]
  cases h : readingOf market o with
  | none => simp [h]
  | some x => simp [h]

theorem observeAll_concat
    (observations : List SpotObservation)
    (o : SpotObservation) :
    SpotMoveBreaker.observeAll params (observations ++ [o]) =
      ((SpotMoveBreaker.observeAll params observations).observe
        params o.underlying o.now o.spot).2 := by
  unfold SpotMoveBreaker.observeAll
  rw [List.foldl_append, List.foldl_cons, List.foldl_nil]

/- One step of a run keeps what the breaker has recorded. -/
theorem Recorded.observe
    {market : String}
    {readings : List SpotReading}
    {b : SpotMoveBreaker}
    (hRecorded : Recorded params market readings b)
    (hOn : 0 < params.bps)
    {o : SpotObservation}
    {x : SpotReading}
    (hReading : readingOf market o = some x)
    (hOrder :
      PrunedWindow.InOrder SpotReading.readAt
        (readings ++ [x])) :
    Recorded params market (readings ++ [x])
      (b.observe params o.underlying o.now o.spot).2 := by
  rcases observe_recorded b hOn hReading with
    ⟨hHistory, hTripped⟩
  rw [hRecorded.history] at hHistory hTripped
  simp only [moved_from_kept_iff hOrder] at hTripped
  have hLast :
      ∀ c, TrippedAt params (readings ++ [x]) c →
        c.readAt ≤ x.readAt := by
    rintro c ⟨a, hPair, _⟩
    have hc : c ∈ readings ++ [x] := hPair.subset (by simp)
    rcases List.mem_append.mp hc with hOld | hNew
    · exact
        (List.pairwise_append.mp hOrder).2.2 c hOld x
          (List.mem_singleton_self x)
    · rw [List.mem_singleton.mp hNew]
  rcases hTripped with ⟨hMove, trip, hTrip, hEnd⟩ | ⟨hNone, hSame⟩
  · have hNew : TrippedAt params (readings ++ [x]) x :=
      trippedAt_concat.mpr (.inr ⟨rfl, hMove⟩)
    refine ⟨?_, ?_, ?_, ?_⟩
    · rw [hHistory, PrunedWindow.pushAll_concat]
    · intro h
      rw [hTrip] at h
      cases h
    · intro trip' h
      rw [hTrip] at h
      cases h
      exact ⟨x, hNew, hEnd⟩
    · intro trip' h c hc
      rw [hTrip] at h
      cases h
      have hLe := hLast c hc
      omega
  · have hOld :
        ∀ c, TrippedAt params (readings ++ [x]) c ↔
          TrippedAt params readings c := by
      intro c
      rw [trippedAt_concat]
      exact or_iff_left (fun h => hNone h.2)
    refine ⟨?_, ?_, ?_, ?_⟩
    · rw [hHistory, PrunedWindow.pushAll_concat]
    · rw [hSame]
      intro h c hc
      exact hRecorded.quiet h c ((hOld c).mp hc)
    · rw [hSame]
      intro trip h
      rcases hRecorded.reached trip h with ⟨c, hc, hEnd⟩
      exact ⟨c, (hOld c).mpr hc, hEnd⟩
    · rw [hSame]
      intro trip h c hc
      exact hRecorded.latest trip h c ((hOld c).mp hc)

/- Any run of observations with the market's times in order. -/
theorem observeAll_recorded
    (hOn : 0 < params.bps)
    (market : String)
    (observations : List SpotObservation)
    (hOrder :
      PrunedWindow.InOrder SpotReading.readAt
        (readingsOf market observations)) :
    Recorded params market (readingsOf market observations)
      (SpotMoveBreaker.observeAll params observations) := by
  induction observations using List.reverseRecOn with
  | nil =>
      exact
        { history := rfl
          quiet := by
            rintro _ c ⟨a, hPair, _⟩
            cases hPair
          reached := by
            intro trip h
            cases h
          latest := by
            intro trip h
            cases h }
  | append_singleton rest o ih =>
      rw [observeAll_concat]
      cases h : readingOf market o with
      | none =>
          rw [readingsOf_concat, h] at hOrder
          rw [readingsOf_concat, h]
          simp only at hOrder ⊢
          rcases observe_other params
              (SpotMoveBreaker.observeAll params rest) market
              (.inr h) with
            ⟨hHistory, hTripped⟩
          have hRest := ih hOrder
          refine ⟨?_, ?_, ?_, ?_⟩
          · rw [hHistory]
            exact hRest.history
          · rw [hTripped]
            exact hRest.quiet
          · rw [hTripped]
            exact hRest.reached
          · rw [hTripped]
            exact hRest.latest
      | some x =>
          rw [readingsOf_concat, h] at hOrder
          rw [readingsOf_concat, h]
          simp only at hOrder ⊢
          apply Recorded.observe _ hOn h hOrder
          exact ih (List.pairwise_append.mp hOrder).1

end

----
-- When It Halts
----

variable {params : BreakerParams}

/- Switched off, the breaker records nothing. -/
theorem observeAll_off
    (hOff : params.bps ≤ 0)
    (market : String)
    (observations : List SpotObservation) :
    (SpotMoveBreaker.observeAll params observations).tripped
      (toLowerCase market) = none := by
  induction observations using List.reverseRecOn with
  | nil => rfl
  | append_singleton rest o ih =>
      rw [observeAll_concat,
        (observe_other params _ market (.inl hOff)).2]
      exact ih

/- Only the trips of the market and the time matter. -/
theorem haltOf_isSome
    (b : SpotMoveBreaker)
    (market : String)
    (now : Int) :
    (b.haltOf params market now).isSome ↔
      ∃ trip, b.tripped (toLowerCase market) = some trip ∧
        now < trip.haltUntil := by
  unfold SpotMoveBreaker.haltOf
  cases b.tripped (toLowerCase market) with
  | none => simp
  | some trip =>
      by_cases hOver : now ≥ trip.haltUntil
      · simp [hOver]
      · have hOpen : now < trip.haltUntil := by omega
        simp [hOpen]

theorem haltOf_iff_trippedAt
    (params : BreakerParams)
    (market : String)
    (observations : List SpotObservation)
    (hOrder :
      PrunedWindow.InOrder SpotReading.readAt
        (readingsOf market observations))
    (now : Int) :
    ((SpotMoveBreaker.observeAll params observations).haltOf
        params market now).isSome ↔
      0 < params.bps ∧
        ∃ c, TrippedAt params
            (readingsOf market observations) c ∧
          now < c.readAt + params.haltS := by
  rw [haltOf_isSome]
  by_cases hOn : 0 < params.bps
  · have hRecorded :=
      observeAll_recorded hOn market observations hOrder
    constructor
    · rintro ⟨trip, hTrip, hNow⟩
      rcases hRecorded.reached trip hTrip with ⟨c, hc, hEnd⟩
      exact ⟨hOn, c, hc, hEnd ▸ hNow⟩
    · rintro ⟨_, c, hc, hNow⟩
      cases hTrip :
          (SpotMoveBreaker.observeAll params
            observations).tripped (toLowerCase market) with
      | none => exact absurd hc (hRecorded.quiet hTrip c)
      | some trip =>
          exact
            ⟨trip, rfl,
              hNow.trans_le (hRecorded.latest trip hTrip c hc)⟩
  · rw [observeAll_off (by omega)]
    constructor
    · rintro ⟨trip, h, _⟩
      cases h
    · rintro ⟨h, _⟩
      exact absurd h hOn

/- The observations of the market alone. -/
def marketOnly
    (market : String)
    (observations : List SpotObservation) :
    List SpotObservation :=
  observations.filter
    (fun o =>
      decide (toLowerCase o.underlying = toLowerCase market))

/- Two breakers hold the same of a market. -/
def SameOf
    (market : String)
    (b b' : SpotMoveBreaker) : Prop :=
  b.history (toLowerCase market) =
      b'.history (toLowerCase market) ∧
    b.tripped (toLowerCase market) =
      b'.tripped (toLowerCase market)

theorem SameOf.observe
    {market : String}
    {b b' : SpotMoveBreaker}
    (h : SameOf market b b')
    {o : SpotObservation}
    (hMarket : toLowerCase o.underlying = toLowerCase market) :
    SameOf market
      (b.observe params o.underlying o.now o.spot).2
      (b'.observe params o.underlying o.now o.spot).2 := by
  unfold SameOf SpotMoveBreaker.observe at *
  simp only [hMarket, h.1]
  cases o.spot with
  | none => exact h
  | some spot =>
      simp only
      split
      · exact h
      · cases worstMove params
            ((b'.history (toLowerCase market)).filter
              (fun r =>
                decide (o.now - r.readAt ≤ params.windowS)))
            spot with
        | none =>
            simp only [Function.update_self, true_and]
            exact h.2
        | some worst =>
            simp only [Function.update_self, and_self]

/- What other markets were observed at leaves no trace. -/
theorem observeAll_marketOnly
    (params : BreakerParams)
    (market : String)
    (observations : List SpotObservation) :
    SameOf market
      (SpotMoveBreaker.observeAll params observations)
      (SpotMoveBreaker.observeAll params
        (marketOnly market observations)) := by
  induction observations using List.reverseRecOn with
  | nil => exact ⟨rfl, rfl⟩
  | append_singleton rest o ih =>
      rw [observeAll_concat]
      by_cases hMarket :
          toLowerCase o.underlying = toLowerCase market
      · have hKept :
            marketOnly market (rest ++ [o]) =
              marketOnly market rest ++ [o] := by
          unfold marketOnly
          rw [List.filter_append]
          simp [hMarket]
        rw [hKept, observeAll_concat]
        exact ih.observe hMarket
      · have hDropped :
            marketOnly market (rest ++ [o]) =
              marketOnly market rest := by
          unfold marketOnly
          rw [List.filter_append]
          simp [hMarket]
        rw [hDropped]
        have hOther : readingOf market o = none := if_neg hMarket
        have hStep :=
          observe_other params
            (SpotMoveBreaker.observeAll params rest) market
            (.inr hOther)
        exact ⟨hStep.1.trans ih.1, hStep.2.trans ih.2⟩

/-
  A halt stands while some pair of readings inside the window
  moved further than the limit, and at no other time.
-/
def HaltsWhenMoved
    (params : BreakerParams)
    (market : String)
    (observations : List SpotObservation)
    (now : Int) : Prop :=
  ((SpotMoveBreaker.observeAll params observations).haltOf
      params market now).isSome ↔
    ∃ a b, [a, b].Sublist (readingsOf market observations) ∧
      b.readAt - a.readAt ≤ params.windowS ∧
        params.bps < |b.spot - a.spot| * 10000 / a.spot ∧
          now < b.readAt + params.haltS

def doubledSpot : List SpotObservation :=
  [{ underlying := "0xN", now := 1000, spot := some 100 },
    { underlying := "0xn", now := 1001, spot := some 200 }]

theorem readingsOf_doubledSpot :
    readingsOf "0xn" doubledSpot =
      [{ readAt := 1000, spot := 100 },
        { readAt := 1001, spot := 200 }] := by
  unfold readingsOf readingOf doubledSpot toLowerCase
  simp only [LowerCase.toLower_eq]
  decide +kernel

/- With a limit of 0 no move halts: the breaker is off. -/
theorem breaker_off_never_halts :
    ¬ ∀ (params : BreakerParams) (market : String)
        (observations : List SpotObservation) (now : Int),
      observations.Pairwise (fun a b => a.now ≤ b.now) →
        (∀ o ∈ observations, o.now ≤ now) →
          HaltsWhenMoved params market observations now := by
  intro h
  have hHalts :=
    h { bps := 0, windowS := 300, haltS := 900 } "0xn"
      doubledSpot 1001 (by decide) (by decide)
  have hOff :
      ¬ ((SpotMoveBreaker.observeAll
          { bps := 0, windowS := 300, haltS := 900 }
          doubledSpot).haltOf
          { bps := 0, windowS := 300, haltS := 900 }
          "0xn" 1001).isSome = true := by
    unfold SpotMoveBreaker.haltOf
    rw [observeAll_off (by decide)]
    simp
  apply hOff
  apply hHalts.mpr
  rw [readingsOf_doubledSpot]
  exact
    ⟨{ readAt := 1000, spot := 100 },
      { readAt := 1001, spot := 200 }, by decide⟩

/-
  The breaker halts exactly when it should, unless it is
  switched off; other markets never matter.
-/
theorem haltOf_iff_moved
    (params : BreakerParams)
    (market : String)
    (observations : List SpotObservation)
    (hOrder :
      PrunedWindow.InOrder SpotReading.readAt
        (readingsOf market observations))
    (now : Int) :
    (0 < params.bps →
      HaltsWhenMoved params market observations now) ∧
      (params.bps ≤ 0 →
        (SpotMoveBreaker.observeAll params observations).haltOf
          params market now = none) ∧
        (SpotMoveBreaker.observeAll params observations).haltOf
            params market now =
          (SpotMoveBreaker.observeAll params
            (marketOnly market observations)).haltOf
            params market now := by
  refine ⟨?_, ?_, ?_⟩
  · intro hOn
    unfold HaltsWhenMoved
    rw [haltOf_iff_trippedAt params market observations hOrder]
    constructor
    · rintro ⟨_, b, ⟨a, hPair, hWindow, hMove⟩, hNow⟩
      exact ⟨a, b, hPair, hWindow, hMove, hNow⟩
    · rintro ⟨a, b, hPair, hWindow, hMove, hNow⟩
      exact ⟨hOn, b, ⟨a, hPair, hWindow, hMove⟩, hNow⟩
  · intro hOff
    unfold SpotMoveBreaker.haltOf
    rw [observeAll_off hOff]
  · unfold SpotMoveBreaker.haltOf
    rw [(observeAll_marketOnly params market observations).2]

theorem doubled_spot_halts :
    ((SpotMoveBreaker.observeAll
        { bps := 150, windowS := 300, haltS := 900 }
        doubledSpot).haltOf
        { bps := 150, windowS := 300, haltS := 900 }
        "0xn" 1900).isSome := by
  have hOrder :
      PrunedWindow.InOrder SpotReading.readAt
        (readingsOf "0xn" doubledSpot) := by
    rw [readingsOf_doubledSpot]
    simp [PrunedWindow.InOrder]
  have hHalts :=
    (haltOf_iff_moved
      { bps := 150, windowS := 300, haltS := 900 } "0xn"
      doubledSpot hOrder 1900).1 (by decide)
  apply hHalts.mpr
  rw [readingsOf_doubledSpot]
  exact
    ⟨{ readAt := 1000, spot := 100 },
      { readAt := 1001, spot := 200 }, by decide⟩

end Callhouse.Keeper.Mm
