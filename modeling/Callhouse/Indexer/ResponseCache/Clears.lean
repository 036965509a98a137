import Callhouse.Indexer.ResponseCache.Runs

/-
  Who computes in the response cache: one route a key until a
  clear, and nothing from before a clear after it.

  Main declarations:
    * `OwnersInFlight`, `one_route_at_a_time`
    * `Barred`, `Since`, `since_run`
    * `cleared_answers_stay_out`
-/

----
-- One Route at a Time
----

namespace Callhouse.Indexer.ResponseCache

section

variable {s t : State} {id : Nat} {key : String}
variable {old : Option Phase} {phase : Phase}

/- Who computes for the others is in flight, but for clears. -/
def OwnersInFlight
    (s : State) : Prop :=
  ∀ id key p, s.requests id = some { key := key, phase := p } →
    Owns p → s.inflight.get? key = some id

theorem ownersInFlight_moves
    (h : OwnersInFlight s)
    (hMoves : Moves s t id key old phase) :
    OwnersInFlight t := by
  intro other k p hRequest hOwns
  rcases hMoves.request hRequest with ⟨rfl, hSelf⟩ | ⟨hOther, hRequest'⟩
  · cases hSelf
    have hEnters := hMoves.enters
    have hBefore := hMoves.before
    cases hEnters with
    | stored => exact hOwns.elim
    | waits => exact hOwns.elim
    | @begins owned =>
        cases owned with
        | true => exact hMoves.claims rfl
        | false => cases hOwns
    | shared => exact hOwns.elim
    | @retries _ owned =>
        cases owned with
        | true => exact hMoves.claims rfl
        | false => cases hOwns
    | reads =>
        have hMine := h other _ _ hBefore hOwns
        rcases hMoves.keeps _ _ hMine with hKept | ⟨_, _, hClosed⟩
        · exact hKept
        · exact hClosed.elim
    | misses => exact hOwns.elim
    | routingEnds => exact hOwns.elim
    | readingEnds => exact hOwns.elim
  · have hMine := h other k p hRequest' hOwns
    rcases hMoves.keeps k other hMine with hKept | ⟨_, hSelf, _⟩
    · exact hKept
    · exact absurd hSelf hOther

/- Until a clear, a key has one route that others wait for. -/
theorem one_route_at_a_time
    {other : Nat}
    {p p' : Phase}
    (h : Transition.Reachable (fun s => s = .start) Serves s)
    (hFirst : s.requests id = some { key := key, phase := p })
    (hSecond : s.requests other = some { key := key, phase := p' })
    (hOwns : Owns p)
    (hOwns' : Owns p') :
    id = other := by
  have hBoth : CacheOk s ∧ OwnersInFlight s := by
    refine
      Transition.invariant (fun s => CacheOk s ∧ OwnersInFlight s)
        ?_ ?_ h
    · rintro _ rfl
      exact ⟨cacheOk_start, fun _ _ _ hNone => by cases hNone⟩
    · rintro s t ⟨hOk, hOwners⟩ ⟨event, hServes, hStep⟩
      rcases step_cases hOk.registered hStep with
        ⟨hClears, _⟩ | ⟨id, key, old, phase, hMoves⟩
      · exact absurd hClears hServes
      · exact
          ⟨cacheOk_moves hOk hMoves, ownersInFlight_moves hOwners hMoves⟩
  have hMine := hBoth.2 id key p hFirst hOwns
  have hTheirs := hBoth.2 other key p' hSecond hOwns'
  rw [hMine] at hTheirs
  exact Option.some.inj hTheirs

/- Two wait for a route that throws; one of them owns the next. -/
def sampleRetries : List Event :=
  [ .arrives 0 "/v2/cards" 10 10,
    .arrives 1 "/v2/cards" 11 11,
    .arrives 2 "/v2/cards" 12 12,
    .fails 0,
    .resumes 2 13 13,
    .resumes 1 14 14 ]

theorem one_route_at_a_time_sample :
    ∃ s p, run .start sampleRetries = some s ∧
      s.requests 2 = some { key := "/v2/cards", phase := p } ∧
      Owns p ∧
      ∀ other p',
        s.requests other = some { key := "/v2/cards", phase := p' } →
          Owns p' → other = 2 := by
  have hRun :
      (run .start sampleRetries).map (fun s => s.requests 2) =
        some
          (some { key := "/v2/cards", phase := .routing true }) := by
    decide +kernel
  rcases Option.map_eq_some_iff.mp hRun with ⟨s, hState, hRouting⟩
  refine ⟨s, _, hState, hRouting, rfl, ?_⟩
  intro other p' hOther hOwns
  exact
    one_route_at_a_time
      ⟨_, rfl, run_serves hState (by decide)⟩ hOther hRouting hOwns
      rfl

end

----
-- After a Clear
----

variable {s t u : State} {id : Nat} {key : String}
variable {old : Option Phase} {phase : Phase}

/- It had answered, or was computing for others, at the clear. -/
def Barred
    (s : State)
    (id : Nat) : Prop :=
  ∃ k p, s.requests id = some { key := k, phase := p } ∧
    (Owns p ∨ Closed p)

/- Some request that the clear did not bar computed the entry. -/
def MadeSince
    (s t : State)
    (key : String)
    (entry : Entry) : Prop :=
  ∃ id routed,
    t.requests id =
        some { key := key, phase := .missed routed entry } ∧
      ¬ Barred s id

structure Since
    (s t : State) : Prop where
  ok : CacheOk t
  barred : ∀ id, Barred s id → Barred t id
  stored :
    ∀ key entry, t.store.get? key = some entry →
      MadeSince s t key entry
  registered :
    ∀ key owner, t.inflight.get? key = some owner → ¬ Barred s owner
  waiting :
    ∀ id key owner, s.requests id = none →
      t.requests id = some { key := key, phase := .waiting owner } →
        ¬ Barred s owner
  hits :
    ∀ id key entry now sent, s.requests id = none →
      t.requests id =
          some { key := key, phase := .hit entry now sent } →
        MadeSince s t key entry

theorem since_clear
    (h : CacheOk s) :
    Since s s.clearCache :=
  { ok := cacheOk_clear h
    barred := fun _ hBarred => hBarred
    stored := fun _ _ hStored => by cases hStored
    registered := fun _ _ hOwner => by cases hOwner
    waiting := fun _ _ _ hNew hWaiting => by
      cases hNew.symm.trans hWaiting
    hits := fun _ _ _ _ _ hNew hHit => by
      cases hNew.symm.trans hHit }

theorem Since.clear
    (h : Since s t) :
    Since s t.clearCache :=
  { h with
    ok := cacheOk_clear h.ok
    stored := fun _ _ hStored => by cases hStored
    registered := fun _ _ hOwner => by cases hOwner }

section

variable (h : Moves t u id key old phase)
include h

theorem Moves.madeSince
    {k : String}
    {entry : Entry}
    (hMade : MadeSince s t k entry) :
    MadeSince s u k entry := by
  rcases hMade with ⟨other, routed, hRequest, hFree⟩
  exact ⟨other, routed, h.closed_stays trivial hRequest, hFree⟩

/- Who was computing goes on computing, or closes. -/
theorem Moves.barred
    {other : Nat}
    (hBarred : Barred t other) :
    Barred u other := by
  rcases hBarred with ⟨k, p, hRequest, hPhase⟩
  by_cases hOther : other = id
  · subst hOther
    have hBefore := h.before
    have hEnters := h.enters
    rw [hRequest] at hBefore
    cases old with
    | none => cases hBefore
    | some p' =>
        cases hBefore
        refine ⟨_, phase, h.self, ?_⟩
        cases hEnters with
        | shared => exact hPhase.elim False.elim False.elim
        | retries => exact hPhase.elim False.elim False.elim
        | reads => exact Or.inl (hPhase.resolve_right False.elim)
        | misses => exact Or.inr trivial
        | routingEnds => exact Or.inr trivial
        | readingEnds => exact Or.inr trivial
  · exact ⟨k, p, (h.other hOther).trans hRequest, hPhase⟩

/- A request that moves was not barred, or was computing. -/
theorem Moves.owned_of_barred
    (hBarred : Barred t id) :
    ∃ p, old = some p ∧ Owns p := by
  rcases hBarred with ⟨k, p, hRequest, hOwns | hClosed⟩
  · have hBefore := h.before
    rw [hRequest] at hBefore
    cases old with
    | none => cases hBefore
    | some p' =>
        cases hBefore
        exact ⟨_, rfl, hOwns⟩
  · have hBefore := h.before
    have hEnters := h.enters
    rw [hRequest] at hBefore
    cases old with
    | none => cases hBefore
    | some p' =>
        cases hBefore
        cases hEnters with
        | shared => exact hClosed.elim
        | retries => exact hClosed.elim
        | reads => exact hClosed.elim
        | misses => exact hClosed.elim
        | routingEnds => exact hClosed.elim
        | readingEnds => exact hClosed.elim

end

theorem since_moves
    (h : Since s t)
    (hMoves : Moves t u id key old phase) :
    Since s u := by
  refine
    { ok := cacheOk_moves h.ok hMoves
      barred := fun other hBarred =>
        hMoves.barred (h.barred other hBarred)
      stored := ?_
      registered := ?_
      waiting := ?_
      hits := ?_ }
  · intro k entry hStored
    rcases hMoves.stored k entry hStored with hBefore | hNew
    · exact hMoves.madeSince (h.stored k entry hBefore)
    · rcases hNew with ⟨rfl, ⟨routed, rfl⟩, hMine⟩
      refine ⟨id, routed, hMoves.self, ?_⟩
      intro hBarred
      rcases hMoves.owned_of_barred (h.barred id hBarred) with
        ⟨p, rfl, hOwns⟩
      exact h.registered k id (hMine ⟨p, rfl, hOwns⟩) hBarred
  · intro k owner hOwner
    rcases hMoves.registered k owner hOwner with hBefore | hNew
    · exact h.registered k owner hBefore
    · rcases hNew with ⟨rfl, rfl, rfl⟩
      intro hBarred
      rcases hMoves.owned_of_barred (h.barred owner hBarred) with
        ⟨p, rfl, hOwns⟩
      have hEnters := hMoves.enters
      cases hEnters with
      | retries => exact hOwns
  · intro other k owner hNew hWaiting
    rcases hMoves.request hWaiting with ⟨rfl, hSelf⟩ | ⟨_, hBefore⟩
    · have hEnters := hMoves.enters
      cases hSelf
      cases hEnters with
      | waits hPending => exact h.registered _ owner hPending
    · exact h.waiting other k owner hNew hBefore
  · intro other k entry now sent hNew hHit
    rcases hMoves.request hHit with ⟨rfl, hSelf⟩ | ⟨_, hBefore⟩
    · have hEnters := hMoves.enters
      have hBefore := hMoves.before
      cases hSelf
      cases hEnters with
      | stored hStored _ =>
          exact hMoves.madeSince (h.stored _ entry hStored)
      | @shared owner _ _ _ hSettled _ =>
          have hFree := h.waiting other _ owner hNew hBefore
          rcases h.ok.waiting other _ owner hBefore with
            ⟨p, hOwner, _⟩
          rcases h.ok.settled owner _ hSettled with
            ⟨key', p', hOwner', _, hEntry⟩
          rcases hEntry entry rfl with ⟨routed, rfl⟩
          rw [hOwner] at hOwner'
          cases hOwner'
          exact hMoves.madeSince ⟨owner, routed, hOwner, hFree⟩
    · exact hMoves.madeSince (h.hits other k entry now sent hNew hBefore)

theorem since_run
    (h : CacheOk s)
    (hRun : Relation.ReflTransGen Next s.clearCache t) :
    Since s t := by
  induction hRun with
  | refl => exact since_clear h
  | tail _ hLast ih =>
      rcases hLast with ⟨event, hStep⟩
      rcases step_cases ih.ok.registered hStep with
        ⟨_, rfl⟩ | ⟨_, _, _, _, hMoves⟩
      · exact ih.clear
      · exact since_moves ih hMoves

/-
  Who arrives after a clear is not given what was answered
  before it, nor what was being computed for others at it.
-/
theorem cleared_answers_stay_out
    {entry : Entry}
    {now sent : Int}
    (h : Transition.Reachable (fun s => s = .start) Next s)
    (hRun : Relation.ReflTransGen Next s.clearCache t)
    (hNew : s.requests id = none)
    (hHit :
      t.requests id =
        some { key := key, phase := .hit entry now sent }) :
    ∃ other routed,
      t.requests other =
          some { key := key, phase := .missed routed entry } ∧
        ∀ k p, s.requests other = some { key := k, phase := p } →
          ¬ Owns p ∧ ¬ Closed p := by
  have hSince := since_run (cacheOk_reachable h) hRun
  rcases hSince.hits id key entry now sent hNew hHit with
    ⟨other, routed, hMade, hFree⟩
  refine ⟨other, routed, hMade, ?_⟩
  intro k p hRequest
  exact
    ⟨fun hOwns => hFree ⟨k, p, hRequest, Or.inl hOwns⟩,
      fun hClosed => hFree ⟨k, p, hRequest, Or.inr hClosed⟩⟩

/- Request 0 computes at the clear, and request 1 after it. -/
theorem cleared_answers_stay_out_sample :
    ∃ s t other routed,
      run .start [.arrives 0 "/v2/cards" 10 10] = some s ∧
        Relation.ReflTransGen Next s.clearCache t ∧
        t.requests other =
          some
            { key := "/v2/cards"
              phase := .missed routed sampleEntry } ∧
        other ≠ 0 := by
  have hBefore :
      (run .start [.arrives 0 "/v2/cards" 10 10]).map
          (fun s => (s.requests 0, s.requests 2)) =
        some
          (some { key := "/v2/cards", phase := .routing true }, none) := by
    decide +kernel
  rcases Option.map_eq_some_iff.mp hBefore with ⟨s, hState, hRequests⟩
  have hAfter :
      ((run .start [.arrives 0 "/v2/cards" 10 10]).bind (fun s =>
        run s.clearCache
          [ .arrives 1 "/v2/cards" 12 12,
            .routes 0
              { status := 200
                snapshotExpiry := none
                responseTime := 14 },
            .reads 0 "{}",
            .routes 1
              { status := 200
                snapshotExpiry := none
                responseTime := 20 },
            .reads 1 "[]",
            .arrives 2 "/v2/cards" 30 31 ])).map
              (fun t => t.requests 2) =
        some
          (some
            { key := "/v2/cards", phase := .hit sampleEntry 30 31 }) := by
    decide +kernel
  rw [hState, Option.bind_some] at hAfter
  rcases Option.map_eq_some_iff.mp hAfter with ⟨t, hRun, hHit⟩
  have hSteps := run_steps hRun
  have hFirst : s.requests 0 = _ := congrArg Prod.fst hRequests
  rcases
    cleared_answers_stay_out ⟨_, rfl, run_steps hState⟩ hSteps
      (congrArg Prod.snd hRequests) hHit with
    ⟨other, routed, hMade, hFree⟩
  refine ⟨s, t, other, routed, hState, hSteps, hMade, ?_⟩
  rintro rfl
  exact (hFree _ _ hFirst).1 rfl

end Callhouse.Indexer.ResponseCache
