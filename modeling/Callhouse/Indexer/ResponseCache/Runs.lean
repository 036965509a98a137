import Callhouse.Indexer.ResponseCache.Steps

/-
  The response cache over every interleaving of requests and
  clears, whatever the clock reads: how old a hit may be, and
  who is waited for.

  Main declarations:
    * `Made`, `CacheOk`, `cacheOk_moves`
    * `hits_are_fresh`
    * `waiters_are_answered`
-/

----
-- What Holds of Every State
----

namespace Callhouse.Indexer.ResponseCache

section

variable {s t : State} {id : Nat} {key : String}
variable {old : Option Phase} {phase : Phase}

/- Some request of the key computed the entry. -/
def Made
    (s : State)
    (key : String)
    (entry : Entry) : Prop :=
  ∃ id routed,
    s.requests id = some { key := key, phase := .missed routed entry }

structure CacheOk
    (s : State) : Prop where
  registered : Registered s
  reading :
    ∀ id key owned routed,
      s.requests id =
          some { key := key, phase := .reading owned routed } →
        routed.Cacheable
  missed :
    ∀ id key routed entry,
      s.requests id =
          some { key := key, phase := .missed routed entry } →
        routed.Cacheable ∧ ∃ body, entry = routed.entry body
  stored :
    ∀ key entry, s.store.get? key = some entry → Made s key entry
  settled :
    ∀ owner found, s.settled owner = some found →
      ∃ key p, s.requests owner = some { key := key, phase := p } ∧
        Closed p ∧ ∀ entry ∈ found, ∃ routed, p = .missed routed entry
  waiting :
    ∀ id key owner,
      s.requests id = some { key := key, phase := .waiting owner } →
        ∃ p, s.requests owner = some { key := key, phase := p } ∧
          (Owns p ∨ ∃ found, s.settled owner = some found)
  hits :
    ∀ id key entry now sent,
      s.requests id =
          some { key := key, phase := .hit entry now sent } →
        now < entry.expires ∧ Made s key entry
  storeSize : s.store.size ≤ maxEntries + 1
  inflightSize : s.inflight.size ≤ maxEntries

theorem cacheOk_start : CacheOk State.start :=
  { registered := fun _ _ h => by cases h
    reading := fun _ _ _ _ h => by cases h
    missed := fun _ _ _ _ h => by cases h
    stored := fun _ _ h => by cases h
    settled := fun _ _ h => by cases h
    waiting := fun _ _ _ h => by cases h
    hits := fun _ _ _ _ _ h => by cases h
    storeSize := Nat.zero_le _
    inflightSize := Nat.zero_le _ }

/- A clear takes entries and registrations away, and no request. -/
theorem cacheOk_clear
    (h : CacheOk s) :
    CacheOk s.clearCache :=
  { h with
    registered := fun _ _ hOwner => by cases hOwner
    stored := fun _ _ hStored => by cases hStored
    storeSize := Nat.zero_le _
    inflightSize := Nat.zero_le _ }

section

variable (h : Moves s t id key old phase)
include h

theorem Moves.request
    {other : Nat}
    {request : Request}
    (hRequest : t.requests other = some request) :
    (other = id ∧ request = { key := key, phase := phase }) ∨
      (other ≠ id ∧ s.requests other = some request) := by
  rw [h.after, Function.update_apply] at hRequest
  split at hRequest
  · next hSame =>
      cases hRequest
      exact Or.inl ⟨hSame, rfl⟩
  · next hOther => exact Or.inr ⟨hOther, hRequest⟩

theorem Moves.self :
    t.requests id = some { key := key, phase := phase } := by
  rw [h.after, Function.update_self]

theorem Moves.other
    {other : Nat}
    (hOther : other ≠ id) :
    t.requests other = s.requests other := by
  rw [h.after, Function.update_of_ne hOther]

/- A request that has closed does not move again. -/
theorem Moves.closed_stays
    {other : Nat}
    {k : String}
    {p : Phase}
    (hClosed : Closed p)
    (hRequest : s.requests other = some { key := k, phase := p }) :
    t.requests other = some { key := k, phase := p } := by
  by_cases hOther : other = id
  · exfalso
    have hBefore := h.before
    rw [← hOther, hRequest] at hBefore
    cases hOld : old with
    | none =>
        rw [hOld] at hBefore
        cases hBefore
    | some p' =>
        have hEnters := h.enters
        rw [hOld] at hBefore hEnters
        cases hBefore
        cases hEnters with
        | shared => exact hClosed
        | retries => exact hClosed
        | reads => exact hClosed
        | misses => exact hClosed
        | routingEnds => exact hClosed
        | readingEnds => exact hClosed
  · rw [h.other hOther]
    exact hRequest

end

variable {entry : Entry}

section

variable (h : Moves s t id key old phase)
include h

theorem Moves.made
    {k : String}
    (hMade : Made s k entry) :
    Made t k entry := by
  rcases hMade with ⟨other, routed, hRequest⟩
  exact ⟨other, routed, h.closed_stays trivial hRequest⟩

/- A new entry is the one that the moving request computed. -/
theorem Moves.made_self
    (hPhase : ∃ routed, phase = .missed routed entry) :
    Made t key entry := by
  rcases hPhase with ⟨routed, rfl⟩
  exact ⟨id, routed, h.self⟩

/- The entry that a hit was given was made for its key. -/
theorem Moves.hit_made
    (hOk : CacheOk s)
    {now sent : Int}
    (hPhase : phase = .hit entry now sent) :
    now < entry.expires ∧ Made s key entry := by
  have hEnters := h.enters
  have hBefore := h.before
  rw [hPhase] at hEnters
  cases hEnters with
  | stored hStored hLive => exact ⟨hLive, hOk.stored key entry hStored⟩
  | @shared owner _ _ _ hSettled hLive =>
      refine ⟨hLive, ?_⟩
      rcases hOk.waiting id key owner hBefore with ⟨p, hOwner, _⟩
      rcases hOk.settled owner _ hSettled with
        ⟨key', p', hOwner', _, hEntry⟩
      rcases hEntry entry rfl with ⟨routed, rfl⟩
      rw [hOwner] at hOwner'
      cases hOwner'
      exact ⟨owner, routed, hOwner⟩

end

theorem cacheOk_moves
    (hOk : CacheOk s)
    (h : Moves s t id key old phase) :
    CacheOk t := by
  refine
    { registered := ?_
      reading := ?_
      missed := ?_
      stored := ?_
      settled := ?_
      waiting := ?_
      hits := ?_
      storeSize :=
        h.storeSize.trans (max_le hOk.storeSize (le_refl _))
      inflightSize :=
        h.inflightSize.trans (max_le hOk.inflightSize (le_refl _)) }
  · intro k owner hOwner
    rcases h.registered k owner hOwner with hBefore | hNew
    · rcases hOk.registered k owner hBefore with ⟨p, hRequest, hOwns⟩
      by_cases hSelf : owner = id
      · subst hSelf
        have hKey : k = key := by
          have hOld := h.before
          rw [hRequest] at hOld
          cases old with
          | none => cases hOld
          | some p' =>
              cases hOld
              rfl
        subst hKey
        exact ⟨phase, h.self, h.held hOwner⟩
      · exact ⟨p, (h.other hSelf).trans hRequest, hOwns⟩
    · rcases hNew with ⟨rfl, rfl, rfl⟩
      exact ⟨_, h.self, rfl⟩
  · intro other k owned routed hRequest
    rcases h.request hRequest with hSelf | hOther
    · have hEnters := h.enters
      cases hSelf.2
      cases hEnters with
      | reads hCacheable => exact hCacheable
    · exact hOk.reading other k owned routed hOther.2
  · intro other k routed entry hRequest
    rcases h.request hRequest with hSelf | hOther
    · have hEnters := h.enters
      have hBefore := h.before
      cases hSelf.2
      cases hEnters with
      | @misses owned _ body =>
          exact ⟨hOk.reading id _ owned routed hBefore, body, rfl⟩
    · exact hOk.missed other k routed entry hOther.2
  · intro k entry hStored
    rcases h.stored k entry hStored with hBefore | hNew
    · exact h.made (hOk.stored k entry hBefore)
    · rcases hNew with ⟨rfl, hPhase, _⟩
      exact h.made_self hPhase
  · intro owner found hFound
    rcases h.settled owner found hFound with hBefore | hNew
    · rcases hOk.settled owner found hBefore with
        ⟨k, p, hRequest, hClosed, hEntries⟩
      exact ⟨k, p, h.closed_stays hClosed hRequest, hClosed, hEntries⟩
    · rcases hNew with ⟨rfl, hClosed, hEntries⟩
      exact
        ⟨key, phase, h.self, hClosed, fun entry hEntry =>
          (hEntries entry hEntry).1⟩
  · intro other k owner hRequest
    have hOwner :
        ∃ p, s.requests owner = some { key := k, phase := p } ∧
          (Owns p ∨ ∃ found, s.settled owner = some found) := by
      rcases h.request hRequest with hSelf | hOther
      · have hEnters := h.enters
        cases hSelf.2
        cases hEnters with
        | waits hPending =>
            rcases hOk.registered _ owner hPending with
              ⟨p, hRequest', hOwns⟩
            exact ⟨p, hRequest', Or.inl hOwns⟩
      · exact hOk.waiting other k owner hOther.2
    rcases hOwner with ⟨p, hBefore, hAnswers⟩
    rcases hAnswers with hOwns | ⟨found, hFound⟩
    · by_cases hSelf : owner = id
      · subst hSelf
        have hOld := h.before
        rw [hBefore] at hOld
        cases old with
        | none => cases hOld
        | some p' =>
            cases hOld
            exact ⟨phase, h.self, h.leaves ⟨_, rfl, hOwns⟩⟩
      · exact ⟨p, (h.other hSelf).trans hBefore, Or.inl hOwns⟩
    · rcases hOk.settled owner found hFound with
        ⟨k', p', hRequest', hClosed, _⟩
      rw [hBefore] at hRequest'
      cases hRequest'
      exact
        ⟨p, h.closed_stays hClosed hBefore, Or.inr
          ⟨found, h.stays owner found hFound⟩⟩
  · intro other k entry now sent hRequest
    rcases h.request hRequest with hSelf | hOther
    · cases hSelf.2
      have hMade := h.hit_made hOk rfl
      exact ⟨hMade.1, h.made hMade.2⟩
    · have hMade := hOk.hits other k entry now sent hOther.2
      exact ⟨hMade.1, h.made hMade.2⟩

theorem cacheOk_next
    (hOk : CacheOk s)
    (h : Next s t) :
    CacheOk t := by
  rcases h with ⟨event, hStep⟩
  rcases step_cases hOk.registered hStep with
    ⟨_, rfl⟩ | ⟨id, key, old, phase, hMoves⟩
  · exact cacheOk_clear hOk
  · exact cacheOk_moves hOk hMoves

theorem cacheOk_reachable
    (h : Transition.Reachable (fun s => s = .start) Next s) :
    CacheOk s :=
  Transition.invariant CacheOk
    (by rintro _ rfl; exact cacheOk_start)
    (fun _ _ => cacheOk_next) h

end

----
-- Hits and Waiters
----

variable {s : State} {id : Nat} {key : String}

theorem maxAge_le
    (expires now : Int) :
    now + 1000 * maxAge expires now ≤ max now expires := by
  unfold maxAge
  omega

theorem lt_of_lt_expires
    {routed : Routed}
    {now : Int}
    (h : now < routed.expires) :
    now < routed.responseTime + ttlMs ∧
      ∀ snapshotExpiry ∈ routed.snapshotExpiry,
        0 < snapshotExpiry → now < snapshotExpiry := by
  unfold Routed.expires at h
  cases hSnapshot : routed.snapshotExpiry with
  | none =>
      rw [hSnapshot] at h
      exact ⟨h, fun _ hNone => by cases hNone⟩
  | some snapshotExpiry =>
      rw [hSnapshot] at h
      dsimp only at h
      split at h
      · refine ⟨lt_of_lt_of_le h (min_le_left _ _), ?_⟩
        intro expiry hExpiry _
        cases hExpiry
        exact lt_of_lt_of_le h (min_le_right _ _)
      · next hZero =>
          refine ⟨h, ?_⟩
          intro expiry hExpiry hPositive
          cases hExpiry
          exact absurd hPositive hZero

/-
  A hit is a clean answer that a route of the same key gave
  less than fifteen seconds before, and no later than its
  snapshot allows; and nobody downstream holds it longer.
-/
theorem hits_are_fresh
    {entry : Entry}
    {now sent : Int}
    (h : Transition.Reachable (fun s => s = .start) Next s)
    (hHit :
      s.requests id =
        some { key := key, phase := .hit entry now sent }) :
    ∃ other routed,
      s.requests other =
          some { key := key, phase := .missed routed entry } ∧
        entry.status = routed.status ∧
        200 ≤ routed.status ∧ routed.status < 300 ∧
        now < routed.responseTime + ttlMs ∧
        (∀ snapshotExpiry ∈ routed.snapshotExpiry,
          0 < snapshotExpiry → now < snapshotExpiry) ∧
        sent + 1000 * maxAge entry.expires sent ≤
          max sent (routed.responseTime + ttlMs) := by
  have hOk := cacheOk_reachable h
  rcases hOk.hits id key entry now sent hHit with
    ⟨hLive, other, routed, hMade⟩
  rcases hOk.missed other key routed entry hMade with
    ⟨hCacheable, body, rfl⟩
  have hTimes := lt_of_lt_expires hLive
  have hExpires : routed.expires ≤ routed.responseTime + ttlMs := by
    by_contra hLate
    have hPast := lt_of_lt_expires (not_le.mp hLate)
    exact absurd hPast.1 (lt_irrefl _)
  refine
    ⟨other, routed, hMade, rfl, hCacheable.1, hCacheable.2.1,
      hTimes.1, hTimes.2, ?_⟩
  exact
    (maxAge_le _ sent).trans (max_le_max (le_refl sent) hExpires)

theorem hits_are_fresh_sample :
    ∃ s other routed,
      run .start sampleEvents = some s ∧
        s.requests other =
          some
            { key := "/v2/cards"
              phase := .missed routed sampleEntry } ∧
        30 < routed.responseTime + ttlMs := by
  have hRun :
      (run .start sampleEvents).map (fun s => s.requests 1) =
        some
          (some
            { key := "/v2/cards", phase := .hit sampleEntry 30 31 }) := by
    decide +kernel
  rcases Option.map_eq_some_iff.mp hRun with ⟨s, hState, hHit⟩
  rcases hits_are_fresh ⟨_, rfl, run_steps hState⟩ hHit with
    ⟨other, routed, hMade, _, _, _, hTime, _⟩
  exact ⟨s, other, routed, hState, hMade, hTime⟩

/-
  Whoever waits, waits for a request of its own key, which is
  still computing or has left it an answer; who is in
  flight is computing, and the two maps stay small.
-/
theorem waiters_are_answered
    (h : Transition.Reachable (fun s => s = .start) Next s) :
    (∀ id key owner,
      s.requests id = some { key := key, phase := .waiting owner } →
        ∃ p, s.requests owner = some { key := key, phase := p } ∧
          (Owns p ∨
            ∃ found, s.settled owner = some found ∧
              ∀ entry ∈ found, Made s key entry)) ∧
      (∀ key owner, s.inflight.get? key = some owner →
        s.settled owner = none ∧
          ∃ p, s.requests owner = some { key := key, phase := p } ∧
            Owns p) ∧
      s.store.size ≤ maxEntries + 1 ∧
      s.inflight.size ≤ maxEntries := by
  have hOk := cacheOk_reachable h
  refine ⟨?_, ?_, hOk.storeSize, hOk.inflightSize⟩
  · intro id key owner hWaiting
    rcases hOk.waiting id key owner hWaiting with
      ⟨p, hOwner, hOwns | ⟨found, hFound⟩⟩
    · exact ⟨p, hOwner, Or.inl hOwns⟩
    · refine ⟨p, hOwner, Or.inr ⟨found, hFound, ?_⟩⟩
      intro entry hEntry
      rcases hOk.settled owner found hFound with
        ⟨key', p', hOwner', _, hEntries⟩
      rcases hEntries entry hEntry with ⟨routed, rfl⟩
      rw [hOwner] at hOwner'
      cases hOwner'
      exact ⟨owner, routed, hOwner⟩
  · intro key owner hPending
    rcases hOk.registered key owner hPending with ⟨p, hOwner, hOwns⟩
    refine ⟨?_, p, hOwner, hOwns⟩
    cases hSettled : s.settled owner with
    | none => rfl
    | some found =>
        rcases hOk.settled owner found hSettled with
          ⟨key', p', hOwner', hClosed, _⟩
        rw [hOwner] at hOwner'
        cases hOwner'
        cases p with
        | waiting => exact hOwns.elim
        | routing => exact hClosed.elim
        | reading => exact hClosed.elim
        | hit => exact hOwns.elim
        | missed => exact hOwns.elim
        | uncached => exact hOwns.elim

theorem waiters_are_answered_sample :
    ∃ s, s.requests 1 =
        some { key := "/v2/cards", phase := .waiting 0 } ∧
      ∃ p, s.requests 0 = some { key := "/v2/cards", phase := p } ∧
        (Owns p ∨
          ∃ found, s.settled 0 = some found ∧
            ∀ entry ∈ found, Made s "/v2/cards" entry) := by
  have hRun :
      (run .start
        [ .arrives 0 "/v2/cards" 10 10,
          .arrives 1 "/v2/cards" 11 11 ]).map
            (fun s => s.requests 1) =
        some (some { key := "/v2/cards", phase := .waiting 0 }) := by
    decide +kernel
  rcases Option.map_eq_some_iff.mp hRun with ⟨s, hState, hWaiting⟩
  exact
    ⟨s, hWaiting,
      (waiters_are_answered ⟨_, rfl, run_steps hState⟩).1 1 _ 0
        hWaiting⟩

end Callhouse.Indexer.ResponseCache
