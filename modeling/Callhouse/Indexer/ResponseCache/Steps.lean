import Callhouse.Indexer.ResponseCache.Middleware

/-
  What one step of the response cache can do: which phase a
  request enters, and what becomes of the store, of the
  promises and of the requests in flight.

  Main declarations:
    * `Owns`, `Closed`, `Enters`, `Moves`
    * `moves_begin`, `moves_closes`
    * `step_cases`
-/

----
-- Moves
----

namespace Callhouse.Indexer.ResponseCache

/- The request computes, and the others of its key wait for it. -/
def Owns : Phase → Prop
  | .routing owned => owned = true
  | .reading owned _ => owned = true
  | _ => False

/- It has answered from its own route. -/
def Closed : Phase → Prop
  | .missed _ _ => True
  | .uncached => True
  | _ => False

/- The phases that a request may come from, and what lets it. -/
inductive Enters
    (s : State)
    (id : Nat)
    (key : String) : Option Phase → Phase → Prop where
  | stored
      {entry : Entry}
      {now sent : Int}
      (hStored : s.store.get? key = some entry)
      (hLive : now < entry.expires) :
      Enters s id key none (.hit entry now sent)
  | waits
      {owner : Nat}
      (hPending : s.inflight.get? key = some owner) :
      Enters s id key none (.waiting owner)
  | begins
      {owned : Bool} :
      Enters s id key none (.routing owned)
  | shared
      {owner : Nat}
      {entry : Entry}
      {now sent : Int}
      (hSettled : s.settled owner = some (some entry))
      (hLive : now < entry.expires) :
      Enters s id key (some (.waiting owner)) (.hit entry now sent)
  | retries
      {owner : Nat}
      {owned : Bool} :
      Enters s id key (some (.waiting owner)) (.routing owned)
  | reads
      {owned : Bool}
      {routed : Routed}
      (hCacheable : routed.Cacheable) :
      Enters s id key (some (.routing owned)) (.reading owned routed)
  | misses
      {owned : Bool}
      {routed : Routed}
      {body : String} :
      Enters s id key (some (.reading owned routed))
        (.missed routed (routed.entry body))
  | routingEnds
      {owned : Bool} :
      Enters s id key (some (.routing owned)) .uncached
  | readingEnds
      {owned : Bool}
      {routed : Routed} :
      Enters s id key (some (.reading owned routed)) .uncached

structure Moves
    (s t : State)
    (id : Nat)
    (key : String)
    (old : Option Phase)
    (phase : Phase) : Prop where
  before :
    s.requests id = old.map (fun phase => { key := key, phase := phase })
  after :
    t.requests =
      Function.update s.requests id (some { key := key, phase := phase })
  enters : Enters s id key old phase
  stored :
    ∀ k entry, t.store.get? k = some entry →
      s.store.get? k = some entry ∨
        k = key ∧ (∃ routed, phase = .missed routed entry) ∧
          ((∃ p ∈ old, Owns p) → s.inflight.get? key = some id)
  settled :
    ∀ owner found, t.settled owner = some found →
      s.settled owner = some found ∨
        owner = id ∧ Closed phase ∧
          ∀ entry ∈ found,
            (∃ routed, phase = .missed routed entry) ∧
              s.inflight.get? key = some id
  stays :
    ∀ owner found, s.settled owner = some found →
      t.settled owner = some found
  registered :
    ∀ k owner, t.inflight.get? k = some owner →
      s.inflight.get? k = some owner ∨
        k = key ∧ owner = id ∧ phase = .routing true
  held : t.inflight.get? key = some id → Owns phase
  keeps :
    ∀ k owner, s.inflight.get? k = some owner →
      t.inflight.get? k = some owner ∨
        k = key ∧ owner = id ∧ Closed phase
  claims : phase = .routing true → t.inflight.get? key = some id
  leaves :
    (∃ p ∈ old, Owns p) → Owns phase ∨ ∃ found, t.settled id = some found
  storeSize : t.store.size ≤ max s.store.size (maxEntries + 1)
  inflightSize : t.inflight.size ≤ max s.inflight.size maxEntries

----
-- One Request's Steps
----

section

variable {s : State} {id : Nat} {key : String}
variable {old : Option Phase} {phase : Phase}

/- A phase is entered, and nothing else changes. -/
theorem moves_put
    (hBefore :
      s.requests id =
        old.map (fun phase => { key := key, phase := phase }))
    (hEnters : Enters s id key old phase)
    (hHeld : s.inflight.get? key = some id → Owns phase)
    (hClaims : phase ≠ .routing true)
    (hLeaves : (∃ p ∈ old, Owns p) → Owns phase) :
    Moves s (s.put id key phase) id key old phase :=
  { before := hBefore
    after := rfl
    enters := hEnters
    stored := fun _ _ => Or.inl
    settled := fun _ _ => Or.inl
    stays := fun _ _ h => h
    registered := fun _ _ => Or.inl
    held := hHeld
    keeps := fun _ _ => Or.inl
    claims := fun h => absurd h hClaims
    leaves := fun h => Or.inl (hLeaves h)
    storeSize := le_max_left _ _
    inflightSize := le_max_left _ _ }

/- A route that begins is registered, if it is to be waited for. -/
theorem moves_begin
    (hBefore :
      s.requests id =
        old.map (fun phase => { key := key, phase := phase }))
    (hOld : old = none ∨ ∃ owner, old = some (.waiting owner))
    (hFree : s.inflight.get? key ≠ some id) :
    ∃ owned, Moves s (s.begin id key) id key old (.routing owned) := by
  have hEnters : ∀ owned, Enters s id key old (.routing owned) := by
    intro owned
    rcases hOld with rfl | ⟨owner, rfl⟩
    · exact .begins
    · exact .retries
  have hIdle : ¬ ∃ p ∈ old, Owns p := by
    rintro ⟨p, hOld', hOwns⟩
    rcases hOld with rfl | ⟨owner, rfl⟩
    · cases hOld'
    · cases hOld'
      exact hOwns
  unfold State.begin
  by_cases hRoom :
      boundedKey key = true ∧ s.inflight.size < maxEntries ∧
        s.inflight.get? key = none
  · rw [if_pos hRoom]
    refine
      ⟨true,
        { before := hBefore
          after := rfl
          enters := hEnters true
          stored := fun _ _ => Or.inl
          settled := fun _ _ => Or.inl
          stays := fun _ _ h => h
          registered := ?_
          held := fun _ => rfl
          keeps := ?_
          claims := fun _ => s.inflight.get?_set_self key id
          leaves := fun h => absurd h hIdle
          storeSize := le_max_left _ _
          inflightSize := ?_ }⟩
    · intro k owner hOwner
      unfold State.put at hOwner
      dsimp only at hOwner
      rw [OrderedMap.get?_set] at hOwner
      split at hOwner
      · next hKey =>
          cases hOwner
          exact Or.inr ⟨hKey.symm, rfl, rfl⟩
      · exact Or.inl hOwner
    · intro k owner hOwner
      left
      unfold State.put
      dsimp only
      rw [OrderedMap.get?_set_of_ne]
      · exact hOwner
      · rintro rfl
        rw [hRoom.2.2] at hOwner
        cases hOwner
    · exact
        le_max_of_le_right
          ((s.inflight.size_set_le key id).trans hRoom.2.1)
  · rw [if_neg hRoom]
    exact
      ⟨false,
        moves_put hBefore (hEnters false)
          (fun h => absurd h hFree) (by simp)
          (fun h => absurd h hIdle)⟩

theorem get?_release
    (entry : Option Entry)
    (owner : Nat) :
    (s.release id entry).settled owner =
      if owner = id then some ((s.settled id).getD entry)
      else s.settled owner := by
  unfold State.release
  cases hSettled : s.settled id with
  | some found =>
      dsimp only
      split
      · next hOwner => rw [hOwner, hSettled, Option.getD_some]
      · rfl
  | none =>
      dsimp only
      rw [Function.update_apply, Option.getD_none]

theorem release_rest
    (entry : Option Entry) :
    (s.release id entry).store = s.store ∧
      (s.release id entry).inflight = s.inflight ∧
      (s.release id entry).requests = s.requests := by
  unfold State.release
  split
  · exact ⟨rfl, rfl, rfl⟩
  · exact ⟨rfl, rfl, rfl⟩

end

----
-- The Finally Block
----

section

variable {s t kept : State} {id : Nat} {key : String}
variable {old : Option Phase} {phase : Phase} {owned : Bool}

theorem finish_rest :
    (s.finish id key owned).store = s.store ∧
      (s.finish id key owned).requests = s.requests := by
  have hReleased := @release_rest s id none
  unfold State.finish
  dsimp only
  split
  · split
    · exact ⟨hReleased.1, hReleased.2.2⟩
    · exact ⟨hReleased.1, hReleased.2.2⟩
  · exact ⟨rfl, rfl⟩

theorem settled_finish
    (owner : Nat) :
    (s.finish id key owned).settled owner =
      if owned = true ∧ owner = id then
        some ((s.settled id).getD none)
      else s.settled owner := by
  unfold State.finish
  dsimp only
  by_cases hOwned : owned = true
  · rw [if_pos hOwned]
    have hReleased := @get?_release s id none owner
    split
    · refine hReleased.trans ?_
      simp [hOwned]
    · refine hReleased.trans ?_
      simp [hOwned]
  · rw [if_neg hOwned, if_neg (fun h => hOwned h.1)]

theorem inflight_finish :
    (s.finish id key owned).inflight =
      if owned = true ∧ s.inflight.get? key = some id then
        s.inflight.delete key
      else s.inflight := by
  have hReleased := (@release_rest s id none).2.1
  unfold State.finish
  dsimp only
  by_cases hOwned : owned = true
  · rw [if_pos hOwned, hReleased]
    by_cases hHeld : s.inflight.get? key = some id
    · rw [if_pos hHeld, if_pos ⟨hOwned, hHeld⟩]
    · rw [if_neg hHeld, if_neg (fun h => hHeld h.2), hReleased]
  · rw [if_neg hOwned, if_neg (fun h => hOwned h.1)]

/-
  A request closes: what it kept is in the store, its promise
  is settled, and it is in flight no more.
-/
theorem moves_closes
    {p : Phase}
    (hBefore : s.requests id = some { key := key, phase := p })
    (hOwns : Owns p ↔ owned = true)
    (hEnters : Enters s id key (some p) phase)
    (hClosed : Closed phase)
    (hHeld : s.inflight.get? key = some id → owned = true)
    (hRequests : kept.requests = s.requests)
    (hInflight : kept.inflight = s.inflight)
    (hStored :
      ∀ k entry, kept.store.get? k = some entry →
        s.store.get? k = some entry ∨
          k = key ∧ (∃ routed, phase = .missed routed entry) ∧
            (owned = true → s.inflight.get? key = some id))
    (hSize : kept.store.size ≤ max s.store.size (maxEntries + 1))
    (hSettled :
      ∀ owner found, kept.settled owner = some found →
        s.settled owner = some found ∨
          owner = id ∧
            ∀ entry ∈ found,
              (∃ routed, phase = .missed routed entry) ∧
                s.inflight.get? key = some id)
    (hStays :
      ∀ owner found, s.settled owner = some found →
        kept.settled owner = some found) :
    Moves s ((kept.finish id key owned).put id key phase) id key
      (some p) phase := by
  have hNotRouting : phase ≠ .routing true := by
    rintro rfl
    exact hClosed
  have hDeleted :
      ∀ k owner,
        ((kept.finish id key owned).inflight.get? k = some owner ↔
          s.inflight.get? k = some owner ∧
            ¬ (k = key ∧ s.inflight.get? key = some id)) := by
    intro k owner
    rw [inflight_finish, hInflight]
    by_cases hMine : s.inflight.get? key = some id
    · rw [if_pos ⟨hHeld hMine, hMine⟩, OrderedMap.get?_delete_iff]
      simp [hMine]
    · rw [if_neg (fun h => hMine h.2)]
      simp [hMine]
  refine
    { before := hBefore
      after := ?_
      enters := hEnters
      stored := ?_
      settled := ?_
      stays := ?_
      registered := fun k owner h => Or.inl ((hDeleted k owner).mp h).1
      held := fun h => ?_
      keeps := ?_
      claims := fun h => absurd h hNotRouting
      leaves := ?_
      storeSize := ?_
      inflightSize := ?_ }
  · unfold State.put
    dsimp only
    rw [finish_rest.2, hRequests]
  · intro k entry hEntry
    unfold State.put at hEntry
    dsimp only at hEntry
    rw [finish_rest.1] at hEntry
    refine (hStored k entry hEntry).imp_right (fun h => ?_)
    refine ⟨h.1, h.2.1, ?_⟩
    rintro ⟨p', hOld, hOwns'⟩
    cases hOld
    exact h.2.2 (hOwns.mp hOwns')
  · intro owner found hFound
    unfold State.put at hFound
    dsimp only at hFound
    rw [settled_finish] at hFound
    split at hFound
    · next hSelf =>
        cases hFound
        cases hKept : kept.settled id with
        | none =>
            right
            refine ⟨hSelf.2, hClosed, ?_⟩
            intro entry hEntry
            cases hEntry
        | some found =>
            rw [hSelf.2]
            exact
              (hSettled id found hKept).imp_right
                (fun h => ⟨rfl, hClosed, h.2⟩)
    · exact
        (hSettled owner found hFound).imp_right
          (fun h => ⟨h.1, hClosed, h.2⟩)
  · intro owner found hFound
    have hKept := hStays owner found hFound
    unfold State.put
    dsimp only
    rw [settled_finish]
    split
    · next hSelf =>
        rw [← hSelf.2, hKept, Option.getD_some]
    · exact hKept
  · exact absurd ⟨rfl, ((hDeleted key id).mp h).1⟩ ((hDeleted key id).mp h).2
  · intro k owner hOwner
    by_cases hMine : k = key ∧ s.inflight.get? key = some id
    · right
      rw [hMine.1, hMine.2] at hOwner
      exact ⟨hMine.1, (Option.some.inj hOwner).symm, hClosed⟩
    · exact Or.inl ((hDeleted k owner).mpr ⟨hOwner, hMine⟩)
  · rintro ⟨p', hOld, hOwns'⟩
    cases hOld
    right
    refine ⟨(kept.settled id).getD none, ?_⟩
    unfold State.put
    dsimp only
    rw [settled_finish, if_pos ⟨hOwns.mp hOwns', rfl⟩]
  · unfold State.put
    dsimp only
    rw [finish_rest.1]
    exact hSize
  · unfold State.put
    dsimp only
    rw [inflight_finish, hInflight]
    split
    · exact le_max_of_le_left (OrderedMap.size_delete_le _ _)
    · exact le_max_left _ _

end

----
-- Every Step
----

variable {s t : State} {id : Nat} {key : String}

/- What is in flight is a request that the others wait for. -/
def Registered
    (s : State) : Prop :=
  ∀ key owner, s.inflight.get? key = some owner →
    ∃ p, s.requests owner = some { key := key, phase := p } ∧ Owns p

section

variable (h : Registered s)
include h

theorem Registered.held
    {p : Phase}
    (hRequest : s.requests id = some { key := key, phase := p })
    (hHeld : s.inflight.get? key = some id) :
    Owns p := by
  rcases h key id hHeld with ⟨p', hRequest', hOwns⟩
  rw [hRequest] at hRequest'
  cases hRequest'
  exact hOwns

theorem Registered.free
    (hRequest : s.requests id = none) :
    s.inflight.get? key ≠ some id := by
  intro hHeld
  rcases h key id hHeld with ⟨p, hSome, _⟩
  rw [hRequest] at hSome
  cases hSome

theorem moves_awaitPending
    (hNew : s.requests id = none) :
    ∃ phase, Moves s (s.awaitPending id key) id key none phase := by
  unfold State.awaitPending
  split
  · next owner hPending =>
      have hInflight : s.inflight.get? key = some owner := by
        split at hPending
        · exact hPending
        · cases hPending
      exact
        ⟨_, moves_put hNew (.waits hInflight)
          (fun hHeld => absurd hHeld (h.free hNew)) (by simp)
          (fun hOld => by rcases hOld with ⟨p, hOld, _⟩; cases hOld)⟩
  · rcases moves_begin hNew (Or.inl rfl) (h.free hNew) with
      ⟨owned, hMoves⟩
    exact ⟨_, hMoves⟩

theorem moves_arrive
    (now sent : Int)
    (hNew : s.requests id = none) :
    ∃ phase, Moves s (s.arrive id key now sent) id key none phase := by
  unfold State.arrive
  split
  · exact moves_awaitPending h hNew
  · next entry hFound =>
      have hStored : s.store.get? key = some entry := by
        split at hFound
        · exact hFound
        · cases hFound
      split
      · next hLive =>
          exact
            ⟨_, moves_put hNew (.stored hStored hLive)
              (fun hHeld => absurd hHeld (h.free hNew)) (by simp)
              (fun hOld => by rcases hOld with ⟨p, hOld, _⟩; cases hOld)⟩
      · exact moves_awaitPending h hNew

theorem moves_resume
    {owner : Nat}
    {shared : Option Entry}
    (now sent : Int)
    (hWaiting :
      s.requests id = some { key := key, phase := .waiting owner })
    (hSettled : s.settled owner = some shared) :
    ∃ phase,
      Moves s (s.resume id key shared now sent) id key
        (some (.waiting owner)) phase := by
  have hFree : s.inflight.get? key ≠ some id := fun hHeld =>
    h.held hWaiting hHeld
  have hBegins :=
    @moves_begin s id key (some (.waiting owner)) hWaiting
      (Or.inr ⟨owner, rfl⟩) hFree
  unfold State.resume
  cases shared with
  | none =>
      rcases hBegins with ⟨owned, hMoves⟩
      exact ⟨_, hMoves⟩
  | some entry =>
      dsimp only
      split
      · next hLive =>
          exact
            ⟨_, moves_put hWaiting (.shared hSettled hLive)
              (fun hHeld => absurd hHeld hFree) (by simp)
              (fun hOld => by
                rcases hOld with ⟨p, hOld, hOwns⟩
                cases hOld
                exact hOwns.elim)⟩
      · rcases hBegins with ⟨owned, hMoves⟩
        exact ⟨_, hMoves⟩

end

variable {owned : Bool}

/- A request that leaves nothing behind closes. -/
theorem moves_uncached
    (h : Registered s)
    {p : Phase}
    (hRequest : s.requests id = some { key := key, phase := p })
    (hOwns : Owns p ↔ owned = true)
    (hEnters : Enters s id key (some p) .uncached) :
    Moves s ((s.finish id key owned).put id key .uncached) id key
      (some p) .uncached :=
  moves_closes hRequest hOwns hEnters trivial
    (fun hHeld => hOwns.mp (h.held hRequest hHeld)) rfl rfl
    (fun _ _ => Or.inl) (le_max_left _ _) (fun _ _ => Or.inl)
    (fun _ _ hFound => hFound)

theorem moves_route
    (h : Registered s)
    (routed : Routed)
    (hRouting :
      s.requests id = some { key := key, phase := .routing owned }) :
    ∃ phase,
      Moves s (s.route id key owned routed) id key
        (some (.routing owned)) phase := by
  unfold State.route
  split
  · next hCacheable =>
      exact
        ⟨_, moves_put hRouting (.reads hCacheable.2)
          (fun hHeld =>
            show Owns (.routing owned) from h.held hRouting hHeld)
          (by simp)
          (fun hOld => by
            rcases hOld with ⟨p, hOld, hOwns⟩
            cases hOld
            exact hOwns)⟩
  · exact ⟨_, moves_uncached h hRouting Iff.rfl .routingEnds⟩

/- Only what is in the store, or what is being kept. -/
theorem get?_evictExpired_set
    {store : OrderedMap String Entry}
    {now : Int}
    {entry found : Entry}
    {k : String}
    (h :
      ((evictExpired store now).set key entry).get? k = some found) :
    store.get? k = some found ∨ k = key ∧ found = entry := by
  rw [OrderedMap.get?_set] at h
  split at h
  · next hKey =>
      cases h
      exact Or.inr ⟨hKey.symm, rfl⟩
  · exact
      Or.inl (OrderedMap.get?_keep_iff.mp (OrderedMap.get?_of_trim h)).1

theorem moves_read
    (h : Registered s)
    {routed : Routed}
    (body : String)
    (hReading :
      s.requests id =
        some { key := key, phase := .reading owned routed }) :
    Moves s (s.read id key owned routed body) id key
      (some (.reading owned routed))
      (.missed routed (routed.entry body)) := by
  have hHeld : s.inflight.get? key = some id → owned = true :=
    fun hMine => h.held hReading hMine
  unfold State.read State.keepEntry
  dsimp only
  by_cases hKeeps : owned = false ∨ s.inflight.get? key = some id
  · rw [if_pos hKeeps]
    have hSize :
        ((evictExpired s.store routed.responseTime).set key
            (routed.entry body)).size ≤
          max s.store.size (maxEntries + 1) :=
      le_max_of_le_right
        ((OrderedMap.size_set_le _ _ _).trans
          (Nat.succ_le_succ (OrderedMap.size_trim _ _)))
    have hStored :
        ∀ k entry,
          ((evictExpired s.store routed.responseTime).set key
              (routed.entry body)).get? k = some entry →
            s.store.get? k = some entry ∨
              k = key ∧
                (∃ routed', Phase.missed routed (routed.entry body) =
                  .missed routed' entry) ∧
                (owned = true → s.inflight.get? key = some id) := by
      intro k entry hEntry
      refine (get?_evictExpired_set hEntry).imp_right (fun hNew => ?_)
      refine ⟨hNew.1, ⟨routed, by rw [hNew.2]⟩, fun hOwned => ?_⟩
      rcases hKeeps with hNone | hMine
      · rw [hOwned] at hNone
        cases hNone
      · exact hMine
    by_cases hOwned : owned = true
    · have hMine : s.inflight.get? key = some id :=
        hKeeps.resolve_left (by simp [hOwned])
      rw [if_pos hOwned]
      apply moves_closes hReading Iff.rfl .misses trivial hHeld
      · exact release_rest _ |>.2.2
      · exact release_rest _ |>.2.1
      · rw [(release_rest _).1]
        exact hStored
      · rw [(release_rest _).1]
        exact hSize
      · intro owner found hFound
        rw [get?_release] at hFound
        split at hFound
        · next hSelf =>
            cases hFound
            dsimp only
            cases hBefore : s.settled id with
            | some found =>
                left
                rw [hSelf, hBefore]
                rfl
            | none =>
                right
                refine ⟨hSelf, ?_⟩
                intro entry hEntry
                cases hEntry
                exact ⟨⟨routed, rfl⟩, hMine⟩
        · exact Or.inl hFound
      · intro owner found hFound
        rw [get?_release]
        split
        · next hSelf =>
            dsimp only
            rw [← hSelf, hFound, Option.getD_some]
        · exact hFound
    · rw [if_neg hOwned]
      exact
        moves_closes hReading Iff.rfl .misses trivial hHeld rfl rfl
          hStored hSize (fun _ _ => Or.inl) (fun _ _ hFound => hFound)
  · rw [if_neg hKeeps]
    exact
      moves_closes hReading Iff.rfl .misses trivial hHeld rfl rfl
        (fun _ _ => Or.inl) (le_max_left _ _) (fun _ _ => Or.inl)
        (fun _ _ hFound => hFound)

/- A step is one request's move, or a clear. -/
theorem step_cases
    (h : Registered s)
    {event : Event}
    (hStep : step s event = some t) :
    (event = .clears ∧ t = s.clearCache) ∨
      ∃ id key old phase, Moves s t id key old phase := by
  cases event with
  | arrives id key now sent =>
      right
      unfold step at hStep
      dsimp only at hStep
      split at hStep
      · next hNew =>
          cases hStep
          rcases @moves_arrive s id key h now sent hNew with
            ⟨phase, hMoves⟩
          exact ⟨id, key, none, phase, hMoves⟩
      · cases hStep
  | resumes id now sent =>
      right
      unfold step at hStep
      dsimp only at hStep
      split at hStep
      · next key owner hWaiting =>
          rcases Option.map_eq_some_iff.mp hStep with
            ⟨shared, hSettled, rfl⟩
          rcases moves_resume h now sent hWaiting hSettled with
            ⟨phase, hMoves⟩
          exact ⟨id, key, _, phase, hMoves⟩
      · cases hStep
  | routes id routed =>
      right
      unfold step at hStep
      dsimp only at hStep
      split at hStep
      · next key owned hRouting =>
          cases hStep
          rcases moves_route h routed hRouting with ⟨phase, hMoves⟩
          exact ⟨id, key, _, phase, hMoves⟩
      · cases hStep
  | reads id body =>
      right
      unfold step at hStep
      dsimp only at hStep
      split at hStep
      · next key owned routed hReading =>
          cases hStep
          exact ⟨id, key, _, _, moves_read h body hReading⟩
      · cases hStep
  | fails id =>
      right
      unfold step at hStep
      dsimp only at hStep
      split at hStep
      · next key owned hRouting =>
          cases hStep
          exact
            ⟨id, key, _, _,
              moves_uncached h hRouting Iff.rfl .routingEnds⟩
      · next key owned routed hReading =>
          cases hStep
          exact
            ⟨id, key, _, _,
              moves_uncached h hReading Iff.rfl .readingEnds⟩
      · cases hStep
  | clears =>
      left
      cases hStep
      exact ⟨rfl, rfl⟩

end Callhouse.Indexer.ResponseCache
