import Callhouse.Lib.MapRemoval
import Callhouse.Lib.Transition
import Mathlib.Logic.Function.Basic

/-
  indexer/src/api/cache.ts: the response cache that the public
  routes share.  What runs between two awaits is one step, and
  the steps of concurrent requests come in any order.

  Main declarations:
    * `Entry`, `Phase`, `Request`, `State`
    * `State.arrive`, `State.resume`, `State.route`
    * `State.read`, `State.clearCache`
    * `Event`, `step`, `Next`, `Serves`
-/

----
-- Entries
----

namespace Callhouse.Indexer.ResponseCache

def ttlMs : Int := 15000

def maxEntries : Nat := 256

def maxKeyLength : Nat := 2048

structure Entry where
  body : String
  status : Nat
  expires : Int
deriving DecidableEq

/- A route's answer, with its x-internal-snapshot-expires-at. -/
structure Routed where
  status : Nat
  snapshotExpiry : Option Int
  responseTime : Int
deriving DecidableEq

/- A shared snapshot may be older than the response. -/
def Routed.expires
    (routed : Routed) : Int :=
  match routed.snapshotExpiry with
  | none => routed.responseTime + ttlMs
  | some snapshotExpiry =>
      if 0 < snapshotExpiry then
        min (routed.responseTime + ttlMs) snapshotExpiry
      else routed.responseTime + ttlMs

def Routed.Cacheable
    (routed : Routed) : Prop :=
  200 ≤ routed.status ∧ routed.status < 300 ∧
    routed.responseTime < routed.expires

instance
    (routed : Routed) :
    Decidable routed.Cacheable :=
  inferInstanceAs (Decidable (_ ∧ _ ∧ _))

def Routed.entry
    (routed : Routed)
    (body : String) : Entry :=
  { body := body
    status := routed.status
    expires := routed.expires }

/- The seconds that cache-control lets others hold it for. -/
def maxAge
    (expires now : Int) : Int :=
  max 0 ((expires - now) / 1000)

def boundedKey
    (key : String) : Bool :=
  decide (key.length ≤ maxKeyLength)

----
-- Requests
----

/-
  Where a request stands.  `owned` is that the others of its
  key wait for it: their promise is named by the request.
-/
inductive Phase where
  | waiting (owner : Nat)
  | routing (owned : Bool)
  | reading (owned : Bool) (routed : Routed)
  | hit (entry : Entry) (now sent : Int)
  | missed (routed : Routed) (entry : Entry)
  | uncached
deriving DecidableEq

structure Request where
  key : String
  phase : Phase
deriving DecidableEq

/- `settled` is what a promise resolved to, if it has. -/
structure State where
  store : OrderedMap String Entry
  inflight : OrderedMap String Nat
  settled : Nat → Option (Option Entry)
  requests : Nat → Option Request

def State.start : State :=
  { store := .empty
    inflight := .empty
    settled := fun _ => none
    requests := fun _ => none }

variable (s : State)

def State.put
    (id : Nat)
    (key : String)
    (phase : Phase) : State :=
  { s with
    requests :=
      Function.update s.requests id
        (some { key := key, phase := phase }) }

/- The promise is made, if there is room, before the route runs. -/
def State.begin
    (id : Nat)
    (key : String) : State :=
  if boundedKey key = true ∧ s.inflight.size < maxEntries ∧
      s.inflight.get? key = none then
    State.put { s with inflight := s.inflight.set key id } id key
      (.routing true)
  else s.put id key (.routing false)

def State.awaitPending
    (id : Nat)
    (key : String) : State :=
  match if boundedKey key then s.inflight.get? key else none with
  | some owner => s.put id key (.waiting owner)
  | none => s.begin id key

def State.arrive
    (id : Nat)
    (key : String)
    (now sent : Int) : State :=
  match if boundedKey key then s.store.get? key else none with
  | none => s.awaitPending id key
  | some entry =>
      if now < entry.expires then s.put id key (.hit entry now sent)
      else s.awaitPending id key

/- The shared entry is used, or the route runs after all. -/
def State.resume
    (id : Nat)
    (key : String)
    (shared : Option Entry)
    (now sent : Int) : State :=
  match shared with
  | none => s.begin id key
  | some entry =>
      if now < entry.expires then s.put id key (.hit entry now sent)
      else s.begin id key

/- A promise resolves once. -/
def State.release
    (id : Nat)
    (entry : Option Entry) : State :=
  match s.settled id with
  | some _ => s
  | none =>
      { s with settled := Function.update s.settled id (some entry) }

/- The finally block. -/
def State.finish
    (id : Nat)
    (key : String)
    (owned : Bool) : State :=
  if owned then
    let released := s.release id none
    if released.inflight.get? key = some id then
      { released with inflight := released.inflight.delete key }
    else released
  else s

def State.route
    (id : Nat)
    (key : String)
    (owned : Bool)
    (routed : Routed) : State :=
  if boundedKey key = true ∧ routed.Cacheable then
    s.put id key (.reading owned routed)
  else (s.finish id key owned).put id key .uncached

def evictExpired
    (store : OrderedMap String Entry)
    (now : Int) : OrderedMap String Entry :=
  (store.keep (fun _ entry => decide (now < entry.expires))).trim
    maxEntries

/- An owner that the cache was cleared under stores nothing. -/
def State.keepEntry
    (id : Nat)
    (key : String)
    (owned : Bool)
    (responseTime : Int)
    (entry : Entry) : State :=
  if owned = false ∨ s.inflight.get? key = some id then
    let kept :=
      { s with
        store := (evictExpired s.store responseTime).set key entry }
    if owned then kept.release id (some entry) else kept
  else s

def State.read
    (id : Nat)
    (key : String)
    (owned : Bool)
    (routed : Routed)
    (body : String) : State :=
  let entry := routed.entry body
  State.put
    ((s.keepEntry id key owned routed.responseTime entry).finish id
      key owned)
    id key (.missed routed entry)

def State.clearCache
    (s : State) : State :=
  { s with
    store := .empty
    inflight := .empty }

----
-- Steps
----

/- `fails` is that the route or the reading of its body threw. -/
inductive Event where
  | arrives (id : Nat) (key : String) (now sent : Int)
  | resumes (id : Nat) (now sent : Int)
  | routes (id : Nat) (routed : Routed)
  | reads (id : Nat) (body : String)
  | fails (id : Nat)
  | clears
deriving DecidableEq

def step
    (s : State) : Event → Option State
  | .arrives id key now sent =>
      match s.requests id with
      | none => some (s.arrive id key now sent)
      | some _ => none
  | .resumes id now sent =>
      match s.requests id with
      | some ⟨key, .waiting owner⟩ =>
          (s.settled owner).map
            (fun shared => s.resume id key shared now sent)
      | _ => none
  | .routes id routed =>
      match s.requests id with
      | some ⟨key, .routing owned⟩ =>
          some (s.route id key owned routed)
      | _ => none
  | .reads id body =>
      match s.requests id with
      | some ⟨key, .reading owned routed⟩ =>
          some (s.read id key owned routed body)
      | _ => none
  | .fails id =>
      match s.requests id with
      | some ⟨key, .routing owned⟩ =>
          some ((s.finish id key owned).put id key .uncached)
      | some ⟨key, .reading owned _⟩ =>
          some ((s.finish id key owned).put id key .uncached)
      | _ => none
  | .clears => some s.clearCache

def Next
    (s t : State) : Prop :=
  ∃ event, step s event = some t

/- A step that is not a clear. -/
def Serves
    (s t : State) : Prop :=
  ∃ event, event ≠ .clears ∧ step s event = some t

def run
    (events : List Event) : Option State :=
  events.foldlM step s

theorem run_steps
    {events : List Event}
    {s t : State}
    (h : run s events = some t) :
    Relation.ReflTransGen Next s t := by
  induction events generalizing s with
  | nil =>
      cases h
      exact .refl
  | cons event rest ih =>
      rcases Option.bind_eq_some_iff.mp h with ⟨u, hStep, hRest⟩
      exact .head ⟨event, hStep⟩ (ih hRest)

theorem run_serves
    {events : List Event}
    {s t : State}
    (h : run s events = some t)
    (hServes : .clears ∉ events) :
    Relation.ReflTransGen Serves s t := by
  induction events generalizing s with
  | nil =>
      cases h
      exact .refl
  | cons event rest ih =>
      rcases Option.bind_eq_some_iff.mp h with ⟨u, hStep, hRest⟩
      rw [List.mem_cons, not_or] at hServes
      exact
        .head ⟨event, Ne.symm hServes.1, hStep⟩ (ih hRest hServes.2)

/- One request computes the answer that a second is given. -/
def sampleEvents : List Event :=
  [ .arrives 0 "/v2/cards" 10 10,
    .routes 0
      { status := 200, snapshotExpiry := none, responseTime := 20 },
    .reads 0 "[]",
    .arrives 1 "/v2/cards" 30 31 ]

def sampleEntry : Entry :=
  { body := "[]"
    status := 200
    expires := 15020 }

end Callhouse.Indexer.ResponseCache
