import Callhouse.Lib.SlidingWindow
import Callhouse.Lib.Transition

/-
  notifier/src/auth.ts and the nonces of notifier/src/store.ts:
  a wallet signs a challenge, and the challenge is burned before
  the signature is checked.  Replicas take their transactions
  one at a time and their clocks may be some minutes apart.

  Main declarations:
    * `createChallenge`, `consumeNonce`, `authenticate`
    * `AuthState`, `AuthState.step`, `SpentOk`, `RationOk`
    * `challenges_are_spent_once`
    * `challenges_are_rationed`
-/

----
-- Challenges and Nonces
----

namespace Callhouse.Notifier.Auth

def nonceTtlMs : Int := 600000

def challengeWindowMs : Int := 60000

def maxChallengesPerAddress : Nat := 20

/- A row of notifier.nonce. -/
structure NonceRow where
  nonce : String
  address : String
  message : String
  createdAt : Int
  expiresAt : Int
  usedAt : Option Int
deriving DecidableEq

/- The checksummed form, and the message to be signed. -/
structure AuthEnv where
  getAddress : String → Option String
  challengeMessage : String → String → Int → Int → String

inductive ChallengeError where
  | rateLimit
  | uniqueViolation
deriving DecidableEq

def recentChallenges
    (nonces : List NonceRow)
    (address : String)
    (now : Int) : Nat :=
  nonces.countP (fun row =>
    decide (now - challengeWindowMs < row.createdAt ∧
      row.address = address))

def createChallenge
    (env : AuthEnv)
    (nonces : List NonceRow)
    (address nonce : String)
    (now : Int) : Except ChallengeError NonceRow :=
  if maxChallengesPerAddress ≤ recentChallenges nonces address now then
    .error .rateLimit
  else if nonce ∈ nonces.map NonceRow.nonce then
    .error .uniqueViolation
  else
    .ok
      { nonce := nonce
        address := address
        message :=
          env.challengeMessage address nonce now (now + nonceTtlMs)
        createdAt := now
        expiresAt := now + nonceTtlMs
        usedAt := none }

def NonceRow.live
    (nonce address : String)
    (now : Int)
    (row : NonceRow) : Bool :=
  decide (row.nonce = nonce ∧ row.address = address ∧
    row.usedAt = none ∧ now < row.expiresAt)

/- One UPDATE: the message comes back, the rows are used. -/
def consumeNonce
    (nonces : List NonceRow)
    (nonce address : String)
    (now : Int) : Option String × List NonceRow :=
  ((nonces.find? (NonceRow.live nonce address now)).map
      NonceRow.message,
    nonces.map (fun row =>
      if row.live nonce address now then
        { row with usedAt := some now }
      else row))

def purge
    (nonces : List NonceRow)
    (now : Int) : List NonceRow :=
  nonces.filter (fun row => decide (now ≤ row.expiresAt))

----
-- Authentication
----

/- A field that is not a string is none. -/
structure AuthInput where
  address : Option String
  signature : Option String
  nonce : Option String
deriving DecidableEq

inductive AuthResult where
  | ok (address : String)
  | failure (status : Nat) (code message : String)
deriving DecidableEq

def isLowerHex
    (c : Char) : Bool :=
  c.isDigit || (decide ('a' ≤ c) && decide (c ≤ 'f'))

def isHex
    (c : Char) : Bool :=
  isLowerHex c || (decide ('A' ≤ c) && decide (c ≤ 'F'))

/- 0x and one to 8192 bytes. -/
def isSignature
    (signature : String) : Bool :=
  match signature.toList with
  | '0' :: 'x' :: digits =>
      digits.all isHex && decide (digits.length % 2 = 0) &&
        decide (2 ≤ digits.length) && decide (digits.length ≤ 16384)
  | _ => false

def isNonce
    (nonce : String) : Bool :=
  nonce.toList.all isLowerHex && decide (nonce.toList.length = 32)

/- The fields, once they are well formed. -/
def readInput
    (env : AuthEnv)
    (input : AuthInput) :
    Except AuthResult (String × String × String) :=
  match input.address.bind env.getAddress with
  | none =>
      .error
        (.failure 400 "bad-request" "address: a 20-byte hex address")
  | some address =>
      match input.signature.filter isSignature with
      | none =>
          .error
            (.failure 400 "bad-request"
              "signature: a 0x-prefixed hex signature")
      | some signature =>
          match input.nonce.filter isNonce with
          | none =>
              .error
                (.failure 400 "bad-request"
                  "nonce: the nonce from POST /v1/challenge")
          | some nonce => .ok (address, signature, nonce)

/- A request that burned its nonce; its verifier may not have answered. -/
structure Attempt where
  nonce : String
  address : String
  message : String
  signature : String
  consumedAt : Int
  result : Option AuthResult
deriving DecidableEq

/- Up to the burning of the nonce. -/
def authenticate
    (env : AuthEnv)
    (nonces : List NonceRow)
    (input : AuthInput)
    (now : Int) : Except AuthResult (Attempt × List NonceRow) :=
  match readInput env input with
  | .error failure => .error failure
  | .ok (address, signature, nonce) =>
      match consumeNonce nonces nonce address now with
      | (none, _) =>
          .error
            (.failure 401 "nonce-invalid"
              ("the nonce is unknown, used, expired, or was issued " ++
                "for another address: request a new challenge"))
      | (some message, rows) =>
          .ok
            ({ nonce := nonce
               address := address
               message := message
               signature := signature
               consumedAt := now
               result := none }, rows)

/- The verifier's answer; none is that it threw. -/
def verdict
    (address : String)
    (answer : Option Bool) : AuthResult :=
  match answer with
  | none =>
      .failure 503 "verifier-unavailable"
        ("the signature could not be checked against the chain " ++
          "right now: request a new challenge and retry")
  | some false =>
      .failure 401 "signature-invalid"
        "the signature does not match the address and challenge"
  | some true => .ok address

def Attempt.answered
    (answer : Option Bool)
    (attempt : Attempt) : Attempt :=
  match attempt.result with
  | some _ => attempt
  | none =>
      { attempt with result := some (verdict attempt.address answer) }

----
-- Runs
----

/- `issued` and `attempts` are all that there have been. -/
structure AuthState where
  nonces : List NonceRow
  issued : List NonceRow
  attempts : List Attempt
  clock : Int
deriving DecidableEq

inductive AuthEvent where
  | challenges (address nonce : String) (now : Int)
  | authenticates (input : AuthInput) (now : Int)
  | verifies (attempt : Nat) (answer : Option Bool)
  | purges (now : Int)
deriving DecidableEq

/- How far a clock may be behind, that the window is kept. -/
def maxSkewMs : Int := nonceTtlMs - challengeWindowMs

def AuthEvent.Timely
    (clock : Int) : AuthEvent → Prop
  | .challenges _ _ now => clock - maxSkewMs ≤ now
  | .authenticates _ now => clock - maxSkewMs ≤ now
  | .verifies _ _ => True
  | .purges now => clock - maxSkewMs ≤ now

def AuthState.step
    (env : AuthEnv)
    (s : AuthState) : AuthEvent → AuthState
  | .challenges address nonce now =>
      match createChallenge env s.nonces address nonce now with
      | .error _ => { s with clock := max s.clock now }
      | .ok row =>
          { s with
            nonces := s.nonces ++ [row]
            issued := s.issued ++ [row]
            clock := max s.clock now }
  | .authenticates input now =>
      match authenticate env s.nonces input now with
      | .error _ => { s with clock := max s.clock now }
      | .ok (attempt, nonces) =>
          { s with
            nonces := nonces
            attempts := s.attempts ++ [attempt]
            clock := max s.clock now }
  | .verifies attempt answer =>
      { s with
        attempts := s.attempts.modify attempt (·.answered answer) }
  | .purges now =>
      { s with
        nonces := purge s.nonces now
        clock := max s.clock now }

def AuthState.Start
    (s : AuthState) : Prop :=
  s.nonces = [] ∧ s.issued = [] ∧ s.attempts = []

def AuthState.Next
    (env : AuthEnv)
    (s t : AuthState) : Prop :=
  ∃ event, s.step env event = t

def AuthState.TimelyNext
    (env : AuthEnv)
    (s t : AuthState) : Prop :=
  ∃ event, AuthEvent.Timely s.clock event ∧ s.step env event = t

----
-- Nonces Are Burned
----

def NonceRow.unused
    (nonce : String)
    (row : NonceRow) : Bool :=
  decide (row.nonce = nonce ∧ row.usedAt = none)

variable {env : AuthEnv} {nonces rows : List NonceRow}
variable {nonce address message : String} {now : Int}

/- Burning takes an unused row of the nonce away. -/
theorem unused_consumeNonce
    (h : consumeNonce nonces nonce address now = (some message, rows))
    (other : String) :
    rows.countP (NonceRow.unused other) + [nonce].count other ≤
      nonces.countP (NonceRow.unused other) := by
  have hRows := congrArg Prod.snd h
  have hFound := congrArg Prod.fst h
  unfold consumeNonce at hRows hFound
  dsimp only at hRows hFound
  rcases Option.map_eq_some_iff.mp hFound with ⟨row, hFind, _⟩
  have hLive := List.find?_some hFind
  have hIn := List.mem_of_find?_eq_some hFind
  clear hFind hFound h
  rw [← hRows, List.countP_map]
  -- each row that is burned was unused, and is not any more
  have hEach :
      ∀ l : List NonceRow,
        l.countP
            (NonceRow.unused other ∘ fun row =>
              if row.live nonce address now then
                { row with usedAt := some now }
              else row) +
          (if nonce = other then
            l.countP (NonceRow.live nonce address now)
          else 0) ≤
        l.countP (NonceRow.unused other) := by
    intro l
    induction l with
    | nil => simp
    | cons head rest ih =>
        simp only [List.countP_cons, Function.comp_apply]
        unfold NonceRow.unused NonceRow.live at *
        grind
  have hSome :
      0 < nonces.countP (NonceRow.live nonce address now) :=
    List.countP_pos_iff.mpr ⟨row, hIn, hLive⟩
  have hAll := hEach nonces
  rw [List.count_singleton]
  by_cases hSame : nonce = other
  · rw [if_pos hSame] at hAll
    simp only [hSame, beq_self_eq_true, if_true] at hAll hSome ⊢
    omega
  · rw [if_neg hSame] at hAll
    rw [if_neg (by simpa using hSame)]
    exact hAll

theorem consumeNonce_found
    (h : consumeNonce nonces nonce address now = (some message, rows)) :
    ∃ row ∈ nonces, row.nonce = nonce ∧ row.address = address ∧
      row.message = message ∧ now < row.expiresAt := by
  have hFound := congrArg Prod.fst h
  unfold consumeNonce at hFound
  dsimp only at hFound
  rcases Option.map_eq_some_iff.mp hFound with ⟨row, hFind, hMessage⟩
  have hLive := List.find?_some hFind
  unfold NonceRow.live at hLive
  rw [decide_eq_true_iff] at hLive
  exact
    ⟨row, List.mem_of_find?_eq_some hFind, hLive.1, hLive.2.1,
      hMessage, hLive.2.2.2⟩

/- A row's identity, which burning does not touch. -/
def NonceRow.key
    (row : NonceRow) : String × String × String × Int × Int :=
  (row.nonce, row.address, row.message, row.createdAt, row.expiresAt)

theorem key_consumeNonce
    (nonces : List NonceRow)
    (nonce address : String)
    (now : Int) :
    (consumeNonce nonces nonce address now).2.map NonceRow.key =
      nonces.map NonceRow.key := by
  unfold consumeNonce
  rw [List.map_map]
  apply List.map_congr_left
  intro row _
  dsimp only [Function.comp_apply]
  split <;> rfl

variable {attempt : Attempt} {input : AuthInput}

theorem authenticate_ok
    (h : authenticate env nonces input now = .ok (attempt, rows)) :
    consumeNonce nonces attempt.nonce attempt.address now =
        (some attempt.message, rows) ∧
      attempt.consumedAt = now ∧ attempt.result = none := by
  unfold authenticate at h
  split at h
  · cases h
  · next address signature nonce hInput =>
      split at h
      · cases h
      · next message found hConsumed =>
          cases h
          exact ⟨hConsumed, rfl, rfl⟩

variable {row : NonceRow}

theorem createChallenge_ok
    (h : createChallenge env nonces address nonce now = .ok row) :
    recentChallenges nonces address now < maxChallengesPerAddress ∧
      row =
        { nonce := nonce
          address := address
          message :=
            env.challengeMessage address nonce now (now + nonceTtlMs)
          createdAt := now
          expiresAt := now + nonceTtlMs
          usedAt := none } := by
  unfold createChallenge at h
  split at h
  · cases h
  · next hRoom =>
      split at h
      · cases h
      · cases h
        exact ⟨not_le.mp hRoom, rfl⟩

theorem answered_rest
    (answer : Option Bool)
    (a : Attempt) :
    (a.answered answer).nonce = a.nonce ∧
      (a.answered answer).address = a.address ∧
      (a.answered answer).message = a.message ∧
      (a.answered answer).consumedAt = a.consumedAt ∧
      ∀ address, (a.answered answer).result = some (.ok address) →
        a.result = some (.ok address) ∨ address = a.address := by
  unfold Attempt.answered
  cases hResult : a.result with
  | some result =>
      refine ⟨rfl, rfl, rfl, rfl, fun address hOk => ?_⟩
      left
      rw [hResult] at hOk
      exact hOk
  | none =>
      refine ⟨rfl, rfl, rfl, rfl, fun address hOk => ?_⟩
      right
      unfold verdict at hOk
      cases answer with
      | none => cases hOk
      | some valid =>
          cases valid with
          | false => cases hOk
          | true =>
              cases hOk
              rfl

----
-- Every Run
----

def stamps
    (issued : List NonceRow)
    (address : String) : List Int :=
  (issued.filter (fun row => decide (row.address = address))).map
    NonceRow.createdAt

/- A challenge that no replica's purge can have dropped yet. -/
def fresh
    (clock : Int)
    (key : String × String × String × Int × Int) : Bool :=
  decide (clock ≤ key.2.2.2.2)

/- The challenge that an attempt was made with. -/
def Attempt.Answers
    (a : Attempt)
    (c : NonceRow) : Prop :=
  c.nonce = a.nonce ∧ c.address = a.address ∧ c.message = a.message ∧
    a.consumedAt < c.expiresAt ∧
    ∀ address, a.result = some (.ok address) → address = a.address

structure SpentOk
    (s : AuthState) : Prop where
  spent :
    ∀ nonce,
      (s.attempts.map Attempt.nonce).count nonce +
          s.nonces.countP (NonceRow.unused nonce) ≤
        (s.issued.map NonceRow.nonce).count nonce
  attempts : ∀ a ∈ s.attempts, ∃ c ∈ s.issued, a.Answers c
  issued : ∀ c ∈ s.issued, c.expiresAt = c.createdAt + nonceTtlMs
  known : ∀ row ∈ s.nonces, row.key ∈ s.issued.map NonceRow.key

structure RationOk
    (s : AuthState) : Prop where
  kept :
    ((s.issued.map NonceRow.key).filter (fresh s.clock)).Sublist
      (s.nonces.map NonceRow.key)
  rationed :
    ∀ address,
      SlidingWindow.Within challengeWindowMs maxChallengesPerAddress
        (stamps s.issued address)

variable {s : AuthState}

theorem fresh_mono
    {clock clock' : Int}
    (h : clock ≤ clock')
    (keys : List (String × String × String × Int × Int)) :
    (keys.filter (fresh clock')).Sublist (keys.filter (fresh clock)) := by
  apply List.monotone_filter_right
  intro key hFresh
  exact decide_eq_true (h.trans (of_decide_eq_true hFresh))

theorem RationOk.later
    (h : RationOk s)
    (now : Int) :
    RationOk { s with clock := max s.clock now } :=
  { h with
    kept := (fresh_mono (le_max_left _ _) _).trans h.kept }

/- What the window holds of an address has not been purged. -/
theorem RationOk.recent_le
    (h : RationOk s)
    (hSpent : SpentOk s)
    (hClock : s.clock - maxSkewMs ≤ now)
    (address : String) :
    SlidingWindow.recent challengeWindowMs now
        (stamps s.issued address) ≤
      recentChallenges s.nonces address now := by
  have hIssued :
      SlidingWindow.recent challengeWindowMs now
          (stamps s.issued address) =
        (s.issued.map NonceRow.key).countP (fun key =>
          decide (now - challengeWindowMs < key.2.2.2.1 ∧
            key.2.1 = address)) := by
    unfold SlidingWindow.recent stamps
    rw [List.countP_map, List.countP_map, List.countP_filter]
    apply List.countP_congr
    intro row _
    change (decide (now - challengeWindowMs < row.createdAt) &&
        decide (row.address = address)) = true ↔
      decide (now - challengeWindowMs < row.createdAt ∧
        row.address = address) = true
    rw [Bool.and_eq_true, decide_eq_true_iff, decide_eq_true_iff,
      decide_eq_true_iff]
  have hRows :
      recentChallenges s.nonces address now =
        (s.nonces.map NonceRow.key).countP (fun key =>
          decide (now - challengeWindowMs < key.2.2.2.1 ∧
            key.2.1 = address)) := by
    rw [List.countP_map]
    rfl
  rw [hIssued, hRows]
  refine le_trans (le_of_eq ?_) h.kept.countP_le
  rw [List.countP_filter]
  apply List.countP_congr
  intro key hKey
  rcases List.mem_map.mp hKey with ⟨row, hIn, rfl⟩
  have hExpires := hSpent.issued row hIn
  unfold maxSkewMs at hClock
  rw [Bool.and_eq_true]
  constructor
  · intro hRecent
    have hIn := (of_decide_eq_true hRecent).1
    dsimp only [NonceRow.key] at hIn
    exact ⟨hRecent, decide_eq_true (show s.clock ≤ row.expiresAt by omega)⟩
  · exact And.left

theorem SpentOk.challenged
    (h : SpentOk s)
    (hRow : createChallenge env s.nonces address nonce now = .ok row) :
    SpentOk
      { s with
        nonces := s.nonces ++ [row]
        issued := s.issued ++ [row]
        clock := max s.clock now } := by
  rcases createChallenge_ok hRow with ⟨_, rfl⟩
  refine
    { spent := ?_
      attempts := ?_
      issued := ?_
      known := ?_ }
  · intro other
    have hBefore := h.spent other
    simp only [List.countP_append, List.map_append, List.map_singleton,
      List.count_append, List.countP_singleton, List.count_singleton,
      NonceRow.unused]
    split
    · next hSame =>
        have hEq := (of_decide_eq_true hSame).1
        rw [if_pos (by simpa using hEq)]
        omega
    · omega
  · intro a hIn
    rcases h.attempts a hIn with ⟨c, hC, hAnswers⟩
    exact ⟨c, List.mem_append_left _ hC, hAnswers⟩
  · intro c hC
    rcases List.mem_append.mp hC with hC | hC
    · exact h.issued c hC
    · rw [List.mem_singleton.mp hC]
  · intro r hR
    rw [List.map_append, List.mem_append]
    rcases List.mem_append.mp hR with hR | hR
    · exact Or.inl (h.known r hR)
    · rw [List.mem_singleton.mp hR]
      exact Or.inr (List.mem_singleton_self _)

theorem RationOk.challenged
    (h : RationOk s)
    (hSpent : SpentOk s)
    (hClock : s.clock - maxSkewMs ≤ now)
    (hRow : createChallenge env s.nonces address nonce now = .ok row) :
    RationOk
      { s with
        nonces := s.nonces ++ [row]
        issued := s.issued ++ [row]
        clock := max s.clock now } := by
  rcases createChallenge_ok hRow with ⟨hRoom, rfl⟩
  constructor
  · dsimp only
    rw [List.map_append, List.map_append, List.filter_append]
    exact
      ((fresh_mono (le_max_left _ _) _).trans h.kept).append
        List.filter_sublist
  · intro other
    unfold stamps
    rw [List.filter_append, List.map_append]
    by_cases hSame : address = other
    · subst hSame
      rw [List.filter_singleton]
      simp only [decide_true]
      exact
        ((h.rationed address).add
          (lt_of_le_of_lt (h.recent_le hSpent hClock address) hRoom)).perm
            List.perm_append_comm
    · simpa [hSame, stamps] using h.rationed other

theorem key_authenticate
    (hOk : authenticate env nonces input now = .ok (attempt, rows)) :
    rows.map NonceRow.key = nonces.map NonceRow.key := by
  rw [← key_consumeNonce nonces attempt.nonce attempt.address now,
    (authenticate_ok hOk).1]

theorem SpentOk.authenticated
    (h : SpentOk s)
    (hOk : authenticate env s.nonces input now = .ok (attempt, rows)) :
    SpentOk
      { s with
        nonces := rows
        attempts := s.attempts ++ [attempt]
        clock := max s.clock now } := by
  have hKeys := key_authenticate hOk
  rcases authenticate_ok hOk with ⟨hConsumed, rfl, hNone⟩
  refine
    { spent := ?_
      attempts := ?_
      issued := h.issued
      known := ?_ }
  · intro other
    have hBefore := h.spent other
    have hBurned := unused_consumeNonce hConsumed other
    dsimp only
    rw [List.map_append, List.map_singleton, List.count_append]
    omega
  · intro a hIn
    rcases List.mem_append.mp hIn with hIn | hIn
    · exact h.attempts a hIn
    · rw [List.mem_singleton.mp hIn]
      rcases consumeNonce_found hConsumed with
        ⟨row, hRow, hNonce, hAddress, hMessage, hLive⟩
      rcases List.mem_map.mp (h.known row hRow) with ⟨c, hC, hKey⟩
      unfold NonceRow.key at hKey
      simp only [Prod.mk.injEq] at hKey
      refine
        ⟨c, hC, hKey.1.trans hNonce, hKey.2.1.trans hAddress,
          hKey.2.2.1.trans hMessage, by omega, ?_⟩
      intro address hResult
      rw [hNone] at hResult
      cases hResult
  · intro row hRow
    have hIn : row.key ∈ rows.map NonceRow.key :=
      List.mem_map_of_mem hRow
    rw [hKeys] at hIn
    rcases List.mem_map.mp hIn with ⟨row', hRow', hKey⟩
    rw [← hKey]
    exact h.known row' hRow'

theorem RationOk.authenticated
    (h : RationOk s)
    (hOk : authenticate env s.nonces input now = .ok (attempt, rows)) :
    RationOk
      { s with
        nonces := rows
        attempts := s.attempts ++ [attempt]
        clock := max s.clock now } :=
  { h with
    kept := by
      dsimp only
      rw [key_authenticate hOk]
      exact (fresh_mono (le_max_left _ _) _).trans h.kept }

theorem SpentOk.purged
    (h : SpentOk s)
    (now : Int) :
    SpentOk
      { s with
        nonces := purge s.nonces now
        clock := max s.clock now } := by
  refine
    { h with
      spent := ?_
      known := fun row hRow =>
        h.known row (List.mem_of_mem_filter hRow) }
  intro nonce
  have hBefore := h.spent nonce
  have hFewer :
      (purge s.nonces now).countP (NonceRow.unused nonce) ≤
        s.nonces.countP (NonceRow.unused nonce) :=
    List.filter_sublist.countP_le
  dsimp only
  omega

theorem RationOk.purged
    (h : RationOk s)
    (now : Int) :
    RationOk
      { s with
        nonces := purge s.nonces now
        clock := max s.clock now } := by
  have hPurge :
      (purge s.nonces now).map NonceRow.key =
        (s.nonces.map NonceRow.key).filter (fresh now) := by
    unfold purge
    rw [List.filter_map]
    rfl
  refine { h with kept := ?_ }
  dsimp only
  rw [hPurge]
  have hBoth :
      (s.issued.map NonceRow.key).filter (fresh (max s.clock now)) =
        ((s.issued.map NonceRow.key).filter
          (fresh s.clock)).filter (fresh now) := by
    rw [List.filter_filter]
    apply List.filter_congr
    intro key _
    simp [fresh, and_comm]
  rw [hBoth]
  exact h.kept.filter _

theorem SpentOk.verified
    (h : SpentOk s)
    (attempt : Nat)
    (answer : Option Bool) :
    SpentOk
      { s with
        attempts := s.attempts.modify attempt (·.answered answer) } := by
  have hNonces :
      (s.attempts.modify attempt (·.answered answer)).map
          Attempt.nonce =
        s.attempts.map Attempt.nonce := by
    apply List.ext_getElem?
    intro i
    rw [List.getElem?_map, List.getElem?_map, List.getElem?_modify]
    cases s.attempts[i]? with
    | none => rfl
    | some a =>
        by_cases hSelf : attempt = i
        · simp [hSelf, (answered_rest answer a).1]
        · simp [hSelf]
  refine
    { h with
      spent := fun nonce => hNonces ▸ h.spent nonce
      attempts := ?_ }
  intro a hIn
  rcases List.mem_iff_getElem?.mp hIn with ⟨i, hGet⟩
  rw [List.getElem?_modify] at hGet
  cases hFound : s.attempts[i]? with
  | none =>
      rw [hFound] at hGet
      cases hGet
  | some before =>
      rw [hFound] at hGet
      dsimp only [Option.map_eq_map, Option.map_some] at hGet
      rcases h.attempts before (List.mem_of_getElem? hFound) with
        ⟨c, hC, hAnswers⟩
      refine ⟨c, hC, ?_⟩
      have hRest := answered_rest answer before
      split at hGet
      · cases hGet
        refine
          ⟨hAnswers.1.trans hRest.1.symm,
            hAnswers.2.1.trans hRest.2.1.symm,
            hAnswers.2.2.1.trans hRest.2.2.1.symm, ?_, ?_⟩
        · rw [hRest.2.2.2.1]
          exact hAnswers.2.2.2.1
        · intro address hOk
          rw [hRest.2.1]
          rcases hRest.2.2.2.2 address hOk with hBefore | hSame
          · exact hAnswers.2.2.2.2 address hBefore
          · exact hSame
      · cases hGet
        exact hAnswers

theorem spentOk_step
    (h : SpentOk s)
    (event : AuthEvent) :
    SpentOk (s.step env event) := by
  unfold AuthState.step
  cases event with
  | challenges address nonce now =>
      dsimp only
      split
      · exact { h with }
      · next row hRow => exact h.challenged hRow
  | authenticates input now =>
      dsimp only
      split
      · exact { h with }
      · next attempt rows hAttempt => exact h.authenticated hAttempt
  | verifies attempt answer => exact h.verified attempt answer
  | purges now => exact h.purged now

theorem rationOk_step
    (h : RationOk s)
    (hSpent : SpentOk s)
    {event : AuthEvent}
    (hTimely : event.Timely s.clock) :
    RationOk (s.step env event) := by
  unfold AuthState.step
  cases event with
  | challenges address nonce now =>
      dsimp only
      split
      · exact h.later now
      · next row hRow => exact h.challenged hSpent hTimely hRow
  | authenticates input now =>
      dsimp only
      split
      · exact h.later now
      · next attempt rows hAttempt => exact h.authenticated hAttempt
  | verifies attempt answer => exact { h with }
  | purges now => exact h.purged now

theorem spentOk_start
    (h : s.Start) :
    SpentOk s := by
  rcases s with ⟨nonces, issued, attempts, clock⟩
  rcases h with ⟨rfl, rfl, rfl⟩
  exact
    { spent := fun _ => le_refl 0
      attempts := fun _ hIn => by cases hIn
      issued := fun _ hIn => by cases hIn
      known := fun _ hIn => by cases hIn }

theorem rationOk_start
    (h : s.Start) :
    RationOk s := by
  rcases s with ⟨nonces, issued, attempts, clock⟩
  rcases h with ⟨rfl, rfl, rfl⟩
  exact
    { kept := List.Sublist.slnil
      rationed := fun _ => SlidingWindow.within_nil _ _ }

/-
  No challenge is spent twice: every attempt, right or wrong,
  has a challenge of its own, issued to its address, in time.
-/
theorem challenges_are_spent_once
    (h : Transition.Reachable AuthState.Start (AuthState.Next env) s) :
    (∀ nonce,
      (s.attempts.map Attempt.nonce).count nonce ≤
        (s.issued.map NonceRow.nonce).count nonce) ∧
      ∀ a ∈ s.attempts, ∃ c ∈ s.issued,
        c.nonce = a.nonce ∧ c.address = a.address ∧
          c.message = a.message ∧
          a.consumedAt < c.createdAt + nonceTtlMs ∧
          ∀ address, a.result = some (.ok address) →
            address = c.address := by
  have hOk :=
    Transition.invariant SpentOk (fun _ => spentOk_start)
      (fun _ _ hOk ⟨event, hStep⟩ => hStep ▸ spentOk_step hOk event) h
  constructor
  · intro nonce
    exact (Nat.le_add_right _ _).trans (hOk.spent nonce)
  · intro a hIn
    rcases hOk.attempts a hIn with
      ⟨c, hC, hNonce, hAddress, hMessage, hTime, hResult⟩
    refine ⟨c, hC, hNonce, hAddress, hMessage, ?_, ?_⟩
    · rw [← hOk.issued c hC]
      exact hTime
    · intro address hAnswer
      rw [hAddress]
      exact hResult address hAnswer

def sampleEnv : AuthEnv :=
  { getAddress := some
    challengeMessage := fun address nonce _ _ => address ++ nonce }

instance
    (clock : Int) :
    (event : AuthEvent) → Decidable (event.Timely clock)
  | .challenges _ _ now =>
      inferInstanceAs (Decidable (clock - maxSkewMs ≤ now))
  | .authenticates _ now =>
      inferInstanceAs (Decidable (clock - maxSkewMs ≤ now))
  | .verifies _ _ => inferInstanceAs (Decidable True)
  | .purges now =>
      inferInstanceAs (Decidable (clock - maxSkewMs ≤ now))

theorem reachable_run
    {events : List AuthEvent}
    (h :
      Transition.Reachable AuthState.Start (AuthState.TimelyNext env) s)
    (hTimely :
      ∀ i : Fin events.length,
        (events.get i).Timely
          ((events.take i).foldl (AuthState.step env) s).clock) :
    Transition.Reachable AuthState.Start (AuthState.TimelyNext env)
      (events.foldl (AuthState.step env) s) := by
  induction events generalizing s with
  | nil => exact h
  | cons event rest ih =>
      have hFirst := hTimely ⟨0, Nat.succ_pos _⟩
      exact
        ih (h.step ⟨event, hFirst, rfl⟩) (fun i => hTimely i.succ)

/- A challenge is answered five minutes later, and verified. -/
def sampleEvents : List AuthEvent :=
  [ .challenges "0xa1" "00000000000000000000000000000000" 10,
    .authenticates
      { address := some "0xa1"
        signature := some "0x00"
        nonce := some "00000000000000000000000000000000" }
      300010,
    .verifies 0 (some true) ]

def sampleState : AuthState :=
  sampleEvents.foldl (AuthState.step sampleEnv) (.mk [] [] [] 0)

theorem sampleState_reachable :
    Transition.Reachable AuthState.Start
      (AuthState.TimelyNext sampleEnv) sampleState :=
  reachable_run (.init ⟨rfl, rfl, rfl⟩) (by decide +kernel)

theorem challenges_are_spent_once_sample :
    sampleState.attempts.map Attempt.result = [some (.ok "0xa1")] ∧
      ∀ nonce,
        (sampleState.attempts.map Attempt.nonce).count nonce ≤
          (sampleState.issued.map NonceRow.nonce).count nonce :=
  ⟨by decide +kernel,
    (challenges_are_spent_once
      (sampleState_reachable.mono fun _ _ ⟨event, _, hStep⟩ =>
        ⟨event, hStep⟩)).1⟩

/- In no minute does an address get more than twenty. -/
theorem challenges_are_rationed
    (h :
      Transition.Reachable AuthState.Start (AuthState.TimelyNext env) s)
    (address : String) :
    SlidingWindow.Within challengeWindowMs maxChallengesPerAddress
      (stamps s.issued address) := by
  have hOk :=
    Transition.invariant (fun s => SpentOk s ∧ RationOk s)
      (fun _ hStart => ⟨spentOk_start hStart, rationOk_start hStart⟩)
      (fun _ _ hOk ⟨event, hTimely, hStep⟩ =>
        hStep ▸
          ⟨spentOk_step hOk.1 event,
            rationOk_step hOk.2 hOk.1 hTimely⟩) h
  exact hOk.2.rationed address

/-
  One address asks each second of the first thirty, and once
  more as the first of its challenges leaves the window; a
  purge and another address come between.
-/
def burstEvents : List AuthEvent :=
  (List.range 30).map (fun i =>
      .challenges "0xa1" (toString i) (1000 * i)) ++
    [ .challenges "0xb2" "b" 30000,
      .purges 40000,
      .challenges "0xa1" "late" 60000,
      .challenges "0xa1" "later" 60001 ]

def burstState : AuthState :=
  burstEvents.foldl (AuthState.step sampleEnv) (.mk [] [] [] 0)

/- The first twenty are issued, and one of the last two. -/
theorem challenges_are_rationed_sample :
    stamps burstState.issued "0xa1" =
        (List.range 20).map (fun i => 1000 * (i : Int)) ++ [60000] ∧
      SlidingWindow.Within challengeWindowMs maxChallengesPerAddress
        (stamps burstState.issued "0xa1") :=
  ⟨by decide +kernel,
    challenges_are_rationed
      (reachable_run (.init ⟨rfl, rfl, rfl⟩) (by decide +kernel))
      "0xa1"⟩

end Callhouse.Notifier.Auth
