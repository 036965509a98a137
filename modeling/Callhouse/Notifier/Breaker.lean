import Mathlib.Data.List.GetD
import Mathlib.Tactic

/-
  notifier/src/breaker.ts: the breaker of one destination, and
  what a history of sends that it allowed looks like.

  Main declarations:
    * `CircuitBreaker`, `allow`, `success`, `failure`
    * `History`, `replay`
    * `OpenSince`, `OpenSince.cooled_down`
-/

----
-- The Breaker
----

namespace Callhouse.Notifier

structure BreakerOptions where
  threshold : Nat
  cooldownMs : Nat
  maxCooldownMs : Nat
deriving DecidableEq

def defaultBreaker : BreakerOptions :=
  { threshold := 5
    cooldownMs := 30000
    maxCooldownMs := 600000 }

inductive BreakerState where
  | closed
  | opened
  | halfOpen
deriving DecidableEq

structure CircuitBreaker where
  options : BreakerOptions
  failures : Nat
  openedUntil : Int
  cooldown : Nat
  trialInFlight : Bool
deriving DecidableEq

namespace CircuitBreaker

def fresh
    (options : BreakerOptions) : CircuitBreaker :=
  { options := options
    failures := 0
    openedUntil := 0
    cooldown := options.cooldownMs
    trialInFlight := false }

def state
    (b : CircuitBreaker)
    (nowMs : Int) : BreakerState :=
  if b.openedUntil = 0 then .closed
  else if nowMs < b.openedUntil then .opened
  else .halfOpen

/- Whether a send may go now, and the breaker that said so. -/
def allow
    (b : CircuitBreaker)
    (nowMs : Int) : Bool × CircuitBreaker :=
  if b.state nowMs = .closed then (true, b)
  else if b.state nowMs = .opened ∨ b.trialInFlight = true then
    (false, b)
  else (true, { b with trialInFlight := true })

def success
    (b : CircuitBreaker) : CircuitBreaker :=
  { b with
    failures := 0
    openedUntil := 0
    trialInFlight := false
    cooldown := b.options.cooldownMs }

def failure
    (b : CircuitBreaker)
    (nowMs : Int) : CircuitBreaker :=
  if b.trialInFlight = true ∨ b.openedUntil ≠ 0 then
    let cooldown := min (b.cooldown * 2) b.options.maxCooldownMs
    { b with
      trialInFlight := false
      cooldown := cooldown
      openedUntil := nowMs + cooldown }
  else if b.failures + 1 ≥ b.options.threshold then
    { b with
      failures := b.failures + 1
      openedUntil := nowMs + b.cooldown }
  else { b with failures := b.failures + 1 }

end CircuitBreaker

----
-- Histories
----

/- A real send; `outage` is a transient failure other than 429. -/
structure BreakerSend where
  atMs : Int
  outage : Bool
deriving DecidableEq

namespace CircuitBreaker

def afterSend
    (b : CircuitBreaker)
    (send : BreakerSend) : CircuitBreaker :=
  let asked := (b.allow send.atMs).2
  if send.outage then asked.failure send.atMs else asked.success

def replay
    (options : BreakerOptions)
    (sends : List BreakerSend) : CircuitBreaker :=
  sends.foldl afterSend (fresh options)

theorem replay_concat
    (options : BreakerOptions)
    (sends : List BreakerSend)
    (send : BreakerSend) :
    replay options (sends ++ [send]) =
      (replay options sends).afterSend send := by
  unfold replay
  rw [List.foldl_append]
  rfl

/- The sends of one process, each allowed when it was made. -/
inductive History
    (options : BreakerOptions) : List BreakerSend → Prop where
  | nil : History options []
  | concat
      {sends : List BreakerSend}
      {send : BreakerSend}
      (before : History options sends)
      (allowed :
        ((replay options sends).allow send.atMs).1 = true)
      (dated : 0 < send.atMs) :
      History options (sends ++ [send])

/- The breaker between two sends. -/
structure Settled
    (options : BreakerOptions)
    (b : CircuitBreaker) : Prop where
  options_eq : b.options = options
  trial : b.trialInFlight = false
  closed : b.openedUntil = 0 → b.cooldown = options.cooldownMs

theorem Settled.fresh
    (options : BreakerOptions) :
    Settled options (fresh options) := by
  constructor <;> intros <;> rfl

variable {options : BreakerOptions}

/- An allowed send of a settled breaker that fails. -/
theorem Settled.outage
    {b : CircuitBreaker}
    (h : Settled options b)
    {send : BreakerSend}
    (hAllowed : (b.allow send.atMs).1 = true)
    (hOutage : send.outage = true) :
    b.afterSend send =
      if b.openedUntil = 0 then b.failure send.atMs
      else
        { b with
          cooldown := min (b.cooldown * 2) options.maxCooldownMs
          openedUntil :=
            send.atMs +
              (min (b.cooldown * 2) options.maxCooldownMs : Nat)
          trialInFlight := false } := by
  unfold afterSend
  rw [hOutage, if_pos rfl]
  unfold allow at hAllowed ⊢
  by_cases hClosed : b.openedUntil = 0
  · have hState : b.state send.atMs = .closed := if_pos hClosed
    rw [if_pos hState, if_pos hClosed]
  · have hState : b.state send.atMs ≠ .closed := by
      unfold state
      rw [if_neg hClosed]
      split <;> decide
    rw [if_neg hState] at hAllowed ⊢
    rw [if_neg hClosed]
    split at hAllowed
    · cases hAllowed
    · next hShut =>
        rw [if_neg hShut]
        unfold failure
        rw [if_pos (Or.inl rfl)]
        simp only [h.options_eq]

theorem Settled.afterSend
    {b : CircuitBreaker}
    (h : Settled options b)
    {send : BreakerSend}
    (hAllowed : (b.allow send.atMs).1 = true)
    (hDated : 0 < send.atMs) :
    Settled options (b.afterSend send) := by
  cases hOutage : send.outage with
  | false =>
      have hOptions :
          (b.allow send.atMs).2.options = b.options := by
        unfold allow
        split
        · rfl
        · split <;> rfl
      unfold CircuitBreaker.afterSend
      rw [hOutage]
      constructor
      · exact hOptions.trans h.options_eq
      · rfl
      · intro _
        exact congrArg BreakerOptions.cooldownMs
          (hOptions.trans h.options_eq)
  | true =>
      rw [h.outage hAllowed hOutage]
      split
      · next hClosed =>
          unfold failure
          rw [if_neg (by simp [h.trial, hClosed])]
          split
          · exact
              ⟨h.options_eq, h.trial,
                fun hZero => absurd hZero (by dsimp only; omega)⟩
          · exact ⟨h.options_eq, h.trial, h.closed⟩
      · exact
          ⟨h.options_eq, rfl,
            fun hZero => absurd hZero (by dsimp only; omega)⟩

theorem History.settled
    {sends : List BreakerSend}
    (h : History options sends) :
    Settled options (replay options sends) := by
  induction h with
  | nil => exact Settled.fresh options
  | concat before allowed dated ih =>
      rw [replay_concat]
      exact ih.afterSend allowed dated

end CircuitBreaker

----
-- Cool-Downs
----

namespace CircuitBreaker

/- The cool-down that follows the given number of failed trials. -/
def coolDown
    (options : BreakerOptions) : Nat → Nat
  | 0 => options.cooldownMs
  | n + 1 => min (coolDown options n * 2) options.maxCooldownMs

variable {options : BreakerOptions}

theorem History.before
    {sends : List BreakerSend}
    {send : BreakerSend}
    (h : History options (sends ++ [send])) :
    History options sends ∧
      ((replay options sends).allow send.atMs).1 = true ∧
        0 < send.atMs := by
  generalize hAll : sends ++ [send] = all at h
  cases h with
  | nil => simp at hAll
  | concat before allowed dated =>
      have hParts := List.append_inj' hAll rfl
      have hSend := List.singleton_inj.mp hParts.2
      rw [hParts.1, hSend]
      exact ⟨before, allowed, dated⟩

/- The send that opened the breaker, and the failures since. -/
structure OpenSince
    (options : BreakerOptions)
    (pre : List BreakerSend)
    (first : BreakerSend)
    (tail : List BreakerSend) : Prop where
  history : History options (pre ++ first :: tail)
  closed : (replay options pre).openedUntil = 0
  opened : (replay options (pre ++ [first])).openedUntil ≠ 0
  outages : ∀ send ∈ tail, send.outage = true

variable {pre : List BreakerSend} {first : BreakerSend}
variable {tail : List BreakerSend}

theorem OpenSince.before
    {send : BreakerSend}
    (h : OpenSince options pre first (tail ++ [send])) :
    OpenSince options pre first tail := by
  constructor
  · have hHistory := h.history
    rw [← List.cons_append, ← List.append_assoc] at hHistory
    exact hHistory.before.1
  · exact h.closed
  · exact h.opened
  · exact fun s hs => h.outages s (List.mem_append_left _ hs)

/- While only failures come, the n-th cool-down is running. -/
theorem OpenSince.cooling
    (h : OpenSince options pre first tail) :
    (replay options (pre ++ first :: tail)).cooldown =
        coolDown options tail.length ∧
      (replay options (pre ++ first :: tail)).openedUntil =
          (tail.getLastD first).atMs +
            coolDown options tail.length ∧
        (replay options (pre ++ first :: tail)).openedUntil ≠ 0 := by
  induction tail using List.reverseRecOn with
  | nil =>
      rcases h.history.before with ⟨hBefore, hAllowed, hDated⟩
      have hSettled := hBefore.settled
      have hOpened := h.opened
      rw [replay_concat] at hOpened ⊢
      cases hOutage : first.outage with
      | false =>
          unfold afterSend at hOpened
          rw [hOutage] at hOpened
          exact absurd rfl hOpened
      | true =>
          rw [hSettled.outage hAllowed hOutage,
            if_pos h.closed] at hOpened ⊢
          unfold failure at hOpened ⊢
          rw [if_neg (by simp [hSettled.trial, h.closed])]
            at hOpened ⊢
          split at hOpened
          · next hThreshold =>
              rw [if_pos hThreshold]
              have hCooldown := hSettled.closed h.closed
              refine ⟨hCooldown, ?_, hOpened⟩
              simp only [hCooldown, coolDown, List.length_nil,
                List.getLastD_nil]
          · exact absurd h.closed hOpened
  | append_singleton tail send ih =>
      rcases ih h.before with ⟨hCooldown, hUntil, hOpen⟩
      have hHistory := h.history
      rw [← List.cons_append, ← List.append_assoc] at hHistory ⊢
      rcases hHistory.before with ⟨hBefore, hAllowed, hDated⟩
      have hOutage := h.outages send (by simp)
      rw [replay_concat,
        hBefore.settled.outage hAllowed hOutage, if_neg hOpen]
      have hNext :
          min ((replay options (pre ++ first :: tail)).cooldown * 2)
              options.maxCooldownMs =
            coolDown options (tail ++ [send]).length := by
        rw [hCooldown, List.length_append]
        rfl
      refine ⟨hNext, ?_, ?_⟩
      · dsimp only
        rw [hNext, List.getLastD_concat]
      · dsimp only
        omega

/-
  After the breaker opened, while only failures come, each send
  waits for the end of the cool-down the send before it began.
-/
theorem OpenSince.cooled_down
    (h : OpenSince options pre first tail)
    (k : Nat)
    (hk : k < tail.length) :
    ((first :: tail).getD k first).atMs + coolDown options k ≤
      (tail.getD k first).atMs := by
  induction tail using List.reverseRecOn with
  | nil => exact absurd hk (Nat.not_lt_zero k)
  | append_singleton tail send ih =>
      rw [← List.cons_append,
        List.getD_append (first :: tail) _ _ _
          (by simp at hk ⊢; omega)]
      by_cases hLast : k < tail.length
      · rw [List.getD_append _ _ _ _ hLast]
        exact ih h.before hLast
      · have hEq : k = tail.length := by
          simp at hk
          omega
        subst hEq
        rcases h.before.cooling with ⟨-, hUntil, hOpen⟩
        have hHistory := h.history
        rw [← List.cons_append, ← List.append_assoc] at hHistory
        rcases hHistory.before with ⟨hBefore, hAllowed, -⟩
        have hWaited :
            (replay options (pre ++ first :: tail)).openedUntil ≤
              send.atMs := by
          by_contra hEarly
          rw [not_le] at hEarly
          have hState :
              (replay options (pre ++ first :: tail)).state
                  send.atMs = .opened := by
            unfold state
            rw [if_neg hOpen, if_pos hEarly]
          unfold allow at hAllowed
          rw [hState] at hAllowed
          simp at hAllowed
        have hPrevious :
            (first :: tail).getD tail.length first =
              tail.getLastD first := by
          rw [List.getD_eq_getElem _ _ (by simp),
            List.getElem_cons_length rfl,
            List.getLast_eq_getLastD]
        have hThis :
            (tail ++ [send]).getD tail.length first = send := by
          rw [List.getD_append_right _ _ _ _ (le_refl _)]
          simp
        rw [hPrevious, hThis, ← hUntil]
        exact hWaited

end CircuitBreaker

end Callhouse.Notifier
