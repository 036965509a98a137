import Mathlib.Tactic

/-
  Parties that all act at once on a stale view, each looking
  only at the parties ranked above it: whatever they start
  with, a rank settles one round after the ranks above it.

  Main declarations:
    * `RankedRounds.run`
    * `RankedRounds.Settles`
    * `RankedRounds.Settles.run_eq`
-/

----
-- Rounds
----

namespace RankedRounds

variable {ι σ : Type} (next : Nat → (ι → σ) → ι → σ)

/- Round `t` takes every party to its own next value at once. -/
def run
    (start : ι → σ) : Nat → ι → σ
  | 0 => start
  | t + 1 => next t (run start t)

/-
  A party that moved once on a view of the ranks above it
  stays where it is for as long as that view does.
-/
def Settles
    (parties : Set ι)
    (rank : ι → Nat) : Prop :=
  ∀ i ∈ parties, ∀ t t' s s',
    (∀ j ∈ parties, rank j < rank i → s j = s' j) →
      s' i = next t s i → next t' s' i = s' i

variable {next} {parties : Set ι} {rank : ι → Nat}

/- By induction on the rank, and for each rank on the rounds. -/
theorem Settles.run_eq
    (h : Settles next parties rank)
    (start : ι → σ)
    (k : Nat) :
    ∀ i ∈ parties, rank i < k →
      ∀ t, k ≤ t → run next start t i = run next start k i := by
  induction k with
  | zero => exact fun i _ hRank => absurd hRank (Nat.not_lt_zero _)
  | succ k ih =>
      intro i hi hRank t hLate
      rcases Nat.lt_or_ge (rank i) k with hAbove | hHere
      · rw [ih i hi hAbove t (by omega),
          ih i hi hAbove (k + 1) (by omega)]
      · have hStill :
            ∀ u, k + 1 ≤ u →
              ∀ j ∈ parties, rank j < rank i →
                run next start k j = run next start u j :=
          fun u hu j hj hLess =>
            (ih j hj (by omega) u (by omega)).symm
        induction t, hLate using Nat.le_induction with
        | base => rfl
        | succ t hLate ihT =>
            have hKept :
                run next start t i =
                  next k (run next start k) i := ihT
            calc run next start (t + 1) i
                = next t (run next start t) i := rfl
              _ = run next start t i :=
                h i hi k t _ _ (hStill t hLate) hKept
              _ = run next start (k + 1) i := ihT

end RankedRounds
