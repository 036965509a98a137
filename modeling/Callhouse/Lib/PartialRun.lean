import Mathlib.Tactic

/-
  Runs of a partial step function: a run whose every step
  lowers a rank ends and repeats no state, and one that meets
  a fixed point stays there.

  Main declarations:
    * `PartialRun.after`
    * `PartialRun.invariant`
    * `PartialRun.ends`, `PartialRun.distinct`
    * `PartialRun.after_fixed`
-/

----
-- Runs
----

namespace PartialRun

section

variable {σ : Type} {next : σ → Option σ}

/- The state after `n` steps, if the run is that long. -/
def after
    (next : σ → Option σ) :
    Nat → σ → Option σ
| 0, s => some s
| n + 1, s =>
    match next s with
    | none => none
    | some t => after next n t

variable {s t : σ}

theorem after_succ
    (h : next s = some t)
    (n : Nat) :
    after next (n + 1) s = after next n t := by
  rw [after, h]

variable {n : Nat}

/- The last step of a run. -/
theorem after_step
    (h : after next n s = some t) :
    after next (n + 1) s = next t := by
  induction n generalizing s with
  | zero =>
      cases h
      cases hNext : next t with
      | none => rw [after, hNext]
      | some u => rw [after_succ hNext, after]
  | succ n ih =>
      cases hNext : next s with
      | none =>
          rw [after, hNext] at h
          cases h
      | some u =>
          rw [after_succ hNext] at h
          rw [after_succ hNext]
          exact ih h

theorem after_of_le
    {m : Nat}
    (hnm : n ≤ m)
    (h : after next m s = some t) :
    ∃ u, after next n s = some u ∧
      after next (m - n) u = some t := by
  induction n generalizing s m with
  | zero => exact ⟨s, rfl, h⟩
  | succ n ih =>
      cases m with
      | zero => omega
      | succ m =>
          cases hNext : next s with
          | none =>
              rw [after, hNext] at h
              cases h
          | some v =>
              rw [after_succ hNext] at h
              rw [after_succ hNext, Nat.add_sub_add_right]
              exact ih (Nat.le_of_succ_le_succ hnm) h

/- What every step keeps, every state of the run has. -/
theorem invariant
    (inv : σ → Prop)
    (hStep : ∀ s t, inv s → next s = some t → inv t)
    (hStart : inv s)
    (h : after next n s = some t) :
    inv t := by
  induction n generalizing s with
  | zero =>
      cases h
      exact hStart
  | succ n ih =>
      cases hNext : next s with
      | none =>
          rw [after, hNext] at h
          cases h
      | some u =>
          rw [after_succ hNext] at h
          exact ih (hStep s u hStart hNext) h

end

----
-- Runs that Descend
----

variable {σ : Type} {next : σ → Option σ}
variable {inv : σ → Prop} {rank : σ → Nat}
variable {s : σ}

/- The rank bounds the steps still to come. -/
theorem ends
    (hStep : ∀ s t, inv s → next s = some t → inv t)
    (hLess :
      ∀ s t, inv s → next s = some t → rank t < rank s)
    (hStart : inv s) :
    ∃ n t, n ≤ rank s ∧ after next n s = some t ∧
      next t = none := by
  induction hRank : rank s using Nat.strong_induction_on
      generalizing s with
  | h r ih =>
      cases hNext : next s with
      | none => exact ⟨0, s, Nat.zero_le _, rfl, hNext⟩
      | some u =>
          have hDown := hLess s u hStart hNext
          rcases ih (rank u) (by omega)
              (hStep s u hStart hNext) rfl with
            ⟨n, t, hn, hAfter, hEnd⟩
          refine ⟨n + 1, t, by omega, ?_, hEnd⟩
          rw [after_succ hNext]
          exact hAfter

variable {t : σ}

theorem rank_le
    (hStep : ∀ s t, inv s → next s = some t → inv t)
    (hLess :
      ∀ s t, inv s → next s = some t → rank t < rank s)
    {n : Nat}
    (hStart : inv s)
    (h : after next n s = some t) :
    rank t + n ≤ rank s := by
  induction n generalizing s with
  | zero =>
      cases h
      exact le_refl _
  | succ n ih =>
      cases hNext : next s with
      | none =>
          rw [after, hNext] at h
          cases h
      | some u =>
          rw [after_succ hNext] at h
          have hDown := hLess s u hStart hNext
          have hRest := ih (hStep s u hStart hNext) h
          omega

/- No state comes back. -/
theorem distinct
    (hStep : ∀ s t, inv s → next s = some t → inv t)
    (hLess :
      ∀ s t, inv s → next s = some t → rank t < rank s)
    {i j : Nat}
    (hStart : inv s)
    (hij : i < j)
    (h : after next i s = some t) :
    after next j s ≠ some t := by
  intro hAgain
  rcases after_of_le hij.le hAgain with ⟨u, hu, hLoop⟩
  rw [h] at hu
  cases hu
  have hInv := invariant inv hStep hStart h
  have hRank := rank_le hStep hLess hInv hLoop
  omega

/- A state that is its own successor comes back at once. -/
theorem after_fixed
    {n : Nat}
    (h : after next n s = some t)
    (hFixed : next t = some t) :
    after next (n + 1) s = some t := by
  rw [after_step h, hFixed]

end PartialRun
