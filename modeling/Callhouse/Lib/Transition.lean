import Mathlib.Logic.Relation

/-
  Step relations: the states a system reaches, and the two
  rules by which a property of them is proved.

  Main declarations:
    * `Transition.Reachable`
    * `Transition.invariant`
-/

----
-- Reachable States
----

namespace Transition

variable {σ : Type}

/- Some start of the system leads to `s` in finitely many steps. -/
def Reachable
    (start : σ → Prop)
    (next : σ → σ → Prop)
    (s : σ) : Prop :=
  ∃ s₀, start s₀ ∧ Relation.ReflTransGen next s₀ s

variable {start : σ → Prop} {next : σ → σ → Prop} {s : σ}

theorem Reachable.init
    (h : start s) :
    Reachable start next s :=
  ⟨s, h, .refl⟩

theorem Reachable.step
    {t : σ}
    (h : Reachable start next s)
    (hStep : next s t) :
    Reachable start next t := by
  rcases h with ⟨s₀, hStart, hRun⟩
  exact ⟨s₀, hStart, hRun.tail hStep⟩

/- What every start has and every step keeps, holds forever. -/
theorem invariant
    (inv : σ → Prop)
    (hStart : ∀ s, start s → inv s)
    (hStep : ∀ s t, inv s → next s t → inv t)
    (h : Reachable start next s) :
    inv s := by
  rcases h with ⟨s₀, hInit, hRun⟩
  induction hRun with
  | refl => exact hStart s₀ hInit
  | tail _ hLast ih => exact hStep _ _ ih hLast

/- A system that takes fewer steps reaches fewer states. -/
theorem Reachable.mono
    {next' : σ → σ → Prop}
    (hStep : ∀ s t, next s t → next' s t)
    (h : Reachable start next s) :
    Reachable start next' s := by
  rcases h with ⟨s₀, hInit, hRun⟩
  exact ⟨s₀, hInit,
    Relation.ReflTransGen.mono hStep _ _ hRun⟩

end Transition
