import Mathlib.Tactic

/-
  Two programs that take the same events in lock step: if
  related states take every event to related states, or both
  fail alike, then so do their runs.

  Main declarations:
    * `LockStep.Agree`, `LockStep.Agree.bind`
    * `LockStep.foldlM_agree`
    * `LockStep.Agree.map_eq`
-/

----
-- Lock Step
----

namespace LockStep

variable {ε α β γ ι : Type}

/- Both fail with one error, or both go on, related. -/
inductive Agree
    (R : α → β → Prop) :
    Except ε α → Except ε β → Prop where
  | ok {a : α} {b : β} (h : R a b) : Agree R (.ok a) (.ok b)
  | error (e : ε) : Agree R (.error e) (.error e)

theorem Agree.refl
    (x : Except ε α) :
    Agree Eq x x := by
  cases x with
  | ok a => exact .ok rfl
  | error e => exact .error e

variable {R : α → β → Prop} {x : Except ε α} {y : Except ε β}

theorem Agree.bind
    {γ' : Type}
    {S : γ → γ' → Prop}
    (h : Agree R x y)
    {f : α → Except ε γ}
    {g : β → Except ε γ'}
    (hNext : ∀ a b, R a b → Agree S (f a) (g b)) :
    Agree S (x >>= f) (y >>= g) := by
  cases h with
  | ok h => exact hNext _ _ h
  | error e => exact .error e

theorem Agree.mono
    {S : α → β → Prop}
    (h : Agree R x y)
    (hLess : ∀ a b, R a b → S a b) :
    Agree S x y := by
  cases h with
  | ok h => exact .ok (hLess _ _ h)
  | error e => exact .error e

/- What is related has been returned. -/
theorem Agree.returned
    (h : Agree R x y) :
    Agree (fun a b => x = .ok a ∧ R a b) x y := by
  cases h with
  | ok h => exact .ok ⟨rfl, h⟩
  | error e => exact .error e

theorem bind_eq_ok
    {f : α → Except ε β}
    {b : β} :
    x >>= f = .ok b ↔ ∃ a, x = .ok a ∧ f a = .ok b := by
  cases x with
  | ok a =>
      constructor
      · exact fun h => ⟨a, rfl, h⟩
      · rintro ⟨_, hSame, h⟩
        cases hSame
        exact h
  | error e =>
      constructor
      · exact fun h => by cases h
      · rintro ⟨_, hSame, _⟩
        cases hSame

/- The relation may speak of the events still to come. -/
theorem foldlM_agree
    {R : List ι → α → β → Prop}
    {step : α → ι → Except ε α}
    {step' : β → ι → Except ε β}
    (hStep :
      ∀ event rest a b, R (event :: rest) a b →
        Agree (R rest) (step a event) (step' b event))
    {events : List ι}
    {a : α}
    {b : β}
    (h : R events a b) :
    Agree (R []) (events.foldlM step a)
      (events.foldlM step' b) := by
  induction events generalizing a b with
  | nil => exact .ok h
  | cons event rest ih =>
      rw [List.foldlM_cons, List.foldlM_cons]
      have hNow := hStep event rest a b h
      generalize step a event = x, step' b event = y at hNow ⊢
      cases hNow with
      | ok hNext => exact ih hNext
      | error e => exact .error e

theorem Agree.map_eq
    (h : Agree R x y)
    {f : α → γ}
    {g : β → γ}
    (hSame : ∀ a b, R a b → f a = g b) :
    x.map f = y.map g := by
  cases h with
  | ok h => exact congrArg Except.ok (hSame _ _ h)
  | error e => rfl

end LockStep
