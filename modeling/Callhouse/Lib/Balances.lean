import Mathlib.Tactic

/-
  Units held under keys: what is credited, and what is taken
  only where there is enough of it.

  Main declarations:
    * `Balances.credit`, `Balances.debit`
    * `Balances.Nonneg`
    * `Balances.debit_eq_some`
-/

----
-- Holdings
----

namespace Balances

section

variable {K : Type}

def Nonneg
    (held : K → Int) : Prop :=
  ∀ k, 0 ≤ held k

/- What is held in two places together. -/
def total
    (held held' : K → Int) : K → Int :=
  fun k => held k + held' k

theorem Nonneg.le_total_left
    {held held' : K → Int}
    (h : Nonneg held')
    (k : K) :
    held k ≤ total held held' k :=
  le_add_of_nonneg_right (h k)

theorem Nonneg.le_total_right
    {held held' : K → Int}
    (h : Nonneg held)
    (k : K) :
    held' k ≤ total held held' k :=
  le_add_of_nonneg_left (h k)

end

----
-- Credits and Debits
----

variable {K : Type} [DecidableEq K]

def credit
    (held : K → Int)
    (k : K)
    (units : Int) : K → Int :=
  fun k' => if k' = k then held k' + units else held k'

/- None where less is held than is taken. -/
def debit
    (held : K → Int)
    (k : K)
    (units : Int) : Option (K → Int) :=
  if held k < units then none else some (credit held k (-units))

theorem debit_eq_some
    {held held' : K → Int}
    {k : K}
    {units : Int} :
    debit held k units = some held' ↔
      units ≤ held k ∧ held' = credit held k (-units) := by
  unfold debit
  split
  · next hShort =>
      constructor
      · exact fun h => by cases h
      · rintro ⟨hEnough, _⟩
        exact absurd hShort (not_lt.mpr hEnough)
  · next hEnough =>
      rw [Option.some.injEq, eq_comm]
      exact ⟨fun h => ⟨not_lt.mp hEnough, h⟩, fun h => h.2⟩

@[simp]
theorem credit_zero
    (held : K → Int)
    (k : K) :
    credit held k 0 = held := by
  funext k'
  unfold credit
  split
  · exact add_zero _
  · rfl

/- What is taken and given back changes nothing. -/
@[simp]
theorem credit_neg_credit
    (held : K → Int)
    (k : K)
    (units : Int) :
    credit (credit held k (-units)) k units = held := by
  funext k'
  unfold credit
  split
  · ring
  · rfl

theorem credit_comm
    (held : K → Int)
    (k k' : K)
    (units units' : Int) :
    credit (credit held k units) k' units' =
      credit (credit held k' units') k units := by
  funext k''
  unfold credit
  split <;> split <;> ring

@[simp]
theorem total_credit_left
    (held held' : K → Int)
    (k : K)
    (units : Int) :
    total (credit held k units) held' =
      credit (total held held') k units := by
  funext k'
  unfold total credit
  split
  · ring
  · rfl

@[simp]
theorem total_credit_right
    (held held' : K → Int)
    (k : K)
    (units : Int) :
    total held (credit held' k units) =
      credit (total held held') k units := by
  funext k'
  unfold total credit
  split
  · ring
  · rfl

theorem Nonneg.credit
    {held : K → Int}
    (h : Nonneg held)
    (k : K)
    {units : Int}
    (hUnits : 0 ≤ units) :
    Nonneg (credit held k units) := by
  intro k'
  unfold Balances.credit
  split
  · exact add_nonneg (h k') hUnits
  · exact h k'

theorem Nonneg.debit
    {held held' : K → Int}
    (h : Nonneg held)
    {k : K}
    {units : Int}
    (hDebit : debit held k units = some held') :
    Nonneg held' := by
  rcases debit_eq_some.mp hDebit with ⟨hEnough, rfl⟩
  intro k'
  unfold Balances.credit
  split
  · next hSame =>
      rw [hSame]
      omega
  · exact h k'

end Balances
