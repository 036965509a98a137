import Mathlib.Algebra.Order.Group.Defs
import Mathlib.Algebra.BigOperators.Group.List.Basic
import Mathlib.Data.Int.Basic
import Mathlib.Tactic

/-
  A quota for each key: a charge is admitted while its bound
  fits the room that the charges booked so far leave, and what
  it really spends is known only later.

  Main declarations:
    * `Quota.Charge`, `Quota.total`, `Quota.room`
    * `Quota.Admitted`
    * `Quota.Admitted.spent_le`
-/

----
-- Charges and Totals
----

namespace Quota

section

variable {K M : Type}

/- What one charge was admitted for, booked at, and spent. -/
structure Charge (K M : Type) where
  key : K
  bound : M
  booked : M
  spent : M
deriving DecidableEq

variable [DecidableEq K] [AddCommGroup M]

def total
    (amount : Charge K M → M)
    (charges : List (Charge K M))
    (k : K) : M :=
  ((charges.filter (fun c => c.key = k)).map amount).sum

theorem total_concat_self
    (amount : Charge K M → M)
    (charges : List (Charge K M))
    (c : Charge K M) :
    total amount (charges ++ [c]) c.key =
      total amount charges c.key + amount c := by
  unfold total
  simp

theorem total_concat_of_ne
    (amount : Charge K M → M)
    (charges : List (Charge K M))
    {c : Charge K M}
    {k : K}
    (hKey : c.key ≠ k) :
    total amount (charges ++ [c]) k =
      total amount charges k := by
  unfold total
  simp [hKey]

variable [LinearOrder M] [IsOrderedAddMonoid M]

theorem total_le_total
    {f g : Charge K M → M}
    {charges : List (Charge K M)}
    (hLe : ∀ c ∈ charges, f c ≤ g c)
    (k : K) :
    total f charges k ≤ total g charges k := by
  unfold total
  apply List.sum_le_sum
  intro c hc
  exact hLe c (List.mem_of_mem_filter hc)

end

----
-- Admission
----

variable {K M : Type} [DecidableEq K] [AddCommGroup M]
variable [LinearOrder M] [IsOrderedAddMonoid M]

/- What a quota leaves: nothing once it is used up. -/
def room
    (cap used : M) : M :=
  if cap ≤ used then 0 else cap - used

theorem add_room_le
    {cap used spent : M}
    (hUsed : spent ≤ used)
    (hCap : spent ≤ cap) :
    spent + room cap used ≤ cap := by
  unfold room
  split
  · rw [add_zero]
    exact hCap
  · calc
      spent + (cap - used) ≤ used + (cap - used) := by
        gcongr
      _ = cap := by
        abel

/-
  Histories, the last charge at the end, in which each charge
  fitted the room of its key when it was made.
-/
inductive Admitted
    (cap : M) : List (Charge K M) → Prop where
  | nil : Admitted cap []
  | concat
      {charges : List (Charge K M)}
      {c : Charge K M}
      (before : Admitted cap charges)
      (fits :
        c.bound ≤
          room cap (total Charge.booked charges c.key)) :
      Admitted cap (charges ++ [c])

/-
  When every charge is booked at no less than it spends, and
  spends no more than its bound, no key spends over the cap.
-/
theorem Admitted.spent_le
    {cap : M}
    {charges : List (Charge K M)}
    (hAdmitted : Admitted cap charges)
    (hCap : 0 ≤ cap)
    (hBound : ∀ c ∈ charges, c.spent ≤ c.bound)
    (hBooked : ∀ c ∈ charges, c.spent ≤ c.booked)
    (k : K) :
    total Charge.spent charges k ≤ cap := by
  induction hAdmitted with
  | nil => exact hCap
  | @concat charges c before fits ih =>
      have hBefore := ih
        (fun c' hc => hBound c' (List.mem_append_left _ hc))
        (fun c' hc => hBooked c' (List.mem_append_left _ hc))
      by_cases hKey : c.key = k
      · subst hKey
        have hUsed :
            total Charge.spent charges c.key ≤
              total Charge.booked charges c.key :=
          total_le_total
            (fun c' hc =>
              hBooked c' (List.mem_append_left _ hc))
            c.key
        have hSpent : c.spent ≤ c.bound := hBound c (by simp)
        calc
          total Charge.spent (charges ++ [c]) c.key =
              total Charge.spent charges c.key + c.spent :=
            total_concat_self Charge.spent charges c
          _ ≤ total Charge.spent charges c.key +
              room cap (total Charge.booked charges c.key) := by
            gcongr
            exact hSpent.trans fits
          _ ≤ cap := add_room_le hUsed hBefore
      · rw [total_concat_of_ne Charge.spent charges hKey]
        exact hBefore

end Quota
