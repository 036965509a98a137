import Mathlib.Tactic
import Callhouse.Lib.TruncDiv

/-
  Splitting a whole amount by weight: every share is rounded
  down, what is left over is less than one for each share,
  and shares above a cap can be cut to it again and again
  without running out of members or of money.

  Main declarations:
    * `ProportionalShare.share`, `ProportionalShare.leftover`
    * `ProportionalShare.leftover_lt_length`
    * `ProportionalShare.Spendable`
    * `ProportionalShare.Spendable.after_cut`
    * `ProportionalShare.Spendable.share_le_after_paid`
-/

----
-- Shares and Leftover
----

namespace ProportionalShare

section

variable {α : Type} (weight : α → Int)

def total
    (members : List α) : Int :=
  (members.map weight).sum

def share
    (budget whole : Int)
    (a : α) : Int :=
  (budget * weight a).tdiv whole

def leftover
    (budget : Int)
    (members : List α) : Int :=
  budget -
    (members.map
      (share weight budget (total weight members))).sum

variable {weight} {budget : Int}

variable {whole : Int}

theorem share_nonneg
    {a : α}
    (hBudget : 0 ≤ budget)
    (hWhole : 0 < whole)
    (hWeight : 0 ≤ weight a) :
    0 ≤ share weight budget whole a :=
  TruncDiv.tdiv_nonneg (mul_nonneg hBudget hWeight) hWhole

theorem share_le_share
    {a b : α}
    (hBudget : 0 ≤ budget)
    (hWhole : 0 < whole)
    (hWeight : 0 ≤ weight a)
    (hLe : weight a ≤ weight b) :
    share weight budget whole a ≤
      share weight budget whole b :=
  TruncDiv.tdiv_le_tdiv (mul_nonneg hBudget hWeight) hWhole
    (mul_le_mul_of_nonneg_left hLe hBudget)

variable {members : List α}

theorem sum_share_mul_le
    (hBudget : 0 ≤ budget)
    (hWhole : 0 < whole)
    (hWeights : ∀ a ∈ members, 0 ≤ weight a) :
    (members.map (share weight budget whole)).sum * whole ≤
      budget * total weight members := by
  unfold total
  induction members with
  | nil => simp
  | cons a rest ih =>
      have hHead :
          share weight budget whole a * whole ≤
            budget * weight a :=
        TruncDiv.tdiv_mul_le
          (mul_nonneg hBudget (hWeights a (by simp))) hWhole
      have hTail :=
        ih (fun b hb => hWeights b (List.mem_cons_of_mem a hb))
      rw [List.map_cons, List.sum_cons, List.map_cons,
        List.sum_cons, add_mul, mul_add]
      exact add_le_add hHead hTail

theorem mul_total_le
    (hBudget : 0 ≤ budget)
    (hWhole : 0 < whole)
    (hWeights : ∀ a ∈ members, 0 ≤ weight a) :
    budget * total weight members + members.length ≤
      ((members.map (share weight budget whole)).sum +
        members.length) * whole := by
  unfold total
  induction members with
  | nil => simp
  | cons a rest ih =>
      have hHead :
          budget * weight a <
            (share weight budget whole a + 1) * whole :=
        TruncDiv.lt_tdiv_add_one_mul
          (mul_nonneg hBudget (hWeights a (by simp))) hWhole
      have hTail :=
        ih (fun b hb => hWeights b (List.mem_cons_of_mem a hb))
      rw [List.map_cons, List.sum_cons, List.map_cons,
        List.sum_cons, List.length_cons]
      push_cast
      linarith

/- The shares never overspend the budget. -/
theorem sum_share_le
    (hBudget : 0 ≤ budget)
    (hTotal : 0 < total weight members)
    (hWeights : ∀ a ∈ members, 0 ≤ weight a) :
    (members.map
        (share weight budget (total weight members))).sum ≤
      budget := by
  have hMul := sum_share_mul_le hBudget hTotal hWeights
  exact le_of_mul_le_mul_right hMul hTotal

theorem leftover_nonneg
    (hBudget : 0 ≤ budget)
    (hTotal : 0 < total weight members)
    (hWeights : ∀ a ∈ members, 0 ≤ weight a) :
    0 ≤ leftover weight budget members := by
  have hSum := sum_share_le hBudget hTotal hWeights
  unfold leftover
  omega

/- What is left over is less than one for each member. -/
theorem leftover_lt_length
    (hBudget : 0 ≤ budget)
    (hTotal : 0 < total weight members)
    (hWeights : ∀ a ∈ members, 0 ≤ weight a) :
    leftover weight budget members < members.length := by
  have hMul := mul_total_le hBudget hTotal hWeights
  have hSome : members ≠ [] := by
    intro hNone
    rw [hNone] at hTotal
    exact lt_irrefl 0 hTotal
  have hLength : 0 < members.length :=
    List.length_pos_iff.mpr hSome
  have hLess :
      budget * total weight members <
        ((members.map
          (share weight budget (total weight members))).sum +
            members.length) * total weight members := by
    omega
  have hBelow := lt_of_mul_lt_mul_right hLess hTotal.le
  unfold leftover
  omega

end

----
-- Shares Under a Cap
----

section

variable {α : Type} {weight : α → Int} {cap budget : Int}
variable {members : List α}
variable (weight cap) in
/- A member whose share passes the cap. -/
def IsOver
    (budget whole : Int)
    (a : α) : Prop :=
  cap < share weight budget whole a

instance
    (weight : α → Int)
    (cap budget whole : Int)
    (a : α) :
    Decidable (IsOver weight cap budget whole a) := by
  unfold IsOver
  infer_instance

variable (weight cap budget members) in
/- The members whose shares are cut to the cap. -/
def cut : List α :=
  members.filter
    (fun a => IsOver weight cap budget (total weight members) a)

variable (weight cap budget members) in
def kept : List α :=
  members.filter
    (fun a =>
      ¬ IsOver weight cap budget (total weight members) a)

/- A budget that its members can take, at the cap each. -/
structure Spendable
    (weight : α → Int)
    (cap budget : Int)
    (members : List α) : Prop where
  cap_nonneg : 0 ≤ cap
  budget_nonneg : 0 ≤ budget
  budget_le : budget ≤ cap * members.length
  some_member : members ≠ []
  weight_pos : ∀ a ∈ members, 0 < weight a

section

variable (h : Spendable weight cap budget members)
include h

theorem Spendable.total_pos :
    0 < total weight members := by
  apply List.sum_pos
  · intro x hx
    rcases List.mem_map.mp hx with ⟨a, hIn, hEq⟩
    rw [← hEq]
    exact h.weight_pos a hIn
  · intro hNone
    exact h.some_member (List.map_eq_nil_iff.mp hNone)

theorem Spendable.weight_nonneg :
    ∀ a ∈ members, 0 ≤ weight a :=
  fun a hIn => (h.weight_pos a hIn).le

/- Whoever is cut weighs more than whoever is not. -/
theorem Spendable.weight_lt
    {a b : α}
    (hCut : a ∈ cut weight cap budget members)
    (hKept : b ∈ kept weight cap budget members) :
    weight b < weight a := by
  rcases List.mem_filter.mp hCut with ⟨hIn, hAbove⟩
  rcases List.mem_filter.mp hKept with ⟨hIn', hBelow⟩
  have hMore := of_decide_eq_true hAbove
  have hLess := of_decide_eq_true hBelow
  by_contra hNot
  have hLe :=
    share_le_share h.budget_nonneg h.total_pos
      (h.weight_nonneg a hIn) (not_lt.mp hNot)
  exact hLess (lt_of_lt_of_le hMore hLe)

end

variable (weight cap budget members) in
theorem length_cut_add_length_kept :
    (cut weight cap budget members).length +
        (kept weight cap budget members).length =
      members.length := by
  unfold cut kept
  have hSplit :=
    List.length_eq_length_filter_add (l := members)
      (fun a =>
        decide
          (IsOver weight cap budget (total weight members) a))
  simp only [decide_not]
  exact hSplit.symm

/- Those above the cap have more than the cap each. -/
theorem mul_length_cut_le_sum :
    (cap + 1) * (cut weight cap budget members).length ≤
      ((cut weight cap budget members).map
        (share weight budget (total weight members))).sum := by
  have hAll :
      ∀ a ∈ cut weight cap budget members,
        cap + 1 ≤
          share weight budget (total weight members) a := by
    intro a hCut
    have hAbove := (List.mem_filter.mp hCut).2
    exact of_decide_eq_true hAbove
  have hSum :=
    List.card_nsmul_le_sum
      ((cut weight cap budget members).map
        (share weight budget (total weight members))) (cap + 1)
      (by
        intro x hx
        rcases List.mem_map.mp hx with ⟨a, hIn, hEq⟩
        rw [← hEq]
        exact hAll a hIn)
  rw [List.length_map, nsmul_eq_mul, mul_comm] at hSum
  exact hSum

section

variable (h : Spendable weight cap budget members)
include h

theorem Spendable.mul_length_cut_le :
    (cap + 1) * (cut weight cap budget members).length ≤
      budget := by
  have hCut :
      ((cut weight cap budget members).map
          (share weight budget (total weight members))).sum ≤
        (members.map
          (share weight budget (total weight members))).sum := by
    apply List.Sublist.sum_le_sum
    · exact List.Sublist.map _ List.filter_sublist
    · intro x hx
      rcases List.mem_map.mp hx with ⟨a, hIn, hEq⟩
      rw [← hEq]
      exact
        share_nonneg h.budget_nonneg h.total_pos
          (h.weight_nonneg a hIn)
  have hAll :=
    sum_share_le h.budget_nonneg h.total_pos h.weight_nonneg
  exact (mul_length_cut_le_sum.trans hCut).trans hAll

/- A cut never takes the last member. -/
theorem Spendable.kept_ne_nil :
    kept weight cap budget members ≠ [] := by
  intro hNone
  have hLength :=
    length_cut_add_length_kept weight cap budget members
  rw [hNone, List.length_nil, Nat.add_zero] at hLength
  have hMul := h.mul_length_cut_le
  rw [hLength, add_mul, one_mul] at hMul
  have hPos := List.length_pos_iff.mpr h.some_member
  have hLe := h.budget_le
  omega

/-
  Paying the cap to those above it leaves a budget that the
  others can take.
-/
theorem Spendable.after_cut :
    Spendable weight cap
      (budget -
        cap * (cut weight cap budget members).length)
      (kept weight cap budget members) := by
  have hLength :=
    length_cut_add_length_kept weight cap budget members
  have hMul := h.mul_length_cut_le
  rw [add_mul, one_mul] at hMul
  constructor
  · exact h.cap_nonneg
  · omega
  · have hLe := h.budget_le
    rw [← hLength] at hLe
    push_cast at hLe
    rw [mul_add] at hLe
    omega
  · exact h.kept_ne_nil
  · intro a hIn
    exact h.weight_pos a (List.mem_filter.mp hIn).1

end

/- Members above the cap weigh more than the cap pays for. -/
theorem mul_length_le_of_over
    {paid : List α}
    {whole : Int}
    (hBudget : 0 ≤ budget)
    (hWhole : 0 < whole)
    (hWeights : ∀ a ∈ paid, 0 ≤ weight a)
    (hOver : ∀ a ∈ paid, IsOver weight cap budget whole a) :
    cap * paid.length * whole ≤ budget * total weight paid := by
  unfold total
  induction paid with
  | nil => simp
  | cons a rest ih =>
      have hHead : cap * whole ≤ budget * weight a := by
        have hAbove : cap ≤ share weight budget whole a :=
          (hOver a List.mem_cons_self).le
        exact
          (TruncDiv.le_tdiv_iff
            (mul_nonneg hBudget
              (hWeights a List.mem_cons_self)) hWhole).mp
            hAbove
      have hTail :=
        ih (fun b hb => hWeights b (List.mem_cons_of_mem a hb))
          (fun b hb => hOver b (List.mem_cons_of_mem a hb))
      rw [List.map_cons, List.sum_cons, List.length_cons]
      push_cast
      linarith

/-
  Paying the cap to members whose shares pass it raises the
  shares of all the others.
-/
theorem Spendable.share_le_after_paid
    (h : Spendable weight cap budget members)
    {paid rest : List α}
    (hSplit : (paid ++ rest).Perm members)
    (hOver :
      ∀ a ∈ paid,
        IsOver weight cap budget (total weight members) a)
    (hRest : 0 < total weight rest)
    {a : α}
    (hWeight : 0 ≤ weight a) :
    share weight budget (total weight members) a ≤
      share weight (budget - cap * paid.length)
        (total weight rest) a := by
  have hTotal :
      total weight members =
        total weight paid + total weight rest := by
    unfold total
    rw [← (hSplit.map weight).sum_eq, List.map_append,
      List.sum_append]
  have hPaid :
      cap * paid.length * total weight members ≤
        budget * total weight paid := by
    apply
      mul_length_le_of_over h.budget_nonneg h.total_pos _
        hOver
    intro b hb
    apply h.weight_nonneg b
    exact hSplit.subset (List.mem_append_left _ hb)
  have hLeft :
      budget * total weight rest ≤
        (budget - cap * paid.length) *
          total weight members := by
    rw [sub_mul]
    rw [hTotal] at hPaid ⊢
    linarith
  have hNonneg : 0 ≤ budget - cap * paid.length := by
    have hMul :
        0 ≤ (budget - cap * paid.length) *
          total weight members :=
      (mul_nonneg h.budget_nonneg hRest.le).trans hLeft
    exact nonneg_of_mul_nonneg_left hMul h.total_pos
  have hShare :
      share weight budget (total weight members) a *
          total weight members ≤
        budget * weight a :=
    TruncDiv.tdiv_mul_le
      (mul_nonneg h.budget_nonneg hWeight) h.total_pos
  unfold share at hShare ⊢
  rw [TruncDiv.le_tdiv_iff (mul_nonneg hNonneg hWeight) hRest]
  generalize
    (budget * weight a).tdiv (total weight members) = x at *
  apply le_of_mul_le_mul_right _ h.total_pos
  calc x * total weight rest * total weight members
      = x * total weight members * total weight rest := by
        ring
    _ ≤ budget * weight a * total weight rest :=
        mul_le_mul_of_nonneg_right hShare hRest.le
    _ = budget * total weight rest * weight a := by
        ring
    _ ≤ (budget - cap * paid.length) *
          total weight members * weight a :=
        mul_le_mul_of_nonneg_right hLeft hWeight
    _ = (budget - cap * paid.length) * weight a *
          total weight members := by
        ring

end

----
-- Leading Rows
----

variable {α β : Type}

/- Of an ordered list, what comes before a leading row leads. -/
theorem mem_take_of_pairwise
    {R : α → α → Prop}
    {xs : List α}
    {n : Nat}
    {a b : α}
    (hOrdered : xs.Pairwise R)
    (hb : b ∈ xs.take n)
    (ha : a ∈ xs)
    (hNot : ¬ R b a) :
    a ∈ xs.take n := by
  rw [← List.take_append_drop n xs] at hOrdered ha
  rcases List.mem_append.mp ha with hFirst | hRest
  · exact hFirst
  · have hBefore := List.pairwise_append.mp hOrdered
    exact absurd (hBefore.2.2 b hb a hRest) hNot

/- The leading rows are known by their distinct keys. -/
theorem filter_mem_take
    [DecidableEq β]
    {xs : List α}
    {key : α → β}
    (hNodup : (xs.map key).Nodup)
    (n : Nat) :
    xs.filter (fun x => key x ∈ (xs.take n).map key) =
      xs.take n := by
  have hSplit : xs = xs.take n ++ xs.drop n :=
    (List.take_append_drop n xs).symm
  have hKeys :
      ((xs.take n).map key ++ (xs.drop n).map key).Nodup := by
    rw [← List.map_append, ← hSplit]
    exact hNodup
  have hFirst :
      (xs.take n).filter
          (fun x => key x ∈ (xs.take n).map key) =
        xs.take n := by
    apply List.filter_eq_self.mpr
    exact fun x hx => decide_eq_true (List.mem_map_of_mem hx)
  have hRest :
      (xs.drop n).filter
          (fun x => key x ∈ (xs.take n).map key) = [] := by
    apply List.filter_eq_nil_iff.mpr
    intro x hx hIn
    exact
      (List.nodup_append.mp hKeys).2.2 (key x)
        (of_decide_eq_true hIn) (key x)
        (List.mem_map_of_mem hx) rfl
  calc xs.filter (fun x => key x ∈ (xs.take n).map key)
      = (xs.take n ++ xs.drop n).filter
          (fun x => key x ∈ (xs.take n).map key) := by
        rw [← hSplit]
    _ = xs.take n := by
        rw [List.filter_append, hFirst, hRest,
          List.append_nil]

end ProportionalShare
