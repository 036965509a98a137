import Mathlib.Data.List.Rotate
import Mathlib.Tactic

/-
  A fixed list served in turns: each turn takes a window of
  it from an offset on, around its end, and the offset moves
  on by what the window took.

  Main declarations:
    * `RoundRobin.window`
    * `RoundRobin.Ahead`, `RoundRobin.exists_ahead`
    * `RoundRobin.served_or_nearer`
    * `RoundRobin.eq_of_same_order`
-/

----
-- Windows
----

namespace RoundRobin

section

variable {α : Type}

def window
    (entries : List α)
    (offset room : Nat) : List α :=
  (entries.rotate (offset % entries.length)).take
    (min room entries.length)

/- The entry the given number of places after the offset. -/
def Ahead
    (entries : List α)
    (offset d : Nat)
    (x : α) : Prop :=
  (entries.rotate offset)[d]? = some x

theorem length_window
    (entries : List α)
    (offset room : Nat) :
    (window entries offset room).length =
      min room entries.length := by
  unfold window
  rw [List.length_take, List.length_rotate]
  omega

variable {entries : List α} {x : α}

theorem exists_ahead
    (h : x ∈ entries)
    (offset : Nat) :
    ∃ d < entries.length, Ahead entries offset d x := by
  have hRotated : x ∈ entries.rotate offset :=
    List.mem_rotate.mpr h
  rcases List.mem_iff_getElem.mp hRotated with ⟨d, hd, hx⟩
  refine ⟨d, ?_, ?_⟩
  · rwa [List.length_rotate] at hd
  · exact List.getElem?_eq_some_iff.mpr ⟨hd, hx⟩

/- Moving on by fewer places than an entry is away. -/
theorem Ahead.nearer
    {offset d : Nat}
    (h : Ahead entries offset d x)
    {m : Nat}
    (hm : m ≤ d) :
    Ahead entries (offset + m) (d - m) x := by
  unfold Ahead at *
  have hd : d < entries.length := by
    rcases List.getElem?_eq_some_iff.mp h with ⟨hd, _⟩
    rwa [List.length_rotate] at hd
  have hIn : d < (entries.rotate offset).length := by
    rwa [List.length_rotate]
  rw [← List.rotate_rotate, List.getElem?_rotate (by omega),
    Nat.sub_add_cancel hm, Nat.mod_eq_of_lt hIn]
  exact h

/- A window serves an entry, or comes nearer by its length. -/
theorem served_or_nearer
    {offset d : Nat}
    (h : Ahead entries offset d x)
    (room : Nat) :
    x ∈ window entries offset room ∨
      (min room entries.length ≤ d ∧
        Ahead entries (offset + min room entries.length)
          (d - min room entries.length) x) := by
  rcases Nat.lt_or_ge d (min room entries.length) with
    hServed | hBeyond
  · left
    unfold window
    rw [List.rotate_mod]
    apply List.mem_of_getElem?
    rw [List.getElem?_take_of_lt hServed]
    exact h
  · exact .inr ⟨hBeyond, h.nearer hBeyond⟩

end

----
-- Lists of One Order
----

variable {α : Type} {l : List α}

/- Two entries listed in both orders: one is listed twice. -/
theorem not_both_orders
    (hNodup : l.Nodup)
    {a b : α}
    (hab : [a, b].Sublist l)
    (hba : [b, a].Sublist l) :
    False := by
  induction l with
  | nil => cases hab
  | cons x rest ih =>
      have hx : x ∉ rest := (List.nodup_cons.mp hNodup).1
      have hRest := (List.nodup_cons.mp hNodup).2
      cases hab with
      | cons _ hab =>
          cases hba with
          | cons _ hba => exact ih hRest hab hba
          | cons_cons _ _ =>
              exact hx (hab.subset (by simp))
      | cons_cons _ hb =>
          cases hba with
          | cons _ hba => exact hx (hba.subset (by simp))
          | cons_cons _ _ => exact hx (hb.subset (by simp))

theorem one_order
    {a b : α}
    (ha : a ∈ l)
    (hb : b ∈ l)
    (hNe : a ≠ b) :
    [a, b].Sublist l ∨ [b, a].Sublist l := by
  induction l with
  | nil => cases ha
  | cons x rest ih =>
      rcases List.mem_cons.mp ha with rfl | haRest
      · rcases List.mem_cons.mp hb with rfl | hbRest
        · exact absurd rfl hNe
        · exact
            .inl
              ((List.singleton_sublist.mpr hbRest).cons_cons _)
      · rcases List.mem_cons.mp hb with rfl | hbRest
        · exact
            .inr
              ((List.singleton_sublist.mpr haRest).cons_cons _)
        · rcases ih haRest hbRest with h | h
          · exact .inl (h.cons _)
          · exact .inr (h.cons _)

theorem pairwise_of_pairs
    {R : α → α → Prop}
    (h : ∀ a b, [a, b].Sublist l → R a b) :
    l.Pairwise R := by
  apply List.pairwise_iff_forall_sublist.mpr
  intro a b hab
  exact h a b hab

/-
  Lists without repeats that hold the same entries, are both
  sorted by a key, and list the entries of one key in the
  same order, are one list.
-/
theorem eq_of_same_order
    {κ : Type}
    [LinearOrder κ]
    (key : α → κ)
    {l₁ l₂ : List α}
    (hNodup₁ : l₁.Nodup)
    (hNodup₂ : l₂.Nodup)
    (hSorted₁ : l₁.Pairwise (fun a b => key a ≤ key b))
    (hSorted₂ : l₂.Pairwise (fun a b => key a ≤ key b))
    (hSame : ∀ x, x ∈ l₁ ↔ x ∈ l₂)
    (hTies :
      ∀ a b, key a = key b →
        [a, b].Sublist l₂ → [a, b].Sublist l₁) :
    l₁ = l₂ := by
  have hPerm : l₁.Perm l₂ :=
    (List.perm_ext_iff_of_nodup hNodup₁ hNodup₂).mpr hSame
  have hOrder : l₂.Pairwise (fun a b => [a, b].Sublist l₁) := by
    apply pairwise_of_pairs
    intro a b hab
    have hLe := List.pairwise_iff_forall_sublist.mp hSorted₂ hab
    by_cases hTie : key a = key b
    · exact hTies a b hTie hab
    · have ha := (hSame a).mpr (hab.subset (by simp))
      have hb := (hSame b).mpr (hab.subset (by simp))
      rcases one_order ha hb (fun h => hTie (h ▸ rfl)) with
        h | h
      · exact h
      · have hGe := List.pairwise_iff_forall_sublist.mp hSorted₁ h
        exact absurd (le_antisymm hLe hGe) hTie
  apply List.Perm.eq_of_pairwise _ _ hOrder hPerm
  · intro a b _ _ hab hba
    exact (not_both_orders hNodup₁ hab hba).elim
  · exact pairwise_of_pairs (fun _ _ h => h)

end RoundRobin
