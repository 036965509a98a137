import Mathlib.Tactic
import Mathlib.Order.Bounds.Basic

/-
  Binary search for the greatest accepted integer of a
  window, rounding the midpoint up, in the plain and in the
  failing form.

  Main declarations:
    * `searchMax` and `searchMax_isGreatest`
    * `searchMaxE` and `searchMaxE_eq_ok`
    * `searchMaxE_zero`
-/

----
-- Midpoints
----

namespace SearchMax

/- The upper midpoint, with truncating division. -/
def mid
    (lo hi : Int) : Int :=
  (lo + hi + 1).tdiv 2

theorem mid_bounds
    {lo hi : Int}
    (h : lo < hi) :
    lo < mid lo hi ∧ mid lo hi ≤ hi := by
  unfold mid
  rcases le_or_gt 0 (lo + hi + 1) with hNonneg | hNeg
  · rw [Int.tdiv_eq_ediv_of_nonneg hNonneg]
    omega
  · have hFlip :
        (lo + hi + 1).tdiv 2 = -((-(lo + hi + 1)) / 2) := by
      rw [← Int.tdiv_eq_ediv_of_nonneg (by omega),
        Int.neg_tdiv, neg_neg]
    rw [hFlip]
    omega

end SearchMax

----
-- Plain Search
----

open SearchMax in
/-
  The loop keeps an accepted `lo` and discards everything
  above `hi`; it stops when the window is one point.
-/
def searchMax
    (ok : Int → Bool)
    (lo hi : Int) : Int :=
  if lo < hi then
    if ok (mid lo hi) then searchMax ok (mid lo hi) hi
    else searchMax ok lo (mid lo hi - 1)
  else lo
termination_by (hi - lo).toNat
decreasing_by
  all_goals
    have hMid := @mid_bounds lo hi (by assumption)
    omega

namespace SearchMax

/-
  Where acceptance is inherited downwards, the search
  returns the greatest accepted integer up to `hi`.
-/
theorem searchMax_isGreatest
    (ok : Int → Bool)
    (hDown :
      ∀ m n, m ≤ n → ok n = true → ok m = true)
    (lo hi : Int)
    (hLo : ok lo = true)
    (hWindow : lo ≤ hi) :
    IsGreatest {n | n ≤ hi ∧ ok n = true}
      (searchMax ok lo hi) := by
  fun_induction searchMax ok lo hi with
  | case1 lo hi hLt hMid ih =>
      exact ih hMid (mid_bounds hLt).2
  | case2 lo hi hLt hMid ih =>
      have hBounds := mid_bounds hLt
      rcases ih hLo (by omega) with ⟨hMem, hUpper⟩
      refine ⟨⟨by have := hMem.1; omega, hMem.2⟩, ?_⟩
      rintro n ⟨hn, hOk⟩
      apply hUpper
      refine ⟨?_, hOk⟩
      by_contra hAbove
      exact hMid (hDown _ n (by omega) hOk)
  | case3 lo hi hLt =>
      have hEq : lo = hi := by omega
      subst hEq
      exact ⟨⟨le_refl _, hLo⟩, fun n hn => hn.1⟩

end SearchMax

----
-- Failing Search
----

open SearchMax in
/- The same loop over a test that may fail. -/
def searchMaxE
    {ε : Type}
    (ok : Int → Except ε Bool)
    (lo hi : Int) : Except ε Int :=
  if lo < hi then
    match ok (mid lo hi) with
    | .error e => .error e
    | .ok true => searchMaxE ok (mid lo hi) hi
    | .ok false => searchMaxE ok lo (mid lo hi - 1)
  else .ok lo
termination_by (hi - lo).toNat
decreasing_by
  all_goals
    have hMid := @mid_bounds lo hi (by assumption)
    omega

namespace SearchMax

variable {ε : Type}

/- A test that never fails inside the window searches plainly. -/
theorem searchMaxE_eq_ok
    (okE : Int → Except ε Bool)
    (ok : Int → Bool)
    (lo hi : Int)
    (hOk : ∀ n, lo < n → n ≤ hi → okE n = .ok (ok n)) :
    searchMaxE okE lo hi = .ok (searchMax ok lo hi) := by
  fun_induction searchMax ok lo hi with
  | case1 lo hi hLt hMid ih =>
      have hBounds := mid_bounds hLt
      have hTest := hOk _ hBounds.1 hBounds.2
      rw [searchMaxE, if_pos hLt, hTest, hMid]
      apply ih
      intro n hn hle
      exact hOk n (by omega) hle
  | case2 lo hi hLt hMid ih =>
      have hBounds := mid_bounds hLt
      have hTest := hOk _ hBounds.1 hBounds.2
      have hNo : ok (mid lo hi) = false := by
        simpa using hMid
      rw [searchMaxE, if_pos hLt, hTest, hNo]
      apply ih
      intro n hn hle
      exact hOk n hn (by omega)
  | case3 lo hi hLt =>
      rw [searchMaxE, if_neg hLt]

/- A window with an inside is not searched without a test. -/
theorem searchMaxE_test
    {okE : Int → Except ε Bool}
    {lo hi k : Int}
    (h : searchMaxE okE lo hi = .ok k)
    (hLt : lo < hi) :
    ∃ n b, lo < n ∧ n ≤ hi ∧ okE n = .ok b := by
  have hBounds := mid_bounds hLt
  rw [searchMaxE, if_pos hLt] at h
  cases hTest : okE (mid lo hi) with
  | error e =>
      rw [hTest] at h
      cases h
  | ok b => exact ⟨_, b, hBounds.1, hBounds.2, hTest⟩

/- The search only asks about the inside of its window. -/
theorem searchMax_congr
    (ok ok' : Int → Bool)
    (lo hi : Int)
    (hOk : ∀ n, lo < n → n ≤ hi → ok n = ok' n) :
    searchMax ok lo hi = searchMax ok' lo hi := by
  let okE : Int → Except Unit Bool := fun n => .ok (ok n)
  have hLeft := searchMaxE_eq_ok okE ok lo hi
    (fun _ _ _ => rfl)
  have hRight := searchMaxE_eq_ok okE ok' lo hi
    (fun n hn hle => congrArg Except.ok (hOk n hn hle))
  exact Except.ok.inj (hLeft.symm.trans hRight)

open Classical in
/-
  From zero on, over a test that decides `fits`: the greatest
  number that fits, or zero where none does.
-/
theorem searchMaxE_zero
    (okE : Int → Except ε Bool)
    (fits : Int → Prop)
    {top : Int}
    (hTop : 0 ≤ top)
    (hOk :
      ∀ n, 0 < n → n ≤ top →
        ∃ b, okE n = .ok b ∧ (b = true ↔ fits n))
    (hDown :
      ∀ m n, 0 < m → m ≤ n → n ≤ top → fits n → fits m) :
    ∃ best,
      searchMaxE okE 0 top = .ok best ∧
        0 ≤ best ∧ best ≤ top ∧ (0 < best → fits best) ∧
        ∀ n, 0 < n → n ≤ top → fits n → n ≤ best := by
  let ok : Int → Bool := fun n =>
    decide (n ≤ 0 ∨ (n ≤ top ∧ fits n))
  have hFits : ∀ n, 0 < n → n ≤ top → (ok n = true ↔ fits n) := by
    intro n hn hle
    simp [ok, not_le.mpr hn, hle]
  have hZero : ok 0 = true := decide_eq_true (.inl (le_refl 0))
  have hInherit : ∀ m n, m ≤ n → ok n = true → ok m = true := by
    intro m n hmn hn
    rcases le_or_gt m 0 with hNone | hPos
    · exact decide_eq_true (.inl hNone)
    · rcases of_decide_eq_true hn with hNeg | ⟨hle, hFit⟩
      · omega
      · exact
          decide_eq_true
            (.inr
              ⟨hmn.trans hle, hDown m n hPos hmn hle hFit⟩)
  rcases searchMax_isGreatest ok hInherit 0 top hZero hTop with
    ⟨⟨hLe, hBest⟩, hUpper⟩
  refine
    ⟨searchMax ok 0 top, ?_, hUpper ⟨hTop, hZero⟩, hLe, ?_, ?_⟩
  · apply searchMaxE_eq_ok
    intro n hn hle
    rcases hOk n hn hle with ⟨b, hTest, hIff⟩
    rw [hTest]
    exact
      congrArg Except.ok
        (Bool.eq_iff_iff.mpr (hIff.trans (hFits n hn hle).symm))
  · intro hPos
    exact (hFits _ hPos hLe).mp hBest
  · intro n hn hle hFit
    exact hUpper ⟨hle, (hFits n hn hle).mpr hFit⟩

end SearchMax
