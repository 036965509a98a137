import Mathlib.Tactic
import Mathlib.Order.Bounds.Basic

/-
  Search for the least accepted integer: double the upper
  bound until it is accepted, then halve the window, rounding
  the midpoint down.  In the plain and in the failing form.

  Main declarations:
    * `EndsWith`
    * `doubleUntilE`, `doubleUntilE_spec`
    * `searchMin`, `searchMin_isLeast`
    * `searchMinE_eq_ok`
-/

----
-- Doubling
----

/- Given enough fuel, the run returns `r`. -/
def EndsWith
    {α : Type}
    (run : Nat → Option α)
    (r : α) : Prop :=
  ∃ enough, ∀ fuel, enough ≤ fuel → run fuel = some r

theorem EndsWith.unique
    {α : Type}
    {run : Nat → Option α}
    {r r' : α}
    (h : EndsWith run r)
    (h' : EndsWith run r') :
    r = r' := by
  rcases h with ⟨n, hn⟩
  rcases h' with ⟨m, hm⟩
  have hBoth :=
    (hn (max n m) (le_max_left n m)).symm.trans
      (hm (max n m) (le_max_right n m))
  exact Option.some.inj hBoth

/- `none`: not accepted within `fuel` tests. -/
def doubleUntilE
    {ε : Type}
    (ok : Int → Except ε Bool) :
    Nat → Int → Option (Except ε Int)
  | 0, _ => none
  | fuel + 1, high =>
      match ok high with
      | .error e => some (.error e)
      | .ok true => some (.ok high)
      | .ok false => doubleUntilE ok fuel (high * 2)

namespace SearchMin

/-
  From a positive start, a test that accepts everything from
  `bound` on is met within `bound` doublings.
-/
theorem doubleUntilE_spec
    {ε : Type}
    {okE : Int → Except ε Bool}
    {ok : Int → Bool}
    {bound : Int}
    (hOk : ∀ n, 0 < n → okE n = .ok (ok n))
    (hBound : ∀ n, bound ≤ n → ok n = true)
    {fuel : Nat}
    {high : Int}
    (hHigh : 0 < high)
    (hFuel : bound ≤ high + fuel) :
    ∃ top,
      doubleUntilE okE (fuel + 1) high = some (.ok top) ∧
        high ≤ top ∧ ok top = true := by
  induction fuel generalizing high with
  | zero =>
      have hTest := hBound high (by simpa using hFuel)
      rw [doubleUntilE, hOk high hHigh, hTest]
      exact ⟨high, rfl, le_refl _, hTest⟩
  | succ fuel ih =>
      rw [doubleUntilE, hOk high hHigh]
      cases hTest : ok high with
      | true => exact ⟨high, rfl, le_refl _, hTest⟩
      | false =>
          have hMore : bound ≤ high * 2 + fuel := by
            push_cast at hFuel
            omega
          rcases ih (by omega) hMore with
            ⟨top, hTop, hLe, hAccepted⟩
          exact ⟨top, hTop, by omega, hAccepted⟩

----
-- Halving the Window
----

/- The lower midpoint. -/
def mid
    (lo hi : Int) : Int :=
  (lo + hi) / 2

theorem mid_bounds
    {lo hi : Int}
    (h : lo < hi) :
    lo ≤ mid lo hi ∧ mid lo hi < hi := by
  unfold mid
  omega

end SearchMin

open SearchMin in
/- The loop keeps an accepted `hi`, and rejects below `lo`. -/
def searchMin
    (ok : Int → Bool)
    (lo hi : Int) : Int :=
  if lo < hi then
    if ok (mid lo hi) then searchMin ok lo (mid lo hi)
    else searchMin ok (mid lo hi + 1) hi
  else lo
termination_by (hi - lo).toNat
decreasing_by
  all_goals
    have hMid := @mid_bounds lo hi (by assumption)
    omega

open SearchMin in
/- The same loop over a test that may fail. -/
def searchMinE
    {ε : Type}
    (ok : Int → Except ε Bool)
    (lo hi : Int) : Except ε Int :=
  if lo < hi then
    match ok (mid lo hi) with
    | .error e => .error e
    | .ok true => searchMinE ok lo (mid lo hi)
    | .ok false => searchMinE ok (mid lo hi + 1) hi
  else .ok lo
termination_by (hi - lo).toNat
decreasing_by
  all_goals
    have hMid := @mid_bounds lo hi (by assumption)
    omega

namespace SearchMin

/-
  Where acceptance is inherited upwards, the search returns
  the least accepted integer from `lo` on.
-/
theorem searchMin_isLeast
    (ok : Int → Bool)
    (hUp : ∀ m n, m ≤ n → ok m = true → ok n = true)
    (lo hi : Int)
    (hHi : ok hi = true)
    (hWindow : lo ≤ hi) :
    IsLeast {n | lo ≤ n ∧ ok n = true}
      (searchMin ok lo hi) := by
  fun_induction searchMin ok lo hi with
  | case1 lo hi hLt hMid ih =>
      exact ih hMid (mid_bounds hLt).1
  | case2 lo hi hLt hMid ih =>
      have hBounds := mid_bounds hLt
      rcases ih hHi (by omega) with ⟨hMem, hLower⟩
      refine ⟨⟨by have := hMem.1; omega, hMem.2⟩, ?_⟩
      rintro n ⟨hn, hOk⟩
      apply hLower
      refine ⟨?_, hOk⟩
      by_contra hBelow
      exact hMid (hUp n _ (by omega) hOk)
  | case3 lo hi hLt =>
      have hEq : hi = lo := by omega
      subst hEq
      exact ⟨⟨le_refl _, hHi⟩, fun n hn => hn.1⟩

/- A test that never fails inside the window searches plainly. -/
theorem searchMinE_eq_ok
    {ε : Type}
    (okE : Int → Except ε Bool)
    (ok : Int → Bool)
    (lo hi : Int)
    (hOk : ∀ n, lo ≤ n → n < hi → okE n = .ok (ok n)) :
    searchMinE okE lo hi = .ok (searchMin ok lo hi) := by
  fun_induction searchMin ok lo hi with
  | case1 lo hi hLt hMid ih =>
      have hBounds := mid_bounds hLt
      have hTest := hOk _ hBounds.1 hBounds.2
      rw [searchMinE, if_pos hLt, hTest, hMid]
      apply ih
      intro n hn hlt
      exact hOk n hn (by omega)
  | case2 lo hi hLt hMid ih =>
      have hBounds := mid_bounds hLt
      have hTest := hOk _ hBounds.1 hBounds.2
      have hNo : ok (mid lo hi) = false := by
        simpa using hMid
      rw [searchMinE, if_pos hLt, hTest, hNo]
      apply ih
      intro n hn hlt
      exact hOk n (by omega) hlt
  | case3 lo hi hLt =>
      rw [searchMinE, if_neg hLt]

end SearchMin
