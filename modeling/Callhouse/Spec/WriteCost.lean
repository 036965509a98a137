import Mathlib.Order.Bounds.Basic
import Callhouse.Lib.SearchMax
import Callhouse.Lib.TruncDiv

/-
  What one fill of a write-on-fill ask takes out of its
  writer's free collateral, and the largest fill a balance
  covers.

  The rent on the locked collateral is charged in millionths
  per seven days of remaining life and rounded up once a
  fill.

  Main declarations:
    * `WriteCost.rent`, `WriteCost.cost`
    * `WriteCost.IsCapacity`, `WriteCost.capacity`
    * `WriteCost.searchMax_isCapacity`
    * `WriteCost.searchMax_eq_min`
-/

----
-- Cost and Capacity
----

namespace Callhouse.WriteCost

def rentDenominator : Int := 1000000 * 604800

/- Rent on `collateral` for `remaining` seconds, rounded up. -/
def rent
    (collateral ppm remaining : Int) : Int :=
  ⌈((collateral * ppm * remaining : Int) : ℚ) /
    rentDenominator⌉

/- Collateral plus rent of one fill of `n` units. -/
def cost
    (cpu ppm remaining n : Int) : Int :=
  n * cpu + rent (n * cpu) ppm remaining

/- `k` is the largest single fill that `free` covers. -/
def IsCapacity
    (free cpu ppm remaining k : Int) : Prop :=
  IsGreatest {n | cost cpu ppm remaining n ≤ free} k

theorem rentDenominator_pos : 0 < rentDenominator := by
  decide

theorem rent_le_iff
    {collateral ppm remaining k : Int} :
    rent collateral ppm remaining ≤ k ↔
      collateral * ppm * remaining ≤
        k * rentDenominator :=
  TruncDiv.ceil_div_le_iff rentDenominator_pos

----
-- Monotonicity
----

section

variable {free cpu ppm remaining : Int}

theorem rent_nonneg
    {collateral : Int}
    (hCollateral : 0 ≤ collateral)
    (hPpm : 0 ≤ ppm)
    (hRemaining : 0 ≤ remaining) :
    0 ≤ rent collateral ppm remaining := by
  have hProduct : 0 ≤ collateral * ppm * remaining := by
    positivity
  have hDenominator := rentDenominator_pos
  apply Int.ceil_nonneg
  positivity

theorem rent_eq_zero_of_mul_eq_zero
    {collateral : Int}
    (h : collateral * ppm * remaining = 0) :
    rent collateral ppm remaining = 0 := by
  simp [rent, h]

theorem rent_mono
    {c c' : Int}
    (hPpm : 0 ≤ ppm)
    (hRemaining : 0 ≤ remaining)
    (h : c ≤ c') :
    rent c ppm remaining ≤ rent c' ppm remaining := by
  rw [rent_le_iff]
  have hProduct : c * ppm * remaining ≤ c' * ppm * remaining := by
    gcongr
  exact hProduct.trans (rent_le_iff.mp (le_refl _))

variable {n : Int}

theorem cost_mono
    (hCpu : 0 ≤ cpu)
    (hPpm : 0 ≤ ppm)
    (hRemaining : 0 ≤ remaining)
    {m : Int}
    (h : m ≤ n) :
    cost cpu ppm remaining m ≤ cost cpu ppm remaining n := by
  have hLocked : m * cpu ≤ n * cpu := by gcongr
  exact add_le_add hLocked
    (rent_mono hPpm hRemaining hLocked)

/- Less time left, less rent. -/
theorem cost_mono_remaining
    (hCpu : 0 ≤ cpu)
    (hPpm : 0 ≤ ppm)
    (hn : 0 ≤ n)
    {left : Int}
    (h : left ≤ remaining) :
    cost cpu ppm left n ≤ cost cpu ppm remaining n := by
  unfold cost
  apply Int.add_le_add_left
  rw [rent_le_iff]
  have hProduct :
      n * cpu * ppm * left ≤ n * cpu * ppm * remaining := by
    gcongr
  exact hProduct.trans (rent_le_iff.mp (le_refl _))

@[simp] theorem cost_zero :
    cost cpu ppm remaining 0 = 0 := by
  simp [cost, rent]

theorem mul_le_cost
    (hCpu : 0 ≤ cpu)
    (hPpm : 0 ≤ ppm)
    (hRemaining : 0 ≤ remaining)
    (hn : 0 ≤ n) :
    n * cpu ≤ cost cpu ppm remaining n := by
  have hRent := rent_nonneg (mul_nonneg hn hCpu) hPpm hRemaining
  unfold cost
  omega

end

----
-- Searching the Capacity
----

variable {free cpu ppm remaining : Int}

/- Whether a fill of `n` units is covered. -/
def covers
    (free cpu ppm remaining n : Int) : Bool :=
  cost cpu ppm remaining n ≤ free

theorem searchMax_covers_isGreatest
    (hFree : 0 ≤ free)
    (hCpu : 0 ≤ cpu)
    (hPpm : 0 ≤ ppm)
    (hRemaining : 0 ≤ remaining)
    {hi : Int}
    (hHi : 0 ≤ hi) :
    IsGreatest
      {n | n ≤ hi ∧ cost cpu ppm remaining n ≤ free}
      (searchMax (covers free cpu ppm remaining) 0 hi) := by
  have hDown :
      ∀ m n, m ≤ n →
        covers free cpu ppm remaining n = true →
        covers free cpu ppm remaining m = true := by
    intro m n h hn
    simp only [covers, decide_eq_true_eq] at hn ⊢
    exact (cost_mono hCpu hPpm hRemaining h).trans hn
  have hZero : covers free cpu ppm remaining 0 = true := by
    simpa [covers] using hFree
  simpa [covers] using
    SearchMax.searchMax_isGreatest _ hDown 0 hi hZero hHi

/-
  Nothing above `free / cpu` is covered, so that window
  already holds the capacity.
-/
theorem searchMax_isCapacity
    (hFree : 0 ≤ free)
    (hCpu : 0 < cpu)
    (hPpm : 0 ≤ ppm)
    (hRemaining : 0 ≤ remaining) :
    IsCapacity free cpu ppm remaining
      (searchMax (covers free cpu ppm remaining) 0
        (free.tdiv cpu)) := by
  have hHi := TruncDiv.tdiv_nonneg hFree hCpu
  have hGreatest :=
    searchMax_covers_isGreatest hFree hCpu.le hPpm
      hRemaining hHi
  refine ⟨hGreatest.1.2, ?_⟩
  intro n hn
  apply hGreatest.2
  refine ⟨?_, hn⟩
  rw [TruncDiv.le_tdiv_iff hFree hCpu]
  rcases le_or_gt 0 n with hNonneg | hNeg
  · exact (mul_le_cost hCpu.le hPpm hRemaining
      hNonneg).trans hn
  · nlinarith

/- The largest covered fill, computed. -/
def capacity
    (free cpu ppm remaining : Int) : Int :=
  searchMax (covers free cpu ppm remaining) 0
    (free.tdiv cpu)

theorem capacity_isCapacity
    (hFree : 0 ≤ free)
    (hCpu : 0 < cpu)
    (hPpm : 0 ≤ ppm)
    (hRemaining : 0 ≤ remaining) :
    IsCapacity free cpu ppm remaining
      (capacity free cpu ppm remaining) :=
  searchMax_isCapacity hFree hCpu hPpm hRemaining

variable {k : Int}

/- A window cut at `hi` finds the capacity cut at `hi`. -/
theorem searchMax_eq_min
    (hFree : 0 ≤ free)
    (hCpu : 0 ≤ cpu)
    (hPpm : 0 ≤ ppm)
    (hRemaining : 0 ≤ remaining)
    {hi : Int}
    (hHi : 0 ≤ hi)
    (hCapacity : IsCapacity free cpu ppm remaining k) :
    searchMax (covers free cpu ppm remaining) 0 hi =
      min hi k := by
  apply (searchMax_covers_isGreatest hFree hCpu hPpm
    hRemaining hHi).unique
  refine ⟨⟨min_le_left _ _, ?_⟩, ?_⟩
  · exact (cost_mono hCpu hPpm hRemaining
      (min_le_right _ _)).trans hCapacity.1
  · rintro n ⟨hn, hCost⟩
    exact le_min hn (hCapacity.2 hCost)

/- A balance covers exactly the fills up to its capacity. -/
theorem cost_le_iff_le_capacity
    (hCpu : 0 ≤ cpu)
    (hPpm : 0 ≤ ppm)
    (hRemaining : 0 ≤ remaining)
    {n : Int}
    (hCapacity : IsCapacity free cpu ppm remaining k) :
    cost cpu ppm remaining n ≤ free ↔ n ≤ k := by
  constructor
  · intro hCost
    exact hCapacity.2 hCost
  · intro hLe
    exact (cost_mono hCpu hPpm hRemaining hLe).trans
      hCapacity.1

theorem capacity_nonneg
    (hFree : 0 ≤ free)
    (hCapacity : IsCapacity free cpu ppm remaining k) :
    0 ≤ k := by
  apply hCapacity.2
  simpa using hFree

/- A capacity never locks more than the balance. -/
theorem capacity_le_tdiv
    (hFree : 0 ≤ free)
    (hCpu : 0 < cpu)
    (hPpm : 0 ≤ ppm)
    (hRemaining : 0 ≤ remaining)
    (hCapacity : IsCapacity free cpu ppm remaining k) :
    k ≤ free.tdiv cpu := by
  rw [TruncDiv.le_tdiv_iff hFree hCpu]
  have hNonneg := capacity_nonneg hFree hCapacity
  exact (mul_le_cost hCpu.le hPpm hRemaining hNonneg).trans
    hCapacity.1

end Callhouse.WriteCost
