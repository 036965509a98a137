import Mathlib.Tactic
import Callhouse.Lib.TruncDiv

/-
  Means that are kept as a truncated integer and expanded
  again at every batch: what they lose, and when that is
  nothing.

  Main declarations:
    * `RunningMean.run`, `RunningMean.mean`
    * `RunningMean.lost`
    * `RunningMean.Kept`
    * `RunningMean.run_eq_mean_iff`
    * `RunningMean.mean_eq_run_add`
-/

----
-- Running and True Means
----

namespace RunningMean

/- The sum and the number of the samples of one batch. -/
structure Batch where
  sum : Int
  count : Int

/- Unsigned samples: an empty batch sums to nothing. -/
structure Batch.Sound
    (b : Batch) : Prop where
  sum_nonneg : 0 ≤ b.sum
  count_nonneg : 0 ≤ b.count
  sum_eq_zero : b.count = 0 → b.sum = 0

/- The stored mean and the number of samples behind it. -/
structure Stored where
  mean : Int
  count : Int

def advance
    (s : Stored)
    (b : Batch) : Stored :=
  let count := s.count + b.count
  { mean :=
      if count = 0 then 0
      else (s.mean * s.count + b.sum).tdiv count
    count := count }

def run
    (batches : List Batch) : Stored :=
  batches.foldl advance { mean := 0, count := 0 }

def total
    (batches : List Batch) : Batch :=
  { sum := (batches.map (fun b => b.sum)).sum
    count := (batches.map (fun b => b.count)).sum }

/- The floored mean of all samples at once. -/
def mean
    (batches : List Batch) : Int :=
  (total batches).sum / (total batches).count

/- The samples' sum so far, their number, and what is lost. -/
structure Loss where
  sum : Int
  count : Int
  lost : Int

/-
  A batch loses the remainder of what is still there, by the
  samples it makes.
-/
def Loss.advance
    (l : Loss)
    (b : Batch) : Loss :=
  let sum := l.sum + b.sum
  let count := l.count + b.count
  { sum := sum
    count := count
    lost := l.lost + (sum - l.lost) % count }

def loss
    (batches : List Batch) : Loss :=
  batches.foldl Loss.advance
    { sum := 0, count := 0, lost := 0 }

def lost
    (batches : List Batch) : Int :=
  (loss batches).lost

/- Less than one a sample is lost. -/
def Kept
    (batches : List Batch) : Prop :=
  (total batches).count = 0 ∨
    lost batches < (total batches).count

instance
    (batches : List Batch) : Decidable (Kept batches) := by
  unfold Kept
  infer_instance

----
-- What Is Lost
----

variable (batches : List Batch)

theorem run_concat
    (b : Batch) :
    run (batches ++ [b]) = advance (run batches) b := by
  simp [run]

theorem loss_concat
    (b : Batch) :
    loss (batches ++ [b]) = (loss batches).advance b := by
  simp [loss]

theorem total_concat
    (b : Batch) :
    total (batches ++ [b]) =
      { sum := (total batches).sum + b.sum
        count := (total batches).count + b.count } := by
  simp [total]

/- Stored and lost parts together are the whole sum. -/
structure Balanced
    (batches : List Batch) : Prop where
  run_count : (run batches).count = (total batches).count
  loss_sum : (loss batches).sum = (total batches).sum
  loss_count : (loss batches).count = (total batches).count
  total_sound : (total batches).Sound
  mean_nonneg : 0 ≤ (run batches).mean
  mean_eq_zero :
    (total batches).count = 0 → (run batches).mean = 0
  lost_nonneg : 0 ≤ lost batches
  balance :
    (run batches).mean * (total batches).count +
        lost batches =
      (total batches).sum

theorem balanced_nil : Balanced [] := by
  constructor <;>
    simp [run, loss, total, lost]
  constructor <;> simp

theorem Balanced.concat
    {batches : List Batch}
    {b : Batch}
    (h : Balanced batches)
    (hBatch : b.Sound) :
    Balanced (batches ++ [b]) := by
  have hRun := h.run_count
  have hBalance := h.balance
  have hTotal := total_concat batches b
  have hSum := h.total_sound.sum_nonneg
  have hCount := h.total_sound.count_nonneg
  have hBatchSum := hBatch.sum_nonneg
  have hBatchCount := hBatch.count_nonneg
  have hSound : (total (batches ++ [b])).Sound := by
    rw [hTotal]
    constructor
    · exact add_nonneg hSum hBatchSum
    · exact add_nonneg hCount hBatchCount
    · intro hNone
      simp only at hNone ⊢
      have hOld : (total batches).count = 0 := by omega
      have hNew : b.count = 0 := by omega
      rw [h.total_sound.sum_eq_zero hOld,
        hBatch.sum_eq_zero hNew, add_zero]
  have hLost :
      lost (batches ++ [b]) =
        lost batches +
          ((total batches).sum + b.sum - lost batches) %
            ((total batches).count + b.count) := by
    unfold lost
    rw [loss_concat]
    simp only [Loss.advance]
    rw [h.loss_sum, h.loss_count]
  have hKept :
      (run batches).mean * (total batches).count + b.sum =
        (total batches).sum + b.sum - lost batches := by
    omega
  have hKeptNonneg :
      0 ≤ (total batches).sum + b.sum - lost batches := by
    rw [← hKept]
    exact add_nonneg (mul_nonneg h.mean_nonneg hCount)
      hBatchSum
  have hMean :
      (run (batches ++ [b])).mean =
        if (total batches).count + b.count = 0 then 0
        else
          ((total batches).sum + b.sum -
            lost batches).tdiv
              ((total batches).count + b.count) := by
    rw [run_concat]
    simp only [advance]
    rw [hRun, hKept]
  constructor
  · rw [run_concat, hTotal]
    simp only [advance]
    rw [hRun]
  · rw [loss_concat, hTotal]
    simp only [Loss.advance]
    rw [h.loss_sum]
  · rw [loss_concat, hTotal]
    simp only [Loss.advance]
    rw [h.loss_count]
  · exact hSound
  · rw [hMean]
    split
    · exact le_refl 0
    · next hSome =>
        exact TruncDiv.tdiv_nonneg hKeptNonneg (by omega)
  · intro hNone
    rw [hTotal] at hNone
    rw [hMean, if_pos hNone]
  · rw [hLost]
    have hOld := h.lost_nonneg
    rcases (add_nonneg hCount hBatchCount).lt_or_eq with
      hPos | hZero
    · have hRest :=
        Int.emod_nonneg
          ((total batches).sum + b.sum - lost batches)
          hPos.ne'
      exact add_nonneg hOld hRest
    · rw [← hZero, Int.emod_zero]
      exact add_nonneg hOld hKeptNonneg
  · rw [hMean, hLost, hTotal]
    simp only
    split
    · next hNone =>
        rw [hNone, Int.emod_zero]
        ring
    · rw [Int.tdiv_eq_ediv_of_nonneg hKeptNonneg]
      have hSplit :=
        Int.mul_ediv_add_emod
          ((total batches).sum + b.sum - lost batches)
          ((total batches).count + b.count)
      linarith

section

variable (hBatches : ∀ b ∈ batches, b.Sound)
include hBatches

theorem balanced :
    Balanced batches := by
  induction batches using List.reverseRecOn with
  | nil => exact balanced_nil
  | append_singleton batches b ih =>
      apply Balanced.concat
      · apply ih
        intro b' hb'
        exact hBatches b' (List.mem_append_left _ hb')
      · exact hBatches b (by simp)

/- The true mean is ahead by what is lost, a sample. -/
theorem mean_eq_run_add :
    mean batches =
      (run batches).mean +
        lost batches / (total batches).count := by
  have h := balanced batches hBatches
  unfold mean
  rw [← h.balance]
  rcases eq_or_ne (total batches).count 0 with hNone | hSome
  · rw [hNone, h.mean_eq_zero hNone]
    simp
  · rw [Int.mul_comm, Int.add_comm,
      Int.add_mul_ediv_left _ _ hSome, Int.add_comm]

/-
  The stored mean is the mean of all samples exactly when the
  remainders lost on the way add up to less than one a sample.
-/
theorem run_eq_mean_iff :
    (run batches).mean = mean batches ↔ Kept batches := by
  have h := balanced batches hBatches
  have hLost := h.lost_nonneg
  rw [mean_eq_run_add batches hBatches]
  unfold Kept
  rcases h.total_sound.count_nonneg.lt_or_eq with
    hPos | hZero
  · have hNonneg := Int.ediv_nonneg hLost hPos.le
    constructor
    · intro hEq
      right
      have hLess : lost batches / (total batches).count < 1 := by
        omega
      rw [Int.ediv_lt_iff_lt_mul hPos, one_mul] at hLess
      exact hLess
    · intro hKept
      have hLess : lost batches < (total batches).count := by
        omega
      rw [Int.ediv_eq_zero_of_lt hLost hLess, add_zero]
  · rw [← hZero]
    simp

end

end RunningMean
