import Mathlib.Tactic
import Mathlib.Algebra.BigOperators.Group.List.Basic

/-
  Loops that thread a state through a list and emit one
  output an element.

  Main declarations:
    * `Loop.run`, `Loop.stateAt`
    * `Loop.getElem?_run`
    * `Loop.invariant`, `Loop.invariant_stateAt`
    * `Loop.sum_zipWith_run`
    * `Loop.historySum`
-/

----
-- Running
----

namespace Loop

section

variable {σ α β : Type}

/- The outputs of a loop, and its final state. -/
def run
    (step : σ → α → β × σ)
    (st : σ) : List α → List β × σ
  | [] => ([], st)
  | x :: rest =>
      let stepped := step st x
      let tail := run step stepped.2 rest
      (stepped.1 :: tail.1, tail.2)

/- The state in which the loop meets its `i`-th element. -/
def stateAt
    (step : σ → α → β × σ)
    (st : σ)
    (xs : List α)
    (i : Nat) : σ :=
  (run step st (xs.take i)).2

variable (step : σ → α → β × σ)

@[simp] theorem run_nil
    (st : σ) :
    run step st [] = ([], st) := rfl

variable (st : σ)

theorem run_cons
    (x : α)
    (rest : List α) :
    run step st (x :: rest) =
      ((step st x).1 :: (run step (step st x).2 rest).1,
        (run step (step st x).2 rest).2) := rfl

@[simp] theorem length_run
    (xs : List α) :
    (run step st xs).1.length = xs.length := by
  induction xs generalizing st with
  | nil => rfl
  | cons x rest ih =>
      simp [run_cons, ih]

@[simp] theorem stateAt_zero
    (xs : List α) :
    stateAt step st xs 0 = st := by
  simp [stateAt]

theorem stateAt_cons_succ
    (x : α)
    (rest : List α)
    (i : Nat) :
    stateAt step st (x :: rest) (i + 1) =
      stateAt step (step st x).2 rest i := rfl

@[simp] theorem stateAt_length
    (xs : List α) :
    stateAt step st xs xs.length = (run step st xs).2 := by
  simp [stateAt]

/- Each output is the step at its own state. -/
theorem getElem?_run
    (xs : List α)
    (i : Nat) :
    (run step st xs).1[i]? =
      xs[i]?.map
        (fun x => (step (stateAt step st xs i) x).1) := by
  induction xs generalizing st i with
  | nil => simp
  | cons x rest ih =>
      cases i with
      | zero => simp [run_cons]
      | succ i =>
          simp only [run_cons, List.getElem?_cons_succ,
            stateAt_cons_succ]
          exact ih (step st x).2 i

theorem stateAt_succ
    {xs : List α}
    {i : Nat}
    {x : α}
    (hGet : xs[i]? = some x) :
    stateAt step st xs (i + 1) =
      (step (stateAt step st xs i) x).2 := by
  induction xs generalizing st i with
  | nil => simp at hGet
  | cons y rest ih =>
      rw [stateAt_cons_succ]
      cases i with
      | zero =>
          have hHead : y = x := by simpa using hGet
          subst hHead
          simp
      | succ i =>
          rw [List.getElem?_cons_succ] at hGet
          exact ih (step st y).2 hGet

end

----
-- Invariants and Accounting
----

section

variable {σ α β : Type} (step : σ → α → β × σ)

/- What every step preserves holds at the end. -/
theorem invariant
    (Inv : σ → Prop)
    (st : σ)
    (xs : List α)
    (hStart : Inv st)
    (hStep : ∀ st, ∀ x ∈ xs, Inv st → Inv (step st x).2) :
    Inv (run step st xs).2 := by
  induction xs generalizing st with
  | nil => exact hStart
  | cons x rest ih =>
      rw [run_cons]
      apply ih
      · exact hStep st x (List.mem_cons_self ..) hStart
      · intro st' y hy
        exact hStep st' y (List.mem_cons_of_mem _ hy)

theorem invariant_stateAt
    (Inv : σ → Prop)
    (st : σ)
    (xs : List α)
    (hStart : Inv st)
    (hStep : ∀ st, ∀ x ∈ xs, Inv st → Inv (step st x).2)
    (i : Nat) :
    Inv (stateAt step st xs i) := by
  apply invariant step Inv st _ hStart
  intro st' x hx
  exact hStep st' x (List.mem_of_mem_take hx)

/-
  Where every step's cost is what it takes off a budget, the
  costs add up to what the loop takes off it.
-/
theorem sum_zipWith_run
    {M : Type}
    [AddCommGroup M]
    (Inv : σ → Prop)
    (cost : α → β → M)
    (budget : σ → M)
    (st : σ)
    (xs : List α)
    (hStart : Inv st)
    (hStep : ∀ st, ∀ x ∈ xs, Inv st → Inv (step st x).2)
    (hCost :
      ∀ st, ∀ x ∈ xs, Inv st →
        cost x (step st x).1 =
          budget st - budget (step st x).2) :
    (List.zipWith cost xs (run step st xs).1).sum =
      budget st - budget (run step st xs).2 := by
  induction xs generalizing st with
  | nil => simp
  | cons x rest ih =>
      have hMem : x ∈ x :: rest := List.mem_cons_self ..
      have hTail :=
        ih (step st x).2 (hStep st x hMem hStart)
          (fun st' y hy =>
            hStep st' y (List.mem_cons_of_mem _ hy))
          (fun st' y hy =>
            hCost st' y (List.mem_cons_of_mem _ hy))
      rw [run_cons, List.zipWith_cons_cons, List.sum_cons,
        hTail, hCost st x hMem hStart]
      abel

end

----
-- Sums Over a History
----

variable {α M : Type} [AddCommMonoid M]

/- What each element adds, given everything before it. -/
def historySum
    (share : List α → α → M)
    (past : List α) : List α → M
  | [] => 0
  | x :: rest =>
      share past x + historySum share (past ++ [x]) rest

theorem historySum_concat
    (share : List α → α → M)
    (past xs : List α)
    (x : α) :
    historySum share past (xs ++ [x]) =
      historySum share past xs + share (past ++ xs) x := by
  induction xs generalizing past with
  | nil => simp [historySum]
  | cons y rest ih =>
      simp only [List.cons_append, historySum, ih,
        List.append_assoc, List.nil_append, add_assoc]

end Loop
