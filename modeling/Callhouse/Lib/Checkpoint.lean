import Mathlib.Tactic

/-
  Steps that read the last state saved before them: a step
  that is not saved still puts out what it puts out, and the
  next one reads the older state again.

  Main declarations:
    * `Checkpoint.last`, `Checkpoint.outputs`
    * `Checkpoint.last_append`, `Checkpoint.last_cases`
    * `Checkpoint.mem_outputs_iff`
    * `Checkpoint.split_cases`
-/

----
-- Saved States
----

namespace Checkpoint

variable {τ σ ν : Type}
variable (saved : τ → Option σ) (out : σ → τ → List ν)

/- The state that a step after these would read. -/
def last
    (start : σ)
    (steps : List τ) : σ :=
  steps.foldl (fun s t => (saved t).getD s) start

def outputs
    (start : σ) : List τ → List ν
  | [] => []
  | t :: rest =>
      out start t ++ outputs ((saved t).getD start) rest

variable {saved out}

theorem last_append
    (start : σ)
    (done steps : List τ) :
    last saved start (done ++ steps) =
      last saved (last saved start done) steps := by
  unfold last
  exact List.foldl_append

/- What was saved last, or the start where nothing was. -/
theorem last_cases
    (start : σ)
    (steps : List τ) :
    (∃ done t later s,
      steps = done ++ t :: later ∧ saved t = some s ∧
        last saved start steps = s) ∨
      (∀ t ∈ steps, saved t = none) ∧
        last saved start steps = start := by
  induction steps using List.reverseRecOn with
  | nil => exact .inr ⟨by simp, rfl⟩
  | append_singleton done t ih =>
      rw [last_append]
      cases hSaved : saved t with
      | some s =>
          refine .inl ⟨done, t, [], s, rfl, hSaved, ?_⟩
          simp [last, hSaved]
      | none =>
          have hSame :
              last saved (last saved start done) [t] =
                last saved start done := by
            simp [last, hSaved]
          rw [hSame]
          rcases ih with
            ⟨early, u, later, s, rfl, hu, hLast⟩ |
              ⟨hNone, hLast⟩
          · refine
              .inl ⟨early, u, later ++ [t], s, ?_, hu, hLast⟩
            simp
          · refine .inr ⟨?_, hLast⟩
            intro u hu
            rcases List.mem_append.mp hu with hEarly | hLate
            · exact hNone u hEarly
            · rw [List.mem_singleton.mp hLate]
              exact hSaved

/- Every output is one step's, at the state it reads. -/
theorem mem_outputs_iff
    (start : σ)
    (steps : List τ)
    (n : ν) :
    n ∈ outputs saved out start steps ↔
      ∃ done t later,
        steps = done ++ t :: later ∧
          n ∈ out (last saved start done) t := by
  induction steps generalizing start with
  | nil => simp [outputs]
  | cons t rest ih =>
      rw [outputs, List.mem_append, ih]
      constructor
      · rintro (hNow | ⟨done, u, later, rfl, hLater⟩)
        · exact ⟨[], t, rest, rfl, hNow⟩
        · exact ⟨t :: done, u, later, rfl, hLater⟩
      · rintro ⟨done, u, later, hSplit, hOut⟩
        cases done with
        | nil =>
            simp only [List.nil_append, List.cons.injEq] at hSplit
            rcases hSplit with ⟨rfl, rfl⟩
            exact .inl hOut
        | cons first done =>
            simp only [List.cons_append, List.cons.injEq]
              at hSplit
            rcases hSplit with ⟨rfl, rfl⟩
            exact .inr ⟨done, u, later, rfl, hOut⟩

theorem mem_of_split
    {steps done later : List τ}
    {t : τ}
    (h : steps = done ++ t :: later) :
    t ∈ steps := by
  rw [h]
  simp

/- Two steps of one run: the same, or one before the other. -/
theorem split_cases
    {done done' later later' : List τ}
    {t t' : τ}
    (h : done ++ t :: later = done' ++ t' :: later') :
    (done = done' ∧ t = t') ∨
      (∃ mid, done' = done ++ t :: mid ∧
        later = mid ++ t' :: later') ∨
      ∃ mid, done = done' ++ t' :: mid ∧
        later' = mid ++ t :: later := by
  rcases List.append_eq_append_iff.mp h with
    ⟨mid, hDone, hRest⟩ | ⟨mid, hDone, hRest⟩
  · cases mid with
    | nil =>
        rw [List.append_nil] at hDone
        exact .inl ⟨hDone.symm, (List.cons.inj hRest).1⟩
    | cons u mid =>
        rcases List.cons.inj hRest with ⟨rfl, hLater⟩
        exact .inr (.inl ⟨mid, hDone, hLater⟩)
  · cases mid with
    | nil =>
        rw [List.append_nil] at hDone
        exact .inl ⟨hDone, (List.cons.inj hRest).1.symm⟩
    | cons u mid =>
        rcases List.cons.inj hRest with ⟨rfl, hLater⟩
        exact .inr (.inr ⟨mid, hDone, hLater⟩)

end Checkpoint
