import Mathlib.Data.List.Induction

/-
  The last entry of a history that a test picks out, with what
  came before it.

  Main declarations:
    * `LastWhere`
    * `LastWhere.concat_of_true`, `LastWhere.concat_of_false`
    * `LastWhere.exists_iff`
-/

/- Nothing that the test picks out comes after it. -/
def LastWhere
    {α : Type}
    (p : α → Bool)
    (history before : List α)
    (last : α) : Prop :=
  ∃ after, history = before ++ last :: after ∧ p last = true ∧
    ∀ later ∈ after, p later = false

namespace LastWhere

variable {α : Type} {p : α → Bool}
variable {history before before' : List α} {last last' entry : α}

theorem mem
    (h : LastWhere p history before last) :
    last ∈ history ∧ p last = true := by
  rcases h with ⟨after, rfl, hLast, _⟩
  exact ⟨by simp, hLast⟩

theorem concat_of_true
    (h : p entry = true) :
    LastWhere p (history ++ [entry]) before last ↔
      before = history ∧ last = entry := by
  constructor
  · rintro ⟨after, hSplit, _, hAfter⟩
    rcases List.eq_nil_or_concat after with rfl | ⟨rest, e, rfl⟩
    · have hParts := List.append_inj' hSplit rfl
      exact ⟨hParts.1.symm, (List.head_eq_of_cons_eq hParts.2).symm⟩
    · have hSplit' :
          history ++ [entry] = (before ++ last :: rest) ++ [e] := by
        simpa using hSplit
      have hEnd :=
        List.head_eq_of_cons_eq (List.append_inj' hSplit' rfl).2
      have hNot := hAfter e (by simp)
      rw [← hEnd, h] at hNot
      cases hNot
  · rintro ⟨rfl, rfl⟩
    refine ⟨[], rfl, h, ?_⟩
    intro later hIn
    cases hIn

theorem concat_of_false
    (h : p entry = false) :
    LastWhere p (history ++ [entry]) before last ↔
      LastWhere p history before last := by
  constructor
  · rintro ⟨after, hSplit, hLast, hAfter⟩
    rcases List.eq_nil_or_concat after with rfl | ⟨rest, e, rfl⟩
    · have hEnd :=
        List.head_eq_of_cons_eq (List.append_inj' hSplit rfl).2
      rw [hEnd, hLast] at h
      cases h
    · have hSplit' :
          history ++ [entry] = (before ++ last :: rest) ++ [e] := by
        simpa using hSplit
      exact
        ⟨rest, (List.append_inj' hSplit' rfl).1, hLast,
          fun later hIn => hAfter later (by simp [hIn])⟩
  · rintro ⟨after, rfl, hLast, hAfter⟩
    refine ⟨after ++ [entry], by simp, hLast, ?_⟩
    intro later hIn
    rcases List.mem_append.mp hIn with hIn | hIn
    · exact hAfter later hIn
    · rw [List.mem_singleton.mp hIn]
      exact h

theorem exists_iff :
    (∃ before last, LastWhere p history before last) ↔
      ∃ entry ∈ history, p entry = true := by
  induction history using List.reverseRecOn with
  | nil =>
      constructor
      · rintro ⟨before, last, h⟩
        cases h.mem.1
      · rintro ⟨_, hIn, _⟩
        cases hIn
  | append_singleton history entry ih =>
      cases hEntry : p entry with
      | true =>
          constructor
          · exact fun _ => ⟨entry, by simp, hEntry⟩
          · exact fun _ =>
              ⟨history, entry, (concat_of_true hEntry).mpr ⟨rfl, rfl⟩⟩
      | false =>
          simp only [concat_of_false hEntry, ih, List.mem_append,
            List.mem_singleton]
          constructor
          · rintro ⟨e, hIn, hTrue⟩
            exact ⟨e, .inl hIn, hTrue⟩
          · rintro ⟨e, hIn | rfl, hTrue⟩
            · exact ⟨e, hIn, hTrue⟩
            · rw [hEntry] at hTrue
              cases hTrue

end LastWhere
