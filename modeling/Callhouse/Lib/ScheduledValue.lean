import Mathlib.Tactic

/-
  A value changed by scheduled changes, each with its own due
  time: the lazily promoted pair of a current and a pending
  value, against the changes that were never replaced.

  Main declarations:
    * `ScheduledValue.State.run`, `ScheduledValue.State.valueAt`
    * `ScheduledValue.standing`, `ScheduledValue.inForce`
    * `ScheduledValue.standing_concat`
    * `ScheduledValue.valueAt_run`
-/

----
-- States and Changes
----

namespace ScheduledValue

section

structure Change
    (V : Type) where
  value : V
  effective : Int
  scheduled : Int

/- A pending value comes with the time it is due. -/
structure State
    (V : Type) where
  active : V
  pending : Option (V × Int)

variable {V : Type}

def State.start
    (initial : V) : State V :=
  { active := initial
    pending := none }

def State.valueAt
    (s : State V)
    (t : Int) : V :=
  match s.pending with
  | some (value, effective) =>
      if effective ≤ t then value else s.active
  | none => s.active

/- What is due is kept; what is not is replaced. -/
def State.schedule
    (s : State V)
    (c : Change V) : State V :=
  { active := s.valueAt c.scheduled
    pending := some (c.value, c.effective) }

def State.run
    (initial : V)
    (changes : List (Change V)) : State V :=
  changes.foldl State.schedule (.start initial)

def Ordered
    (changes : List (Change V)) : Prop :=
  changes.Pairwise (fun c d => c.scheduled ≤ d.scheduled)

/- Due before any later change was scheduled. -/
def Stands
    (c : Change V)
    (later : List (Change V)) : Prop :=
  ∀ d ∈ later, c.effective ≤ d.scheduled

instance
    (c : Change V)
    (later : List (Change V)) :
    Decidable (Stands c later) :=
  inferInstanceAs (Decidable (∀ d ∈ later, _))

/- The changes no later change replaced. -/
def standing : List (Change V) → List (Change V)
  | [] => []
  | c :: later =>
      if Stands c later then c :: standing later
      else standing later

/- The last standing change due by `t`, or the initial value. -/
def inForce
    (initial : V)
    (changes : List (Change V))
    (t : Int) : V :=
  (((standing changes).filter
    (fun c => decide (c.effective ≤ t))).map
      (fun c => c.value)).getLastD initial

end

----
-- The Pair Is the Value in Force
----

variable {V : Type}

theorem stands_concat
    {c d : Change V}
    {later : List (Change V)} :
    Stands c (later ++ [d]) ↔
      Stands c later ∧ c.effective ≤ d.scheduled := by
  unfold Stands
  constructor
  · intro h
    exact
      ⟨fun e he => h e (List.mem_append_left _ he),
        h d (by simp)⟩
  · rintro ⟨hLater, hLast⟩ e he
    rcases List.mem_append.mp he with he | he
    · exact hLater e he
    · rw [List.mem_singleton.mp he]
      exact hLast

/- A new change replaces what is not due when it comes. -/
theorem standing_concat
    (changes : List (Change V))
    (d : Change V) :
    standing (changes ++ [d]) =
      (standing changes).filter
          (fun c => decide (c.effective ≤ d.scheduled)) ++
        [d] := by
  induction changes with
  | nil => simp [standing, Stands]
  | cons c later ih =>
      rw [List.cons_append]
      unfold standing
      simp only [stands_concat]
      by_cases hLater : Stands c later
      · by_cases hDue : c.effective ≤ d.scheduled
        · rw [if_pos ⟨hLater, hDue⟩, if_pos hLater, ih,
            List.filter_cons, if_pos (by simpa using hDue),
            List.cons_append]
        · rw [if_neg (fun h => hDue h.2), if_pos hLater, ih,
            List.filter_cons, if_neg (by simpa using hDue)]
      · rw [if_neg (fun h => hLater h.1), if_neg hLater, ih]

theorem inForce_concat
    (initial : V)
    (changes : List (Change V))
    {d : Change V}
    {t : Int}
    (hd : d.scheduled ≤ t) :
    inForce initial (changes ++ [d]) t =
      if d.effective ≤ t then d.value
      else inForce initial changes d.scheduled := by
  unfold inForce
  rw [standing_concat, List.filter_append]
  by_cases hDue : d.effective ≤ t
  · simp [hDue]
  · have hSame :
        ((standing changes).filter
            (fun c => decide (c.effective ≤ d.scheduled))).filter
            (fun c => decide (c.effective ≤ t)) =
          (standing changes).filter
            (fun c => decide (c.effective ≤ d.scheduled)) := by
      apply List.filter_eq_self.mpr
      intro c hc
      have hEarly := of_decide_eq_true (List.mem_filter.mp hc).2
      exact decide_eq_true (hEarly.trans hd)
    rw [hSame, if_neg hDue]
    simp [hDue]

theorem run_concat
    (initial : V)
    (changes : List (Change V))
    (d : Change V) :
    State.run initial (changes ++ [d]) =
      (State.run initial changes).schedule d := by
  unfold State.run
  rw [List.foldl_append, List.foldl_cons, List.foldl_nil]

/- At any time not before the last change. -/
theorem valueAt_run
    (initial : V)
    {changes : List (Change V)}
    (hOrder : Ordered changes)
    {t : Int}
    (ht : ∀ c ∈ changes, c.scheduled ≤ t) :
    (State.run initial changes).valueAt t =
      inForce initial changes t := by
  induction changes using List.reverseRecOn generalizing t with
  | nil => rfl
  | append_singleton rest d ih =>
      have hParts := List.pairwise_append.mp hOrder
      have hBefore : ∀ c ∈ rest, c.scheduled ≤ d.scheduled :=
        fun c hc => hParts.2.2 c hc d (List.mem_singleton_self d)
      have hd : d.scheduled ≤ t := ht d (by simp)
      rw [run_concat, inForce_concat initial rest hd,
        ← ih hParts.1 hBefore]
      rfl

end ScheduledValue
