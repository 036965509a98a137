import Mathlib.Tactic

/-
  A value whose changes take effect a fixed delay after they
  are scheduled; a change scheduled while another is pending
  replaces it.

  In an interval shorter than the delay the value changes at
  most once: what is scheduled inside it takes effect after
  it, and cancels what was pending.

  Main declarations:
    * `DelayedChange.State`, `DelayedChange.valueAt`
    * `DelayedChange.valueAt_between`
    * `DelayedChange.valueAt_mem`
-/

----
-- States and Schedules
----

namespace DelayedChange

section

/- A pending value comes with the time it takes effect. -/
structure State
    (V : Type) where
  current : V
  pending : Option (V × Int)

structure Change
    (V : Type) where
  scheduled : Int
  value : V

variable {V : Type}

def State.valueAt
    (s : State V)
    (t : Int) : V :=
  match s.pending with
  | some (value, effective) =>
      if effective ≤ t then value else s.current
  | none => s.current

/- What has taken effect is settled; the rest is replaced. -/
def State.schedule
    (delay : Int)
    (s : State V)
    (c : Change V) : State V :=
  { current := s.valueAt c.scheduled
    pending := some (c.value, c.scheduled + delay) }

def State.run
    (delay : Int)
    (s : State V)
    (changes : List (Change V)) : State V :=
  changes.foldl (State.schedule delay) s

/- The changes scheduled by `t`. -/
def scheduledBy
    (t : Int)
    (changes : List (Change V)) : List (Change V) :=
  changes.filter (fun c => c.scheduled ≤ t)

/- The value in effect at `t`, under a whole schedule. -/
def valueAt
    (delay : Int)
    (initial : V)
    (changes : List (Change V))
    (t : Int) : V :=
  (State.run delay { current := initial, pending := none }
    (scheduledBy t changes)).valueAt t

def Ordered
    (changes : List (Change V)) : Prop :=
  changes.Pairwise (fun c d => c.scheduled ≤ d.scheduled)

end

----
-- One Change in a Short Interval
----

section

variable {V : Type} {s : State V}
variable {delay a t u n : Int} {changes : List (Change V)}

/- A state changes its value once. -/
theorem State.valueAt_between
    (s : State V)
    (hat : a ≤ t)
    (htn : t ≤ n) :
    s.valueAt t = s.valueAt a ∨ s.valueAt t = s.valueAt n := by
  unfold State.valueAt
  cases s.pending with
  | none => exact .inl rfl
  | some pending =>
      rcases pending with ⟨value, effective⟩
      simp only
      by_cases hEffective : effective ≤ t
      · right
        rw [if_pos hEffective, if_pos (hEffective.trans htn)]
      · left
        have hBefore : ¬ effective ≤ a :=
          fun h => hEffective (h.trans hat)
        rw [if_neg hEffective, if_neg hBefore]

/- What is pending takes effect after `n`. -/
def State.Late
    (s : State V)
    (n : Int) : Prop :=
  ∀ value effective,
    s.pending = some (value, effective) → n < effective

theorem State.Late.valueAt
    (hLate : s.Late n)
    (hun : u ≤ n) :
    s.valueAt u = s.current := by
  unfold State.valueAt
  cases hPending : s.pending with
  | none => rfl
  | some pending =>
      have hAfter := hLate pending.1 pending.2 hPending
      exact if_neg (by omega)

theorem State.schedule_late
    (s : State V)
    {c : Change V}
    (hLate : n < c.scheduled + delay) :
    (s.schedule delay c).Late n := by
  intro value effective hPending
  unfold State.schedule at hPending
  simp only [Option.some.injEq, Prod.mk.injEq] at hPending
  rw [← hPending.2]
  exact hLate

/- Late changes leave a late state's value alone. -/
theorem State.Late.run
    (hLate : s.Late n)
    (delay : Int)
    (changes : List (Change V))
    (hChanges :
      ∀ c ∈ changes,
        c.scheduled ≤ n ∧ n < c.scheduled + delay) :
    (s.run delay changes).Late n ∧
      (s.run delay changes).current = s.current := by
  induction changes generalizing s with
  | nil => exact ⟨hLate, rfl⟩
  | cons c changes ih =>
      have hFirst := hChanges c List.mem_cons_self
      have hRest :=
        ih (s.schedule_late hFirst.2)
          (fun d hd => hChanges d (List.mem_cons_of_mem _ hd))
      refine ⟨hRest.1, hRest.2.trans ?_⟩
      exact hLate.valueAt hFirst.1

theorem run_append
    (s : State V)
    (before after : List (Change V)) :
    s.run delay (before ++ after) =
      (s.run delay before).run delay after :=
  List.foldl_append

/- An ordered schedule splits at a time. -/
theorem scheduledBy_split
    (hOrdered : Ordered changes)
    (hau : a ≤ u) :
    scheduledBy u changes =
      scheduledBy a changes ++
        scheduledBy u
          (changes.filter (fun c => a < c.scheduled)) := by
  unfold scheduledBy
  induction changes with
  | nil => rfl
  | cons c changes ih =>
      unfold Ordered at hOrdered
      rw [List.pairwise_cons] at hOrdered
      by_cases hc : c.scheduled ≤ a
      · have hcu : c.scheduled ≤ u := hc.trans hau
        have hNot : ¬ a < c.scheduled := not_lt.mpr hc
        simp only [List.filter_cons, hc, hcu, hNot,
          decide_true, decide_false, if_true,
          Bool.false_eq_true, if_false]
        rw [ih hOrdered.2, List.cons_append]
      · have hEarly :
            (c :: changes).filter
              (fun d => decide (d.scheduled ≤ a)) = [] := by
          apply List.filter_eq_nil_iff.mpr
          intro d hd
          rw [decide_eq_true_eq]
          rcases List.mem_cons.mp hd with rfl | hRest
          · exact hc
          · have hLater := hOrdered.1 d hRest
            omega
        have hAll :
            (c :: changes).filter
                (fun d => decide (a < d.scheduled)) =
              c :: changes := by
          apply List.filter_eq_self.mpr
          intro d hd
          rw [decide_eq_true_eq]
          rcases List.mem_cons.mp hd with rfl | hRest
          · exact not_le.mp hc
          · have hLater := hOrdered.1 d hRest
            omega
        rw [hEarly, hAll, List.nil_append]

/-
  Less than a delay after `a`, the value is the one that the
  state of `a` has by then, or by the first later change.
-/
theorem valueAt_after
    (initial : V)
    (hOrdered : Ordered changes)
    (hau : a ≤ u)
    (hShort : u - a < delay) :
    valueAt delay initial changes u =
      (State.run delay { current := initial, pending := none }
        (scheduledBy a changes)).valueAt
          (match
            changes.filter (fun c => a < c.scheduled) with
          | [] => u
          | c :: _ => min u c.scheduled) := by
  unfold valueAt
  rw [scheduledBy_split hOrdered hau, run_append]
  generalize
    State.run delay { current := initial, pending := none }
      (scheduledBy a changes) = s
  have hLater :
      ∀ c ∈ changes.filter (fun c => a < c.scheduled),
        a < c.scheduled := by
    intro c hc
    simpa using (List.mem_filter.mp hc).2
  have hSorted :
      Ordered
        (changes.filter (fun c => a < c.scheduled)) :=
    hOrdered.filter _
  cases hRest :
      changes.filter (fun c => a < c.scheduled) with
  | nil => rfl
  | cons c rest =>
      rw [hRest] at hLater hSorted
      have hc := hLater c List.mem_cons_self
      unfold scheduledBy
      by_cases hcu : c.scheduled ≤ u
      · -- The first change settles; later ones are late.
        have hFirst : (s.schedule delay c).Late u :=
          s.schedule_late (by omega)
        have hRun :=
          hFirst.run delay
            (rest.filter
              (fun d => decide (d.scheduled ≤ u))) (by
            intro d hd
            rcases List.mem_filter.mp hd with ⟨hd, hdu⟩
            have hda := hLater d (List.mem_cons_of_mem _ hd)
            rw [decide_eq_true_eq] at hdu
            omega)
        simp only [List.filter_cons, hcu, decide_true,
          if_true, min_eq_right]
        exact (hRun.1.valueAt (le_refl u)).trans hRun.2
      · have hNone :
            (c :: rest).filter
              (fun d => decide (d.scheduled ≤ u)) = [] := by
          apply List.filter_eq_nil_iff.mpr
          intro d hd
          rw [decide_eq_true_eq]
          rcases List.mem_cons.mp hd with rfl | hIn
          · exact hcu
          · have hAfter := (List.pairwise_cons.mp hSorted).1 d hIn
            omega
        simp only [hNone, min_eq_left (not_le.mp hcu).le]
        rfl

/- In less than a delay, one of the ends' values is in effect. -/
theorem valueAt_between
    (initial : V)
    (hOrdered : Ordered changes)
    (hat : a ≤ t)
    (htn : t ≤ n)
    (hShort : n - a < delay) :
    valueAt delay initial changes t =
        valueAt delay initial changes a ∨
      valueAt delay initial changes t =
        valueAt delay initial changes n := by
  rw [valueAt_after initial hOrdered hat (by omega),
    valueAt_after initial hOrdered (hat.trans htn) hShort,
    valueAt_after initial hOrdered (le_refl a) (by omega)]
  cases changes.filter (fun c => a < c.scheduled) with
  | nil => exact State.valueAt_between _ hat htn
  | cons c rest =>
      apply State.valueAt_between
      · exact min_le_min_right _ hat
      · exact min_le_min_right _ htn

end

----
-- Whose Value It Is
----

variable {V : Type} {P : V → Prop}

/- Every value that a state can show has `P`. -/
def State.All
    (s : State V)
    (P : V → Prop) : Prop :=
  ∀ t, P (s.valueAt t)

theorem State.All.schedule
    {s : State V}
    (hs : s.All P)
    (delay : Int)
    {c : Change V}
    (hc : P c.value) :
    (s.schedule delay c).All P := by
  intro t
  unfold State.schedule
  rw [State.valueAt]
  simp only
  split
  · exact hc
  · exact hs c.scheduled

theorem State.All.run
    {s : State V}
    (hs : s.All P)
    (delay : Int)
    {changes : List (Change V)}
    (hChanges : ∀ c ∈ changes, P c.value) :
    (s.run delay changes).All P := by
  induction changes generalizing s with
  | nil => exact hs
  | cons c changes ih =>
      apply ih (hs.schedule delay
        (hChanges c List.mem_cons_self))
      exact fun d hd =>
        hChanges d (List.mem_cons_of_mem _ hd)

/- What holds of every scheduled value holds at every time. -/
theorem valueAt_mem
    {initial : V}
    (hInitial : P initial)
    {changes : List (Change V)}
    (hChanges : ∀ c ∈ changes, P c.value)
    (delay t : Int) :
    P (valueAt delay initial changes t) := by
  have hStart :
      (State.mk initial none).All P := fun _ => hInitial
  exact
    hStart.run delay
      (fun c hc =>
        hChanges c (List.mem_of_mem_filter hc)) t

end DelayedChange
