import Callhouse.Lib.BudgetWalk

/-
  How deep a walk over shared budgets fills: the sizes that
  it fills whole are closed downwards, what it pays at
  rising rates grows with the size, and no walk over a
  listing fills more than the listing shows.

  Main declarations:
    * `BudgetWalk.Market.Fillable`
    * `BudgetWalk.Fillable.of_le`
    * `BudgetWalk.valueIn_walk_le`
    * `BudgetWalk.unitsIn_walk_list_le`
-/

----
-- The Units of a Walk
----

namespace BudgetWalk

section

variable {ι κ : Type}

def unitsIn
    (ps : List (ι × Int)) : Int :=
  (ps.map Prod.snd).sum

/- What the fills are worth, at a rate for each offer. -/
def valueIn
    (rate : ι → Int)
    (ps : List (ι × Int)) : Int :=
  (ps.map (fun p => rate p.1 * p.2)).sum

@[simp] theorem unitsIn_nil :
    unitsIn ([] : List (ι × Int)) = 0 := rfl

@[simp] theorem unitsIn_cons
    (p : ι × Int)
    (ps : List (ι × Int)) :
    unitsIn (p :: ps) = p.2 + unitsIn ps := by
  simp [unitsIn]

@[simp] theorem valueIn_nil
    (rate : ι → Int) :
    valueIn rate ([] : List (ι × Int)) = 0 := rfl

@[simp] theorem valueIn_cons
    (rate : ι → Int)
    (p : ι × Int)
    (ps : List (ι × Int)) :
    valueIn rate (p :: ps) =
      rate p.1 * p.2 + valueIn rate ps := by
  simp [valueIn]

theorem valueIn_nonneg
    {rate : ι → Int}
    {ps : List (ι × Int)}
    (h : ∀ p ∈ ps, 0 ≤ rate p.1 ∧ 0 ≤ p.2) :
    0 ≤ valueIn rate ps := by
  apply List.sum_nonneg
  intro v hv
  rcases List.mem_map.mp hv with ⟨p, hp, rfl⟩
  exact mul_nonneg (h p hp).1 (h p hp).2

/- At a rate or more for every unit. -/
theorem mul_unitsIn_le
    {rate : ι → Int}
    {c : Int}
    {ps : List (ι × Int)}
    (h : ∀ p ∈ ps, c ≤ rate p.1 ∧ 0 ≤ p.2) :
    c * unitsIn ps ≤ valueIn rate ps := by
  induction ps with
  | nil => simp
  | cons p rest ih =>
      rcases h p (List.mem_cons_self ..) with ⟨hRate, hUnits⟩
      have hHead := mul_le_mul_of_nonneg_right hRate hUnits
      have hRest :=
        ih (fun q hq => h q (List.mem_cons_of_mem p hq))
      rw [unitsIn_cons, valueIn_cons, mul_add]
      omega

variable [DecidableEq κ] {m : Market ι κ}

theorem walk_of_fills
    {s : State κ}
    {x : ι}
    (h : m.fills s x = true)
    (rest : List ι) :
    m.walk s (x :: rest) =
      (x, m.take s x) :: m.walk (m.filled s x) rest := by
  rw [Market.walk, if_pos h]

theorem walk_of_not_fills
    {s : State κ}
    {x : ι}
    (h : m.fills s x = false)
    (rest : List ι) :
    m.walk s (x :: rest) = m.walk s rest := by
  rw [Market.walk, h, if_neg (by decide)]

/- A walk fills no more than is wanted. -/
theorem unitsIn_walk_le
    {s : State κ}
    (hWant : 0 ≤ s.want)
    (offers : List ι) :
    unitsIn (m.walk s offers) ≤ s.want := by
  induction offers generalizing s with
  | nil => exact hWant
  | cons x rest ih =>
      cases hFill : m.fills s x with
      | true =>
          have hNext := step_want (m := m) x hWant
          rw [step_of_fills hFill] at hNext
          have hRest := ih hNext
          rw [walk_of_fills hFill, unitsIn_cons]
          have hLess :
              (m.filled s x).want = s.want - m.take s x :=
            rfl
          omega
      | false =>
          rw [walk_of_not_fills hFill]
          exact ih hWant

/- Nor more than the offers hold. -/
theorem unitsIn_walk_le_sizes
    {offers : List ι}
    (hSize : ∀ x ∈ offers, 0 ≤ m.size x)
    (s : State κ) :
    unitsIn (m.walk s offers) ≤ (offers.map m.size).sum := by
  induction offers generalizing s with
  | nil => exact le_refl 0
  | cons x rest ih =>
      have hRest :=
        ih (fun y hy => hSize y (List.mem_cons_of_mem x hy))
      have hHead := hSize x (List.mem_cons_self ..)
      rw [List.map_cons, List.sum_cons]
      cases hFill : m.fills s x with
      | true =>
          have hTake : m.take s x ≤ m.size x := min_le_left _ _
          rw [walk_of_fills hFill, unitsIn_cons]
          have hMore := hRest (m.filled s x)
          omega
      | false =>
          rw [walk_of_not_fills hFill]
          have hMore := hRest s
          omega

end

----
-- Whole Fills Are Closed Downwards
----

section

variable {ι κ : Type} [DecidableEq κ]

/- A walk that wants `n` fills all of it. -/
def Market.Fillable
    (m : Market ι κ)
    (left : κ → Int)
    (offers : List ι)
    (n : Int) : Prop :=
  unitsIn (m.walk { left := left, want := n } offers) = n

variable {m : Market ι κ}

theorem fillable_cons_of_fills
    {left : κ → Int}
    {x : ι}
    {rest : List ι}
    {n : Int}
    (h : m.fills { left := left, want := n } x = true) :
    m.Fillable left (x :: rest) n ↔
      m.Fillable
        (charge left (m.owner x) (m.cost (min (m.size x) n)))
        rest (n - min (m.size x) n) := by
  have hWalk := walk_of_fills h rest
  unfold Market.Fillable
  rw [hWalk, unitsIn_cons]
  show
    min (m.size x) n + _ = n ↔ _ = n - min (m.size x) n
  constructor
  · intro hAll
    exact eq_sub_of_add_eq' hAll
  · intro hRest
    exact add_eq_of_eq_sub' hRest

theorem fillable_cons_of_not_fills
    {left : κ → Int}
    {x : ι}
    {rest : List ι}
    {n : Int}
    (h : m.fills { left := left, want := n } x = false) :
    m.Fillable left (x :: rest) n ↔
      m.Fillable left rest n := by
  unfold Market.Fillable
  rw [walk_of_not_fills h]

theorem fillable_zero
    (left : κ → Int)
    (offers : List ι) :
    m.Fillable left offers 0 := by
  unfold Market.Fillable
  rw [walk_of_want (s := { left := left, want := 0 }) rfl]
  rfl

/- One want is proposed what another is, of a small offer. -/
omit [DecidableEq κ] in
theorem fills_of_size_le
    (left : κ → Int)
    {x : ι}
    {a b : Int}
    (ha : 0 < a)
    (hab : a ≤ b)
    (hSize : m.size x ≤ a) :
    m.fills { left := left, want := a } x =
      m.fills { left := left, want := b } x := by
  have hTakeA : m.take { left := left, want := a } x = m.size x :=
    min_eq_left hSize
  have hTakeB : m.take { left := left, want := b } x = m.size x :=
    min_eq_left (hSize.trans hab)
  unfold Market.fills Market.covers
  rw [hTakeA, hTakeB]
  simp [ha.ne', (ha.trans_le hab).ne']

/- An offer too dear for the smaller want is for the larger. -/
omit [DecidableEq κ] in
theorem not_fills_of_le
    (hMono : ∀ a b, a ≤ b → m.cost a ≤ m.cost b)
    {left : κ → Int}
    {x : ι}
    {a b : Int}
    (ha : 0 < a)
    (hab : a ≤ b)
    (hNot : m.fills { left := left, want := a } x = false) :
    m.fills { left := left, want := b } x = false := by
  by_contra hYes
  have hFill : m.fills { left := left, want := b } x = true := by
    simpa using hYes
  have hCovers := (fills_eq_true_iff.mp hFill).2
  have hFillA : m.fills { left := left, want := a } x = true := by
    rw [fills_eq_true_iff]
    refine ⟨ha.ne', ?_⟩
    intro k hk
    exact
      (hMono _ _ (min_le_min_left (m.size x) hab)).trans
        (hCovers k hk)
  rw [hNot] at hFillA
  cases hFillA

/-
  Up to the offer that would be the smaller want's last, the
  two walks are proposed and fill the same.  That offer
  either fills the smaller want whole, or is skipped by both.
-/
theorem Fillable.of_le
    (hMono : ∀ a b, a ≤ b → m.cost a ≤ m.cost b)
    {left : κ → Int}
    {offers : List ι}
    {a b : Int}
    (ha : 0 ≤ a)
    (hab : a ≤ b)
    (hFull : m.Fillable left offers b) :
    m.Fillable left offers a := by
  induction offers generalizing left a b with
  | nil =>
      have hZero : (0 : Int) = b := hFull
      have hSame : a = 0 := by omega
      rw [hSame]
      exact fillable_zero left []
  | cons x rest ih =>
      rcases eq_or_lt_of_le ha with hZero | hPos
      · rw [← hZero]
        exact fillable_zero left (x :: rest)
      rcases le_or_gt (m.size x) a with hSmall | hLarge
      · have hSame := fills_of_size_le left hPos hab hSmall
        cases hFill :
            m.fills { left := left, want := a } x with
        | true =>
            rw [hFill] at hSame
            rw [fillable_cons_of_fills hSame.symm,
              min_eq_left (hSmall.trans hab)] at hFull
            rw [fillable_cons_of_fills hFill,
              min_eq_left hSmall]
            exact ih (by omega) (by omega) hFull
        | false =>
            rw [hFill] at hSame
            rw [fillable_cons_of_not_fills hSame.symm]
              at hFull
            rw [fillable_cons_of_not_fills hFill]
            exact ih ha hab hFull
      · cases hFill :
            m.fills { left := left, want := a } x with
        | true =>
            rw [fillable_cons_of_fills hFill,
              min_eq_right hLarge.le, sub_self]
            exact fillable_zero _ rest
        | false =>
            have hNot := not_fills_of_le hMono hPos hab hFill
            rw [fillable_cons_of_not_fills hNot] at hFull
            rw [fillable_cons_of_not_fills hFill]
            exact ih ha hab hFull

end

----
-- What a Size Costs
----

section

variable {ι κ : Type} [DecidableEq κ] {m : Market ι κ}
variable {rate : ι → Int}

theorem valueIn_walk_nonneg
    {offers : List ι}
    (hRate : ∀ x ∈ offers, 0 ≤ rate x)
    (hSize : ∀ x ∈ offers, 0 < m.size x)
    {s : State κ}
    (hWant : 0 ≤ s.want) :
    0 ≤ valueIn rate (m.walk s offers) :=
  valueIn_nonneg
    (fun _ hp =>
      ⟨hRate _ (walk_subset hp), (walk_pos hSize hWant hp).le⟩)

/-
  At rates that rise along the offers, a smaller size costs
  no more: where the two walks part, the smaller takes its
  whole rest at the cheapest rate that is left.
-/
theorem valueIn_walk_le
    (hMono : ∀ a b, a ≤ b → m.cost a ≤ m.cost b)
    {offers : List ι}
    (hRate : ∀ x ∈ offers, 0 ≤ rate x)
    (hSize : ∀ x ∈ offers, 0 < m.size x)
    (hSorted : offers.Pairwise (fun x y => rate x ≤ rate y))
    {left : κ → Int}
    {a b : Int}
    (ha : 0 ≤ a)
    (hab : a ≤ b)
    (hFull : m.Fillable left offers b) :
    valueIn rate
        (m.walk { left := left, want := a } offers) ≤
      valueIn rate
        (m.walk { left := left, want := b } offers) := by
  induction offers generalizing left a b with
  | nil => exact le_refl 0
  | cons x rest ih =>
      rcases eq_or_lt_of_le ha with hZero | hPos
      · rw [walk_of_want (s := { left := left, want := a })
          hZero.symm]
        exact valueIn_walk_nonneg hRate hSize (ha.trans hab)
      have hRate' :=
        fun y hy => hRate y (List.mem_cons_of_mem x hy)
      have hSize' :=
        fun y hy => hSize y (List.mem_cons_of_mem x hy)
      have hSorted' := (List.pairwise_cons.mp hSorted).2
      rcases le_or_gt (m.size x) a with hSmall | hLarge
      · have hSame := fills_of_size_le left hPos hab hSmall
        cases hFill :
            m.fills { left := left, want := a } x with
        | true =>
            rw [hFill] at hSame
            rw [fillable_cons_of_fills hSame.symm,
              min_eq_left (hSmall.trans hab)] at hFull
            rw [walk_of_fills hFill,
              walk_of_fills hSame.symm, valueIn_cons,
              valueIn_cons]
            unfold Market.filled Market.take
            simp only [min_eq_left hSmall,
              min_eq_left (hSmall.trans hab)]
            have hRest :=
              ih hRate' hSize' hSorted'
                (sub_nonneg.mpr hSmall)
                (sub_le_sub_right hab _) hFull
            omega
        | false =>
            rw [hFill] at hSame
            rw [fillable_cons_of_not_fills hSame.symm]
              at hFull
            rw [walk_of_not_fills hFill,
              walk_of_not_fills hSame.symm]
            exact ih hRate' hSize' hSorted' ha hab hFull
      · cases hFill :
            m.fills { left := left, want := a } x with
        | true =>
            have hRates :
                ∀ p ∈ m.walk { left := left, want := b }
                    (x :: rest),
                  rate x ≤ rate p.1 ∧ 0 ≤ p.2 := by
              intro p hp
              refine ⟨?_, (walk_pos hSize (ha.trans hab) hp).le⟩
              rcases List.mem_cons.mp (walk_subset hp) with
                hHead | hRest
              · rw [hHead]
              · exact
                  (List.pairwise_cons.mp hSorted).1 _ hRest
            have hAll := mul_unitsIn_le hRates
            rw [hFull] at hAll
            have hTake :
                m.take { left := left, want := a } x = a :=
              min_eq_right hLarge.le
            have hDone :
                (m.filled { left := left, want := a }
                  x).want = 0 := by
              unfold Market.filled
              rw [hTake]
              exact sub_self a
            rw [walk_of_fills hFill, walk_of_want hDone,
              valueIn_cons, valueIn_nil, hTake, add_zero]
            exact
              (mul_le_mul_of_nonneg_left hab
                (hRate x (List.mem_cons_self ..))).trans hAll
        | false =>
            have hNot := not_fills_of_le hMono hPos hab hFill
            rw [fillable_cons_of_not_fills hNot] at hFull
            rw [walk_of_not_fills hFill,
              walk_of_not_fills hNot]
            exact ih hRate' hSize' hSorted' ha hab hFull

end

----
-- A Listing Bounds Every Walk Over It
----

variable {ι κ : Type} [DecidableEq κ] {m : Market ι κ}
variable {capacity : Int → Int} {most : Int}

/- Each budget is the listing's own, or the listing used it. -/
def InStep
    (m : Market ι κ)
    (s : State κ)
    (left : κ → Int) : Prop :=
  ∀ k, s.left k = left k ∨ left k < m.cost 1

omit [DecidableEq κ] in
theorem unitsIn_list_nonneg
    {ps : List (ι × Int)}
    (h : ∀ p ∈ ps, 0 < p.2) :
    0 ≤ unitsIn ps := by
  apply List.sum_nonneg
  intro n hn
  rcases List.mem_map.mp hn with ⟨p, hp, rfl⟩
  exact (h p hp).le

/- A budget that shows a unit is the walk's own. -/
omit [DecidableEq κ] in
theorem InStep.left_eq
    (h : m.Sound capacity most)
    {s : State κ}
    {left : κ → Int}
    {x : ι}
    {k : κ}
    (hStep : InStep m s left)
    (hLeft : ∀ k, 0 ≤ left k)
    (hSize : 0 < m.size x)
    (hMost : m.size x ≤ most)
    (hOwner : m.owner x = some k)
    (hSome : 0 < m.listed capacity left x) :
    s.left k = left k := by
  rcases hStep k with hEq | hUsed
  · exact hEq
  · rw [listed_self left hOwner] at hSome
    have hCost := h.cost_shown_le (hLeft k) hSize hMost
    have hOne := h.cost_mono 1 _ hSome
    omega

/- A listed offer is filled by no more than is listed. -/
omit [DecidableEq κ] in
theorem InStep.take_le
    (h : m.Sound capacity most)
    {s : State κ}
    {left : κ → Int}
    {x : ι}
    (hStep : InStep m s left)
    (hLeft : ∀ k, 0 ≤ left k)
    (hSize : 0 < m.size x)
    (hMost : m.size x ≤ most)
    (hWant : 0 ≤ s.want)
    (hSome : 0 < m.listed capacity left x)
    (hFill : m.fills s x = true) :
    m.take s x ≤ m.listed capacity left x := by
  have hTake : m.take s x ≤ m.size x := min_le_left _ _
  rcases fills_eq_true_iff.mp hFill with ⟨hNe, hCovers⟩
  cases hOwner : m.owner x with
  | none =>
      unfold Market.listed
      rw [hOwner]
      exact hTake
  | some k =>
      have hEq := hStep.left_eq h hLeft hSize hMost hOwner hSome
      have hPaid := hCovers k hOwner
      rw [hEq] at hPaid
      have hPos := take_pos hSize hWant hNe
      rw [listed_self left hOwner]
      exact
        le_min hTake
          ((h.le_capacity_iff _ _ (hLeft k) (by omega)
            (hTake.trans hMost)).mpr hPaid)

/-
  Past a listed offer the walk is full, or still in step: an
  offer shown whole is filled whole, and one that is cut uses
  its budget up.
-/
theorem InStep.step
    (h : m.Sound capacity most)
    {s : State κ}
    {left : κ → Int}
    {x : ι}
    (hStep : InStep m s left)
    (hLeft : ∀ k, 0 ≤ left k)
    (hSize : 0 < m.size x)
    (hMost : m.size x ≤ most)
    (hSome : 0 < m.listed capacity left x) :
    (m.step s x).want = 0 ∨
      InStep m (m.step s x)
        (m.leftAfter capacity left x) := by
  by_cases hNe : s.want = 0
  · left
    rw [step_of_not_fills (not_fills_of_want hNe x)]
    exact hNe
  have hOthers :
      ∀ k, m.owner x ≠ some k →
        (m.step s x).left k =
            m.leftAfter capacity left x k ∨
          m.leftAfter capacity left x k < m.cost 1 := by
    intro k hOwner
    rw [step_left_of_ne s hOwner, leftAfter_of_ne left hOwner]
    exact hStep k
  cases hOwner : m.owner x with
  | none =>
      right
      intro k
      exact hOthers k (by simp [hOwner])
  | some k =>
      have hEq := hStep.left_eq h hLeft hSize hMost hOwner hSome
      have hOwn : ∀ k', k' ≠ k → m.owner x ≠ some k' := by
        intro k' hk' hSame
        rw [hOwner] at hSame
        cases hSame
        exact hk' rfl
      have hAfter :=
        leftAfter_self h hOwner
          (hLeft k) hSize
      rcases h.shown_cases (hLeft k) hSize hMost with
        ⟨hCovered, hWhole⟩ | ⟨_, hUsed⟩
      · -- shown whole: the walk can pay for all of it
        have hFill : m.fills s x = true := by
          rw [fills_eq_true_iff]
          refine ⟨hNe, ?_⟩
          intro k' hk'
          rw [hOwner] at hk'
          cases hk'
          rw [hEq]
          exact
            (h.cost_mono _ _ (min_le_left _ _)).trans
              hCovered
        rw [step_of_fills hFill]
        rcases take_eq_or_filled s x with hAll | hDone
        · right
          intro k'
          by_cases hk' : k' = k
          · rw [hk', hAfter, hWhole,
              filled_left_self s hOwner, hAll, hEq]
            exact .inl rfl
          · have hOther := hOthers k' (hOwn k' hk')
            rw [step_of_fills hFill] at hOther
            exact hOther
        · exact .inl hDone
      · right
        intro k'
        by_cases hk' : k' = k
        · right
          rw [hk', hAfter]
          exact hUsed
        · exact hOthers k' (hOwn k' hk')

/- No walk over a listing fills more than it shows. -/
theorem unitsIn_walk_list_le_of_inStep
    (h : m.Sound capacity most)
    {offers : List ι}
    (hSize : ∀ x ∈ offers, 0 < m.size x ∧ m.size x ≤ most)
    {s : State κ}
    {left : κ → Int}
    (hWant : 0 ≤ s.want)
    (hLeft : ∀ k, 0 ≤ left k)
    (hStep : InStep m s left) :
    unitsIn
        (m.walk s
          ((m.list capacity left offers).map Prod.fst)) ≤
      unitsIn (m.list capacity left offers) := by
  induction offers generalizing s left with
  | nil => exact le_refl 0
  | cons x rest ih =>
      rcases hSize x (List.mem_cons_self ..) with
        ⟨hPos, hMost⟩
      have hRestSize :
          ∀ y ∈ rest, 0 < m.size y ∧ m.size y ≤ most :=
        fun y hy => hSize y (List.mem_cons_of_mem x hy)
      have hLeft' := leftAfter_nonneg h hLeft hPos hMost
      rw [list_cons]
      by_cases hNone : m.listed capacity left x ≤ 0
      · have hSame : m.leftAfter capacity left x = left := by
          unfold Market.leftAfter
          rw [if_pos hNone]
        rw [if_pos hNone, hSame, List.nil_append]
        exact ih hRestSize hWant hLeft hStep
      · have hSome := not_le.mp hNone
        rw [if_neg hNone, List.singleton_append, List.map_cons,
          unitsIn_cons]
        have hRest :
            unitsIn
                (m.walk (m.step s x)
                  ((m.list capacity
                    (m.leftAfter capacity left x) rest).map
                      Prod.fst)) ≤
              unitsIn
                (m.list capacity
                  (m.leftAfter capacity left x) rest) := by
          rcases hStep.step h hLeft hPos hMost hSome with
            hDone | hStep'
          · rw [walk_of_want hDone]
            exact unitsIn_list_nonneg (fun _ hp => list_pos hp)
          · exact
              ih hRestSize (step_want x hWant) hLeft' hStep'
        cases hFill : m.fills s x with
        | true =>
            have hTake :=
              hStep.take_le h hLeft hPos hMost hWant hSome
                hFill
            rw [step_of_fills hFill] at hRest
            rw [walk_of_fills hFill, unitsIn_cons]
            simp only
            omega
        | false =>
            rw [step_of_not_fills hFill] at hRest
            rw [walk_of_not_fills hFill]
            simp only
            omega

theorem unitsIn_walk_list_le
    (h : m.Sound capacity most)
    {offers : List ι}
    (hSize : ∀ x ∈ offers, 0 < m.size x ∧ m.size x ≤ most)
    {s : State κ}
    (hWant : 0 ≤ s.want)
    (hLeft : ∀ k, 0 ≤ s.left k) :
    unitsIn
        (m.walk s
          ((m.list capacity s.left offers).map Prod.fst)) ≤
      unitsIn (m.list capacity s.left offers) :=
  unitsIn_walk_list_le_of_inStep h hSize hWant hLeft
    (fun _ => .inl rfl)

end BudgetWalk
