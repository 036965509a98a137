import Callhouse.Lib.KeyedTable
import Mathlib.Tactic

/-
  A counter watched through a mark that every reading
  overwrites: each rise over the mark is booked once for the
  value it ends at, and a lower reading lowers the mark.

  Main declarations:
    * `Watermark.observeAll`
    * `Watermark.Tight`
    * `Watermark.exact_iff_tight`
-/

----
-- The Mark and the Booked Rises
----

namespace Watermark

section

variable {α : Type}

/- `rises` holds the value a rise ended at and its size. -/
structure Mark (α : Type) where
  seen : α
  rises : List (α × α)

def start
    (a : α) : Mark α :=
  { seen := a, rises := [] }

variable [AddCommGroup α] [LinearOrder α]

/- Booking a rise that ends where an earlier one did: none. -/
def observe
    (m : Mark α)
    (r : α) : Mark α :=
  { seen := r
    rises :=
      if m.seen < r then
        KeyedTable.insertOrIgnore Prod.fst m.rises
          (r, r - m.seen)
      else m.rises }

def observeAll
    (a : α)
    (readings : List α) : Mark α :=
  readings.foldl observe (start a)

def Mark.total
    (m : Mark α) : α :=
  (m.rises.map Prod.snd).sum

end

----
-- What the Readings Say
----

section

variable {α : Type}

def last
    (a : α)
    (readings : List α) : α :=
  readings.getLastD a

theorem concat_prefix_concat
    {q readings : List α}
    {x r : α} :
    q ++ [x] <+: readings ++ [r] ↔
      (q = readings ∧ x = r) ∨ q ++ [x] <+: readings := by
  rw [List.prefix_concat_iff]
  constructor
  · rintro (h | h)
    · rcases List.append_inj' h rfl with ⟨hq, hx⟩
      exact .inl ⟨hq, by simpa using hx⟩
    · exact .inr h
  · rintro (⟨rfl, rfl⟩ | h)
    · exact .inl rfl
    · exact .inr h

theorem last_concat
    (a : α)
    (readings : List α)
    (r : α) :
    last a (readings ++ [r]) = r := by
  simp [last]

variable [LinearOrder α]

/- The start is the first reading. -/
def top
    (a : α)
    (readings : List α) : α :=
  readings.foldl max a

/- Some reading rose to `x` from the one before it. -/
def IsRise
    (a : α)
    (readings : List α)
    (x : α) : Prop :=
  ∃ q, q ++ [x] <+: readings ∧ last a q < x

/-
  Every rise starts from the largest reading so far, or ends
  where an earlier rise did.
-/
def Tight
    (a : α)
    (readings : List α) : Prop :=
  ∀ q r, q ++ [r] <+: readings → last a q < r →
    last a q = top a q ∨ IsRise a q r

theorem top_concat
    (a : α)
    (readings : List α)
    (r : α) :
    top a (readings ++ [r]) = max (top a readings) r := by
  simp [top]

theorem last_le_top
    (a : α)
    (readings : List α) :
    last a readings ≤ top a readings := by
  cases readings using List.reverseRecOn with
  | nil => exact le_refl a
  | append_singleton q r =>
      rw [last_concat, top_concat]
      exact le_max_right _ _

variable {a : α}

theorem isRise_concat
    {x r : α}
    {readings : List α} :
    IsRise a (readings ++ [r]) x ↔
      (x = r ∧ last a readings < r) ∨
        IsRise a readings x := by
  unfold IsRise
  constructor
  · rintro ⟨q, hPrefix, hRise⟩
    rcases concat_prefix_concat.mp hPrefix with
      ⟨rfl, rfl⟩ | hEarlier
    · exact .inl ⟨rfl, hRise⟩
    · exact .inr ⟨q, hEarlier, hRise⟩
  · rintro (⟨rfl, hRise⟩ | ⟨q, hPrefix, hRise⟩)
    · exact ⟨readings, List.prefix_refl _, hRise⟩
    · exact ⟨q,
        List.IsPrefix.trans hPrefix
          (List.prefix_append _ _),
        hRise⟩

theorem IsRise.le_top
    {x : α}
    {readings : List α}
    (h : IsRise a readings x) :
    x ≤ top a readings := by
  induction readings using List.reverseRecOn with
  | nil =>
      rcases h with ⟨q, hPrefix, _⟩
      simp at hPrefix
  | append_singleton q r ih =>
      rw [top_concat]
      rcases isRise_concat.mp h with ⟨rfl, _⟩ | hEarlier
      · exact le_max_right _ _
      · exact le_max_of_le_left (ih hEarlier)

theorem Tight.of_part
    {q readings : List α}
    (h : Tight a readings)
    (hPrefix : q <+: readings) :
    Tight a q := by
  intro p r hp
  exact h p r (List.IsPrefix.trans hp hPrefix)

theorem tight_concat
    {r : α}
    {readings : List α} :
    Tight a (readings ++ [r]) ↔
      Tight a readings ∧
        (last a readings < r →
          last a readings = top a readings ∨
            IsRise a readings r) := by
  constructor
  · intro h
    refine ⟨?_, h readings r (List.prefix_refl _)⟩
    intro q x hPrefix
    exact h q x
      (List.IsPrefix.trans hPrefix (List.prefix_append _ _))
  · rintro ⟨hTight, hLast⟩ q x hPrefix
    rcases concat_prefix_concat.mp hPrefix with
      ⟨rfl, rfl⟩ | hEarlier
    · exact hLast
    · exact hTight q x hEarlier

end

----
-- When the Books Are Exact
----

variable {α : Type} [AddCommGroup α] [LinearOrder α]

/-
  Never more than the largest reading is over the start, and
  exactly that after a reading of the largest value.
-/
def Exact
    (a : α)
    (readings : List α) : Prop :=
  ∀ q, q <+: readings →
    (observeAll a q).total ≤ top a q - a ∧
      (q.getLast? = some (top a q) →
        (observeAll a q).total = top a q - a)

theorem observeAll_concat
    (a : α)
    (readings : List α)
    (r : α) :
    observeAll a (readings ++ [r]) =
      observe (observeAll a readings) r := by
  simp [observeAll]

theorem seen_observeAll
    (a : α)
    (readings : List α) :
    (observeAll a readings).seen = last a readings := by
  cases readings using List.reverseRecOn with
  | nil => rfl
  | append_singleton q r =>
      rw [observeAll_concat, last_concat]
      rfl

/- The booked ends are the values some reading rose to. -/
theorem mem_ends_iff
    (a : α)
    (readings : List α)
    (x : α) :
    x ∈ (observeAll a readings).rises.map Prod.fst ↔
      IsRise a readings x := by
  induction readings using List.reverseRecOn with
  | nil => simp [observeAll, start, IsRise]
  | append_singleton q r ih =>
      rw [observeAll_concat, isRise_concat, ← ih]
      simp only [observe, seen_observeAll]
      by_cases hRise : last a q < r
      · rw [if_pos hRise,
          KeyedTable.key_mem_insertOrIgnore_iff]
        simp [hRise]
      · rw [if_neg hRise]
        simp [hRise]

variable {m : Mark α} {r : α}

theorem total_observe_of_le
    (h : r ≤ m.seen) :
    (observe m r).total = m.total := by
  simp [observe, Mark.total, not_lt.mpr h]

theorem total_observe_of_mem
    (h : r ∈ m.rises.map Prod.fst) :
    (observe m r).total = m.total := by
  unfold observe Mark.total
  split
  · rw [KeyedTable.insertOrIgnore_of_mem h]
  · rfl

theorem total_observe_of_not_mem
    (hRise : m.seen < r)
    (hNew : r ∉ m.rises.map Prod.fst) :
    (observe m r).total = m.total + (r - m.seen) := by
  have hInsert :=
    @KeyedTable.insertOrIgnore_of_not_mem _ _ _ Prod.fst
      m.rises (r, r - m.seen) hNew
  simp [observe, Mark.total, hRise, hInsert]

variable {a : α}

/- The next reading keeps the total exact iff it is tight. -/
theorem total_concat_of_tight
    {readings : List α}
    (hTotal :
      (observeAll a readings).total = top a readings - a)
    (hTight :
      last a readings < r →
        last a readings = top a readings ∨
          IsRise a readings r) :
    (observeAll a (readings ++ [r])).total =
      top a (readings ++ [r]) - a := by
  rw [observeAll_concat, top_concat]
  by_cases hRise : last a readings < r
  · by_cases hSeen : IsRise a readings r
    · rw [total_observe_of_mem
        ((mem_ends_iff a readings r).mpr hSeen),
        max_eq_left hSeen.le_top, hTotal]
    · have hTop := (hTight hRise).resolve_right hSeen
      rw [total_observe_of_not_mem
        (by rw [seen_observeAll]; exact hRise)
        (fun h => hSeen ((mem_ends_iff a readings r).mp h)),
        seen_observeAll, hTop, hTotal,
        max_eq_right (hTop ▸ hRise).le]
      abel
  · have hLe := not_lt.mp hRise
    rw [total_observe_of_le
      (by rw [seen_observeAll]; exact hLe),
      max_eq_left (hLe.trans (last_le_top a readings)),
      hTotal]

theorem total_of_tight
    {readings : List α}
    (h : Tight a readings) :
    (observeAll a readings).total = top a readings - a := by
  induction readings using List.reverseRecOn with
  | nil => simp [observeAll, start, Mark.total, top]
  | append_singleton q r ih =>
      rcases tight_concat.mp h with ⟨hTight, hLast⟩
      exact total_concat_of_tight (ih hTight) hLast

variable [IsOrderedAddMonoid α]

/- A rise from below the largest reading is booked again. -/
theorem total_concat_gt
    {readings : List α}
    (hTotal :
      (observeAll a readings).total = top a readings - a)
    (hRise : last a readings < r)
    (hBelow : last a readings ≠ top a readings)
    (hNew : ¬ IsRise a readings r) :
    top a (readings ++ [r]) - a <
      (observeAll a (readings ++ [r])).total := by
  have hLast : last a readings < top a readings :=
    lt_of_le_of_ne (last_le_top a readings) hBelow
  rw [observeAll_concat, top_concat,
    total_observe_of_not_mem
      (by rw [seen_observeAll]; exact hRise)
      (fun h => hNew ((mem_ends_iff a readings r).mp h)),
    seen_observeAll, hTotal]
  have hSum :
      top a readings - a + (r - last a readings) =
        top a readings + (r - last a readings) - a := by
    abel
  rw [hSum]
  apply sub_lt_sub_right
  rcases le_total r (top a readings) with hLow | hHigh
  · rw [max_eq_left hLow]
    exact lt_add_of_pos_right _ (sub_pos.mpr hRise)
  · rw [max_eq_right hHigh]
    calc r
        = last a readings + (r - last a readings) := by abel
      _ < top a readings + (r - last a readings) :=
          add_lt_add_left hLast _

theorem tight_of_exact
    {readings : List α}
    (h : Exact a readings) :
    Tight a readings := by
  induction readings using List.reverseRecOn with
  | nil =>
      intro q r hPrefix
      simp at hPrefix
  | append_singleton q r ih =>
      have hTight : Tight a q := by
        apply ih
        intro p hp
        exact h p
          (List.IsPrefix.trans hp (List.prefix_append _ _))
      refine tight_concat.mpr ⟨hTight, ?_⟩
      intro hRise
      by_contra hNot
      rcases not_or.mp hNot with ⟨hBelow, hNew⟩
      have hOver :=
        total_concat_gt (total_of_tight hTight) hRise
          hBelow hNew
      exact absurd (h _ (List.prefix_refl _)).1
        (not_le.mpr hOver)

/- Tight readings are the ones that book exactly. -/
theorem exact_iff_tight
    (a : α)
    (readings : List α) :
    Exact a readings ↔ Tight a readings := by
  constructor
  · exact tight_of_exact
  · intro h q hPrefix
    have hTotal := total_of_tight (h.of_part hPrefix)
    exact ⟨hTotal.le, fun _ => hTotal⟩

end Watermark
