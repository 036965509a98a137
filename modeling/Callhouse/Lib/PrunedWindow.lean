import Mathlib.Data.Int.Order.Basic
import Mathlib.Data.List.Basic
import Mathlib.Tactic

/-
  A log of stamped readings pruned for good at every new one:
  with stamps that never fall, what a reading finds kept is
  what the whole history has within the window.

  Main declarations:
    * `PrunedWindow.within`, `PrunedWindow.pushAll`
    * `PrunedWindow.within_pushAll`
    * `PrunedWindow.pair_concat`
-/

namespace PrunedWindow

variable {α : Type} (stamp : α → Int) (width : Int)

/- The readings at most the window older than the time. -/
def within
    (readings : List α)
    (now : Int) : List α :=
  readings.filter (fun r => decide (now - stamp r ≤ width))

def push
    (kept : List α)
    (x : α) : List α :=
  within stamp width kept (stamp x) ++ [x]

def pushAll
    (readings : List α) : List α :=
  readings.foldl (push stamp width) []

/- Stamps never fall. -/
def InOrder
    (readings : List α) : Prop :=
  readings.Pairwise (fun a b => stamp a ≤ stamp b)

variable {stamp width}

theorem pushAll_concat
    (readings : List α)
    (x : α) :
    pushAll stamp width (readings ++ [x]) =
      within stamp width (pushAll stamp width readings)
        (stamp x) ++ [x] := by
  unfold pushAll
  rw [List.foldl_append, List.foldl_cons, List.foldl_nil]
  rfl

theorem within_append
    (xs ys : List α)
    (now : Int) :
    within stamp width (xs ++ ys) now =
      within stamp width xs now ++ within stamp width ys now :=
  List.filter_append ..

/- Pruning at an earlier time loses nothing of a later one. -/
theorem within_within
    (readings : List α)
    {earlier later : Int}
    (h : earlier ≤ later) :
    within stamp width
        (within stamp width readings earlier) later =
      within stamp width readings later := by
  unfold within
  rw [List.filter_filter]
  apply List.filter_congr
  intro r _
  rw [← Bool.decide_and]
  apply decide_eq_decide.mpr
  omega

/- The kept readings stand for the history from then on. -/
theorem within_pushAll
    {readings : List α}
    (hOrder : InOrder stamp readings)
    {now : Int}
    (hNow : ∀ r ∈ readings, stamp r ≤ now) :
    within stamp width (pushAll stamp width readings) now =
      within stamp width readings now := by
  induction readings using List.reverseRecOn with
  | nil => rfl
  | append_singleton rest x ih =>
      have hParts := List.pairwise_append.mp hOrder
      have hBefore : ∀ r ∈ rest, stamp r ≤ stamp x :=
        fun r hr => hParts.2.2 r hr x (List.mem_singleton_self x)
      have hx : stamp x ≤ now := hNow x (by simp)
      rw [pushAll_concat, within_append, within_append,
        within_within _ hx]
      congr 1
      apply ih hParts.1
      exact fun r hr => (hBefore r hr).trans hx

/- A pair of a longer list is an old one, or ends with it. -/
theorem pair_concat
    {l : List α}
    {a b x : α} :
    [a, b].Sublist (l ++ [x]) ↔
      [a, b].Sublist l ∨ (a ∈ l ∧ b = x) := by
  constructor
  · intro h
    rcases List.sublist_append_iff.mp h with
      ⟨l₁, l₂, hEq, h₁, h₂⟩
    cases l₂ with
    | nil =>
        rw [List.append_nil] at hEq
        exact .inl (hEq ▸ h₁)
    | cons y rest =>
        rcases List.cons_sublist_cons'.mp h₂ with hNil | ⟨rfl, hNil⟩
        · cases hNil
        · rw [List.sublist_nil.mp hNil] at hEq
          have hSplit : [a] ++ [b] = l₁ ++ [y] := hEq
          rcases List.append_inj' hSplit rfl with ⟨rfl, hb⟩
          cases hb
          exact .inr ⟨List.singleton_sublist.mp h₁, rfl⟩
  · rintro (h | ⟨ha, rfl⟩)
    · exact h.trans (List.sublist_append_left _ _)
    · exact
        (List.singleton_sublist.mpr ha).append
          (List.Sublist.refl [b])

end PrunedWindow
