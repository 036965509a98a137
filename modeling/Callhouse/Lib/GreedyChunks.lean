import Mathlib.Tactic

/-
  Items packed in order into chunks: the current chunk is
  closed before an item that would take its cost over the cap
  or its length over the limit.

  Main declarations:
    * `GreedyChunks.pack`
    * `GreedyChunks.Fits`
    * `GreedyChunks.pack_flatten`, `GreedyChunks.pack_fits`
-/

namespace GreedyChunks

variable {α : Type}

structure State
    (α : Type) where
  chunks : List (List α)
  current : List α

variable (cost : List α → Int) (cap : Int) (maxItems : Nat)

/- The item would not go into the current chunk. -/
def Flushes
    (current : List α)
    (x : α) : Prop :=
  0 < current.length ∧
    (cap < cost (current ++ [x]) ∨ maxItems ≤ current.length)

instance
    (current : List α)
    (x : α) :
    Decidable (Flushes cost cap maxItems current x) :=
  inferInstanceAs (Decidable (_ ∧ _))

def add
    (s : State α)
    (x : α) : State α :=
  if Flushes cost cap maxItems s.current x then
    { chunks := s.chunks ++ [s.current], current := [x] }
  else { s with current := s.current ++ [x] }

def State.close
    (s : State α) : List (List α) :=
  if 0 < s.current.length then s.chunks ++ [s.current]
  else s.chunks

def packFrom
    (s : State α)
    (items : List α) : State α :=
  items.foldl (add cost cap maxItems) s

def pack
    (items : List α) : List (List α) :=
  (packFrom cost cap maxItems { chunks := [], current := [] }
    items).close

/- Within the limit, and within the cap unless it is alone. -/
structure Fits
    (c : List α) : Prop where
  size : c.length ≤ maxItems
  paid : 2 ≤ c.length → cost c ≤ cap

/- Closed chunks are filled and fit; the current one fits. -/
structure Packed
    (s : State α) : Prop where
  filled : ∀ c ∈ s.chunks, 0 < c.length
  closed : ∀ c ∈ s.chunks, Fits cost cap maxItems c
  current : Fits cost cap maxItems s.current

variable {cost cap maxItems}

theorem add_items
    (s : State α)
    (x : α) :
    (add cost cap maxItems s x).chunks.flatten ++
        (add cost cap maxItems s x).current =
      s.chunks.flatten ++ s.current ++ [x] := by
  unfold add
  split
  · simp
  · simp

theorem packFrom_items
    (cost : List α → Int)
    (cap : Int)
    (maxItems : Nat)
    (s : State α)
    (items : List α) :
    (packFrom cost cap maxItems s items).chunks.flatten ++
        (packFrom cost cap maxItems s items).current =
      s.chunks.flatten ++ s.current ++ items := by
  unfold packFrom
  induction items generalizing s with
  | nil => simp
  | cons x rest ih =>
      rw [List.foldl_cons, ih, add_items, List.append_assoc]
      rfl

/- Every item is in exactly one chunk, in its order. -/
theorem pack_flatten
    (items : List α) :
    (pack cost cap maxItems items).flatten = items := by
  have hItems :=
    packFrom_items cost cap maxItems
      { chunks := [], current := [] }
      items
  simp only [List.flatten_nil, List.nil_append] at hItems
  unfold pack State.close
  split
  · simpa using hItems
  · next hNone =>
      have hEmpty :=
        List.eq_nil_of_length_eq_zero
          (Nat.eq_zero_of_not_pos hNone)
      rw [hEmpty, List.append_nil] at hItems
      exact hItems

theorem Packed.add
    (hMax : 1 ≤ maxItems)
    {s : State α}
    (h : Packed cost cap maxItems s)
    (x : α) :
    Packed cost cap maxItems (add cost cap maxItems s x) := by
  unfold GreedyChunks.add
  split
  · next hFlush =>
      refine ⟨?_, ?_, ?_, ?_⟩
      · intro c hc
        rcases List.mem_append.mp hc with hc | hc
        · exact h.filled c hc
        · rw [List.mem_singleton.mp hc]
          exact hFlush.1
      · intro c hc
        rcases List.mem_append.mp hc with hc | hc
        · exact h.closed c hc
        · rw [List.mem_singleton.mp hc]
          exact h.current
      · exact hMax
      · intro hTwo
        exact absurd hTwo (by simp)
  · next hRoom =>
      unfold Flushes at hRoom
      refine ⟨h.filled, h.closed, ?_, ?_⟩
      · rw [List.length_append, List.length_singleton]
        omega
      · intro hTwo
        simp only [List.length_append, List.length_singleton]
          at hTwo ⊢
        omega

theorem pack_fits
    (hMax : 1 ≤ maxItems)
    (items : List α) :
    ∀ c ∈ pack cost cap maxItems items,
      0 < c.length ∧ Fits cost cap maxItems c := by
  have hRun :
      ∀ (xs : List α) (s : State α),
        Packed cost cap maxItems s →
          Packed cost cap maxItems
            (packFrom cost cap maxItems s xs) := by
    intro xs
    induction xs with
    | nil => exact fun _ h => h
    | cons x rest ih => exact fun s h => ih _ (h.add hMax x)
  have hPacked :=
    hRun items { chunks := [], current := [] }
      { filled := by simp
        closed := by simp
        current := { size := by simp, paid := by simp } }
  intro c hc
  unfold pack State.close at hc
  split at hc
  · next hSome =>
      rcases List.mem_append.mp hc with hc | hc
      · exact ⟨hPacked.filled c hc, hPacked.closed c hc⟩
      · rw [List.mem_singleton.mp hc]
        exact ⟨hSome, hPacked.current⟩
  · exact ⟨hPacked.filled c hc, hPacked.closed c hc⟩

end GreedyChunks
