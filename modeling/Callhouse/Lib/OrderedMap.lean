import Mathlib.Tactic
import Mathlib.Algebra.BigOperators.Group.List.Basic

/-
  Finite maps that remember insertion order: setting a
  present key replaces its value in place, setting a new key
  appends it.

  Main declarations:
    * `OrderedMap`, `OrderedMap.get?`, `OrderedMap.set`
    * `OrderedMap.mem_entries_iff`
    * `OrderedMap.get?_set`
    * `OrderedMap.sum_entries_set`
    * `OrderedMap.entries_setAll`
    * `OrderedMap.sum_getD_eq_sum_values`
    * `OrderedMap.mem_values_indexBy`
-/

----
-- Maps
----

/- A map is a list of entries whose keys are distinct. -/
structure OrderedMap (K V : Type) where
  entries : List (K × V)
  nodup : (entries.map Prod.fst).Nodup

namespace OrderedMap

section

variable {K V : Type}

def empty : OrderedMap K V :=
  { entries := []
    nodup := List.nodup_nil }

def values
    (m : OrderedMap K V) : List V :=
  m.entries.map Prod.snd

variable [DecidableEq K]

/- The entries after a write, in their insertion order. -/
def upsert
    (k : K)
    (v : V) : List (K × V) → List (K × V)
  | [] => [(k, v)]
  | (k', v') :: rest =>
      if k' = k then (k, v) :: rest
      else (k', v') :: upsert k v rest

theorem map_fst_upsert
    (k : K)
    (v : V)
    (l : List (K × V)) :
    (upsert k v l).map Prod.fst =
      if k ∈ l.map Prod.fst then l.map Prod.fst
      else l.map Prod.fst ++ [k] := by
  induction l with
  | nil => simp [upsert]
  | cons entry rest ih =>
      rcases entry with ⟨k', v'⟩
      by_cases hKey : k' = k
      · subst hKey
        simp [upsert]
      · have hKey' : ¬ k = k' := fun h => hKey h.symm
        simp only [upsert, if_neg hKey, List.map_cons, ih,
          List.mem_cons, hKey', false_or]
        split <;> simp

theorem nodup_upsert
    (k : K)
    (v : V)
    {l : List (K × V)}
    (hNodup : (l.map Prod.fst).Nodup) :
    ((upsert k v l).map Prod.fst).Nodup := by
  rw [map_fst_upsert]
  split
  · exact hNodup
  · next hNew =>
      apply List.Nodup.append hNodup
        (List.nodup_singleton k)
      intro k' hMem hLast
      rw [List.mem_singleton] at hLast
      exact hNew (hLast ▸ hMem)

variable (m : OrderedMap K V)

def set
    (k : K)
    (v : V) : OrderedMap K V :=
  { entries := upsert k v m.entries
    nodup := nodup_upsert k v m.nodup }

def get?
    (k : K) : Option V :=
  (m.entries.find? (fun entry => entry.1 = k)).map Prod.snd

def getD
    (m : OrderedMap K V)
    (k : K)
    (v : V) : V :=
  (m.get? k).getD v

def has
    (k : K) : Bool :=
  (m.get? k).isSome

/- Write every entry, from left to right. -/
def setAll
    (l : List (K × V)) : OrderedMap K V :=
  l.foldl (fun m e => m.set e.1 e.2) m

/- Write every value under its own key, from left to right. -/
def indexBy
    (key : V → K)
    (l : List V) : OrderedMap K V :=
  l.foldl (fun m v => m.set (key v) v) empty

end

----
-- Reading a Written Map
----

section

variable {K V : Type} [DecidableEq K]

@[simp] theorem get?_empty
    (k : K) :
    (empty : OrderedMap K V).get? k = none := rfl

theorem find?_upsert
    (k k' : K)
    (v : V)
    (l : List (K × V)) :
    ((upsert k v l).find?
        (fun entry => entry.1 = k')).map Prod.snd =
      if k = k' then some v
      else (l.find? (fun entry => entry.1 = k')).map
        Prod.snd := by
  induction l with
  | nil =>
      by_cases hKey : k = k' <;> simp [upsert, hKey]
  | cons entry rest ih =>
      rcases entry with ⟨k₀, v₀⟩
      by_cases hHead : k₀ = k
      · subst hHead
        by_cases hKey : k₀ = k' <;>
          simp [upsert, hKey]
      · rw [upsert, if_neg hHead]
        by_cases hRead : k₀ = k'
        · have hKey : ¬ k = k' := by
            intro h
            exact hHead (hRead.trans h.symm)
          simp [hRead, hKey]
        · simpa [hRead] using ih

variable (m : OrderedMap K V)

theorem get?_set
    (k k' : K)
    (v : V) :
    (m.set k v).get? k' =
      if k = k' then some v else m.get? k' :=
  find?_upsert k k' v m.entries

@[simp] theorem get?_set_self
    (k : K)
    (v : V) :
    (m.set k v).get? k = some v := by
  simp [get?_set]

theorem get?_set_of_ne
    {k k' : K}
    (v : V)
    (hKey : k ≠ k') :
    (m.set k v).get? k' = m.get? k' := by
  simp [get?_set, hKey]

@[simp] theorem getD_empty
    (k : K)
    (v : V) :
    (empty : OrderedMap K V).getD k v = v := rfl

theorem getD_set
    (k k' : K)
    (v v' : V) :
    (m.set k v).getD k' v' =
      if k = k' then v else m.getD k' v' := by
  unfold getD
  rw [get?_set]
  split <;> rfl

theorem mem_entries_iff
    {k : K}
    {v : V} :
    (k, v) ∈ m.entries ↔ m.get? k = some v := by
  rcases m with ⟨l, hNodup⟩
  unfold get?
  induction l with
  | nil => simp
  | cons entry rest ih =>
      rcases entry with ⟨k₀, v₀⟩
      rw [List.map_cons, List.nodup_cons] at hNodup
      by_cases hKey : k₀ = k
      · subst hKey
        have hFresh : (k₀, v) ∉ rest := by
          intro hMem
          exact hNodup.1
            (List.mem_map.mpr ⟨(k₀, v), hMem, rfl⟩)
        simp [hFresh, eq_comm]
      · have hKey' : ¬ k = k₀ := fun h => hKey h.symm
        simpa [hKey, hKey'] using ih hNodup.2

theorem mem_values_iff
    {v : V} :
    v ∈ m.values ↔ ∃ k, m.get? k = some v := by
  unfold values
  rw [List.mem_map]
  constructor
  · rintro ⟨⟨k, v'⟩, hEntry, rfl⟩
    exact ⟨k, (mem_entries_iff m).mp hEntry⟩
  · rintro ⟨k, hGet⟩
    exact ⟨(k, v), (mem_entries_iff m).mpr hGet, rfl⟩

end

----
-- Writing New Keys
----

section

variable {K V : Type} [DecidableEq K] (m : OrderedMap K V)

theorem has_iff
    {k : K} :
    m.has k = true ↔ k ∈ m.entries.map Prod.fst := by
  unfold has
  rw [Option.isSome_iff_exists]
  constructor
  · intro hSome
    rcases hSome with ⟨v, hGet⟩
    exact
      List.mem_map.mpr
        ⟨(k, v), (mem_entries_iff m).mpr hGet, rfl⟩
  · intro hIn
    rcases List.mem_map.mp hIn with ⟨⟨k', v⟩, hEntry, rfl⟩
    exact ⟨v, (mem_entries_iff m).mp hEntry⟩

theorem has_set
    (k : K)
    (v : V)
    (k' : K) :
    (m.set k v).has k' = true ↔ k = k' ∨ m.has k' = true := by
  unfold has
  rw [get?_set]
  by_cases hSame : k = k'
  · simp [hSame]
  · simp [hSame]

theorem has_setAll
    (l : List (K × V))
    {k : K} :
    (m.setAll l).has k = true ↔
      k ∈ l.map Prod.fst ∨ m.has k = true := by
  induction l generalizing m with
  | nil => simp [setAll]
  | cons e rest ih =>
      have hFirst :
          (m.set e.1 e.2).has k = true ↔
            k = e.1 ∨ m.has k = true := by
        unfold has
        rw [get?_set]
        split
        · next hKey => simp [hKey]
        · next hKey => simp [Ne.symm hKey]
      have hRest := ih (m.set e.1 e.2)
      rw [hFirst] at hRest
      rw [List.map_cons, List.mem_cons, or_assoc]
      exact hRest.trans or_left_comm

theorem upsert_of_get?_none
    {k : K}
    (v : V)
    (hNew : m.get? k = none) :
    upsert k v m.entries = m.entries ++ [(k, v)] := by
  have hKeys : k ∉ m.entries.map Prod.fst := by
    rw [← has_iff]
    simp [has, hNew]
  generalize m.entries = l at hKeys
  induction l with
  | nil => rfl
  | cons e rest ih =>
      rw [List.map_cons, List.mem_cons, not_or] at hKeys
      rw [upsert, if_neg (Ne.symm hKeys.1), ih hKeys.2]
      rfl

/- What is read does not depend on the order of insertion. -/
theorem get?_eq_of_perm
    {m m' : OrderedMap K V}
    (hPerm : m.entries.Perm m'.entries)
    (k : K) :
    m.get? k = m'.get? k := by
  apply Option.ext
  intro v
  rw [← mem_entries_iff, ← mem_entries_iff, hPerm.mem_iff]

/- New keys are added at the end, in their order. -/
theorem entries_setAll
    {l : List (K × V)}
    (hNodup : (l.map Prod.fst).Nodup)
    (hNew : ∀ e ∈ l, m.has e.1 = false) :
    (m.setAll l).entries = m.entries ++ l := by
  induction l generalizing m with
  | nil => simp [setAll]
  | cons e rest ih =>
      rw [List.map_cons, List.nodup_cons] at hNodup
      have hFirst : m.get? e.1 = none := by
        have hHas := hNew e (by simp)
        unfold has at hHas
        simpa using hHas
      have hSet : (m.set e.1 e.2).entries = m.entries ++ [e] :=
        upsert_of_get?_none m e.2 hFirst
      have hRest :
          ((m.set e.1 e.2).setAll rest).entries =
            (m.set e.1 e.2).entries ++ rest := by
        apply ih _ hNodup.2
        intro e' hIn
        have hOther : e.1 ≠ e'.1 := by
          intro hSame
          apply hNodup.1
          rw [hSame]
          exact List.mem_map_of_mem hIn
        unfold has
        rw [get?_set_of_ne _ _ hOther]
        exact hNew e' (List.mem_cons_of_mem _ hIn)
      rw [hSet, List.append_assoc] at hRest
      exact hRest

/- Totals carried under distinct keys are the rows' own. -/
theorem foldl_carry
    {ι : Type}
    (key : ι → K)
    (step : V → ι → V)
    (zero : V)
    {rows : List ι}
    (hNodup : (rows.map key).Nodup) :
    rows.foldl
        (fun m row =>
          m.set (key row) (step (m.getD (key row) zero) row))
        empty =
      empty.setAll
        (rows.map (fun row => (key row, step zero row))) := by
  induction rows using List.reverseRecOn with
  | nil => rfl
  | append_singleton rows row ih =>
      rw [List.map_append, List.nodup_append] at hNodup
      have hNew :
          (empty.setAll
              (rows.map (fun row => (key row, step zero row)))).getD
            (key row) zero = zero := by
        have hHas :
            ¬ (empty.setAll
                (rows.map
                  (fun row => (key row, step zero row)))).has
              (key row) = true := by
          rw [has_setAll]
          rintro (hIn | hIn)
          · rw [List.map_map] at hIn
            exact
              hNodup.2.2 (key row) hIn (key row) (by simp) rfl
          · exact absurd hIn (by simp [has])
        unfold has at hHas
        rw [Option.not_isSome_iff_eq_none] at hHas
        unfold getD
        rw [hHas]
        rfl
      rw [List.foldl_append, ih hNodup.1, List.map_append]
      unfold setAll at hNew ⊢
      rw [List.foldl_append]
      simp only [List.foldl_cons, List.foldl_nil, List.map_cons,
        List.map_nil]
      rw [hNew]

end

----
-- Sums Over Entries
----

section

variable {K V M : Type} [DecidableEq K] [AddCommGroup M]

/- What a key contributes to a sum over the entries. -/
def contribution
    (f : K → V → M)
    (m : OrderedMap K V)
    (k : K) : M :=
  match m.get? k with
  | none => 0
  | some v => f k v

theorem sum_entries_upsert
    (f : K → V → M)
    (k : K)
    (v : V)
    (l : List (K × V)) :
    ((upsert k v l).map (fun e => f e.1 e.2)).sum =
      (l.map (fun e => f e.1 e.2)).sum + f k v -
        ((l.find? (fun e => e.1 = k)).elim 0
          (fun e => f e.1 e.2)) := by
  induction l with
  | nil => simp [upsert]
  | cons entry rest ih =>
      rcases entry with ⟨k', v'⟩
      by_cases hKey : k' = k
      · subst hKey
        simp only [upsert, if_true, List.map_cons,
          List.sum_cons, List.find?_cons, decide_true,
          Option.elim]
        abel
      · simp only [upsert, if_neg hKey, List.map_cons,
          List.sum_cons, ih, List.find?_cons,
          decide_eq_false hKey]
        abel

/- A write replaces one key's share of the sum. -/
theorem sum_entries_set
    (f : K → V → M)
    (m : OrderedMap K V)
    (k : K)
    (v : V) :
    ((m.set k v).entries.map (fun e => f e.1 e.2)).sum =
      (m.entries.map (fun e => f e.1 e.2)).sum + f k v -
        contribution f m k := by
  have hSum := sum_entries_upsert f k v m.entries
  have hShare :
      (m.entries.find? (fun e => e.1 = k)).elim 0
          (fun e => f e.1 e.2) =
        contribution f m k := by
    unfold contribution get?
    cases hFind :
        m.entries.find? (fun e => decide (e.1 = k)) with
    | none => rfl
    | some e =>
        have hKey : e.1 = k := by
          simpa using List.find?_some hFind
        simp [hKey]
  rw [← hShare]
  exact hSum

/- A default that contributes nothing can stand for a hole. -/
theorem contribution_eq_getD
    (f : K → V → M)
    (m : OrderedMap K V)
    (k : K)
    {d : V}
    (hDefault : f k d = 0) :
    contribution f m k = f k (m.getD k d) := by
  unfold contribution getD
  cases m.get? k with
  | none => exact hDefault.symm
  | some v => rfl

/- Reading keys that cover a map reads all it holds. -/
theorem sum_getD_eq_sum_values
    (m : OrderedMap K M)
    {keys : List K}
    (hNodup : keys.Nodup)
    (hCover : ∀ k, m.has k = true → k ∈ keys) :
    (keys.map (fun k => m.getD k 0)).sum = m.values.sum := by
  have hValues :
      m.values =
        (m.entries.map Prod.fst).map (fun k => m.getD k 0) := by
    unfold values
    rw [List.map_map]
    apply List.map_congr_left
    rintro ⟨k, v⟩ hEntry
    rw [mem_entries_iff] at hEntry
    simp [getD, hEntry]
  rw [hValues, ← List.sum_toFinset _ hNodup,
    ← List.sum_toFinset _ m.nodup]
  symm
  apply Finset.sum_subset
  · intro k hIn
    rw [List.mem_toFinset] at hIn ⊢
    exact hCover k (m.has_iff.mpr hIn)
  · intro k _ hOut
    rw [List.mem_toFinset, ← has_iff] at hOut
    unfold getD
    unfold has at hOut
    rw [Option.not_isSome_iff_eq_none] at hOut
    rw [hOut]
    rfl

end

----
-- Indexed Lists
----

variable {K V : Type} [DecidableEq K] (key : V → K)

theorem indexBy_concat
    (l : List V)
    (v : V) :
    indexBy key (l ++ [v]) =
      (indexBy key l).set (key v) v := by
  simp [indexBy]

variable {l : List V}

theorem get?_indexBy
    {k : K}
    {v : V}
    (hGet : (indexBy key l).get? k = some v) :
    v ∈ l ∧ key v = k := by
  induction l using List.reverseRecOn with
  | nil => simp [indexBy] at hGet
  | append_singleton l x ih =>
      rw [indexBy_concat, get?_set] at hGet
      split at hGet
      · next hKey =>
          cases hGet
          exact ⟨by simp, hKey⟩
      · rcases ih hGet with ⟨hMem, hKey⟩
        exact ⟨List.mem_append_left _ hMem, hKey⟩

theorem isSome_get?_indexBy
    {v : V}
    (hMem : v ∈ l) :
    ((indexBy key l).get? (key v)).isSome = true := by
  induction l using List.reverseRecOn with
  | nil => simp at hMem
  | append_singleton l x ih =>
      rw [indexBy_concat, get?_set]
      split
      · rfl
      · next hKey =>
          rcases List.mem_append.mp hMem with hOld | hNew
          · exact ih hOld
          · rw [List.mem_singleton] at hNew
            exact absurd (hNew ▸ rfl) hKey

theorem mem_values_indexBy
    (hInj : ∀ v ∈ l, ∀ v' ∈ l, key v = key v' → v = v')
    {v : V} :
    v ∈ (indexBy key l).values ↔ v ∈ l := by
  unfold values
  constructor
  · intro hMem
    rcases List.mem_map.mp hMem with ⟨⟨k, v'⟩, hEntry, rfl⟩
    rw [mem_entries_iff] at hEntry
    exact (get?_indexBy key hEntry).1
  · intro hMem
    rcases Option.isSome_iff_exists.mp
        (isSome_get?_indexBy key hMem) with ⟨v', hGet⟩
    rcases get?_indexBy key hGet with ⟨hMem', hKey⟩
    have hSame := hInj v hMem v' hMem' hKey.symm
    subst hSame
    exact List.mem_map.mpr
      ⟨(key v, v), (mem_entries_iff _).mpr hGet, rfl⟩

theorem nodup_values_indexBy
    (l : List V) :
    (indexBy key l).values.Nodup := by
  apply List.Nodup.of_map key
  have hKeys :
      (indexBy key l).values.map key =
        (indexBy key l).entries.map Prod.fst := by
    unfold values
    rw [List.map_map]
    apply List.map_congr_left
    rintro ⟨k, v⟩ hEntry
    rw [mem_entries_iff] at hEntry
    exact (get?_indexBy key hEntry).2
  rw [hKeys]
  exact (indexBy key l).nodup

end OrderedMap
