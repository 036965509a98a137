import Mathlib.Data.List.Basic
import Mathlib.Data.List.Nodup

/-
  Tables with a primary key, as lists of rows: an insertion
  that a row of the same key turns into nothing, an update of
  the row of one key, and a map's set and delete.

  Main declarations:
    * `KeyedTable.insertOrIgnore`, `KeyedTable.insertAll`
    * `KeyedTable.updateAt`, `KeyedTable.filterMap_updateAt`
    * `KeyedTable.nodup_insertOrIgnore`
    * `KeyedTable.key_mem_insertAll`
    * `KeyedTable.mem_insertAll`
    * `KeyedTable.set`, `KeyedTable.delete`
    * `KeyedTable.key_mem_set_iff`
-/

----
-- Insert or Ignore
----

namespace KeyedTable

section

variable {α κ : Type} [DecidableEq κ]

def insertOrIgnore
    (key : α → κ)
    (table : List α)
    (row : α) : List α :=
  if key row ∈ table.map key then table
  else table ++ [row]

def insertAll
    (key : α → κ)
    (table : List α)
    (rows : List α) : List α :=
  rows.foldl (insertOrIgnore key) table

variable {key : α → κ} {table : List α}

variable {row : α}

theorem insertOrIgnore_of_mem
    (h : key row ∈ table.map key) :
    insertOrIgnore key table row = table :=
  if_pos h

theorem insertOrIgnore_of_not_mem
    (h : key row ∉ table.map key) :
    insertOrIgnore key table row = table ++ [row] :=
  if_neg h

theorem subset_insertOrIgnore
    (table : List α)
    (row : α) :
    table ⊆ insertOrIgnore key table row := by
  unfold insertOrIgnore
  split
  · exact List.Subset.refl _
  · exact List.subset_append_left _ _

theorem key_mem_insertOrIgnore
    (table : List α)
    (row : α) :
    key row ∈ (insertOrIgnore key table row).map key := by
  unfold insertOrIgnore
  split
  · assumption
  · simp

theorem key_mem_insertOrIgnore_iff
    {k : κ} :
    k ∈ (insertOrIgnore key table row).map key ↔
      k = key row ∨ k ∈ table.map key := by
  by_cases h : key row ∈ table.map key
  · rw [insertOrIgnore_of_mem h]
    constructor
    · exact Or.inr
    · rintro (rfl | hOld)
      · exact h
      · exact hOld
  · rw [insertOrIgnore_of_not_mem h, List.map_append,
      List.mem_append, List.map_singleton,
      List.mem_singleton]
    exact Or.comm

theorem mem_insertOrIgnore
    {x : α}
    (h : x ∈ insertOrIgnore key table row) :
    x ∈ table ∨ x = row := by
  unfold insertOrIgnore at h
  split at h
  · exact .inl h
  · simpa using h

/- The key stays a key. -/
theorem nodup_insertOrIgnore
    (h : (table.map key).Nodup)
    (row : α) :
    ((insertOrIgnore key table row).map key).Nodup := by
  unfold insertOrIgnore
  split
  · exact h
  · rename_i hNew
    rw [List.map_append, List.map_singleton,
      List.nodup_append]
    refine ⟨h, by simp, ?_⟩
    intro a ha b hb hSame
    rw [List.mem_singleton] at hb
    exact hNew (hb ▸ hSame ▸ ha)

theorem subset_insertAll
    (table rows : List α) :
    table ⊆ insertAll key table rows := by
  induction rows generalizing table with
  | nil => exact List.Subset.refl _
  | cons row rest ih =>
      exact
        List.Subset.trans (subset_insertOrIgnore table row)
          (ih (insertOrIgnore key table row))

/- Every row's key is in the table afterwards. -/
theorem key_mem_insertAll
    (table : List α)
    {rows : List α}
    (h : row ∈ rows) :
    key row ∈ (insertAll key table rows).map key := by
  induction rows generalizing table with
  | nil => cases h
  | cons first rest ih =>
      rcases List.mem_cons.mp h with rfl | hRest
      · exact List.map_subset key
          (subset_insertAll
            (insertOrIgnore key table row) rest)
          (key_mem_insertOrIgnore table row)
      · exact ih (insertOrIgnore key table first) hRest

theorem exists_of_insertAll_map
    {β : Type}
    (key : α → κ)
    (table : List α)
    (f : β → α)
    {rows : List β}
    {x : β}
    (h : x ∈ rows) :
    ∃ r ∈ insertAll key table (rows.map f),
      key r = key (f x) := by
  have hKey :=
    @key_mem_insertAll _ _ _ key _ table _
      (List.mem_map_of_mem (f := f) h)
  rcases List.mem_map.mp hKey with ⟨r, hr, hSame⟩
  exact ⟨r, hr, hSame⟩

/- Nothing is in it that was not there or inserted. -/
theorem mem_insertAll
    {rows : List α}
    {x : α}
    (h : x ∈ insertAll key table rows) :
    x ∈ table ∨ x ∈ rows := by
  induction rows generalizing table with
  | nil => exact .inl h
  | cons row rest ih =>
      rcases ih h with hTable | hRest
      · rcases mem_insertOrIgnore hTable with hOld | hNew
        · exact .inl hOld
        · rw [hNew]
          exact .inr (List.mem_cons_self ..)
      · exact .inr (List.mem_cons_of_mem _ hRest)

variable {β ι : Type} [DecidableEq ι]

/-
  A projection that keeps the key's information inserts or
  ignores alongside the table.
-/
theorem filterMap_insertOrIgnore
    {f : α → Option β}
    {sub : β → ι}
    {y : β}
    (hRow : f row = some y)
    (hKey :
      ∀ x z, f x = some z →
        (key x = key row ↔ sub z = sub y))
    (hOnly : ∀ x, key x = key row → f x ≠ none)
    (table : List α) :
    (insertOrIgnore key table row).filterMap f =
      insertOrIgnore sub (table.filterMap f) y := by
  have hMem :
      key row ∈ table.map key ↔
        sub y ∈ (table.filterMap f).map sub := by
    simp only [List.mem_map, List.mem_filterMap]
    constructor
    · rintro ⟨x, hx, hSame⟩
      rcases Option.ne_none_iff_exists'.mp
        (hOnly x hSame) with ⟨z, hz⟩
      exact ⟨z, ⟨x, hx, hz⟩, (hKey x z hz).mp hSame⟩
    · rintro ⟨z, ⟨x, hx, hz⟩, hSame⟩
      exact ⟨x, hx, (hKey x z hz).mpr hSame⟩
  by_cases h : key row ∈ table.map key
  · rw [insertOrIgnore_of_mem h,
      insertOrIgnore_of_mem (hMem.mp h)]
  · rw [insertOrIgnore_of_not_mem h,
      insertOrIgnore_of_not_mem
        (fun hOld => h (hMem.mpr hOld)),
      List.filterMap_append]
    simp [hRow]

theorem filterMap_insertOrIgnore_none
    {f : α → Option β}
    (hRow : f row = none)
    (table : List α) :
    (insertOrIgnore key table row).filterMap f =
      table.filterMap f := by
  unfold insertOrIgnore
  split
  · rfl
  · simp [hRow]

end

----
-- Update by Key
----

section

variable {α κ : Type} {key : α → κ} {table : List α} {r : α}

theorem eq_of_key_eq
    (hNodup : (table.map key).Nodup)
    {r' : α}
    (hr : r ∈ table)
    (hr' : r' ∈ table)
    (hKey : key r = key r') :
    r = r' :=
  List.inj_on_of_nodup_map hNodup hr hr' hKey

variable [DecidableEq κ]

def updateAt
    (key : α → κ)
    (k : κ)
    (g : α → α)
    (table : List α) : List α :=
  table.map (fun r => if key r = k then g r else r)

variable {k : κ} {g : α → α}

theorem map_key_updateAt
    (hKey : ∀ r, key (g r) = key r)
    (table : List α) :
    (updateAt key k g table).map key = table.map key := by
  unfold updateAt
  rw [List.map_map]
  apply List.map_congr_left
  intro r _
  simp only [Function.comp_apply]
  split
  · exact hKey r
  · rfl

theorem mem_updateAt_of_ne
    (hr : r ∈ table)
    (hKey : key r ≠ k)
    (g : α → α) :
    r ∈ updateAt key k g table :=
  List.mem_map.mpr ⟨r, hr, if_neg hKey⟩

/- A row of the updated table was there, or is the updated one. -/
theorem mem_updateAt
    {x : α}
    (hx : x ∈ updateAt key k g table) :
    x ∈ table ∧ key x ≠ k ∨
      ∃ r ∈ table, key r = k ∧ x = g r := by
  rcases List.mem_map.mp hx with ⟨r, hr, rfl⟩
  split
  · next hKey => exact Or.inr ⟨r, hr, hKey, rfl⟩
  · next hKey => exact Or.inl ⟨hr, hKey⟩

/-
  What an update does to a selection of the table: the selected
  value of the one row it changes comes in.
-/
theorem filterMap_updateAt
    {β : Type}
    {f : α → Option β}
    (hNodup : (table.map key).Nodup)
    (hr : r ∈ table)
    (hOld : f r = none) :
    ((updateAt key (key r) g table).filterMap f).Perm
      ((f (g r)).toList ++ table.filterMap f) := by
  induction table with
  | nil => cases hr
  | cons x rest ih =>
      rw [List.map_cons, List.nodup_cons] at hNodup
      unfold updateAt at ih ⊢
      rw [List.map_cons]
      rcases List.mem_cons.mp hr with rfl | hRest
      · have hSame :
            rest.map
                (fun y => if key y = key r then g y else y) =
              rest := by
          conv_rhs => rw [← List.map_id rest]
          apply List.map_congr_left
          intro y hy
          apply if_neg
          intro hKey
          apply hNodup.1
          rw [← hKey]
          exact List.mem_map_of_mem hy
        rw [if_pos rfl, hSame, List.filterMap_cons_none hOld]
        cases hNew : f (g r) with
        | none => rw [List.filterMap_cons_none hNew]; rfl
        | some y => rw [List.filterMap_cons_some hNew]; rfl
      · have hNe : key x ≠ key r := by
          intro hKey
          apply hNodup.1
          rw [hKey]
          exact List.mem_map_of_mem hRest
        rw [if_neg hNe]
        have hTail := ih hNodup.2 hRest
        cases hx : f x with
        | none =>
            rw [List.filterMap_cons_none hx,
              List.filterMap_cons_none hx]
            exact hTail
        | some y =>
            rw [List.filterMap_cons_some hx,
              List.filterMap_cons_some hx]
            exact (hTail.cons y).trans List.perm_middle.symm

end

----
-- Set and Delete
----

variable {α κ : Type} [DecidableEq κ]

/- A row of the same key is replaced where it stands. -/
def set
    (key : α → κ)
    (table : List α)
    (row : α) : List α :=
  if key row ∈ table.map key then
    updateAt key (key row) (fun _ => row) table
  else table ++ [row]

def delete
    (key : α → κ)
    (k : κ)
    (table : List α) : List α :=
  table.filter (fun r => decide (key r ≠ k))

variable {key : α → κ}

theorem key_mem_set_iff
    {table : List α}
    {row : α}
    {k : κ} :
    k ∈ (set key table row).map key ↔
      k = key row ∨ k ∈ table.map key := by
  unfold set
  split
  · next hThere =>
      have hSame :
          (updateAt key (key row) (fun _ => row) table).map key =
            table.map key := by
        unfold updateAt
        rw [List.map_map]
        apply List.map_congr_left
        intro r _
        simp only [Function.comp_apply]
        split
        · next hKey => exact hKey.symm
        · rfl
      rw [hSame]
      constructor
      · exact .inr
      · rintro (rfl | h)
        · exact hThere
        · exact h
  · rw [List.map_append, List.mem_append, List.map_singleton,
      List.mem_singleton, or_comm]

theorem key_mem_delete_iff
    {table : List α}
    {k k' : κ} :
    k' ∈ (delete key k table).map key ↔
      k' ∈ table.map key ∧ k' ≠ k := by
  unfold delete
  simp only [List.mem_map, List.mem_filter, decide_eq_true_eq]
  constructor
  · rintro ⟨r, ⟨hr, hNe⟩, rfl⟩
    exact ⟨⟨r, hr, rfl⟩, hNe⟩
  · rintro ⟨⟨r, hr, rfl⟩, hNe⟩
    exact ⟨r, ⟨hr, hNe⟩, rfl⟩

end KeyedTable
