import Callhouse.Lib.OrderedMap

/-
  Database tables with a primary key: rows that must be new,
  rows that must be there, and sums over a table.

  Main declarations:
    * `RowTable.insert`, `RowTable.require`
    * `RowTable.updateWhere`
    * `RowTable.insert_eq_ok`, `RowTable.require_eq_ok`
    * `RowTable.get?_updateWhere`
    * `RowTable.mapRows`, `RowTable.mapRows_set`
    * `RowTable.sumBy_insert`, `RowTable.sumBy_update`
-/

----
-- Inserting and Finding
----

namespace RowTable

section

variable {K V : Type} [DecidableEq K]
variable {table table' : OrderedMap K V}
variable {key : K} {row : V}

/- A second row under a key is refused. -/
def insert
    (table : OrderedMap K V)
    (key : K)
    (row : V) : Except String (OrderedMap K V) :=
  if table.has key then .error "UniqueConstraintError"
  else .ok (table.set key row)

def require
    (found : Option V)
    (message : String) : Except String V :=
  match found with
  | some row => .ok row
  | none => .error message

theorem insert_eq_ok :
    insert table key row = .ok table' ↔
      table.get? key = none ∧ table' = table.set key row := by
  unfold insert OrderedMap.has
  cases table.get? key with
  | none =>
      constructor
      · exact fun h => ⟨rfl, (Except.ok.inj h).symm⟩
      · exact fun h => congrArg Except.ok h.2.symm
  | some _ =>
      constructor
      · exact fun h => by cases h
      · exact fun h => by cases h.1

theorem require_eq_ok
    {found : Option V}
    {message : String} :
    require found message = .ok row ↔ found = some row := by
  cases found with
  | none =>
      constructor
      · exact fun h => by cases h
      · exact fun h => by cases h
  | some row' =>
      constructor
      · exact fun h => congrArg some (Except.ok.inj h)
      · exact fun h => congrArg Except.ok (Option.some.inj h)

theorem pure_eq_ok
    {α ε : Type}
    {a b : α} :
    (pure a : Except ε α) = .ok b ↔ b = a := by
  constructor
  · exact fun h => (Except.ok.inj h).symm
  · exact fun h => congrArg Except.ok h.symm

/- A row that was there keeps its place beside a new one. -/
theorem get?_set_of_get?
    {key' : K}
    {row' : V}
    (hNew : table.get? key = none)
    (h : table.get? key' = some row') :
    (table.set key row).get? key' = some row' := by
  have hOther : key ≠ key' := by
    rintro rfl
    rw [hNew] at h
    cases h
  rw [table.get?_set_of_ne row hOther, h]

end

----
-- Rewriting the Rows of a Query
----

section

variable {K V : Type}

/- Every row that the query selects, rewritten in its place. -/
def updateWhere
    (applies : V → Bool)
    (update : V → V)
    (table : OrderedMap K V) : OrderedMap K V :=
  { entries :=
      table.entries.map (fun entry =>
        (entry.1,
          if applies entry.2 then update entry.2 else entry.2))
    nodup := by
      rw [List.map_map]
      exact table.nodup }

variable [DecidableEq K]

theorem get?_updateWhere
    (applies : V → Bool)
    (update : V → V)
    (table : OrderedMap K V)
    (key : K) :
    (updateWhere applies update table).get? key =
      (table.get? key).map
        (fun row => if applies row then update row else row) := by
  rcases table with ⟨entries, hNodup⟩
  unfold updateWhere OrderedMap.get?
  dsimp only
  clear hNodup
  induction entries with
  | nil => rfl
  | cons entry rest ih =>
      rcases entry with ⟨key', row⟩
      by_cases hKey : key' = key
      · simp [hKey]
      · simpa [hKey] using ih

end

----
-- Some Columns of a Table
----

section

variable {K V W : Type}

def mapRows
    (f : V → W)
    (table : OrderedMap K V) : OrderedMap K W :=
  { entries :=
      table.entries.map (fun entry => (entry.1, f entry.2))
    nodup := by
      rw [List.map_map]
      exact table.nodup }

variable {table : OrderedMap K V}

theorem ext_entries
    {table' : OrderedMap K V}
    (h : table.entries = table'.entries) :
    table = table' := by
  cases table
  cases table'
  congr

/- What no rewriting touches, it leaves as it was. -/
theorem mapRows_updateWhere
    {f : V → W}
    {applies : V → Bool}
    {update : V → V}
    (h : ∀ row, f (update row) = f row) :
    mapRows f (updateWhere applies update table) =
      mapRows f table := by
  apply ext_entries
  unfold mapRows updateWhere
  dsimp only
  rw [List.map_map]
  apply List.map_congr_left
  intro entry _
  unfold Function.comp
  dsimp only
  split
  · rw [h]
  · rfl

variable [DecidableEq K]

theorem get?_mapRows
    (f : V → W)
    (table : OrderedMap K V)
    (key : K) :
    (mapRows f table).get? key = (table.get? key).map f := by
  unfold mapRows OrderedMap.get?
  dsimp only
  rw [List.find?_map, Option.map_map, Option.map_map]
  rfl

theorem mapRows_set
    (f : V → W)
    (table : OrderedMap K V)
    (key : K)
    (row : V) :
    mapRows f (table.set key row) =
      (mapRows f table).set key (f row) := by
  apply ext_entries
  rcases table with ⟨entries, hNodup⟩
  unfold mapRows OrderedMap.set
  dsimp only
  clear hNodup
  induction entries with
  | nil => rfl
  | cons entry rest ih =>
      unfold OrderedMap.upsert
      rw [List.map_cons]
      dsimp only
      split
      · rfl
      · rw [List.map_cons, ih]

/- A row written over itself. -/
theorem set_of_get?
    {key : K}
    {row : V}
    (h : table.get? key = some row) :
    table.set key row = table := by
  apply ext_entries
  rcases table with ⟨entries, hNodup⟩
  unfold OrderedMap.get? at h
  unfold OrderedMap.set
  dsimp only at h ⊢
  clear hNodup
  induction entries with
  | nil => cases h
  | cons entry rest ih =>
      unfold OrderedMap.upsert
      by_cases hKey : entry.1 = key
      · have hRow : entry.2 = row := by
          simpa [hKey] using h
        rw [if_pos hKey, ← hKey, ← hRow]
      · rw [if_neg hKey, ih (by simpa [hKey] using h)]

/- Columns that a write leaves as they were. -/
theorem mapRows_set_same
    {f : V → W}
    {key : K}
    {row row' : V}
    (h : table.get? key = some row)
    (hSame : f row' = f row) :
    mapRows f (table.set key row') = mapRows f table := by
  rw [mapRows_set, hSame]
  apply set_of_get?
  rw [get?_mapRows, h, Option.map_some]

end

----
-- Sums over a Table
----

variable {K V M : Type} [DecidableEq K] [AddCommGroup M]
variable {table : OrderedMap K V} {key : K}

def sumBy
    (f : V → M)
    (table : OrderedMap K V) : M :=
  (table.entries.map (fun entry => f entry.2)).sum

theorem sumBy_set
    (f : V → M)
    (row : V) :
    sumBy f (table.set key row) =
      sumBy f table + f row -
        OrderedMap.contribution (fun _ => f) table key :=
  OrderedMap.sum_entries_set (fun _ => f) table key row

theorem sumBy_insert
    (f : V → M)
    (row : V)
    (h : table.get? key = none) :
    sumBy f (table.set key row) = sumBy f table + f row := by
  rw [sumBy_set, OrderedMap.contribution, h, sub_zero]

theorem sumBy_update
    (f : V → M)
    (row : V)
    {row' : V}
    (h : table.get? key = some row') :
    sumBy f (table.set key row) =
      sumBy f table + f row - f row' := by
  rw [sumBy_set, OrderedMap.contribution, h]

theorem sumBy_eq_zero
    {f : V → M}
    (h : ∀ key row, table.get? key = some row → f row = 0) :
    sumBy f table = 0 := by
  apply List.sum_eq_zero
  intro share hShare
  rcases List.mem_map.mp hShare with ⟨⟨key, row⟩, hIn, rfl⟩
  exact h key row (table.mem_entries_iff.mp hIn)

theorem sumBy_congr
    {f g : V → M}
    (h : ∀ key row, table.get? key = some row → f row = g row) :
    sumBy f table = sumBy g table := by
  apply congrArg List.sum
  apply List.map_congr_left
  rintro ⟨key, row⟩ hIn
  exact h key row (table.mem_entries_iff.mp hIn)

omit [DecidableEq K] in
theorem sumBy_mapRows
    {W : Type}
    (f : W → M)
    (g : V → W)
    (table : OrderedMap K V) :
    sumBy f (mapRows g table) =
      sumBy (fun row => f (g row)) table := by
  unfold sumBy mapRows
  rw [List.map_map]
  rfl

end RowTable
