import Callhouse.Lib.OrderedMap

/-
  Taking entries out of a map that remembers insertion order:
  a key, those that a test turns down, and the oldest ones
  above a cap.

  Main declarations:
    * `OrderedMap.size`, `OrderedMap.size_set_le`
    * `OrderedMap.keep`, `OrderedMap.delete`
    * `OrderedMap.trim`
    * `OrderedMap.get?_delete_iff`
-/

----
-- Removal
----

namespace OrderedMap

section

variable {K V : Type} [DecidableEq K]

def size
    {K V : Type}
    (m : OrderedMap K V) : Nat :=
  m.entries.length

/- Any part of the entries, in their order. -/
def part
    {K V : Type}
    (m : OrderedMap K V)
    (entries : List (K × V))
    (h : entries.Sublist m.entries) : OrderedMap K V :=
  { entries := entries
    nodup := (h.map Prod.fst).nodup m.nodup }

def keep
    {K V : Type}
    (m : OrderedMap K V)
    (test : K → V → Bool) : OrderedMap K V :=
  m.part (m.entries.filter (fun entry => test entry.1 entry.2))
    List.filter_sublist

def delete
    (m : OrderedMap K V)
    (k : K) : OrderedMap K V :=
  m.keep (fun k' _ => decide (k' ≠ k))

/- The oldest entries go while there are more than the cap. -/
def trimEntries
    {α : Type}
    (cap : Nat) : List α → List α
  | [] => []
  | entry :: rest =>
      if cap < (entry :: rest).length then trimEntries cap rest
      else entry :: rest

theorem trimEntries_sublist
    {α : Type}
    (cap : Nat)
    (entries : List α) :
    (trimEntries cap entries).Sublist entries := by
  induction entries with
  | nil => exact List.Sublist.slnil
  | cons entry rest ih =>
      unfold trimEntries
      split
      · exact ih.cons entry
      · exact List.Sublist.refl _

theorem length_trimEntries
    {α : Type}
    (cap : Nat)
    (entries : List α) :
    (trimEntries cap entries).length ≤ cap := by
  induction entries with
  | nil => exact Nat.zero_le cap
  | cons entry rest ih =>
      unfold trimEntries
      split
      · exact ih
      · next hFits => exact not_lt.mp hFits

def trim
    {K V : Type}
    (m : OrderedMap K V)
    (cap : Nat) : OrderedMap K V :=
  m.part (trimEntries cap m.entries) (trimEntries_sublist cap _)

end

----
-- What Is Left
----

variable {K V : Type} [DecidableEq K] {m : OrderedMap K V}

theorem get?_of_part
    {entries : List (K × V)}
    {h : entries.Sublist m.entries}
    {k : K}
    {v : V}
    (hGet : (m.part entries h).get? k = some v) :
    m.get? k = some v :=
  m.mem_entries_iff.mp
    (h.subset ((m.part entries h).mem_entries_iff.mpr hGet))

theorem get?_keep_iff
    {test : K → V → Bool}
    {k : K}
    {v : V} :
    (m.keep test).get? k = some v ↔
      m.get? k = some v ∧ test k v = true := by
  rw [← mem_entries_iff, ← mem_entries_iff]
  exact List.mem_filter

theorem get?_delete_iff
    {k k' : K}
    {v : V} :
    (m.delete k).get? k' = some v ↔
      m.get? k' = some v ∧ k' ≠ k := by
  unfold delete
  rw [get?_keep_iff, decide_eq_true_iff]

theorem get?_of_trim
    {cap : Nat}
    {k : K}
    {v : V}
    (hGet : (m.trim cap).get? k = some v) :
    m.get? k = some v :=
  get?_of_part hGet

omit [DecidableEq K] in
theorem size_trim
    (m : OrderedMap K V)
    (cap : Nat) :
    (m.trim cap).size ≤ cap :=
  length_trimEntries cap m.entries

theorem size_delete_le
    (m : OrderedMap K V)
    (k : K) :
    (m.delete k).size ≤ m.size :=
  List.length_filter_le _ _

theorem size_set_le
    (m : OrderedMap K V)
    (k : K)
    (v : V) :
    (m.set k v).size ≤ m.size + 1 := by
  have hKeys := congrArg List.length (map_fst_upsert k v m.entries)
  rw [List.length_map] at hKeys
  unfold size set
  dsimp only
  rw [hKeys]
  split
  · rw [List.length_map]
    exact Nat.le_succ _
  · rw [List.length_append, List.length_map]
    exact le_refl _

end OrderedMap
