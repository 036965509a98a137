import Callhouse.Lib.RowTable

/-
  Tables whose rows are written one at a time, each from its
  present version.

  Main declarations:
    * `RowHistory.write`, `RowHistory.get?_write`
-/

namespace RowHistory

variable {K V : Type} [DecidableEq K]

/- Find the row, then insert or update it. -/
def write
    (table : OrderedMap K V)
    (key : K)
    (next : Option V → V) : OrderedMap K V :=
  table.set key (next (table.get? key))

theorem get?_write
    (table : OrderedMap K V)
    (key key' : K)
    (next : Option V → V) :
    (write table key next).get? key' =
      if key = key' then some (next (table.get? key'))
      else table.get? key' := by
  unfold write
  rw [OrderedMap.get?_set]
  split
  · next hSame => rw [hSame]
  · rfl

end RowHistory
