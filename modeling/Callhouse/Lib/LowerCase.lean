import Mathlib.Data.String.Basic
import Mathlib.Tactic

/-
  Text in lower case: what it is character by character, and
  that it stays as it is.

  Main declarations:
    * `LowerCase.toLower_eq`
    * `LowerCase.toLower_toLower`
-/

----
-- Lower Case
----

namespace LowerCase

theorem char_toLower_toLower
    (c : Char) :
    c.toLower.toLower = c.toLower := by
  unfold Char.toLower
  split
  · next hUpper =>
      split
      · next hAgain =>
          simp only [UInt32.le_iff_toNat_le, ge_iff_le,
            UInt32.toNat_add, UInt32.toNat_sub]
            at hUpper hAgain
          simp at hUpper hAgain
          omega
      · rfl
  · rfl

/- The form in which the lower case of a text is computed. -/
theorem toLower_eq
    (text : String) :
    text.toLower =
      String.ofList (text.toList.map Char.toLower) := by
  unfold String.toLower
  rw [← String.toList_map, String.ofList_toList]

theorem toLower_toLower
    (text : String) :
    text.toLower.toLower = text.toLower := by
  rw [toLower_eq text.toLower, toLower_eq text,
    String.toList_ofList, List.map_map]
  congr 2
  funext c
  exact char_toLower_toLower c

end LowerCase
