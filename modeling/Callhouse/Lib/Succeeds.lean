import Mathlib.Tactic

/-
  Programs that must not fail: what they return, with rules
  for their steps, their loops and runs cut into parts.

  Main declarations:
    * `Succeeds`
    * `Succeeds.bind`
    * `Succeeds.foldlM`
-/

----
-- Total Correctness
----

variable {ε α β ι : Type}

/- The program returns, and what it returns is as it should be. -/
def Succeeds
    (x : Except ε α)
    (post : α → Prop) : Prop :=
  ∃ a, x = .ok a ∧ post a

namespace Succeeds

theorem ok
    {a : α}
    {post : α → Prop}
    (h : post a) :
    Succeeds (.ok a : Except ε α) post :=
  ⟨a, rfl, h⟩

theorem mono
    {x : Except ε α}
    {post post' : α → Prop}
    (h : Succeeds x post)
    (hLess : ∀ a, post a → post' a) :
    Succeeds x post' := by
  rcases h with ⟨a, hRun, hPost⟩
  exact ⟨a, hRun, hLess a hPost⟩

theorem bind
    {x : Except ε α}
    {f : α → Except ε β}
    {mid : α → Prop}
    {post : β → Prop}
    (h : Succeeds x mid)
    (hNext : ∀ a, mid a → Succeeds (f a) post) :
    Succeeds (x >>= f) post := by
  rcases h with ⟨a, rfl, hMid⟩
  exact hNext a hMid

/- The invariant may speak of what is done and what is to come. -/
theorem foldlM
    {inv : List ι → α → Prop}
    {step : α → ι → Except ε α}
    {items : List ι}
    (hStep :
      ∀ front item back, items = front ++ item :: back →
        ∀ a, inv front a →
          Succeeds (step a item) (inv (front ++ [item])))
    {a : α}
    (h : inv [] a) :
    Succeeds (items.foldlM step a) (inv items) := by
  have hFrom :
      ∀ back front, items = front ++ back →
        ∀ a, inv front a →
          Succeeds (back.foldlM step a) (inv items) := by
    intro back
    induction back with
    | nil =>
        intro front hSplit a hInv
        rw [List.append_nil] at hSplit
        exact ok (hSplit ▸ hInv)
    | cons item rest ih =>
        intro front hSplit a hInv
        rw [List.foldlM_cons]
        apply (hStep front item rest hSplit a hInv).bind
        intro a' hInv'
        apply ih (front ++ [item]) _ a' hInv'
        rw [hSplit, List.append_assoc]
        rfl
  exact hFrom items [] rfl a h

end Succeeds
