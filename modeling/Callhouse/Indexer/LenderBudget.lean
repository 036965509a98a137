import Callhouse.Indexer.LenderEpoch
import Callhouse.Lib.ProportionalShare
import Callhouse.Lib.RankOrder

/-
  `allocate` pays out exactly its budget.

  The rounds that cut wallets to the cap leave an amount that
  the open ones can take, so the last round is reached with
  someone open, and its shares and dust are all that is left.
  Nothing of it depends on the order of the weights.

  Main declarations:
    * `capRounds`, `Pinning`
    * `capRounds_pinning`, `pinAll_eq`
    * `sum_draftOn`
    * `capRounds_perm`, `dustedRows_eq`
    * `allocate_pays_budget`
-/

----
-- Rounds of Cutting
----

namespace Callhouse.Indexer.LenderEpoch

section

open ProportionalShare

def weightFn
    (row : LenderWeight) : Int :=
  row.weight

/- The round the loop makes of what is pinned so far. -/
def roundOf
    (weights : List LenderWeight)
    (budget cap : Int)
    (pinned : OrderedMap Address Int) : Round :=
  capRound cap (remainingOf budget pinned)
    (weightOf (openOf weights pinned)) (openOf weights pinned)
    pinned

/- The wallets that are cut, round after round. -/
def capRounds
    (weights : List LenderWeight)
    (budget cap : Int)
    (pinned : OrderedMap Address Int) :
    OrderedMap Address Int :=
  if (roundOf weights budget cap pinned).capped = true then
    capRounds weights budget cap
      (roundOf weights budget cap pinned).pinned
  else pinned
termination_by (openOf weights pinned).length
decreasing_by exact openOf_capRound_lt ‹_›

variable {weights : List LenderWeight} {budget cap : Int}
variable {pinned : OrderedMap Address Int}

theorem capRounds_of_capped
    (hCapped :
      (roundOf weights budget cap pinned).capped = true) :
    capRounds weights budget cap pinned =
      capRounds weights budget cap
        (roundOf weights budget cap pinned).pinned := by
  rw [capRounds]
  exact if_pos hCapped

theorem capRounds_of_uncapped
    (hUncapped :
      (roundOf weights budget cap pinned).capped = false) :
    capRounds weights budget cap pinned = pinned := by
  rw [capRounds]
  exact if_neg (Bool.eq_false_iff.mp hUncapped)

/-
  Pinned wallets sit at the cap and outweigh the open ones,
  and the open ones can still take what is left.
-/
structure Pinning
    (weights : List LenderWeight)
    (budget cap : Int)
    (pinned : OrderedMap Address Int) : Prop where
  listed :
    ∀ k, pinned.has k = true →
      k ∈ weights.map (fun row => row.account)
  at_cap : ∀ e ∈ pinned.entries, e.2 = cap
  spendable :
    Spendable weightFn cap (remainingOf budget pinned)
      (openOf weights pinned)
  heavier :
    ∀ row ∈ weights, ∀ row' ∈ weights,
      pinned.has row.account = true →
      pinned.has row'.account = false →
      row'.weight < row.weight

theorem pinning_empty
    (hSome : weights ≠ [])
    (hWeights : ∀ row ∈ weights, 0 < row.weight)
    (hBudget : 0 ≤ budget)
    (hCap : 0 ≤ cap)
    (hEnough : budget ≤ cap * weights.length) :
    Pinning weights budget cap OrderedMap.empty := by
  have hOpen : openOf weights OrderedMap.empty = weights := by
    unfold openOf
    rw [List.filter_eq_self]
    intro row _
    rfl
  have hRemaining :
      remainingOf budget OrderedMap.empty = budget := by
    simp [remainingOf, OrderedMap.values, OrderedMap.empty]
  constructor
  · intro k hHas
    cases hHas
  · intro e hIn
    cases hIn
  · rw [hOpen, hRemaining]
    exact
      { cap_nonneg := hCap
        budget_nonneg := hBudget
        budget_le := hEnough
        some_member := hSome
        weight_pos := hWeights }
  · intro row _ row' _ hHas
    cases hHas

theorem mem_openOf_iff
    {row : LenderWeight} :
    row ∈ openOf weights pinned ↔
      row ∈ weights ∧ pinned.has row.account = false := by
  unfold openOf
  rw [List.mem_filter, Bool.not_eq_true']

theorem openOf_accounts_nodup
    (pinned : OrderedMap Address Int)
    (hDistinct : Distinct weights) :
    ((openOf weights pinned).map
      (fun row => row.account)).Nodup :=
  (List.filter_sublist.map _).nodup hDistinct

variable (weights budget cap pinned) in
/- The open wallets a round cuts. -/
def cutOf : List LenderWeight :=
  cut weightFn cap (remainingOf budget pinned)
    (openOf weights pinned)

variable (weights budget cap pinned) in
theorem roundOf_eq :
    roundOf weights budget cap pinned =
      { pinned :=
          pinned.setAll
            ((cutOf weights budget cap pinned).map
              (fun row => (row.account, cap)))
        capped :=
          (openOf weights pinned).any
            (fun row =>
              IsOver weightFn cap (remainingOf budget pinned)
                (total weightFn (openOf weights pinned))
                row) } :=
  capRound_eq _ _ _ _ _

variable {row : LenderWeight}

theorem mem_cutOf
    (hCut : row ∈ cutOf weights budget cap pinned) :
    row ∈ openOf weights pinned :=
  (List.mem_filter.mp hCut).1

/- A cut wallet is known by its account. -/
theorem account_mem_cutOf_iff
    (budget cap : Int)
    (hDistinct : Distinct weights)
    (hOpen : row ∈ openOf weights pinned) :
    row.account ∈
        (cutOf weights budget cap pinned).map
          (fun row => row.account) ↔
      row ∈ cutOf weights budget cap pinned := by
  have hNodup := openOf_accounts_nodup pinned hDistinct
  constructor
  · intro hAccount
    rcases List.mem_map.mp hAccount with
      ⟨row', hCut, hSame⟩
    have hEq :=
      List.inj_on_of_nodup_map hNodup (mem_cutOf hCut) hOpen
        hSame
    rw [hEq] at hCut
    exact hCut
  · intro hCut
    exact List.mem_map_of_mem hCut

section

variable
  (hDistinct : Distinct weights)
include hDistinct

/- After a round, the open wallets are the kept ones. -/
theorem openOf_roundOf :
    openOf weights
        (roundOf weights budget cap pinned).pinned =
      kept weightFn cap (remainingOf budget pinned)
        (openOf weights pinned) := by
  rw [roundOf_eq, openOf_setAll, List.map_map]
  unfold kept
  apply List.filter_congr
  intro row hOpen
  have hCut := account_mem_cutOf_iff budget cap hDistinct hOpen
  have hIff :
      row.account ∉
          (cutOf weights budget cap pinned).map
            (fun row => row.account) ↔
        ¬ IsOver weightFn cap (remainingOf budget pinned)
          (total weightFn (openOf weights pinned)) row := by
    rw [not_iff_not, hCut]
    unfold cutOf cut
    rw [List.mem_filter, decide_eq_true_eq]
    exact and_iff_right hOpen
  exact decide_eq_decide.mpr hIff

/- A round adds its cut entries after the ones before. -/
theorem entries_roundOf :
    (roundOf weights budget cap pinned).pinned.entries =
      pinned.entries ++
        (cutOf weights budget cap pinned).map
          (fun row => (row.account, cap)) := by
  rw [roundOf_eq]
  apply OrderedMap.entries_setAll
  · rw [List.map_map]
    exact
      (List.filter_sublist.map _).nodup
        (openOf_accounts_nodup pinned hDistinct)
  · intro e hEntry
    rcases List.mem_map.mp hEntry with ⟨row, hCut, hEq⟩
    rw [← hEq]
    exact (mem_openOf_iff.mp (mem_cutOf hCut)).2

theorem remainingOf_roundOf :
    remainingOf budget
        (roundOf weights budget cap pinned).pinned =
      remainingOf budget pinned -
        cap * (cutOf weights budget cap pinned).length := by
  have hCaps :
      (((cutOf weights budget cap pinned).map
          (fun row => (row.account, cap))).map Prod.snd).sum =
        cap * (cutOf weights budget cap pinned).length := by
    rw [List.map_map]
    simp [Function.comp_def, mul_comm]
  unfold remainingOf OrderedMap.values
  rw [entries_roundOf hDistinct, List.map_append,
    List.sum_append, hCaps]
  omega

theorem has_roundOf
    (hIn : row ∈ weights) :
    (roundOf weights budget cap pinned).pinned.has
        row.account =
      true ↔
      pinned.has row.account = true ∨
        row ∈ cutOf weights budget cap pinned := by
  rw [roundOf_eq, OrderedMap.has_setAll, List.map_map]
  cases hHas : pinned.has row.account with
  | true => simp
  | false =>
      have hOpen : row ∈ openOf weights pinned :=
        mem_openOf_iff.mpr ⟨hIn, hHas⟩
      have hCut :=
        account_mem_cutOf_iff budget cap hDistinct hOpen
      rw [or_comm]
      exact or_congr Iff.rfl hCut

end

theorem Pinning.roundOf
    (h : Pinning weights budget cap pinned)
    (hDistinct : Distinct weights) :
    Pinning weights budget cap
      (roundOf weights budget cap pinned).pinned := by
  constructor
  · intro k hHas
    rw [OrderedMap.has_iff, entries_roundOf hDistinct,
      List.map_append, List.mem_append] at hHas
    rcases hHas with hOld | hNew
    · exact h.listed k (pinned.has_iff.mpr hOld)
    · rw [List.map_map] at hNew
      rcases List.mem_map.mp hNew with ⟨row, hCut, hEq⟩
      rw [← hEq]
      exact
        List.mem_map_of_mem
          (mem_openOf_iff.mp (mem_cutOf hCut)).1
  · intro e hEntry
    rw [entries_roundOf hDistinct, List.mem_append] at hEntry
    rcases hEntry with hOld | hNew
    · exact h.at_cap e hOld
    · rcases List.mem_map.mp hNew with ⟨row, _, hEq⟩
      rw [← hEq]
  · rw [openOf_roundOf hDistinct,
      remainingOf_roundOf hDistinct]
    exact h.spendable.after_cut
  · intro row hIn row' hIn' hPinned hOpen
    have hOpen' :
        row' ∈ openOf weights
          (LenderEpoch.roundOf weights budget cap
            pinned).pinned :=
      mem_openOf_iff.mpr ⟨hIn', hOpen⟩
    rw [openOf_roundOf hDistinct] at hOpen'
    have hBefore :=
      (mem_openOf_iff.mp (List.mem_filter.mp hOpen').1).2
    rcases (has_roundOf hDistinct hIn).mp hPinned with
      hOld | hCut
    · exact h.heavier row hIn row' hIn' hOld hBefore
    · exact h.spendable.weight_lt hCut hOpen'

/- The rounds keep the invariant, and end when none is cut. -/
theorem capRounds_pinning
    (h : Pinning weights budget cap pinned)
    (hDistinct : Distinct weights) :
    Pinning weights budget cap
        (capRounds weights budget cap pinned) ∧
      (roundOf weights budget cap
        (capRounds weights budget cap pinned)).capped =
          false := by
  induction pinned using
    capRounds.induct weights budget cap with
  | case1 pinned hCapped ih =>
      rw [capRounds_of_capped hCapped]
      exact ih (h.roundOf hDistinct)
  | case2 pinned hCapped =>
      have hUncapped := Bool.eq_false_iff.mpr hCapped
      rw [capRounds_of_uncapped hUncapped]
      exact ⟨h, hUncapped⟩

/- A round that cuts nobody pins nobody. -/
theorem roundOf_uncapped
    (hUncapped :
      (roundOf weights budget cap pinned).capped = false) :
    (roundOf weights budget cap pinned).pinned = pinned := by
  rw [roundOf_eq] at hUncapped ⊢
  have hNone : cutOf weights budget cap pinned = [] := by
    unfold cutOf cut
    rw [List.filter_eq_nil_iff]
    exact List.any_eq_false.mp hUncapped
  rw [hNone]
  rfl

variable (weights budget pinned) in
/- The round that pays shares and dust to the open wallets. -/
def draftOn : OrderedMap Address Int :=
  pinDraft (remainingOf budget pinned)
    (weightOf (openOf weights pinned)) (openOf weights pinned)
    pinned

/- The loop is its cutting rounds, and then one draft. -/
theorem pinAll_eq
    (h : Pinning weights budget cap pinned)
    (hDistinct : Distinct weights) :
    pinAll weights budget cap pinned =
      draftOn weights budget
        (capRounds weights budget cap pinned) := by
  have hGoOn :
      ¬ ((openOf weights pinned).length = 0 ∨
        weightOf (openOf weights pinned) = 0) := by
    rw [List.length_eq_zero_iff, not_or]
    exact ⟨h.spendable.some_member, h.spendable.total_pos.ne'⟩
  induction pinned using
    capRounds.induct weights budget cap with
  | case1 pinned hCapped ih =>
      have hNext := h.roundOf hDistinct
      rw [capRounds_of_capped hCapped, pinAll, if_neg hGoOn]
      rw [← ih hNext]
      · exact if_pos hCapped
      · rw [List.length_eq_zero_iff, not_or]
        exact
          ⟨hNext.spendable.some_member,
            hNext.spendable.total_pos.ne'⟩
  | case2 pinned hCapped =>
      have hUncapped := Bool.eq_false_iff.mpr hCapped
      have hSame := roundOf_uncapped hUncapped
      rw [capRounds_of_uncapped hUncapped, pinAll,
        if_neg hGoOn]
      change
        (if (roundOf weights budget cap pinned).capped = true
          then _
          else
            pinDraft (remainingOf budget pinned)
              (weightOf (openOf weights pinned))
              (openOf weights pinned)
              (roundOf weights budget cap pinned).pinned) = _
      rw [if_neg hCapped]
      unfold draftOn
      congr 1

end

----
-- The Draft
----

section

open ProportionalShare

theorem spreadDust_accounts
    (left : Int)
    (rows : List DraftRow) :
    (spreadDust left rows).map (fun row => row.account) =
      rows.map (fun row => row.account) := by
  induction rows generalizing left with
  | nil => rfl
  | cons row rest ih =>
      rw [spreadDust]
      split
      · rfl
      · rw [List.map_cons, List.map_cons, ih]

theorem spreadDust_amount_nonneg
    (left : Int)
    {rows : List DraftRow}
    (hRows : ∀ row ∈ rows, 0 ≤ row.amount) :
    ∀ row ∈ spreadDust left rows, 0 ≤ row.amount := by
  induction rows generalizing left with
  | nil => exact hRows
  | cons first rest ih =>
      rw [spreadDust]
      split
      · exact hRows
      · intro row hIn
        rcases List.mem_cons.mp hIn with hEq | hRest
        · have hFirst := hRows first (by simp)
          rw [hEq]
          simp only
          omega
        · apply ih (left - 1) _ row hRest
          intro row' hIn'
          exact hRows row' (List.mem_cons_of_mem _ hIn')

/- Dust for no more rows than there are is given out whole. -/
theorem sum_spreadDust
    {left : Int}
    {rows : List DraftRow}
    (hNonneg : 0 ≤ left)
    (hEnough : left ≤ rows.length) :
    ((spreadDust left rows).map (fun row => row.amount)).sum =
      (rows.map (fun row => row.amount)).sum + left := by
  induction rows generalizing left with
  | nil =>
      rw [List.length_nil] at hEnough
      have hZero : left = 0 := by omega
      simp [spreadDust, hZero]
  | cons row rest ih =>
      rw [spreadDust]
      split
      · next hZero => rw [hZero, add_zero]
      · next hSome =>
          rw [List.length_cons] at hEnough
          push_cast at hEnough
          rw [List.map_cons, List.map_cons, List.sum_cons,
            List.sum_cons,
            ih (by omega) (by omega)]
          simp only
          omega

variable {weights : List LenderWeight} {budget cap : Int}
variable {pinned : OrderedMap Address Int}
variable (weights budget pinned) in
def draftOfOpen : List DraftRow :=
  (openOf weights pinned).map
    (draftOf (remainingOf budget pinned)
      (weightOf (openOf weights pinned)))

variable (weights budget pinned) in
/- The rows of the last round, the dust spread over them. -/
def dustedRows : List DraftRow :=
  spreadDust
    (leftover weightFn (remainingOf budget pinned)
      (openOf weights pinned))
    ((draftOfOpen weights budget pinned).insertionSort
      DustOrder)

variable (weights budget pinned) in
theorem draftOn_eq :
    draftOn weights budget pinned =
      pinned.setAll
        ((dustedRows weights budget pinned).map
          (fun row => (row.account, row.amount))) := by
  unfold draftOn pinDraft dustedRows draftOfOpen leftover
  simp only [List.map_map]
  rfl

variable (weights budget pinned) in
theorem draftOfOpen_accounts :
    (draftOfOpen weights budget pinned).map
        (fun row => row.account) =
      (openOf weights pinned).map
        (fun row => row.account) := by
  unfold draftOfOpen
  rw [List.map_map]
  rfl

variable (weights budget pinned) in
theorem dustedRows_accounts_perm :
    ((dustedRows weights budget pinned).map
        (fun row => row.account)).Perm
      ((openOf weights pinned).map
        (fun row => row.account)) := by
  unfold dustedRows
  rw [spreadDust_accounts,
    ← draftOfOpen_accounts weights budget pinned]
  exact (List.perm_insertionSort _ _).map _

theorem entries_draftOn
    (hDistinct : Distinct weights) :
    (draftOn weights budget pinned).entries =
      pinned.entries ++
        (dustedRows weights budget pinned).map
          (fun row => (row.account, row.amount)) := by
  have hPerm := dustedRows_accounts_perm weights budget pinned
  rw [draftOn_eq]
  apply OrderedMap.entries_setAll
  · rw [List.map_map]
    exact
      hPerm.nodup_iff.mpr
        (openOf_accounts_nodup pinned hDistinct)
  · intro e hEntry
    rcases List.mem_map.mp hEntry with ⟨row, hIn, hEq⟩
    rw [← hEq]
    have hAccount : row.account ∈
        (openOf weights pinned).map (fun row => row.account) :=
      hPerm.mem_iff.mp (List.mem_map_of_mem hIn)
    rcases List.mem_map.mp hAccount with ⟨row', hOpen, hSame⟩
    rw [← hSame]
    exact (mem_openOf_iff.mp hOpen).2

section

variable (h : Pinning weights budget cap pinned)
include h

/- The last round pays out all that is left. -/
theorem sum_dustedRows :
    ((dustedRows weights budget pinned).map
        (fun row => row.amount)).sum =
      remainingOf budget pinned := by
  have hSpend := h.spendable
  have hNonneg :=
    leftover_nonneg hSpend.budget_nonneg hSpend.total_pos
      hSpend.weight_nonneg
  have hLess :=
    leftover_lt_length hSpend.budget_nonneg hSpend.total_pos
      hSpend.weight_nonneg
  have hPerm :=
    List.perm_insertionSort DustOrder
      (draftOfOpen weights budget pinned)
  have hLength :
      ((draftOfOpen weights budget pinned).insertionSort
          DustOrder).length =
        (openOf weights pinned).length := by
    rw [hPerm.length_eq]
    unfold draftOfOpen
    rw [List.length_map]
  unfold dustedRows
  rw [sum_spreadDust hNonneg (by omega),
    (hPerm.map (fun row => row.amount)).sum_eq]
  unfold draftOfOpen leftover
  rw [List.map_map]
  exact add_sub_cancel _ _

theorem dustedRows_amount_nonneg :
    ∀ row ∈ dustedRows weights budget pinned,
      0 ≤ row.amount := by
  apply spreadDust_amount_nonneg
  intro row hIn
  rw [List.mem_insertionSort] at hIn
  rcases List.mem_map.mp hIn with ⟨source, hOpen, hEq⟩
  rw [← hEq]
  exact
    share_nonneg h.spendable.budget_nonneg
      h.spendable.total_pos
      (h.spendable.weight_nonneg source hOpen)

section

variable (hDistinct : Distinct weights)
include hDistinct

/- All that is pinned in the end adds up to the budget. -/
theorem sum_draftOn :
    (draftOn weights budget pinned).values.sum = budget := by
  have hRows := sum_dustedRows h
  unfold OrderedMap.values
  rw [entries_draftOn hDistinct, List.map_append,
    List.sum_append, List.map_map]
  change _ + ((dustedRows weights budget pinned).map
    (fun row => row.amount)).sum = _
  rw [hRows]
  unfold remainingOf OrderedMap.values
  omega

theorem draftOn_nonneg :
    ∀ e ∈ (draftOn weights budget pinned).entries,
      0 ≤ e.2 := by
  intro e hEntry
  rw [entries_draftOn hDistinct, List.mem_append] at hEntry
  rcases hEntry with hOld | hNew
  · rw [h.at_cap e hOld]
    exact h.spendable.cap_nonneg
  · rcases List.mem_map.mp hNew with ⟨row, hIn, hEq⟩
    rw [← hEq]
    exact dustedRows_amount_nonneg h row hIn

theorem draftOn_listed :
    ∀ k, (draftOn weights budget pinned).has k = true →
      k ∈ weights.map (fun row => row.account) := by
  intro k hHas
  rw [OrderedMap.has_iff, entries_draftOn hDistinct,
    List.map_append, List.mem_append, List.map_map] at hHas
  rcases hHas with hOld | hNew
  · exact h.listed k (pinned.has_iff.mpr hOld)
  · have hOpen :=
      (dustedRows_accounts_perm weights budget
        pinned).mem_iff.mp hNew
    exact (List.filter_sublist.map _).subset hOpen

/- A capped wallet is paid the cap itself. -/
theorem get?_draftOn_of_pinned
    {k : Address}
    (hHas : pinned.has k = true) :
    (draftOn weights budget pinned).get? k = some cap := by
  rw [← OrderedMap.mem_entries_iff, entries_draftOn hDistinct,
    List.mem_append]
  left
  rw [OrderedMap.has_iff] at hHas
  rcases List.mem_map.mp hHas with ⟨⟨k', v⟩, hEntry, rfl⟩
  have hValue := h.at_cap _ hEntry
  simp only at hValue
  rw [← hValue]
  exact hEntry

end

end

end

----
-- Order of the Weights
----

section

open ProportionalShare

variable {weights weights' : List LenderWeight} {budget cap : Int}
variable {pinned pinned' : OrderedMap Address Int}

theorem has_eq_of_perm
    (hPinned : pinned'.entries.Perm pinned.entries)
    (k : Address) :
    pinned'.has k = pinned.has k := by
  unfold OrderedMap.has
  rw [OrderedMap.get?_eq_of_perm hPinned]

theorem openOf_perm
    (hWeights : weights'.Perm weights)
    (hPinned : pinned'.entries.Perm pinned.entries) :
    (openOf weights' pinned').Perm
      (openOf weights pinned) := by
  unfold openOf
  rw [List.filter_congr (fun row _ => by
    rw [has_eq_of_perm hPinned row.account])]
  exact hWeights.filter _

theorem remainingOf_perm
    (budget : Int)
    (hPinned : pinned'.entries.Perm pinned.entries) :
    remainingOf budget pinned' = remainingOf budget pinned := by
  unfold remainingOf OrderedMap.values
  rw [(hPinned.map Prod.snd).sum_eq]

theorem weightOf_perm
    {opened opened' : List LenderWeight}
    (hOpened : opened'.Perm opened) :
    weightOf opened' = weightOf opened := by
  unfold weightOf
  rw [(hOpened.map _).sum_eq]

/- A round does the same in any order of the weights. -/
theorem roundOf_perm
    (budget cap : Int)
    (hDistinct : Distinct weights)
    (hWeights : weights'.Perm weights)
    (hPinned : pinned'.entries.Perm pinned.entries) :
    (roundOf weights' budget cap pinned').pinned.entries.Perm
        (roundOf weights budget cap pinned).pinned.entries ∧
      (roundOf weights' budget cap pinned').capped =
        (roundOf weights budget cap pinned).capped := by
  have hDistinct' : Distinct weights' :=
    (hWeights.map _).nodup_iff.mpr hDistinct
  have hOpen := openOf_perm hWeights hPinned
  have hRemaining := remainingOf_perm budget hPinned
  have hTotal :
      total weightFn (openOf weights' pinned') =
        total weightFn (openOf weights pinned) :=
    weightOf_perm hOpen
  have hCut :
      (cutOf weights' budget cap pinned').Perm
        (cutOf weights budget cap pinned) := by
    unfold cutOf cut
    rw [hRemaining, hTotal]
    exact hOpen.filter _
  constructor
  · rw [entries_roundOf hDistinct, entries_roundOf hDistinct']
    exact hPinned.append (hCut.map _)
  · rw [roundOf_eq, roundOf_eq, hRemaining, hTotal]
    exact hOpen.any_eq

theorem capRounds_perm
    (hDistinct : Distinct weights)
    (hWeights : weights'.Perm weights)
    (hPinned : pinned'.entries.Perm pinned.entries) :
    (capRounds weights' budget cap pinned').entries.Perm
      (capRounds weights budget cap pinned).entries := by
  induction pinned using
    capRounds.induct weights budget cap generalizing
      pinned' with
  | case1 pinned hCapped ih =>
      rcases
        roundOf_perm budget cap hDistinct hWeights hPinned with
        ⟨hEntries, hSame⟩
      rw [capRounds_of_capped hCapped,
        capRounds_of_capped (hSame.trans hCapped)]
      exact ih hEntries
  | case2 pinned hCapped =>
      have hUncapped := Bool.eq_false_iff.mpr hCapped
      rcases
        roundOf_perm budget cap hDistinct hWeights hPinned with
        ⟨hEntries, hSame⟩
      rw [capRounds_of_uncapped hUncapped,
        capRounds_of_uncapped (hSame.trans hUncapped)]
      exact hPinned

/- The dust falls on the same rows in any order. -/
theorem dustedRows_eq
    (hDistinct : Distinct weights)
    (hWeights : weights'.Perm weights)
    (hPinned : pinned'.entries.Perm pinned.entries) :
    dustedRows weights' budget pinned' =
      dustedRows weights budget pinned := by
  have hOpen := openOf_perm hWeights hPinned
  have hRemaining := remainingOf_perm budget hPinned
  have hDraft :
      (draftOfOpen weights' budget pinned').Perm
        (draftOfOpen weights budget pinned) := by
    unfold draftOfOpen
    rw [hRemaining, weightOf_perm hOpen]
    exact hOpen.map _
  have hLeft :
      leftover weightFn (remainingOf budget pinned')
          (openOf weights' pinned') =
        leftover weightFn (remainingOf budget pinned)
          (openOf weights pinned) := by
    have hTotal :
        total weightFn (openOf weights' pinned') =
          total weightFn (openOf weights pinned) :=
      weightOf_perm hOpen
    unfold leftover
    rw [hRemaining, hTotal, (hOpen.map _).sum_eq]
  have hAccounts :
      ((draftOfOpen weights budget pinned).map
        (fun row => row.account)).Nodup := by
    rw [draftOfOpen_accounts]
    exact openOf_accounts_nodup pinned hDistinct
  unfold dustedRows
  rw [hLeft]
  congr 1
  exact
    RankOrder.insertionSort_eq_of_perm
      (fun row => row.remainder) (fun row => row.account)
      (fun _ _ => Iff.rfl) hAccounts hDraft

theorem draftOn_perm
    (budget : Int)
    (hDistinct : Distinct weights)
    (hWeights : weights'.Perm weights)
    (hPinned : pinned'.entries.Perm pinned.entries) :
    (draftOn weights' budget pinned').entries.Perm
      (draftOn weights budget pinned).entries := by
  have hDistinct' : Distinct weights' :=
    (hWeights.map _).nodup_iff.mpr hDistinct
  rw [entries_draftOn hDistinct, entries_draftOn hDistinct',
    dustedRows_eq hDistinct hWeights hPinned]
  exact hPinned.append_right _

theorem payoutsOf_perm
    (hWeights : weights'.Perm weights)
    (hPinned : pinned'.entries.Perm pinned.entries) :
    (payoutsOf weights' pinned').Perm
      (payoutsOf weights pinned) := by
  unfold payoutsOf OrderedMap.getD
  simp only [OrderedMap.get?_eq_of_perm hPinned]
  exact (hWeights.map _).filter _

end

----
-- The Budget Is Paid
----

open ProportionalShare

def Allocation.payout
    (row : Allocation) : Payout :=
  { account := row.account
    amount := row.amount }

theorem payouts_indexed
    (payouts : List Payout) :
    (indexed payouts).map Allocation.payout = payouts := by
  unfold indexed
  rw [List.map_map]
  exact List.zipIdx_map_fst 0 payouts

theorem sum_indexed
    (payouts : List Payout) :
    ((indexed payouts).map (fun row => row.amount)).sum =
      (payouts.map (fun row => row.amount)).sum := by
  have hAmounts :
      (indexed payouts).map (fun row => row.amount) =
        ((indexed payouts).map Allocation.payout).map
          (fun row => row.amount) := by
    rw [List.map_map]
    rfl
  rw [hAmounts, payouts_indexed]

/- Dropping what is not positive drops nothing from a sum. -/
theorem sum_filter_pos
    {payouts : List Payout}
    (hNonneg : ∀ row ∈ payouts, 0 ≤ row.amount) :
    ((payouts.filter (fun row => row.amount > 0)).map
        (fun row => row.amount)).sum =
      (payouts.map (fun row => row.amount)).sum := by
  induction payouts with
  | nil => rfl
  | cons row rest ih =>
      have hHead := hNonneg row (by simp)
      have hRest :=
        ih (fun r hr => hNonneg r (List.mem_cons_of_mem _ hr))
      by_cases hPos : row.amount > 0
      · rw [List.filter_cons_of_pos (by simpa using hPos),
          List.map_cons, List.map_cons, List.sum_cons,
          List.sum_cons, hRest]
      · rw [List.filter_cons_of_neg (by simpa using hPos),
          List.map_cons, List.sum_cons, hRest]
        omega

variable {pinned : OrderedMap Address Int}

theorem sum_payoutsOf
    {weights : List LenderWeight}
    (hDistinct : Distinct weights)
    (hListed :
      ∀ k, pinned.has k = true →
        k ∈ weights.map (fun row => row.account))
    (hNonneg : ∀ e ∈ pinned.entries, 0 ≤ e.2) :
    ((payoutsOf weights pinned).map
        (fun row => row.amount)).sum =
      pinned.values.sum := by
  unfold payoutsOf
  rw [sum_filter_pos]
  · rw [List.map_map,
      ← OrderedMap.sum_getD_eq_sum_values pinned hDistinct
        hListed, List.map_map]
    rfl
  · intro payout hIn
    rcases List.mem_map.mp hIn with ⟨row, _, hEq⟩
    rw [← hEq]
    unfold OrderedMap.getD
    cases hGet : pinned.get? row.account with
    | none => exact le_refl 0
    | some v =>
        exact hNonneg _ ((pinned.mem_entries_iff).mpr hGet)

/- What `allocate` returns when its own check passes. -/
theorem allocate_eq
    {weights : List LenderWeight}
    {budget capBps : Int}
    (hSome : weights ≠ [])
    (hCap : 0 < capOf budget capBps)
    (hEnough :
      budget ≤ capOf budget capBps * weights.length)
    (hPinned :
      pinAll weights budget (capOf budget capBps)
        OrderedMap.empty = pinned)
    (hSum :
      ((payoutsOf weights pinned).map
        (fun row => row.amount)).sum = budget) :
    allocate weights budget capBps =
      .ok (indexed (payoutsOf weights pinned)) := by
  have hLength : ¬ weights.length = 0 := by
    rw [List.length_eq_zero_iff]
    exact hSome
  unfold allocate
  rw [if_neg hLength]
  simp only
  rw [if_neg hCap.ne', if_neg (not_lt.mpr hEnough), hPinned,
    sum_indexed, hSum]
  simp

/-
  Positive amounts that add up to the budget, whatever the
  order of the weights; a wallet that a round has cut to the
  cap is paid the cap, and outweighs every wallet that none
  has.
-/
theorem allocate_pays_budget
    (weights : List LenderWeight)
    (budget capBps : Int)
    (hSome : weights ≠ [])
    (hDistinct :
      (weights.map (fun row => row.account)).Nodup)
    (hWeights : ∀ row ∈ weights, 0 < row.weight)
    (hBudget : 0 < budget)
    (hCap : 0 < capOf budget capBps)
    (hEnough :
      budget ≤ capOf budget capBps * weights.length) :
    ∃ allocated,
      allocate weights budget capBps = .ok allocated ∧
      (∀ row ∈ allocated, 0 < row.amount) ∧
      (allocated.map (fun row => row.amount)).sum = budget ∧
      (∀ weights', weights'.Perm weights →
        ∃ allocated',
          allocate weights' budget capBps = .ok allocated' ∧
          (allocated'.map Allocation.payout).Perm
            (allocated.map Allocation.payout)) ∧
      ∀ row ∈ weights,
        (capRounds weights budget (capOf budget capBps)
          OrderedMap.empty).has row.account = true →
        { account := row.account
          amount := capOf budget capBps } ∈
            allocated.map Allocation.payout ∧
        ∀ row' ∈ weights,
          (capRounds weights budget (capOf budget capBps)
            OrderedMap.empty).has row'.account = false →
          row'.weight < row.weight := by
  let cap := capOf budget capBps
  let last := capRounds weights budget cap OrderedMap.empty
  have hEmpty : Pinning weights budget cap OrderedMap.empty :=
    pinning_empty hSome hWeights hBudget.le hCap.le hEnough
  have hLast : Pinning weights budget cap last :=
    (capRounds_pinning hEmpty hDistinct).1
  have hAll := pinAll_eq hEmpty hDistinct
  have hSum :
      ((payoutsOf weights (draftOn weights budget last)).map
        (fun row => row.amount)).sum = budget := by
    rw [sum_payoutsOf hDistinct
      (draftOn_listed hLast hDistinct)
      (draftOn_nonneg hLast hDistinct)]
    exact sum_draftOn hLast hDistinct
  refine
    ⟨_, allocate_eq hSome hCap hEnough hAll hSum,
      ?_, ?_, ?_, ?_⟩
  · intro row hIn
    have hPayout :
        row.payout ∈
          payoutsOf weights (draftOn weights budget last) := by
      rw [← payouts_indexed
        (payoutsOf weights (draftOn weights budget last))]
      exact List.mem_map_of_mem hIn
    exact of_decide_eq_true (List.mem_filter.mp hPayout).2
  · rw [sum_indexed]
    exact hSum
  · intro weights' hPerm
    have hDistinct' :=
      (hPerm.map (fun row => row.account)).nodup_iff.mpr
        hDistinct
    have hSome' : weights' ≠ [] := by
      intro hNone
      rw [hNone] at hPerm
      exact hSome hPerm.symm.eq_nil
    have hEnough' :
        budget ≤ capOf budget capBps * weights'.length := by
      rw [hPerm.length_eq]
      exact hEnough
    have hEmpty' :
        Pinning weights' budget cap OrderedMap.empty := by
      apply pinning_empty hSome' _ hBudget.le hCap.le hEnough'
      intro row hIn
      exact hWeights row (hPerm.mem_iff.mp hIn)
    have hAll' := pinAll_eq hEmpty' hDistinct'
    have hRounds :
        (capRounds weights' budget cap
          OrderedMap.empty).entries.Perm last.entries :=
      capRounds_perm hDistinct hPerm (List.Perm.refl _)
    have hPayouts :=
      payoutsOf_perm hPerm
        (draftOn_perm budget hDistinct hPerm hRounds)
    refine ⟨_, allocate_eq hSome' hCap hEnough' hAll' ?_, ?_⟩
    · rw [(hPayouts.map (fun row => row.amount)).sum_eq]
      exact hSum
    · rw [payouts_indexed, payouts_indexed]
      exact hPayouts
  · intro row hIn hPinned
    constructor
    · rw [payouts_indexed]
      have hGet := get?_draftOn_of_pinned hLast hDistinct hPinned
      apply List.mem_filter.mpr
      constructor
      · apply List.mem_map.mpr
        refine ⟨row, hIn, ?_⟩
        unfold OrderedMap.getD
        rw [hGet]
        rfl
      · exact decide_eq_true hCap
    · intro row' hIn' hOpen
      exact hLast.heavier row hIn row' hIn' hPinned hOpen

/- The first wallet is cut, and the others share 501. -/
def threeLenders : List LenderWeight :=
  [{ account := ⟨0xb01, by decide⟩
     weight := 80 },
   { account := ⟨0xb02, by decide⟩
     weight := 15 },
   { account := ⟨0xb03, by decide⟩
     weight := 5 }]

theorem threeLenders_paid :
    ∃ allocated,
      allocate threeLenders 1001 5000 = .ok allocated ∧
      (∀ row ∈ allocated, 0 < row.amount) ∧
      (allocated.map (fun row => row.amount)).sum = 1001 ∧
      (∀ weights', weights'.Perm threeLenders →
        ∃ allocated',
          allocate weights' 1001 5000 = .ok allocated' ∧
          (allocated'.map Allocation.payout).Perm
            (allocated.map Allocation.payout)) ∧
      ∀ row ∈ threeLenders,
        (capRounds threeLenders 1001 (capOf 1001 5000)
          OrderedMap.empty).has row.account = true →
        { account := row.account
          amount := capOf 1001 5000 } ∈
            allocated.map Allocation.payout ∧
        ∀ row' ∈ threeLenders,
          (capRounds threeLenders 1001 (capOf 1001 5000)
            OrderedMap.empty).has row'.account = false →
          row'.weight < row.weight :=
  allocate_pays_budget threeLenders 1001 5000
    (List.cons_ne_nil _ _) (by decide) (by decide) (by decide)
    (by decide) (by decide)

end Callhouse.Indexer.LenderEpoch
