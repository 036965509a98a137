import Callhouse.Indexer.LenderBudget

/-
  The per-wallet ceiling of `allocate`: the rounds hold the
  rounded shares to the cap, but the dust of the last round
  is handed out after them, and a wallet whose share is the
  cap exactly can be among those that get one more.

  Whom the rounds cut is a matter of the input: a wallet that
  would pass the cap, as would every one at least as heavy,
  once all the heavier ones had been paid it.

  Main declarations:
    * `Capped`, `CeilingKept`
    * `capRounds_has_iff`
    * `allocate_within_cap_iff`
-/

----
-- Whom the Rounds Cut
----

namespace Callhouse.Indexer.LenderEpoch

section

open ProportionalShare

def heavierThan
    (weights : List LenderWeight)
    (w : Int) : List LenderWeight :=
  weights.filter (fun row => row.weight > w)

def upToWeight
    (weights : List LenderWeight)
    (w : Int) : List LenderWeight :=
  weights.filter (fun row => row.weight ≤ w)

/- A share of what is left once the heavier have the cap. -/
def levelShare
    (weights : List LenderWeight)
    (budget cap w : Int) : Int :=
  ((budget - cap * (heavierThan weights w).length) * w).tdiv
    (weightOf (upToWeight weights w))

/- This wallet, and every one as heavy, would pass the cap. -/
def Capped
    (weights : List LenderWeight)
    (budget cap : Int)
    (row : LenderWeight) : Prop :=
  ∀ row' ∈ weights, row.weight ≤ row'.weight →
    cap < levelShare weights budget cap row'.weight

instance
    (weights : List LenderWeight)
    (budget cap : Int)
    (row : LenderWeight) :
    Decidable (Capped weights budget cap row) := by
  unfold Capped
  infer_instance

variable {weights : List LenderWeight} {budget cap : Int}
variable {pinned : OrderedMap Address Int}

theorem sum_map_cap
    (cap : Int)
    (p : LenderWeight → Bool)
    (rows : List LenderWeight) :
    (rows.map (fun row => if p row then cap else 0)).sum =
      cap * (rows.filter p).length := by
  induction rows with
  | nil => simp
  | cons row rest ih =>
      rw [List.map_cons, List.sum_cons, ih, List.filter_cons]
      cases p row with
      | false => simp
      | true =>
          simp only [if_true, List.length_cons]
          push_cast
          ring

/- What the pinned wallets leave, counted on the input. -/
theorem Pinning.remainingOf_eq
    (h : Pinning weights budget cap pinned)
    (hDistinct : Distinct weights) :
    remainingOf budget pinned =
      budget -
        cap *
          (weights.filter
            (fun row => pinned.has row.account)).length := by
  have hValues :=
    OrderedMap.sum_getD_eq_sum_values pinned hDistinct
      h.listed
  have hRead :
      ∀ row : LenderWeight,
        pinned.getD row.account 0 =
          if pinned.has row.account then cap else 0 := by
    intro row
    unfold OrderedMap.getD OrderedMap.has
    cases hGet : pinned.get? row.account with
    | none => rfl
    | some v =>
        have hEntry := pinned.mem_entries_iff.mpr hGet
        exact h.at_cap _ hEntry
  rw [List.map_map] at hValues
  unfold remainingOf
  rw [← hValues, ← sum_map_cap]
  congr 2
  apply List.map_congr_left
  intro row _
  exact hRead row

variable {row : LenderWeight}

section

variable (h : Pinning weights budget cap pinned)
include h

/- Seen from an open wallet, the pinned ones are heavier. -/
theorem Pinning.upToWeight_eq
    (hOpen : row ∈ openOf weights pinned) :
    upToWeight weights row.weight =
      upToWeight (openOf weights pinned) row.weight := by
  rcases mem_openOf_iff.mp hOpen with ⟨hIn, hNot⟩
  unfold upToWeight openOf
  rw [List.filter_filter]
  apply List.filter_congr
  intro row' hIn'
  cases hHas : pinned.has row'.account with
  | false => simp
  | true =>
      have hMore := h.heavier row' hIn' row hIn hHas hNot
      simp [hMore]

theorem Pinning.length_heavierThan
    (hOpen : row ∈ openOf weights pinned) :
    (heavierThan weights row.weight).length =
      (weights.filter
          (fun row => pinned.has row.account)).length +
        (heavierThan (openOf weights pinned)
          row.weight).length := by
  rcases mem_openOf_iff.mp hOpen with ⟨hIn, hNot⟩
  have hSplit :=
    List.length_eq_length_filter_add
      (l := heavierThan weights row.weight)
      (fun row => pinned.has row.account)
  rw [hSplit]
  unfold heavierThan openOf
  rw [List.filter_filter, List.filter_filter,
    List.filter_filter]
  congr 2
  · apply List.filter_congr
    intro row' hIn'
    cases hHas : pinned.has row'.account with
    | false => simp
    | true =>
        have hMore := h.heavier row' hIn' row hIn hHas hNot
        simp [hMore]
  · apply List.filter_congr
    intro row' _
    exact Bool.and_comm _ _

/- The level share of an open wallet, seen from its round. -/
theorem Pinning.levelShare_eq
    (hDistinct : Distinct weights)
    (hOpen : row ∈ openOf weights pinned) :
    levelShare weights budget cap row.weight =
      share weightFn
        (remainingOf budget pinned -
          cap *
            (heavierThan (openOf weights pinned)
              row.weight).length)
        (total weightFn
          (upToWeight (openOf weights pinned) row.weight))
        row := by
  have hLeft :
      budget - cap * (heavierThan weights row.weight).length =
        remainingOf budget pinned -
          cap *
            (heavierThan (openOf weights pinned)
              row.weight).length := by
    rw [h.remainingOf_eq hDistinct, h.length_heavierThan hOpen]
    push_cast
    ring
  unfold levelShare share
  rw [hLeft, h.upToWeight_eq hOpen]
  rfl

/- Whoever a round cuts passes the cap at its own level. -/
theorem Pinning.levelShare_of_cut
    (hDistinct : Distinct weights)
    (hCut : row ∈ cutOf weights budget cap pinned) :
    cap < levelShare weights budget cap row.weight := by
  rcases List.mem_filter.mp hCut with ⟨hOpen, hOver⟩
  have hOver := of_decide_eq_true hOver
  have hSpend := h.spendable
  have hSplit :
      (heavierThan (openOf weights pinned) row.weight ++
        upToWeight (openOf weights pinned)
          row.weight).Perm (openOf weights pinned) := by
    have hBoth :=
      List.filter_append_perm
        (fun r : LenderWeight => decide (r.weight > row.weight))
        (openOf weights pinned)
    unfold heavierThan upToWeight
    simp only [← not_lt, decide_not] at hBoth ⊢
    exact hBoth
  have hHeavier :
      ∀ r ∈ heavierThan (openOf weights pinned) row.weight,
        IsOver weightFn cap (remainingOf budget pinned)
          (total weightFn (openOf weights pinned)) r := by
    intro r hr
    rcases List.mem_filter.mp hr with ⟨_, hMore⟩
    have hLe : row.weight ≤ r.weight :=
      (of_decide_eq_true hMore).le
    exact
      lt_of_lt_of_le hOver
        (share_le_share hSpend.budget_nonneg hSpend.total_pos
          (hSpend.weight_nonneg row hOpen) hLe)
  have hRest :
      0 < total weightFn
        (upToWeight (openOf weights pinned) row.weight) := by
    apply List.sum_pos
    · intro x hx
      rcases List.mem_map.mp hx with ⟨r, hr, rfl⟩
      exact hSpend.weight_pos r (List.mem_of_mem_filter hr)
    · intro hNone
      have hSelf :
          row ∈ upToWeight (openOf weights pinned)
            row.weight :=
        List.mem_filter.mpr
          ⟨hOpen, decide_eq_true (le_refl _)⟩
      rw [List.map_eq_nil_iff.mp hNone] at hSelf
      cases hSelf
  rw [h.levelShare_eq hDistinct hOpen]
  exact
    lt_of_lt_of_le hOver
      (hSpend.share_le_after_paid hSplit hHeavier hRest
        (hSpend.weight_nonneg row hOpen))

end

/- Every pinned wallet passes the cap at its own level. -/
def PinnedAbove
    (weights : List LenderWeight)
    (budget cap : Int)
    (pinned : OrderedMap Address Int) : Prop :=
  ∀ row ∈ weights, pinned.has row.account = true →
    cap < levelShare weights budget cap row.weight

theorem capRounds_pinnedAbove
    (h : Pinning weights budget cap pinned)
    (hDistinct : Distinct weights)
    (hAbove : PinnedAbove weights budget cap pinned) :
    PinnedAbove weights budget cap
      (capRounds weights budget cap pinned) := by
  induction pinned using
    capRounds.induct weights budget cap with
  | case1 pinned hCapped ih =>
      rw [capRounds_of_capped hCapped]
      apply ih (h.roundOf hDistinct)
      intro row hIn hHas
      rcases (has_roundOf hDistinct hIn).mp hHas with
        hOld | hCut
      · exact hAbove row hIn hOld
      · exact h.levelShare_of_cut hDistinct hCut
  | case2 pinned hCapped =>
      rw [capRounds_of_uncapped (Bool.eq_false_iff.mpr hCapped)]
      exact hAbove

/- The heaviest of some wallets. -/
theorem exists_heaviest
    {rows : List LenderWeight}
    (hSome : rows ≠ []) :
    ∃ row ∈ rows, ∀ row' ∈ rows, row'.weight ≤ row.weight := by
  have hNonempty : rows.toFinset.Nonempty :=
    List.toFinset_nonempty_iff _ |>.mpr hSome
  rcases
    Finset.exists_max_image rows.toFinset
      (fun row => row.weight) hNonempty with
    ⟨row, hRow, hMax⟩
  refine ⟨row, List.mem_toFinset.mp hRow, ?_⟩
  exact fun row' hIn => hMax row' (List.mem_toFinset.mpr hIn)

/- A round that cuts nobody leaves every share at the cap. -/
theorem share_le_of_uncapped
    (hUncapped :
      (roundOf weights budget cap pinned).capped = false)
    (hOpen : row ∈ openOf weights pinned) :
    share weightFn (remainingOf budget pinned)
        (total weightFn (openOf weights pinned)) row ≤
      cap := by
  rw [roundOf_eq] at hUncapped
  have hNone := List.any_eq_false.mp hUncapped row hOpen
  rw [decide_eq_true_eq] at hNone
  exact not_lt.mp hNone

/- The rounds cut the capped wallets, and no others. -/
theorem capRounds_has_iff
    (h : Pinning weights budget cap pinned)
    (hDistinct : Distinct weights)
    (hAbove : PinnedAbove weights budget cap pinned)
    (hIn : row ∈ weights) :
    (capRounds weights budget cap pinned).has row.account =
        true ↔
      Capped weights budget cap row := by
  rcases capRounds_pinning h hDistinct with
    ⟨hLast, hUncapped⟩
  have hPinned := capRounds_pinnedAbove h hDistinct hAbove
  generalize capRounds weights budget cap pinned = last at *
  constructor
  · intro hHas row' hIn' hLe
    apply hPinned row' hIn'
    by_contra hOpen
    have hLess :=
      hLast.heavier row hIn row' hIn' hHas
        (Bool.eq_false_iff.mpr hOpen)
    omega
  · intro hCapped
    by_contra hOpen
    have hRow : row ∈ openOf weights last :=
      mem_openOf_iff.mpr
        ⟨hIn, Bool.eq_false_iff.mpr hOpen⟩
    rcases
      exists_heaviest (List.ne_nil_of_mem hRow) with
      ⟨top, hTop, hMax⟩
    have hTopIn := (mem_openOf_iff.mp hTop).1
    have hOver := hCapped top hTopIn (hMax row hRow)
    have hNone :
        heavierThan (openOf weights last) top.weight = [] := by
      apply List.filter_eq_nil_iff.mpr
      intro r hr
      rw [decide_eq_true_eq]
      exact not_lt.mpr (hMax r hr)
    have hAll :
        upToWeight (openOf weights last) top.weight =
          openOf weights last := by
      apply List.filter_eq_self.mpr
      exact fun r hr => decide_eq_true (hMax r hr)
    rw [hLast.levelShare_eq hDistinct hTop, hNone, hAll,
      List.length_nil, Nat.cast_zero, mul_zero, sub_zero]
      at hOver
    exact
      absurd hOver
        (not_lt.mpr (share_le_of_uncapped hUncapped hTop))

end

----
-- The Ceiling
----

open ProportionalShare

variable (weights : List LenderWeight) (budget cap : Int)

def uncappedOf : List LenderWeight :=
  weights.filter
    (fun row => ¬ Capped weights budget cap row)

/- What is left once every capped wallet has the cap. -/
def uncappedBudget : Int :=
  budget -
    cap *
      (weights.filter
        (fun row => Capped weights budget cap row)).length

/- The uncapped wallets, by remainder and then by address. -/
def uncappedDraft : List DraftRow :=
  ((uncappedOf weights budget cap).map
    (draftOf (uncappedBudget weights budget cap)
      (weightOf (uncappedOf weights budget cap)))).insertionSort
    DustOrder

/- What the rounded shares of the uncapped wallets leave. -/
def uncappedDust : Int :=
  leftover weightFn (uncappedBudget weights budget cap)
    (uncappedOf weights budget cap)

/- Nobody whose share is the cap is among those dusted. -/
def CeilingKept : Prop :=
  ∀ row ∈ (uncappedDraft weights budget cap).take
      (uncappedDust weights budget cap).toNat,
    row.amount ≠ cap

instance : Decidable (CeilingKept weights budget cap) := by
  unfold CeilingKept
  infer_instance

variable {weights budget cap}
variable {pinned last : OrderedMap Address Int}

/- The first rows get one more, the others nothing. -/
theorem mem_spreadDust_iff
    {left : Int}
    {rows : List DraftRow}
    {row : DraftRow}
    (hNonneg : 0 ≤ left) :
    row ∈ spreadDust left rows ↔
      (∃ dusted ∈ rows.take left.toNat,
        row = { dusted with amount := dusted.amount + 1 }) ∨
        row ∈ rows.drop left.toNat := by
  induction rows generalizing left with
  | nil => simp [spreadDust]
  | cons first rest ih =>
      rw [spreadDust]
      split
      · next hZero => simp [hZero]
      · next hSome =>
          have hSucc : left.toNat = (left - 1).toNat + 1 := by
            omega
          rw [List.mem_cons, ih (by omega), hSucc,
            List.take_succ_cons, List.drop_succ_cons,
            ← or_assoc, List.exists_mem_cons_iff]

/- The wallets that the rounds have cut, as a filter. -/
structure RoundsDone
    (weights : List LenderWeight)
    (budget cap : Int)
    (last : OrderedMap Address Int) : Prop where
  pinning : Pinning weights budget cap last
  uncapped :
    (roundOf weights budget cap last).capped = false
  has_iff :
    ∀ row ∈ weights,
      (last.has row.account = true ↔
        Capped weights budget cap row)

theorem roundsDone
    (hDistinct : Distinct weights)
    (hEmpty :
      Pinning weights budget cap OrderedMap.empty) :
    RoundsDone weights budget cap
      (capRounds weights budget cap OrderedMap.empty) := by
  have hAbove :
      PinnedAbove weights budget cap OrderedMap.empty := by
    intro row _ hHas
    cases hHas
  constructor
  · exact (capRounds_pinning hEmpty hDistinct).1
  · exact (capRounds_pinning hEmpty hDistinct).2
  · exact fun row hIn =>
      capRounds_has_iff hEmpty hDistinct hAbove hIn

section

variable (h : RoundsDone weights budget cap last)
include h

theorem RoundsDone.openOf_eq :
    openOf weights last = uncappedOf weights budget cap := by
  apply List.filter_congr
  intro row hIn
  have hIff := h.has_iff row hIn
  rw [Bool.eq_iff_iff, Bool.not_eq_true', decide_eq_true_eq,
    ← hIff, Bool.not_eq_true]

section

variable (hDistinct : Distinct weights)
include hDistinct

theorem RoundsDone.remainingOf_eq :
    remainingOf budget last =
      uncappedBudget weights budget cap := by
  have hSame :
      weights.filter (fun row => last.has row.account) =
        weights.filter
          (fun row => Capped weights budget cap row) := by
    apply List.filter_congr
    intro row hIn
    rw [Bool.eq_iff_iff, decide_eq_true_eq]
    exact h.has_iff row hIn
  rw [h.pinning.remainingOf_eq hDistinct, hSame]
  rfl

/- The last round, on the input's own figures. -/
theorem RoundsDone.dustedRows_eq :
    dustedRows weights budget last =
      spreadDust (uncappedDust weights budget cap)
        (uncappedDraft weights budget cap) := by
  unfold dustedRows draftOfOpen
  rw [h.openOf_eq, h.remainingOf_eq hDistinct]
  rfl

theorem RoundsDone.dust_nonneg :
    0 ≤ uncappedDust weights budget cap := by
  have hSpend := h.pinning.spendable
  have hNonneg :=
    leftover_nonneg hSpend.budget_nonneg hSpend.total_pos
      hSpend.weight_nonneg
  rw [h.openOf_eq, h.remainingOf_eq hDistinct] at hNonneg
  exact hNonneg

theorem RoundsDone.draft_le
    {row : DraftRow}
    (hRow : row ∈ uncappedDraft weights budget cap) :
    0 ≤ row.amount ∧ row.amount ≤ cap := by
  have hSpend := h.pinning.spendable
  unfold uncappedDraft at hRow
  rw [List.mem_insertionSort, ← h.openOf_eq,
    ← h.remainingOf_eq hDistinct] at hRow
  rcases List.mem_map.mp hRow with ⟨source, hOpen, rfl⟩
  exact
    ⟨share_nonneg hSpend.budget_nonneg hSpend.total_pos
        (hSpend.weight_nonneg source hOpen),
      share_le_of_uncapped h.uncapped hOpen⟩

/- The ceiling is kept exactly when no full share is dusted. -/
theorem RoundsDone.dusted_le_iff :
    (∀ row ∈ dustedRows weights budget last,
        row.amount ≤ cap) ↔
      CeilingKept weights budget cap := by
  have hNonneg := h.dust_nonneg hDistinct
  rw [h.dustedRows_eq hDistinct]
  constructor
  · intro hAll row hTaken hFull
    have hDusted :=
      hAll { row with amount := row.amount + 1 }
        ((mem_spreadDust_iff hNonneg).mpr
          (.inl ⟨row, hTaken, rfl⟩))
    simp only at hDusted
    omega
  · intro hKept row hRow
    rcases (mem_spreadDust_iff hNonneg).mp hRow with
      ⟨dusted, hTaken, rfl⟩ | hRest
    · have hLe :=
        (h.draft_le hDistinct (List.mem_of_mem_take hTaken)).2
      have hNot := hKept dusted hTaken
      simp only
      omega
    · exact
        (h.draft_le hDistinct (List.mem_of_mem_drop hRest)).2

end

end

theorem mem_payoutsOf_iff
    {payout : Payout} :
    payout ∈ payoutsOf weights pinned ↔
      0 < payout.amount ∧
        ∃ row ∈ weights,
          payout =
            { account := row.account
              amount := pinned.getD row.account 0 } := by
  unfold payoutsOf
  rw [List.mem_filter, List.mem_map, decide_eq_true_eq,
    and_comm]
  simp only [eq_comm]

/- Payouts stay at the cap when the dusted rows do. -/
theorem RoundsDone.payouts_le_iff
    (h : RoundsDone weights budget cap last)
    (hDistinct : Distinct weights) :
    (∀ payout ∈ payoutsOf weights
        (draftOn weights budget last), payout.amount ≤ cap) ↔
      ∀ row ∈ dustedRows weights budget last,
        row.amount ≤ cap := by
  have hEntries :
      (draftOn weights budget last).entries =
        last.entries ++
          (dustedRows weights budget last).map
            (fun row => (row.account, row.amount)) :=
    entries_draftOn hDistinct
  have hCap := h.pinning.spendable.cap_nonneg
  constructor
  · intro hAll row hRow
    by_cases hPos : 0 < row.amount
    · have hEntry :
          (row.account, row.amount) ∈
            (draftOn weights budget last).entries := by
        rw [hEntries]
        exact
          List.mem_append_right _
            (List.mem_map_of_mem (f := fun row : DraftRow =>
              (row.account, row.amount)) hRow)
      have hGet := (OrderedMap.mem_entries_iff _).mp hEntry
      have hListed :=
        draftOn_listed h.pinning hDistinct row.account
          (by
            unfold OrderedMap.has
            rw [hGet]
            rfl)
      rcases List.mem_map.mp hListed with
        ⟨source, hIn, hSame⟩
      apply hAll ⟨row.account, row.amount⟩
      apply mem_payoutsOf_iff.mpr
      refine ⟨hPos, source, hIn, ?_⟩
      unfold OrderedMap.getD
      rw [hSame, hGet]
      rfl
    · exact (not_lt.mp hPos).trans hCap
  · intro hAll payout hPayout
    rcases mem_payoutsOf_iff.mp hPayout with
      ⟨_, row, _, hEq⟩
    rw [hEq]
    simp only
    unfold OrderedMap.getD
    cases hGet :
        (draftOn weights budget last).get? row.account with
    | none => exact hCap
    | some v =>
        have hEntry := (OrderedMap.mem_entries_iff _).mpr hGet
        rw [hEntries, List.mem_append] at hEntry
        rcases hEntry with hOld | hNew
        · exact (h.pinning.at_cap _ hOld).le
        · rcases List.mem_map.mp hNew with
            ⟨dusted, hDusted, hSame⟩
          have hAmount : dusted.amount = v :=
            congrArg Prod.snd hSame
          have hLe := hAll dusted hDusted
          rw [hAmount] at hLe
          exact hLe

/- What an accepted allocation passed, and what it is. -/
theorem allocate_accepted
    {capBps : Int}
    {allocated : List Allocation}
    (h : allocate weights budget capBps = .ok allocated) :
    weights ≠ [] ∧
      budget ≤ capOf budget capBps * weights.length ∧
      allocated =
        indexed
          (payoutsOf weights
            (pinAll weights budget (capOf budget capBps)
              OrderedMap.empty)) := by
  unfold allocate at h
  by_cases hNone : weights.length = 0
  · rw [if_pos hNone] at h
    cases h
  rw [if_neg hNone] at h
  simp only at h
  by_cases hZero : capOf budget capBps = 0
  · rw [if_pos hZero] at h
    cases h
  rw [if_neg hZero] at h
  by_cases hShort :
      capOf budget capBps * weights.length < budget
  · rw [if_pos hShort] at h
    cases h
  rw [if_neg hShort] at h
  split at h
  · cases h
  · cases h
    refine ⟨?_, not_lt.mp hShort, rfl⟩
    intro hEmpty
    rw [hEmpty] at hNone
    exact hNone rfl

/-
  An accepted allocation pays nobody above the ceiling
  exactly when no uncapped wallet with a share of the cap
  itself is among those that the dust goes to.
-/
theorem allocate_within_cap_iff
    (weights : List LenderWeight)
    (budget capBps : Int)
    (allocated : List Allocation)
    (hDistinct :
      (weights.map (fun row => row.account)).Nodup)
    (hWeights : ∀ row ∈ weights, 0 < row.weight)
    (hBudget : 0 < budget)
    (hAccepted :
      allocate weights budget capBps = .ok allocated) :
    (∀ row ∈ allocated, row.amount ≤ capOf budget capBps) ↔
      CeilingKept weights budget (capOf budget capBps) := by
  rcases allocate_accepted hAccepted with
    ⟨hSome, hEnough, hAllocated⟩
  have hCap : 0 ≤ capOf budget capBps := by
    have hPos : 0 < capOf budget capBps * weights.length :=
      lt_of_lt_of_le hBudget hEnough
    rw [← zero_mul (weights.length : Int)] at hPos
    exact
      (lt_of_mul_lt_mul_right hPos
        (Int.natCast_nonneg _)).le
  have hEmpty :=
    pinning_empty hSome hWeights hBudget.le hCap hEnough
  have hDone := roundsDone hDistinct hEmpty
  have hPayouts :
      (∀ row ∈ allocated,
          row.amount ≤ capOf budget capBps) ↔
        ∀ payout ∈ allocated.map Allocation.payout,
          payout.amount ≤ capOf budget capBps := by
    rw [List.forall_mem_map]
    rfl
  rw [hPayouts, hAllocated, payouts_indexed,
    pinAll_eq hEmpty hDistinct,
    hDone.payouts_le_iff hDistinct]
  exact hDone.dusted_le_iff hDistinct

/- A budget of 10 that halves do not divide, capped at 5. -/
def twoLenders : List LenderWeight :=
  [{ account := 0xb01
     weight := 11 },
   { account := 0xb02
     weight := 9 }]

def twoPaid : List Allocation :=
  [{ account := 0xb01
     amount := 6
     index := 0 },
   { account := 0xb02
     amount := 4
     index := 1 }]

theorem twoLenders_accepted :
    allocate twoLenders 10 5000 = .ok twoPaid := by
  have hDistinct :
      (twoLenders.map (fun row => row.account)).Nodup := by
    decide
  have hEmpty : Pinning twoLenders 10 5 OrderedMap.empty :=
    pinning_empty (List.cons_ne_nil _ _) (by decide)
      (by decide) (by decide) (by decide)
  have hUncapped :
      (roundOf twoLenders 10 5 OrderedMap.empty).capped =
        false := by
    decide
  have hAll := pinAll_eq hEmpty hDistinct
  rw [capRounds_of_uncapped hUncapped] at hAll
  have hPaid :
      indexed
          (payoutsOf twoLenders
            (draftOn twoLenders 10 OrderedMap.empty)) =
        twoPaid := by
    decide
  rw [← hPaid]
  exact
    allocate_eq (List.cons_ne_nil _ _) (by decide)
      (by decide) hAll (by decide)

/- The dust takes the first wallet above the ceiling. -/
theorem allocate_over_cap :
    ¬ (∀ (weights : List LenderWeight) (budget capBps : Int)
        (allocated : List Allocation),
        (weights.map (fun row => row.account)).Nodup →
        (∀ row ∈ weights, 0 < row.weight) →
        0 < budget →
        allocate weights budget capBps = .ok allocated →
          ∀ row ∈ allocated,
            row.amount ≤ capOf budget capBps) := by
  intro hAll
  have hRows :=
    hAll twoLenders 10 5000 twoPaid (by decide) (by decide)
      (by decide) twoLenders_accepted
  exact absurd hRows (by decide)

theorem twoLenders_over_cap_iff :
    (∀ row ∈ twoPaid, row.amount ≤ capOf 10 5000) ↔
      CeilingKept twoLenders 10 (capOf 10 5000) :=
  allocate_within_cap_iff twoLenders 10 5000 twoPaid
    (by decide) (by decide) (by decide) twoLenders_accepted

end Callhouse.Indexer.LenderEpoch
