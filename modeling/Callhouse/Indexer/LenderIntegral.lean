import Callhouse.Indexer.LenderWeigh

/-
  The weight that `weigh` gives a lender is the sum over the
  seconds of a window of what it held, so it adds up over
  windows that follow each other.

  Rows of one account in one second and one block have no
  order of their own: the weights are the same for every
  order of the rows exactly when such rows agree on the
  balance wherever they are the latest.

  Main declarations:
    * `HeldBalance`, `balanceAt_held`
    * `weighEvents_eq_sum`
    * `weigh_integral`
    * `weigh_order_free_iff`
-/

----
-- The Balance Held
----

namespace Callhouse.Indexer.LenderEpoch

section

def Earlier
    (a b : BalanceEvent) : Prop :=
  a.timestamp < b.timestamp ∨
    a.timestamp = b.timestamp ∧ a.block < b.block

/-
  Nothing before the first change; from a change's second on,
  what it set, until a later change.
-/
def HeldBalance
    (changes : List BalanceEvent)
    (second balance : Int) : Prop :=
  (balance = 0 ∧
      ∀ change ∈ changes, second < change.timestamp) ∨
    ∃ last ∈ changes,
      last.timestamp ≤ second ∧ balance = last.assets ∧
        ∀ change ∈ changes, change.timestamp ≤ second →
          change = last ∨ Earlier change last

def DistinctChanges
    (changes : List BalanceEvent) : Prop :=
  (changes.map
    (fun change => (change.timestamp, change.block))).Nodup

def balanceAt
    (changes : List BalanceEvent)
    (second : Int) : Int :=
  HeldIntegral.heldAt EventOrder
    (fun event => event.timestamp)
    (fun event => event.assets) changes second

theorem EventOrder.eq_or_earlier
    {a b : BalanceEvent}
    (h : EventOrder a b) :
    (a.timestamp, a.block) = (b.timestamp, b.block) ∨
      Earlier a b := by
  unfold EventOrder at h
  unfold Earlier
  rw [Prod.mk.injEq]
  split at h
  · next hSame =>
      rcases h.eq_or_lt with hBlock | hBlock
      · exact Or.inl ⟨hSame, hBlock⟩
      · exact Or.inr (Or.inr ⟨hSame, hBlock⟩)
  · exact Or.inr (Or.inl h)

theorem balanceAt_held
    {changes : List BalanceEvent}
    (hDistinct : DistinctChanges changes)
    (second : Int) :
    HeldBalance changes second
      (balanceAt changes second) := by
  by_cases hSome :
      ∃ change ∈ changes, change.timestamp ≤ second
  · rcases hSome with ⟨change, hChange, hPast⟩
    rcases HeldIntegral.exists_latestAt (r := EventOrder)
        hChange hPast with
      ⟨last, hLast, hLatest⟩
    right
    refine ⟨last, hLast.mem, hLast.time_le, ?_, ?_⟩
    · unfold balanceAt HeldIntegral.heldAt
      rw [hLatest]
    · intro other hOther hOtherPast
      rcases (hLast.above other hOther
          hOtherPast).eq_or_earlier with hSame | hEarlier
      · left
        exact
          List.inj_on_of_nodup_map hDistinct hOther
            hLast.mem hSame
      · exact Or.inr hEarlier
  · push Not at hSome
    left
    exact ⟨HeldIntegral.heldAt_of_none hSome, hSome⟩

variable {getAddress : String → Except String Address}
variable {excluded : List Address}
variable (getAddress) in
/- A lender's walk adds up what it held in every second. -/
theorem weighEvents_eq_sum
    (rows : List BalanceRow)
    {start stop : Int}
    (hWindow : start ≤ stop)
    {account : Address}
    (hCounted : account ∉ excluded) :
    weighEvents start stop
        (eventsOf getAddress stop excluded rows account) =
      ∑ second ∈ Finset.Ico start stop,
        balanceAt (changesOf getAddress rows account)
          second := by
  have hRefines :
      ∀ a b, EventOrder a b → a.timestamp ≤ b.timestamp :=
    fun _ _ h => h.timestamp_le
  unfold weighEvents eventsOf
  rw [if_neg hCounted,
    HeldIntegral.integral_insertionSort hRefines hWindow]
  · apply Finset.sum_congr rfl
    intro second hSecond
    rw [Finset.mem_Ico] at hSecond
    apply HeldIntegral.heldAt_filter
    intro event _ hPast
    exact decide_eq_true (hPast.trans_lt hSecond.2)
  · intro event hEvent
    exact of_decide_eq_true (List.mem_filter.mp hEvent).2

variable (getAddress) in
theorem weighEvents_of_excluded
    (rows : List BalanceRow)
    (start stop : Int)
    {account : Address}
    (hExcluded : account ∈ excluded) :
    weighEvents start stop
      (eventsOf getAddress stop excluded rows account) =
        0 := by
  unfold eventsOf
  rw [if_pos hExcluded]
  change 0 + 0 * (stop - start) = 0
  rw [zero_mul, add_zero]

/- What the published weights give an account. -/
theorem weightIn_eq
    {rows : List BalanceRow}
    {start stop : Int}
    (hWindow : start ≤ stop)
    {result : List LenderWeight}
    (hResult :
      Weights
        (fun account =>
          weighEvents start stop
            (eventsOf getAddress stop excluded rows account))
        result)
    (account : Address) :
    weightIn result account =
      if account ∈ excluded then 0
      else
        ∑ second ∈ Finset.Ico start stop,
          balanceAt (changesOf getAddress rows account)
            second := by
  split
  · next hExcluded =>
      have hZero :=
        weighEvents_of_excluded getAddress rows start stop
          hExcluded
      rw [hResult.weightIn_eq hZero.ge, hZero]
  · next hCounted =>
      have hSum :=
        weighEvents_eq_sum getAddress rows hWindow hCounted
      rw [hResult.weightIn_eq, hSum]
      rw [hSum]
      apply Finset.sum_nonneg
      intro second _
      exact HeldIntegral.heldAt_nonneg assets_nonneg second

end

----
-- The Integral
----

section

variable (toLowerCase : String → String)
variable (getAddress : String → Except String Address)

/-
  Over any window a lender's weight is the sum of what it
  held in each second, and cutting the window anywhere cuts
  every weight in two.
-/
theorem weigh_integral
    (rows : List BalanceRow)
    (excluded : List Address)
    (start mid stop : Int)
    (hRows : Weighable toLowerCase getAddress excluded rows)
    (hDistinct :
      ∀ account, account ∉ excluded →
        DistinctChanges (changesOf getAddress rows account))
    (hFirst : start < mid)
    (hSecond : mid < stop) :
    ∃ whole early late,
      weigh toLowerCase getAddress rows start stop
          excluded = .ok whole ∧
        weigh toLowerCase getAddress rows start mid
            excluded = .ok early ∧
        weigh toLowerCase getAddress rows mid stop
            excluded = .ok late ∧
        (∀ account, account ∉ excluded →
          ∃ held : Int → Int,
            (∀ second,
              HeldBalance
                (changesOf getAddress rows account)
                second (held second)) ∧
              weightIn whole account =
                ∑ second ∈ Finset.Ico start stop,
                  held second) ∧
        ∀ account,
          weightIn whole account =
            weightIn early account +
              weightIn late account := by
  rcases weigh_ok hRows (hFirst.trans hSecond) with
    ⟨whole, hWhole, hWholeIs⟩
  rcases weigh_ok hRows hFirst with
    ⟨early, hEarly, hEarlyIs⟩
  rcases weigh_ok hRows hSecond with
    ⟨late, hLate, hLateIs⟩
  refine ⟨whole, early, late, hWhole, hEarly, hLate, ?_, ?_⟩
  · intro account hCounted
    refine
      ⟨balanceAt (changesOf getAddress rows account),
        balanceAt_held (hDistinct account hCounted), ?_⟩
    rw [weightIn_eq (hFirst.trans hSecond).le hWholeIs,
      if_neg hCounted]
  · intro account
    rw [weightIn_eq (hFirst.trans hSecond).le hWholeIs,
      weightIn_eq hFirst.le hEarlyIs,
      weightIn_eq hSecond.le hLateIs]
    split
    · rfl
    · exact HeldIntegral.sum_consecutive hFirst.le hSecond.le _

/- A parser that knows one address. -/
def oneAddress
    (text : String) : Except String Address :=
  if text = "0x0000000000000000000000000000000000000001" then
    .ok 1
  else .error ("Address \"" ++ text ++ "\" is invalid.")

def changeRow
    (timestamp block assets : String) : BalanceRow :=
  { asset := none
    account := "0x0000000000000000000000000000000000000001"
    timestamp := timestamp
    assetsAfter := assets
    block := some block }

theorem changeRow_account
    (timestamp block assets : String) :
    oneAddress (changeRow timestamp block assets).account =
      .ok 1 :=
  if_pos rfl

/- A balance before the window, and two changes in a second. -/
def threeChanges : List BalanceRow :=
  [ changeRow "5" "8" "30",
    changeRow "1" "2" "10",
    changeRow "5" "7" "20" ]

theorem threeChanges_weighable :
    Weighable id oneAddress [] threeChanges := by
  refine ⟨?_, ?_⟩
  · intro first hFirst
    cases hFirst
  · intro row hRow
    unfold threeChanges at hRow
    simp only [List.mem_cons, List.not_mem_nil, or_false]
      at hRow
    rcases hRow with rfl | rfl | rfl
    · exact ⟨1, changeRow_account _ _ _, Or.inr ⟨_, rfl⟩⟩
    · exact ⟨1, changeRow_account _ _ _, Or.inr ⟨_, rfl⟩⟩
    · exact ⟨1, changeRow_account _ _ _, Or.inr ⟨_, rfl⟩⟩

theorem threeChanges_distinct
    (account : Address) :
    DistinctChanges
      (changesOf oneAddress threeChanges account) := by
  by_cases hOne : account = 1
  · subst hOne
    unfold DistinctChanges
    decide
  · have hOther : (1 : Address) ≠ account := Ne.symm hOne
    have hNone :
        changesOf oneAddress threeChanges account = [] := by
      unfold changesOf
      rw [List.filterMap_eq_nil_iff]
      intro row hRow
      unfold threeChanges at hRow
      simp only [List.mem_cons, List.not_mem_nil, or_false]
        at hRow
      unfold changeFor
      rcases hRow with rfl | rfl | rfl
      · rw [changeRow_account]
        exact if_neg hOther
      · rw [changeRow_account]
        exact if_neg hOther
      · rw [changeRow_account]
        exact if_neg hOther
    rw [hNone]
    exact List.nodup_nil

theorem threeChanges_integral :
    ∃ whole early late,
      weigh id oneAddress threeChanges 2 9 [] = .ok whole ∧
        weigh id oneAddress threeChanges 2 5 [] =
            .ok early ∧
        weigh id oneAddress threeChanges 5 9 [] =
            .ok late ∧
        (∀ account, account ∉ ([] : List Address) →
          ∃ held : Int → Int,
            (∀ second,
              HeldBalance
                (changesOf oneAddress threeChanges account)
                second (held second)) ∧
              weightIn whole account =
                ∑ second ∈ Finset.Ico 2 9, held second) ∧
        ∀ account,
          weightIn whole account =
            weightIn early account +
              weightIn late account :=
  weigh_integral id oneAddress threeChanges [] 2 5 9
    threeChanges_weighable
    (fun account _ => threeChanges_distinct account)
    (by decide) (by decide)

end

----
-- The Order of the Rows
----

variable (toLowerCase : String → String)
variable (getAddress : String → Except String Address)
variable (rows : List BalanceRow) (start stop : Int)
variable (excluded : List Address)

/- The weights do not depend on the order of the rows. -/
def OrderFree : Prop :=
  ∀ rows', List.Perm rows' rows →
    (weigh toLowerCase getAddress rows' start stop
        excluded).toOption =
      (weigh toLowerCase getAddress rows start stop
        excluded).toOption

/-
  In every second of the window an account's latest rows by
  time and block set the same balance.
-/
def SettledRows : Prop :=
  ∀ account, account ∉ excluded →
    ∀ second, start ≤ second → second < stop →
      HeldIntegral.SettledAt EventOrder
        (fun event => event.timestamp)
        (fun event => event.assets)
        (changesOf getAddress rows account) second

/- The balance a row sets, for sorting only. -/
def assetsAfterOf
    (row : BalanceRow) : Int :=
  match uint row.assetsAfter "assetsAfter" with
  | .error _ => 0
  | .ok assets => assets

def FewerAssets
    (a b : BalanceRow) : Prop :=
  assetsAfterOf a ≤ assetsAfterOf b

instance : DecidableRel FewerAssets :=
  fun _ _ => inferInstanceAs (Decidable (_ ≤ _))

instance : Std.Total FewerAssets where
  total _ _ := le_total _ _

instance : IsTrans BalanceRow FewerAssets where
  trans _ _ _ := le_trans

variable {toLowerCase getAddress rows start stop excluded}

theorem changesOf_perm
    {rows' : List BalanceRow}
    (hPerm : rows'.Perm rows)
    (account : Address) :
    (changesOf getAddress rows' account).Perm
      (changesOf getAddress rows account) :=
  hPerm.filterMap _

/- Settled rows of any order weigh the same. -/
theorem SettledRows.balanceAt_eq
    (hSettled :
      SettledRows getAddress rows start stop excluded)
    {rows' : List BalanceRow}
    (hPerm : rows'.Perm rows)
    {account : Address}
    (hCounted : account ∉ excluded)
    {second : Int}
    (hSecond : second ∈ Finset.Ico start stop) :
    balanceAt (changesOf getAddress rows' account) second =
      balanceAt (changesOf getAddress rows account)
        second := by
  rw [Finset.mem_Ico] at hSecond
  exact
    HeldIntegral.heldAt_perm (changesOf_perm hPerm account)
      (hSettled account hCounted second hSecond.1 hSecond.2)

theorem assetsAfterOf_eq
    {account : Address}
    {row : BalanceRow}
    {event : BalanceEvent}
    (h : changeFor getAddress account row = some event) :
    assetsAfterOf row = event.assets := by
  unfold assetsAfterOf
  rw [readEvent_assets (readEvent_of_changeFor h)]

variable (getAddress) in
/- Rows sorted by what they set sort every account's changes. -/
theorem changesOf_pairwise
    {sorted : List BalanceRow}
    (hSorted : sorted.Pairwise FewerAssets)
    (account : Address) :
    (changesOf getAddress sorted account).Pairwise
      (fun a b => a.assets ≤ b.assets) := by
  unfold changesOf
  rw [List.pairwise_filterMap]
  apply hSorted.imp
  intro a b hFewer first hFirst second hSecond
  rw [← assetsAfterOf_eq hFirst, ← assetsAfterOf_eq hSecond]
  exact hFewer

/- Weights that no order changes are of settled rows. -/
theorem OrderFree.settled
    (hFree :
      OrderFree toLowerCase getAddress rows start stop
        excluded)
    (hWindow : start < stop)
    (hRows :
      Weighable toLowerCase getAddress excluded rows) :
    SettledRows getAddress rows start stop excluded := by
  intro account hCounted second hStart hStop
  by_contra hTie
  let sorted := rows.insertionSort FewerAssets
  have hPerm : sorted.Perm rows :=
    List.perm_insertionSort FewerAssets rows
  have hReversed : sorted.reverse.Perm rows :=
    (List.reverse_perm sorted).trans hPerm
  rcases weigh_ok (hRows.perm hPerm) hWindow with
    ⟨most, hMost, hMostIs⟩
  rcases weigh_ok (hRows.perm hReversed) hWindow with
    ⟨least, hLeast, hLeastIs⟩
  have hSame : least = most := by
    have hFirst := hFree sorted hPerm
    have hSecond := hFree sorted.reverse hReversed
    rw [hMost] at hFirst
    rw [hLeast, ← hFirst] at hSecond
    exact Option.some.inj hSecond
  have hMostWeight := weightIn_eq hWindow.le hMostIs account
  have hLeastWeight := weightIn_eq hWindow.le hLeastIs account
  rw [if_neg hCounted] at hMostWeight hLeastWeight
  have hChanges :
      changesOf getAddress sorted.reverse account =
        (changesOf getAddress sorted account).reverse :=
    List.filterMap_reverse
  have hLess :=
    HeldIntegral.sum_heldAt_reverse_lt (r := EventOrder)
      (changesOf_pairwise getAddress
        (List.pairwise_insertionSort FewerAssets rows)
        account)
      (Finset.mem_Ico.mpr ⟨hStart, hStop⟩)
      (fun hSettled =>
        hTie
          (hSettled.perm (changesOf_perm hPerm.symm account)))
  rw [hSame, hChanges, hMostWeight] at hLeastWeight
  exact hLess.ne hLeastWeight.symm

/-
  The weights are those of every order of the rows exactly
  when the rows are refused or settled.
-/
theorem weigh_order_free_iff
    (toLowerCase : String → String)
    (getAddress : String → Except String Address)
    (rows : List BalanceRow)
    (start stop : Int)
    (excluded : List Address) :
    OrderFree toLowerCase getAddress rows start stop
        excluded ↔
      (start < stop →
        Weighable toLowerCase getAddress excluded rows →
          SettledRows getAddress rows start stop
            excluded) := by
  constructor
  · exact fun hFree => hFree.settled
  · intro hSettled rows' hPerm
    by_cases hTaken :
        start < stop ∧
          Weighable toLowerCase getAddress excluded rows
    · rcases hTaken with ⟨hWindow, hRows⟩
      rcases weigh_ok hRows hWindow with
        ⟨result, hResult, hWeights⟩
      rcases weigh_ok (hRows.perm hPerm) hWindow with
        ⟨result', hResult', hWeights'⟩
      have hSums :
          (fun account =>
            weighEvents start stop
              (eventsOf getAddress stop excluded rows'
                account)) =
            fun account =>
              weighEvents start stop
                (eventsOf getAddress stop excluded rows
                  account) := by
        funext account
        by_cases hCounted : account ∈ excluded
        · rw [weighEvents_of_excluded getAddress rows' start
              stop hCounted,
            weighEvents_of_excluded getAddress rows start
              stop hCounted]
        · rw [weighEvents_eq_sum getAddress rows' hWindow.le
              hCounted,
            weighEvents_eq_sum getAddress rows hWindow.le
              hCounted]
          apply Finset.sum_congr rfl
          intro second hSecond
          exact
            (hSettled hWindow hRows).balanceAt_eq hPerm
              hCounted hSecond
      rw [hSums] at hWeights'
      rw [hResult, hResult', hWeights'.unique hWeights]
    · rw [weigh_refused hTaken, weigh_refused]
      rintro ⟨hWindow, hRows⟩
      exact hTaken ⟨hWindow, hRows.perm hPerm.symm⟩

/- Two changes of one account in one block of one second. -/
def tiedRows : List BalanceRow :=
  [changeRow "0" "7" "10", changeRow "0" "7" "20"]

theorem tiedRows_order_matters :
    ¬ OrderFree id oneAddress tiedRows 0 10 [] := by
  intro hFree
  have hSwapped :=
    hFree
      [changeRow "0" "7" "20", changeRow "0" "7" "10"]
      (List.Perm.swap _ _ _)
  revert hSwapped
  decide

end Callhouse.Indexer.LenderEpoch
