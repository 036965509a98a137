import Callhouse.Lib.OrderedMap
import Mathlib.Data.List.Sort
import Mathlib.Data.List.Infix

/-
  keeper/src/v2/mm/pnl.ts matchFillLogs: the logs of a fill,
  found by walking back from the newest one.

  The walk is by units alone: when new logs are missing from
  the read, older ones of the same units stand in for them.

  Main declarations:
    * `matchFillLogs`
    * `matchFillLogs_eq_some`
    * `matchFillLogs_books_new_iff`
    * `matchFillLogs_books_old`
-/

----
-- The Walk
----

namespace Callhouse.Keeper.Mm

/- One OrderFilled log of a vault order. -/
structure FillLog where
  orderId : Int
  maker : String
  units : Int
  premium : Int
  sellerFee : Int
  blockNumber : Int
  logIndex : Int
deriving DecidableEq

/- What the walk has passed so far. -/
structure FillSum where
  units : Int
  premium : Int
  sellerFee : Int
  logs : Int
deriving DecidableEq

structure FillMatch where
  premium : Int
  sellerFee : Int
  logs : Int
deriving DecidableEq

/- The text `block:index` that a log is filed under. -/
def FillLog.key
    (l : FillLog) : Int × Int :=
  (l.blockNumber, l.logIndex)

/- The sort's comparison is not positive. -/
def newerFirst
    (a b : FillLog) : Bool :=
  if a.blockNumber = b.blockNumber then
    decide (b.logIndex - a.logIndex ≤ 0)
  else decide (a.blockNumber > b.blockNumber)

def FillSum.zero : FillSum :=
  { units := 0, premium := 0, sellerFee := 0, logs := 0 }

def FillSum.add
    (acc : FillSum)
    (l : FillLog) : FillSum :=
  { units := acc.units + l.units
    premium := acc.premium + l.premium
    sellerFee := acc.sellerFee + l.sellerFee
    logs := acc.logs + 1 }

def walkLogs
    (units : Int) : List FillLog → FillSum → FillSum
  | [], acc => acc
  | l :: rest, acc =>
      if acc.units ≥ units then acc
      else walkLogs units rest (acc.add l)

def newestLogs
    (logs : List FillLog) : List FillLog :=
  (OrderedMap.indexBy FillLog.key
    logs).values.insertionSort (fun a b => newerFirst a b)

def matchFillLogs
    (units : Int)
    (logs : List FillLog) : Option FillMatch :=
  if units ≤ 0 then none
  else
    let acc :=
      walkLogs units (newestLogs logs) FillSum.zero
    if acc.units = units then
      some
        { premium := acc.premium
          sellerFee := acc.sellerFee
          logs := acc.logs }
    else none

----
-- What the Walk Matches
----

def unitsOf
    (logs : List FillLog) : Int :=
  (logs.map (fun l => l.units)).sum

def premiumOf
    (logs : List FillLog) : Int :=
  (logs.map (fun l => l.premium)).sum

def sellerFeeOf
    (logs : List FillLog) : Int :=
  (logs.map (fun l => l.sellerFee)).sum

def FillSum.addAll
    (acc : FillSum)
    (logs : List FillLog) : FillSum :=
  { units := acc.units + unitsOf logs
    premium := acc.premium + premiumOf logs
    sellerFee := acc.sellerFee + sellerFeeOf logs
    logs := acc.logs + logs.length }

def matchOf
    (logs : List FillLog) : FillMatch :=
  { premium := premiumOf logs
    sellerFee := sellerFeeOf logs
    logs := logs.length }

@[simp] theorem unitsOf_nil : unitsOf [] = 0 := rfl

@[simp] theorem unitsOf_cons
    (l : FillLog)
    (logs : List FillLog) :
    unitsOf (l :: logs) = l.units + unitsOf logs := rfl

@[simp] theorem unitsOf_append
    (logs logs' : List FillLog) :
    unitsOf (logs ++ logs') = unitsOf logs + unitsOf logs' := by
  simp [unitsOf]

@[simp] theorem premiumOf_append
    (logs logs' : List FillLog) :
    premiumOf (logs ++ logs') =
      premiumOf logs + premiumOf logs' := by
  simp [premiumOf]

@[simp] theorem sellerFeeOf_append
    (logs logs' : List FillLog) :
    sellerFeeOf (logs ++ logs') =
      sellerFeeOf logs + sellerFeeOf logs' := by
  simp [sellerFeeOf]

theorem addAll_nil
    (acc : FillSum) :
    acc.addAll [] = acc := by
  simp [FillSum.addAll, unitsOf, premiumOf, sellerFeeOf]

theorem addAll_cons
    (acc : FillSum)
    (l : FillLog)
    (logs : List FillLog) :
    acc.addAll (l :: logs) = (acc.add l).addAll logs := by
  simp [FillSum.addAll, FillSum.add, unitsOf, premiumOf,
    sellerFeeOf, add_assoc]
  ring

/- Every fill of an order adds to what is filled. -/
def PositiveUnits
    (logs : List FillLog) : Prop :=
  ∀ l ∈ logs, 0 < l.units

variable {logs : List FillLog}

theorem unitsOf_nonneg
    (h : PositiveUnits logs) :
    0 ≤ unitsOf logs := by
  apply List.sum_nonneg
  intro x hx
  rcases List.mem_map.mp hx with ⟨l, hl, rfl⟩
  exact (h l hl).le

theorem eq_nil_of_unitsOf_nonpos
    (h : PositiveUnits logs)
    (hNone : unitsOf logs ≤ 0) :
    logs = [] := by
  cases logs with
  | nil => rfl
  | cons l rest =>
      have hHead := h l (List.mem_cons_self ..)
      have hRest : 0 ≤ unitsOf rest :=
        unitsOf_nonneg
          (fun x hx => h x (List.mem_cons_of_mem _ hx))
      rw [unitsOf_cons] at hNone
      omega

/- The walk adds up some newest part of the list. -/
theorem walkLogs_prefix
    (units : Int)
    (logs : List FillLog)
    (acc : FillSum) :
    ∃ passed, passed <+: logs ∧
      walkLogs units logs acc = acc.addAll passed := by
  induction logs generalizing acc with
  | nil => exact ⟨[], List.nil_prefix, (addAll_nil acc).symm⟩
  | cons l rest ih =>
      unfold walkLogs
      split
      · exact ⟨[], List.nil_prefix, (addAll_nil acc).symm⟩
      · rcases ih (acc.add l) with ⟨passed, hPrefix, hWalk⟩
        refine ⟨l :: passed, ?_, ?_⟩
        · exact (List.prefix_cons_inj l).mpr hPrefix
        · rw [hWalk, addAll_cons]

/- A part of exactly the missing units stops it. -/
theorem walkLogs_eq_addAll
    {units : Int}
    {passed : List FillLog}
    {acc : FillSum}
    (hPositive : PositiveUnits passed)
    (hPrefix : passed <+: logs)
    (hUnits : acc.units + unitsOf passed = units) :
    walkLogs units logs acc = acc.addAll passed := by
  induction passed generalizing logs acc with
  | nil =>
      rw [addAll_nil]
      rw [unitsOf_nil, add_zero] at hUnits
      cases logs with
      | nil => rfl
      | cons l rest => exact if_pos hUnits.ge
  | cons l passed ih =>
      rcases hPrefix with ⟨rest, rfl⟩
      have hTail : PositiveUnits passed :=
        fun x hx => hPositive x (List.mem_cons_of_mem _ hx)
      have hMore : ¬ acc.units ≥ units := by
        have hHead := hPositive l (List.mem_cons_self ..)
        have hRest := unitsOf_nonneg hTail
        rw [unitsOf_cons] at hUnits
        omega
      rw [addAll_cons, List.cons_append]
      unfold walkLogs
      rw [if_neg hMore]
      apply ih hTail (List.prefix_append passed rest)
      rw [unitsOf_cons] at hUnits
      simp only [FillSum.add]
      omega

theorem newestLogs_mem
    {l : FillLog}
    (h : l ∈ newestLogs logs) :
    l ∈ logs := by
  unfold newestLogs at h
  rw [List.mem_insertionSort] at h
  rcases List.mem_map.mp h with ⟨⟨k, l'⟩, hEntry, rfl⟩
  rw [OrderedMap.mem_entries_iff] at hEntry
  exact (OrderedMap.get?_indexBy _ hEntry).1

/-
  A match is a newest part of the listed logs whose units are
  exactly those asked for.
-/
theorem matchFillLogs_eq_some
    {units : Int}
    (hUnits : 0 < units)
    (hPositive : PositiveUnits logs)
    {found : FillMatch} :
    matchFillLogs units logs = some found ↔
      ∃ passed, passed <+: newestLogs logs ∧
        unitsOf passed = units ∧ found = matchOf passed := by
  have hZero :
      ∀ passed,
        FillSum.zero.addAll passed =
          { units := unitsOf passed
            premium := premiumOf passed
            sellerFee := sellerFeeOf passed
            logs := passed.length } := by
    intro passed
    simp [FillSum.addAll, FillSum.zero]
  unfold matchFillLogs
  rw [if_neg (not_le.mpr hUnits)]
  simp only
  constructor
  · intro h
    rcases walkLogs_prefix units (newestLogs logs)
        FillSum.zero with ⟨passed, hPrefix, hWalk⟩
    rw [hWalk, hZero] at h
    split at h
    · next hSum =>
        cases h
        exact ⟨passed, hPrefix, hSum, rfl⟩
    · simp at h
  · rintro ⟨passed, hPrefix, hSum, rfl⟩
    have hPassed : PositiveUnits passed :=
      fun l hl =>
        hPositive l (newestLogs_mem (hPrefix.subset hl))
    have hStart :
        FillSum.zero.units + unitsOf passed = units := by
      simpa [FillSum.zero] using hSum
    rw [walkLogs_eq_addAll hPassed hPrefix hStart, hZero,
      if_pos hSum]
    rfl

----
-- Booked and New Logs
----

/- Block and log index order. -/
def LogBefore
    (a b : FillLog) : Prop :=
  a.blockNumber < b.blockNumber ∨
    (a.blockNumber = b.blockNumber ∧ a.logIndex < b.logIndex)

/- An order's logs: in chain order, each with some units. -/
structure IsHistory
    (history : List FillLog) : Prop where
  ordered : history.Pairwise LogBefore
  positive : PositiveUnits history

variable {history : List FillLog}

theorem IsHistory.key_inj
    (h : IsHistory history)
    {a b : FillLog}
    (ha : a ∈ history)
    (hb : b ∈ history)
    (hKey : a.key = b.key) :
    a = b := by
  have hNodup : (history.map FillLog.key).Nodup := by
    apply List.pairwise_map.mpr
    apply h.ordered.imp
    intro a b hBefore hSame
    simp only [FillLog.key, Prod.mk.injEq] at hSame
    unfold LogBefore at hBefore
    omega
  exact List.inj_on_of_nodup_map hNodup ha hb hKey

theorem IsHistory.nodup
    (h : IsHistory history) :
    history.Nodup := by
  apply h.ordered.imp
  rintro a b hBefore rfl
  unfold LogBefore at hBefore
  omega

theorem newerFirst_iff
    {a b : FillLog} :
    newerFirst a b = true ↔ LogBefore b a ∨ a.key = b.key := by
  unfold newerFirst LogBefore FillLog.key
  simp only [Prod.mk.injEq]
  split
  · rw [decide_eq_true_eq]
    omega
  · rw [decide_eq_true_eq]
    omega

instance :
    Std.Total (fun a b : FillLog => newerFirst a b = true) :=
  ⟨by
    intro a b
    rw [newerFirst_iff, newerFirst_iff]
    simp only [LogBefore, FillLog.key, Prod.mk.injEq]
    omega⟩

instance :
    IsTrans FillLog (fun a b => newerFirst a b = true) :=
  ⟨by
    intro a b c
    rw [newerFirst_iff, newerFirst_iff, newerFirst_iff]
    simp only [LogBefore, FillLog.key, Prod.mk.injEq]
    omega⟩

/- The listed part of some logs, newest first. -/
def listedNewest
    (logs history : List FillLog) : List FillLog :=
  (history.filter (fun l => l ∈ logs)).reverse

/-
  Whatever order and duplicates the node returns, the walk
  sees the listed part of the history, newest first.
-/
theorem newestLogs_eq
    (h : IsHistory history)
    (hLogs : ∀ l ∈ logs, l ∈ history) :
    newestLogs logs = listedNewest logs history := by
  have hInj : ∀ a ∈ logs, ∀ b ∈ logs, a.key = b.key → a = b := by
    intro a ha b hb hKey
    exact h.key_inj (hLogs a ha) (hLogs b hb) hKey
  have hPerm :
      (newestLogs logs).Perm (listedNewest logs history) := by
    have hNewest : (newestLogs logs).Nodup := by
      unfold newestLogs
      exact (List.perm_insertionSort _ _).nodup_iff.mpr
        (OrderedMap.nodup_values_indexBy _ logs)
    have hListed : (listedNewest logs history).Nodup :=
      List.nodup_reverse.mpr (h.nodup.filter _)
    apply (List.perm_ext_iff_of_nodup hNewest hListed).mpr
    intro l
    unfold newestLogs listedNewest
    rw [List.mem_insertionSort,
      OrderedMap.mem_values_indexBy _ hInj,
      List.mem_reverse, List.mem_filter, decide_eq_true_eq]
    exact ⟨fun hl => ⟨hLogs l hl, hl⟩, fun hl => hl.2⟩
  have hNewest :
      (newestLogs logs).Pairwise
        (fun a b => newerFirst a b = true) :=
    List.pairwise_insertionSort _ _
  have hListed :
      (listedNewest logs history).Pairwise
        (fun a b => newerFirst a b = true) := by
    apply List.pairwise_reverse.mpr
    apply (h.ordered.filter _).imp
    intro a b hBefore
    exact newerFirst_iff.mpr (Or.inl hBefore)
  refine hPerm.eq_of_pairwise ?_ hNewest hListed
  intro a b ha hb hab hba
  rw [newerFirst_iff] at hab hba
  have hMem : b ∈ history :=
    List.mem_of_mem_filter (List.mem_reverse.mp hb)
  apply h.key_inj (hLogs a (newestLogs_mem ha)) hMem
  simp only [LogBefore, FillLog.key, Prod.mk.injEq]
    at hab hba ⊢
  omega

theorem listedNewest_append
    (logs booked fresh : List FillLog) :
    listedNewest logs (booked ++ fresh) =
      listedNewest logs fresh ++ listedNewest logs booked := by
  simp [listedNewest]

----
-- Only the New Fills
----

variable {booked fresh : List FillLog}

/- The new logs that the node left out. -/
def missingLogs
    (logs fresh : List FillLog) : List FillLog :=
  fresh.filter (fun l => !decide (l ∈ logs))

/- The figures are the new logs' own, or there are none. -/
structure BooksOnlyNew
    (units : Int)
    (fresh logs : List FillLog) : Prop where
  exact :
    ∀ found, matchFillLogs units logs = some found →
      found.premium = premiumOf fresh ∧
        found.sellerFee = sellerFeeOf fresh
  found :
    (∀ l ∈ fresh, l ∈ logs) → matchFillLogs units logs ≠ none

/-
  Newest booked logs that could stand in for the missing new
  ones, by their units, have the same figures.
-/
def NoStandIn
    (booked fresh logs : List FillLog) : Prop :=
  ∀ older, older <+: listedNewest logs booked →
    unitsOf older = unitsOf (missingLogs logs fresh) →
      premiumOf older = premiumOf (missingLogs logs fresh) ∧
        sellerFeeOf older =
          sellerFeeOf (missingLogs logs fresh)

/- The new logs are the listed and the missing ones. -/
theorem listed_add_missing
    (f : FillLog → Int)
    (logs fresh : List FillLog) :
    ((listedNewest logs fresh).map f).sum +
        ((missingLogs logs fresh).map f).sum =
      (fresh.map f).sum := by
  unfold listedNewest missingLogs
  rw [List.map_reverse, List.sum_reverse]
  induction fresh with
  | nil => rfl
  | cons l rest ih =>
      by_cases hListed : l ∈ logs
      · simp only [hListed, decide_true, Bool.not_true,
          List.filter_cons, if_true, Bool.false_eq_true,
          if_false, List.map_cons, List.sum_cons]
        rw [← ih, add_assoc]
      · simp only [hListed, decide_false, Bool.not_false,
          List.filter_cons, if_true, Bool.false_eq_true,
          if_false, List.map_cons, List.sum_cons]
        rw [← ih, add_left_comm]

theorem unitsOf_pos
    (hPositive : PositiveUnits fresh)
    (hSome : fresh ≠ []) :
    0 < unitsOf fresh := by
  by_contra hNone
  exact hSome
    (eq_nil_of_unitsOf_nonpos hPositive (not_lt.mp hNone))

/- A part with at least the first list's units contains it. -/
theorem prefix_append_of_units_le
    {first rest passed : List FillLog}
    (hPositive : PositiveUnits first)
    (hPrefix : passed <+: first ++ rest)
    (hUnits : unitsOf first ≤ unitsOf passed) :
    ∃ older, older <+: rest ∧ passed = first ++ older := by
  rcases List.prefix_or_prefix_of_prefix hPrefix
      (List.prefix_append first rest) with hShort | hLong
  · rcases hShort with ⟨more, rfl⟩
    have hMore : PositiveUnits more :=
      fun l hl => hPositive l (List.mem_append_right _ hl)
    have hNone : more = [] := by
      apply eq_nil_of_unitsOf_nonpos hMore
      rw [unitsOf_append] at hUnits
      omega
    subst hNone
    exact ⟨[], List.nil_prefix, by simp⟩
  · rcases hLong with ⟨older, rfl⟩
    refine ⟨older, ?_, rfl⟩
    exact (List.prefix_append_right_inj first).mp hPrefix

/- What a match is made of: new logs, and older stand-ins. -/
theorem matchFillLogs_history
    (hHistory : IsHistory (booked ++ fresh))
    (hLogs : ∀ l ∈ logs, l ∈ booked ++ fresh)
    (hSome : fresh ≠ [])
    {found : FillMatch} :
    matchFillLogs (unitsOf fresh) logs = some found ↔
      ∃ older, older <+: listedNewest logs booked ∧
        unitsOf older = unitsOf (missingLogs logs fresh) ∧
        found =
          matchOf (listedNewest logs fresh ++ older) := by
  have hPositive : PositiveUnits logs :=
    fun l hl => hHistory.positive l (hLogs l hl)
  have hFresh : PositiveUnits fresh :=
    fun l hl =>
      hHistory.positive l (List.mem_append_right _ hl)
  have hListed : PositiveUnits (listedNewest logs fresh) :=
    fun l hl =>
      hFresh l
        (List.mem_of_mem_filter (List.mem_reverse.mp hl))
  have hMissing : PositiveUnits (missingLogs logs fresh) :=
    fun l hl => hFresh l (List.mem_of_mem_filter hl)
  have hUnits :
      unitsOf (listedNewest logs fresh) +
          unitsOf (missingLogs logs fresh) =
        unitsOf fresh :=
    listed_add_missing (fun l => l.units) logs fresh
  rw [matchFillLogs_eq_some (unitsOf_pos hFresh hSome)
      hPositive,
    newestLogs_eq hHistory hLogs, listedNewest_append]
  constructor
  · rintro ⟨passed, hPrefix, hSum, rfl⟩
    have hCovers :
        unitsOf (listedNewest logs fresh) ≤
          unitsOf passed := by
      have hRest := unitsOf_nonneg hMissing
      omega
    rcases prefix_append_of_units_le hListed hPrefix
        hCovers with ⟨older, hOlder, rfl⟩
    refine ⟨older, hOlder, ?_, rfl⟩
    rw [unitsOf_append] at hSum
    omega
  · rintro ⟨older, hOlder, hSum, rfl⟩
    refine ⟨listedNewest logs fresh ++ older, ?_, ?_, rfl⟩
    · exact (List.prefix_append_right_inj _).mpr hOlder
    · rw [unitsOf_append, hSum, hUnits]

/-
  Only the new fills are booked exactly when there is one and
  no older logs of the same units can stand in, with other
  figures, for those the node left out.
-/
theorem matchFillLogs_books_new_iff
    (booked fresh logs : List FillLog)
    (hHistory : IsHistory (booked ++ fresh))
    (hLogs : ∀ l ∈ logs, l ∈ booked ++ fresh) :
    BooksOnlyNew (unitsOf fresh) fresh logs ↔
      fresh ≠ [] ∧ NoStandIn booked fresh logs := by
  have hPremium :
      premiumOf (listedNewest logs fresh) +
          premiumOf (missingLogs logs fresh) =
        premiumOf fresh :=
    listed_add_missing (fun l => l.premium) logs fresh
  have hFee :
      sellerFeeOf (listedNewest logs fresh) +
          sellerFeeOf (missingLogs logs fresh) =
        sellerFeeOf fresh :=
    listed_add_missing (fun l => l.sellerFee) logs fresh
  constructor
  · intro h
    have hSome : fresh ≠ [] := by
      rintro rfl
      apply h.found
      · simp
      · exact if_pos (le_refl 0)
    refine ⟨hSome, ?_⟩
    intro older hOlder hUnits
    have hFound :=
      (matchFillLogs_history hHistory hLogs hSome).mpr
        ⟨older, hOlder, hUnits, rfl⟩
    rcases h.exact _ hFound with ⟨hSamePremium, hSameFee⟩
    simp only [matchOf, premiumOf_append,
      sellerFeeOf_append] at hSamePremium hSameFee
    constructor <;> omega
  · rintro ⟨hSome, hNoStandIn⟩
    constructor
    · intro found hFound
      rcases (matchFillLogs_history hHistory hLogs
          hSome).mp hFound with
        ⟨older, hOlder, hUnits, rfl⟩
      rcases hNoStandIn older hOlder hUnits with
        ⟨hSamePremium, hSameFee⟩
      simp only [matchOf, premiumOf_append,
        sellerFeeOf_append]
      constructor <;> omega
    · intro hAll
      have hNone : missingLogs logs fresh = [] := by
        simpa [missingLogs] using hAll
      have hFound :=
        (matchFillLogs_history hHistory hLogs hSome).mpr
          ⟨[], List.nil_prefix, by rw [hNone], rfl⟩
      rw [hFound]
      simp

/- Two fills of five units, the later one at another fee. -/
def fillLog
    (blockNumber sellerFee : Int) : FillLog :=
  { orderId := 1
    maker := "vault"
    units := 5
    premium := 50
    sellerFee := sellerFee
    blockNumber := blockNumber
    logIndex := 0 }

theorem fillLogs_history :
    IsHistory ([fillLog 1 1] ++ [fillLog 2 2]) := by
  constructor
  · simp [LogBefore, fillLog]
  · intro l hl
    simp only [List.cons_append, List.nil_append,
      List.mem_cons, List.not_mem_nil, or_false] at hl
    rcases hl with rfl | rfl <;> decide

theorem fillLogs_all_listed :
    BooksOnlyNew (unitsOf [fillLog 2 2]) [fillLog 2 2]
        [fillLog 2 2, fillLog 1 1, fillLog 2 2] ↔
      [fillLog 2 2] ≠ [] ∧
        NoStandIn [fillLog 1 1] [fillLog 2 2]
          [fillLog 2 2, fillLog 1 1, fillLog 2 2] := by
  apply matchFillLogs_books_new_iff [fillLog 1 1]
    [fillLog 2 2] _ fillLogs_history
  decide

/-
  The node left the new log out: the booked one of the same
  units is matched, and its fee is booked again.
-/
theorem matchFillLogs_books_old :
    ¬ (∀ booked fresh logs : List FillLog,
        IsHistory (booked ++ fresh) → fresh ≠ [] →
          (∀ l ∈ logs, l ∈ booked ++ fresh) →
            BooksOnlyNew (unitsOf fresh) fresh logs) := by
  intro h
  have hOnly :=
    h [fillLog 1 1] [fillLog 2 2] [fillLog 1 1]
      fillLogs_history (by decide) (by decide)
  have hFound :
      matchFillLogs (unitsOf [fillLog 2 2])
          [fillLog 1 1] =
        some { premium := 50, sellerFee := 1, logs := 1 } := by
    decide
  have hFee := (hOnly.exact _ hFound).2
  revert hFee
  decide

end Callhouse.Keeper.Mm
