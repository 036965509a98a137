import Callhouse.Indexer.EpochMerkle
import Callhouse.Lib.ProportionalShare
import Callhouse.Lib.RankOrder

/-
  indexer/scripts/maker-epoch.mjs, allocate: an epoch's budget
  split over the makers' scores by largest remainder.

  A row's percentage is a floating-point number: the model
  has what `Math.round(row.score * 10_000)` makes of it.

  Main declarations:
    * `scorePpm`, `allocate`
    * `allocate_largest_remainder`
-/

----
-- Scores
----

namespace Callhouse.Indexer.MakerEpoch

/-
  One maker of the input.  `percent` is the rounded score of
  a row without an exact one, and `none` for a score that is
  no percentage from 0 to 100.
-/
structure MakerRow where
  maker : Address
  exactPpm : Option Int
  percent : Option Int
deriving DecidableEq

def scorePpm
    (row : MakerRow) : Except String Int :=
  match row.exactPpm with
  | some exact =>
      if exact < 0 then
        .error "scorePpm must be a decimal integer"
      else if exact > 1000000 then
        .error "scorePpm exceeds one million"
      else .ok exact
  | none =>
      match row.percent with
      | none =>
          .error
            "maker score must be a percentage from 0 to 100"
      | some rounded => .ok rounded

structure ScoredMaker where
  account : Address
  score : Int
deriving DecidableEq

/- The rows in input order; `text` spells an address. -/
def readMakers
    (text : Address → String)
    (seen : List Address) :
    List MakerRow → Except String (List ScoredMaker)
  | [] => .ok []
  | row :: rest =>
      if row.maker ∈ seen then
        .error ("duplicate maker " ++ text row.maker)
      else
        match scorePpm row with
        | .error e => .error e
        | .ok score =>
            match readMakers text (row.maker :: seen) rest with
            | .error e => .error e
            | .ok makers =>
                .ok
                  ({ account := row.maker, score := score } ::
                    makers)

/- Higher scores first, then by address. -/
def ScoreOrder
    (a b : ScoredMaker) : Prop :=
  if a.score = b.score then a.account ≤ b.account
  else a.score > b.score

instance : DecidableRel ScoreOrder :=
  fun a b => by
    unfold ScoreOrder
    infer_instance

def rankedOf
    (makers : List ScoredMaker) : List ScoredMaker :=
  (makers.filter (fun row => row.score > 0)).insertionSort
    ScoreOrder

----
-- Allocation
----

section

open ProportionalShare

structure MakerShare where
  account : Address
  score : Int
  index : Nat
  amount : Int
  remainder : Int
deriving DecidableEq

def scoreFn
    (row : ScoredMaker) : Int :=
  row.score

def shareOf
    (budget totalScore : Int)
    (entry : ScoredMaker × Nat) : MakerShare :=
  { account := entry.1.account
    score := entry.1.score
    index := entry.2
    amount := share scoreFn budget totalScore entry.1
    remainder := (budget * entry.1.score).tmod totalScore }

def allocationsOf
    (budget totalScore : Int)
    (ranked : List ScoredMaker) : List MakerShare :=
  ranked.zipIdx.map (shareOf budget totalScore)

/- Larger remainders first, then by rank. -/
def ResidualOrder
    (a b : MakerShare) : Prop :=
  if a.remainder = b.remainder then a.index ≤ b.index
  else a.remainder > b.remainder

instance : DecidableRel ResidualOrder :=
  fun a b => by
    unfold ResidualOrder
    infer_instance

/- The rows that the loop adds one to, by their index. -/
def dustedIndices
    (left : Int) : List MakerShare → List Nat
  | [] => []
  | row :: rest =>
      if left = 0 then []
      else row.index :: dustedIndices (left - 1) rest

def addDust
    (dusted : List Nat)
    (row : MakerShare) : MakerShare :=
  if row.index ∈ dusted then
    { row with amount := row.amount + 1 }
  else row

/- Rows that are paid nothing are dropped, and the rest numbered. -/
def published
    (rows : List MakerShare) : List MakerShare :=
  ((rows.filter (fun row => row.amount > 0)).zipIdx).map
    (fun entry => { entry.1 with index := entry.2 })

def paidRows
    (budget : Int)
    (ranked : List ScoredMaker) : List MakerShare :=
  let allocations :=
    allocationsOf budget (total scoreFn ranked) ranked
  let left :=
    budget - (allocations.map (fun row => row.amount)).sum
  let residualOrder := allocations.insertionSort ResidualOrder
  allocations.map (addDust (dustedIndices left residualOrder))

def allocate
    (text : Address → String)
    (rows : List MakerRow)
    (budget : Int) : Except String (List MakerShare) :=
  match readMakers text [] rows with
  | .error e => .error e
  | .ok makers =>
      let ranked := rankedOf makers
      if total scoreFn ranked = 0 then
        .error "epoch has no makers with positive scores"
      else .ok (published (paidRows budget ranked))

/- What a list of shares pays an account. -/
def paidTo
    (rows : List MakerShare)
    (account : Address) : Int :=
  ((rows.filter (fun row => row.account = account)).map
    (fun row => row.amount)).sum

end

----
-- Reading the Makers
----

/- A row's score, where it has one. -/
def scoreOr
    (row : MakerRow) : Int :=
  match scorePpm row with
  | .ok score => score
  | .error _ => 0

def scoredOf
    (row : MakerRow) : ScoredMaker :=
  { account := row.maker
    score := scoreOr row }

/- A row whose score is one the program accepts. -/
def HasScore
    (row : MakerRow) : Prop :=
  ∃ score, scorePpm row = .ok score ∧ 0 ≤ score ∧
    score ≤ 1000000

variable {row : MakerRow}

theorem HasScore.nonneg
    (h : HasScore row) :
    0 ≤ scoreOr row := by
  rcases h with ⟨score, hScore, hNonneg, _⟩
  unfold scoreOr
  rw [hScore]
  exact hNonneg

theorem readMakers_eq
    (text : Address → String)
    {rows : List MakerRow}
    (seen : List Address)
    (hScores : ∀ row ∈ rows, HasScore row)
    (hDistinct : (rows.map (fun row => row.maker)).Nodup)
    (hNew : ∀ row ∈ rows, row.maker ∉ seen) :
    readMakers text seen rows = .ok (rows.map scoredOf) := by
  induction rows generalizing seen with
  | nil => rfl
  | cons row rest ih =>
      rcases hScores row List.mem_cons_self with
        ⟨score, hScore, _⟩
      rw [List.map_cons, List.nodup_cons] at hDistinct
      have hRest :=
        ih (row.maker :: seen)
          (fun r hr => hScores r (List.mem_cons_of_mem _ hr))
          hDistinct.2 (by
            intro r hr hIn
            rcases List.mem_cons.mp hIn with hSame | hSeen
            · apply hDistinct.1
              rw [← hSame]
              exact List.mem_map_of_mem hr
            · exact hNew r (List.mem_cons_of_mem _ hr) hSeen)
      have hScored :
          scoredOf row =
            { account := row.maker, score := score } := by
        unfold scoredOf scoreOr
        rw [hScore]
      unfold readMakers
      rw [if_neg (hNew row List.mem_cons_self), hScore,
        hRest, List.map_cons, hScored]

/- Makers with distinct accounts rank the same in any order. -/
theorem rankedOf_perm
    {makers makers' : List ScoredMaker}
    (hDistinct : (makers.map (fun row => row.account)).Nodup)
    (h : makers'.Perm makers) :
    rankedOf makers' = rankedOf makers := by
  have hKept :
      ((makers.filter (fun row => row.score > 0)).map
        (fun row => row.account)).Nodup :=
    hDistinct.sublist
      (List.Sublist.map _ List.filter_sublist)
  exact
    RankOrder.insertionSort_eq_of_perm
      (fun row => row.score) (fun row => row.account)
      (fun _ _ => Iff.rfl) hKept (h.filter _)

----
-- Dust
----

section

open ProportionalShare

variable {budget : Int} {ranked : List ScoredMaker}

theorem mem_allocationsOf
    {totalScore : Int}
    {row : MakerShare}
    (h : row ∈ allocationsOf budget totalScore ranked) :
    ∃ maker ∈ ranked, ∃ i,
      row = shareOf budget totalScore (maker, i) := by
  rcases List.mem_map.mp h with ⟨⟨maker, i⟩, hIn, rfl⟩
  exact ⟨maker, List.fst_mem_of_mem_zipIdx hIn, i, rfl⟩

variable (budget ranked) in
theorem allocationsOf_indices
    (totalScore : Int) :
    (allocationsOf budget totalScore ranked).map
        (fun row => row.index) =
      List.range ranked.length := by
  unfold allocationsOf
  rw [List.map_map]
  change ranked.zipIdx.map Prod.snd = _
  rw [List.zipIdx_map_snd, List.range_eq_range']

variable (budget ranked) in
theorem allocationsOf_amounts
    (totalScore : Int) :
    (allocationsOf budget totalScore ranked).map
        (fun row => row.amount) =
      ranked.map (share scoreFn budget totalScore) := by
  unfold allocationsOf
  rw [List.map_map]
  change
    ranked.zipIdx.map
      (share scoreFn budget totalScore ∘ Prod.fst) = _
  rw [← List.map_map, List.zipIdx_map_fst]

variable (budget ranked) in
theorem allocationsOf_accounts
    (totalScore : Int) :
    (allocationsOf budget totalScore ranked).map
        (fun row => row.account) =
      ranked.map (fun row => row.account) := by
  unfold allocationsOf
  rw [List.map_map]
  change
    ranked.zipIdx.map
      ((fun row : ScoredMaker => row.account) ∘ Prod.fst) = _
  rw [← List.map_map, List.zipIdx_map_fst]

theorem dustedIndices_eq
    {left : Int}
    (hNonneg : 0 ≤ left)
    (rows : List MakerShare) :
    dustedIndices left rows =
      (rows.take left.toNat).map (fun row => row.index) := by
  induction rows generalizing left with
  | nil => simp [dustedIndices]
  | cons row rest ih =>
      unfold dustedIndices
      split
      · next hZero => simp [hZero]
      · next hSome =>
          have hSucc : left.toNat = (left - 1).toNat + 1 := by
            omega
          rw [ih (by omega), hSucc, List.take_succ_cons,
            List.map_cons]

instance : Std.Total ResidualOrder where
  total :=
    RankOrder.total (fun row : MakerShare => row.remainder)
      (fun row => row.index)

instance : IsTrans MakerShare ResidualOrder where
  trans :=
    RankOrder.trans (fun row : MakerShare => row.remainder)
      (fun row => row.index)

/- Makers with positive scores, and a budget for them. -/
structure Payable
    (budget : Int)
    (ranked : List ScoredMaker) : Prop where
  budget_pos : 0 < budget
  score_pos : ∀ maker ∈ ranked, 0 < maker.score
  some_maker : ranked ≠ []

theorem Payable.score_nonneg
    (h : Payable budget ranked) :
    ∀ maker ∈ ranked, 0 ≤ scoreFn maker :=
  fun maker hIn => (h.score_pos maker hIn).le

theorem Payable.total_pos
    (h : Payable budget ranked) :
    0 < total scoreFn ranked := by
  apply List.sum_pos
  · intro x hx
    rcases List.mem_map.mp hx with ⟨maker, hIn, rfl⟩
    exact h.score_pos maker hIn
  · intro hNone
    exact h.some_maker (List.map_eq_nil_iff.mp hNone)

variable (budget ranked) in
/- The rows before the dust. -/
def draft : List MakerShare :=
  allocationsOf budget (total scoreFn ranked) ranked

variable (budget ranked) in
/- The rows that get one more, in residual order. -/
def dustedRows : List MakerShare :=
  ((draft budget ranked).insertionSort ResidualOrder).take
    (leftover scoreFn budget ranked).toNat

theorem draft_indices_nodup
    (budget : Int)
    (ranked : List ScoredMaker) :
    ((draft budget ranked).map
      (fun row => row.index)).Nodup := by
  unfold draft
  rw [allocationsOf_indices]
  exact List.nodup_range

/- The mutated rows are the dusted ones. -/
theorem paidRows_eq
    (h : Payable budget ranked) :
    paidRows budget ranked =
      (draft budget ranked).map
        (addDust
          ((dustedRows budget ranked).map
            (fun row => row.index))) := by
  have hNonneg :=
    leftover_nonneg h.budget_pos.le h.total_pos
      h.score_nonneg
  have hLeft :
      budget -
          ((allocationsOf budget (total scoreFn ranked)
            ranked).map (fun row => row.amount)).sum =
        leftover scoreFn budget ranked := by
    rw [allocationsOf_amounts]
    rfl
  unfold paidRows
  simp only
  rw [hLeft, dustedIndices_eq hNonneg]
  rfl

/- A row of the draft is dusted when its index is. -/
theorem mem_dustedRows_iff
    {row : MakerShare}
    (hRow : row ∈ draft budget ranked) :
    row.index ∈
        (dustedRows budget ranked).map
          (fun row => row.index) ↔
      row ∈ dustedRows budget ranked := by
  constructor
  · intro hIndex
    rcases List.mem_map.mp hIndex with
      ⟨dusted, hDusted, hSame⟩
    have hIn : dusted ∈ draft budget ranked := by
      have hSorted := List.mem_of_mem_take hDusted
      rw [List.mem_insertionSort] at hSorted
      exact hSorted
    have hEq :=
      List.inj_on_of_nodup_map
        (draft_indices_nodup budget ranked) hIn hRow hSame
    rw [← hEq]
    exact hDusted
  · exact fun hDusted => List.mem_map_of_mem hDusted

/- As many rows get one more as there is dust. -/
theorem length_filter_dusted
    (h : Payable budget ranked) :
    (((draft budget ranked).filter
        (fun row =>
          row.index ∈
            (dustedRows budget ranked).map
              (fun row => row.index))).length : Int) =
      leftover scoreFn budget ranked := by
  have hNonneg :=
    leftover_nonneg h.budget_pos.le h.total_pos
      h.score_nonneg
  have hLess :=
    leftover_lt_length h.budget_pos.le h.total_pos
      h.score_nonneg
  have hPerm :=
    List.perm_insertionSort ResidualOrder
      (draft budget ranked)
  have hNodup :
      (((draft budget ranked).insertionSort
        ResidualOrder).map (fun row => row.index)).Nodup :=
    (hPerm.map _).nodup_iff.mpr
      (draft_indices_nodup budget ranked)
  have hTaken :=
    filter_mem_take hNodup
      (leftover scoreFn budget ranked).toNat
  have hLength :
      (draft budget ranked).length = ranked.length := by
    unfold draft allocationsOf
    rw [List.length_map, List.length_zipIdx]
  rw [← (hPerm.filter _).length_eq]
  unfold dustedRows
  rw [hTaken, List.length_take, hPerm.length_eq, hLength]
  omega

theorem addDust_amount
    (dusted : List Nat)
    (row : MakerShare) :
    (addDust dusted row).amount =
      row.amount + if row.index ∈ dusted then 1 else 0 := by
  unfold addDust
  split
  · rfl
  · exact (add_zero _).symm

theorem sum_addDust
    (dusted : List Nat)
    (rows : List MakerShare) :
    ((rows.map (addDust dusted)).map
        (fun row => row.amount)).sum =
      (rows.map (fun row => row.amount)).sum +
        (rows.filter
          (fun row => row.index ∈ dusted)).length := by
  induction rows with
  | nil => rfl
  | cons row rest ih =>
      rw [List.map_cons, List.map_cons, List.sum_cons, ih,
        addDust_amount, List.map_cons, List.sum_cons,
        List.filter_cons]
      by_cases hIn : row.index ∈ dusted
      · simp only [hIn, decide_true, if_true,
          List.length_cons]
        push_cast
        ring
      · simp only [hIn, decide_false, if_false,
          Bool.false_eq_true]
        ring

/- The paid rows add up to the budget. -/
theorem sum_paidRows
    (h : Payable budget ranked) :
    ((paidRows budget ranked).map
      (fun row => row.amount)).sum = budget := by
  rw [paidRows_eq h, sum_addDust, length_filter_dusted h]
  unfold draft leftover
  rw [allocationsOf_amounts]
  exact add_sub_cancel _ _

/- A higher score is never paid less. -/
theorem addDust_mono
    (h : Payable budget ranked)
    {a b : MakerShare}
    (ha : a ∈ draft budget ranked)
    (hb : b ∈ draft budget ranked)
    (hScore : b.score < a.score) :
    (addDust
        ((dustedRows budget ranked).map
          (fun row => row.index)) b).amount ≤
      (addDust
        ((dustedRows budget ranked).map
          (fun row => row.index)) a).amount := by
  have hTotal := h.total_pos
  rcases mem_allocationsOf ha with ⟨makerA, hInA, i, hA⟩
  rcases mem_allocationsOf hb with ⟨makerB, hInB, j, hB⟩
  have hShare : b.amount ≤ a.amount := by
    rw [hA, hB] at hScore ⊢
    exact
      share_le_share h.budget_pos.le hTotal
        (h.score_nonneg makerB hInB) hScore.le
  rw [addDust_amount, addDust_amount]
  by_cases hDustB :
      b.index ∈
        (dustedRows budget ranked).map (fun row => row.index)
  · by_cases hDustA :
        a.index ∈
          (dustedRows budget ranked).map
            (fun row => row.index)
    · rw [if_pos hDustA, if_pos hDustB]
      omega
    · rw [if_neg hDustA, if_pos hDustB]
      -- With equal floors the higher score has more left over.
      have hMore : b.amount ≠ a.amount := by
        intro hSame
        apply hDustA
        rw [mem_dustedRows_iff ha]
        rw [mem_dustedRows_iff hb] at hDustB
        have hExactA :
            total scoreFn ranked * a.amount + a.remainder =
              budget * a.score := by
          rw [hA]
          exact Int.mul_tdiv_add_tmod _ _
        have hExactB :
            total scoreFn ranked * b.amount + b.remainder =
              budget * b.score := by
          rw [hB]
          exact Int.mul_tdiv_add_tmod _ _
        have hProduct :=
          mul_lt_mul_of_pos_left hScore h.budget_pos
        have hRemainder : b.remainder < a.remainder := by
          rw [hSame] at hExactB
          omega
        apply
          mem_take_of_pairwise
            (List.pairwise_insertionSort ResidualOrder _)
            hDustB
        · rw [List.mem_insertionSort]
          exact ha
        · unfold ResidualOrder
          rw [if_neg hRemainder.ne]
          exact not_lt.mpr hRemainder.le
      omega
  · rw [if_neg hDustB]
    split
    · omega
    · omega

end

----
-- The Published Rows
----

section

open ProportionalShare

variable {budget : Int} {ranked : List ScoredMaker}
variable {rows : List MakerShare}

theorem paidTo_of_mem
    {row : MakerShare}
    (hDistinct : (rows.map (fun row => row.account)).Nodup)
    (hRow : row ∈ rows) :
    paidTo rows row.account = row.amount := by
  induction rows with
  | nil => cases hRow
  | cons first rest ih =>
      rw [List.map_cons, List.nodup_cons] at hDistinct
      unfold paidTo
      rw [List.filter_cons]
      rcases List.mem_cons.mp hRow with rfl | hRest
      · have hNone :
            rest.filter
                (fun other => other.account = row.account) =
              [] := by
          rw [List.filter_eq_nil_iff]
          intro other hOther hSame
          apply hDistinct.1
          rw [← of_decide_eq_true hSame]
          exact List.mem_map_of_mem hOther
        simp [hNone]
      · have hOther : first.account ≠ row.account := by
          intro hSame
          apply hDistinct.1
          rw [hSame]
          exact List.mem_map_of_mem hRest
        rw [if_neg (by simpa using hOther)]
        exact ih hDistinct.2 hRest

theorem paidTo_of_absent
    {account : Address}
    (hAbsent :
      account ∉ rows.map (fun row => row.account)) :
    paidTo rows account = 0 := by
  have hNone :
      rows.filter (fun row => row.account = account) =
        [] := by
    rw [List.filter_eq_nil_iff]
    intro row hRow hSame
    apply hAbsent
    rw [← of_decide_eq_true hSame]
    exact List.mem_map_of_mem hRow
  unfold paidTo
  rw [hNone]
  rfl

theorem paidTo_nonneg
    (hNonneg : ∀ row ∈ rows, 0 ≤ row.amount)
    (account : Address) :
    0 ≤ paidTo rows account := by
  apply List.sum_nonneg
  intro x hx
  rcases List.mem_map.mp hx with ⟨row, hRow, rfl⟩
  exact hNonneg row (List.mem_of_mem_filter hRow)

/- Dropping the rows that are paid nothing pays the same. -/
theorem sum_filter_paid
    (hNonneg : ∀ row ∈ rows, 0 ≤ row.amount) :
    ((rows.filter (fun row => row.amount > 0)).map
        (fun row => row.amount)).sum =
      (rows.map (fun row => row.amount)).sum := by
  induction rows with
  | nil => rfl
  | cons row rest ih =>
      have hRest :=
        ih (fun r hr => hNonneg r (List.mem_cons_of_mem _ hr))
      have hRow := hNonneg row List.mem_cons_self
      rw [List.filter_cons, List.map_cons, List.sum_cons,
        ← hRest]
      split
      · rw [List.map_cons, List.sum_cons]
      · next hNone =>
          have hZero : row.amount = 0 := by
            rw [decide_eq_true_eq] at hNone
            omega
          rw [hZero, zero_add]

/- Numbering the rows changes neither accounts nor amounts. -/
theorem published_payments
    (rows : List MakerShare) :
    (published rows).map
        (fun row => (row.account, row.amount)) =
      (rows.filter (fun row => row.amount > 0)).map
        (fun row => (row.account, row.amount)) := by
  unfold published
  rw [List.map_map]
  change
    List.map
      ((fun row : MakerShare => (row.account, row.amount)) ∘
        Prod.fst) _ = _
  rw [← List.map_map, List.zipIdx_map_fst]

theorem published_indices
    (rows : List MakerShare) :
    (published rows).map (fun row => row.index) =
      List.range (published rows).length := by
  unfold published
  rw [List.map_map, List.length_map, List.length_zipIdx]
  change List.map Prod.snd _ = _
  rw [List.zipIdx_map_snd, List.range_eq_range']

theorem published_amounts
    (rows : List MakerShare) :
    (published rows).map (fun row => row.amount) =
      (rows.filter (fun row => row.amount > 0)).map
        (fun row => row.amount) := by
  have h := congrArg (List.map Prod.snd)
    (published_payments rows)
  rw [List.map_map, List.map_map] at h
  exact h

theorem published_accounts
    (rows : List MakerShare) :
    (published rows).map (fun row => row.account) =
      (rows.filter (fun row => row.amount > 0)).map
        (fun row => row.account) := by
  have h := congrArg (List.map Prod.fst)
    (published_payments rows)
  rw [List.map_map, List.map_map] at h
  exact h

theorem mem_published
    {paid : MakerShare}
    (h : paid ∈ published rows) :
    ∃ row ∈ rows, 0 < row.amount ∧
      paid.account = row.account ∧
      paid.amount = row.amount := by
  rcases List.mem_map.mp h with ⟨⟨row, i⟩, hIn, rfl⟩
  have hFiltered := List.fst_mem_of_mem_zipIdx hIn
  refine ⟨row, List.mem_of_mem_filter hFiltered, ?_, rfl, rfl⟩
  exact of_decide_eq_true (List.mem_filter.mp hFiltered).2

/- Publishing pays every account what its row has. -/
theorem paidTo_published
    (hNonneg : ∀ row ∈ rows, 0 ≤ row.amount)
    (hDistinct : (rows.map (fun row => row.account)).Nodup)
    (account : Address) :
    paidTo (published rows) account =
      paidTo rows account := by
  have hKept :
      ((published rows).map
        (fun row => row.account)).Nodup := by
    rw [published_accounts]
    exact
      hDistinct.sublist
        (List.Sublist.map _ List.filter_sublist)
  by_cases hPaid :
      account ∈ (published rows).map (fun row => row.account)
  · rcases List.mem_map.mp hPaid with ⟨paid, hIn, rfl⟩
    rcases mem_published hIn with
      ⟨row, hRow, _, hAccount, hAmount⟩
    rw [paidTo_of_mem hKept hIn, hAmount, hAccount,
      paidTo_of_mem hDistinct hRow]
  · rw [paidTo_of_absent hPaid]
    by_cases hIn :
        account ∈ rows.map (fun row => row.account)
    · rcases List.mem_map.mp hIn with ⟨row, hRow, rfl⟩
      rw [paidTo_of_mem hDistinct hRow]
      rw [published_accounts] at hPaid
      have hNotMore : ¬ 0 < row.amount := by
        intro hMore
        apply hPaid
        apply List.mem_map_of_mem
        exact List.mem_filter.mpr ⟨hRow, decide_eq_true hMore⟩
      have := hNonneg row hRow
      omega
    · exact (paidTo_of_absent hIn).symm

end

----
-- Largest Remainder
----

section

open ProportionalShare

/- A row's exact share of the budget, rounded down. -/
def floorOf
    (rows : List MakerRow)
    (budget : Int)
    (row : MakerRow) : Int :=
  budget * scoreOr row / (rows.map scoreOr).sum

structure LargestRemainder
    (rows : List MakerRow)
    (budget : Int)
    (result : List MakerShare) : Prop where
  positive : ∀ paid ∈ result, 0 < paid.amount
  exact : (result.map (fun paid => paid.amount)).sum = budget
  floors : ∀ paid ∈ result, ∃ row ∈ rows,
    paid.account = row.maker ∧
      (paid.amount = floorOf rows budget row ∨
        paid.amount = floorOf rows budget row + 1)
  makers : ∀ row ∈ rows,
    paidTo result row.maker = floorOf rows budget row ∨
      paidTo result row.maker = floorOf rows budget row + 1
  monotone : ∀ low ∈ rows, ∀ high ∈ rows,
    scoreOr low < scoreOr high →
      paidTo result low.maker ≤ paidTo result high.maker
  indices :
    result.map (fun paid => paid.index) =
      List.range result.length

/- The rows that the allocation is claimed for. -/
structure Scored
    (rows : List MakerRow) : Prop where
  distinct : (rows.map (fun row => row.maker)).Nodup
  score : ∀ row ∈ rows, HasScore row
  some_positive : ∃ row ∈ rows, 0 < scoreOr row

section

variable {rows : List MakerRow} {budget : Int}

theorem scoredOf_accounts
    (rows : List MakerRow) :
    (rows.map scoredOf).map (fun row => row.account) =
      rows.map (fun row => row.maker) := by
  rw [List.map_map]
  rfl

theorem mem_rankedOf
    {makers : List ScoredMaker}
    {maker : ScoredMaker} :
    maker ∈ rankedOf makers ↔
      maker ∈ makers ∧ 0 < maker.score := by
  unfold rankedOf
  rw [List.mem_insertionSort, List.mem_filter,
    decide_eq_true_eq]

theorem rankedOf_accounts_nodup
    {makers : List ScoredMaker}
    (hDistinct :
      (makers.map (fun row => row.account)).Nodup) :
    ((rankedOf makers).map
      (fun row => row.account)).Nodup := by
  have hPerm :=
    List.perm_insertionSort ScoreOrder
      (makers.filter (fun row => row.score > 0))
  apply (hPerm.map _).nodup_iff.mpr
  exact
    hDistinct.sublist
      (List.Sublist.map _ List.filter_sublist)

theorem Scored.payable
    (h : Scored rows)
    (hBudget : 0 < budget) :
    Payable budget (rankedOf (rows.map scoredOf)) := by
  refine ⟨hBudget, ?_, ?_⟩
  · exact fun maker hIn => (mem_rankedOf.mp hIn).2
  · rcases h.some_positive with ⟨row, hRow, hPositive⟩
    exact
      List.ne_nil_of_mem
        (mem_rankedOf.mpr
          ⟨List.mem_map_of_mem hRow, hPositive⟩)

/- Makers without a score do not change the total. -/
theorem Scored.total_ranked
    (h : Scored rows) :
    total scoreFn (rankedOf (rows.map scoredOf)) =
      (rows.map scoreOr).sum := by
  have hNonneg :
      ∀ score ∈ rows.map scoreOr, (0 : Int) ≤ score := by
    intro score hIn
    rcases List.mem_map.mp hIn with ⟨row, hRow, rfl⟩
    exact (h.score row hRow).nonneg
  have hPerm :=
    List.perm_insertionSort ScoreOrder
      ((rows.map scoredOf).filter (fun row => row.score > 0))
  unfold total rankedOf
  rw [(hPerm.map scoreFn).sum_eq]
  clear hPerm h
  induction rows with
  | nil => rfl
  | cons row rest ih =>
      rw [List.map_cons, List.forall_mem_cons] at hNonneg
      rw [List.map_cons, List.filter_cons, List.map_cons,
        List.sum_cons, ← ih hNonneg.2]
      split
      · rw [List.map_cons, List.sum_cons]
        rfl
      · next hNone =>
          have hZero : scoreOr row = 0 := by
            rw [decide_eq_true_eq] at hNone
            exact le_antisymm (not_lt.mp hNone) hNonneg.1
          rw [hZero, zero_add]

theorem Scored.allocate_eq
    (h : Scored rows)
    (hBudget : 0 < budget)
    (text : Address → String) :
    allocate text rows budget =
      .ok
        (published
          (paidRows budget
            (rankedOf (rows.map scoredOf)))) := by
  have hTotal := (h.payable hBudget).total_pos
  unfold allocate
  rw [readMakers_eq text [] h.score h.distinct
    (fun _ _ => List.not_mem_nil)]
  simp only
  rw [if_neg hTotal.ne']

end

end

----
-- The Split
----

open ProportionalShare

variable {rows : List MakerRow} {budget : Int}

/- The row that a maker's input row ends in. -/
theorem Scored.paid_row
    (h : Scored rows)
    (hBudget : 0 < budget)
    (hRow : row ∈ rows)
    (hPositive : 0 < scoreOr row) :
    ∃ drafted ∈ draft budget (rankedOf (rows.map scoredOf)),
      drafted.account = row.maker ∧
        drafted.score = scoreOr row ∧
        drafted.amount = floorOf rows budget row := by
  have hRanked : scoredOf row ∈ rankedOf (rows.map scoredOf) :=
    mem_rankedOf.mpr ⟨List.mem_map_of_mem hRow, hPositive⟩
  rcases List.mem_iff_getElem.mp hRanked with ⟨i, hi, hAt⟩
  have hEntry :
      (scoredOf row, i) ∈
        (rankedOf (rows.map scoredOf)).zipIdx := by
    rw [List.mem_zipIdx_iff_getElem?,
      List.getElem?_eq_getElem hi, hAt]
  refine
    ⟨shareOf budget _ (scoredOf row, i),
      List.mem_map_of_mem hEntry, rfl, rfl, ?_⟩
  change share scoreFn budget _ (scoredOf row) = _
  unfold share floorOf
  rw [h.total_ranked]
  exact
    Int.tdiv_eq_ediv_of_nonneg
      (mul_nonneg hBudget.le hPositive.le)

theorem Scored.paidRows_accounts_nodup
    (h : Scored rows)
    (hBudget : 0 < budget) :
    ((paidRows budget (rankedOf (rows.map scoredOf))).map
      (fun row => row.account)).Nodup := by
  have hSame :
      (fun row : MakerShare => row.account) ∘
          addDust
            ((dustedRows budget
              (rankedOf (rows.map scoredOf))).map
                (fun row => row.index)) =
        fun row => row.account := by
    funext row
    change (addDust _ row).account = _
    unfold addDust
    split
    · rfl
    · rfl
  rw [paidRows_eq (h.payable hBudget), List.map_map, hSame]
  unfold draft
  rw [allocationsOf_accounts]
  apply rankedOf_accounts_nodup
  rw [scoredOf_accounts]
  exact h.distinct

/- The payment of one drafted row. -/
theorem Payable.paidTo_drafted
    {ranked : List ScoredMaker}
    (h : Payable budget ranked)
    (hDistinct :
      ((paidRows budget ranked).map
        (fun row => row.account)).Nodup)
    {drafted : MakerShare}
    (hDrafted : drafted ∈ draft budget ranked) :
    paidTo (paidRows budget ranked) drafted.account =
      (addDust
        ((dustedRows budget ranked).map
          (fun row => row.index)) drafted).amount := by
  have hAccount :
      (addDust
        ((dustedRows budget ranked).map
          (fun row => row.index)) drafted).account =
        drafted.account := by
    unfold addDust
    split
    · rfl
    · rfl
  rw [← hAccount]
  apply paidTo_of_mem hDistinct
  rw [paidRows_eq h]
  exact List.mem_map_of_mem hDrafted

theorem Payable.paidRows_nonneg
    {ranked : List ScoredMaker}
    (h : Payable budget ranked) :
    ∀ row ∈ paidRows budget ranked, 0 ≤ row.amount := by
  intro row hRow
  rw [paidRows_eq h] at hRow
  rcases List.mem_map.mp hRow with ⟨drafted, hIn, rfl⟩
  rcases mem_allocationsOf hIn with ⟨maker, hMaker, i, rfl⟩
  have hShare :=
    share_nonneg h.budget_pos.le h.total_pos
      (h.score_nonneg maker hMaker)
  rw [addDust_amount]
  change 0 ≤ share scoreFn budget _ maker + _
  split
  · omega
  · omega

section

variable (h : Scored rows)
include h

/- A maker without a score has no row. -/
theorem Scored.paidTo_zero
    (hBudget : 0 < budget)
    (hRow : row ∈ rows)
    (hZero : scoreOr row = 0) :
    paidTo
        (paidRows budget (rankedOf (rows.map scoredOf)))
        row.maker = 0 := by
  apply paidTo_of_absent
  intro hIn
  rw [paidRows_eq (h.payable hBudget), List.map_map] at hIn
  rcases List.mem_map.mp hIn with
    ⟨drafted, hDrafted, hAccount⟩
  rcases mem_allocationsOf hDrafted with
    ⟨maker, hMaker, i, rfl⟩
  rcases mem_rankedOf.mp hMaker with ⟨hScored, hPositive⟩
  rcases List.mem_map.mp hScored with
    ⟨other, hOther, rfl⟩
  have hSame : other.maker = row.maker := by
    rw [← hAccount]
    change _ = (addDust _ _).account
    unfold addDust
    split
    · rfl
    · rfl
  have hEq :=
    List.inj_on_of_nodup_map h.distinct hOther hRow hSame
  rw [hEq] at hPositive
  exact absurd hPositive hZero.not_gt

/- Every maker is paid its floor or one more. -/
theorem Scored.paidTo_floor
    (hBudget : 0 < budget)
    (hRow : row ∈ rows) :
    paidTo
          (paidRows budget (rankedOf (rows.map scoredOf)))
          row.maker = floorOf rows budget row ∨
      paidTo
          (paidRows budget (rankedOf (rows.map scoredOf)))
          row.maker = floorOf rows budget row + 1 := by
  rcases (h.score row hRow).nonneg.eq_or_lt with
    hZero | hPositive
  · left
    rw [h.paidTo_zero hBudget hRow hZero.symm]
    unfold floorOf
    rw [← hZero, mul_zero, Int.zero_ediv]
  · rcases h.paid_row hBudget hRow hPositive with
      ⟨drafted, hDrafted, hAccount, _, hFloor⟩
    rw [← hAccount,
      (h.payable hBudget).paidTo_drafted
        (h.paidRows_accounts_nodup hBudget) hDrafted,
      addDust_amount, hFloor]
    split
    · right
      rfl
    · left
      exact add_zero _

theorem Scored.paidTo_mono
    (hBudget : 0 < budget)
    {low high : MakerRow}
    (hLow : low ∈ rows)
    (hHigh : high ∈ rows)
    (hLess : scoreOr low < scoreOr high) :
    paidTo
        (paidRows budget (rankedOf (rows.map scoredOf)))
        low.maker ≤
      paidTo
        (paidRows budget (rankedOf (rows.map scoredOf)))
        high.maker := by
  have hPay := h.payable hBudget
  have hDistinct := h.paidRows_accounts_nodup hBudget
  have hLowNonneg := (h.score low hLow).nonneg
  rcases hLowNonneg.eq_or_lt with hZero | hPositive
  · rw [h.paidTo_zero hBudget hLow hZero.symm]
    exact paidTo_nonneg hPay.paidRows_nonneg _
  · rcases h.paid_row hBudget hLow hPositive with
      ⟨lowRow, hLowRow, hLowAccount, hLowScore, _⟩
    rcases h.paid_row hBudget hHigh
        (hLowNonneg.trans_lt hLess) with
      ⟨highRow, hHighRow, hHighAccount, hHighScore, _⟩
    rw [← hLowAccount, ← hHighAccount,
      hPay.paidTo_drafted hDistinct hLowRow,
      hPay.paidTo_drafted hDistinct hHighRow]
    apply addDust_mono hPay hHighRow hLowRow
    rw [hLowScore, hHighScore]
    exact hLess

theorem Scored.perm
    {rows' : List MakerRow}
    (hPerm : rows'.Perm rows) :
    Scored rows' := by
  rcases h.some_positive with ⟨row, hRow, hPositive⟩
  exact
    { distinct := (hPerm.map _).nodup_iff.mpr h.distinct
      score := fun r hr =>
        h.score r (hPerm.mem_iff.mp hr)
      some_positive :=
        ⟨row, hPerm.mem_iff.mpr hRow, hPositive⟩ }

/- The published rows are the largest-remainder split. -/
theorem Scored.largestRemainder
    (hBudget : 0 < budget) :
    LargestRemainder rows budget
      (published
        (paidRows budget
          (rankedOf (rows.map scoredOf)))) := by
  have hPay := h.payable hBudget
  have hNonneg := hPay.paidRows_nonneg
  have hDistinct := h.paidRows_accounts_nodup hBudget
  have hPaid := paidTo_published hNonneg hDistinct
  refine
    { positive := ?_
      exact := ?_
      floors := ?_
      makers := ?_
      monotone := ?_
      indices := published_indices _ }
  · intro paid hIn
    rcases mem_published hIn with
      ⟨row, _, hPositive, _, hAmount⟩
    rw [hAmount]
    exact hPositive
  · rw [published_amounts, sum_filter_paid hNonneg,
      sum_paidRows hPay]
  · intro paid hIn
    rcases mem_published hIn with
      ⟨row, hRow, _, hAccount, hAmount⟩
    have hHere := hRow
    rw [paidRows_eq hPay] at hHere
    rcases List.mem_map.mp hHere with
      ⟨drafted, hDrafted, hDusted⟩
    rcases mem_allocationsOf hDrafted with
      ⟨maker, hMaker, i, hShare⟩
    rcases List.mem_map.mp (mem_rankedOf.mp hMaker).1 with
      ⟨input, hInput, hScored⟩
    have hMakerAccount : row.account = input.maker := by
      rw [← hDusted, hShare, ← hScored]
      unfold addDust
      split
      · rfl
      · rfl
    refine ⟨input, hInput, ?_, ?_⟩
    · rw [hAccount, hMakerAccount]
    · rw [hAmount, ← paidTo_of_mem hDistinct hRow,
        hMakerAccount]
      exact h.paidTo_floor hBudget hInput
  · intro row hRow
    rw [hPaid]
    exact h.paidTo_floor hBudget hRow
  · intro low hLow high hHigh hLess
    rw [hPaid, hPaid]
    exact h.paidTo_mono hBudget hLow hHigh hLess

end

/-
  Any makers with distinct addresses and scores that are not
  all zero, in any order, get the same largest-remainder
  split of any budget.
-/
theorem allocate_largest_remainder
    (text : Address → String)
    (rows : List MakerRow)
    (budget : Int)
    (hScored : Scored rows)
    (hBudget : 0 < budget) :
    ∃ result, allocate text rows budget = .ok result ∧
      LargestRemainder rows budget result ∧
      ∀ rows', List.Perm rows' rows →
        allocate text rows' budget = .ok result := by
  refine
    ⟨_, hScored.allocate_eq hBudget text,
      hScored.largestRemainder hBudget, ?_⟩
  intro rows' hPerm
  rw [(hScored.perm hPerm).allocate_eq hBudget text]
  have hAccounts :
      ((rows.map scoredOf).map
        (fun row => row.account)).Nodup := by
    rw [scoredOf_accounts]
    exact hScored.distinct
  rw [rankedOf_perm hAccounts (hPerm.map scoredOf)]

/- Three makers, one without a score, share a budget of ten. -/
def threeMakers : List MakerRow :=
  [ { maker := 11, exactPpm := some 400000, percent := none },
    { maker := 12, exactPpm := none, percent := some 0 },
    { maker := 13, exactPpm := some 200000,
      percent := none } ]

theorem threeMakers_scored :
    Scored threeMakers := by
  refine ⟨by decide, ?_, ⟨_, List.mem_cons_self, by decide⟩⟩
  intro row hRow
  unfold threeMakers at hRow
  simp only [List.mem_cons, List.not_mem_nil, or_false]
    at hRow
  rcases hRow with rfl | rfl | rfl
  · exact ⟨400000, rfl, by decide, by decide⟩
  · exact ⟨0, rfl, by decide, by decide⟩
  · exact ⟨200000, rfl, by decide, by decide⟩

theorem threeMakers_split :
    ∃ result,
      allocate (fun _ => "0x") threeMakers 10 =
          .ok result ∧
        LargestRemainder threeMakers 10 result ∧
        ∀ rows', List.Perm rows' threeMakers →
          allocate (fun _ => "0x") rows' 10 = .ok result :=
  allocate_largest_remainder (fun _ => "0x") threeMakers 10
    threeMakers_scored (by decide)

end Callhouse.Indexer.MakerEpoch
