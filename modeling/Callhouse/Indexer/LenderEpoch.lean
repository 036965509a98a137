import Callhouse.Indexer.EpochMerkle

/-
  indexer/scripts/lender-epoch.mjs: the split of an epoch's
  budget over the lenders' weights.

  A round pins every wallet whose share passes the cap and
  starts again on what is left for the others; the round that
  pins nobody pays the shares, and the dust by largest
  remainder.

  Main declarations:
    * `capRound`, `openOf_capRound_lt`
    * `pinDraft`, `pinAll`
    * `allocate`
-/

----
-- Rounds
----

namespace Callhouse.Indexer.LenderEpoch

def bps : Int := 10000

structure LenderWeight where
  account : Address
  weight : Int
deriving DecidableEq

def Distinct
    (weights : List LenderWeight) : Prop :=
  (weights.map (fun row => row.account)).Nodup

/- The wallets pinned in a round, and whether it cut any. -/
structure Round where
  pinned : OrderedMap Address Int
  capped : Bool

def shareOf
    (remaining openWeight : Int)
    (row : LenderWeight) : Int :=
  (remaining * row.weight).tdiv openWeight

def capRow
    (cap remaining openWeight : Int)
    (round : Round)
    (row : LenderWeight) : Round :=
  if shareOf remaining openWeight row > cap then
    { pinned := round.pinned.set row.account cap
      capped := true }
  else round

def capRound
    (cap remaining openWeight : Int)
    (opened : List LenderWeight)
    (pinned : OrderedMap Address Int) : Round :=
  opened.foldl (capRow cap remaining openWeight)
    { pinned := pinned
      capped := false }

variable (weights : List LenderWeight)

def openOf
    (pinned : OrderedMap Address Int) : List LenderWeight :=
  weights.filter (fun row => !pinned.has row.account)

def remainingOf
    (budget : Int)
    (pinned : OrderedMap Address Int) : Int :=
  budget - pinned.values.sum

def weightOf
    (opened : List LenderWeight) : Int :=
  (opened.map (fun row => row.weight)).sum

/- The members that a round pins, with the cap. -/
def cutEntries
    (cap remaining openWeight : Int)
    (opened : List LenderWeight) : List (Address × Int) :=
  (opened.filter
    (fun row =>
      cap < shareOf remaining openWeight row)).map
    (fun row => (row.account, cap))

theorem foldl_capRow
    (cap remaining openWeight : Int)
    (opened : List LenderWeight)
    (round : Round) :
    opened.foldl (capRow cap remaining openWeight) round =
      { pinned :=
          round.pinned.setAll
            (cutEntries cap remaining openWeight opened)
        capped :=
          round.capped ||
            opened.any
              (fun row =>
                cap < shareOf remaining openWeight row) } := by
  induction opened generalizing round with
  | nil => simp [cutEntries, OrderedMap.setAll]
  | cons row rest ih =>
      rw [List.foldl_cons, ih]
      by_cases hOver : cap < shareOf remaining openWeight row
      · simp [capRow, cutEntries, OrderedMap.setAll, hOver]
      · simp [capRow, cutEntries, hOver]

theorem capRound_eq
    (cap remaining openWeight : Int)
    (opened : List LenderWeight)
    (pinned : OrderedMap Address Int) :
    capRound cap remaining openWeight opened pinned =
      { pinned :=
          pinned.setAll
            (cutEntries cap remaining openWeight opened)
        capped :=
          opened.any
            (fun row =>
              cap < shareOf remaining openWeight row) } := by
  unfold capRound
  rw [foldl_capRow, Bool.false_or]

/- Whatever is pinned stays out of the open wallets. -/
theorem openOf_setAll
    (pinned : OrderedMap Address Int)
    (entries : List (Address × Int)) :
    openOf weights (pinned.setAll entries) =
      (openOf weights pinned).filter
        (fun row =>
          row.account ∉ entries.map Prod.fst) := by
  unfold openOf
  rw [List.filter_filter]
  apply List.filter_congr
  intro row _
  rw [Bool.eq_iff_iff]
  have hHas := pinned.has_setAll entries (k := row.account)
  rw [Bool.not_eq_true', Bool.and_eq_true,
    Bool.not_eq_true', decide_eq_true_eq,
    ← Bool.not_eq_true, ← Bool.not_eq_true, hHas, not_or]

/- A round that cuts someone leaves fewer wallets open. -/
theorem openOf_capRound_lt
    {weights : List LenderWeight}
    {pinned : OrderedMap Address Int}
    {cap remaining openWeight : Int}
    (hCapped :
      (capRound cap remaining openWeight
        (openOf weights pinned) pinned).capped = true) :
    (openOf weights
        (capRound cap remaining openWeight
          (openOf weights pinned) pinned).pinned).length <
      (openOf weights pinned).length := by
  rw [capRound_eq] at hCapped ⊢
  simp only [List.any_eq_true, decide_eq_true_eq] at hCapped
  rcases hCapped with ⟨row, hOpen, hOver⟩
  rw [openOf_setAll, List.length_filter_lt_length_iff_exists]
  refine ⟨row, hOpen, ?_⟩
  have hCut :
      row.account ∈
        (cutEntries cap remaining openWeight
          (openOf weights pinned)).map Prod.fst := by
    unfold cutEntries
    rw [List.map_map]
    apply List.mem_map_of_mem
    exact List.mem_filter.mpr ⟨hOpen, decide_eq_true hOver⟩
  simp [hCut]

----
-- Allocation
----

structure DraftRow where
  account : Address
  amount : Int
  remainder : Int
deriving DecidableEq

structure Payout where
  account : Address
  amount : Int
deriving DecidableEq

structure Allocation where
  account : Address
  amount : Int
  index : Nat
deriving DecidableEq

def draftOf
    (remaining openWeight : Int)
    (row : LenderWeight) : DraftRow :=
  { account := row.account
    amount := shareOf remaining openWeight row
    remainder := (remaining * row.weight).tmod openWeight }

/- Larger remainders first, then by address. -/
def DustOrder
    (a b : DraftRow) : Prop :=
  if a.remainder = b.remainder then a.account ≤ b.account
  else a.remainder > b.remainder

instance : DecidableRel DustOrder :=
  fun a b => by
    unfold DustOrder
    infer_instance

/- One more for each row, until none is left. -/
def spreadDust
    (left : Int) : List DraftRow → List DraftRow
  | [] => []
  | row :: rest =>
      if left = 0 then row :: rest
      else
        { row with amount := row.amount + 1 } ::
          spreadDust (left - 1) rest

/-
  The sorted copy shares its rows with the draft. The rows are
  pinned in its order: the map is only read by account.
-/
def pinDraft
    (remaining openWeight : Int)
    (opened : List LenderWeight)
    (pinned : OrderedMap Address Int) :
    OrderedMap Address Int :=
  let draft := opened.map (draftOf remaining openWeight)
  let left :=
    remaining - (draft.map (fun row => row.amount)).sum
  let rows := spreadDust left (draft.insertionSort DustOrder)
  pinned.setAll (rows.map (fun row => (row.account, row.amount)))

def pinAll
    (weights : List LenderWeight)
    (budget cap : Int)
    (pinned : OrderedMap Address Int) :
    OrderedMap Address Int :=
  let opened := openOf weights pinned
  let remaining := remainingOf budget pinned
  let openWeight := weightOf opened
  if opened.length = 0 ∨ openWeight = 0 then pinned
  else
    let round :=
      capRound cap remaining openWeight opened pinned
    if round.capped = true then
      pinAll weights budget cap round.pinned
    else pinDraft remaining openWeight opened round.pinned
termination_by (openOf weights pinned).length
decreasing_by exact openOf_capRound_lt ‹_›

def payoutsOf
    (pinned : OrderedMap Address Int) : List Payout :=
  (weights.map
    (fun row =>
      { account := row.account
        amount := pinned.getD row.account 0 })).filter
    (fun payout => payout.amount > 0)

def indexed
    (payouts : List Payout) : List Allocation :=
  payouts.zipIdx.map
    (fun entry =>
      { account := entry.1.account
        amount := entry.1.amount
        index := entry.2 })

def capOf
    (budget capBps : Int) : Int :=
  (budget * capBps).tdiv bps

def allocate
    (budget capBps : Int) : Except String (List Allocation) :=
  if weights.length = 0 then
    .error
      "epoch has no lenders with positive time-weighted supply"
  else
    let cap := capOf budget capBps
    let n := weights.length
    if cap = 0 then
      .error
        ("--cap-bps rounds the per-wallet cap to zero " ++
          "for this budget")
    else if cap * n < budget then
      .error
        (s!"per-wallet cap {cap} across {n} lenders " ++
          s!"cannot distribute {budget}: raise --cap-bps")
    else
      let pinned := pinAll weights budget cap OrderedMap.empty
      let allocated := indexed (payoutsOf weights pinned)
      let sum := (allocated.map (fun row => row.amount)).sum
      if sum ≠ budget then
        .error
          (s!"allocation sums to {sum}, " ++
            s!"not the budget {budget}")
      else .ok allocated

end Callhouse.Indexer.LenderEpoch
