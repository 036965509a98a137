import Callhouse.Indexer.LenderEpoch
import Callhouse.Lib.HeldIntegral
import Callhouse.Lib.RankOrder

/-
  indexer/scripts/lender-epoch.mjs, weigh: the lenders'
  time-weighted supply over a window, from one row for each
  change of a balance.

  `getAddress` is the address parser of the program's chain
  library.  A field that may be a JSON number or a string is
  the text that `String` makes of it.

  Main declarations:
    * `readRow`, `readRows`, `weigh`
    * `readRows_spec`
    * `weigh_ok`, `weigh_refused`
-/

----
-- Balance Rows
----

namespace Callhouse.Indexer.LenderEpoch

structure BalanceRow where
  asset : Option String
  account : String
  timestamp : String
  assetsAfter : String
  block : Option String

structure BalanceEvent where
  timestamp : Int
  assets : Int
  block : Int
deriving DecidableEq

/- A decimal integer, zero included. -/
def uint
    (value label : String) : Except String Int :=
  let digits := value.toList
  if digits = [] ∨ ¬ digits.all Char.isDigit then
    .error (label ++ " must be a decimal integer")
  else
    .ok
      (digits.foldl
        (fun n c => 10 * n + (c.toNat - '0'.toNat)) 0 : Nat)

def readEvent
    (row : BalanceRow) : Except String BalanceEvent :=
  match uint row.timestamp "timestamp" with
  | .error e => .error e
  | .ok timestamp =>
      match uint row.assetsAfter "assetsAfter" with
      | .error e => .error e
      | .ok assets =>
          match uint (row.block.getD "0") "block" with
          | .error e => .error e
          | .ok block =>
              .ok
                { timestamp := timestamp
                  assets := assets
                  block := block }

theorem uint_nonneg
    {value label : String}
    {n : Int}
    (h : uint value label = .ok n) :
    0 ≤ n := by
  unfold uint at h
  simp only at h
  split at h
  · cases h
  · rw [← Except.ok.inj h]
    exact Int.natCast_nonneg _

theorem readEvent_assets
    {row : BalanceRow}
    {event : BalanceEvent}
    (h : readEvent row = .ok event) :
    uint row.assetsAfter "assetsAfter" =
      .ok event.assets := by
  unfold readEvent at h
  cases hTime : uint row.timestamp "timestamp" with
  | error e => simp [hTime] at h
  | ok timestamp =>
      cases hAssets : uint row.assetsAfter "assetsAfter" with
      | error e => simp [hTime, hAssets] at h
      | ok assets =>
          cases hBlock :
              uint (row.block.getD "0") "block" with
          | error e => simp [hTime, hAssets, hBlock] at h
          | ok block =>
              rw [hTime, hAssets, hBlock] at h
              rw [← Except.ok.inj h]

/- Time first, then block. -/
def EventOrder
    (a b : BalanceEvent) : Prop :=
  if a.timestamp = b.timestamp then a.block ≤ b.block
  else a.timestamp < b.timestamp

instance : DecidableRel EventOrder :=
  fun a b => by
    unfold EventOrder
    infer_instance

instance : Std.Total EventOrder where
  total a b := by
    unfold EventOrder
    grind

instance : IsTrans BalanceEvent EventOrder where
  trans a b c hFirst hSecond := by
    unfold EventOrder at *
    grind

theorem EventOrder.timestamp_le
    {a b : BalanceEvent}
    (h : EventOrder a b) :
    a.timestamp ≤ b.timestamp := by
  unfold EventOrder at h
  split at h
  · next hSame => exact hSame.le
  · exact h.le

----
-- Reading and Weighing
----

section

structure Reading where
  asset : Option String
  byAccount : OrderedMap Address (List BalanceEvent)

def emptyReading : Reading :=
  { asset := none
    byAccount := OrderedMap.empty }

variable (toLowerCase : String → String)
variable (getAddress : String → Except String Address)

/- The one asset of the input, and a refusal of a second. -/
def readAsset
    (asset : Option String)
    (row : BalanceRow) : Except String (Option String) :=
  match row.asset with
  | none => .ok asset
  | some text =>
      let seen := toLowerCase text
      match asset with
      | none => .ok (some seen)
      | some known =>
          if known ≠ seen then
            .error
              ("input mixes assets (" ++ known ++ " and " ++
                seen ++ "): this program weighs base " ++
                "units and reads no price, so it cannot " ++
                "value one asset against another. Run one " ++
                "epoch per asset, or supply a priced input.")
          else .ok (some known)

def pushEvent
    (byAccount : OrderedMap Address (List BalanceEvent))
    (account : Address)
    (event : BalanceEvent) :
    OrderedMap Address (List BalanceEvent) :=
  byAccount.set account
    (byAccount.getD account [] ++ [event])

variable (stop : Int) (excluded : List Address)

def readRow
    (reading : Reading)
    (row : BalanceRow) : Except String Reading :=
  match readAsset toLowerCase reading.asset row with
  | .error e => .error e
  | .ok asset =>
      match getAddress row.account with
      | .error e => .error e
      | .ok account =>
          if account ∈ excluded then
            .ok { reading with asset := asset }
          else
            match readEvent row with
            | .error e => .error e
            | .ok event =>
                if event.timestamp ≥ stop then
                  .ok { reading with asset := asset }
                else
                  .ok
                    { asset := asset
                      byAccount :=
                        pushEvent reading.byAccount account
                          event }

def readRows
    (reading : Reading) :
    List BalanceRow → Except String Reading
  | [] => .ok reading
  | row :: rest =>
      match readRow toLowerCase getAddress stop excluded
          reading row with
      | .error e => .error e
      | .ok next => readRows next rest

/- The walk over an account's sorted events. -/
def weighEvents
    (start stop : Int)
    (events : List BalanceEvent) : Int :=
  HeldIntegral.integral
    (fun event : BalanceEvent => event.timestamp)
    (fun event => event.assets) start stop
    (events.insertionSort EventOrder)

/- A wallet's weight, if it has any. -/
def weighEntry
    (start stop : Int)
    (entry : Address × List BalanceEvent) :
    Option LenderWeight :=
  let weight := weighEvents start stop entry.2
  if weight > 0 then
    some
      { account := entry.1
        weight := weight }
  else none

/- The heaviest first, then by address. -/
def WeightOrder : LenderWeight → LenderWeight → Prop :=
  RankOrder (fun row => row.weight)
    (fun row => row.account)

instance : DecidableRel WeightOrder :=
  inferInstanceAs (DecidableRel (RankOrder _ _))

instance : Std.Total WeightOrder where
  total := RankOrder.total _ _

instance : IsTrans LenderWeight WeightOrder where
  trans := RankOrder.trans _ _

def weigh
    (rows : List BalanceRow)
    (start stop : Int)
    (excluded : List Address) :
    Except String (List LenderWeight) :=
  if stop ≤ start then .error "epoch window is empty"
  else
    match readRows toLowerCase getAddress stop excluded
        emptyReading rows with
    | .error e => .error e
    | .ok reading =>
        .ok
          ((reading.byAccount.entries.filterMap
            (weighEntry start stop)).insertionSort
            WeightOrder)

/- What a list of weights gives an account. -/
def weightIn
    (weights : List LenderWeight)
    (account : Address) : Int :=
  ((weights.filter (fun row => row.account = account)).map
    (fun row => row.weight)).sum

end

----
-- What Is Read
----

section

variable (toLowerCase : String → String)
variable (getAddress : String → Except String Address)

/- A row's change of one account's balance. -/
def changeFor
    (account : Address)
    (row : BalanceRow) : Option BalanceEvent :=
  match getAddress row.account with
  | .error _ => none
  | .ok found =>
      if found = account then (readEvent row).toOption
      else none

def changesOf
    (rows : List BalanceRow)
    (account : Address) : List BalanceEvent :=
  rows.filterMap (changeFor getAddress account)

variable (stop : Int) (excluded : List Address)

/- The changes that count for an account. -/
def eventsOf
    (rows : List BalanceRow)
    (account : Address) : List BalanceEvent :=
  if account ∈ excluded then []
  else
    (changesOf getAddress rows account).filter
      (fun event => event.timestamp < stop)

/- An excluded account's other fields are never parsed. -/
def Readable
    (row : BalanceRow) : Prop :=
  ∃ account, getAddress row.account = .ok account ∧
    (account ∈ excluded ∨
      ∃ event, readEvent row = .ok event)

def assetsOf
    (rows : List BalanceRow) : List String :=
  rows.filterMap (fun row => row.asset.map toLowerCase)

def AllEqual
    (names : List String) : Prop :=
  ∀ first ∈ names, ∀ second ∈ names, first = second

/- Rows of one asset whose fields all parse. -/
structure Weighable
    (rows : List BalanceRow) : Prop where
  oneAsset : AllEqual (assetsOf toLowerCase rows)
  readable : ∀ row ∈ rows, Readable getAddress excluded row

variable {toLowerCase getAddress stop excluded}

theorem Weighable.perm
    {rows rows' : List BalanceRow}
    (h : Weighable toLowerCase getAddress excluded rows)
    (hPerm : rows'.Perm rows) :
    Weighable toLowerCase getAddress excluded rows' := by
  have hAssets :
      (assetsOf toLowerCase rows').Perm
        (assetsOf toLowerCase rows) :=
    hPerm.filterMap _
  refine ⟨?_, ?_⟩
  · intro first hFirst second hSecond
    exact
      h.oneAsset first (hAssets.mem_iff.mp hFirst) second
        (hAssets.mem_iff.mp hSecond)
  · exact fun row hRow =>
      h.readable row (hPerm.mem_iff.mp hRow)

variable (toLowerCase) in
/- Reading a row's asset keeps the input to one asset. -/
theorem readAsset_spec
    (asset : Option String)
    (row : BalanceRow) :
    match readAsset toLowerCase asset row with
    | .ok next =>
        ∀ later,
          AllEqual (next.toList ++ later) ↔
            AllEqual
              (asset.toList ++
                ((row.asset.map toLowerCase).toList ++
                  later))
    | .error _ =>
        ∀ later,
          ¬ AllEqual
            (asset.toList ++
              ((row.asset.map toLowerCase).toList ++
                later)) := by
  unfold readAsset
  cases hRow : row.asset with
  | none => exact fun _ => Iff.rfl
  | some text =>
      cases asset with
      | none => exact fun _ => Iff.rfl
      | some known =>
          by_cases hSame : known = toLowerCase text
          · simp only
            rw [if_neg (not_not.mpr hSame)]
            intro later
            have hMem :
                ∀ name,
                  name ∈ (some known).toList ++ later ↔
                    name ∈
                      (some known).toList ++
                        (((some text).map
                          toLowerCase).toList ++
                            later) := by
              intro name
              simp [← hSame]
            unfold AllEqual
            simp only [hMem]
          · simp only
            rw [if_pos hSame]
            intro later hAll
            apply hSame
            exact
              hAll known (by simp) (toLowerCase text)
                (by simp)

theorem readEvent_of_changeFor
    {account : Address}
    {row : BalanceRow}
    {event : BalanceEvent}
    (h : changeFor getAddress account row = some event) :
    readEvent row = .ok event := by
  unfold changeFor at h
  split at h
  · cases h
  · split at h
    · cases hEvent : readEvent row with
      | error e => simp [hEvent, Except.toOption] at h
      | ok read =>
          rw [hEvent] at h
          rw [← Option.some.inj h]
    · cases h

theorem assets_nonneg
    {rows : List BalanceRow}
    {account : Address} :
    ∀ change ∈ changesOf getAddress rows account,
      0 ≤ change.assets := by
  intro change hChange
  rcases List.mem_filterMap.mp hChange with ⟨row, _, hRow⟩
  exact
    uint_nonneg
      (readEvent_assets (readEvent_of_changeFor hRow))

theorem changesOf_cons
    (row : BalanceRow)
    (rest : List BalanceRow)
    (account : Address) :
    changesOf getAddress (row :: rest) account =
      (changeFor getAddress account row).toList ++
        changesOf getAddress rest account := by
  unfold changesOf
  rw [List.filterMap_cons]
  cases changeFor getAddress account row with
  | none => rfl
  | some event => rfl

theorem eventsOf_cons
    (row : BalanceRow)
    (rest : List BalanceRow)
    (account : Address) :
    eventsOf getAddress stop excluded (row :: rest) account =
      eventsOf getAddress stop excluded [row] account ++
        eventsOf getAddress stop excluded rest account := by
  unfold eventsOf
  split
  · rfl
  · rw [changesOf_cons, changesOf_cons, List.filter_append,
      List.filter_append, List.append_assoc]
    rfl

variable (toLowerCase getAddress stop excluded) in
/- One row adds its change to its own account only. -/
theorem readRow_spec
    (reading : Reading)
    (row : BalanceRow) :
    match readRow toLowerCase getAddress stop excluded
        reading row with
    | .ok next =>
        Readable getAddress excluded row ∧
          readAsset toLowerCase reading.asset row =
            .ok next.asset ∧
          ∀ account,
            next.byAccount.getD account [] =
              reading.byAccount.getD account [] ++
                eventsOf getAddress stop excluded [row]
                  account
    | .error _ =>
        ¬ Readable getAddress excluded row ∨
          ∃ e, readAsset toLowerCase reading.asset row =
            .error e := by
  unfold readRow
  cases hAsset : readAsset toLowerCase reading.asset row with
  | error e => exact Or.inr ⟨e, rfl⟩
  | ok asset =>
      cases hAccount : getAddress row.account with
      | error e =>
          left
          rintro ⟨account, hParsed, _⟩
          rw [hAccount] at hParsed
          cases hParsed
      | ok account =>
          by_cases hExcluded : account ∈ excluded
          · simp only
            rw [if_pos hExcluded]
            refine
              ⟨⟨account, hAccount, Or.inl hExcluded⟩,
                rfl, ?_⟩
            intro other
            unfold eventsOf changesOf
            split
            · simp
            · next hOther =>
                have hNot : account ≠ other := by
                  intro hSame
                  exact hOther (hSame ▸ hExcluded)
                simp [changeFor, hAccount, hNot]
          · simp only
            rw [if_neg hExcluded]
            cases hEvent : readEvent row with
            | error e =>
                left
                rintro ⟨found, hFound, hParsed⟩
                rw [hAccount] at hFound
                rw [← Except.ok.inj hFound] at hParsed
                rcases hParsed with hIn | ⟨event, hOk⟩
                · exact hExcluded hIn
                · rw [hEvent] at hOk
                  cases hOk
            | ok event =>
                have hReadable :
                    Readable getAddress excluded row :=
                  ⟨account, hAccount,
                    Or.inr ⟨event, hEvent⟩⟩
                by_cases hLate : event.timestamp ≥ stop
                · simp only
                  rw [if_pos hLate]
                  refine ⟨hReadable, rfl, ?_⟩
                  intro other
                  unfold eventsOf changesOf
                  split
                  · simp
                  · by_cases hSame : account = other
                    · simp [changeFor, hAccount, hSame,
                        hEvent, Except.toOption, hLate]
                    · simp [changeFor, hAccount, hSame]
                · simp only
                  rw [if_neg hLate]
                  refine ⟨hReadable, rfl, ?_⟩
                  intro other
                  simp only [pushEvent]
                  rw [OrderedMap.getD_set]
                  unfold eventsOf changesOf
                  by_cases hSame : account = other
                  · subst hSame
                    rw [if_pos rfl, if_neg hExcluded]
                    rw [not_le] at hLate
                    simp [changeFor, hAccount, hEvent,
                      Except.toOption, hLate]
                  · rw [if_neg hSame]
                    split
                    · simp
                    · simp [changeFor, hAccount, hSame]

variable (toLowerCase getAddress stop excluded) in
/- The rows are read exactly when they can be weighed. -/
theorem readRows_spec
    (rows : List BalanceRow)
    (reading : Reading) :
    match readRows toLowerCase getAddress stop excluded
        reading rows with
    | .ok next =>
        AllEqual
            (reading.asset.toList ++
              assetsOf toLowerCase rows) ∧
          (∀ row ∈ rows, Readable getAddress excluded row) ∧
          ∀ account,
            next.byAccount.getD account [] =
              reading.byAccount.getD account [] ++
                eventsOf getAddress stop excluded rows
                  account
    | .error _ =>
        ¬ (AllEqual
            (reading.asset.toList ++
              assetsOf toLowerCase rows) ∧
          ∀ row ∈ rows, Readable getAddress excluded row) := by
  induction rows generalizing reading with
  | nil =>
      refine ⟨?_, List.forall_mem_nil _, ?_⟩
      · cases reading.asset with
        | none => intro first hFirst; cases hFirst
        | some known =>
            intro first hFirst second hSecond
            rw [show assetsOf toLowerCase [] = [] from rfl,
              List.append_nil, Option.mem_toList] at *
            exact Option.some.inj (hFirst.symm.trans hSecond)
      · intro account
        unfold eventsOf changesOf
        simp
  | cons row rest ih =>
      have hRow :=
        readRow_spec toLowerCase getAddress stop excluded
          reading row
      have hAssets :
          assetsOf toLowerCase (row :: rest) =
            (row.asset.map toLowerCase).toList ++
              assetsOf toLowerCase rest := by
        unfold assetsOf
        rw [List.filterMap_cons]
        cases row.asset with
        | none => rfl
        | some text => rfl
      have hAsset := readAsset_spec toLowerCase reading.asset row
      unfold readRows
      rw [hAssets]
      cases hRead :
          readRow toLowerCase getAddress stop excluded
            reading row with
      | error e =>
          rw [hRead] at hRow
          simp only at hRow ⊢
          rintro ⟨hAll, hReadable⟩
          rcases hRow with hNot | ⟨error, hRefused⟩
          · exact hNot (hReadable row List.mem_cons_self)
          · rw [hRefused] at hAsset
            exact hAsset _ hAll
      | ok next =>
          rw [hRead] at hRow
          simp only at hRow ⊢
          rcases hRow with ⟨hReadable, hNext, hEvents⟩
          rw [hNext] at hAsset
          have hRest := ih next
          rw [hAsset] at hRest
          cases hDone :
              readRows toLowerCase getAddress stop excluded
                next rest with
          | error e =>
              rw [hDone] at hRest
              simp only at hRest ⊢
              rintro ⟨hAll, hLater⟩
              apply hRest
              exact ⟨hAll, (List.forall_mem_cons.mp hLater).2⟩
          | ok last =>
              rw [hDone] at hRest
              simp only at hRest ⊢
              rcases hRest with ⟨hAll, hLater, hRows⟩
              refine ⟨hAll, ?_, ?_⟩
              · rw [List.forall_mem_cons]
                exact ⟨hReadable, hLater⟩
              · intro account
                rw [hRows, hEvents,
                  eventsOf_cons row rest account,
                  List.append_assoc]

end

----
-- The Weights
----

/- The published list of positive weights. -/
structure Weights
    (weightOf : Address → Int)
    (result : List LenderWeight) : Prop where
  ranked : result.Pairwise WeightOrder
  distinct : (result.map (fun row => row.account)).Nodup
  mem : ∀ row, row ∈ result ↔
    row.weight = weightOf row.account ∧ 0 < row.weight

/- The weights have one list. -/
theorem Weights.unique
    {weightOf : Address → Int}
    {first second : List LenderWeight}
    (hFirst : Weights weightOf first)
    (hSecond : Weights weightOf second) :
    first = second := by
  apply
    RankOrder.eq_of_perm hSecond.distinct ?_ hSecond.ranked
      hFirst.ranked
  rw [List.perm_ext_iff_of_nodup
    hFirst.distinct.of_map hSecond.distinct.of_map]
  intro row
  rw [hFirst.mem, hSecond.mem]

theorem Weights.weightIn_eq
    {weightOf : Address → Int}
    {result : List LenderWeight}
    (h : Weights weightOf result)
    {account : Address}
    (hNonneg : 0 ≤ weightOf account) :
    weightIn result account = weightOf account := by
  rcases hNonneg.eq_or_lt with hZero | hPositive
  · have hNone :
        result.filter (fun row => row.account = account) =
          [] := by
      rw [List.filter_eq_nil_iff]
      intro row hRow hAccount
      have hWeight := (h.mem row).mp hRow
      rw [of_decide_eq_true hAccount, ← hZero] at hWeight
      exact absurd hWeight.1 hWeight.2.ne'
    unfold weightIn
    rw [hNone, ← hZero]
    rfl
  · have hRow :
        (⟨account, weightOf account⟩ : LenderWeight) ∈
          result :=
      (h.mem _).mpr ⟨rfl, hPositive⟩
    have hOne :
        result.filter (fun row => row.account = account) =
          [⟨account, weightOf account⟩] := by
      have hNodup :=
        (h.distinct.of_map).filter
          (fun row => decide (row.account = account))
      apply
        ((List.perm_ext_iff_of_nodup hNodup
          (List.nodup_singleton _)).mpr ?_).eq_singleton
      intro row
      rw [List.mem_filter, List.mem_singleton]
      constructor
      · rintro ⟨hIn, hAccount⟩
        exact
          List.inj_on_of_nodup_map h.distinct hIn hRow
            (of_decide_eq_true hAccount)
      · rintro rfl
        exact ⟨hRow, decide_eq_true rfl⟩
    unfold weightIn
    rw [hOne, List.map_singleton, List.sum_singleton]

variable {stop : Int}

theorem weighEntry_eq_some_iff
    {start : Int}
    {entry : Address × List BalanceEvent}
    {row : LenderWeight} :
    weighEntry start stop entry = some row ↔
      entry.1 = row.account ∧
        weighEvents start stop entry.2 = row.weight ∧
          0 < row.weight := by
  rcases row with ⟨account, weight⟩
  unfold weighEntry
  simp only
  split
  · next hPositive =>
      rw [Option.some_inj, LenderWeight.mk.injEq]
      constructor
      · rintro ⟨hAccount, rfl⟩
        exact ⟨hAccount, rfl, hPositive⟩
      · rintro ⟨hAccount, hWeight, _⟩
        exact ⟨hAccount, hWeight⟩
  · next hNot =>
      constructor
      · intro hNone
        cases hNone
      · rintro ⟨_, rfl, hPositive⟩
        exact absurd hPositive hNot

theorem weighed_accounts_sublist
    (start stop : Int)
    (entries : List (Address × List BalanceEvent)) :
    ((entries.filterMap (weighEntry start stop)).map
        (fun row => row.account)).Sublist
      (entries.map Prod.fst) := by
  induction entries with
  | nil => exact List.Sublist.refl _
  | cons entry rest ih =>
      rw [List.filterMap_cons, List.map_cons]
      cases hEntry : weighEntry start stop entry with
      | none => exact ih.cons _
      | some row =>
          simp only [List.map_cons]
          rw [(weighEntry_eq_some_iff.mp hEntry).1]
          exact ih.cons_cons _

variable {toLowerCase : String → String}
variable {getAddress : String → Except String Address}
variable {excluded : List Address}

/- Rows that can be weighed give every account its walk. -/
theorem weigh_ok
    {rows : List BalanceRow}
    (hRows : Weighable toLowerCase getAddress excluded rows)
    {start : Int}
    (hWindow : start < stop) :
    ∃ result,
      weigh toLowerCase getAddress rows start stop
          excluded = .ok result ∧
        Weights
          (fun account =>
            weighEvents start stop
              (eventsOf getAddress stop excluded rows
                account))
          result := by
  have hRead :=
    readRows_spec toLowerCase getAddress stop excluded rows
      emptyReading
  unfold weigh
  rw [if_neg (not_le.mpr hWindow)]
  cases hDone :
      readRows toLowerCase getAddress stop excluded
        emptyReading rows with
  | error e =>
      rw [hDone] at hRead
      exact absurd ⟨hRows.oneAsset, hRows.readable⟩ hRead
  | ok reading =>
      rw [hDone] at hRead
      simp only at hRead
      rcases hRead with ⟨_, _, hEvents⟩
      have hGet :
          ∀ account,
            reading.byAccount.getD account [] =
              eventsOf getAddress stop excluded rows
                account := by
        intro account
        rw [hEvents account]
        rfl
      have hPerm :=
        List.perm_insertionSort WeightOrder
          (reading.byAccount.entries.filterMap
            (weighEntry start stop))
      refine ⟨_, rfl, ?_, ?_, ?_⟩
      · exact List.pairwise_insertionSort _ _
      · rw [(hPerm.map _).nodup_iff]
        exact
          reading.byAccount.nodup.sublist
            (weighed_accounts_sublist start stop _)
      · intro row
        rw [List.mem_insertionSort, List.mem_filterMap]
        constructor
        · rintro ⟨entry, hIn, hEntry⟩
          rcases weighEntry_eq_some_iff.mp hEntry with
            ⟨hAccount, hWeight, hPositive⟩
          have hFound := (OrderedMap.mem_entries_iff _).mp hIn
          have hHere := hGet entry.1
          unfold OrderedMap.getD at hHere
          rw [hFound, Option.getD_some] at hHere
          refine ⟨?_, hPositive⟩
          rw [← hAccount, ← hHere, hWeight]
        · rintro ⟨hWeight, hPositive⟩
          have hHere := hGet row.account
          unfold OrderedMap.getD at hHere
          cases hFound :
              reading.byAccount.get? row.account with
          | none =>
              rw [hFound, Option.getD_none] at hHere
              rw [← hHere] at hWeight
              have hZero : weighEvents start stop [] = 0 := by
                change 0 + 0 * (stop - start) = 0
                rw [zero_mul, add_zero]
              rw [hWeight, hZero] at hPositive
              exact absurd hPositive (lt_irrefl 0)
          | some events =>
              rw [hFound, Option.getD_some] at hHere
              refine
                ⟨(row.account, events),
                  (OrderedMap.mem_entries_iff _).mpr hFound,
                  ?_⟩
              rw [weighEntry_eq_some_iff]
              refine ⟨rfl, ?_, hPositive⟩
              rw [hHere, hWeight]

/- Anything else is refused. -/
theorem weigh_refused
    {rows : List BalanceRow}
    {start : Int}
    (h :
      ¬ (start < stop ∧
        Weighable toLowerCase getAddress excluded rows)) :
    (weigh toLowerCase getAddress rows start stop
      excluded).toOption = none := by
  unfold weigh
  split
  · rfl
  · next hWindow =>
      have hRead :=
        readRows_spec toLowerCase getAddress stop excluded
          rows emptyReading
      cases hDone :
          readRows toLowerCase getAddress stop excluded
            emptyReading rows with
      | error e => rfl
      | ok reading =>
          rw [hDone] at hRead
          simp only at hRead
          rcases hRead with ⟨hAssets, hReadable, _⟩
          exact
            absurd
              ⟨not_le.mp hWindow, hAssets, hReadable⟩ h

end Callhouse.Indexer.LenderEpoch
