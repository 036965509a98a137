import Callhouse.Indexer.Projection.Run

/-
  Positions over whole runs of the index: a wallet's row is
  what its transfers add up to, and a series' open interest is
  what wallets and the book's escrow hold of its longs.

  Main declarations:
    * `transfersOf`, `netUnits`, `heldUnits`
    * `Interests`, `PositionsOk`
    * `positionsOk_transfer`, `positionsOk_apply`
    * `open_interest_is_held`
-/

----
-- What Transfers Add Up To
----

namespace Callhouse.Indexer.Projection

open LockStep RowTable

/- What a transfer adds to a holder of its token. -/
def TokenTransfer.net
    (input : TokenTransfer)
    (holder : String) : Int :=
  (if addressKey input.recipient = holder then input.units else 0) -
    (if addressKey input.sender = holder then input.units else 0)

def netUnits
    (transfers : List TokenTransfer)
    (tokenId : Int)
    (holder : String) : Int :=
  (transfers.map (fun input =>
    if input.tokenId = tokenId then input.net holder else 0)).sum

/- The transfers that a log makes. -/
def IndexEvent.transfers : IndexEvent → List TokenTransfer
  | .transferSingle input => [input]
  | .transferBatch sender recipient ids values =>
      (ids.zip values).map (fun item =>
        { sender := sender
          recipient := recipient
          tokenId := item.1
          units := item.2 })
  | _ => []

def transfersOf
    (logs : List IndexLog) : List TokenTransfer :=
  logs.flatMap (fun entry => entry.event.transfers)

/- All that wallets hold of a token. -/
def heldUnits
    (balances : OrderedMap (Int × String) BalanceRow)
    (tokenId : Int) : Int :=
  sumBy (fun row => if row.tokenId = tokenId then row.units else 0)
    balances

theorem netUnits_concat
    (transfers : List TokenTransfer)
    (input : TokenTransfer)
    (tokenId : Int)
    (holder : String) :
    netUnits (transfers ++ [input]) tokenId holder =
      netUnits transfers tokenId holder +
        (if input.tokenId = tokenId then input.net holder else 0) := by
  unfold netUnits
  rw [List.map_append, List.sum_append]
  simp

theorem transfersOf_concat
    (logs : List IndexLog)
    (entry : IndexLog) :
    transfersOf (logs ++ [entry]) =
      transfersOf logs ++ entry.event.transfers := by
  unfold transfersOf
  rw [List.flatMap_append, List.flatMap_singleton]

----
-- The Loop over the Wallets
----

section

variable {db db' : IndexDb}

/- What a list of changes adds to one row. -/
def changesTo
    (tokenId : Int)
    (id : Int × String)
    (deltas : List (String × Int)) : Int :=
  (deltas.map (fun change =>
    if balanceId tokenId change.1 = id then change.2 else 0)).sum

theorem balanceUnits_withBalance
    (tokenId : Int)
    (holder : String)
    (units : Int)
    (id : Int × String) :
    balanceUnits (db.withBalance tokenId holder units) id =
      if balanceId tokenId holder = id then units
      else balanceUnits db id := by
  unfold balanceUnits IndexDb.withBalance
  dsimp only
  rw [OrderedMap.get?_set]
  split <;> rfl

/- A row names the token and the holder of its key. -/
def BalanceKeys
    (balances : OrderedMap (Int × String) BalanceRow) : Prop :=
  ∀ id row, balances.get? id = some row → row.tokenId = id.1

theorem heldUnits_withBalance
    (hKeys : BalanceKeys db.balances)
    (tokenId : Int)
    (holder : String)
    (delta : Int)
    (token : Int) :
    heldUnits
        (db.withBalance tokenId holder
          (balanceUnits db (balanceId tokenId holder) +
            delta)).balances token =
      heldUnits db.balances token +
        (if tokenId = token then delta else 0) := by
  unfold heldUnits IndexDb.withBalance balanceUnits
  dsimp only
  cases hRow : db.balances.get? (balanceId tokenId holder) with
  | none =>
      rw [sumBy_insert _ _ hRow]
      simp
  | some row =>
      have hToken : row.tokenId = tokenId := hKeys _ row hRow
      rw [sumBy_update _ _ hRow, hToken, Option.map_some,
        Option.getD_some]
      by_cases hSame : tokenId = token
      · simp only [if_pos hSame]
        ring
      · simp only [if_neg hSame]
        ring

theorem balanceKeys_withBalance
    (hKeys : BalanceKeys db.balances)
    (tokenId : Int)
    (holder : String)
    (units : Int) :
    BalanceKeys (db.withBalance tokenId holder units).balances := by
  intro id row hRow
  unfold IndexDb.withBalance at hRow
  rw [OrderedMap.get?_set] at hRow
  split at hRow
  · next hSame =>
      cases hRow
      rw [← hSame]
      rfl
  · exact hKeys id row hRow

/- What the loop leaves, row by row and in all. -/
structure LoopSpec
    (tokenId : Int)
    (deltas : List (String × Int))
    (db db' : IndexDb) : Prop where
  keys : BalanceKeys db'.balances
  units :
    ∀ id, balanceUnits db' id =
      balanceUnits db id + changesTo tokenId id deltas
  nonneg :
    (∀ id, 0 ≤ balanceUnits db id) → ∀ id, 0 ≤ balanceUnits db' id
  held :
    ∀ token, heldUnits db'.balances token =
      heldUnits db.balances token +
        (if tokenId = token
          then (deltas.map (fun change => change.2)).sum else 0)

variable {deltas : List (String × Int)}

theorem loopSpec
    {tokenId : Int}
    (hKeys : BalanceKeys db.balances)
    (h : deltas.foldlM (balanceDelta tokenId) db = .ok db') :
    LoopSpec tokenId deltas db db' := by
  induction deltas generalizing db with
  | nil =>
      cases h
      exact
        { keys := hKeys
          units := fun id => (add_zero _).symm
          nonneg := fun hAll => hAll
          held := fun token => by simp }
  | cons change rest ih =>
      rw [List.foldlM_cons, bind_eq_ok] at h
      rcases h with ⟨mid, hMid, hRest⟩
      rcases balanceDelta_eq_ok.mp hMid with ⟨hEnough, rfl⟩
      have hRestSpec :=
        ih (balanceKeys_withBalance hKeys tokenId change.1 _) hRest
      refine
        { keys := hRestSpec.keys
          units := ?_
          nonneg := ?_
          held := ?_ }
      · intro id
        rw [hRestSpec.units, balanceUnits_withBalance]
        unfold changesTo
        rw [List.map_cons, List.sum_cons]
        split
        · next hSame =>
            rw [hSame]
            ring
        · ring
      · intro hAll
        apply hRestSpec.nonneg
        intro id
        rw [balanceUnits_withBalance]
        split
        · exact hEnough
        · exact hAll id
      · intro token
        rw [hRestSpec.held, heldUnits_withBalance hKeys,
          List.map_cons, List.sum_cons]
        split <;> ring

/- A holder whose rows are kept. -/
def HoldsWallet
    (escrow holder : String) : Prop :=
  holder ≠ zeroAddress ∧ holder ≠ addressKey escrow

instance
    (escrow holder : String) :
    Decidable (HoldsWallet escrow holder) :=
  inferInstanceAs (Decidable (_ ∧ _))

theorem isWallet_iff
    {address escrow : String} :
    isWallet address escrow = true ↔
      HoldsWallet escrow (addressKey address) := by
  unfold isWallet HoldsWallet
  rw [decide_eq_true_eq]

variable {input : TokenTransfer}

theorem changesTo_walletDeltas
    {escrow : String}
    (h : walletDeltas input escrow = .ok deltas)
    (tokenId : Int)
    (holder : String) :
    changesTo input.tokenId (tokenId, holder) deltas =
      if HoldsWallet escrow holder then
        (if input.tokenId = tokenId then input.net holder else 0)
      else 0 := by
  unfold walletDeltas at h
  split at h
  · cases h
  · split at h
    · next hSelf =>
        cases h
        have hNone : input.net holder = 0 := by
          unfold TokenTransfer.net
          rw [hSelf, sub_self]
        rw [hNone, ite_self, ite_self]
        rfl
    · next hOther =>
        cases h
        unfold changesTo TokenTransfer.net balanceId
        simp only [isWallet_iff, List.map_append, List.sum_append,
          Prod.mk.injEq]
        by_cases hFrom : addressKey input.sender = holder
        · have hTo : addressKey input.recipient ≠ holder := by
            rw [← hFrom]
            exact fun hSame => hOther hSame.symm
          rw [hFrom]
          split <;> split <;> simp [*]
        · by_cases hTo : addressKey input.recipient = holder
          · rw [hTo]
            split <;> split <;> simp [*]
          · split <;> split <;> simp [hFrom, hTo]

/- What wallets gain is what the rest of the chain loses. -/
theorem sum_walletDeltas
    {escrow : String}
    (hEscrow : addressKey escrow ≠ zeroAddress)
    (h : walletDeltas input escrow = .ok deltas) :
    (deltas.map (fun change => change.2)).sum =
      -input.net zeroAddress - input.net (addressKey escrow) := by
  unfold walletDeltas at h
  split at h
  · cases h
  · split at h
    · next hSelf =>
        cases h
        have hNone : ∀ holder, input.net holder = 0 := by
          intro holder
          unfold TokenTransfer.net
          rw [hSelf, sub_self]
        rw [hNone, hNone]
        rfl
    · next hOther =>
        cases h
        unfold TokenTransfer.net
        simp only [isWallet_iff, HoldsWallet, List.map_append,
          List.sum_append]
        generalize addressKey input.sender = sender at *
        generalize addressKey input.recipient = recipient at *
        generalize addressKey escrow = book at *
        by_cases hFrom : sender = zeroAddress
        · subst hFrom
          by_cases hTo : recipient = book
          · subst hTo
            simp [hEscrow, hEscrow.symm]
          · simp [hTo, hEscrow.symm, Ne.symm hOther]
        · by_cases hFromBook : sender = book
          · subst hFromBook
            by_cases hTo : recipient = zeroAddress
            · subst hTo
              simp [hFrom, Ne.symm hFrom]
            · simp [hTo, hFrom, Ne.symm hOther]
          · by_cases hTo : recipient = zeroAddress
            · subst hTo
              simp [hFrom, hFromBook, hEscrow.symm]
            · by_cases hToBook : recipient = book
              · subst hToBook
                simp [hFrom, hFromBook, hEscrow]
              · simp [hFrom, hFromBook, hTo, hToBook]

theorem openInterestDelta_long
    (hLong : input.tokenId % 2 = 0) :
    openInterestDelta input = -input.net zeroAddress := by
  unfold openInterestDelta positionId TokenTransfer.net
  rw [if_pos hLong]
  by_cases hFrom : addressKey input.sender = zeroAddress
  · by_cases hTo : addressKey input.recipient = zeroAddress
    · simp [hFrom, hTo]
    · simp [hFrom, hTo]
  · by_cases hTo : addressKey input.recipient = zeroAddress
    · simp [hFrom, hTo]
    · simp [hFrom, hTo]

theorem openInterestDelta_short
    (hShort : input.tokenId % 2 ≠ 0) :
    openInterestDelta input = 0 := by
  unfold openInterestDelta positionId
  rw [if_neg hShort, if_pos rfl]

end

----
-- Positions
----

section

structure SeriesInterest where
  underlying : String
  units : Int
deriving DecidableEq

def SeriesRow.interest
    (row : SeriesRow) : SeriesInterest :=
  { underlying := row.underlying
    units := row.openInterestUnits }

/- The columns of the index that transfers write. -/
structure Interests where
  series : OrderedMap Int SeriesInterest
  markets : OrderedMap String Int
  balances : OrderedMap (Int × String) BalanceRow

def IndexDb.interests
    (db : IndexDb) : Interests :=
  { series := mapRows SeriesRow.interest db.series
    markets := mapRows (fun row => row.openInterestUnits) db.markets
    balances := db.balances }

def Interests.holds
    (t : Interests)
    (id : Int × String) : Int :=
  ((t.balances.get? id).map (fun row => row.units)).getD 0

/- A series that is not there has no open interest. -/
def Interests.units
    (t : Interests)
    (longId : Int) : Int :=
  ((t.series.get? longId).map (fun row => row.units)).getD 0

def Interests.market
    (t : Interests)
    (underlying : String) : Int :=
  sumBy (fun row => if row.underlying = underlying then row.units else 0)
    t.series

structure PositionsOk
    (escrow : String)
    (transfers : List TokenTransfer)
    (t : Interests) : Prop where
  keys : BalanceKeys t.balances
  holds :
    ∀ tokenId holder,
      t.holds (tokenId, holder) =
        if HoldsWallet escrow holder then
          netUnits transfers tokenId holder
        else 0
  nonneg : ∀ id, 0 ≤ t.holds id
  held :
    ∀ tokenId, heldUnits t.balances tokenId =
      -netUnits transfers tokenId zeroAddress -
        netUnits transfers tokenId (addressKey escrow)
  supply :
    ∀ longId, longId % 2 = 0 →
      t.units longId = -netUnits transfers longId zeroAddress
  least :
    ∀ longId row, t.series.get? longId = some row → 0 ≤ row.units
  registered :
    ∀ longId row, t.series.get? longId = some row →
      t.markets.has row.underlying = true
  markets :
    ∀ underlying units,
      t.markets.get? underlying = some units →
        units = t.market underlying

variable {escrow : String} {transfers : List TokenTransfer}
variable {t : Interests}

theorem positionsOk_empty :
    PositionsOk escrow [] emptyDb.interests := by
  constructor
  · intro id row hRow
    cases hRow
  · intro tokenId holder
    rw [show netUnits [] tokenId holder = 0 from rfl, ite_self]
    rfl
  · exact fun id => le_refl 0
  · exact fun tokenId => rfl
  · exact fun longId _ => rfl
  · intro longId row hRow
    cases hRow
  · intro longId row hRow
    cases hRow
  · intro underlying units hUnits
    cases hUnits

theorem PositionsOk.newMarket
    (h : PositionsOk escrow transfers t)
    {underlying : String}
    (hNew : t.markets.get? underlying = none) :
    PositionsOk escrow transfers
      { t with markets := t.markets.set underlying 0 } := by
  refine
    { keys := h.keys
      holds := h.holds
      nonneg := h.nonneg
      held := h.held
      supply := h.supply
      least := h.least
      registered := ?_
      markets := ?_ }
  · intro longId row hRow
    rw [OrderedMap.has_set]
    exact .inr (h.registered longId row hRow)
  · intro other units hUnits
    dsimp only at hUnits
    rw [OrderedMap.get?_set] at hUnits
    split at hUnits
    · next hSame =>
        cases hUnits
        subst hSame
        -- No series can have come before its market.
        refine (sumBy_eq_zero ?_).symm
        intro longId row hRow
        rw [if_neg]
        rintro rfl
        have hHas := h.registered longId row hRow
        rw [OrderedMap.has, hNew] at hHas
        cases hHas
    · exact h.markets other units hUnits

theorem PositionsOk.newSeries
    (h : PositionsOk escrow transfers t)
    {longId : Int}
    {underlying : String}
    (hNew : t.series.get? longId = none)
    (hMarket : t.markets.has underlying = true) :
    PositionsOk escrow transfers
      { t with
        series := t.series.set longId
          { underlying := underlying, units := 0 } } := by
  have hUnits :
      ∀ other,
        Interests.units
            { t with
              series := t.series.set longId
                { underlying := underlying, units := 0 } } other =
          t.units other := by
    intro other
    unfold Interests.units
    dsimp only
    rw [OrderedMap.get?_set]
    split
    · next hSame =>
        rw [← hSame, hNew]
        rfl
    · rfl
  refine
    { keys := h.keys
      holds := h.holds
      nonneg := h.nonneg
      held := h.held
      supply := ?_
      least := ?_
      registered := ?_
      markets := ?_ }
  · intro other hLong
    rw [hUnits, h.supply other hLong]
  · intro other row hRow
    dsimp only at hRow
    rw [OrderedMap.get?_set] at hRow
    split at hRow
    · cases hRow
      exact le_refl 0
    · exact h.least other row hRow
  · intro other row hRow
    dsimp only at hRow
    rw [OrderedMap.get?_set] at hRow
    split at hRow
    · cases hRow
      exact hMarket
    · exact h.registered other row hRow
  · intro other units hRow
    rw [h.markets other units hRow]
    unfold Interests.market
    dsimp only
    rw [sumBy_insert _ _ hNew, ite_self, add_zero]

end

----
-- One Transfer
----

section

variable {db db' held : IndexDb} {event : LogMeta}
variable {escrow : String} {transfers : List TokenTransfer}
variable {input : TokenTransfer} {deltas : List (String × Int)}

/- The columns after a mint or a burn. -/
def Interests.change
    (t : Interests)
    (longId delta : Int)
    (row : SeriesInterest)
    (units : Int) : Interests :=
  { t with
    series := t.series.set longId
      { row with units := row.units + delta }
    markets := t.markets.set row.underlying (units + delta) }

variable {t : Interests}

theorem units_change
    {longId delta units : Int}
    {row : SeriesInterest}
    (hRow : t.series.get? longId = some row)
    (other : Int) :
    (t.change longId delta row units).units other =
      t.units other + (if longId = other then delta else 0) := by
  unfold Interests.change Interests.units
  dsimp only
  rw [OrderedMap.get?_set]
  split
  · next hSame =>
      rw [← hSame, hRow]
      rfl
  · rw [add_zero]

theorem market_change
    {longId delta units : Int}
    {row : SeriesInterest}
    (hRow : t.series.get? longId = some row)
    (underlying : String) :
    (t.change longId delta row units).market underlying =
      t.market underlying +
        (if row.underlying = underlying then delta else 0) := by
  unfold Interests.change Interests.market
  dsimp only
  rw [sumBy_update _ _ hRow]
  split
  · ring
  · ring

theorem interests_openInterest
    {longId delta : Int}
    (h : openInterest db longId delta = .ok db') :
    ∃ row units,
      db.interests.series.get? longId = some row ∧
      db.interests.markets.get? row.underlying = some units ∧
      0 ≤ row.units + delta ∧
      db'.interests =
        db.interests.change longId delta row units := by
  rcases openInterest_eq_ok.mp h with
    ⟨row, market, hRow, hMarket, hLeast, _, rfl⟩
  refine ⟨row.interest, market.openInterestUnits, ?_, ?_, hLeast, ?_⟩
  · unfold IndexDb.interests
    rw [get?_mapRows, hRow, Option.map_some]
  · unfold IndexDb.interests
    rw [get?_mapRows,
      show row.interest.underlying = row.underlying from rfl,
      hMarket, Option.map_some]
  · unfold IndexDb.interests Interests.change
    dsimp only
    rw [mapRows_set, mapRows_set]
    rfl

/- What the loop leaves the wallets with, whatever comes after. -/
theorem PositionsOk.afterLoop
    (h : PositionsOk escrow transfers db.interests)
    (hEscrow : addressKey escrow ≠ zeroAddress)
    (hDeltas : walletDeltas input escrow = .ok deltas)
    (hLoop : LoopSpec input.tokenId deltas db held)
    (hBalances : t.balances = held.balances)
    (hSupply :
      ∀ longId, longId % 2 = 0 →
        t.units longId =
          db.interests.units longId +
            (if input.tokenId = longId then -input.net zeroAddress
              else 0))
    (hLeast :
      ∀ longId row, t.series.get? longId = some row → 0 ≤ row.units)
    (hRegistered :
      ∀ longId row, t.series.get? longId = some row →
        t.markets.has row.underlying = true)
    (hMarkets :
      ∀ underlying units,
        t.markets.get? underlying = some units →
          units = t.market underlying) :
    PositionsOk escrow (transfers ++ [input]) t := by
  have hHolds : ∀ id, t.holds id = balanceUnits held id := by
    intro id
    unfold Interests.holds
    rw [hBalances]
    rfl
  refine
    { keys := ?_
      holds := ?_
      nonneg := ?_
      held := ?_
      supply := ?_
      least := hLeast
      registered := hRegistered
      markets := hMarkets }
  · rw [hBalances]
    exact hLoop.keys
  · intro tokenId holder
    have hBefore : balanceUnits db (tokenId, holder) = _ :=
      h.holds tokenId holder
    rw [hHolds, hLoop.units, changesTo_walletDeltas hDeltas,
      hBefore, netUnits_concat]
    by_cases hWallet : HoldsWallet escrow holder
    · simp only [if_pos hWallet]
    · simp only [if_neg hWallet, add_zero]
  · intro id
    rw [hHolds]
    exact hLoop.nonneg h.nonneg id
  · intro tokenId
    have hBefore : heldUnits db.balances tokenId = _ :=
      h.held tokenId
    rw [hBalances, hLoop.held, sum_walletDeltas hEscrow hDeltas,
      hBefore, netUnits_concat, netUnits_concat]
    split
    · ring
    · ring
  · intro longId hLong
    rw [hSupply longId hLong, h.supply longId hLong,
      netUnits_concat]
    split
    · ring
    · ring

theorem positionsOk_transfer
    {batchIndex : Int}
    (hEscrow : addressKey escrow ≠ zeroAddress)
    (hOk : PositionsOk escrow transfers db.interests)
    (h : transfer escrow db input event batchIndex = .ok db') :
    PositionsOk escrow (transfers ++ [input]) db'.interests := by
  rcases transfer_eq_ok.mp h with
    ⟨recorded, deltas, held, hRecorded, hDeltas, hHeld, hInterest⟩
  rw [recordTransfer_keeps hRecorded] at hHeld
  have hKept := balanceDelta_run_keeps hHeld
  have hLoop :=
    @loopSpec { db with transfers := recorded.transfers } held
      deltas input.tokenId hOk.keys hHeld
  by_cases hNone : openInterestDelta input = 0
  · rw [if_pos hNone] at hInterest
    cases hInterest
    refine
      @PositionsOk.afterLoop
        { db with transfers := recorded.transfers } db' escrow
        transfers input deltas db'.interests hOk hEscrow
        hDeltas hLoop rfl ?_ ?_ ?_ ?_
    · intro longId hLong
      rw [hKept]
      split
      · next hToken =>
          rw [← openInterestDelta_long (by rwa [hToken]), hNone,
            add_zero]
          rfl
      · rw [add_zero]
        rfl
    · rw [hKept]
      exact hOk.least
    · rw [hKept]
      exact hOk.registered
    · rw [hKept]
      exact hOk.markets
  · rw [if_neg hNone] at hInterest
    have hLong : input.tokenId % 2 = 0 := by
      by_contra hShort
      exact hNone (openInterestDelta_short hShort)
    have hId : (positionId input.tokenId).1 = input.tokenId := by
      unfold positionId
      rw [hLong, sub_zero]
    rw [hId, openInterestDelta_long hLong] at hInterest
    rcases interests_openInterest hInterest with
      ⟨row, units, hRow, hUnits, hLeast, hChange⟩
    rw [hChange]
    refine
      @PositionsOk.afterLoop
        { db with transfers := recorded.transfers } held escrow
        transfers input deltas _ hOk hEscrow hDeltas hLoop
        rfl ?_ ?_ ?_ ?_
    · intro longId _
      rw [units_change hRow, hKept]
      rfl
    · intro longId row' hRow'
      unfold Interests.change at hRow'
      rw [OrderedMap.get?_set] at hRow'
      split at hRow'
      · cases hRow'
        exact hLeast
      · rw [hKept] at hRow'
        exact hOk.least longId row' hRow'
    · intro longId row' hRow'
      unfold Interests.change at hRow' ⊢
      rw [OrderedMap.has_set]
      rw [OrderedMap.get?_set] at hRow'
      split at hRow'
      · cases hRow'
        exact .inl rfl
      · rw [hKept] at hRow' ⊢
        exact .inr (hOk.registered longId row' hRow')
    · intro underlying after hAfter
      rw [market_change hRow]
      unfold Interests.change at hAfter
      rw [OrderedMap.get?_set] at hAfter
      split at hAfter
      · next hSame =>
          cases hAfter
          rw [hKept] at hUnits
          rw [hKept, hOk.markets _ _ hUnits, hSame, if_pos rfl]
          rfl
      · next hOther =>
          rw [hKept] at hAfter ⊢
          rw [if_neg hOther, add_zero,
            hOk.markets underlying after hAfter]
          rfl

theorem positionsOk_transferAll
    {sender recipient : String}
    {items : List (Int × Int)}
    {i : Int}
    (hEscrow : addressKey escrow ≠ zeroAddress)
    (hOk : PositionsOk escrow transfers db.interests)
    (h :
      transferAll escrow sender recipient event db i items =
        .ok db') :
    PositionsOk escrow
      (transfers ++
        items.map (fun item =>
          { sender := sender
            recipient := recipient
            tokenId := item.1
            units := item.2 }))
      db'.interests := by
  induction items generalizing db transfers i with
  | nil =>
      cases h
      rw [List.map_nil, List.append_nil]
      exact hOk
  | cons item rest ih =>
      rcases bind_eq_ok.mp h with ⟨mid, hMid, hRest⟩
      have hRestOk := ih (positionsOk_transfer hEscrow hOk hMid) hRest
      rwa [List.append_assoc] at hRestOk

end

----
-- Every Log Keeps the Positions
----

variable {env : IndexEnv} {db db' : IndexDb} {event : LogMeta}

theorem interests_eq
    (hSeries :
      mapRows SeriesRow.interest db'.series =
        mapRows SeriesRow.interest db.series)
    (hMarkets :
      mapRows (fun row => row.openInterestUnits) db'.markets =
        mapRows (fun row => row.openInterestUnits) db.markets)
    (hBalances : db'.balances = db.balances) :
    db'.interests = db.interests := by
  unfold IndexDb.interests
  rw [hSeries, hMarkets, hBalances]

theorem interests_countSettled
    (markets : OrderedMap String MarketRow)
    (underlying : String) :
    mapRows (fun row => row.openInterestUnits)
        (countSettled markets underlying event) =
      mapRows (fun row => row.openInterestUnits) markets := by
  unfold countSettled
  split
  · rfl
  · next market hMarket => exact mapRows_set_same hMarket rfl

def IndexEvent.writesInterests : IndexEvent → Bool
  | .marketRegistered _ _ _ => true
  | .seriesCreated _ => true
  | .transferSingle _ => true
  | .transferBatch _ _ _ _ => true
  | _ => false

theorem interests_of_not_writesInterests
    {entry : IndexLog}
    (h : apply env db entry = .ok db')
    (hNot : entry.event.writesInterests = false) :
    db'.interests = db.interests := by
  rcases entry with ⟨event, log⟩
  unfold apply at h
  cases event with
  | marketConfigSet underlying config =>
      rcases marketConfigSet_eq_ok.mp h with ⟨_, hMarket, rfl⟩
      exact interests_eq rfl (mapRows_set_same hMarket rfl) rfl
  | mintPausedSet underlying paused =>
      rcases mintPausedSet_eq_ok.mp h with ⟨_, hMarket, rfl⟩
      exact interests_eq rfl (mapRows_set_same hMarket rfl) rfl
  | minted args =>
      rcases minted_eq_ok.mp h with ⟨paid, _, hPaid, hRow, _, rfl⟩
      rw [ledgerDelta_keeps hPaid]
      exact interests_eq (mapRows_set_same hRow rfl) rfl rfl
  | closed args =>
      rcases closed_eq_ok.mp h with
        ⟨paid, _, hPaid, hRow, _, _, rfl⟩
      rw [ledgerDelta_keeps hPaid]
      exact interests_eq (mapRows_set_same hRow rfl) rfl rfl
  | seriesSettled longId payouts =>
      rcases seriesSettled_eq_ok.mp h with ⟨_, hRow, rfl⟩
      exact
        interests_eq (mapRows_set_same hRow rfl)
          (interests_countSettled db.markets _) rfl
  | redeemed args =>
      rw [redeemed_keeps h]
      rfl
  | deposited account asset amount sender =>
      rw [cashFlow_keeps h]
      rfl
  | withdrawn account asset amount recipient =>
      rw [cashFlow_keeps h]
      rfl
  | mintFeesAccrued longId asset amount =>
      rcases mintFeesAccrued_eq_ok.mp h with
        ⟨_, hRow, _, _, _, _, rfl⟩
      exact interests_eq (mapRows_set_same hRow rfl) rfl rfl
  | orderPlaced args =>
      rcases orderPlaced_eq_ok.mp h with
        ⟨_, _, _, _, _, _, _, _, _, _, _, rfl⟩
      rfl
  | orderPlacedBy orderId placer =>
      rcases orderPlacedBy_eq_ok.mp h with ⟨_, _, rfl⟩
      rfl
  | orderFilled args =>
      rcases orderFilled_eq_ok.mp h with
        ⟨_, _, _, _, _, _, _, hRow, hMarket, rfl⟩
      exact
        interests_eq (mapRows_set_same hRow rfl)
          (mapRows_set_same hMarket rfl) rfl
  | orderCancelled orderId unitsRemaining pruned =>
      rcases orderCancelled_eq_ok.mp h with ⟨_, _, _, _, rfl⟩
      rfl
  | repriced oldOrderId newOrderId =>
      cases h
      rfl
  | taken args =>
      rcases taken_eq_ok.mp h with ⟨_, _, _, _, hMarket, rfl⟩
      exact interests_eq rfl (mapRows_set_same hMarket rfl) rfl
  | oracle underlying expiry change =>
      cases h
      refine interests_eq ?_ rfl rfl
      unfold record
      dsimp only
      split
      · rfl
      · exact mapRows_updateWhere (fun _ => rfl)
  | clock =>
      cases h
      exact interests_eq (mapRows_updateWhere (fun _ => rfl)) rfl rfl
  | marketRegistered | seriesCreated | transferSingle
  | transferBatch => cases hNot

theorem transfers_of_not_writesInterests
    {event : IndexEvent}
    (h : event.writesInterests = false) :
    event.transfers = [] := by
  cases event with
  | transferSingle | transferBatch => cases h
  | _ => rfl

theorem positionsOk_apply
    {past : List IndexLog}
    {entry : IndexLog}
    (hEscrow : addressKey env.orderBook ≠ zeroAddress)
    (h : PositionsOk env.orderBook (transfersOf past) db.interests)
    (hApply : apply env db entry = .ok db') :
    PositionsOk env.orderBook (transfersOf (past ++ [entry]))
      db'.interests := by
  rw [transfersOf_concat]
  cases hWrites : entry.event.writesInterests with
  | false =>
      rw [interests_of_not_writesInterests hApply hWrites,
        transfers_of_not_writesInterests hWrites, List.append_nil]
      exact h
  | true =>
      rcases entry with ⟨event, log⟩
      unfold apply at hApply
      cases event with
      | marketRegistered underlying ticker config =>
          rcases marketRegistered_eq_ok.mp hApply with ⟨hNone, rfl⟩
          have hNew :
              db.interests.markets.get? (addressKey underlying) =
                none := by
            unfold IndexDb.interests
            rw [get?_mapRows, hNone, Option.map_none]
          have hAfter := h.newMarket hNew
          rw [show IndexEvent.transfers _ = [] from rfl,
            List.append_nil]
          unfold IndexDb.interests at hAfter ⊢
          dsimp only at hAfter ⊢
          rw [mapRows_set]
          exact hAfter
      | seriesCreated args =>
          rcases seriesCreated_eq_ok.mp hApply with
            ⟨market, hMarket, hNone, rfl⟩
          have hNew :
              db.interests.series.get? args.longId = none := by
            unfold IndexDb.interests
            rw [get?_mapRows, hNone, Option.map_none]
          have hRegistered :
              db.interests.markets.has (addressKey args.underlying) =
                true := by
            unfold IndexDb.interests
            rw [OrderedMap.has, get?_mapRows, hMarket]
            rfl
          have hAfter := h.newSeries hNew hRegistered
          rw [show IndexEvent.transfers _ = [] from rfl,
            List.append_nil]
          unfold IndexDb.interests at hAfter ⊢
          dsimp only at hAfter ⊢
          rw [mapRows_set, mapRows_set_same hMarket]
          · exact hAfter
          · rfl
      | transferSingle input =>
          exact positionsOk_transfer hEscrow h hApply
      | transferBatch sender recipient ids values =>
          exact
            positionsOk_transferAll hEscrow h
              (transferBatch_eq_ok.mp hApply).2
      | _ => cases hWrites

/-
  Whatever logs the index has taken: a wallet's row is what the
  transfers leave it with and never less than nothing, a
  series' open interest is what wallets and the book's escrow
  hold of its longs, and a market's is the sum of its series'.
-/
theorem open_interest_is_held
    (env : IndexEnv)
    (hEscrow : addressKey env.orderBook ≠ zeroAddress)
    (logs : List IndexLog)
    (db : IndexDb)
    (h : runLogs env emptyDb logs = .ok db) :
    (∀ tokenId holder,
        0 ≤ balanceUnits db (tokenId, holder) ∧
          balanceUnits db (tokenId, holder) =
            if HoldsWallet env.orderBook holder then
              netUnits (transfersOf logs) tokenId holder
            else 0) ∧
      (∀ longId row, db.series.get? longId = some row →
        longId % 2 = 0 →
          0 ≤ row.openInterestUnits ∧
            row.openInterestUnits =
              heldUnits db.balances longId +
                netUnits (transfersOf logs) longId
                  (addressKey env.orderBook)) ∧
      ∀ underlying market,
        db.markets.get? underlying = some market →
          market.openInterestUnits =
            sumBy
              (fun row =>
                if row.underlying = underlying then
                  row.openInterestUnits
                else 0)
              db.series := by
  have hOk : PositionsOk env.orderBook (transfersOf logs) db.interests :=
    @runLogs_history env emptyDb db logs
      (fun past db =>
        PositionsOk env.orderBook (transfersOf past) db.interests)
      (fun _ _ _ _ => positionsOk_apply hEscrow)
      [] positionsOk_empty h
  have hSeries :
      ∀ longId row, db.series.get? longId = some row →
        db.interests.series.get? longId = some row.interest := by
    intro longId row hRow
    unfold IndexDb.interests
    rw [get?_mapRows, hRow, Option.map_some]
  refine ⟨?_, ?_, ?_⟩
  · exact fun tokenId holder =>
      ⟨hOk.nonneg (tokenId, holder), hOk.holds tokenId holder⟩
  · intro longId row hRow hLong
    have hSupply := hOk.supply longId hLong
    unfold Interests.units at hSupply
    rw [hSeries longId row hRow] at hSupply
    have hHeld : heldUnits db.balances longId = _ := hOk.held longId
    refine ⟨hOk.least longId _ (hSeries longId row hRow), ?_⟩
    rw [hHeld, sub_add_cancel]
    exact hSupply
  · intro underlying market hMarket
    have hUnits :
        db.interests.markets.get? underlying =
          some market.openInterestUnits := by
      unfold IndexDb.interests
      rw [get?_mapRows, hMarket, Option.map_some]
    refine (hOk.markets underlying _ hUnits).trans ?_
    exact sumBy_mapRows _ SeriesRow.interest db.series

/- Five longs minted to a wallet, which puts two into the book. -/
def sampleMint : List IndexLog :=
  sampleListing ++
    [ { event :=
          .transferSingle
            { sender := zeroAddress
              recipient := "0xa1"
              tokenId := 2
              units := 5 }
        log := sampleMeta "0x2" 0 },
      { event := .transferBatch "0xa1" "0xb0" [2] [2]
        log := sampleMeta "0x3" 0 } ]

theorem open_interest_is_held_small :
    ∃ row,
      (indexed sampleEnv sampleMint).series.get? 2 = some row ∧
        row.openInterestUnits =
          heldUnits (indexed sampleEnv sampleMint).balances 2 +
            netUnits (transfersOf sampleMint) 2 (addressKey "0xb0") := by
  have hSome :
      ((indexed sampleEnv sampleMint).series.get? 2).isSome =
        true := by
    decide +kernel
  rcases Option.isSome_iff_exists.mp hSome with ⟨row, hRow⟩
  have hAll :=
    open_interest_is_held sampleEnv (by decide +kernel) sampleMint _
      (runLogs_indexed (by decide +kernel))
  exact ⟨row, hRow, (hAll.2.1 2 row hRow rfl).2⟩

end Callhouse.Indexer.Projection
