import Callhouse.Keeper.Mm.Risk

/-
  `planSizes` keeps every vault and bot limit over a whole
  tick.

  The loop invariant is that no budget is overdrawn; each
  series then charges exactly what it plans, and its
  exposure stays under the cap it was sized against or under
  its bare inventory.

  Main declarations:
    * `planAsk_spec`, `planBid_spec`
    * `Budgets.Solvent`, `sizeSeries_solvent`
    * `exposure_le_room`
    * `planSizes_keeps_limits`
-/

----
-- Admissible Inputs
----

namespace Callhouse.Keeper.Mm

structure SizeSeries.NonNegative
    (s : SizeSeries) : Prop where
  strike : 0 ≤ s.strike
  longs : 0 ≤ s.longs
  resale : 0 ≤ s.resale
  shorts : 0 ≤ s.shorts
  collateralPerUnit : 0 ≤ s.collateralPerUnit
  mintFeePpm : 0 ≤ s.mintFeePpm
  bidPrice : ∀ price, s.bidPrice = some price → 0 ≤ price
  askPrice : ∀ price, s.askPrice = some price → 0 ≤ price

structure SizeLimits.NonNegative
    (limits : SizeLimits) : Prop where
  usdgBudget : 0 ≤ limits.usdgBudget
  bidUnits : 0 ≤ limits.bidUnits
  askUnits : 0 ≤ limits.askUnits
  freeCollateral :
    ∀ entry ∈ limits.freeCollateral.entries, 0 ≤ entry.2
  oversubscribe : 0 ≤ limits.oversubscribe

/- The signed inventory a series carries before any quote. -/
def SizeSeries.inventory
    (s : SizeSeries) : Int :=
  s.longs + s.resale - s.shorts

/- No budget is overdrawn. -/
structure Budgets.Solvent
    (st : Budgets) : Prop where
  usdgLeft : 0 ≤ st.usdgLeft
  outflowLeft : 0 ≤ st.outflowLeft
  collateralLeft :
    ∀ asset, 0 ≤ st.collateralLeft.getD asset 0

/- The collateral the chain holds of an asset. -/
def SizeLimits.free
    (limits : SizeLimits)
    (asset : String) : Int :=
  (freeActual limits).getD asset 0

----
-- The Starting Budgets
----

/-
  Both collateral maps are written key by key from the same
  entries, so they keep the sizing rule entry by entry.
-/
private theorem collateral_fold
    (bps' : Int)
    (l : List (String × Int))
    (free sizing : OrderedMap String Int)
    (hFree : ∀ asset, 0 ≤ free.getD asset 0)
    (hSizing :
      ∀ asset,
        sizing.getD asset 0 =
          (free.getD asset 0 * bps').tdiv
            writeOversubscribeBpsExact)
    (hEntries : ∀ entry ∈ l, (0 : Int) ≤ entry.2) :
    let free' :=
      l.foldl
        (fun m entry => m.set (toLowerCase entry.1) entry.2)
        free
    let sizing' :=
      l.foldl
        (fun m entry =>
          m.set (toLowerCase entry.1)
            ((entry.2 * bps').tdiv
              writeOversubscribeBpsExact))
        sizing
    (∀ asset, 0 ≤ free'.getD asset 0) ∧
      ∀ asset,
        sizing'.getD asset 0 =
          (free'.getD asset 0 * bps').tdiv
            writeOversubscribeBpsExact := by
  induction l generalizing free sizing with
  | nil => exact ⟨hFree, hSizing⟩
  | cons entry rest ih =>
      simp only [List.foldl_cons]
      apply ih
      · intro asset
        rw [OrderedMap.getD_set]
        split
        · exact hEntries entry (List.mem_cons_self ..)
        · exact hFree asset
      · intro asset
        rw [OrderedMap.getD_set, OrderedMap.getD_set]
        split
        · rfl
        · exact hSizing asset
      · intro e he
        exact hEntries e (List.mem_cons_of_mem _ he)

theorem initial_collateral
    {limits : SizeLimits}
    (hLimits : limits.NonNegative) :
    (∀ asset, 0 ≤ limits.free asset) ∧
      ∀ asset,
        (initialBudgets limits).collateralLeft.getD asset 0 =
          (limits.free asset * limits.oversubscribe).tdiv
            writeOversubscribeBpsExact := by
  apply collateral_fold limits.oversubscribe
    limits.freeCollateral.entries .empty .empty
  · intro asset
    simp
  · intro asset
    simp
  · exact hLimits.freeCollateral

theorem initialBudgets_solvent
    {limits : SizeLimits}
    (hLimits : limits.NonNegative) :
    (initialBudgets limits).Solvent := by
  rcases initial_collateral hLimits with ⟨hFree, hSizing⟩
  refine ⟨hLimits.usdgBudget, le_max_right _ _, ?_⟩
  intro asset
  rw [hSizing asset]
  apply TruncDiv.tdiv_nonneg _ (by decide)
  exact mul_nonneg (hFree asset) hLimits.oversubscribe

----
-- The Ask Side
----

section

variable {limits : SizeLimits} {st : Budgets} {s : SizeSeries}

theorem cutAsk_spec
    (binding : SizeCap)
    {downRoom : Int}
    {ask : AskSide}
    (hRoom : 0 ≤ downRoom)
    (hWrite : 0 ≤ ask.write)
    (hResale : 0 ≤ ask.resale) :
    let cut := cutAsk binding downRoom ask
    (0 ≤ cut.write ∧ cut.write ≤ ask.write) ∧
      (0 ≤ cut.resale ∧ cut.resale ≤ ask.resale) ∧
      cut.write + cut.resale ≤ downRoom := by
  unfold cutAsk
  split
  · simp only
    omega
  · simp only
    omega

@[simp] theorem writeNeed_zero
    (limits : SizeLimits)
    (s : SizeSeries) :
    writeNeed limits s 0 = 0 := by
  simp [writeNeed]

/- A write up to the affordable one fits both views of the pool. -/
theorem writeNeed_le_of_le_affordable
    (hLimits : limits.NonNegative)
    (hSolvent : st.Solvent)
    (hCpu : 0 < s.collateralPerUnit)
    {write : Int}
    (hWrite : 0 ≤ write)
    (hAffordable : write ≤ affordableWrite limits st s) :
    writeNeed limits s write ≤
        st.collateralLeft.getD s.asset 0 ∧
      writeNeed limits s write ≤ limits.free s.asset := by
  have hFree := (initial_collateral hLimits).1 s.asset
  unfold affordableWrite at hAffordable
  rw [le_min_iff] at hAffordable
  constructor
  · exact collateralNeeded_le_of_le_maxWriteUnits _ _
      (hSolvent.collateralLeft s.asset) hCpu hWrite
      hAffordable.1
  · exact collateralNeeded_le_of_le_maxWriteUnits _ _
      hFree hCpu hWrite hAffordable.2

theorem affordableWrite_nonneg :
    0 ≤ affordableWrite limits st s :=
  le_min (maxWriteUnits_nonneg _ _ _ _)
    (maxWriteUnits_nonneg _ _ _ _)

/- What funding a write does to the write and to the pool. -/
structure Funded
    (limits : SizeLimits)
    (st : Budgets)
    (s : SizeSeries)
    (ask : AskSide)
    (out : AskSide × OrderedMap String Int) : Prop where
  write_nonneg : 0 ≤ out.1.write
  write_le : out.1.write ≤ ask.write
  resale : out.1.resale = ask.resale
  need_le_left :
    writeNeed limits s out.1.write ≤
      st.collateralLeft.getD s.asset 0
  need_le_free :
    writeNeed limits s out.1.write ≤ limits.free s.asset
  charged :
    ∀ asset,
      out.2.getD asset 0 =
        st.collateralLeft.getD asset 0 -
          if s.asset = asset then
            writeNeed limits s out.1.write
          else 0

/- A side that writes nothing is funded by leaving the pool. -/
theorem Funded.of_no_write
    (hLimits : limits.NonNegative)
    (hSolvent : st.Solvent)
    (ask out : AskSide)
    (hWrite : 0 ≤ ask.write)
    (hOut : out.write = 0)
    (hResale : out.resale = ask.resale) :
    Funded limits st s ask (out, st.collateralLeft) := by
  have hNeed : writeNeed limits s out.write = 0 := by
    rw [hOut, writeNeed_zero]
  constructor
  · exact hOut.ge
  · exact hOut.trans_le hWrite
  · exact hResale
  · simpa only [hNeed] using
      hSolvent.collateralLeft s.asset
  · simpa only [hNeed] using
      (initial_collateral hLimits).1 s.asset
  · intro asset
    simp only [hNeed, ite_self, sub_zero]

/- An affordable write is charged to its asset alone. -/
theorem Funded.of_affordable
    (hLimits : limits.NonNegative)
    (hSolvent : st.Solvent)
    (hCpu : 0 < s.collateralPerUnit)
    (ask out : AskSide)
    (hWrite : 0 ≤ out.write)
    (hLe : out.write ≤ ask.write)
    (hAffordable : out.write ≤ affordableWrite limits st s)
    (hResale : out.resale = ask.resale) :
    Funded limits st s ask
      (out,
        st.collateralLeft.set s.asset
          (st.collateralLeft.getD s.asset 0 -
            writeNeed limits s out.write)) := by
  have hFits :=
    writeNeed_le_of_le_affordable hLimits hSolvent hCpu
      hWrite hAffordable
  refine ⟨hWrite, hLe, hResale, hFits.1, hFits.2, ?_⟩
  intro asset
  rw [OrderedMap.getD_set]
  split
  · next hAsset => rw [hAsset]
  · rw [sub_zero]

theorem fundWrite_spec
    (hLimits : limits.NonNegative)
    (hSolvent : st.Solvent)
    {ask : AskSide}
    (hWrite : 0 ≤ ask.write) :
    Funded limits st s ask (fundWrite limits st s ask) := by
  have hAffordable := @affordableWrite_nonneg limits st s
  unfold fundWrite
  by_cases hFund : ask.write > 0 ∧ s.collateralPerUnit > 0
  · rw [if_pos hFund]
    by_cases hCut : affordableWrite limits st s < ask.write
    · simp only [hCut, if_true]
      exact Funded.of_affordable hLimits hSolvent hFund.2
        ask _ hAffordable hCut.le (le_refl _) rfl
    · simp only [hCut, if_false]
      exact Funded.of_affordable hLimits hSolvent hFund.2
        ask _ hWrite (le_refl _) (not_lt.mp hCut) rfl
  · rw [if_neg hFund]
    by_cases hWanted : ask.write > 0
    · rw [if_pos hWanted]
      exact Funded.of_no_write hLimits hSolvent ask _ hWrite
        rfl rfl
    · rw [if_neg hWanted]
      exact Funded.of_no_write hLimits hSolvent ask _ hWrite
        (le_antisymm (not_lt.mp hWanted) hWrite) rfl

/- Everything the rest of the tick needs of an ask side. -/
structure AskPlanned
    (limits : SizeLimits)
    (st : Budgets)
    (s : SizeSeries)
    (out : AskSide × OrderedMap String Int) : Prop where
  write_nonneg : 0 ≤ out.1.write
  resale_nonneg : 0 ≤ out.1.resale
  resale_le : out.1.resale ≤ s.totalLongs
  units_le : out.1.write + out.1.resale ≤ limits.askUnits
  room :
    out.1.write + out.1.resale ≤
      max ((seriesRoom limits st s).1 + s.totalLongs -
        s.shorts) 0
  need_le_left :
    writeNeed limits s out.1.write ≤
      st.collateralLeft.getD s.asset 0
  need_le_free :
    writeNeed limits s out.1.write ≤ limits.free s.asset
  charged :
    ∀ asset,
      out.2.getD asset 0 =
        st.collateralLeft.getD asset 0 -
          if s.asset = asset then
            writeNeed limits s out.1.write
          else 0

theorem wantedAsk_spec
    (hSeries : s.NonNegative)
    (hQuoted : limits.askUnits > 0) :
    (0 ≤ (wantedAsk limits s).write) ∧
      (0 ≤ (wantedAsk limits s).resale) ∧
      (wantedAsk limits s).resale ≤ s.totalLongs ∧
      (wantedAsk limits s).write +
        (wantedAsk limits s).resale ≤ limits.askUnits := by
  have hLongs : 0 ≤ s.totalLongs :=
    add_nonneg hSeries.longs hSeries.resale
  unfold wantedAsk
  simp only
  split <;> omega

theorem planAsk_spec
    (hLimits : limits.NonNegative)
    (hSeries : s.NonNegative)
    (hSolvent : st.Solvent) :
    AskPlanned limits st s (planAsk limits st s) := by
  have hLongs : 0 ≤ s.totalLongs :=
    add_nonneg hSeries.longs hSeries.resale
  unfold planAsk
  simp only
  split
  · next hQuoted =>
      rcases wantedAsk_spec hSeries hQuoted.2 with
        ⟨hWrite, hResale, hHeld, hUnits⟩
      have hCut :=
        cutAsk_spec (seriesRoom limits st s).2
          (le_max_right
            ((seriesRoom limits st s).1 + s.totalLongs -
              s.shorts) 0)
          hWrite hResale
      simp only at hCut
      rcases hCut with
        ⟨⟨hCutWrite, hLeWrite⟩, ⟨hCutResale, hLeResale⟩,
          hRoom⟩
      have hFund :=
        fundWrite_spec (s := s) hLimits hSolvent hCutWrite
      have hOutResale := hFund.resale
      have hOutWrite := hFund.write_le
      constructor
      · exact hFund.write_nonneg
      · omega
      · omega
      · omega
      · omega
      · exact hFund.need_le_left
      · exact hFund.need_le_free
      · exact hFund.charged
  · have hNone :=
      Funded.of_no_write (s := s) hLimits hSolvent
        ⟨0, 0, []⟩ ⟨0, 0, []⟩ (le_refl 0) rfl rfl
    constructor
    · exact le_refl 0
    · exact le_refl 0
    · exact hLongs
    · exact hLimits.askUnits
    · exact le_max_right _ _
    · exact hNone.need_le_left
    · exact hNone.need_le_free
    · exact hNone.charged

end

----
-- The Bid Side
----

section

variable {limits : SizeLimits} {st : Budgets} {s : SizeSeries}

@[simp] theorem cutBid_fst
    (cap : SizeCap)
    (bound : Int)
    (bid : Int × List SizeCap) :
    (cutBid cap bound bid).1 = min bound bid.1 := by
  unfold cutBid
  split
  · next h => simp [h.le]
  · next h => simp [not_lt.mp h]

/- A bid up to `budget × 100 / price` escrows within the budget. -/
theorem bidEscrowOf_le
    {price bid budget : Int}
    (hPrice : 0 < price)
    (hBid : 0 ≤ bid)
    (hBudget : 0 ≤ budget)
    (h : bid ≤ (budget * unitsPerShare).tdiv price) :
    bidEscrowOf price bid ≤ budget := by
  have hScaled : 0 ≤ budget * unitsPerShare :=
    mul_nonneg hBudget unitsPerShare_pos.le
  have hMul : bid * price ≤ budget * unitsPerShare :=
    (TruncDiv.le_tdiv_iff hScaled hPrice).mp h
  apply TruncDiv.tdiv_le_of_le_mul
  · exact mul_nonneg hPrice.le hBid
  · exact unitsPerShare_pos
  · rw [mul_comm]
    exact hMul

/- Everything the rest of the tick needs of a bid side. -/
structure BidPlanned
    (limits : SizeLimits)
    (st : Budgets)
    (s : SizeSeries)
    (bid : Int) : Prop where
  nonneg : 0 ≤ bid
  units_le : bid ≤ limits.bidUnits
  room :
    bid ≤
      max ((seriesRoom limits st s).1 + s.shorts -
        s.totalLongs) 0
  escrow_nonneg : 0 ≤ bidEscrow s bid
  escrow_le_usdg : bidEscrow s bid ≤ st.usdgLeft
  escrow_le_outflow : bidEscrow s bid ≤ st.outflowLeft

theorem BidPlanned.of_zero
    (hLimits : limits.NonNegative)
    (hSolvent : st.Solvent) :
    BidPlanned limits st s 0 := by
  have hEscrow : bidEscrow s 0 = 0 := by
    simp [bidEscrow, bidEscrowOf]
  constructor
  · exact le_refl 0
  · exact hLimits.bidUnits
  · exact le_max_right _ _
  · exact hEscrow.ge
  · exact hEscrow.trans_le hSolvent.usdgLeft
  · exact hEscrow.trans_le hSolvent.outflowLeft

theorem planBid_spec
    (hLimits : limits.NonNegative)
    (hSolvent : st.Solvent)
    (capped : List SizeCap) :
    BidPlanned limits st s
      (planBid limits st s capped).1 := by
  unfold planBid
  cases hPrice : s.bidPrice with
  | none => exact BidPlanned.of_zero hLimits hSolvent
  | some price =>
      simp only
      by_cases hQuoted : price > 0 ∧ limits.bidUnits > 0
      · rw [if_pos hQuoted]
        simp only [cutBid_fst]
        have hUsdg :
            0 ≤ (st.usdgLeft * unitsPerShare).tdiv price :=
          TruncDiv.tdiv_nonneg
            (mul_nonneg hSolvent.usdgLeft unitsPerShare_pos.le)
            hQuoted.1
        have hOutflow :
            0 ≤
              (st.outflowLeft * unitsPerShare).tdiv price :=
          TruncDiv.tdiv_nonneg
            (mul_nonneg hSolvent.outflowLeft
              unitsPerShare_pos.le)
            hQuoted.1
        -- The bid is the least of four bounds, all non-negative.
        generalize hBid :
          min ((st.outflowLeft * unitsPerShare).tdiv price)
            (min ((st.usdgLeft * unitsPerShare).tdiv price)
              (min
                (max ((seriesRoom limits st s).1 + s.shorts -
                  s.totalLongs) 0)
                limits.bidUnits)) = bid
        have hNonneg : 0 ≤ bid := by
          have hUnits := hLimits.bidUnits
          omega
        have hEscrow : bidEscrow s bid =
            bidEscrowOf price bid := by
          simp [bidEscrow, hPrice]
        constructor
        · exact hNonneg
        · omega
        · omega
        · rw [hEscrow]
          exact TruncDiv.tdiv_nonneg
            (mul_nonneg hQuoted.1.le hNonneg)
            unitsPerShare_pos
        · rw [hEscrow]
          exact bidEscrowOf_le hQuoted.1 hNonneg
            hSolvent.usdgLeft (by omega)
        · rw [hEscrow]
          exact bidEscrowOf_le hQuoted.1 hNonneg
            hSolvent.outflowLeft (by omega)
      · rw [if_neg hQuoted]
        exact BidPlanned.of_zero hLimits hSolvent

end

----
-- One Series
----

section

variable {limits : SizeLimits} {st : Budgets} {s : SizeSeries}

section

variable (hLimits : limits.NonNegative)
include hLimits

theorem sizeSeries_ask
    (hSeries : s.NonNegative)
    (hSolvent : st.Solvent) :
    AskPlanned limits st s
      (⟨(sizeSeries limits st s).1.write,
        (sizeSeries limits st s).1.resale,
        (planAsk limits st s).1.capped⟩,
        (sizeSeries limits st s).2.collateralLeft) :=
  planAsk_spec hLimits hSeries hSolvent

theorem sizeSeries_bid
    (hSolvent : st.Solvent) :
    BidPlanned limits st s (sizeSeries limits st s).1.bid :=
  planBid_spec hLimits hSolvent _

/- Sizing a series overdraws no budget. -/
theorem sizeSeries_solvent
    (hSeries : s.NonNegative)
    (hSolvent : st.Solvent) :
    (sizeSeries limits st s).2.Solvent := by
  have hAsk := sizeSeries_ask hLimits hSeries hSolvent
  have hBid := sizeSeries_bid (s := s) hLimits hSolvent
  constructor
  · exact sub_nonneg.mpr hBid.escrow_le_usdg
  · exact sub_nonneg.mpr hBid.escrow_le_outflow
  · intro asset
    have hCharged := hAsk.charged asset
    simp only at hCharged
    rw [hCharged]
    split
    · next hAsset =>
        rw [← hAsset]
        exact sub_nonneg.mpr hAsk.need_le_left
    · simpa using hSolvent.collateralLeft asset

/-
  Both sides stay under the room or add nothing to the bare
  inventory, so their worst case does too.
-/
theorem exposure_le_room
    (hSeries : s.NonNegative)
    (hSolvent : st.Solvent) :
    (sizeSeries limits st s).1.exposure ≤
      max (seriesRoom limits st s).1 |s.inventory| := by
  have hAsk := sizeSeries_ask hLimits hSeries hSolvent
  have hBid := sizeSeries_bid (s := s) hLimits hSolvent
  have hDown := hAsk.room
  have hUp := hBid.room
  have hWrite := hAsk.write_nonneg
  have hResale := hAsk.resale_nonneg
  have hNonneg := hBid.nonneg
  have hExposure :
      (sizeSeries limits st s).1.exposure =
        exposureUnits s.longs s.resale s.shorts
          (sizeSeries limits st s).1.bid
          (sizeSeries limits st s).1.write
          (sizeSeries limits st s).1.resale := rfl
  rw [hExposure]
  generalize (sizeSeries limits st s).1.bid = bid at *
  generalize (sizeSeries limits st s).1.write = write at *
  generalize (sizeSeries limits st s).1.resale = resale
    at *
  generalize (seriesRoom limits st s).1 = room at *
  simp only at hDown hWrite hResale
  have hPos := le_abs_self s.inventory
  have hNeg := neg_abs_le s.inventory
  unfold exposureUnits
  unfold SizeSeries.inventory at *
  unfold SizeSeries.totalLongs at hDown hUp
  simp only
  omega

end

end

----
-- Notional Room
----

section

variable {limits : SizeLimits} {st : Budgets} {s : SizeSeries}

/- The room is the combined series cap, tightened twice. -/
theorem seriesRoom_fst :
    (seriesRoom limits st s).1 =
      match byExpiry limits st s with
      | none => min limits.seriesCap (byNotional limits st s)
      | some expiry =>
          min (min limits.seriesCap (byNotional limits st s))
            expiry := by
  unfold seriesRoom
  cases byExpiry limits st s with
  | none => rfl
  | some expiry =>
      simp only
      split
      · next h => exact (min_eq_right h.le).symm
      · next h => exact (min_eq_left (not_lt.mp h)).symm

theorem seriesRoom_le_byNotional :
    (seriesRoom limits st s).1 ≤ byNotional limits st s := by
  rw [seriesRoom_fst]
  cases byExpiry limits st s with
  | none => exact min_le_right _ _
  | some expiry =>
      exact (min_le_left _ _).trans (min_le_right _ _)

theorem seriesRoom_le_byExpiry
    {expiry : Int}
    (hOn : byExpiry limits st s = some expiry) :
    (seriesRoom limits st s).1 ≤ expiry := by
  rw [seriesRoom_fst, hOn]
  exact min_le_right _ _

theorem notionalOf_mono
    {units units' strike : Int}
    (hStrike : 0 ≤ strike)
    (hUnits : 0 ≤ units)
    (h : units ≤ units') :
    notionalOf units strike ≤ notionalOf units' strike := by
  apply TruncDiv.tdiv_le_tdiv
  · exact mul_nonneg hUnits hStrike
  · exact unitsPerShare_pos
  · exact mul_le_mul_of_nonneg_right h hStrike

/- Units inside a notional room are worth at most the room. -/
theorem notionalOf_le_room
    {units strike room : Int}
    (hStrike : 0 ≤ strike)
    (hUnits : 0 ≤ units)
    (hRoom : 0 ≤ room)
    (h :
      units ≤
        if strike > 0 then
          (room * unitsPerShare).tdiv strike
        else 0) :
    notionalOf units strike ≤ room := by
  apply TruncDiv.tdiv_le_of_le_mul
  · exact mul_nonneg hUnits hStrike
  · exact unitsPerShare_pos
  · split at h
    · next hPos =>
        have hScaled : 0 ≤ room * unitsPerShare :=
          mul_nonneg hRoom unitsPerShare_pos.le
        exact (TruncDiv.le_tdiv_iff hScaled hPos).mp h
    · have hZero : units = 0 := le_antisymm h hUnits
      rw [hZero, zero_mul]
      exact mul_nonneg hRoom unitsPerShare_pos.le

theorem exposure_nonneg :
    0 ≤ (sizeSeries limits st s).1.exposure :=
  le_max_right _ _

/-
  The planned notional of a series, on top of the others,
  stays under a cap whose room bounded the exposure, unless
  the bare inventory alone is past it.
-/
theorem others_add_notional_le
    (hLimits : limits.NonNegative)
    (hSeries : s.NonNegative)
    (hSolvent : st.Solvent)
    {others cap : Int}
    (room : Int)
    (hRoom : 0 ≤ room)
    (hCap : others + room ≤ cap)
    (hTight :
      (seriesRoom limits st s).1 ≤
        if s.strike > 0 then
          (room * unitsPerShare).tdiv s.strike
        else 0)
    (hInventory :
      |s.inventory| ≤ (seriesRoom limits st s).1 ∨
        others + notionalOf |s.inventory| s.strike ≤ cap) :
    others + (sizeSeries limits st s).1.notional ≤ cap := by
  have hExposure := exposure_le_room hLimits hSeries hSolvent
  have hNonneg := @exposure_nonneg limits st s
  have hNotional :
      (sizeSeries limits st s).1.notional =
        notionalOf (sizeSeries limits st s).1.exposure
          s.strike := rfl
  rw [hNotional]
  have hUnder :
      (sizeSeries limits st s).1.exposure ≤
          (seriesRoom limits st s).1 →
        others +
            notionalOf (sizeSeries limits st s).1.exposure
              s.strike ≤ cap := by
    intro hLe
    have hWorth :=
      notionalOf_le_room hSeries.strike hNonneg hRoom
        (hLe.trans hTight)
    omega
  rcases le_max_iff.mp hExposure with hLe | hLe
  · exact hUnder hLe
  · rcases hInventory with hFits | hFits
    · exact hUnder (hLe.trans hFits)
    · have hWorth := notionalOf_mono hSeries.strike hNonneg hLe
      omega

end

----
-- Running Totals
----

section

variable {limits : SizeLimits} {st : Budgets} {s : SizeSeries}

/-
  The bare inventory of a series does not itself take the
  total past the cap: it is inside the series' room, or worth
  no more than what is stored for it, or fits on top of the
  others.
-/
def InventoryWithin
    (limits : SizeLimits)
    (st : Budgets)
    (s : SizeSeries) : Prop :=
  |s.inventory| ≤ (seriesRoom limits st s).1 ∨
    notionalOf |s.inventory| s.strike ≤ s.seriesNotional ∨
    st.others s + notionalOf |s.inventory| s.strike ≤
      limits.totalCap

/- The same for the sum of the series' expiry. -/
def InventoryWithinExpiry
    (limits : SizeLimits)
    (st : Budgets)
    (s : SizeSeries) : Prop :=
  |s.inventory| ≤ (seriesRoom limits st s).1 ∨
    st.expiryOthers s + notionalOf |s.inventory| s.strike ≤
      limits.expiryCap

theorem sizeSeries_running_le
    (hLimits : limits.NonNegative)
    (hSeries : s.NonNegative)
    (hStored : 0 ≤ s.seriesNotional)
    (hSolvent : st.Solvent)
    (hRunning : st.running ≤ limits.totalCap)
    (hInventory : InventoryWithin limits st s) :
    (sizeSeries limits st s).2.running ≤
      limits.totalCap := by
  have hOthers : st.others s ≤ limits.totalCap := by
    unfold Budgets.others
    omega
  apply others_add_notional_le hLimits hSeries hSolvent
    (if limits.totalCap > st.others s then
      limits.totalCap - st.others s
    else 0)
  · split <;> omega
  · split <;> omega
  · exact seriesRoom_le_byNotional
  · rcases hInventory with hFits | hFits | hFits
    · exact Or.inl hFits
    · right
      unfold Budgets.others
      omega
    · exact Or.inr hFits

theorem sizeSeries_expiry_le
    (hLimits : limits.NonNegative)
    (hSeries : s.NonNegative)
    (hStored : 0 ≤ s.seriesNotional)
    (hSolvent : st.Solvent)
    (hOn : limits.expiryCap > 0)
    (hRunning :
      ∀ expiry,
        st.runningByExpiry.getD expiry 0 ≤ limits.expiryCap)
    (hInventory : InventoryWithinExpiry limits st s) :
    ∀ expiry,
      (sizeSeries limits st s).2.runningByExpiry.getD
        expiry 0 ≤ limits.expiryCap := by
  have hOthers : st.expiryOthers s ≤ limits.expiryCap := by
    have hRead := hRunning s.expiry
    unfold Budgets.expiryOthers
    unfold OrderedMap.getD at hRead ⊢
    cases hGet : st.runningByExpiry.get? s.expiry with
    | none =>
        simp only [Option.getD_none]
        omega
    | some stored =>
        rw [hGet] at hRead
        simp only [Option.getD_some] at hRead ⊢
        omega
  have hSome :
      byExpiry limits st s =
        some
          (if s.strike > 0 then
            (expiryRoom limits st s * unitsPerShare).tdiv
              s.strike
          else 0) := by
    unfold byExpiry
    rw [if_pos hOn]
  have hStep :
      st.expiryOthers s +
          (sizeSeries limits st s).1.notional ≤
        limits.expiryCap := by
    apply others_add_notional_le hLimits hSeries hSolvent
      (expiryRoom limits st s)
    · unfold expiryRoom
      simp only
      split <;> omega
    · unfold expiryRoom
      simp only
      split <;> omega
    · exact seriesRoom_le_byExpiry hSome
    · exact hInventory
  intro expiry
  have hAfter :
      (sizeSeries limits st s).2.runningByExpiry =
        st.runningByExpiry.set s.expiry
          (st.expiryOthers s +
            (sizeSeries limits st s).1.notional) := rfl
  rw [hAfter, OrderedMap.getD_set]
  split
  · exact hStep
  · exact hRunning expiry

end

----
-- The Whole Tick
----

section

variable {series : List SizeSeries} {limits : SizeLimits}

theorem solvent_budgetsAt
    (hLimits : limits.NonNegative)
    (hSeries : ∀ s ∈ series, s.NonNegative)
    (i : Nat) :
    (budgetsAt series limits i).Solvent := by
  apply Loop.invariant_stateAt _ Budgets.Solvent
  · exact initialBudgets_solvent hLimits
  · intro st s hs hSolvent
    exact sizeSeries_solvent hLimits (hSeries s hs) hSolvent

/- The sizes of the `i`-th series come from its own budgets. -/
theorem planSizes_getElem?
    {i : Nat}
    {s : SizeSeries}
    {z : SeriesSizes}
    (hs : series[i]? = some s)
    (hz : (planSizes series limits)[i]? = some z) :
    z = (sizeSeries limits (budgetsAt series limits i) s).1
    := by
  unfold planSizes at hz
  rw [Loop.getElem?_run, hs] at hz
  exact (Option.some.inj hz).symm

/- A cost charged to one budget sums to at most that budget. -/
theorem sum_zipWith_planSizes_le
    (hLimits : limits.NonNegative)
    (hSeries : ∀ s ∈ series, s.NonNegative)
    (cost : SizeSeries → SeriesSizes → Int)
    (budget : Budgets → Int)
    (hBudget : ∀ st : Budgets, st.Solvent → 0 ≤ budget st)
    (hCost :
      ∀ st : Budgets, ∀ s ∈ series, st.Solvent →
        cost s (sizeSeries limits st s).1 =
          budget st - budget (sizeSeries limits st s).2) :
    (List.zipWith cost series (planSizes series limits)).sum
      ≤ budget (initialBudgets limits) := by
  have hStart := initialBudgets_solvent hLimits
  have hStep :
      ∀ st : Budgets, ∀ s ∈ series, st.Solvent →
        (sizeSeries limits st s).2.Solvent := by
    intro st s hs hSolvent
    exact sizeSeries_solvent hLimits (hSeries s hs) hSolvent
  have hSum :=
    Loop.sum_zipWith_run (sizeSeries limits)
      Budgets.Solvent cost budget (initialBudgets limits)
      series hStart hStep hCost
  have hEnd :=
    hBudget _ (Loop.invariant (sizeSeries limits)
      Budgets.Solvent (initialBudgets limits) series hStart
      hStep)
  unfold planSizes
  rw [hSum]
  omega

/-
  The limits a planned tick keeps.  `total` and `expiry` hold
  from any stored notional at or below its cap, as long as
  no series' bare inventory is itself past it.
-/
structure KeepsLimits
    (series : List SizeSeries)
    (limits : SizeLimits) : Prop where
  length :
    (planSizes series limits).length = series.length
  quotes :
    ∀ (i : Nat) (s : SizeSeries) (z : SeriesSizes),
      series[i]? = some s →
      (planSizes series limits)[i]? = some z →
      (0 ≤ z.bid ∧ z.bid ≤ limits.bidUnits) ∧
        0 ≤ z.write ∧
        (0 ≤ z.resale ∧ z.resale ≤ s.longs + s.resale) ∧
        z.write + z.resale ≤ limits.askUnits
  exposure :
    ∀ (i : Nat) (s : SizeSeries) (z : SeriesSizes),
      series[i]? = some s →
      (planSizes series limits)[i]? = some z →
      z.exposure =
          exposureUnits s.longs s.resale s.shorts z.bid
            z.write z.resale ∧
        z.exposure ≤
          max
            (seriesRoom limits
              (budgetsAt series limits i) s).1
            |s.inventory|
  escrow :
    let escrowed :=
      (List.zipWith (fun s z => bidEscrow s z.bid) series
        (planSizes series limits)).sum
    escrowed ≤ limits.usdgBudget ∧
      escrowed ≤ max limits.outflowBudget 0
  collateral :
    ∀ asset,
      (List.zipWith
        (fun s z =>
          if s.asset = asset then
            writeNeed limits s z.write
          else 0)
        series (planSizes series limits)).sum ≤
      (limits.free asset * limits.oversubscribe).tdiv
        writeOversubscribeBpsExact
  single :
    ∀ (i : Nat) (s : SizeSeries) (z : SeriesSizes),
      series[i]? = some s →
      (planSizes series limits)[i]? = some z →
      writeNeed limits s z.write ≤ limits.free s.asset
  total :
    limits.totalNotional ≤ limits.totalCap →
      (∀ s ∈ series, 0 ≤ s.seriesNotional) →
      (∀ (i : Nat) (s : SizeSeries),
        series[i]? = some s →
        InventoryWithin limits
          (budgetsAt series limits i) s) →
      ∀ i, (budgetsAt series limits i).running ≤
        limits.totalCap
  runningTotal :
    (budgetsAt series limits series.length).running =
      limits.totalNotional +
        (List.zipWith
          (fun s z => z.notional - s.seriesNotional)
          series (planSizes series limits)).sum
  expiry :
    limits.expiryCap > 0 →
      (∀ expiry,
        (initialBudgets limits).runningByExpiry.getD
          expiry 0 ≤ limits.expiryCap) →
      (∀ s ∈ series, 0 ≤ s.seriesNotional) →
      (∀ (i : Nat) (s : SizeSeries),
        series[i]? = some s →
        InventoryWithinExpiry limits
          (budgetsAt series limits i) s) →
      ∀ i expiry,
        (budgetsAt series limits i).runningByExpiry.getD
          expiry 0 ≤ limits.expiryCap

/-
  What each series keeps of a sum, read along the run: the
  step is only asked about the state it is met in.
-/
private theorem budgetsAt_induction
    (P : Budgets → Prop)
    (hStart : P (initialBudgets limits))
    (hStep :
      ∀ (i : Nat) (s : SizeSeries),
        series[i]? = some s →
        P (budgetsAt series limits i) →
        P (sizeSeries limits
          (budgetsAt series limits i) s).2)
    (i : Nat) :
    P (budgetsAt series limits i) := by
  induction i with
  | zero =>
      unfold budgetsAt
      rw [Loop.stateAt_zero]
      exact hStart
  | succ i ih =>
      cases hGet : series[i]? with
      | none =>
          have hLength := List.getElem?_eq_none_iff.mp hGet
          have hSame :
              budgetsAt series limits (i + 1) =
                budgetsAt series limits i := by
            unfold budgetsAt Loop.stateAt
            rw [List.take_of_length_le hLength,
              List.take_of_length_le (by omega)]
          rw [hSame]
          exact ih
      | some s =>
          unfold budgetsAt at ih ⊢
          rw [Loop.stateAt_succ _ _ hGet]
          exact hStep i s hGet ih

theorem total_stays
    (hLimits : limits.NonNegative)
    (hSeries : ∀ s ∈ series, s.NonNegative)
    (hStart : limits.totalNotional ≤ limits.totalCap)
    (hStored : ∀ s ∈ series, 0 ≤ s.seriesNotional)
    (hInventory :
      ∀ (i : Nat) (s : SizeSeries),
        series[i]? = some s →
        InventoryWithin limits
          (budgetsAt series limits i) s)
    (i : Nat) :
    (budgetsAt series limits i).running ≤
      limits.totalCap := by
  refine budgetsAt_induction
    (fun st => st.running ≤ limits.totalCap) hStart ?_ i
  intro j s hGet hRunning
  have hMem := List.mem_of_getElem? hGet
  exact sizeSeries_running_le hLimits (hSeries s hMem)
    (hStored s hMem) (solvent_budgetsAt hLimits hSeries j)
    hRunning (hInventory j s hGet)

theorem expiry_stays
    (hLimits : limits.NonNegative)
    (hSeries : ∀ s ∈ series, s.NonNegative)
    (hOn : limits.expiryCap > 0)
    (hStart :
      ∀ expiry,
        (initialBudgets limits).runningByExpiry.getD
          expiry 0 ≤ limits.expiryCap)
    (hStored : ∀ s ∈ series, 0 ≤ s.seriesNotional)
    (hInventory :
      ∀ (i : Nat) (s : SizeSeries),
        series[i]? = some s →
        InventoryWithinExpiry limits
          (budgetsAt series limits i) s)
    (i : Nat) :
    ∀ expiry,
      (budgetsAt series limits i).runningByExpiry.getD
        expiry 0 ≤ limits.expiryCap := by
  refine budgetsAt_induction
    (fun st => ∀ expiry,
      st.runningByExpiry.getD expiry 0 ≤ limits.expiryCap)
    hStart ?_ i
  intro j s hGet hRunning
  have hMem := List.mem_of_getElem? hGet
  exact sizeSeries_expiry_le hLimits (hSeries s hMem)
    (hStored s hMem) (solvent_budgetsAt hLimits hSeries j)
    hOn hRunning (hInventory j s hGet)

/- The stored total moves by what each series re-measures. -/
theorem running_eq :
    (budgetsAt series limits series.length).running =
      limits.totalNotional +
        (List.zipWith
          (fun s z => z.notional - s.seriesNotional)
          series (planSizes series limits)).sum := by
  have hSum :=
    Loop.sum_zipWith_run (sizeSeries limits)
      (fun _ => True)
      (fun s z => z.notional - s.seriesNotional)
      (fun st => -st.running) (initialBudgets limits) series
      trivial (fun _ _ _ _ => trivial)
      (by
        intro st s _ _
        simp only [sizeSeries, Budgets.others]
        omega)
  unfold budgetsAt planSizes
  rw [hSum, Loop.stateAt_length]
  simp [initialBudgets]

/- `planSizes` keeps every limit over a whole tick. -/
theorem planSizes_keeps_limits
    (series : List SizeSeries)
    (limits : SizeLimits)
    (hLimits : limits.NonNegative)
    (hSeries : ∀ s ∈ series, s.NonNegative) :
    KeepsLimits series limits := by
  have hSolvent := solvent_budgetsAt hLimits hSeries
  constructor
  case length =>
    exact Loop.length_run _ _ _
  case quotes =>
    intro i s z hs hz
    have hNonneg := hSeries s (List.mem_of_getElem? hs)
    have hAsk := sizeSeries_ask hLimits hNonneg (hSolvent i)
    have hBid :=
      sizeSeries_bid (s := s) hLimits
        (hSolvent i)
    rw [planSizes_getElem? hs hz]
    exact ⟨⟨hBid.nonneg, hBid.units_le⟩, hAsk.write_nonneg,
      ⟨hAsk.resale_nonneg, hAsk.resale_le⟩, hAsk.units_le⟩
  case exposure =>
    intro i s z hs hz
    have hNonneg := hSeries s (List.mem_of_getElem? hs)
    rw [planSizes_getElem? hs hz]
    exact ⟨rfl, exposure_le_room hLimits hNonneg
      (hSolvent i)⟩
  case escrow =>
    constructor
    · apply sum_zipWith_planSizes_le hLimits hSeries _
        (fun st => st.usdgLeft)
      · exact fun st h => h.usdgLeft
      · intro st s _ _
        simp only [sizeSeries]
        omega
    · apply sum_zipWith_planSizes_le hLimits hSeries _
        (fun st => st.outflowLeft)
      · exact fun st h => h.outflowLeft
      · intro st s _ _
        simp only [sizeSeries]
        omega
  case collateral =>
    intro asset
    rw [← (initial_collateral hLimits).2 asset]
    apply sum_zipWith_planSizes_le hLimits hSeries _
      (fun st => st.collateralLeft.getD asset 0)
    · exact fun st h => h.collateralLeft asset
    · intro st s hs hst
      have hAsk := sizeSeries_ask hLimits (hSeries s hs) hst
      have hCharged := hAsk.charged asset
      simp only at hCharged ⊢
      rw [hCharged]
      omega
  case single =>
    intro i s z hs hz
    have hNonneg := hSeries s (List.mem_of_getElem? hs)
    rw [planSizes_getElem? hs hz]
    exact (sizeSeries_ask hLimits hNonneg
      (hSolvent i)).need_le_free
  case total =>
    exact total_stays hLimits hSeries
  case runningTotal =>
    exact running_eq
  case expiry =>
    exact expiry_stays hLimits hSeries

end

----
-- A Tick of Two Series
----

/- A call quoted on both sides, short and over-inventoried. -/
def tickCall : SizeSeries :=
  { longId := 1
    strike := 200000000
    longs := 30
    resale := 10
    shorts := 5
    seriesNotional := 80000000
    collateralAsset := "0xAb"
    collateralPerUnit := 10
    mintFeePpm := 0
    expiry := 2000
    bidPrice := some 500
    askPrice := some 700
    writeAllowed := true }

/- A put that only bids. -/
def tickPut : SizeSeries :=
  { tickCall with
    longId := 2
    askPrice := none
    longs := 0 }

def tickLimits : SizeLimits :=
  { now := 1000
    vaultMaxSeriesUnits := 100
    botMaxSeriesUnits := 60
    vaultMaxTotalNotional := 500000000
    botMaxTotalNotional := 0
    totalNotional := 160000000
    usdgBudget := 200
    outflowBudget := 150
    freeCollateral := OrderedMap.empty.set "0xab" 400
    writeOversubscribeBps := none
    bidUnits := 25
    askUnits := 70
    maxExpiryNotional := none
    expiryNotional := none
    expiryNotionalUnread := none }

theorem tickLimits_nonNegative :
    tickLimits.NonNegative := by
  constructor <;> decide

theorem tick_nonNegative :
    ∀ s ∈ [tickCall, tickPut], s.NonNegative := by
  intro s hs
  rw [List.mem_pair] at hs
  rcases hs with rfl | rfl
  · constructor <;> simp [tickCall]
  · constructor <;> simp [tickPut, tickCall]

theorem tick_keeps_limits :
    KeepsLimits [tickCall, tickPut] tickLimits :=
  planSizes_keeps_limits [tickCall, tickPut] tickLimits
    tickLimits_nonNegative tick_nonNegative

/- The put's bid is cut to what the call's bid left over. -/
example :
    (planSizes [tickCall, tickPut] tickLimits).map
        (fun z => (z.bid, z.write, z.resale)) =
      [(25, 30, 40), (5, 0, 0)] := by
  decide +kernel

end Callhouse.Keeper.Mm
