import Callhouse.Indexer.Projection.Run

/-
  Traded volume and fees over whole runs of the index: what a
  series and a market say they have traded is what the
  recorded fills and takes add up to.

  Main declarations:
    * `SeriesTrade`, `MarketTrade`, `Trades`, `VolumesOk`
    * `trades_of_not_writesTrades`
    * `volumes_match_fills`
-/

----
-- Totals of Fills and Takes
----

namespace Callhouse.Indexer.Projection

open RowTable

structure SeriesTrade where
  underlying : String
  volumeUnits : Int
  volumeUsdg : Int
deriving DecidableEq

structure MarketTrade where
  volumeUnits : Int
  volumeUsdg : Int
  premiumUsdg : Int
  feesUsdg : Int
deriving DecidableEq

def SeriesRow.trade
    (row : SeriesRow) : SeriesTrade :=
  { underlying := row.underlying
    volumeUnits := row.volumeUnits
    volumeUsdg := row.volumeUsdg }

def MarketRow.trade
    (row : MarketRow) : MarketTrade :=
  { volumeUnits := row.volumeUnits
    volumeUsdg := row.volumeUsdg
    premiumUsdg := row.premiumUsdg
    feesUsdg := row.feesUsdg }

/- The columns of the index that trading writes. -/
structure Trades where
  series : OrderedMap Int SeriesTrade
  markets : OrderedMap String MarketTrade
  fills : OrderedMap (String × Int) FillRow
  takes : OrderedMap (String × Int) TakeRow

def IndexDb.trades
    (db : IndexDb) : Trades :=
  { series := mapRows SeriesRow.trade db.series
    markets := mapRows MarketRow.trade db.markets
    fills := db.fills
    takes := db.takes }

/- The market whose series a log is about. -/
def Trades.isOf
    (t : Trades)
    (underlying : String)
    (longId : Int) : Bool :=
  (t.series.get? longId).any (fun row => row.underlying = underlying)

def Trades.fillsOf
    (t : Trades)
    (longId : Int)
    (share : FillRow → Int) : Int :=
  sumBy (fun fill => if fill.longId = longId then share fill else 0)
    t.fills

def Trades.marketFills
    (t : Trades)
    (underlying : String)
    (share : FillRow → Int) : Int :=
  sumBy
    (fun fill =>
      if t.isOf underlying fill.longId then share fill else 0)
    t.fills

def Trades.marketTakes
    (t : Trades)
    (underlying : String)
    (share : TakeRow → Int) : Int :=
  sumBy
    (fun take =>
      if t.isOf underlying take.longId then share take else 0)
    t.takes

def Trades.marketSeries
    (t : Trades)
    (underlying : String)
    (share : SeriesTrade → Int) : Int :=
  sumBy
    (fun row => if row.underlying = underlying then share row else 0)
    t.series

def primaryPremium
    (fill : FillRow) : Int :=
  if fill.primary then fill.premium else 0

structure SeriesVolume
    (t : Trades)
    (longId : Int)
    (row : SeriesTrade) : Prop where
  units : row.volumeUnits = t.fillsOf longId (fun fill => fill.units)
  usdg : row.volumeUsdg = t.fillsOf longId (fun fill => fill.premium)

structure MarketVolume
    (t : Trades)
    (underlying : String)
    (row : MarketTrade) : Prop where
  units :
    row.volumeUnits =
      t.marketSeries underlying (fun series => series.volumeUnits)
  usdg :
    row.volumeUsdg =
      t.marketSeries underlying (fun series => series.volumeUsdg)
  premium :
    row.premiumUsdg = t.marketFills underlying primaryPremium
  fees :
    row.feesUsdg =
      t.marketFills underlying
          (fun fill => fill.sellerFee - fill.makerRebate) +
        t.marketTakes underlying (fun take => take.takerFee)

structure VolumesOk
    (t : Trades) : Prop where
  registered :
    ∀ longId row, t.series.get? longId = some row →
      t.markets.has row.underlying = true
  fills :
    ∀ key fill, t.fills.get? key = some fill →
      t.series.has fill.longId = true
  takes :
    ∀ key take, t.takes.get? key = some take →
      t.series.has take.longId = true
  series :
    ∀ longId row, t.series.get? longId = some row →
      SeriesVolume t longId row
  markets :
    ∀ underlying row, t.markets.get? underlying = some row →
      MarketVolume t underlying row

----
-- New Markets and New Series
----

section

variable {t : Trades} {underlying : String}

theorem Trades.isOf_iff
    {longId : Int} :
    t.isOf underlying longId = true ↔
      ∃ row, t.series.get? longId = some row ∧
        row.underlying = underlying := by
  unfold Trades.isOf
  rw [Option.any_eq_true]
  simp only [decide_eq_true_eq]

/- A market that is not registered has no series. -/
theorem VolumesOk.not_isOf
    (h : VolumesOk t)
    (hNone : t.markets.get? underlying = none)
    (longId : Int) :
    t.isOf underlying longId = false := by
  rw [Bool.eq_false_iff]
  intro hIs
  rcases Trades.isOf_iff.mp hIs with ⟨row, hRow, rfl⟩
  have hHas := h.registered longId row hRow
  rw [OrderedMap.has, hNone] at hHas
  cases hHas

theorem VolumesOk.newMarket
    (h : VolumesOk t)
    (hNone : t.markets.get? underlying = none) :
    VolumesOk
      { t with
        markets := t.markets.set underlying
          { volumeUnits := 0
            volumeUsdg := 0
            premiumUsdg := 0
            feesUsdg := 0 } } := by
  have hSeries :
      ∀ share, t.marketSeries underlying share = 0 := by
    intro share
    apply sumBy_eq_zero
    intro longId row hRow
    rw [if_neg]
    intro hSame
    have hIs : t.isOf underlying longId = true :=
      Trades.isOf_iff.mpr ⟨row, hRow, hSame⟩
    rw [h.not_isOf hNone] at hIs
    cases hIs
  constructor
  · intro longId row hRow
    rw [OrderedMap.has_set]
    exact .inr (h.registered longId row hRow)
  · exact h.fills
  · exact h.takes
  · intro longId row hRow
    exact ⟨(h.series longId row hRow).units,
      (h.series longId row hRow).usdg⟩
  · intro other row hRow
    rw [OrderedMap.get?_set] at hRow
    split at hRow
    · next hSame =>
        cases hRow
        subst hSame
        have hFills :
            ∀ share, t.marketFills underlying share = 0 := by
          intro share
          apply sumBy_eq_zero
          intro key fill _
          rw [h.not_isOf hNone, if_neg Bool.false_ne_true]
        have hTakes :
            ∀ share, t.marketTakes underlying share = 0 := by
          intro share
          apply sumBy_eq_zero
          intro key take _
          rw [h.not_isOf hNone, if_neg Bool.false_ne_true]
        exact
          { units := (hSeries _).symm
            usdg := (hSeries _).symm
            premium := (hFills _).symm
            fees := by
              change 0 =
                t.marketFills underlying _ +
                  t.marketTakes underlying _
              rw [hFills, hTakes]
              rfl }
    · have hOld := h.markets other row hRow
      exact ⟨hOld.units, hOld.usdg, hOld.premium, hOld.fees⟩

/- A series that is there is not another's. -/
theorem isOf_set_of_ne
    {longId longId' : Int}
    {row : SeriesTrade}
    (hOther : longId' ≠ longId)
    (underlying : String) :
    Trades.isOf { t with series := t.series.set longId row }
        underlying longId' =
      t.isOf underlying longId' := by
  unfold Trades.isOf
  dsimp only
  rw [OrderedMap.get?_set_of_ne _ _ hOther.symm]

theorem VolumesOk.newSeries
    (h : VolumesOk t)
    {longId : Int}
    (hNone : t.series.get? longId = none)
    (hMarket : t.markets.has underlying = true) :
    VolumesOk
      { t with
        series := t.series.set longId
          { underlying := underlying
            volumeUnits := 0
            volumeUsdg := 0 } } := by
  have hFill :
      ∀ key fill, t.fills.get? key = some fill →
        fill.longId ≠ longId := by
    rintro key fill hFill rfl
    have hHas := h.fills key fill hFill
    rw [OrderedMap.has, hNone] at hHas
    cases hHas
  have hTake :
      ∀ key take, t.takes.get? key = some take →
        take.longId ≠ longId := by
    rintro key take hTake rfl
    have hHas := h.takes key take hTake
    rw [OrderedMap.has, hNone] at hHas
    cases hHas
  have hHas :
      ∀ id, t.series.has id = true →
        (t.series.set longId
          { underlying := underlying
            volumeUnits := 0
            volumeUsdg := 0 }).has id = true := by
    intro id hId
    rw [OrderedMap.has_set]
    exact .inr hId
  constructor
  · intro id row hRow
    rw [OrderedMap.get?_set] at hRow
    split at hRow
    · cases hRow
      exact hMarket
    · exact h.registered id row hRow
  · exact fun key fill hKey =>
      hHas _ (h.fills key fill hKey)
  · exact fun key take hKey =>
      hHas _ (h.takes key take hKey)
  · intro id row hRow
    rw [OrderedMap.get?_set] at hRow
    split at hRow
    · next hSame =>
        cases hRow
        subst hSame
        have hZero : ∀ share, t.fillsOf longId share = 0 := by
          intro share
          apply sumBy_eq_zero
          intro key fill hKey
          rw [if_neg (hFill key fill hKey)]
        exact ⟨(hZero _).symm, (hZero _).symm⟩
    · exact ⟨(h.series id row hRow).units,
        (h.series id row hRow).usdg⟩
  · intro other row hRow
    have hOld := h.markets other row hRow
    have hSum :
        ∀ share : SeriesTrade → Int,
          share
              { underlying := underlying
                volumeUnits := 0
                volumeUsdg := 0 } = 0 →
            Trades.marketSeries
                { t with
                  series := t.series.set longId
                    { underlying := underlying
                      volumeUnits := 0
                      volumeUsdg := 0 } } other share =
              t.marketSeries other share := by
      intro share hZero
      unfold Trades.marketSeries
      dsimp only
      rw [sumBy_insert _ _ hNone, hZero, ite_self, add_zero]
    have hFills :
        ∀ share,
          Trades.marketFills
              { t with
                series := t.series.set longId
                  { underlying := underlying
                    volumeUnits := 0
                    volumeUsdg := 0 } } other share =
            t.marketFills other share := by
      intro share
      apply sumBy_congr
      intro key fill hKey
      rw [isOf_set_of_ne (hFill key fill hKey)]
    have hTakes :
        ∀ share,
          Trades.marketTakes
              { t with
                series := t.series.set longId
                  { underlying := underlying
                    volumeUnits := 0
                    volumeUsdg := 0 } } other share =
            t.marketTakes other share := by
      intro share
      apply sumBy_congr
      intro key take hKey
      rw [isOf_set_of_ne (hTake key take hKey)]
    exact
      { units := hOld.units.trans (hSum _ rfl).symm
        usdg := hOld.usdg.trans (hSum _ rfl).symm
        premium := hOld.premium.trans (hFills _).symm
        fees := by rw [hFills, hTakes]; exact hOld.fees }

end

----
-- Fills and Takes
----

section

variable {t : Trades}

def SeriesTrade.traded
    (row : SeriesTrade)
    (fill : FillRow) : SeriesTrade :=
  { row with
    volumeUnits := row.volumeUnits + fill.units
    volumeUsdg := row.volumeUsdg + fill.premium }

def MarketTrade.traded
    (row : MarketTrade)
    (fill : FillRow) : MarketTrade :=
  { volumeUnits := row.volumeUnits + fill.units
    volumeUsdg := row.volumeUsdg + fill.premium
    premiumUsdg := row.premiumUsdg + primaryPremium fill
    feesUsdg := row.feesUsdg + fill.sellerFee - fill.makerRebate }

/- The columns after a fill of a series of a market. -/
def Trades.fill
    (t : Trades)
    (key : String × Int)
    (fill : FillRow)
    (series : SeriesTrade)
    (market : MarketTrade) : Trades :=
  { t with
    series := t.series.set fill.longId (series.traded fill)
    markets := t.markets.set series.underlying (market.traded fill)
    fills := t.fills.set key fill }

variable {key : String × Int} {fill : FillRow}
variable {series : SeriesTrade} {market : MarketTrade}

theorem isOf_fill
    (hSeries : t.series.get? fill.longId = some series)
    (underlying : String)
    (longId : Int) :
    (t.fill key fill series market).isOf underlying longId =
      t.isOf underlying longId := by
  unfold Trades.isOf Trades.fill
  dsimp only
  rw [OrderedMap.get?_set]
  split
  · next hSame =>
      rw [← hSame, hSeries]
      rfl
  · rfl

theorem fillsOf_fill
    (hNew : t.fills.get? key = none)
    (longId : Int)
    (share : FillRow → Int) :
    (t.fill key fill series market).fillsOf longId share =
      t.fillsOf longId share +
        (if fill.longId = longId then share fill else 0) :=
  sumBy_insert _ fill hNew

theorem marketFills_fill
    (hNew : t.fills.get? key = none)
    (hSeries : t.series.get? fill.longId = some series)
    (underlying : String)
    (share : FillRow → Int) :
    (t.fill key fill series market).marketFills underlying share =
      t.marketFills underlying share +
        (if series.underlying = underlying then share fill
          else 0) := by
  have hIs :
      t.isOf underlying fill.longId =
        decide (series.underlying = underlying) := by
    unfold Trades.isOf
    rw [hSeries]
    rfl
  unfold Trades.marketFills
  simp only [isOf_fill hSeries]
  refine (sumBy_insert _ fill hNew).trans ?_
  rw [hIs]
  simp only [decide_eq_true_eq]

theorem marketTakes_fill
    (hSeries : t.series.get? fill.longId = some series)
    (underlying : String)
    (share : TakeRow → Int) :
    (t.fill key fill series market).marketTakes underlying share =
      t.marketTakes underlying share := by
  unfold Trades.marketTakes
  simp only [isOf_fill hSeries]
  rfl

theorem marketSeries_fill
    (hSeries : t.series.get? fill.longId = some series)
    (underlying : String)
    (share : SeriesTrade → Int) :
    (t.fill key fill series market).marketSeries underlying share =
      t.marketSeries underlying share +
        (if series.underlying = underlying then
          share (series.traded fill) - share series else 0) := by
  refine (sumBy_update _ _ hSeries).trans ?_
  change _ + (if series.underlying = underlying then _ else 0) - _ =
    _
  unfold Trades.marketSeries
  split <;> ring

theorem has_fill
    (longId : Int)
    (h : t.series.has longId = true) :
    (t.fill key fill series market).series.has longId = true := by
  unfold Trades.fill
  rw [OrderedMap.has_set]
  exact .inr h

theorem VolumesOk.afterFill
    (h : VolumesOk t)
    (hNew : t.fills.get? key = none)
    (hSeries : t.series.get? fill.longId = some series)
    (hMarket : t.markets.get? series.underlying = some market) :
    VolumesOk (t.fill key fill series market) := by
  have hHas :
      ∀ underlying, t.markets.has underlying = true →
        (t.fill key fill series market).markets.has underlying =
          true := by
    intro underlying hIn
    unfold Trades.fill
    rw [OrderedMap.has_set]
    exact .inr hIn
  constructor
  · intro longId row hRow
    apply hHas
    unfold Trades.fill at hRow
    rw [OrderedMap.get?_set] at hRow
    split at hRow
    · cases hRow
      exact h.registered fill.longId series hSeries
    · exact h.registered longId row hRow
  · intro key' fill' hFill
    apply has_fill
    unfold Trades.fill at hFill
    rw [OrderedMap.get?_set] at hFill
    split at hFill
    · cases hFill
      rw [OrderedMap.has, hSeries]
      rfl
    · exact h.fills key' fill' hFill
  · exact fun key' take hTake =>
      has_fill take.longId (h.takes key' take hTake)
  · intro longId row hRow
    unfold Trades.fill at hRow
    rw [OrderedMap.get?_set] at hRow
    split at hRow
    · next hSame =>
        cases hRow
        subst hSame
        have hOld := h.series fill.longId series hSeries
        constructor
        · rw [fillsOf_fill hNew, if_pos rfl, ← hOld.units]
          rfl
        · rw [fillsOf_fill hNew, if_pos rfl, ← hOld.usdg]
          rfl
    · next hOther =>
        have hOld := h.series longId row hRow
        constructor
        · rw [fillsOf_fill hNew, if_neg hOther, add_zero, hOld.units]
        · rw [fillsOf_fill hNew, if_neg hOther, add_zero, hOld.usdg]
  · intro underlying row hRow
    unfold Trades.fill at hRow
    rw [OrderedMap.get?_set] at hRow
    split at hRow
    · next hSame =>
        cases hRow
        have hOld := h.markets series.underlying market hMarket
        subst hSame
        constructor
        · rw [marketSeries_fill hSeries, if_pos rfl, ← hOld.units]
          simp [SeriesTrade.traded, MarketTrade.traded]
        · rw [marketSeries_fill hSeries, if_pos rfl, ← hOld.usdg]
          simp [SeriesTrade.traded, MarketTrade.traded]
        · rw [marketFills_fill hNew hSeries, if_pos rfl,
            ← hOld.premium]
          rfl
        · rw [marketFills_fill hNew hSeries, if_pos rfl,
            marketTakes_fill hSeries, MarketTrade.traded, hOld.fees]
          ring
    · next hOther =>
        have hOld := h.markets underlying row hRow
        constructor
        · rw [marketSeries_fill hSeries, if_neg hOther, add_zero,
            hOld.units]
        · rw [marketSeries_fill hSeries, if_neg hOther, add_zero,
            hOld.usdg]
        · rw [marketFills_fill hNew hSeries, if_neg hOther, add_zero,
            hOld.premium]
        · rw [marketFills_fill hNew hSeries, if_neg hOther, add_zero,
            marketTakes_fill hSeries, hOld.fees]

/- The columns after a call's own fee. -/
def Trades.take
    (t : Trades)
    (key : String × Int)
    (take : TakeRow)
    (underlying : String)
    (market : MarketTrade) : Trades :=
  { t with
    markets := t.markets.set underlying
      { market with feesUsdg := market.feesUsdg + take.takerFee }
    takes := t.takes.set key take }

theorem VolumesOk.afterTake
    (h : VolumesOk t)
    {take : TakeRow}
    (hNew : t.takes.get? key = none)
    (hSeries : t.series.get? take.longId = some series)
    (hMarket : t.markets.get? series.underlying = some market) :
    VolumesOk (t.take key take series.underlying market) := by
  have hTakes :
      ∀ underlying share,
        (t.take key take series.underlying market).marketTakes
            underlying share =
          t.marketTakes underlying share +
            (if series.underlying = underlying then share take
              else 0) := by
    intro underlying share
    have hIs :
        t.isOf underlying take.longId =
          decide (series.underlying = underlying) := by
      unfold Trades.isOf
      rw [hSeries]
      rfl
    refine (sumBy_insert _ take hNew).trans ?_
    change _ +
        (if t.isOf underlying take.longId then share take else 0) = _
    rw [hIs]
    simp only [decide_eq_true_eq]
    rfl
  constructor
  · intro longId row hRow
    unfold Trades.take
    rw [OrderedMap.has_set]
    exact .inr (h.registered longId row hRow)
  · exact h.fills
  · intro key' take' hTake
    unfold Trades.take at hTake
    rw [OrderedMap.get?_set] at hTake
    split at hTake
    · cases hTake
      unfold Trades.take
      rw [OrderedMap.has, hSeries]
      rfl
    · exact h.takes key' take' hTake
  · exact fun longId row hRow =>
      ⟨(h.series longId row hRow).units,
        (h.series longId row hRow).usdg⟩
  · intro underlying row hRow
    unfold Trades.take at hRow
    rw [OrderedMap.get?_set] at hRow
    split at hRow
    · next hSame =>
        cases hRow
        subst hSame
        have hOld := h.markets series.underlying market hMarket
        refine ⟨hOld.units, hOld.usdg, hOld.premium, ?_⟩
        rw [hTakes, if_pos rfl, hOld.fees, add_assoc]
        rfl
    · next hOther =>
        have hOld := h.markets underlying row hRow
        refine ⟨hOld.units, hOld.usdg, hOld.premium, ?_⟩
        rw [hTakes, if_neg hOther, add_zero, hOld.fees]
        rfl

end

----
-- Every Log Keeps the Volumes
----

open LockStep RowTable

variable {env : IndexEnv} {db db' : IndexDb} {event : LogMeta}

theorem trades_eq
    (hSeries :
      mapRows SeriesRow.trade db'.series =
        mapRows SeriesRow.trade db.series)
    (hMarkets :
      mapRows MarketRow.trade db'.markets =
        mapRows MarketRow.trade db.markets)
    (hFills : db'.fills = db.fills)
    (hTakes : db'.takes = db.takes) :
    db'.trades = db.trades := by
  unfold IndexDb.trades
  rw [hSeries, hMarkets, hFills, hTakes]

theorem trades_transfer
    {escrow : String}
    {input : TokenTransfer}
    {batchIndex : Int}
    (h : transfer escrow db input event batchIndex = .ok db') :
    db'.trades = db.trades := by
  rcases transfer_eq_ok.mp h with
    ⟨recorded, deltas, held, hRecorded, _, hHeld, hInterest⟩
  have hSame : held.trades = db.trades := by
    rw [balanceDelta_run_keeps hHeld, recordTransfer_keeps hRecorded]
    rfl
  rw [← hSame]
  split at hInterest
  · cases hInterest
    rfl
  · rcases openInterest_eq_ok.mp hInterest with
      ⟨row, market, hRow, hMarket, _, _, rfl⟩
    exact
      trades_eq (mapRows_set_same hRow rfl)
        (mapRows_set_same hMarket rfl) rfl rfl

theorem trades_transferAll
    {escrow sender recipient : String}
    {items : List (Int × Int)}
    {i : Int}
    (h :
      transferAll escrow sender recipient event db i items =
        .ok db') :
    db'.trades = db.trades := by
  induction items generalizing db i with
  | nil =>
      cases h
      rfl
  | cons item rest ih =>
      rcases bind_eq_ok.mp h with ⟨mid, hMid, hRest⟩
      exact (ih hRest).trans (trades_transfer hMid)

theorem trades_countSettled
    (markets : OrderedMap String MarketRow)
    (underlying : String) :
    mapRows MarketRow.trade (countSettled markets underlying event) =
      mapRows MarketRow.trade markets := by
  unfold countSettled
  split
  · rfl
  · next market hMarket => exact mapRows_set_same hMarket rfl

def IndexEvent.writesTrades : IndexEvent → Bool
  | .marketRegistered _ _ _ => true
  | .seriesCreated _ => true
  | .orderFilled _ => true
  | .taken _ => true
  | _ => false

theorem trades_of_not_writesTrades
    {entry : IndexLog}
    (h : apply env db entry = .ok db')
    (hNot : entry.event.writesTrades = false) :
    db'.trades = db.trades := by
  rcases entry with ⟨event, log⟩
  unfold apply at h
  cases event with
  | marketConfigSet underlying config =>
      rcases marketConfigSet_eq_ok.mp h with ⟨_, hMarket, rfl⟩
      exact trades_eq rfl (mapRows_set_same hMarket rfl) rfl rfl
  | mintPausedSet underlying paused =>
      rcases mintPausedSet_eq_ok.mp h with ⟨_, hMarket, rfl⟩
      exact trades_eq rfl (mapRows_set_same hMarket rfl) rfl rfl
  | transferSingle input => exact trades_transfer h
  | transferBatch sender recipient ids values =>
      exact trades_transferAll (transferBatch_eq_ok.mp h).2
  | minted args =>
      rcases minted_eq_ok.mp h with ⟨paid, _, hPaid, hRow, _, rfl⟩
      rw [ledgerDelta_keeps hPaid]
      exact trades_eq (mapRows_set_same hRow rfl) rfl rfl rfl
  | closed args =>
      rcases closed_eq_ok.mp h with
        ⟨paid, _, hPaid, hRow, _, _, rfl⟩
      rw [ledgerDelta_keeps hPaid]
      exact trades_eq (mapRows_set_same hRow rfl) rfl rfl rfl
  | seriesSettled longId payouts =>
      rcases seriesSettled_eq_ok.mp h with ⟨_, hRow, rfl⟩
      exact
        trades_eq (mapRows_set_same hRow rfl)
          (trades_countSettled db.markets _) rfl rfl
  | redeemed args =>
      rw [redeemed_keeps h]
      rfl
  | deposited account asset amount sender =>
      rw [cashFlow_keeps h]
      rfl
  | withdrawn account asset amount recipient =>
      rw [cashFlow_keeps h]
      rfl
  | mintFeesAccrued longId asset amount =>
      rcases mintFeesAccrued_eq_ok.mp h with
        ⟨_, hRow, _, _, _, _, rfl⟩
      exact trades_eq (mapRows_set_same hRow rfl) rfl rfl rfl
  | orderPlaced args =>
      rcases orderPlaced_eq_ok.mp h with
        ⟨_, _, _, _, _, _, _, _, _, _, _, rfl⟩
      rfl
  | orderPlacedBy orderId placer =>
      rcases orderPlacedBy_eq_ok.mp h with ⟨_, _, rfl⟩
      rfl
  | orderCancelled orderId unitsRemaining pruned =>
      rcases orderCancelled_eq_ok.mp h with ⟨_, _, _, _, rfl⟩
      rfl
  | repriced oldOrderId newOrderId =>
      cases h
      rfl
  | oracle underlying expiry change =>
      cases h
      refine trades_eq ?_ rfl rfl rfl
      unfold record
      dsimp only
      split
      · rfl
      · exact mapRows_updateWhere (fun _ => rfl)
  | clock =>
      cases h
      exact
        trades_eq (mapRows_updateWhere (fun _ => rfl)) rfl rfl rfl
  | marketRegistered | seriesCreated | orderFilled | taken =>
      cases hNot

/- A row is found in its columns where it is found. -/
theorem get?_trade
    {longId : Int}
    {row : SeriesRow}
    (h : db.series.get? longId = some row) :
    db.trades.series.get? longId = some row.trade := by
  unfold IndexDb.trades
  rw [get?_mapRows, h, Option.map_some]

theorem get?_marketTrade
    {underlying : String}
    {row : MarketRow}
    (h : db.markets.get? underlying = some row) :
    db.trades.markets.get? underlying = some row.trade := by
  unfold IndexDb.trades
  rw [get?_mapRows, h, Option.map_some]

theorem volumesOk_apply
    {entry : IndexLog}
    (h : VolumesOk db.trades)
    (hApply : apply env db entry = .ok db') :
    VolumesOk db'.trades := by
  cases hWrites : entry.event.writesTrades with
  | false =>
      rw [trades_of_not_writesTrades hApply hWrites]
      exact h
  | true =>
      rcases entry with ⟨event, log⟩
      unfold apply at hApply
      cases event with
      | marketRegistered underlying ticker config =>
          rcases marketRegistered_eq_ok.mp hApply with ⟨hNone, rfl⟩
          have hNew :
              db.trades.markets.get? (addressKey underlying) =
                none := by
            unfold IndexDb.trades
            rw [get?_mapRows, hNone, Option.map_none]
          have hAfter := h.newMarket hNew
          unfold IndexDb.trades at hAfter ⊢
          dsimp only
          rw [mapRows_set]
          exact hAfter
      | seriesCreated args =>
          rcases seriesCreated_eq_ok.mp hApply with
            ⟨market, hMarket, hNone, rfl⟩
          have hNew :
              db.trades.series.get? args.longId = none := by
            unfold IndexDb.trades
            rw [get?_mapRows, hNone, Option.map_none]
          have hRegistered :
              db.trades.markets.has (addressKey args.underlying) =
                true := by
            rw [OrderedMap.has, get?_marketTrade hMarket]
            rfl
          have hAfter := h.newSeries hNew hRegistered
          unfold IndexDb.trades at hAfter ⊢
          dsimp only
          rw [mapRows_set, mapRows_set_same hMarket]
          · exact hAfter
          · rfl
      | orderFilled args =>
          rcases orderFilled_eq_ok.mp hApply with
            ⟨order, next, series, market, _, _, hNew, hSeries,
              hMarket, rfl⟩
          have hAfter :=
            @VolumesOk.afterFill db.trades (logId log)
              (args.row log) series.trade market.trade h hNew
              (get?_trade hSeries) (get?_marketTrade hMarket)
          unfold IndexDb.trades Trades.fill at hAfter
          unfold IndexDb.trades
          dsimp only
          rw [mapRows_set, mapRows_set]
          exact hAfter
      | taken args =>
          rcases taken_eq_ok.mp hApply with
            ⟨series, market, hNew, hSeries, hMarket, rfl⟩
          have hAfter :=
            @VolumesOk.afterTake db.trades (logId log) series.trade
              market.trade h
              { taker := addressKey args.taker
                longId := args.longId
                buying := args.buying
                units := args.units
                premium := args.premium
                takerFee := args.takerFee
                log := log } hNew (get?_trade hSeries)
              (get?_marketTrade hMarket)
          unfold IndexDb.trades Trades.take at hAfter
          unfold IndexDb.trades
          dsimp only
          rw [mapRows_set]
          exact hAfter
      | _ => cases hWrites

theorem volumesOk_empty :
    VolumesOk emptyDb.trades := by
  constructor
  · intro longId row hRow
    cases hRow
  · intro key fill hFill
    cases hFill
  · intro key take hTake
    cases hTake
  · intro longId row hRow
    cases hRow
  · intro underlying row hRow
    cases hRow

/-
  Whatever logs the index has taken: a series' traded units and
  premiums are those of its recorded fills, a market's are the
  sums over its series, its premiums those of its primary
  fills, and its fees what sellers and takers paid less what
  makers got back.
-/
theorem volumes_match_fills
    (env : IndexEnv)
    (logs : List IndexLog)
    (db : IndexDb)
    (h : runLogs env emptyDb logs = .ok db) :
    (∀ longId row, db.series.get? longId = some row →
        row.volumeUnits =
            db.trades.fillsOf longId (fun fill => fill.units) ∧
          row.volumeUsdg =
            db.trades.fillsOf longId (fun fill => fill.premium)) ∧
      ∀ underlying market,
        db.markets.get? underlying = some market →
          market.volumeUnits =
              db.trades.marketSeries underlying
                (fun series => series.volumeUnits) ∧
            market.volumeUsdg =
              db.trades.marketSeries underlying
                (fun series => series.volumeUsdg) ∧
            market.premiumUsdg =
              db.trades.marketFills underlying primaryPremium ∧
            market.feesUsdg =
              db.trades.marketFills underlying
                  (fun fill => fill.sellerFee - fill.makerRebate) +
                db.trades.marketTakes underlying
                  (fun take => take.takerFee) := by
  have hOk :=
    runLogs_invariant (fun db => VolumesOk db.trades)
      (fun _ _ _ => volumesOk_apply) volumesOk_empty h
  constructor
  · intro longId row hRow
    have hVolume := hOk.series longId row.trade (get?_trade hRow)
    exact ⟨hVolume.units, hVolume.usdg⟩
  · intro underlying market hMarket
    have hVolume :=
      hOk.markets underlying market.trade (get?_marketTrade hMarket)
    exact
      ⟨hVolume.units, hVolume.usdg, hVolume.premium, hVolume.fees⟩

theorem volumes_match_fills_small :
    ∃ row,
      (indexed sampleEnv sampleBook).series.get? 2 = some row ∧
        row.volumeUnits =
          (indexed sampleEnv sampleBook).trades.fillsOf 2
            (fun fill => fill.units) := by
  have hSome :
      ((indexed sampleEnv sampleBook).series.get? 2).isSome =
        true := by
    decide +kernel
  rcases Option.isSome_iff_exists.mp hSome with ⟨row, hRow⟩
  have hAll :=
    volumes_match_fills sampleEnv sampleBook _
      (runLogs_indexed (by decide +kernel))
  exact ⟨row, hRow, (hAll.1 2 row hRow).1⟩

end Callhouse.Indexer.Projection
