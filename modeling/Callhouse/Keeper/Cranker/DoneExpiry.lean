import Callhouse.Keeper.Cranker.RedeemStep

/-
  keeper/src/v2/cranker/cranker.ts, tick: runs of scans,
  prunes and redeem steps, and what the chain still holds of
  the expiries they mark done.

  Main declarations:
    * `CrankerStep`, `RedeemTick.CaughtUp`
    * `done_nothing_left`
    * `lagging_index_marks_done`
-/

----
-- Ticks
----

namespace Callhouse.Keeper.Cranker

def maxExpiriesPerTick : Nat := 200

def recentExpiryS : Int := 3 * 86400

/- A row of `v2_cranker_expiries`, with the step behind it. -/
structure DoneMark where
  key : ExpiryKey
  input : RedeemInput
  cleared : List (Int × String)

structure CrankerState where
  scan : ScanState
  unprunable : List Int
  marks : List DoneMark

def CrankerState.doneExpiries
    (s : CrankerState) : List ExpiryKey :=
  s.marks.map (fun m => expiryKeyString m.key)

/- House boundaries that are neither there nor done are added. -/
def withHouseBoundaries
    (done keys house : List ExpiryKey) : List ExpiryKey :=
  house.foldl
    (fun merged k =>
      if expiryKeyString k ∈ merged.map expiryKeyString ∨
          expiryKeyString k ∈ done then merged
      else merged ++ [k])
    keys

/- One tick, from its head read to the end of its redeem step. -/
structure RedeemTick where
  now : Int
  horizonS : Int
  backlogOffset : Nat
  house : List ExpiryKey
  input : RedeemInput

def tickKeys
    (s : CrankerState)
    (tick : RedeemTick) : List ExpiryKey :=
  withHouseBoundaries s.doneExpiries
    (selectExpiries s.scan.index.expiries s.doneExpiries
      tick.now tick.horizonS maxExpiriesPerTick
      (some recentExpiryS) tick.backlogOffset)
    tick.house

/- The step works on the stored state. -/
structure RedeemTick.Of
    (tick : RedeemTick)
    (s : CrankerState) : Prop where
  index : tick.input.ctx.index = s.scan.index
  unprunable : tick.input.ctx.unprunable = s.unprunable
  house :
    ∀ k,
      tick.input.ctx.houseBoundary k = true ↔
        expiryKeyString k ∈ tick.house.map expiryKeyString
  keys : tick.input.keys = tickKeys s tick

/- A log of the clearinghouse that creates the series. -/
def Creates
    (targets : ScanTargets)
    (log : DecodedLog)
    (created : IndexedSeries) : Prop :=
  log.event = .SeriesCreated created ∧
    same log.address targets.clearinghouse = true

/-
  A head of the canonical chain: every series was created by a
  log at or below it, and no log ever seen gives a series
  another expiry or oracle.
-/
structure HeadView.On
    (v : HeadView)
    (targets : ScanTargets)
    (s : ScanState) : Prop where
  form : v.WellFormed
  created :
    ∀ c ∈ v.series,
      targets.fromBlock ≤ v.createdAt c.longId ∧
        v.createdAt c.longId ≤ v.blockNumber ∧
          ∃ log ∈ s.chain (v.createdAt c.longId),
            ∃ created, Creates targets log created ∧
              created.longId = c.longId
  once :
    ∀ c ∈ v.series, ∀ log created, s.ever log →
      Creates targets log created →
        created.longId = c.longId →
          expiryKeyString created.key = c.key

inductive CrankerEvent where
  | scanned
  | unprunable (id : Int)
  | redeemed (tick : RedeemTick)

def RedeemTick.marks
    (tick : RedeemTick) : List DoneMark :=
  match stepRedeem tick.input with
  | none => []
  | some result =>
      result.done.map (fun k =>
        { key := k
          input := tick.input
          cleared := result.cleared })

/- Scans and their crashes, prunes, and redeem steps. -/
inductive CrankerStep
    (targets : ScanTargets) :
    CrankerState → CrankerEvent → CrankerState → Prop where
  | scanned
      (s : CrankerState)
      (scan : ScanState)
      (hScan : ScanStep targets s.scan scan) :
      CrankerStep targets s .scanned { s with scan := scan }
  | unprunable
      (s : CrankerState)
      (id : Int) :
      CrankerStep targets s (.unprunable id)
        { s with unprunable := id :: s.unprunable }
  | redeemed
      (s : CrankerState)
      (tick : RedeemTick)
      (hIdle : s.scan.scan = none)
      (hTick : tick.Of s)
      (hHead : tick.input.head.On targets s.scan) :
      CrankerStep targets s (.redeemed tick)
        { s with marks := s.marks ++ tick.marks }

def CrankerState.Start
    (s : CrankerState) : Prop :=
  s.scan.Start ∧ s.unprunable = [] ∧ s.marks = []

/- The expiry has nothing left on chain at the step's head. -/
def DoneMark.Sound
    (mark : DoneMark) : Prop :=
  mark.input.head.status (expiryKeyString mark.key) =
      .Finalized →
    ∀ c ∈ mark.input.head.series,
      c.key = expiryKeyString mark.key →
        SeriesDone mark.input mark.cleared c

/-
  The scan has applied the block: it is at or below the cursor
  (and, since a reorg, the overlap below it).
-/
def ScanState.Reached
    (s : ScanState)
    (block : Int) : Prop :=
  ∃ cursor, s.index.scannedTo = some cursor ∧
    (block ≤ cursor - reorgOverlap ∨
      s.fresh = true ∧ block ≤ cursor)

/-
  Of every final expiry the step surveys, the scan has reached
  each series, or that series has nothing left anyway.
-/
def RedeemTick.CaughtUp
    (tick : RedeemTick)
    (s : CrankerState) : Prop :=
  ∀ key ∈ tick.input.keys,
    tick.input.head.status (expiryKeyString key) =
        .Finalized →
      ∀ c ∈ tick.input.head.series,
        c.key = expiryKeyString key →
          s.scan.Reached
              (tick.input.head.createdAt c.longId) ∨
            SeriesDone tick.input [] c

def CrankerEvent.CaughtUp
    (s : CrankerState) : CrankerEvent → Prop
  | .redeemed tick => tick.CaughtUp s
  | _ => True

----
-- Done Is for Good
----

section

variable {targets : ScanTargets} {s t : CrankerState}

end

----
-- What the Index Holds of a Head
----

section

variable {targets : ScanTargets} {s t : CrankerState}

theorem Creates.rows
    {log : DecodedLog}
    {created : IndexedSeries}
    (h : Creates targets log created) :
    (rowsFromLogs targets [log]).series = [created] := by
  rcases h with ⟨hEvent, hAddress⟩
  simp [rowsFromLogs, addLog, hEvent, hAddress,
    RangeRows.empty]

theorem creates_of_rows
    {log : DecodedLog}
    {created : IndexedSeries}
    (h : created ∈ (rowsFromLogs targets [log]).series) :
    Creates targets log created := by
  unfold rowsFromLogs addLog RangeRows.empty at h
  simp only [List.foldl_cons, List.foldl_nil] at h
  cases hEvent : log.event with
  | SeriesCreated a =>
      rw [hEvent] at h
      simp only at h
      split at h
      · cases h
      · next hSame =>
          rw [Bool.not_eq_false] at hSame
          simp only [List.nil_append, List.mem_singleton] at h
          exact ⟨by rw [hEvent, h], hSame⟩
  | TransferSingle recipient id =>
      rw [hEvent] at h
      simp only at h
      split at h <;> cases h
  | TransferBatch recipient ids =>
      rw [hEvent] at h
      simp only at h
      split at h <;> cases h
  | OrderPlaced o =>
      rw [hEvent] at h
      simp only at h
      split at h <;> cases h
  | StrategySet strategy =>
      rw [hEvent] at h
      simp only at h
      split at h
      · cases h
      · split at h <;> cases h
  | other =>
      rw [hEvent] at h
      cases h

/- A reached series has a row, under its own expiry. -/
theorem reached_indexed
    (hSound : s.scan.Sound targets)
    {v : HeadView}
    (hOn : v.On targets s.scan)
    {c : SeriesChain}
    (hc : c ∈ v.series)
    (hReached : s.scan.Reached (v.createdAt c.longId)) :
    ∃ r ∈ s.scan.index.series,
      r.series.longId = c.longId ∧ r.series.key = c.key := by
  rcases hOn.created c hc with
    ⟨hFrom, _, log, hLog, created, hCreates, hLongId⟩
  have hCovers :
      s.scan.Covers targets (v.createdAt c.longId) := by
    rcases hReached with
      ⟨cursor, hCursor, hDeep | ⟨hFresh, hBehind⟩⟩
    · exact hSound.settled cursor hCursor _ hFrom hDeep
    · exact hSound.fresh hFresh cursor hCursor _ hFrom hBehind
  have hKeys := hCovers log hLog
  rcases
    hKeys.series created
      (by
        rw [hCreates.rows]
        exact List.mem_singleton.mpr rfl) with
    ⟨r, hr, hSame⟩
  refine ⟨r, hr, hSame.trans hLongId, ?_⟩
  rcases hSound.values.series r hr with
    ⟨rows, ⟨log', hEver, rfl⟩, stored, hStored, hValue⟩
  have hStoredLong : stored.longId = c.longId := by
    rw [← hLongId, ← hSame, hValue]
    rfl
  rw [hValue]
  exact
    hOn.once c hc log' stored hEver (creates_of_rows hStored)
      hStoredLong

end

----
-- Runs
----

variable {targets : ScanTargets} {s t : CrankerState}

theorem SeriesDone.mono
    {input : RedeemInput}
    {cleared cleared' : List (Int × String)}
    {c : SeriesChain}
    (h : SeriesDone input cleared c)
    (hSub : cleared ⊆ cleared') :
    SeriesDone input cleared' c where
  settled := h.settled
  orders := h.orders
  holders := fun isLong => (h.holders isLong).mono hSub

/- The redeem step of a caught-up tick marks soundly. -/
theorem RedeemTick.marks_sound
    (hSound : s.scan.Sound targets)
    {tick : RedeemTick}
    (hTick : tick.Of s)
    (hOn : tick.input.head.On targets s.scan)
    (hCaught : tick.CaughtUp s) :
    ∀ mark ∈ tick.marks, mark.Sound := by
  intro mark hMark
  unfold RedeemTick.marks at hMark
  cases hRun : stepRedeem tick.input with
  | none =>
      rw [hRun] at hMark
      cases hMark
  | some result =>
      rw [hRun] at hMark
      rcases List.mem_map.mp hMark with ⟨key, hKey, rfl⟩
      intro hFinal c hc hIn
      simp only at hFinal hc hIn ⊢
      obtain ⟨hSurveyed, hIndexed⟩ :=
        stepRedeem_done hOn.form hRun hKey hFinal
      rcases hCaught key hSurveyed hFinal c hc hIn with
        hReached | hNothing
      · rcases reached_indexed hSound hOn hc hReached with
          ⟨r, hr, hLong, hRowKey⟩
        apply hIndexed r _ c hc hLong.symm
        unfold CrankerIndex.seriesOf
        rw [List.mem_insertionSort, List.mem_filter, hTick.index]
        exact ⟨hr, decide_eq_true (hRowKey.trans hIn)⟩
      · exact hNothing.mono (List.nil_subset _)

/-
  In every run whose redeem steps find the index caught up on
  the final expiries they survey, an expiry marked done has
  nothing left on chain at the head it was marked on.
-/
theorem done_nothing_left
    (targets : ScanTargets)
    (s : CrankerState)
    (hRun :
      Transition.Reachable CrankerState.Start
        (fun s t =>
          ∃ e, CrankerStep targets s e t ∧ e.CaughtUp s)
        s) :
    ∀ mark ∈ s.marks, mark.Sound := by
  suffices hInv :
      s.scan.Sound targets ∧ ∀ mark ∈ s.marks, mark.Sound from
    hInv.2
  refine Transition.invariant
    (fun s : CrankerState =>
      s.scan.Sound targets ∧ ∀ mark ∈ s.marks, mark.Sound)
    ?_ ?_ hRun
  · rintro s ⟨hScan, _, hMarks⟩
    refine ⟨hScan.sound, ?_⟩
    intro mark hMark
    rw [hMarks] at hMark
    cases hMark
  · rintro s t ⟨hSound, hMarks⟩ ⟨e, hStep, hCaught⟩
    cases hStep with
    | scanned scan hScan =>
        exact ⟨hSound.step hScan, hMarks⟩
    | unprunable id => exact ⟨hSound, hMarks⟩
    | redeemed tick hIdle hTick hHead =>
        refine ⟨hSound, ?_⟩
        intro mark hMark
        rcases List.mem_append.mp hMark with hOld | hNew
        · exact hMarks mark hOld
        · exact
            tick.marks_sound hSound hTick hHead hCaught mark
              hNew

/- Two series of one expiry, created in blocks 1 and 2. -/
def createdSeries
    (longId : Int) : IndexedSeries :=
  { longId := longId
    underlying := "0xu"
    isPut := false
    strike := longId
    expiry := 1000
    oracle := "0xo" }

def twoSeriesChain : Chain :=
  fun block =>
    if block = 1 ∨ block = 2 then
      [{ address := "0xc"
         event := .SeriesCreated (createdSeries (2 * block)) }]
    else []

def twoSeriesTargets : ScanTargets :=
  { clearinghouse := "0xc"
    orderBook := "0xb"
    autoRoller := none
    fromBlock := 1 }

def beforeScan : ScanState :=
  { chain := twoSeriesChain
    index := CrankerIndex.empty
    scan := none
    returned := none
    ever := fun log => ∃ block, log ∈ twoSeriesChain block
    clean := true
    fresh := true }

/- One call of one range, at a head of ten blocks. -/
def catchUpScan
    (chunkBlocks : Int) : Scan :=
  beginScan twoSeriesTargets none
    { head := 10
      chunkBlocks := chunkBlocks
      maxChunks := 1 }
    10

def catchUpLogs
    (chunkBlocks : Int) : List DecodedLog :=
  getLogs twoSeriesChain (catchUpScan chunkBlocks).start
    (catchUpScan chunkBlocks).last

def afterScan
    (chunkBlocks : Int) : CrankerState :=
  { scan :=
      { beforeScan with
        index :=
          applyRange CrankerIndex.empty
            (rowsFromLogs twoSeriesTargets
              (catchUpLogs chunkBlocks))
            (catchUpScan chunkBlocks).last
        returned :=
          some
            ((catchUpScan chunkBlocks).scanned
              (catchUpLogs chunkBlocks)).finished }
    unprunable := []
    marks := [] }

/- The first series is finished; the second may be unsettled. -/
def twoSeriesHead
    (unsettled : Bool) : HeadView :=
  let supply : Int := if unsettled then 5 else 0
  let chainSeries longId settled supply : SeriesChain :=
    { longId := longId
      underlying := "0xu"
      isPut := false
      expiry := 1000
      oracle := "0xo"
      settled := settled
      longPayoutPerUnit := 1
      shortPayoutPerUnit := 1
      longSupply := supply
      shortSupply := supply }
  let held tokenId : Bool :=
    unsettled && (decide (tokenId = 4) || decide (tokenId = 5))
  { blockNumber := 10
    timestamp := 2000
    series := [chainSeries 2 true 0, chainSeries 4 (!unsettled) supply]
    createdAt := fun longId => if longId = 2 then 1 else 2
    orderIds := fun _ => []
    order := fun id =>
      { id := id
        maker := zeroAddress
        kind := .Bid
        units := 0
        filled := 0
        validUntil := 0
        cancelled := true }
    holders := fun tokenId => if held tokenId then ["0xh"] else []
    balance := fun tokenId holder =>
      if held tokenId ∧ holder = "0xh" then 5 else 0
    thirdPartyRedeemAllowed := fun _ => true
    isOperator := fun _ _ => false
    inKind := fun _ => false
    status := fun _ => .Finalized
    openInterest := fun _ => supply }

def twoSeriesTick
    (chunkBlocks : Int)
    (unsettled : Bool) : RedeemTick :=
  { now := 2000
    horizonS := 900
    backlogOffset := 0
    house := []
    input :=
      { config :=
          { dryRun := false
            account := "0xk"
            maxTxPerStep := 10
            txGasCap := 5000000
            zeroPayoutMaxGasPriceWei := 0 }
        ctx :=
          { index := (afterScan chunkBlocks).scan.index
            unprunable := []
            houseBoundary := fun _ => false }
        keys :=
          [{ oracle := "0xo", underlying := "0xu",
             expiry := 1000 }]
        head := twoSeriesHead unsettled
        payoutAdapter := some "0xd"
        gasPrice := 1
        indexer := none
        yieldWhen := fun _ => false
        execute := fun _ _ _ => .unspent
        live := fun _ _ _ _ h => by cases h } }

theorem twoSeriesHead_form
    (unsettled : Bool) :
    (twoSeriesHead unsettled).WellFormed where
  longIds := by
    change ([2, 4] : List Int).Nodup
    decide
  nonneg := by
    intro tokenId holder
    simp only [twoSeriesHead]
    split <;> decide
  listed := by
    intro tokenId holder hNot
    simp only [twoSeriesHead] at hNot ⊢
    split
    · next hHeld =>
        rw [if_pos hHeld.1, hHeld.2] at hNot
        exact absurd (List.mem_singleton.mpr rfl) hNot
    · rfl
  distinct := by
    intro tokenId
    simp only [twoSeriesHead]
    split <;> simp
  lower := by
    intro tokenId holder hIn
    simp only [twoSeriesHead] at hIn
    split at hIn
    · rw [List.mem_singleton.mp hIn]
      decide +kernel
    · cases hIn
  supply := by
    intro c hc isLong
    simp only [twoSeriesHead, List.mem_cons, List.not_mem_nil,
      or_false] at hc
    rcases hc with rfl | rfl <;> cases unsettled <;>
      cases isLong <;> decide
  paired := by
    intro c hc _
    simp only [twoSeriesHead, List.mem_cons, List.not_mem_nil,
      or_false] at hc
    rcases hc with rfl | rfl <;> rfl

theorem twoSeriesHead_on
    (chunkBlocks : Int)
    (unsettled : Bool) :
    (twoSeriesHead unsettled).On twoSeriesTargets
      (afterScan chunkBlocks).scan where
  form := twoSeriesHead_form unsettled
  created := by
    intro c hc
    simp only [twoSeriesHead, List.mem_cons, List.not_mem_nil,
      or_false] at hc
    have hSame : same "0xc" "0xc" = true := by
      decide +kernel
    rcases hc with rfl | rfl
    all_goals
      cases unsettled
      all_goals
        exact
          ⟨by decide, by decide, _, List.mem_cons_self, _,
            ⟨rfl, hSame⟩, rfl⟩
  once := by
    intro c hc log created hEver hCreates _
    rcases hEver with ⟨block, hLog⟩
    have hCreated : created = createdSeries (2 * block) := by
      change log ∈ twoSeriesChain block at hLog
      unfold twoSeriesChain at hLog
      split at hLog
      · have hEvent := hCreates.1
        rw [List.mem_singleton.mp hLog] at hEvent
        cases hEvent
        rfl
      · cases hLog
    simp only [twoSeriesHead, List.mem_cons, List.not_mem_nil,
      or_false] at hc
    rw [hCreated]
    rcases hc with rfl | rfl <;> rfl

/- The scan runs to its end from the empty index. -/
theorem afterScan_reachable
    {next : CrankerState → CrankerState → Prop}
    (hNext :
      ∀ s t, CrankerStep twoSeriesTargets s .scanned t →
        next s t)
    (chunkBlocks : Int) :
    Transition.Reachable CrankerState.Start next
      (afterScan chunkBlocks) := by
  have hStart :
      CrankerState.Start
        { scan := beforeScan, unprunable := [], marks := [] } :=
    ⟨⟨rfl, rfl, fun block log hLog => ⟨block, hLog⟩, rfl, rfl⟩,
      rfl, rfl⟩
  have hCalled :=
    (@Transition.Reachable.init _ _ next _ hStart).step
      (hNext _ _
        (.scanned _ _
          (ScanStep.called _
            { head := 10
              chunkBlocks := chunkBlocks
              maxChunks := 1 }
            10 rfl)))
  have hScanned :=
    hCalled.step
      (hNext _ _ (.scanned _ _ (ScanStep.scanned _ _ rfl rfl)))
  exact
    hScanned.step
      (hNext _ _
        (.scanned _ _
          (ScanStep.finished _ _ rfl (Bool.and_false _))))

theorem twoSeriesTick_of
    {chunkBlocks : Int}
    {unsettled : Bool}
    (hKeys :
      (twoSeriesTick chunkBlocks unsettled).input.keys =
        tickKeys (afterScan chunkBlocks)
          (twoSeriesTick chunkBlocks unsettled)) :
    (twoSeriesTick chunkBlocks unsettled).Of
      (afterScan chunkBlocks) where
  index := rfl
  unprunable := rfl
  house := by
    intro k
    simp [twoSeriesTick]
  keys := hKeys

/-
  With ranges of two blocks the index holds both series, and
  the expiry is marked with neither having anything left.
-/
theorem done_nothing_left_at :
    (twoSeriesTick 2 false).marks.length = 1 ∧
      ∀ mark ∈ (twoSeriesTick 2 false).marks, mark.Sound := by
  refine ⟨by decide +kernel, ?_⟩
  refine
    done_nothing_left twoSeriesTargets
      { afterScan 2 with
        marks := [] ++ (twoSeriesTick 2 false).marks } ?_
  refine
    (afterScan_reachable
      (fun s t h => ⟨.scanned, h, trivial⟩) 2).step ?_
  refine
    ⟨.redeemed (twoSeriesTick 2 false),
      .redeemed (afterScan 2) (twoSeriesTick 2 false) rfl
        (twoSeriesTick_of (by decide +kernel))
        (twoSeriesHead_on 2 false), ?_⟩
  intro key _ _ c hc _
  left
  refine ⟨2, by decide +kernel, .inr ⟨rfl, ?_⟩⟩
  change c ∈ (twoSeriesHead false).series at hc
  simp only [twoSeriesHead, List.mem_cons, List.not_mem_nil,
    or_false] at hc
  rcases hc with rfl | rfl <;> decide

/-
  With ranges of one block the index knows the first series
  only when the expiry is final: it is marked done with the
  second one unsettled.
-/
theorem lagging_index_marks_done :
    ¬ ∀ (targets : ScanTargets) (s : CrankerState),
        Transition.Reachable CrankerState.Start
            (fun s t => ∃ e, CrankerStep targets s e t) s →
          ∀ mark ∈ s.marks, mark.Sound := by
  intro h
  have hSound :=
    h twoSeriesTargets _
      ((afterScan_reachable (fun s t h => ⟨.scanned, h⟩) 1).step
        ⟨.redeemed (twoSeriesTick 1 true),
          .redeemed (afterScan 1) (twoSeriesTick 1 true) rfl
            (twoSeriesTick_of (by decide +kernel))
            (twoSeriesHead_on 1 true)⟩)
  have hMarks :
      stepRedeem (twoSeriesTick 1 true).input =
        some
          { done :=
              [{ oracle := "0xo", underlying := "0xu",
                 expiry := 1000 }]
            cleared := [] } := by
    decide +kernel
  have hMark :
      { key :=
          { oracle := "0xo", underlying := "0xu",
            expiry := 1000 }
        input := (twoSeriesTick 1 true).input
        cleared := [] } ∈
        (afterScan 1).marks ++ (twoSeriesTick 1 true).marks := by
    unfold RedeemTick.marks
    rw [hMarks]
    exact List.mem_singleton.mpr rfl
  have hDone :=
    hSound _ hMark rfl _
      (List.mem_cons_of_mem _ List.mem_cons_self)
      (by decide +kernel)
  have hSettled := hDone.settled (by decide)
  exact absurd hSettled (by decide)

end Callhouse.Keeper.Cranker
