import Callhouse.Indexer.Book
import Callhouse.Lib.RunningMean

/-
  indexer/lib/v2/makerScoring.ts: one maker's samples at a
  tick, and the epoch row that rolls them up.

  The row keeps each mean as a truncated integer and expands
  it again at the next tick, so the remainders of the ticks'
  divisions are lost to it.

  Main declarations:
    * `sampleMakerSeries`, `advanceMakerEpoch`
    * `sampleMakerSeries_sound`
    * `runMakerEpoch_rolled`
    * `runMakerEpoch_means_iff`
    * `runMakerEpoch_drifts`
-/

----
-- Samples
----

namespace Callhouse.Indexer

def bps : Int := 10000

def ppm : Int := 1000000

def depthBandBps : Int := 100

def makerBenchmarkPolicy : Int := 2

/- A share of fair, in basis points, with a USDG floor. -/
structure ScoringBand where
  bps : Int
  minUsdg : Int
deriving DecidableEq

structure MakerQuality where
  twoSided : Bool
  spreadBps : Option Int
  depthWithin100bps : Int
  depthInBand : Int
deriving DecidableEq

inductive MakerSample where
  | absent
  | valid (quality : MakerQuality)
  | missingReference
deriving DecidableEq

def within
    (price fair bandBps : Int) : Bool :=
  let delta :=
    if price > fair then price - fair else fair - price
  decide (delta * bps ≤ fair * bandBps)

def withinBand
    (price fair : Int)
    (band : ScoringBand) : Bool :=
  let delta :=
    if price > fair then price - fair else fair - price
  let proportional := (fair * band.bps).tdiv bps
  let allowed :=
    if proportional > band.minUsdg then proportional
    else band.minUsdg
  decide (delta ≤ allowed)

/- The loop's best prices and depths so far. -/
structure Quotes where
  bestBid : Option Int
  bestAsk : Option Int
  depthWithin100bps : Int
  depthInBand : Int
deriving DecidableEq

def Quotes.empty : Quotes :=
  { bestBid := none
    bestAsk := none
    depthWithin100bps := 0
    depthInBand := 0 }

def betterBid
    (bestBid : Option Int)
    (price : Int) : Int :=
  match bestBid with
  | none => price
  | some best => if price > best then price else best

def betterAsk
    (bestAsk : Option Int)
    (price : Int) : Int :=
  match bestAsk with
  | none => price
  | some best => if price < best then price else best

def sampleOrder
    (fair : Int)
    (band : ScoringBand)
    (acc : Quotes)
    (order : FillableOrder) : Quotes :=
  if order.units ≤ 0 then acc
  else
    let near :=
      if within order.price fair depthBandBps then order.units
      else 0
    let acc :=
      { acc with
        depthWithin100bps := acc.depthWithin100bps + near }
    if withinBand order.price fair band = false then acc
    else
      let acc :=
        { acc with
          depthInBand := acc.depthInBand + order.units }
      if order.kind = .Bid then
        { acc with
          bestBid := some (betterBid acc.bestBid order.price) }
      else
        { acc with
          bestAsk := some (betterAsk acc.bestAsk order.price) }

def sampleMakerSeries
    (orders : List FillableOrder)
    (fair : Int)
    (band : ScoringBand) : Except String MakerQuality :=
  if fair ≤ 0 then .error "invalid fair quote"
  else if band.bps < 0 ∨ band.bps > bps ∨
      band.minUsdg < 0 then
    .error "invalid scoring band"
  else
    let acc :=
      orders.foldl (sampleOrder fair band) Quotes.empty
    match acc.bestBid, acc.bestAsk with
    | some bestBid, some bestAsk =>
        let difference :=
          if bestAsk > bestBid then bestAsk - bestBid else 0
        .ok
          { twoSided := true
            spreadBps := some ((difference * bps).tdiv fair)
            depthWithin100bps := acc.depthWithin100bps
            depthInBand := acc.depthInBand }
    | _, _ =>
        .ok
          { twoSided := false
            spreadBps := none
            depthWithin100bps := acc.depthWithin100bps
            depthInBand := acc.depthInBand }

----
-- Epoch Rows
----

structure FlowTotals where
  fills : Int
  volumeUsdg : Int
  rebatesUsdg : Int
deriving DecidableEq

structure MakerEpochState where
  maker : String
  epoch : Int
  tierBps : Int
  benchmarkPolicy : Int
  samples : Int
  absentSamples : Int
  validSamples : Int
  missingReferenceSamples : Int
  twoSidedSamples : Int
  uptimePpm : Int
  avgSpreadBps : Int
  depthWithin100bps : Int
  depthInBand : Int
  fills : Int
  volumeUsdg : Int
  rebatesUsdg : Int
  scorePpm : Int
deriving DecidableEq

def emptyMakerEpoch
    (maker : String)
    (epoch tierBps : Int) : MakerEpochState :=
  { maker := maker
    epoch := epoch
    tierBps := tierBps
    benchmarkPolicy := makerBenchmarkPolicy
    samples := 0
    absentSamples := 0
    validSamples := 0
    missingReferenceSamples := 0
    twoSidedSamples := 0
    uptimePpm := 0
    avgSpreadBps := 0
    depthWithin100bps := 0
    depthInBand := 0
    fills := 0
    volumeUsdg := 0
    rebatesUsdg := 0
    scorePpm := 0 }

def qualityOf? : MakerSample → Option MakerQuality
  | .valid quality => some quality
  | _ => none

def measuredOf
    (samples : List MakerSample) : List MakerQuality :=
  samples.filterMap qualityOf?

def countOf
    (kind : MakerSample)
    (samples : List MakerSample) : Int :=
  (samples.filter (fun sample => sample = kind)).length

def sumOf
    (value : MakerQuality → Int)
    (measured : List MakerQuality) : Int :=
  (measured.map value).sum

def spreadOf
    (quality : MakerQuality) : Int :=
  quality.spreadBps.getD 0

def twoSidedCount
    (measured : List MakerQuality) : Int :=
  (measured.filter (fun value => value.twoSided)).length

/- A mean over the samples so far and a tick's own. -/
def rolledMean
    (mean before sum count : Int) : Int :=
  if count = 0 then 0
  else (mean * before + sum).tdiv count

def advanceMakerEpoch
    (previous : MakerEpochState)
    (samples : List MakerSample)
    (flows : FlowTotals)
    (tierBps : Int) : Except String MakerEpochState :=
  if previous.benchmarkPolicy ≠ makerBenchmarkPolicy then
    let policy := previous.benchmarkPolicy
    .error
      (s!"maker epoch row is benchmark policy {policy}, " ++
        s!"not {makerBenchmarkPolicy}")
  else
    let measured := measuredOf samples
    let absent := countOf .absent samples
    let missingReference := countOf .missingReference samples
    let count := previous.samples + absent + measured.length
    let sided :=
      previous.twoSidedSamples + twoSidedCount measured
    .ok
      { previous with
        tierBps := tierBps
        samples := count
        absentSamples := previous.absentSamples + absent
        validSamples :=
          previous.validSamples + measured.length
        missingReferenceSamples :=
          previous.missingReferenceSamples + missingReference
        twoSidedSamples := sided
        uptimePpm :=
          if count = 0 then 0
          else (sided * ppm).tdiv count
        avgSpreadBps :=
          rolledMean previous.avgSpreadBps
            previous.twoSidedSamples (sumOf spreadOf measured)
            sided
        depthWithin100bps :=
          rolledMean previous.depthWithin100bps
            previous.samples
            (sumOf (fun q => q.depthWithin100bps) measured)
            count
        depthInBand :=
          rolledMean previous.depthInBand previous.samples
            (sumOf (fun q => q.depthInBand) measured) count
        fills := flows.fills
        volumeUsdg := flows.volumeUsdg
        rebatesUsdg := flows.rebatesUsdg }

/- One tick of one maker, as the scoring job passes it. -/
structure MakerTick where
  samples : List MakerSample
  flows : FlowTotals
  tierBps : Int
deriving DecidableEq

def runMakerEpoch
    (row : MakerEpochState) :
    List MakerTick → Except String MakerEpochState
  | [] => .ok row
  | tick :: rest =>
      match
        advanceMakerEpoch row tick.samples tick.flows
          tick.tierBps with
      | .error e => .error e
      | .ok row' => runMakerEpoch row' rest

----
-- Sampled Qualities
----

/- What a sampler measures: a spread on both sides, or none. -/
structure MakerQuality.Sound
    (quality : MakerQuality) : Prop where
  depthWithin100bps_nonneg : 0 ≤ quality.depthWithin100bps
  depthInBand_nonneg : 0 ≤ quality.depthInBand
  spread_nonneg : 0 ≤ spreadOf quality
  spread_one_sided :
    quality.twoSided = false → spreadOf quality = 0

/- An order only adds to the depths. -/
theorem sampleOrder_depths_nonneg
    (fair : Int)
    (band : ScoringBand)
    (order : FillableOrder)
    {acc : Quotes}
    (hNear : 0 ≤ acc.depthWithin100bps)
    (hBand : 0 ≤ acc.depthInBand) :
    0 ≤ (sampleOrder fair band acc order).depthWithin100bps ∧
      0 ≤ (sampleOrder fair band acc order).depthInBand := by
  by_cases hUnits : order.units ≤ 0
  · rw [sampleOrder, if_pos hUnits]
    exact ⟨hNear, hBand⟩
  · rw [sampleOrder, if_neg hUnits]
    constructor
    · grind
    · grind

theorem foldl_sampleOrder_depths_nonneg
    (fair : Int)
    (band : ScoringBand)
    (orders : List FillableOrder)
    {acc : Quotes}
    (hNear : 0 ≤ acc.depthWithin100bps)
    (hBand : 0 ≤ acc.depthInBand) :
    let acc' := orders.foldl (sampleOrder fair band) acc
    0 ≤ acc'.depthWithin100bps ∧ 0 ≤ acc'.depthInBand := by
  induction orders generalizing acc with
  | nil => exact ⟨hNear, hBand⟩
  | cons order rest ih =>
      rcases
        sampleOrder_depths_nonneg fair band order hNear
          hBand with
        ⟨hNear', hBand'⟩
      exact ih hNear' hBand'

theorem sampleMakerSeries_sound
    {orders : List FillableOrder}
    {fair : Int}
    {band : ScoringBand}
    {quality : MakerQuality}
    (hSample : sampleMakerSeries orders fair band = .ok quality) :
    quality.Sound := by
  unfold sampleMakerSeries at hSample
  split at hSample
  · cases hSample
  · next hFair =>
      split at hSample
      · cases hSample
      · have hDepths :=
          foldl_sampleOrder_depths_nonneg fair band orders
            (le_refl Quotes.empty.depthWithin100bps)
            (le_refl Quotes.empty.depthInBand)
        simp only at hSample hDepths
        split at hSample
        · cases hSample
          refine ⟨hDepths.1, hDepths.2, ?_, ?_⟩
          · simp only [spreadOf, Option.getD_some]
            apply TruncDiv.tdiv_nonneg
            · apply mul_nonneg
              · split_ifs <;> omega
              · exact (by decide : (0 : Int) ≤ bps)
            · omega
          · intro hOne
            cases hOne
        · cases hSample
          refine ⟨hDepths.1, hDepths.2, ?_, ?_⟩ <;>
            simp [spreadOf]

----
-- Batches of a Tick
----

section

open RunningMean

/- The samples that uptime and depth are averaged over. -/
def countedOf
    (samples : List MakerSample) : Int :=
  countOf .absent samples + (measuredOf samples).length

def depthBatch
    (depth : MakerQuality → Int)
    (samples : List MakerSample) : Batch :=
  { sum := sumOf depth (measuredOf samples)
    count := countedOf samples }

def spreadBatch
    (samples : List MakerSample) : Batch :=
  { sum := sumOf spreadOf (measuredOf samples)
    count := twoSidedCount (measuredOf samples) }

def SoundSamples
    (samples : List MakerSample) : Prop :=
  ∀ quality ∈ measuredOf samples, quality.Sound

theorem sumOf_nonneg
    {value : MakerQuality → Int}
    {measured : List MakerQuality}
    (hValue : ∀ quality ∈ measured, 0 ≤ value quality) :
    0 ≤ sumOf value measured := by
  unfold sumOf
  apply List.sum_nonneg
  intro x hx
  rcases List.mem_map.mp hx with ⟨quality, hIn, hEq⟩
  rw [← hEq]
  exact hValue quality hIn

theorem countOf_nonneg
    (kind : MakerSample)
    (samples : List MakerSample) :
    0 ≤ countOf kind samples := by
  unfold countOf
  omega

/- One-sided samples have no part in the spreads. -/
theorem sumOf_spreadOf_eq
    {measured : List MakerQuality}
    (hSound : ∀ quality ∈ measured, quality.Sound) :
    sumOf spreadOf measured =
      sumOf spreadOf
        (measured.filter (fun value => value.twoSided)) := by
  induction measured with
  | nil => rfl
  | cons quality rest ih =>
      have hHead := hSound quality (by simp)
      have hTail :=
        ih (fun q hIn => hSound q (List.mem_cons_of_mem _ hIn))
      unfold sumOf at hTail ⊢
      cases hSided : quality.twoSided with
      | false =>
          rw [List.filter_cons_of_neg (by simp [hSided]),
            List.map_cons, List.sum_cons,
            hHead.spread_one_sided hSided, zero_add, hTail]
      | true =>
          rw [List.filter_cons_of_pos hSided, List.map_cons,
            List.sum_cons, List.map_cons, List.sum_cons, hTail]

theorem depthBatch_sound
    {depth : MakerQuality → Int}
    {samples : List MakerSample}
    (hDepth :
      ∀ quality ∈ measuredOf samples, 0 ≤ depth quality) :
    (depthBatch depth samples).Sound := by
  have hAbsent := countOf_nonneg .absent samples
  constructor
  · exact sumOf_nonneg hDepth
  · unfold depthBatch countedOf
    simp only
    omega
  · intro hNone
    unfold depthBatch countedOf at hNone
    simp only at hNone
    have hEmpty : measuredOf samples = [] := by
      apply List.eq_nil_of_length_eq_zero
      omega
    simp [depthBatch, sumOf, hEmpty]

theorem spreadBatch_sound
    {samples : List MakerSample}
    (hSound : SoundSamples samples) :
    (spreadBatch samples).Sound := by
  constructor
  · exact
      sumOf_nonneg
        (fun quality hIn => (hSound quality hIn).spread_nonneg)
  · unfold spreadBatch twoSidedCount
    simp only
    omega
  · intro hNone
    unfold spreadBatch twoSidedCount at hNone
    simp only at hNone
    have hEmpty :
        (measuredOf samples).filter
          (fun value => value.twoSided) = [] := by
      apply List.eq_nil_of_length_eq_zero
      omega
    unfold spreadBatch
    simp only
    rw [sumOf_spreadOf_eq hSound, hEmpty]
    rfl

theorem total_depthBatch
    (depth : MakerQuality → Int)
    (ticks : List MakerTick) :
    total (ticks.map (fun t => depthBatch depth t.samples)) =
      depthBatch depth (ticks.flatMap (fun t => t.samples)) := by
  induction ticks with
  | nil => rfl
  | cons tick rest ih =>
      simp only [total, depthBatch, countedOf, countOf, sumOf,
        measuredOf, Batch.mk.injEq] at ih ⊢
      rcases ih with ⟨hSum, hCount⟩
      constructor
      · simp only [List.map_cons, List.sum_cons,
          List.flatMap_cons, List.filterMap_append,
          List.map_append, List.sum_append]
        rw [← hSum]
      · simp only [List.map_cons, List.sum_cons,
          List.flatMap_cons, List.filterMap_append,
          List.filter_append, List.length_append]
        push_cast
        rw [hCount]
        omega

theorem total_spreadBatch
    (ticks : List MakerTick) :
    total (ticks.map (fun t => spreadBatch t.samples)) =
      spreadBatch (ticks.flatMap (fun t => t.samples)) := by
  induction ticks with
  | nil => rfl
  | cons tick rest ih =>
      simp only [total, spreadBatch, twoSidedCount, sumOf,
        measuredOf, Batch.mk.injEq] at ih ⊢
      rcases ih with ⟨hSum, hCount⟩
      constructor
      · simp only [List.map_cons, List.sum_cons,
          List.flatMap_cons, List.filterMap_append,
          List.map_append, List.sum_append]
        rw [← hSum]
      · simp only [List.map_cons, List.sum_cons,
          List.flatMap_cons, List.filterMap_append,
          List.filter_append, List.length_append]
        push_cast
        rw [hCount]

end

----
-- Rows of a Run
----

open RunningMean

def nearDepthBatches
    (ticks : List MakerTick) : List Batch :=
  ticks.map
    (fun t =>
      depthBatch (fun q => q.depthWithin100bps) t.samples)

def bandDepthBatches
    (ticks : List MakerTick) : List Batch :=
  ticks.map
    (fun t => depthBatch (fun q => q.depthInBand) t.samples)

def spreadBatches
    (ticks : List MakerTick) : List Batch :=
  ticks.map (fun t => spreadBatch t.samples)

/- The row's three means are running means of its ticks. -/
structure Rolled
    (row : MakerEpochState)
    (ticks : List MakerTick) : Prop where
  policy : row.benchmarkPolicy = makerBenchmarkPolicy
  nearDepth :
    ⟨row.depthWithin100bps, row.samples⟩ =
      run (nearDepthBatches ticks)
  bandDepth :
    ⟨row.depthInBand, row.samples⟩ =
      run (bandDepthBatches ticks)
  spread :
    ⟨row.avgSpreadBps, row.twoSidedSamples⟩ =
      run (spreadBatches ticks)

theorem emptyMakerEpoch_rolled
    (maker : String)
    (epoch tierBps : Int) :
    Rolled (emptyMakerEpoch maker epoch tierBps) [] := by
  constructor <;> rfl

variable {ticks : List MakerTick} {row : MakerEpochState}

theorem advanceMakerEpoch_rolled
    (tick : MakerTick)
    (hRow : Rolled row ticks) :
    ∃ row',
      advanceMakerEpoch row tick.samples tick.flows
          tick.tierBps =
        .ok row' ∧
      Rolled row' (ticks ++ [tick]) := by
  unfold advanceMakerEpoch
  rw [if_neg (not_not.mpr hRow.policy)]
  refine ⟨_, rfl, hRow.policy, ?_, ?_, ?_⟩
  · unfold nearDepthBatches
    rw [List.map_append, List.map_singleton, run_concat]
    rw [← nearDepthBatches, ← hRow.nearDepth]
    simp only [advance, depthBatch, countedOf, rolledMean,
      add_assoc]
    rfl
  · unfold bandDepthBatches
    rw [List.map_append, List.map_singleton, run_concat]
    rw [← bandDepthBatches, ← hRow.bandDepth]
    simp only [advance, depthBatch, countedOf, rolledMean,
      add_assoc]
    rfl
  · unfold spreadBatches
    rw [List.map_append, List.map_singleton, run_concat]
    rw [← spreadBatches, ← hRow.spread]
    simp only [advance, spreadBatch, rolledMean]
    rfl

/- No tick of a run is refused, and its row stays rolled. -/
theorem runMakerEpoch_rolled
    {done : List MakerTick}
    (ticks : List MakerTick)
    (hRow : Rolled row done) :
    ∃ row',
      runMakerEpoch row ticks = .ok row' ∧
      Rolled row' (done ++ ticks) := by
  induction ticks generalizing row done with
  | nil =>
      refine ⟨row, rfl, ?_⟩
      rw [List.append_nil]
      exact hRow
  | cons tick rest ih =>
      rcases advanceMakerEpoch_rolled tick hRow with
        ⟨row₁, hAdvance, hNext⟩
      rcases ih hNext with ⟨row₂, hRun, hLast⟩
      refine ⟨row₂, ?_, ?_⟩
      · rw [runMakerEpoch, hAdvance]
        exact hRun
      · rw [List.append_cons]
        exact hLast

/- All samples of a run, over the ticks' borders. -/
def samplesOf
    (ticks : List MakerTick) : List MakerSample :=
  ticks.flatMap (fun t => t.samples)

/- The floored mean depth of samples taken at once. -/
def meanDepth
    (depth : MakerQuality → Int)
    (samples : List MakerSample) : Int :=
  sumOf depth (measuredOf samples) / countedOf samples

/- The floored mean spread of the two-sided ones. -/
def meanSpread
    (samples : List MakerSample) : Int :=
  let sided :=
    (measuredOf samples).filter (fun value => value.twoSided)
  sumOf spreadOf sided / sided.length

/- The row's three averages are averages of its samples. -/
structure Averages
    (row : MakerEpochState)
    (samples : List MakerSample) : Prop where
  nearDepth :
    row.depthWithin100bps =
      meanDepth (fun q => q.depthWithin100bps) samples
  bandDepth :
    row.depthInBand = meanDepth (fun q => q.depthInBand) samples
  spread : row.avgSpreadBps = meanSpread samples

theorem mean_nearDepthBatches
    (ticks : List MakerTick) :
    mean (nearDepthBatches ticks) =
      meanDepth (fun q => q.depthWithin100bps)
        (samplesOf ticks) := by
  unfold mean nearDepthBatches
  rw [total_depthBatch]
  rfl

theorem mean_bandDepthBatches
    (ticks : List MakerTick) :
    mean (bandDepthBatches ticks) =
      meanDepth (fun q => q.depthInBand) (samplesOf ticks) := by
  unfold mean bandDepthBatches
  rw [total_depthBatch]
  rfl

theorem mean_spreadBatches
    (hSound : SoundSamples (samplesOf ticks)) :
    mean (spreadBatches ticks) =
      meanSpread (samplesOf ticks) := by
  unfold mean spreadBatches
  rw [total_spreadBatch]
  unfold spreadBatch meanSpread
  simp only
  rw [← samplesOf, sumOf_spreadOf_eq hSound]
  rfl

theorem soundSamples_of_mem
    {tick : MakerTick}
    (hSound : SoundSamples (samplesOf ticks))
    (hIn : tick ∈ ticks) :
    SoundSamples tick.samples := by
  intro quality hQuality
  apply hSound quality
  unfold measuredOf samplesOf at *
  rcases List.mem_filterMap.mp hQuality with
    ⟨sample, hSample, hEq⟩
  apply List.mem_filterMap.mpr
  exact ⟨sample, List.mem_flatMap.mpr ⟨tick, hIn, hSample⟩, hEq⟩

section

variable (hSound : SoundSamples (samplesOf ticks))
include hSound

theorem nearDepthBatches_sound :
    ∀ b ∈ nearDepthBatches ticks, b.Sound := by
  intro b hb
  rcases List.mem_map.mp hb with ⟨tick, hIn, hEq⟩
  have hTick := soundSamples_of_mem hSound hIn
  rw [← hEq]
  apply depthBatch_sound
  intro quality hQuality
  exact (hTick quality hQuality).depthWithin100bps_nonneg

theorem bandDepthBatches_sound :
    ∀ b ∈ bandDepthBatches ticks, b.Sound := by
  intro b hb
  rcases List.mem_map.mp hb with ⟨tick, hIn, hEq⟩
  have hTick := soundSamples_of_mem hSound hIn
  rw [← hEq]
  apply depthBatch_sound
  intro quality hQuality
  exact (hTick quality hQuality).depthInBand_nonneg

theorem spreadBatches_sound :
    ∀ b ∈ spreadBatches ticks, b.Sound := by
  intro b hb
  rcases List.mem_map.mp hb with ⟨tick, hIn, hEq⟩
  rw [← hEq]
  exact spreadBatch_sound (soundSamples_of_mem hSound hIn)

end

theorem Rolled.averages_iff
    (hRow : Rolled row ticks)
    (hSound : SoundSamples (samplesOf ticks)) :
    Averages row (samplesOf ticks) ↔
      Kept (nearDepthBatches ticks) ∧
      Kept (bandDepthBatches ticks) ∧
      Kept (spreadBatches ticks) := by
  have hNear := run_eq_mean_iff _ (nearDepthBatches_sound hSound)
  have hBand := run_eq_mean_iff _ (bandDepthBatches_sound hSound)
  have hSpread := run_eq_mean_iff _ (spreadBatches_sound hSound)
  rw [← hRow.nearDepth, mean_nearDepthBatches] at hNear
  rw [← hRow.bandDepth, mean_bandDepthBatches] at hBand
  rw [← hRow.spread, mean_spreadBatches hSound] at hSpread
  rw [← hNear, ← hBand, ← hSpread]
  constructor
  · intro hAverages
    exact
      ⟨hAverages.nearDepth, hAverages.bandDepth,
        hAverages.spread⟩
  · intro hMeans
    rcases hMeans with ⟨hNearEq, hBandEq, hSpreadEq⟩
    exact ⟨hNearEq, hBandEq, hSpreadEq⟩

/-
  A run's averages are those of its samples exactly when, for
  each of them, the remainders its ticks drop stay below one
  for every sample behind it.
-/
theorem runMakerEpoch_means_iff
    (maker : String)
    (epoch tierBps : Int)
    (ticks : List MakerTick)
    (hSound : SoundSamples (samplesOf ticks)) :
    ∃ row,
      runMakerEpoch (emptyMakerEpoch maker epoch tierBps)
          ticks =
        .ok row ∧
      (Averages row (samplesOf ticks) ↔
        Kept (nearDepthBatches ticks) ∧
        Kept (bandDepthBatches ticks) ∧
        Kept (spreadBatches ticks)) := by
  rcases
    runMakerEpoch_rolled ticks
      (emptyMakerEpoch_rolled maker epoch tierBps) with
    ⟨row, hRun, hRolled⟩
  rw [List.nil_append] at hRolled
  exact ⟨row, hRun, hRolled.averages_iff hSound⟩

/- A tick with one sample, of the same depth in both bands. -/
def depthTick
    (depth : Int) : MakerTick :=
  { samples :=
      [.valid
        { twoSided := true
          spreadBps := some 50
          depthWithin100bps := depth
          depthInBand := depth }]
    flows :=
      { fills := 0
        volumeUsdg := 0
        rebatesUsdg := 0 }
    tierBps := 10 }

def steadyTicks : List MakerTick :=
  [depthTick 200, depthTick 100, depthTick 150]

def climbingTicks : List MakerTick :=
  [depthTick 1, depthTick 2, depthTick 3]

theorem depthTicks_sound
    (depths : List Int)
    (hDepths : ∀ depth ∈ depths, 0 ≤ depth) :
    SoundSamples (samplesOf (depths.map depthTick)) := by
  intro quality hQuality
  unfold measuredOf samplesOf at hQuality
  rcases List.mem_filterMap.mp hQuality with
    ⟨sample, hSample, hEq⟩
  rcases List.mem_flatMap.mp hSample with ⟨tick, hTick, hIn⟩
  rcases List.mem_map.mp hTick with ⟨depth, hDepth, hMk⟩
  subst hMk
  simp only [depthTick, List.mem_singleton] at hIn
  subst hIn
  cases hEq
  have hNonneg := hDepths depth hDepth
  constructor
  · exact hNonneg
  · exact hNonneg
  · exact (by decide : (0 : Int) ≤ 50)
  · intro hOne
    cases hOne

theorem steadyTicks_means :
    ∃ row,
      runMakerEpoch (emptyMakerEpoch "maker" 2958 0)
          steadyTicks =
        .ok row ∧
      Averages row (samplesOf steadyTicks) := by
  rcases
    runMakerEpoch_means_iff "maker" 2958 0 steadyTicks
      (depthTicks_sound [200, 100, 150] (by decide)) with
    ⟨row, hRun, hIff⟩
  exact ⟨row, hRun, hIff.mpr (by decide)⟩

/- Depths 1, 2 and 3 average to 2, and the row says 1. -/
theorem runMakerEpoch_drifts :
    SoundSamples (samplesOf climbingTicks) ∧
    ¬ ∃ row,
      runMakerEpoch (emptyMakerEpoch "maker" 2958 0)
          climbingTicks =
        .ok row ∧
      Averages row (samplesOf climbingTicks) := by
  constructor
  · exact depthTicks_sound [1, 2, 3] (by decide)
  · intro hAll
    rcases hAll with ⟨row, hRun, hAverages⟩
    have hRow :
        (runMakerEpoch (emptyMakerEpoch "maker" 2958 0)
          climbingTicks).map (fun r => r.depthInBand) =
        .ok 1 := by
      decide
    have hMean :
        meanDepth (fun q => q.depthInBand)
          (samplesOf climbingTicks) = 2 := by
      decide
    rw [hRun] at hRow
    have hOne : row.depthInBand = 1 := by
      injection hRow
    have hTwo := hAverages.bandDepth
    omega

end Callhouse.Indexer
