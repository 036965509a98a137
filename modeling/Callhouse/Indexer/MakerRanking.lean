import Callhouse.Indexer.MakerScoring

/-
  indexer/lib/v2/makerScoring.ts, rank and scoreMakerEpochs:
  an epoch's rows ranked against each other on depth, spread
  and volume, and the weighted score.

  A rank counts the eligible rows that are strictly better,
  so it forgets the order of the rows, and a row that is at
  least as good has at most the same rows above it.

  Main declarations:
    * `rank`, `scoreMakerEpochs`
    * `rank_le_rank`, `rank_perm`
    * `scoreMakerEpochs_fair`
-/

----
-- Ranks and Scores
----

namespace Callhouse.Indexer

/- Percentages; they must sum to 100. -/
structure ScoringWeights where
  uptime : Int
  depth : Int
  spread : Int
  volume : Int
deriving DecidableEq

/- `MAKER_SCORING_POLICY.weights`. -/
def makerScoringWeights : ScoringWeights :=
  { uptime := 50, depth := 30, spread := 20, volume := 0 }

/- Whether `other` is strictly better than `current`. -/
def isBetter
    (lowerIsBetter : Bool)
    (other current : Int) : Bool :=
  if lowerIsBetter then decide (other < current)
  else decide (other > current)

def eligibleOf
    (rows : List MakerEpochState)
    (value : MakerEpochState → Int) :
    List MakerEpochState :=
  rows.filter (fun row => value row > 0)

def betterOf
    (rows : List MakerEpochState)
    (current : MakerEpochState)
    (value : MakerEpochState → Int)
    (lowerIsBetter : Bool) : List MakerEpochState :=
  (eligibleOf rows value).filter
    (fun row =>
      isBetter lowerIsBetter (value row) (value current))

/- Equal positive values tie at the same rank. -/
def rank
    (rows : List MakerEpochState)
    (current : MakerEpochState)
    (value : MakerEpochState → Int)
    (lowerIsBetter : Bool) : Int :=
  let eligible := (eligibleOf rows value).length
  let better :=
    (betterOf rows current value lowerIsBetter).length
  if value current ≤ 0 then 0
  else if eligible ≤ 1 then ppm
  else ppm - ((better : Int) * ppm).tdiv ((eligible : Int) - 1)

/- A two-sided row's spread, moved up by one. -/
def spreadValue
    (row : MakerEpochState) : Int :=
  if row.twoSidedSamples > 0 then row.avgSpreadBps + 1 else 0

def depthRank
    (rows : List MakerEpochState)
    (row : MakerEpochState) : Int :=
  rank rows row (fun value => value.depthInBand) false

def spreadRank
    (rows : List MakerEpochState)
    (row : MakerEpochState) : Int :=
  if row.twoSidedSamples = 0 then 0
  else rank rows row spreadValue true

def volumeRank
    (rows : List MakerEpochState)
    (row : MakerEpochState) : Int :=
  rank rows row (fun value => value.volumeUsdg) false

def scorePpmOf
    (rows : List MakerEpochState)
    (row : MakerEpochState) : Int :=
  let weights := makerScoringWeights
  (weights.uptime * row.uptimePpm +
    weights.depth * depthRank rows row +
    weights.spread * spreadRank rows row +
    weights.volume * volumeRank rows row).tdiv 100

def scoreMakerEpochs
    (rows : List MakerEpochState) : List MakerEpochState :=
  rows.map (fun row =>
    { row with scorePpm := scorePpmOf rows row })

----
-- One Ranking
----

section

variable {rows rows' : List MakerEpochState}
variable {a b : MakerEpochState}
variable {value : MakerEpochState → Int} {lowerIsBetter : Bool}

theorem rank_of_ineligible
    (h : value a ≤ 0) :
    rank rows a value lowerIsBetter = 0 :=
  if_pos h

/- What `better` of `eligible` rows leave of a full rank. -/
def rankShare
    (eligible better : Nat) : Int :=
  ppm - ((better : Int) * ppm).tdiv ((eligible : Int) - 1)

theorem ppm_pos : 0 < ppm := by
  decide

theorem rankShare_mono
    {eligible better better' : Nat}
    (hMany : ¬ eligible ≤ 1)
    (h : better ≤ better') :
    rankShare eligible better' ≤ rankShare eligible better := by
  have hLess :
      ((better : Int) * ppm).tdiv ((eligible : Int) - 1) ≤
        ((better' : Int) * ppm).tdiv ((eligible : Int) - 1) := by
    apply TruncDiv.tdiv_le_tdiv
    · exact mul_nonneg (Int.natCast_nonneg _) ppm_pos.le
    · omega
    · exact
        mul_le_mul_of_nonneg_right (Int.ofNat_le.mpr h)
          ppm_pos.le
  exact Int.sub_le_sub_left hLess ppm

theorem rankShare_nonneg
    {eligible better : Nat}
    (hMany : ¬ eligible ≤ 1)
    (h : better < eligible) :
    0 ≤ rankShare eligible better := by
  have hShare :
      ((better : Int) * ppm).tdiv ((eligible : Int) - 1) ≤
        ppm := by
    apply TruncDiv.tdiv_le_of_le_mul
    · exact mul_nonneg (Int.natCast_nonneg _) ppm_pos.le
    · omega
    · rw [mul_comm]
      apply mul_le_mul_of_nonneg_left _ ppm_pos.le
      omega
  exact Int.sub_nonneg_of_le hShare

theorem rankShare_le
    {eligible : Nat}
    (better : Nat)
    (hMany : ¬ eligible ≤ 1) :
    rankShare eligible better ≤ ppm := by
  have hShare :
      0 ≤ ((better : Int) * ppm).tdiv
        ((eligible : Int) - 1) := by
    apply TruncDiv.tdiv_nonneg
    · exact mul_nonneg (Int.natCast_nonneg _) ppm_pos.le
    · omega
  exact Int.sub_le_self ppm hShare

/- A rank of an eligible row. -/
theorem rank_of_eligible
    (h : 0 < value a) :
    rank rows a value lowerIsBetter =
      if (eligibleOf rows value).length ≤ 1 then ppm
      else
        rankShare (eligibleOf rows value).length
          (betterOf rows a value lowerIsBetter).length :=
  if_neg (not_le.mpr h)

/- No row is better than itself. -/
theorem betterOf_length_lt
    (lowerIsBetter : Bool)
    (ha : a ∈ rows)
    (hPos : 0 < value a) :
    (betterOf rows a value lowerIsBetter).length <
      (eligibleOf rows value).length := by
  unfold betterOf
  apply List.length_filter_lt_length_iff_exists.mpr
  refine ⟨a, ?_, ?_⟩
  · exact List.mem_filter.mpr ⟨ha, decide_eq_true hPos⟩
  · unfold isBetter
    cases lowerIsBetter with
    | false => simp
    | true => simp

theorem rank_bounds
    (value : MakerEpochState → Int)
    (lowerIsBetter : Bool)
    (ha : a ∈ rows) :
    0 ≤ rank rows a value lowerIsBetter ∧
      rank rows a value lowerIsBetter ≤ ppm := by
  by_cases hPos : 0 < value a
  · rw [rank_of_eligible hPos]
    have hLess := betterOf_length_lt lowerIsBetter ha hPos
    split
    · exact ⟨ppm_pos.le, le_refl _⟩
    · next hMany =>
        exact
          ⟨rankShare_nonneg hMany hLess,
            rankShare_le _ hMany⟩
  · rw [rank_of_ineligible (not_lt.mp hPos)]
    exact ⟨le_refl 0, ppm_pos.le⟩

/- A row at least as good is ranked at least as high. -/
theorem rank_le_rank
    (ha : a ∈ rows)
    (hEligible : 0 < value b → 0 < value a)
    (hBetter :
      0 < value b →
        ∀ other : Int, isBetter lowerIsBetter other (value a) →
          isBetter lowerIsBetter other (value b)) :
    rank rows b value lowerIsBetter ≤
      rank rows a value lowerIsBetter := by
  by_cases hb : 0 < value b
  · rw [rank_of_eligible hb,
      rank_of_eligible (hEligible hb)]
    split
    · exact le_refl _
    · next hMany =>
        apply rankShare_mono hMany
        unfold betterOf
        apply List.Sublist.length_le
        apply List.monotone_filter_right
        exact fun row => hBetter hb (value row)
  · rw [rank_of_ineligible (not_lt.mp hb)]
    exact (rank_bounds value lowerIsBetter ha).1

/- The order of the rows does not count. -/
theorem rank_perm
    (h : rows.Perm rows')
    (a : MakerEpochState)
    (value : MakerEpochState → Int)
    (lowerIsBetter : Bool) :
    rank rows a value lowerIsBetter =
      rank rows' a value lowerIsBetter := by
  have hEligible :
      (eligibleOf rows value).Perm
        (eligibleOf rows' value) :=
    h.filter _
  unfold rank betterOf
  rw [hEligible.length_eq, (hEligible.filter _).length_eq]

end

----
-- Fair Scores
----

/- The figures an epoch row can hold. -/
structure SoundFigures
    (row : MakerEpochState) : Prop where
  uptime : 0 ≤ row.uptimePpm ∧ row.uptimePpm ≤ ppm
  sided : 0 ≤ row.twoSidedSamples
  spread : 0 ≤ row.avgSpreadBps
  depth : 0 ≤ row.depthInBand
  volume : 0 ≤ row.volumeUsdg

/- At least as good on every axis. -/
structure Dominates
    (a b : MakerEpochState) : Prop where
  uptime : b.uptimePpm ≤ a.uptimePpm
  depth : b.depthInBand ≤ a.depthInBand
  volume : b.volumeUsdg ≤ a.volumeUsdg
  spread :
    (0 < a.twoSidedSamples ∧ 0 < b.twoSidedSamples ∧
      a.avgSpreadBps ≤ b.avgSpreadBps) ∨
      b.twoSidedSamples = 0

variable {rows rows' : List MakerEpochState}
variable {a b : MakerEpochState}

theorem rank_le_rank_of_le
    {value : MakerEpochState → Int}
    (ha : a ∈ rows)
    (h : value b ≤ value a) :
    rank rows b value false ≤ rank rows a value false := by
  apply rank_le_rank ha
  · exact fun hb => hb.trans_le h
  · intro _ other hOther
    simp only [isBetter, Bool.false_eq_true, if_false,
      decide_eq_true_eq] at hOther ⊢
    exact h.trans_lt hOther

theorem spreadRank_bounds
    (ha : a ∈ rows) :
    0 ≤ spreadRank rows a ∧ spreadRank rows a ≤ ppm := by
  unfold spreadRank
  split
  · exact ⟨le_refl 0, ppm_pos.le⟩
  · exact rank_bounds spreadValue true ha

/- A tighter spread, or any spread against none. -/
theorem spreadRank_le
    (ha : a ∈ rows)
    (hSound : SoundFigures a)
    (h : Dominates a b) :
    spreadRank rows b ≤ spreadRank rows a := by
  rcases h.spread with ⟨hSidedA, hSidedB, hLe⟩ | hNever
  · unfold spreadRank
    rw [if_neg hSidedA.ne', if_neg hSidedB.ne']
    have hValueA : spreadValue a = a.avgSpreadBps + 1 :=
      if_pos hSidedA
    have hValueB : spreadValue b = b.avgSpreadBps + 1 :=
      if_pos hSidedB
    apply rank_le_rank ha
    · intro _
      have hSpread := hSound.spread
      rw [hValueA]
      omega
    · intro _ other hOther
      simp only [isBetter, if_true, decide_eq_true_eq]
        at hOther ⊢
      rw [hValueA] at hOther
      rw [hValueB]
      omega
  · have hNone : spreadRank rows b = 0 := if_pos hNever
    rw [hNone]
    exact (spreadRank_bounds ha).1

/- Percentages that sum to 100: the check at load. -/
structure ScoringWeights.Sound
    (weights : ScoringWeights) : Prop where
  uptime : 0 ≤ weights.uptime
  depth : 0 ≤ weights.depth
  spread : 0 ≤ weights.spread
  volume : 0 ≤ weights.volume
  total :
    weights.uptime + weights.depth + weights.spread +
      weights.volume = 100

theorem makerScoringWeights_sound :
    makerScoringWeights.Sound := by
  constructor <;> decide

/- The weighted sum before it is divided. -/
def ScoringWeights.weighted
    (weights : ScoringWeights)
    (uptime depth spread volume : Int) : Int :=
  weights.uptime * uptime + weights.depth * depth +
    weights.spread * spread + weights.volume * volume

theorem scorePpmOf_eq
    (rows : List MakerEpochState)
    (row : MakerEpochState) :
    scorePpmOf rows row =
      (makerScoringWeights.weighted row.uptimePpm
        (depthRank rows row) (spreadRank rows row)
        (volumeRank rows row)).tdiv 100 :=
  rfl

variable {weights : ScoringWeights}

theorem ScoringWeights.Sound.weighted_mono
    (h : weights.Sound)
    {uptime depth spread volume : Int}
    {uptime' depth' spread' volume' : Int}
    (hUptime : uptime ≤ uptime')
    (hDepth : depth ≤ depth')
    (hSpread : spread ≤ spread')
    (hVolume : volume ≤ volume') :
    weights.weighted uptime depth spread volume ≤
      weights.weighted uptime' depth' spread' volume' := by
  have hUptimes := mul_le_mul_of_nonneg_left hUptime h.uptime
  have hDepths := mul_le_mul_of_nonneg_left hDepth h.depth
  have hSpreads := mul_le_mul_of_nonneg_left hSpread h.spread
  have hVolumes := mul_le_mul_of_nonneg_left hVolume h.volume
  unfold ScoringWeights.weighted
  omega

theorem ScoringWeights.Sound.weighted_const
    (h : weights.Sound)
    (x : Int) :
    weights.weighted x x x x = x * 100 := by
  unfold ScoringWeights.weighted
  rw [← h.total]
  ring

theorem ScoringWeights.Sound.weighted_bounds
    (h : weights.Sound)
    {uptime depth spread volume : Int}
    (hUptime : 0 ≤ uptime ∧ uptime ≤ ppm)
    (hDepth : 0 ≤ depth ∧ depth ≤ ppm)
    (hSpread : 0 ≤ spread ∧ spread ≤ ppm)
    (hVolume : 0 ≤ volume ∧ volume ≤ ppm) :
    0 ≤ weights.weighted uptime depth spread volume ∧
      weights.weighted uptime depth spread volume ≤
        ppm * 100 := by
  constructor
  · have hLow :=
      h.weighted_mono hUptime.1 hDepth.1 hSpread.1 hVolume.1
    rw [h.weighted_const, zero_mul] at hLow
    exact hLow
  · have hHigh :=
      h.weighted_mono hUptime.2 hDepth.2 hSpread.2 hVolume.2
    rw [h.weighted_const] at hHigh
    exact hHigh

theorem weighted_score_bounds
    (ha : a ∈ rows)
    (hSound : SoundFigures a) :
    let score :=
      makerScoringWeights.weighted a.uptimePpm
        (depthRank rows a) (spreadRank rows a)
        (volumeRank rows a)
    0 ≤ score ∧ score ≤ ppm * 100 :=
  makerScoringWeights_sound.weighted_bounds hSound.uptime
    (rank_bounds _ false ha) (spreadRank_bounds ha)
    (rank_bounds _ false ha)

theorem scorePpmOf_range
    (ha : a ∈ rows)
    (hSound : SoundFigures a) :
    0 ≤ scorePpmOf rows a ∧ scorePpmOf rows a ≤ ppm := by
  have hBounds := weighted_score_bounds ha hSound
  rw [scorePpmOf_eq]
  exact
    ⟨TruncDiv.tdiv_nonneg hBounds.1 (by decide),
      TruncDiv.tdiv_le_of_le_mul hBounds.1 (by decide)
        hBounds.2⟩

theorem scorePpmOf_perm
    (h : rows.Perm rows')
    (row : MakerEpochState) :
    scorePpmOf rows row = scorePpmOf rows' row := by
  unfold scorePpmOf depthRank spreadRank volumeRank
  simp only [rank_perm h]

theorem scorePpmOf_le
    (ha : a ∈ rows)
    (hb : b ∈ rows)
    (hSound : SoundFigures a)
    (hSound' : SoundFigures b)
    (h : Dominates a b) :
    scorePpmOf rows b ≤ scorePpmOf rows a := by
  rw [scorePpmOf_eq, scorePpmOf_eq]
  apply
    TruncDiv.tdiv_le_tdiv
      (weighted_score_bounds hb hSound').1 (by decide)
  exact
    makerScoringWeights_sound.weighted_mono h.uptime
      (rank_le_rank_of_le ha h.depth)
      (spreadRank_le ha hSound h)
      (rank_le_rank_of_le ha h.volume)

/- `scored` is the row that is returned for `row`. -/
def ScoredAs
    (rows : List MakerEpochState)
    (row scored : MakerEpochState) : Prop :=
  (row, scored) ∈ rows.zip (scoreMakerEpochs rows)

theorem scoredAs_iff
    {row scored : MakerEpochState} :
    ScoredAs rows row scored ↔
      row ∈ rows ∧
        scored =
          { row with scorePpm := scorePpmOf rows row } := by
  unfold ScoredAs scoreMakerEpochs
  rw [← List.map_prod_left_eq_zip, List.mem_map]
  constructor
  · rintro ⟨a, ha, hPair⟩
    cases hPair
    exact ⟨ha, rfl⟩
  · rintro ⟨hRow, rfl⟩
    exact ⟨row, hRow, rfl⟩

def MakerEpochState.unscored
    (row : MakerEpochState) : MakerEpochState :=
  { row with scorePpm := 0 }

/-
  What makes the returned rows fair: every row comes back in
  its place, with a score in range that the order of the list
  does not change and that dominance bounds.
-/
structure FairScores
    (rows : List MakerEpochState) : Prop where
  kept :
    (scoreMakerEpochs rows).map MakerEpochState.unscored =
      rows.map MakerEpochState.unscored
  range :
    ∀ row ∈ scoreMakerEpochs rows,
      0 ≤ row.scorePpm ∧ row.scorePpm ≤ ppm
  ordered :
    ∀ rows', rows.Perm rows' →
      (∀ row scored scored',
        ScoredAs rows row scored →
          ScoredAs rows' row scored' → scored = scored') ∧
        (scoreMakerEpochs rows).Perm
          (scoreMakerEpochs rows')
  dominance :
    ∀ a b scored scored',
      ScoredAs rows a scored → ScoredAs rows b scored' →
        Dominates a b → scored'.scorePpm ≤ scored.scorePpm

/- Scores of sound rows are in range, and fair. -/
theorem scoreMakerEpochs_fair
    (rows : List MakerEpochState)
    (hRows : ∀ row ∈ rows, SoundFigures row) :
    FairScores rows := by
  constructor
  · unfold scoreMakerEpochs
    rw [List.map_map]
    exact List.map_congr_left (fun row _ => rfl)
  · intro scored hScored
    rcases List.mem_map.mp hScored with ⟨row, hRow, rfl⟩
    exact scorePpmOf_range hRow (hRows row hRow)
  · intro rows' hPerm
    refine ⟨?_, ?_⟩
    · intro row scored scored' hHere hThere
      rw [(scoredAs_iff.mp hHere).2,
        (scoredAs_iff.mp hThere).2, scorePpmOf_perm hPerm]
    · have hSame :
          scoreMakerEpochs rows' =
            rows'.map (fun row =>
              { row with
                scorePpm := scorePpmOf rows row }) := by
        apply List.map_congr_left
        intro row _
        rw [scorePpmOf_perm hPerm]
      rw [hSame]
      exact hPerm.map _
  · intro a b scored scored' hA hB hDominates
    rcases scoredAs_iff.mp hA with ⟨hInA, rfl⟩
    rcases scoredAs_iff.mp hB with ⟨hInB, rfl⟩
    exact
      scorePpmOf_le hInA hInB (hRows a hInA) (hRows b hInB)
        hDominates

/- Two makers that tie on depth, one of them one-sided. -/
def tiedRows : List MakerEpochState :=
  [{ emptyMakerEpoch "a" 7 0 with
      twoSidedSamples := 4
      uptimePpm := 800000
      avgSpreadBps := 120
      depthInBand := 30
      volumeUsdg := 5 },
    { emptyMakerEpoch "b" 7 0 with
      uptimePpm := 800000
      depthInBand := 30 },
    { emptyMakerEpoch "c" 7 0 with
      twoSidedSamples := 1
      uptimePpm := 200000
      avgSpreadBps := 90
      depthInBand := 10 }]

theorem tiedRows_fair : FairScores tiedRows := by
  apply scoreMakerEpochs_fair
  intro row hRow
  rcases List.mem_cons.mp hRow with rfl | hRow
  · constructor <;> decide
  rcases List.mem_cons.mp hRow with rfl | hRow
  · constructor <;> decide
  rw [List.mem_singleton.mp hRow]
  constructor <;> decide

end Callhouse.Indexer
