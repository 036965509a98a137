import Callhouse.Keeper.Mm.SpotLag
import Callhouse.Lib.FallThenRise

/-
  keeper/src/v2/mm/spot-lag.ts, the ask cushion: an ask at
  `askAhead` is over the vault's own floor wherever the spot
  can be by the end of the horizon.

  The base of that floor is a clamped floor and a ceiling in
  whole numbers. Along the spot it is a valley all the same,
  so its ends bound it.

  Main declarations:
    * `vaultAskBaseOf_valley`, `vaultAskBaseOf_le_rise`
    * `vaultAheadOf_covers`
    * `askAhead_covers`
-/

----
-- The Base along the Spot
----

namespace Callhouse.Keeper.Mm

section

/- The payoff less the tolerance, before the clamp. -/
def basePart
    (series : OptionTerms)
    (askToleranceBps spot : Int) : Int :=
  (if series.isPut then series.strike - spot
    else spot - series.strike) -
    (spot * askToleranceBps).tdiv bps

def timeValue
    (spot : Int) : Int :=
  Grid.ceilDiv (spot * minAskBpsOfSpot) bps

variable {series : OptionTerms} {tolerance : Int}

theorem vaultAskBaseOf_eq
    (hTolerance : 0 ≤ tolerance)
    {spot : Int}
    (hSpot : 0 ≤ spot) :
    vaultAskBaseOf series spot tolerance =
      max 0 (basePart series tolerance spot) +
        timeValue spot := by
  have hTaken : 0 ≤ (spot * tolerance).tdiv bps :=
    TruncDiv.tdiv_nonneg (mul_nonneg hSpot hTolerance) bps_pos
  unfold vaultAskBaseOf basePart timeValue
  simp only
  congr 1
  cases series.isPut with
  | false =>
      simp only [Bool.false_eq_true, if_false]
      split_ifs <;> omega
  | true =>
      simp only [if_true]
      split_ifs <;> omega

/- A ceiling of a part of the spot moves no faster than it. -/
theorem timeValue_step
    {x y : Int}
    (hx : 0 ≤ x)
    (hxy : x ≤ y) :
    timeValue x ≤ timeValue y ∧
      timeValue y - timeValue x ≤ y - x := by
  have hRate : 0 ≤ minAskBpsOfSpot := by decide
  have hPart :
      ∀ s, 0 ≤ s →
        s * minAskBpsOfSpot ≤ timeValue s * bps :=
    fun s hs =>
      (Grid.ceilDiv_le_iff (mul_nonneg hs hRate) bps_pos).mp
        (le_refl _)
  have hLeast := hPart x hx
  constructor
  · unfold timeValue
    rw [Grid.ceilDiv_le_iff (mul_nonneg hx hRate) bps_pos]
    exact
      (mul_le_mul_of_nonneg_right hxy hRate).trans
        (hPart y (hx.trans hxy))
  · have hMost : timeValue y ≤ timeValue x + (y - x) := by
      unfold timeValue at hLeast ⊢
      rw [Grid.ceilDiv_le_iff
        (mul_nonneg (hx.trans hxy) hRate) bps_pos]
      unfold minAskBpsOfSpot bps at *
      omega
    omega

theorem timeValue_monotoneOn :
    MonotoneOn timeValue (Set.Ici 0) :=
  fun _ hx _ _ hxy => (timeValue_step hx hxy).1

/- Of a call both parts rise; of a put the clamped one falls. -/
theorem vaultAskBaseOf_valley
    (series : OptionTerms)
    (hTolerance : 0 ≤ tolerance ∧ tolerance ≤ 10000) :
    ∃ falling,
      ValleyOn
        (fun s =>
          max 0 (basePart series tolerance s) + timeValue s)
        (Set.Ici 0) falling := by
  cases hPut : series.isPut with
  | false =>
      refine ⟨_, valleyOn_clamped_rise ?_ timeValue_monotoneOn⟩
      intro x hx y _ hxy
      have hMost : tolerance ≤ bps := hTolerance.2
      have hKept :=
        TruncDiv.sub_tdiv_le_sub_tdiv hTolerance.1 hMost
          bps_pos hx hxy
      unfold basePart
      simp only [hPut, Bool.false_eq_true, if_false]
      omega
  | true =>
      refine ⟨_, valleyOn_clamped_fall ?_ timeValue_monotoneOn⟩
      intro x hx y _ hxy
      have hTaken :=
        TruncDiv.tdiv_le_tdiv
          (mul_nonneg hx hTolerance.1) bps_pos
          (mul_le_mul_of_nonneg_right hxy hTolerance.1)
      have hSlow := (timeValue_step hx hxy).2
      unfold basePart
      simp only [hPut, if_true]
      omega

/- On an interval of spots the base is under one of its ends. -/
theorem vaultAskBaseOf_le_ends
    (series : OptionTerms)
    (hTolerance : 0 ≤ tolerance ∧ tolerance ≤ 10000)
    {lo s hi : Int}
    (hLo : 0 ≤ lo)
    (hFrom : lo ≤ s)
    (hTo : s ≤ hi) :
    vaultAskBaseOf series s tolerance ≤
      max (vaultAskBaseOf series lo tolerance)
        (vaultAskBaseOf series hi tolerance) := by
  have hs : 0 ≤ s := hLo.trans hFrom
  rcases vaultAskBaseOf_valley series hTolerance with
    ⟨falling, hValley⟩
  rw [vaultAskBaseOf_eq hTolerance.1 hLo,
    vaultAskBaseOf_eq hTolerance.1 hs,
    vaultAskBaseOf_eq hTolerance.1 (hs.trans hTo)]
  exact hValley.le_max_ends hLo hs (hs.trans hTo) hFrom hTo

end

----
-- The Rise
----

section

variable {input : SpotLagInput} {vf : VaultFloor}

theorem cushionBps_range
    (input : SpotLagInput) :
    0 ≤ input.cushionBps ∧ input.cushionBps ≤ 9999 := by
  unfold SpotLagInput.cushionBps bps
  split
  · omega
  · omega

theorem low_pos
    (h : 0 < input.spot) :
    0 < input.low := by
  have hOther : 0 < input.other := by
    unfold SpotLagInput.other
    cases input.fairSpot with
    | none => exact h
    | some spot =>
        simp only
        split
        · assumption
        · exact h
  unfold SpotLagInput.low
  split
  · exact hOther
  · exact h

theorem lo_nonneg
    (h : 0 < input.spot) :
    0 ≤ input.lo := by
  have hCushion := (cushionBps_range input).2
  unfold SpotLagInput.lo downBy
  apply TruncDiv.tdiv_nonneg _ bps_pos
  apply mul_nonneg (low_pos h).le
  unfold bps
  omega

/- The rise is that of the worse end, or none. -/
theorem le_vaultRise
    (hFloor : input.vaultFloor = some vf) :
    0 ≤ input.vaultRise ∧
      ∀ s, s = input.hi ∨ s = input.lo →
        vaultAskBaseOf input.series.toOptionTerms s
              vf.askToleranceBps -
            vaultAskBaseOf input.series.toOptionTerms
              input.spot vf.askToleranceBps ≤
          input.vaultRise := by
  unfold SpotLagInput.vaultRise
  simp only [hFloor, List.foldl_cons, List.foldl_nil]
  constructor
  · split_ifs <;> omega
  · rintro s (rfl | rfl)
    · split_ifs <;> omega
    · split_ifs <;> omega

/- Anywhere in the horizon the base rises by no more. -/
theorem vaultAskBaseOf_le_rise
    (hSpot : 0 < input.spot)
    (hFloor : input.vaultFloor = some vf)
    (hTolerance :
      0 ≤ vf.askToleranceBps ∧ vf.askToleranceBps ≤ 10000)
    {s : Int}
    (hFrom : input.lo ≤ s)
    (hTo : s ≤ input.hi) :
    vaultAskBaseOf input.series.toOptionTerms s
          vf.askToleranceBps -
        vaultAskBaseOf input.series.toOptionTerms input.spot
          vf.askToleranceBps ≤
      input.vaultRise := by
  have hEnds :=
    vaultAskBaseOf_le_ends input.series.toOptionTerms
      hTolerance (lo_nonneg hSpot) hFrom hTo
  have hRise := (le_vaultRise hFloor).2
  have hHi := hRise input.hi (.inl rfl)
  have hLo := hRise input.lo (.inr rfl)
  rcases le_max_iff.mp hEnds with hLess | hLess
  · omega
  · omega

end

----
-- The Cushion
----

/- MakerVault._askFloor: the base with the seller fee on it. -/
def vaultAskFloor
    (base feeBps : Int) : Int :=
  ⌈((base * 10000 : Int) : ℚ) / ((10000 - feeBps : Int) : ℚ)⌉

theorem vaultAskFloor_le_iff
    {base feeBps price : Int}
    (hFee : feeBps ≤ 9999) :
    vaultAskFloor base feeBps ≤ price ↔
      base * 10000 ≤ price * (10000 - feeBps) := by
  unfold vaultAskFloor
  exact TruncDiv.ceil_div_le_iff (by omega)

variable {input : SpotLagInput} {vf : VaultFloor}

/-
  The floor of a base that rose is under the read floor and
  the rise grossed up apart, at a rate at least as high.
-/
theorem vaultAheadOf_covers
    {base risen fee quoted read : Int}
    (hFee : 0 ≤ fee)
    (hQuoted : fee ≤ quoted)
    (hMost : quoted ≤ 9999)
    (hNonneg : 0 ≤ input.vaultRise)
    (hRise : risen - base ≤ input.vaultRise)
    (hRead : read = vaultAskFloor base fee) :
    vaultAskFloor risen fee ≤
      vaultAheadOf input quoted read := by
  have hBase : base * 10000 ≤ read * (10000 - fee) :=
    (vaultAskFloor_le_iff (hQuoted.trans hMost)).mp
      hRead.symm.le
  have hGross :
      input.vaultRise * 10000 ≤
        (if input.vaultRise = 0 then 0
          else (grossUpToTick input.vaultRise quoted).price) *
          (10000 - fee) := by
    split
    · next hNone =>
        rw [hNone]
        omega
    · exact
        le_netPerShare_iff.mp
          (le_netPerShare_of_gross hNonneg hFee hQuoted hMost
            (le_refl _))
  have hSum :
      risen * 10000 ≤
        (read +
          (if input.vaultRise = 0 then 0
            else
              (grossUpToTick input.vaultRise quoted).price)) *
          (10000 - fee) := by
    rw [add_mul]
    omega
  unfold vaultAheadOf
  exact
    ((vaultAskFloor_le_iff (hQuoted.trans hMost)).mpr
      hSum).trans (le_roundUpToTick _)

theorem vaultAheadOf_le_askAheadOf
    (input : SpotLagInput)
    (netAhead read : Int)
    (kind : OrderKindName) :
    vaultAheadOf input (quoteFeeBpsOf kind input.fees) read ≤
      askAheadOf input netAhead kind (some read) := by
  unfold askAheadOf
  simp only
  split
  · exact le_refl _
  · next hNot => exact not_lt.mp hNot

/-
  A slot whose read floor is the vault's at the fee in effect
  is covered over the whole horizon.
-/
def SlotCovered
    (input : SpotLagInput)
    (vf : VaultFloor)
    (kind : OrderKindName)
    (read ahead : Int) : Prop :=
  priceTick ∣ ahead ∧
    ∀ fee, 0 ≤ fee → fee ≤ quoteFeeBpsOf kind input.fees →
      quoteFeeBpsOf kind input.fees ≤ 9999 →
      read =
        vaultAskFloor
          (vaultAskBaseOf input.series.toOptionTerms input.spot
            vf.askToleranceBps)
          fee →
      ∀ s, input.lo ≤ s → s ≤ input.hi →
        vaultAskFloor
            (vaultAskBaseOf input.series.toOptionTerms s
              vf.askToleranceBps)
            fee ≤ ahead

theorem askAheadOf_covers
    (hSpot : 0 < input.spot)
    (hFloor : input.vaultFloor = some vf)
    (hTolerance :
      0 ≤ vf.askToleranceBps ∧ vf.askToleranceBps ≤ 10000)
    (netAhead read : Int)
    (kind : OrderKindName) :
    SlotCovered input vf kind read
      (askAheadOf input netAhead kind (some read)) := by
  refine ⟨askAheadOf_dvd _ _ _ _, ?_⟩
  intro fee hFee hQuoted hMost hRead s hFrom hTo
  have hRise :=
    vaultAskBaseOf_le_rise hSpot hFloor hTolerance hFrom hTo
  have hVault :=
    vaultAheadOf_covers hFee hQuoted hMost
      (le_vaultRise hFloor).1 hRise hRead
  exact
    hVault.trans
      (vaultAheadOf_le_askAheadOf input netAhead read kind)

/-
  At every spot of the horizon the base rose by no more than
  `vaultRise`, and each slot's `askAhead` is over its floor.
-/
theorem askAhead_covers
    {lag : SpotLag}
    (hLag : spotLagOf input = some lag)
    (hFloor : input.vaultFloor = some vf)
    (hTolerance :
      0 ≤ vf.askToleranceBps ∧ vf.askToleranceBps ≤ 10000) :
    (∀ s, input.lo ≤ s → s ≤ input.hi →
      vaultAskBaseOf input.series.toOptionTerms s
            vf.askToleranceBps -
          vaultAskBaseOf input.series.toOptionTerms input.spot
            vf.askToleranceBps ≤
        input.vaultRise) ∧
      SlotCovered input vf .AskWrite vf.askFloors.write
        lag.askAhead.write ∧
      SlotCovered input vf .AskResale vf.askFloors.resale
        lag.askAhead.resale := by
  rcases spotLagOf_eq_some hLag with
    ⟨hSpot, ask, bid, bidAhead, askAhead, rfl⟩
  refine
    ⟨fun s hFrom hTo =>
      vaultAskBaseOf_le_rise hSpot hFloor hTolerance hFrom hTo,
      ?_, ?_⟩
  · unfold lagRecord
    simp only [hFloor, Option.map_some]
    exact askAheadOf_covers hSpot hFloor hTolerance _ _ _
  · unfold lagRecord
    simp only [hFloor, Option.map_some]
    exact askAheadOf_covers hSpot hFloor hTolerance _ _ _

/- A put in the money between two prints, at a fee of 5 %. -/
def cushionPut : SpotLagInput :=
  { now := 0
    series :=
      { isPut := true, strike := 200000000, expiry := 86400 }
    fairSpot := some 180200000
    figures :=
      { usableVol := true
        priceAt := fun spot time =>
          if spot = 179299000 ∧ time = 0 then
            some { floor := 20701072, ceil := 20701073 }
          else if spot = 181905000 ∧ time = 0 then
            some { floor := 18095578, ceil := 18095579 }
          else if spot = 182323382 ∧ time = 52350 then
            some { floor := 17677373, ceil := 17677374 }
          else if spot = 178886612 ∧ time = 0 then
            some { floor := 21113438, ceil := 21113439 }
          else none
        sigmaBps := fun _ _ => 23 }
    spot := 181000000
    spotUpdatedAt := some (-100)
    oracleBandBps := some 150
    fees := ⟨⟨500, 0⟩, some ⟨⟨300, 700⟩, 3600⟩⟩
    params := { spotLagBps := 50, spotLagStaleBps := 150 }
    bidAt := some 52350
    vaultFloor :=
      some
        { askFloors := { write := 19047369, resale := 18095000 }
          askToleranceBps := 100 } }

/- Its write floor at the lowest spot of the horizon. -/
theorem cushionPut_covered :
    ∃ lag,
      spotLagOf cushionPut = some lag ∧
        vaultAskFloor
            (vaultAskBaseOf
              cushionPut.series.toOptionTerms 179785540 100)
            500 ≤ lag.askAhead.write := by
  refine ⟨_, rfl, ?_⟩
  have hCovers :=
    @askAhead_covers cushionPut
      { askFloors := { write := 19047369, resale := 18095000 }
        askToleranceBps := 100 } _ rfl rfl
      ⟨by decide, by decide⟩
  exact
    hCovers.2.1.2 500 (by decide) (by decide) (by decide)
      (by decide +kernel) 179785540 (by decide) (by decide)

end Callhouse.Keeper.Mm
