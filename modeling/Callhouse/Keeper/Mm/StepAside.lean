import Callhouse.Keeper.Mm.Planner
import Callhouse.Keeper.Mm.SpotLag
import Callhouse.Lib.OrderedMap
import Callhouse.Lib.RankedRounds

/-
  keeper/src/v2/mm/planner.ts and quoter.ts, the fallback
  rule: a vault takes its ask off a series while another
  maker's ask fills there, and the bot's own vaults are
  ranked so that only the lower of two gives way.

  Main declarations:
    * `stepAsideAsks`, `siblingRanks`, `siblingAskers`
    * `SiblingBook.nextAsk`, `SiblingBook.asksAfter`
    * `stepsAside_iff`, `nextAsk_settles`
    * `siblings_settle`
-/

----
-- Stepping Aside
----

namespace Callhouse.Keeper.Mm

/- The smallest fillable size that counts: one whole share. -/
def stepAsideMinUnits : Int := unitsPerShare

structure QualifiedAsk extends OtherAskInput where
  fillable : Int
deriving DecidableEq

/- At or under the bot's ask, or a sibling's in its band. -/
def priceQualifies
    (ask : OtherAskInput)
    (botAsk siblingBandBps : Int) : Bool :=
  decide (ask.price ≤ botAsk) ||
    (decide (ask.sibling = some true) &&
      !exceedsBps (moveBps ask.price botAsk) siblingBandBps)

def stepAsideAsks
    (asks : List OtherAskInput)
    (botAsk : Option Int)
    (series : FillableSeries)
    (now : Int)
    (mintPaused : Bool)
    (minUnits siblingBandBps : Int) : List QualifiedAsk :=
  match botAsk with
  | none => []
  | some botAsk =>
      (asks.map (fun ask =>
        ({ ask with
          fillable := fillableUnits ask series now mintPaused } :
          QualifiedAsk))).filter
        (fun ask =>
          decide (ask.fillable ≥ minUnits) &&
            priceQualifies ask.toOtherAskInput botAsk
              siblingBandBps)

----
-- Own Vaults
----

inductive VaultKind where
  | treasury
  | house
deriving DecidableEq

structure VaultTarget where
  address : String
  kind : VaultKind
deriving DecidableEq

structure SiblingRank where
  above : List String
  below : List String
deriving DecidableEq

/- House vaults first, and within a kind the targets' order. -/
def rankedVaults
    (targets : List VaultTarget) : List String :=
  (targets.filter (fun t => t.kind = .house) ++
    targets.filter (fun t => t.kind ≠ .house)).map
      (fun t => lc t.address)

def siblingRanks
    (targets : List VaultTarget) :
    OrderedMap String SiblingRank :=
  let ranked := rankedVaults targets
  OrderedMap.empty.setAll
    (ranked.mapIdx (fun i vault =>
      (vault,
        { above := ranked.take i
          below := ranked.drop (i + 1) })))

/- One series' list; what is left out was read only in part. -/
def siblingAskers
    (asks : List OtherAskInput)
    (rank : SiblingRank) : List OtherAskInput :=
  (asks.filter (fun o => lc o.maker ∉ rank.below)).map
    (fun o =>
      if lc o.maker ∈ rank.above then
        { o with sibling := some true }
      else o)

/- reads.ts: the live asks of every other maker. -/
def readOtherAskers
    (asks : List OtherAskInput)
    (vault : String) : List OtherAskInput :=
  (asks.filter (fun o => lc o.maker ≠ lc vault)).map
    (fun o => { o with maker := lc o.maker })

----
-- A Series of Own Vaults
----

section

/- An own vault with the ask it would quote every tick. -/
structure OwnAsker where
  vault : VaultTarget
  id : Int
  target : SlotTarget
  makerFree : Option Int
  askFloors : AskFloors
  bidCap : Int
  safeFloor : Option Int
  params : RequoteParams

def OwnAsker.key
    (v : OwnAsker) : String :=
  lc v.vault.address

/- Its ask at `price`, as the others read it. -/
def OwnAsker.ask
    (v : OwnAsker)
    (price : Int) : OtherAskInput :=
  { id := v.id
    maker := v.vault.address
    kind := .AskWrite
    price := price
    remaining := v.target.units
    makerFree := v.makerFree
    sibling := none }

/- Its ask at `price`, as it reads it itself. -/
def OwnAsker.order
    (v : OwnAsker)
    (price validUntil : Int) : LiveOrder :=
  { id := v.id
    kind := .AskWrite
    price := price
    units := v.target.units
    filled := 0
    validUntil := validUntil
    cancelled := false }

/-
  Constant asks of outside makers; the head's time, and
  whether the mint is paused, at each tick.
-/
structure SiblingBook where
  vaults : List OwnAsker
  outside : List OtherAskInput
  series : FillableSeries
  now : Nat → Int
  mintPaused : Nat → Bool
  validUntil : Int

/- The prices of the own asks that rest, by vault. -/
abbrev RestingAsks :=
  String → Option Int

namespace SiblingBook

variable (b : SiblingBook)

def targets : List VaultTarget :=
  b.vaults.map OwnAsker.vault

/- Every ask that rests on the series. -/
def book
    (asks : RestingAsks) : List OtherAskInput :=
  b.outside ++
    b.vaults.filterMap (fun v => (asks v.key).map v.ask)

/- What the vault is handed at the tick's start. -/
def seenBy
    (v : OwnAsker)
    (asks : RestingAsks) : List OtherAskInput :=
  let read := readOtherAskers (b.book asks) v.vault.address
  match (siblingRanks b.targets).get? v.key with
  | none => read
  | some rank => siblingAskers read rank

def stepAside
    (t : Nat)
    (v : OwnAsker)
    (asks : RestingAsks) : List QualifiedAsk :=
  stepAsideAsks (b.seenBy v asks) (some v.target.price)
    b.series (b.now t) (b.mintPaused t) stepAsideMinUnits
    v.params.requoteBps

/-
  The ask the vault has after tick `t`: no target while it
  steps aside, else one placed, kept or replaced.
-/
def nextAsk
    (t : Nat)
    (v : OwnAsker)
    (asks : RestingAsks) : Option Int :=
  if b.stepAside t v asks ≠ [] then none
  else
    match asks v.key with
    | none => some v.target.price
    | some price =>
        let judgement :=
          judgeReplace
            { order := v.order price b.validUntil
              target := v.target
              slot := .write
              askFloors := v.askFloors
              bidCap := v.bidCap
              safeFloor := v.safeFloor
              params := v.params }
        if judgement.replace then some v.target.price
        else some price

/- Every vault acts on the asks at the tick's start. -/
def tick
    (t : Nat)
    (asks : RestingAsks) : RestingAsks :=
  fun key =>
    match b.vaults.find? (fun v => v.key = key) with
    | none => asks key
    | some v => b.nextAsk t v asks

def asksAfter
    (start : RestingAsks)
    (ticks : Nat) : RestingAsks :=
  RankedRounds.run b.tick start ticks

/- The place of a vault among the bot's own. -/
def rankOf
    (key : String) : Nat :=
  (rankedVaults b.targets).idxOf key

end SiblingBook

end

----
-- Ranks
----

section

theorem rankedVaults_perm
    (targets : List VaultTarget) :
    (rankedVaults targets).Perm
      (targets.map (fun t => lc t.address)) := by
  have hOther :
      targets.filter (fun t => t.kind ≠ .house) =
        targets.filter (fun t => !decide (t.kind = .house)) := by
    apply List.filter_congr
    intro t _
    exact decide_not
  unfold rankedVaults
  rw [hOther]
  exact (List.filter_append_perm _ targets).map _

/- A vault's rank lists those before it and those after. -/
theorem siblingRanks_get?
    {targets : List VaultTarget}
    (hDistinct : (targets.map (fun t => lc t.address)).Nodup)
    {vault : String}
    (hVault : vault ∈ rankedVaults targets) :
    (siblingRanks targets).get? vault =
      some
        { above :=
            (rankedVaults targets).take
              ((rankedVaults targets).idxOf vault)
          below :=
            (rankedVaults targets).drop
              ((rankedVaults targets).idxOf vault + 1) } := by
  have hNodup : (rankedVaults targets).Nodup :=
    (rankedVaults_perm targets).nodup_iff.mpr hDistinct
  have hEntries :
      (siblingRanks targets).entries =
        (rankedVaults targets).mapIdx (fun i vault =>
          (vault,
            ({ above := (rankedVaults targets).take i
               below :=
                 (rankedVaults targets).drop (i + 1) } :
              SiblingRank))) := by
    have hKeys :
        ((rankedVaults targets).mapIdx (fun i vault =>
          (vault,
            ({ above := (rankedVaults targets).take i
               below :=
                 (rankedVaults targets).drop (i + 1) } :
              SiblingRank)))).map Prod.fst =
          rankedVaults targets :=
      List.ext_getElem (by simp) (by simp)
    unfold siblingRanks
    simp only
    rw [OrderedMap.entries_setAll OrderedMap.empty
      (hKeys.symm ▸ hNodup) (fun _ _ => rfl)]
    rfl
  have hIndex :
      (rankedVaults targets).idxOf vault <
        (rankedVaults targets).length :=
    List.idxOf_lt_length_of_mem hVault
  rw [← OrderedMap.mem_entries_iff, hEntries]
  refine List.mem_mapIdx.mpr
    ⟨(rankedVaults targets).idxOf vault, hIndex, ?_⟩
  rw [List.getElem_idxOf]

variable {b : SiblingBook}

theorem key_mem_ranked
    {v : OwnAsker}
    (hv : v ∈ b.vaults) :
    v.key ∈ rankedVaults b.targets := by
  rw [(rankedVaults_perm b.targets).mem_iff]
  exact
    List.mem_map.mpr
      ⟨v.vault, List.mem_map_of_mem hv, rfl⟩

theorem mem_above_iff
    {key : String}
    (hKey : key ∈ rankedVaults b.targets)
    (i : Nat) :
    key ∈ (rankedVaults b.targets).take i ↔ b.rankOf key < i :=
  List.mem_take_iff_idxOf_lt hKey

theorem mem_below_iff
    (hNodup : (rankedVaults b.targets).Nodup)
    {key : String}
    (hKey : key ∈ rankedVaults b.targets)
    (i : Nat) :
    key ∈ (rankedVaults b.targets).drop i ↔
      i ≤ b.rankOf key := by
  have hSplit :
      key ∈ (rankedVaults b.targets).take i ∨
        key ∈ (rankedVaults b.targets).drop i := by
    rw [← List.mem_append, List.take_append_drop]
    exact hKey
  have hApart := List.disjoint_take_drop hNodup (le_refl i)
  have hAbove := mem_above_iff hKey i
  constructor
  · intro hDrop
    by_contra hLess
    exact hApart (hAbove.mpr (not_le.mp hLess)) hDrop
  · intro hLate
    exact
      hSplit.resolve_left
        (fun hTake => not_lt.mpr hLate (hAbove.mp hTake))

end

----
-- Whom a Vault Steps Aside For
----

section

/-
  Distinct own vaults with steady targets over their floors
  and fillable asks, among steady asks of other makers.
-/
structure SiblingBook.Steady
    (b : SiblingBook) : Prop where
  distinct : (b.vaults.map OwnAsker.key).Nodup
  outsiders :
    ∀ a ∈ b.outside, ∀ v ∈ b.vaults, lc a.maker ≠ v.key
  unmarked : ∀ a ∈ b.outside, a.sibling = none
  outside_fill :
    ∀ a ∈ b.outside, ∀ t t',
      fillableUnits a b.series (b.now t) (b.mintPaused t) =
        fillableUnits a b.series (b.now t') (b.mintPaused t')
  own_fill :
    ∀ v ∈ b.vaults, ∀ t price,
      stepAsideMinUnits ≤
        fillableUnits (v.ask price) b.series (b.now t)
          (b.mintPaused t)
  priced : ∀ v ∈ b.vaults, 0 < v.target.price
  floors :
    ∀ v ∈ b.vaults,
      v.askFloors.write ≤ v.target.price ∧
        ∀ floor, v.safeFloor = some floor →
          floor ≤ v.target.price
  params : ∀ v ∈ b.vaults, v.params.InRange

/- An outside ask that the vault gives way to. -/
def SiblingBook.OutsideQualifies
    (b : SiblingBook)
    (t : Nat)
    (v : OwnAsker)
    (a : OtherAskInput) : Prop :=
  stepAsideMinUnits ≤
      fillableUnits a b.series (b.now t) (b.mintPaused t) ∧
    a.price ≤ v.target.price

/- A higher vault's resting price that the vault gives way to. -/
def OwnAsker.InBand
    (v : OwnAsker)
    (price : Int) : Prop :=
  price ≤ v.target.price ∨
    ∃ moved, moveBps price v.target.price = some moved ∧
      moved ≤ v.params.requoteBps

theorem priceQualifies_sibling
    (v : OwnAsker)
    {ask : OtherAskInput}
    (h : ask.sibling = some true) :
    priceQualifies ask v.target.price v.params.requoteBps =
        true ↔
      v.InBand ask.price := by
  unfold priceQualifies OwnAsker.InBand exceedsBps
  rw [h]
  cases moveBps ask.price v.target.price with
  | none => simp
  | some moved => simp

theorem priceQualifies_outside
    {ask : OtherAskInput}
    (h : ask.sibling = none)
    (botAsk siblingBandBps : Int) :
    priceQualifies ask botAsk siblingBandBps = true ↔
      ask.price ≤ botAsk := by
  unfold priceQualifies
  rw [h]
  simp

theorem stepAsideAsks_ne_nil
    (asks : List OtherAskInput)
    (botAsk : Int)
    (series : FillableSeries)
    (now : Int)
    (mintPaused : Bool)
    (minUnits band : Int) :
    stepAsideAsks asks (some botAsk) series now mintPaused
        minUnits band ≠ [] ↔
      ∃ ask ∈ asks,
        minUnits ≤ fillableUnits ask series now mintPaused ∧
          priceQualifies ask botAsk band = true := by
  unfold stepAsideAsks
  simp only [ne_eq, List.filter_eq_nil_iff, List.mem_map,
    forall_exists_index, and_imp, forall_apply_eq_imp_iff₂,
    Bool.and_eq_true, decide_eq_true_eq, not_forall, not_not,
    exists_prop, ge_iff_le]

variable {b : SiblingBook}

theorem SiblingBook.Steady.ranked_nodup
    (h : b.Steady) :
    (rankedVaults b.targets).Nodup := by
  rw [(rankedVaults_perm b.targets).nodup_iff]
  have hDistinct := h.distinct
  unfold SiblingBook.targets
  rw [List.map_map]
  exact hDistinct

/- Who rests the asks of the book. -/
theorem mem_book_iff
    (asks : RestingAsks)
    (o : OtherAskInput) :
    o ∈ b.book asks ↔
      o ∈ b.outside ∨
        ∃ w ∈ b.vaults, ∃ price,
          asks w.key = some price ∧ o = w.ask price := by
  unfold SiblingBook.book
  simp only [List.mem_append, List.mem_filterMap,
    Option.map_eq_some_iff]
  constructor
  · rintro (hOut | ⟨w, hw, price, hPrice, rfl⟩)
    · exact .inl hOut
    · exact .inr ⟨w, hw, price, hPrice, rfl⟩
  · rintro (hOut | ⟨w, hw, price, hPrice, rfl⟩)
    · exact .inl hOut
    · exact .inr ⟨w, hw, price, hPrice, rfl⟩

/- An outside ask is filed under no vault of the book. -/
theorem outside_unranked
    (h : b.Steady)
    {a : OtherAskInput}
    (ha : a ∈ b.outside) :
    lc a.maker ∉ rankedVaults b.targets := by
  intro hMem
  rw [(rankedVaults_perm b.targets).mem_iff] at hMem
  rcases List.mem_map.mp hMem with ⟨target, hTarget, hSame⟩
  rcases List.mem_map.mp hTarget with ⟨w, hw, rfl⟩
  exact h.outsiders a ha w hw hSame.symm

/- Asks of outsiders as they are, and those ranked above. -/
theorem mem_seenBy_iff
    (h : b.Steady)
    {v : OwnAsker}
    (hv : v ∈ b.vaults)
    (asks : RestingAsks)
    (o : OtherAskInput) :
    o ∈ b.seenBy v asks ↔
      (∃ a ∈ b.outside, o = { a with maker := lc a.maker }) ∨
        ∃ w ∈ b.vaults, b.rankOf w.key < b.rankOf v.key ∧
          ∃ price, asks w.key = some price ∧
            o =
              { w.ask price with
                maker := w.key
                sibling := some true } := by
  have hNodup := h.ranked_nodup
  have hDistinct :
      (b.targets.map (fun t => lc t.address)).Nodup :=
    (rankedVaults_perm b.targets).nodup_iff.mp hNodup
  have hRank := siblingRanks_get? hDistinct (key_mem_ranked hv)
  unfold SiblingBook.seenBy
  simp only [hRank]
  unfold siblingAskers readOtherAskers
  simp only [List.mem_map, List.mem_filter, decide_eq_true_eq]
  constructor
  · rintro ⟨_, ⟨⟨raw, ⟨hRaw, hOther⟩, rfl⟩, hBelow⟩, rfl⟩
    simp only [lc_lc] at hBelow ⊢
    rcases (mem_book_iff asks raw).mp hRaw with
      hOut | ⟨w, hw, price, hPrice, rfl⟩
    · refine .inl ⟨raw, hOut, ?_⟩
      rw [if_neg
        (fun hAbove =>
          outside_unranked h hOut (List.mem_of_mem_take hAbove))]
    · have hKey := key_mem_ranked hw
      have hNot := mt (mem_below_iff hNodup hKey _).mpr hBelow
      have hNotSame : b.rankOf w.key ≠ b.rankOf v.key := by
        intro hSame
        exact hOther ((List.idxOf_inj hKey).mp hSame)
      have hLess : b.rankOf w.key < b.rankOf v.key := by
        unfold SiblingBook.rankOf at hNot hNotSame ⊢
        omega
      refine .inr ⟨w, hw, hLess, price, hPrice, ?_⟩
      exact if_pos ((mem_above_iff hKey _).mpr hLess)
  · rintro (⟨a, ha, rfl⟩ | ⟨w, hw, hLess, price, hPrice, rfl⟩)
    · refine
        ⟨_, ⟨⟨a, ⟨(mem_book_iff asks a).mpr (.inl ha),
          h.outsiders a ha v hv⟩, rfl⟩, ?_⟩, ?_⟩
      · rw [lc_lc]
        exact fun hBelow =>
          outside_unranked h ha (List.mem_of_mem_drop hBelow)
      · rw [lc_lc]
        exact
          if_neg
            (fun hAbove =>
              outside_unranked h ha (List.mem_of_mem_take hAbove))
    · have hKey := key_mem_ranked hw
      refine
        ⟨_, ⟨⟨w.ask price,
          ⟨(mem_book_iff asks _).mpr
            (.inr ⟨w, hw, price, hPrice, rfl⟩), ?_⟩,
          rfl⟩, ?_⟩, ?_⟩
      · intro hSame
        exact
          absurd (congrArg b.rankOf hSame) (Nat.ne_of_lt hLess)
      · rw [lc_lc]
        intro hBelow
        have hLate := (mem_below_iff hNodup hKey _).mp hBelow
        unfold SiblingBook.rankOf at hLate hLess
        omega
      · rw [lc_lc]
        exact if_pos ((mem_above_iff hKey _).mpr hLess)

end

----
-- One Vault Settles
----

section

variable {b : SiblingBook} {v : OwnAsker}

/- For an outside ask, or for a vault ranked above it. -/
theorem stepsAside_iff
    (h : b.Steady)
    (t : Nat)
    (hv : v ∈ b.vaults)
    (asks : RestingAsks) :
    b.stepAside t v asks ≠ [] ↔
      (∃ a ∈ b.outside, b.OutsideQualifies t v a) ∨
        ∃ w ∈ b.vaults, b.rankOf w.key < b.rankOf v.key ∧
          ∃ price, asks w.key = some price ∧
            v.InBand price := by
  unfold SiblingBook.stepAside
  rw [stepAsideAsks_ne_nil]
  constructor
  · rintro ⟨o, ho, hFill, hPrice⟩
    rcases (mem_seenBy_iff h hv asks o).mp ho with
      ⟨a, ha, rfl⟩ | ⟨w, hw, hLess, price, hRests, rfl⟩
    · have hUnder :=
        (priceQualifies_outside (h.unmarked a ha) _ _).mp hPrice
      exact .inl ⟨a, ha, hFill, hUnder⟩
    · rw [priceQualifies_sibling v rfl] at hPrice
      exact .inr ⟨w, hw, hLess, price, hRests, hPrice⟩
  · rintro (⟨a, ha, hFill, hPrice⟩ |
      ⟨w, hw, hLess, price, hRests, hBand⟩)
    · refine
        ⟨{ a with maker := lc a.maker },
          (mem_seenBy_iff h hv asks _).mpr (.inl ⟨a, ha, rfl⟩),
          hFill, ?_⟩
      exact
        (priceQualifies_outside (h.unmarked a ha) _ _).mpr hPrice
    · refine
        ⟨_,
          (mem_seenBy_iff h hv asks _).mpr
            (.inr ⟨w, hw, hLess, price, hRests, rfl⟩),
          h.own_fill w hw t price, ?_⟩
      rw [priceQualifies_sibling v rfl]
      exact hBand

/- It depends on the asks ranked above only, and on no time. -/
theorem stepsAside_congr
    (h : b.Steady)
    (t t' : Nat)
    (hv : v ∈ b.vaults)
    {asks asks' : RestingAsks}
    (hAbove :
      ∀ w ∈ b.vaults, b.rankOf w.key < b.rankOf v.key →
        asks w.key = asks' w.key) :
    b.stepAside t v asks ≠ [] ↔ b.stepAside t' v asks' ≠ [] := by
  rw [stepsAside_iff h t hv, stepsAside_iff h t' hv]
  refine or_congr ?_ ?_
  · refine exists_congr fun a => and_congr_right fun ha => ?_
    unfold SiblingBook.OutsideQualifies
    rw [h.outside_fill a ha t t']
  · refine
      exists_congr fun w => and_congr_right fun hw =>
        and_congr_right fun hLess => ?_
    rw [hAbove w hw hLess]

/- Whether the vault's own ask at `price` must move. -/
def SiblingBook.replaces
    (b : SiblingBook)
    (v : OwnAsker)
    (price : Int) : Bool :=
  (judgeReplace
    { order := v.order price b.validUntil
      target := v.target
      slot := .write
      askFloors := v.askFloors
      bidCap := v.bidCap
      safeFloor := v.safeFloor
      params := v.params }).replace

/- An ask at its target stays. -/
theorem replaces_target
    (h : b.Steady)
    (hv : v ∈ b.vaults) :
    b.replaces v v.target.price = false := by
  have hFloors := h.floors v hv
  have hUnits : 0 ≤ v.target.units := by
    have hFill := h.own_fill v hv 0 0
    unfold fillableUnits at hFill
    by_contra hNeg
    have hNone : (v.ask 0).remaining ≤ 0 := (not_le.mp hNeg).le
    rw [if_pos hNone] at hFill
    exact absurd hFill (by decide)
  unfold SiblingBook.replaces
  refine
    judgeReplace_self ?_ (h.params v hv) (h.priced v hv) hUnits
      rfl (sub_zero v.target.units)
  unfold brokenGuard OwnAsker.order
  simp only [reduceCtorEq, if_false]
  rw [if_neg (not_lt.mpr hFloors.1)]
  cases hSafe : v.safeFloor with
  | none => rfl
  | some floor => exact if_neg (not_lt.mpr (hFloors.2 floor hSafe))

theorem nextAsk_eq
    (t : Nat)
    (v : OwnAsker)
    (asks : RestingAsks) :
    b.nextAsk t v asks =
      if b.stepAside t v asks ≠ [] then none
      else
        match asks v.key with
        | none => some v.target.price
        | some price =>
            if b.replaces v price then some v.target.price
            else some price :=
  rfl

/-
  Once it acted, a vault's ask stays for as long as the asks
  above it do: it is off, at its target, or in its band.
-/
theorem nextAsk_settles
    (h : b.Steady)
    (t t' : Nat)
    (hv : v ∈ b.vaults)
    {asks asks' : RestingAsks}
    (hAbove :
      ∀ w ∈ b.vaults, b.rankOf w.key < b.rankOf v.key →
        asks w.key = asks' w.key)
    (hActed : asks' v.key = b.nextAsk t v asks) :
    b.nextAsk t' v asks' = asks' v.key := by
  have hSame := stepsAside_congr h t t' hv hAbove
  rw [nextAsk_eq] at hActed
  rw [nextAsk_eq]
  by_cases hAside : b.stepAside t v asks ≠ []
  · rw [if_pos hAside] at hActed
    rw [if_pos (hSame.mp hAside), hActed]
  · rw [if_neg hAside] at hActed
    rw [if_neg (mt hSame.mpr hAside)]
    have hTarget := replaces_target h hv
    cases hOwn : asks v.key with
    | none =>
        rw [hOwn] at hActed
        simp only at hActed
        rw [hActed]
        simp [hTarget]
    | some price =>
        rw [hOwn] at hActed
        simp only at hActed
        by_cases hMoved : b.replaces v price = true
        · rw [if_pos hMoved] at hActed
          rw [hActed]
          simp [hTarget]
        · rw [if_neg hMoved] at hActed
          rw [hActed]
          simp [hMoved]

end

----
-- The Series Settles
----

variable {b : SiblingBook} {v : OwnAsker}

theorem find?_key
    (h : b.Steady)
    (hv : v ∈ b.vaults) :
    b.vaults.find? (fun w => w.key = v.key) = some v := by
  cases hFind : b.vaults.find? (fun w => w.key = v.key) with
  | none =>
      have hNone := List.find?_eq_none.mp hFind v hv
      simp at hNone
  | some w =>
      have hKey : w.key = v.key := by
        simpa using List.find?_some hFind
      have hw := List.mem_of_find?_eq_some hFind
      exact
        congrArg some
          (List.inj_on_of_nodup_map h.distinct hw hv hKey)

theorem tick_key
    (h : b.Steady)
    (t : Nat)
    (hv : v ∈ b.vaults)
    (asks : RestingAsks) :
    b.tick t asks v.key = b.nextAsk t v asks := by
  unfold SiblingBook.tick
  rw [find?_key h hv]

theorem tick_settles
    (h : b.Steady) :
    RankedRounds.Settles b.tick
      { key | ∃ v ∈ b.vaults, v.key = key } b.rankOf := by
  rintro _ ⟨v, hv, rfl⟩ t t' asks asks' hAbove hActed
  rw [tick_key h t hv] at hActed
  rw [tick_key h t' hv]
  exact
    nextAsk_settles h t t' hv
      (fun w hw hLess => hAbove w.key ⟨w, hw, rfl⟩ hLess)
      hActed

theorem rankOf_lt
    (hv : v ∈ b.vaults) :
    b.rankOf v.key < b.vaults.length := by
  have hLength :
      (rankedVaults b.targets).length = b.vaults.length := by
    rw [(rankedVaults_perm b.targets).length_eq]
    simp [SiblingBook.targets]
  rw [← hLength]
  exact List.idxOf_lt_length_of_mem (key_mem_ranked hv)

/- A tick more changes nothing: every ask is its own next. -/
theorem asksAfter_fixed
    (h : b.Steady)
    (start : RestingAsks)
    (hv : v ∈ b.vaults) :
    b.nextAsk b.vaults.length v
        (b.asksAfter start b.vaults.length) =
      b.asksAfter start b.vaults.length v.key := by
  rw [← tick_key h _ hv]
  exact
    (tick_settles h).run_eq start b.vaults.length v.key
      ⟨v, hv, rfl⟩ (rankOf_lt hv) (b.vaults.length + 1)
      (Nat.le_succ _)

/- `w` is among those that siblingRanks puts above `v`. -/
def SiblingBook.RankedAbove
    (b : SiblingBook)
    (w v : OwnAsker) : Prop :=
  ∃ rank,
    (siblingRanks b.targets).get? v.key = some rank ∧
      w.key ∈ rank.above

theorem rankedAbove_iff
    (h : b.Steady)
    {w : OwnAsker}
    (hv : v ∈ b.vaults)
    (hw : w ∈ b.vaults) :
    b.RankedAbove w v ↔ b.rankOf w.key < b.rankOf v.key := by
  have hDistinct :
      (b.targets.map (fun t => lc t.address)).Nodup :=
    (rankedVaults_perm b.targets).nodup_iff.mp h.ranked_nodup
  have hRank := siblingRanks_get? hDistinct (key_mem_ranked hv)
  constructor
  · rintro ⟨rank, hGet, hAbove⟩
    rw [hRank] at hGet
    cases hGet
    exact (mem_above_iff (key_mem_ranked hw) _).mp hAbove
  · intro hLess
    exact
      ⟨_, hRank,
        (mem_above_iff (key_mem_ranked hw) _).mpr hLess⟩

/-
  A vault's ask comes off for an ask of another maker, or for
  one in its band of a vault that is ranked above it.
-/
theorem nextAsk_none_iff
    (h : b.Steady)
    (t : Nat)
    (hv : v ∈ b.vaults)
    (asks : RestingAsks) :
    b.nextAsk t v asks = none ↔
      (∃ a ∈ b.outside, b.OutsideQualifies t v a) ∨
        ∃ w ∈ b.vaults, b.RankedAbove w v ∧
          ∃ price, asks w.key = some price ∧
            v.InBand price := by
  have hGives :
      b.nextAsk t v asks = none ↔ b.stepAside t v asks ≠ [] := by
    rw [nextAsk_eq]
    by_cases hAside : b.stepAside t v asks ≠ []
    · simp only [if_pos hAside, true_iff]
      exact hAside
    · rw [if_neg hAside]
      refine iff_of_false (fun hNone => ?_) hAside
      cases hOwn : asks v.key <;> rw [hOwn] at hNone
      · cases hNone
      · simp only at hNone
        split at hNone <;> cases hNone
  rw [hGives, stepsAside_iff h t hv asks]
  refine or_congr_right (exists_congr fun w => ?_)
  exact
    and_congr_right fun hw =>
      and_congr_left fun _ => (rankedAbove_iff h hv hw).symm

/- `v` gives way to an ask of `w`. -/
def SiblingBook.StepsAsideFor
    (b : SiblingBook)
    (t : Nat)
    (asks : RestingAsks)
    (v w : OwnAsker) : Prop :=
  ∃ o ∈ b.stepAside t v asks, o.maker = w.key

theorem rankOf_lt_of_stepsAsideFor
    (h : b.Steady)
    {t : Nat}
    {asks : RestingAsks}
    {w : OwnAsker}
    (hv : v ∈ b.vaults)
    (hw : w ∈ b.vaults)
    (hAside : b.StepsAsideFor t asks v w) :
    b.rankOf w.key < b.rankOf v.key := by
  rcases hAside with ⟨o, ho, hMaker⟩
  unfold SiblingBook.stepAside stepAsideAsks at ho
  simp only [List.mem_filter, List.mem_map] at ho
  rcases ho with ⟨⟨ask, hAsk, rfl⟩, _⟩
  rcases (mem_seenBy_iff h hv asks ask).mp hAsk with
    ⟨a, ha, rfl⟩ | ⟨other, _, hLess, _, _, rfl⟩
  · exact absurd hMaker (h.outsiders a ha w hw)
  · exact (show other.key = w.key from hMaker) ▸ hLess

/-
  From any resting asks the series settles within as many
  ticks as it has own vaults: the vaults without an ask are
  then those with one to give way to, the asks do not all go,
  and no two vaults ever give way to each other. In every tick
  the asks that come off are those with one to give way to.
-/
theorem siblings_settle
    (h : b.Steady)
    (start : RestingAsks) :
    (∀ t, b.vaults.length ≤ t → ∀ v ∈ b.vaults,
      b.asksAfter start t v.key =
        b.asksAfter start b.vaults.length v.key) ∧
      (∀ v ∈ b.vaults,
        b.asksAfter start b.vaults.length v.key = none ↔
          (∃ a ∈ b.outside, ∀ t, b.OutsideQualifies t v a) ∨
            ∃ w ∈ b.vaults, b.RankedAbove w v ∧
              ∃ price,
                b.asksAfter start b.vaults.length w.key =
                    some price ∧
                  v.InBand price) ∧
      (b.vaults ≠ [] →
        (∀ v ∈ b.vaults, ∀ a ∈ b.outside, ∀ t,
          ¬ b.OutsideQualifies t v a) →
        ∃ v ∈ b.vaults, ∃ price,
          b.asksAfter start b.vaults.length v.key =
            some price) ∧
      (∀ t asks, ∀ v ∈ b.vaults, ∀ w ∈ b.vaults,
        b.StepsAsideFor t asks v w →
          ¬ b.StepsAsideFor t asks w v) ∧
      ∀ t asks, ∀ v ∈ b.vaults,
        b.nextAsk t v asks = none ↔
          (∃ a ∈ b.outside, b.OutsideQualifies t v a) ∨
            ∃ w ∈ b.vaults, b.RankedAbove w v ∧
              ∃ price, asks w.key = some price ∧
                v.InBand price := by
  have hReason :
      ∀ v ∈ b.vaults,
        b.asksAfter start b.vaults.length v.key = none ↔
          (∃ a ∈ b.outside, ∀ t, b.OutsideQualifies t v a) ∨
            ∃ w ∈ b.vaults, b.RankedAbove w v ∧
              ∃ price,
                b.asksAfter start b.vaults.length w.key =
                    some price ∧
                  v.InBand price := by
    intro v hv
    rw [← asksAfter_fixed h start hv,
      nextAsk_none_iff h _ hv]
    refine or_congr_left (exists_congr fun a => ?_)
    refine and_congr_right fun ha => ?_
    refine ⟨fun hQualifies t => ?_, fun hAll => hAll _⟩
    unfold SiblingBook.OutsideQualifies at hQualifies ⊢
    rw [h.outside_fill a ha t b.vaults.length]
    exact hQualifies
  refine ⟨?_, hReason, ?_, ?_, ?_⟩
  · intro t hLate v hv
    exact
      (tick_settles h).run_eq start b.vaults.length v.key
        ⟨v, hv, rfl⟩ (rankOf_lt hv) t hLate
  · intro hSome hNoOutside
    by_contra hNoAsk
    have hAllNone :
        ∀ v ∈ b.vaults,
          b.asksAfter start b.vaults.length v.key = none := by
      intro v hv
      cases hAsk : b.asksAfter start b.vaults.length v.key with
      | none => rfl
      | some price => exact absurd ⟨v, hv, price, hAsk⟩ hNoAsk
    rcases List.exists_mem_of_ne_nil _ hSome with ⟨v, hv⟩
    rcases (hReason v hv).mp (hAllNone v hv) with
      ⟨a, ha, hQualifies⟩ | ⟨w, hw, _, price, hPrice, _⟩
    · exact hNoOutside v hv a ha 0 (hQualifies 0)
    · rw [hAllNone w hw] at hPrice
      cases hPrice
  · intro t asks v hv w hw hFirst hSecond
    exact
      Nat.lt_asymm (rankOf_lt_of_stepsAsideFor h hv hw hFirst)
        (rankOf_lt_of_stepsAsideFor h hw hv hSecond)
  · intro t asks v hv
    exact nextAsk_none_iff h t hv asks

/- A House vault, the treasury, and an ask over both. -/
def twoAskers : SiblingBook :=
  { vaults :=
      [{ vault := { address := "0xT0", kind := .treasury }
         id := 1
         target := { price := 597000, units := 200 }
         makerFree := some 100000000000000000000
         askFloors := { write := 500000, resale := 500000 }
         bidCap := 450000
         safeFloor := some 510000
         params := { requoteBps := 300, resizeBps := 5000 } },
       { vault := { address := "0xH1", kind := .house }
         id := 2
         target := { price := 600000, units := 200 }
         makerFree := some 100000000000000000000
         askFloors := { write := 500000, resale := 500000 }
         bidCap := 450000
         safeFloor := none
         params := { requoteBps := 300, resizeBps := 5000 } }]
    outside :=
      [{ id := 3
         maker := "0xOut"
         kind := .AskResale
         price := 650000
         remaining := 500
         makerFree := none
         sibling := none }]
    series :=
      { expiry := 100000
        collateralPerUnit := 10000000000000000
        mintFeePpm := 0 }
    now := fun _ => 15
    mintPaused := fun _ => false
    validUntil := 90000 }

theorem twoAskers_steady :
    twoAskers.Steady := by
  constructor
  · decide +kernel
  · decide +kernel
  · decide
  · intro a _ t t'
    rfl
  · intro v hv t price
    rcases List.mem_cons.mp hv with rfl | hRest
    · exact (by decide +kernel : (100 : Int) ≤ 200)
    · rw [List.mem_singleton.mp hRest]
      exact (by decide +kernel : (100 : Int) ≤ 200)
  · decide
  · intro v hv
    rcases List.mem_cons.mp hv with rfl | hRest
    · refine ⟨by decide, fun floor hFloor => ?_⟩
      cases hFloor
      decide
    · rw [List.mem_singleton.mp hRest]
      exact ⟨by decide, fun floor hFloor => by cases hFloor⟩
  · intro v hv
    rcases List.mem_cons.mp hv with rfl | hRest
    · exact ⟨by decide, by decide⟩
    · rw [List.mem_singleton.mp hRest]
      exact ⟨by decide, by decide⟩

/-
  Both rest an ask at one price: one of them keeps its own,
  and the treasury's comes off for the House vault's.
-/
theorem twoAskers_settle :
    (∀ t, 2 ≤ t → ∀ v ∈ twoAskers.vaults,
      twoAskers.asksAfter (fun _ => some 600000) t v.key =
        twoAskers.asksAfter (fun _ => some 600000) 2 v.key) ∧
      (∃ v ∈ twoAskers.vaults, ∃ price,
        twoAskers.asksAfter (fun _ => some 600000) 2 v.key =
          some price) ∧
      ∀ v ∈ twoAskers.vaults, v.vault.kind = .treasury →
        twoAskers.nextAsk 0 v (fun _ => some 600000) = none := by
  have hAll :=
    siblings_settle twoAskers_steady (fun _ => some 600000)
  refine ⟨hAll.1, hAll.2.2.1 (List.cons_ne_nil _ _) ?_, ?_⟩
  · intro v hv a ha t hQualifies
    rw [List.mem_singleton.mp ha] at hQualifies
    rcases List.mem_cons.mp hv with rfl | hRest
    · exact absurd hQualifies.2 (by decide)
    · rw [List.mem_singleton.mp hRest] at hQualifies
      exact absurd hQualifies.2 (by decide)
  · intro v hv hTreasury
    refine (hAll.2.2.2.2 0 _ v hv).mpr (.inr ?_)
    rcases List.mem_cons.mp hv with rfl | hRest
    · have hAbove :=
        (rankedAbove_iff twoAskers_steady (.head _)
          (.tail _ (.head _))).mpr (by decide +kernel)
      exact
        ⟨_, .tail _ (.head _), hAbove, 600000, rfl,
          by unfold OwnAsker.InBand; decide +kernel⟩
    · rw [List.mem_singleton.mp hRest] at hTreasury
      cases hTreasury

end Callhouse.Keeper.Mm
