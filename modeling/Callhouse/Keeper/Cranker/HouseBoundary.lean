import Callhouse.Keeper.Cranker.DoneExpiry
import Mathlib.Data.List.ReduceOption

/-
  keeper/src/v2/cranker/steps.ts, houseBoundaryKeys, and
  cranker.ts, withHouseBoundaries: the epoch boundaries of the
  House vaults in the runs of the tick, with reads that may
  fail, and the expiries that the redeem step marks done.

  Main declarations:
    * `houseBoundaryKeys`, `HouseView.Boundary`
    * `mem_houseBoundaryKeys_iff`
    * `HouseTick.Covered`, `HouseTick.marks_final_iff`
    * `house_boundary_kept`
    * `unread_boundary_marked_done`
-/

----
-- House Reads
----

namespace Callhouse.Keeper.Cranker

structure HouseVaultRollView where
  oracle : String
  underlying : String
  epochEnd : Int
deriving DecidableEq

def HouseVaultRollView.key
    (view : HouseVaultRollView) : ExpiryKey :=
  { oracle := view.oracle
    underlying := view.underlying
    expiry := view.epochEnd }

inductive VaultRead where
  | threw
  | unread
  | answered (view : HouseVaultRollView)
deriving DecidableEq

/- A factory's `vaults()` that fails answers nothing. -/
structure HouseRollReads where
  factories : List String
  registryVaults : List String
  discover : String → Option (List String)
  readVault : String → VaultRead

def addVault
    (found : List String)
    (vault : String) : List String :=
  if lc vault ∈ found.map lc then found else found ++ [vault]

def listVaults
    (reads : HouseRollReads)
    (found : List String)
    (factory : String) : List String :=
  match reads.discover factory with
  | none => found
  | some vaults => vaults.foldl addVault found

/- Vaults the factories list, then those the registry records. -/
def houseVaultsOf
    (reads : HouseRollReads) : List String :=
  reads.registryVaults.foldl addVault
    (reads.factories.foldl (listVaults reads) [])

def boundaryOf
    (reads : HouseRollReads)
    (vault : String) : Option (Option ExpiryKey) :=
  match reads.readVault vault with
  | .threw => none
  | .unread => some none
  | .answered view =>
      some (if view.epochEnd = 0 then none else some view.key)

/- None when a vault's read throws. -/
def houseBoundaryKeys
    (reads : HouseRollReads) : Option (List ExpiryKey) :=
  if reads.factories = [] ∧ reads.registryVaults = [] then some []
  else
    ((houseVaultsOf reads).mapM (boundaryOf reads)).map
      List.reduceOption

/- The House at one block. -/
structure HouseView where
  vaults : String → List String
  vault : String → HouseVaultRollView

def HouseView.Lists
    (view : HouseView)
    (reads : HouseRollReads)
    (vault : String) : Prop :=
  vault ∈ reads.registryVaults ∨
    ∃ factory ∈ reads.factories, vault ∈ view.vaults factory

/- The key is a House vault's current epoch boundary. -/
def HouseView.Boundary
    (view : HouseView)
    (reads : HouseRollReads)
    (k : ExpiryKey) : Prop :=
  ∃ vault, view.Lists reads vault ∧
    (view.vault (lc vault)).epochEnd ≠ 0 ∧
      k = expiryKeyString (view.vault (lc vault)).key

/- What is answered is what the House holds. -/
structure HouseRollReads.Of
    (reads : HouseRollReads)
    (view : HouseView) : Prop where
  discover :
    ∀ factory vaults, reads.discover factory = some vaults →
      vaults = view.vaults factory
  readVault :
    ∀ vault answer, reads.readVault vault = .answered answer →
      answer = view.vault (lc vault)

/- Every read of the House succeeds. -/
structure HouseRollReads.Answered
    (reads : HouseRollReads) : Prop where
  discover :
    ∀ factory ∈ reads.factories, reads.discover factory ≠ none
  readVault :
    ∀ vault ∈ houseVaultsOf reads,
      ∃ answer, reads.readVault vault = .answered answer

theorem lc_mem_addVaults
    {vaults found : List String}
    {x : String} :
    x ∈ (vaults.foldl addVault found).map lc ↔
      x ∈ found.map lc ∨ x ∈ vaults.map lc := by
  induction vaults generalizing found with
  | nil => simp
  | cons vault rest ih =>
      rw [List.foldl_cons, ih, List.map_cons, List.mem_cons]
      unfold addVault
      split
      · next hSeen =>
          constructor
          · rintro (h | h)
            · exact .inl h
            · exact .inr (.inr h)
          · rintro (h | rfl | h)
            · exact .inl h
            · exact .inl hSeen
            · exact .inr h
      · rw [List.map_append, List.mem_append,
          List.map_singleton, List.mem_singleton, or_assoc]

theorem lc_mem_listed
    {reads : HouseRollReads}
    {factories found : List String}
    {factory vault : String}
    {vaults : List String}
    (hFactory : factory ∈ factories)
    (hRead : reads.discover factory = some vaults)
    (hVault : vault ∈ vaults) :
    lc vault ∈
      (factories.foldl (listVaults reads) found).map lc := by
  have hKeep :
      ∀ (rest found : List String) (x : String),
        x ∈ found.map lc →
          x ∈ (rest.foldl (listVaults reads) found).map lc := by
    intro rest
    induction rest with
    | nil => exact fun _ _ h => h
    | cons f rest ih =>
        intro found x h
        apply ih
        unfold listVaults
        split
        · exact h
        · exact lc_mem_addVaults.mpr (.inl h)
  induction factories generalizing found with
  | nil => cases hFactory
  | cons f rest ih =>
      rw [List.foldl_cons]
      rcases List.mem_cons.mp hFactory with rfl | hRest
      · apply hKeep
        unfold listVaults
        rw [hRead]
        exact
          lc_mem_addVaults.mpr (.inr (List.mem_map_of_mem hVault))
      · exact ih hRest

theorem lc_mem_houseVaultsOf
    {reads : HouseRollReads}
    {view : HouseView}
    (hOf : reads.Of view)
    (hAnswered : reads.Answered)
    {vault : String}
    (hLists : view.Lists reads vault) :
    lc vault ∈ (houseVaultsOf reads).map lc := by
  unfold houseVaultsOf
  rw [lc_mem_addVaults]
  rcases hLists with hRegistry | ⟨factory, hFactory, hVault⟩
  · exact .inr (List.mem_map_of_mem hRegistry)
  · left
    cases hRead : reads.discover factory with
    | none => exact absurd hRead (hAnswered.discover _ hFactory)
    | some vaults =>
        rw [← hOf.discover factory vaults hRead] at hVault
        exact lc_mem_listed hFactory hRead hVault

theorem exists_mapM_eq_some
    {α β : Type}
    {f : α → Option β}
    {xs : List α}
    (h : ∀ x ∈ xs, ∃ y, f x = some y) :
    ∃ ys, xs.mapM f = some ys := by
  induction xs with
  | nil => exact ⟨[], List.mapM_nil⟩
  | cons x rest ih =>
      rcases h x List.mem_cons_self with ⟨y, hy⟩
      rcases ih (fun z hz => h z (List.mem_cons_of_mem _ hz)) with
        ⟨ys, hys⟩
      exact ⟨y :: ys, by simp [List.mapM_cons, hy, hys]⟩

/-
  No vault's read throws, and one vault is read at the key as
  its boundary.
-/
structure HouseRollReads.Gives
    (reads : HouseRollReads)
    (k : ExpiryKey) : Prop where
  unthrown :
    ∀ vault ∈ houseVaultsOf reads,
      reads.readVault vault ≠ .threw
  answered :
    ∃ vault ∈ houseVaultsOf reads, ∃ view,
      reads.readVault vault = .answered view ∧
        view.epochEnd ≠ 0 ∧ expiryKeyString view.key = k

theorem boundaryOf_eq_none_iff
    {reads : HouseRollReads}
    {vault : String} :
    boundaryOf reads vault = none ↔
      reads.readVault vault = .threw := by
  unfold boundaryOf
  cases reads.readVault vault <;> simp

theorem boundaryOf_eq_key_iff
    {reads : HouseRollReads}
    {vault : String}
    {key : ExpiryKey} :
    boundaryOf reads vault = some (some key) ↔
      ∃ view, reads.readVault vault = .answered view ∧
        view.epochEnd ≠ 0 ∧ view.key = key := by
  unfold boundaryOf
  cases reads.readVault vault with
  | threw => simp
  | unread => simp
  | answered view =>
      by_cases hEnd : view.epochEnd = 0 <;> simp [hEnd]

theorem mem_houseBoundaryKeys_iff
    {reads : HouseRollReads}
    {k : ExpiryKey} :
    k ∈
        ((houseBoundaryKeys reads).getD []).map
          expiryKeyString ↔
      reads.Gives k := by
  unfold houseBoundaryKeys
  split
  · next hNone =>
      have hVaults : houseVaultsOf reads = [] := by
        unfold houseVaultsOf
        rw [hNone.1, hNone.2]
        rfl
      constructor
      · intro h
        cases h
      · rintro ⟨_, vault, hVault, _⟩
        rw [hVaults] at hVault
        cases hVault
  · cases hKeys : (houseVaultsOf reads).mapM (boundaryOf reads) with
    | none =>
        constructor
        · intro h
          cases h
        · intro h
          rcases
            exists_mapM_eq_some
              (fun v hv =>
                Option.ne_none_iff_exists'.mp
                  (fun hThrew =>
                    h.unthrown v hv
                      (boundaryOf_eq_none_iff.mp hThrew)))
            with ⟨keys, hSome⟩
          rw [hKeys] at hSome
          cases hSome
    | some keys =>
        rw [Option.map_some, Option.getD_some, List.mem_map]
        constructor
        · rintro ⟨key, hKey, rfl⟩
          rw [List.reduceOption_mem_iff] at hKey
          rcases (mem_of_mapM_eq_some hKeys).2 _ hKey with
            ⟨vault, hVault, hBoundary⟩
          rcases boundaryOf_eq_key_iff.mp hBoundary with
            ⟨view, hView, hEnd, rfl⟩
          refine ⟨?_, vault, hVault, view, hView, hEnd, rfl⟩
          intro v hv hThrew
          rcases (mem_of_mapM_eq_some hKeys).1 v hv with
            ⟨_, _, hSome⟩
          rw [boundaryOf_eq_none_iff.mpr hThrew] at hSome
          cases hSome
        · rintro ⟨_, vault, hVault, view, hView, hEnd, rfl⟩
          rcases (mem_of_mapM_eq_some hKeys).1 vault hVault with
            ⟨key, hKey, hBoundary⟩
          rw [boundaryOf_eq_key_iff.mpr
            ⟨view, hView, hEnd, rfl⟩] at hBoundary
          cases hBoundary
          exact
            ⟨view.key, List.reduceOption_mem_iff.mpr hKey, rfl⟩

/- House reads that succeed give every current boundary. -/
theorem boundary_mem_houseBoundaryKeys
    {reads : HouseRollReads}
    {view : HouseView}
    (hOf : reads.Of view)
    (hAnswered : reads.Answered)
    {k : ExpiryKey}
    (hBoundary : view.Boundary reads k) :
    k ∈
      ((houseBoundaryKeys reads).getD []).map
        expiryKeyString := by
  rcases hBoundary with ⟨vault, hLists, hOpen, rfl⟩
  rcases
    List.mem_map.mp (lc_mem_houseVaultsOf hOf hAnswered hLists)
    with ⟨found, hFound, hSame⟩
  rw [mem_houseBoundaryKeys_iff]
  constructor
  · intro v hv hThrew
    rcases hAnswered.readVault v hv with ⟨answer, hAnswer⟩
    rw [hThrew] at hAnswer
    cases hAnswer
  · rcases hAnswered.readVault found hFound with
      ⟨answer, hAnswer⟩
    have hHolds := hOf.readVault found answer hAnswer
    rw [hSame] at hHolds
    rw [← hHolds] at hOpen ⊢
    exact ⟨found, hFound, answer, hAnswer, hOpen, rfl⟩

----
-- Ticks With House Reads
----

/-
  One tick, its House reads, and the House at the head they
  were made at and at the head of the redeem step.
-/
structure HouseTick where
  tick : RedeemTick
  reads : HouseRollReads
  atHead : HouseView
  atRedeem : HouseView

/- A failed House read leaves the tick's expiries as they were. -/
structure HouseTick.Of
    (t : HouseTick)
    (s : CrankerState) : Prop where
  tick : t.tick.Of s
  house : t.tick.house = (houseBoundaryKeys t.reads).getD []
  reads : t.reads.Of t.atHead

/-
  The key goes to the snapshot and finalize steps, which survey
  it as a House boundary.
-/
def HouseTick.Handed
    (t : HouseTick)
    (k : ExpiryKey) : Prop :=
  ∃ x ∈ t.tick.input.keys,
    expiryKeyString x = k ∧
      t.tick.input.ctx.houseBoundary x = true

theorem mem_withHouseBoundaries
    {done keys house : List ExpiryKey}
    {k : ExpiryKey}
    (hHouse : k ∈ house.map expiryKeyString) :
    k ∈ (withHouseBoundaries done keys house).map
        expiryKeyString ∨
      k ∈ done := by
  unfold withHouseBoundaries
  have hKeep :
      ∀ (rest keys : List ExpiryKey),
        k ∈ keys.map expiryKeyString →
          k ∈
            (rest.foldl
              (fun merged x =>
                if expiryKeyString x ∈
                      merged.map expiryKeyString ∨
                    expiryKeyString x ∈ done then merged
                else merged ++ [x])
              keys).map expiryKeyString := by
    intro rest
    induction rest with
    | nil => exact fun _ h => h
    | cons x rest ih =>
        intro keys h
        apply ih
        dsimp only
        split
        · exact h
        · rw [List.map_append]
          exact List.mem_append_left _ h
  induction house generalizing keys with
  | nil => cases hHouse
  | cons x rest ih =>
      rw [List.foldl_cons]
      rw [List.map_cons, List.mem_cons] at hHouse
      rcases hHouse with rfl | hRest
      · split
        · next hSeen =>
            rcases hSeen with hThere | hDone
            · exact .inl (hKeep rest keys hThere)
            · exact .inr hDone
        · left
          apply hKeep
          simp
      · exact ih hRest

/- House reads that succeed hand every boundary not yet done. -/
theorem HouseTick.Of.handed
    {t : HouseTick}
    {s : CrankerState}
    (hOf : t.Of s)
    (hAnswered : t.reads.Answered)
    {k : ExpiryKey}
    (hBoundary : t.atHead.Boundary t.reads k) :
    t.Handed k ∨ k ∈ s.doneExpiries := by
  have hHouse :=
    boundary_mem_houseBoundaryKeys hOf.reads hAnswered hBoundary
  rw [← hOf.house] at hHouse
  rcases mem_withHouseBoundaries hHouse with hIn | hDone
  · left
    rcases List.mem_map.mp hIn with ⟨x, hx, rfl⟩
    refine ⟨x, ?_, rfl, (hOf.tick.house x).mpr hHouse⟩
    rw [hOf.tick.keys]
    exact hx
  · exact .inr hDone

----
-- Marks Before Finalized
----

/- Nothing but the House could need the expiry's price. -/
structure ExpiryView.Idle
    (view : ExpiryView) : Prop where
  openInterest : ¬ view.openInterest > 0
  supply :
    ∀ s ∈ view.series, ¬ s.longSupply > 0 ∧ ¬ s.shortSupply > 0
  orders : ∀ s ∈ view.series, s.hasPrunable = false

theorem planExpiry_done_iff
    {view : ExpiryView}
    (hExpired : view.expiry ≤ view.now)
    (hOpen : view.status ≠ .Finalized) :
    (planExpiry view).done = true ↔
      view.houseBoundary = false ∧ view.Idle := by
  have hPast : ¬ view.now < view.expiry := by omega
  unfold planExpiry
  simp only [if_neg hPast, if_neg hOpen]
  constructor
  · intro h
    split at h
    · next hPrice =>
        unfold ExpiryView.needsPrice at hPrice
        simp only [Bool.or_eq_false_iff, List.any_eq_false,
          decide_eq_false_iff_not, Bool.or_eq_true,
          decide_eq_true_eq, not_or] at hPrice
        simp only [List.isEmpty_iff, List.map_eq_nil_iff,
          List.filter_eq_nil_iff, Bool.not_eq_true] at h
        exact ⟨hPrice.1.1, hPrice.1.2, hPrice.2, h⟩
    · cases h
  · rintro ⟨hHouse, hIdle⟩
    have hPrice : view.needsPrice = false := by
      unfold ExpiryView.needsPrice
      simp only [Bool.or_eq_false_iff, List.any_eq_false,
        decide_eq_false_iff_not, Bool.or_eq_true,
        decide_eq_true_eq, not_or]
      exact ⟨⟨hHouse, hIdle.openInterest⟩, hIdle.supply⟩
    rw [if_pos hPrice]
    simp only [List.isEmpty_iff, List.map_eq_nil_iff,
      List.filter_eq_nil_iff, Bool.not_eq_true]
    exact hIdle.orders

theorem marksDone_iff_of_open
    {state : StepState}
    {s : ExpirySurvey}
    (hOpen : s.view.status ≠ .Finalized) :
    marksDone state s = true ↔
      (planExpiry s.view).done = true := by
  unfold marksDone
  cases hDone : (planExpiry s.view).done with
  | false => simp [hOpen, hDone]
  | true => simp [hDone]

/- The expired expiries of the redeem step, as it surveys them. -/
def RedeemTick.surveys
    (tick : RedeemTick) : Option (List ExpirySurvey) :=
  surveyExpiries tick.input.ctx tick.input.head
    (tick.input.keys.filter
      (fun k => decide (k.expiry ≤ tick.input.head.timestamp)))

/- A step that marks: live, and with the adapter read. -/
def RedeemTick.Marking
    (tick : RedeemTick) : Prop :=
  tick.input.config.dryRun = false ∧
    tick.input.payoutAdapter ≠ none

theorem RedeemTick.mem_marks_iff
    {tick : RedeemTick}
    {k : ExpiryKey} :
    (∃ mark ∈ tick.marks, mark.key = k) ↔
      tick.Marking ∧
        ∃ surveys, tick.surveys = some surveys ∧
          ∃ s ∈ surveys, s.key = k ∧
            marksDone
              ((stepTokens surveys).foldl
                (redeemToken tick.input) .start) s = true := by
  unfold RedeemTick.marks stepRedeem RedeemTick.Marking
  cases hSurveys : tick.surveys with
  | none =>
      unfold RedeemTick.surveys at hSurveys
      simp [hSurveys]
  | some surveys =>
      unfold RedeemTick.surveys at hSurveys
      by_cases hAdapter : tick.input.payoutAdapter = none
      · simp [hSurveys, hAdapter]
      · cases hDry : tick.input.config.dryRun with
        | true => simp [hSurveys, hAdapter]
        | false =>
            simp only [hSurveys, hAdapter, if_false,
              Option.some.injEq, exists_eq_left', ne_eq,
              not_false_iff, true_and, Bool.false_eq_true]
            constructor
            · rintro ⟨mark, hMark, rfl⟩
              rcases List.mem_map.mp hMark with ⟨k, hk, rfl⟩
              rcases List.mem_map.mp hk with ⟨s, hs, rfl⟩
              rcases List.mem_filter.mp hs with ⟨hs, hDone⟩
              exact ⟨s, hs, rfl, hDone⟩
            · rintro ⟨s, hs, rfl, hDone⟩
              exact
                ⟨_,
                  List.mem_map_of_mem
                    (List.mem_map_of_mem
                      (List.mem_filter.mpr ⟨hs, hDone⟩)),
                  rfl⟩

/- What a survey of the step is about. -/
theorem RedeemTick.survey_of
    {tick : RedeemTick}
    {surveys : List ExpirySurvey}
    (hSurveys : tick.surveys = some surveys)
    {s : ExpirySurvey}
    (hs : s ∈ surveys) :
    s.view.expiry ≤ s.view.now ∧
      s.view.status =
        tick.input.head.status (expiryKeyString s.key) ∧
      s.view.houseBoundary =
        tick.input.ctx.houseBoundary s.key := by
  rcases (mem_of_mapM_eq_some hSurveys).2 s hs with
    ⟨k, hk, hSurvey⟩
  have hOf := surveyExpiry_of hSurvey
  rw [List.mem_filter, decide_eq_true_eq] at hk
  have hHouse :
      s.view.houseBoundary =
        tick.input.ctx.houseBoundary k := by
    unfold surveyExpiry at hSurvey
    cases hRead :
        (tick.input.ctx.index.seriesOf k).mapM
          (fun r =>
            tick.input.head.readSeries r.series.longId) with
    | none =>
        rw [hRead] at hSurvey
        cases hSurvey
    | some series =>
        rw [hRead] at hSurvey
        cases hSurvey
        rfl
  rw [hOf.expiry, hOf.now, hOf.key]
  exact ⟨hk.2, hOf.status, hHouse⟩

/-
  Where the step marks, it has read every House boundary that
  is not final and that nothing else keeps open.
-/
def HouseTick.Covered
    (t : HouseTick) : Prop :=
  t.tick.Marking →
    ∀ surveys, t.tick.surveys = some surveys →
      ∀ s ∈ surveys,
        t.tick.input.head.status (expiryKeyString s.key) ≠
            .Finalized →
          t.atRedeem.Boundary t.reads (expiryKeyString s.key) →
            s.view.Idle →
              t.reads.Gives (expiryKeyString s.key)

/- No boundary is marked before it is final at the step's head. -/
def HouseTick.MarksFinal
    (t : HouseTick) : Prop :=
  ∀ mark ∈ t.tick.marks,
    t.atRedeem.Boundary t.reads (expiryKeyString mark.key) →
      t.tick.input.head.status (expiryKeyString mark.key) =
        .Finalized

theorem HouseTick.marks_final_iff
    {t : HouseTick}
    {s : CrankerState}
    (hOf : t.Of s) :
    t.MarksFinal ↔ t.Covered := by
  have hRead :
      ∀ k, t.tick.input.ctx.houseBoundary k = true ↔
        t.reads.Gives (expiryKeyString k) := by
    intro k
    rw [hOf.tick.house, hOf.house, mem_houseBoundaryKeys_iff]
  constructor
  · intro h hMarking surveys hSurveys sv hsv hOpen hBoundary hIdle
    rcases RedeemTick.survey_of hSurveys hsv with
      ⟨hExpired, hStatus, hHouse⟩
    by_contra hUnread
    have hPlain : sv.view.houseBoundary = false := by
      rw [hHouse, ← Bool.not_eq_true]
      exact fun hSaid => hUnread ((hRead sv.key).mp hSaid)
    have hDone :=
      (planExpiry_done_iff hExpired (hStatus ▸ hOpen)).mpr
        ⟨hPlain, hIdle⟩
    rcases
      RedeemTick.mem_marks_iff.mpr
        ⟨hMarking, surveys, hSurveys, sv, hsv, rfl,
          (marksDone_iff_of_open (hStatus ▸ hOpen)).mpr hDone⟩
      with ⟨mark, hMark, hKey⟩
    apply hOpen
    rw [← hKey]
    exact h mark hMark (by rw [hKey]; exact hBoundary)
  · intro h mark hMark hBoundary
    rcases RedeemTick.mem_marks_iff.mp ⟨mark, hMark, rfl⟩ with
      ⟨hMarking, surveys, hSurveys, sv, hsv, hKey, hDone⟩
    rcases RedeemTick.survey_of hSurveys hsv with
      ⟨hExpired, hStatus, hHouse⟩
    rw [← hKey] at hBoundary ⊢
    by_contra hOpen
    have hPlan :=
      (marksDone_iff_of_open (hStatus ▸ hOpen)).mp hDone
    rcases
      (planExpiry_done_iff hExpired (hStatus ▸ hOpen)).mp hPlan
      with ⟨hPlain, hIdle⟩
    have hGives :=
      h hMarking surveys hSurveys sv hsv hOpen hBoundary hIdle
    rw [hHouse, (hRead sv.key).mpr hGives] at hPlain
    cases hPlain

----
-- Runs With House Reads
----

/- The cranker's store, and every tick so far. -/
structure HouseState where
  cranker : CrankerState
  ticks : List HouseTick

def HouseState.Start
    (s : HouseState) : Prop :=
  s.cranker.marks = [] ∧ s.ticks = []

/- A run's start: no mark stored, no tick run. -/
def HouseState.started
    (cranker : CrankerState) : HouseState :=
  { cranker := cranker
    ticks := [] }

def HouseState.ticked
    (s : HouseState)
    (t : HouseTick) : HouseState :=
  { cranker :=
      { s.cranker with marks := s.cranker.marks ++ t.tick.marks }
    ticks := s.ticks ++ [t] }

/-
  Scans, prunes, restarts and a changed deployment move the
  store as they like but write no mark; a tick writes its own.
-/
inductive HouseStep
    (ok : HouseTick → Prop) :
    HouseState → HouseState → Prop where
  | moved
      (s : HouseState)
      (cranker : CrankerState)
      (hMarks : cranker.marks ⊆ s.cranker.marks) :
      HouseStep ok s { s with cranker := cranker }
  | ticked
      (s : HouseState)
      (t : HouseTick)
      (hOf : t.Of s.cranker)
      (hOk : ok t) :
      HouseStep ok s (s.ticked t)

/- The key was marked by a tick, and not as an open boundary. -/
def HouseState.MarkedFinal
    (s : HouseState)
    (k : ExpiryKey) : Prop :=
  ∃ t ∈ s.ticks, ∃ mark ∈ t.tick.marks,
    expiryKeyString mark.key = k ∧
      (t.atRedeem.Boundary t.reads k →
        t.tick.input.head.status k = .Finalized)

/-
  No tick marked a boundary before it was final; and the next
  tick, if its House reads succeed, hands every boundary to the
  snapshot and finalize steps, but one so marked.
-/
structure HouseState.Kept
    (s : HouseState) : Prop where
  marks : ∀ t ∈ s.ticks, t.MarksFinal
  handed :
    ∀ t : HouseTick, t.Of s.cranker → t.reads.Answered →
      ∀ k, t.atHead.Boundary t.reads k →
        t.Handed k ∨ s.MarkedFinal k

/- Every stored mark was written by one of the ticks. -/
def HouseState.Sound
    (s : HouseState) : Prop :=
  (∀ mark ∈ s.cranker.marks,
      ∃ t ∈ s.ticks, mark ∈ t.tick.marks) ∧
    ∀ t ∈ s.ticks, t.MarksFinal

theorem HouseState.Sound.step
    {s s' : HouseState}
    (hSound : s.Sound)
    (hStep : HouseStep HouseTick.Covered s s') :
    s'.Sound := by
  cases hStep with
  | moved cranker hMarks =>
      exact
        ⟨fun mark hMark => hSound.1 mark (hMarks hMark),
          hSound.2⟩
  | ticked t hOf hCovered =>
      constructor
      · intro mark hMark
        rcases List.mem_append.mp hMark with hOld | hNew
        · rcases hSound.1 mark hOld with ⟨t', ht', hIn⟩
          exact ⟨t', List.mem_append_left _ ht', hIn⟩
        · exact
            ⟨t, List.mem_append_right _ List.mem_cons_self,
              hNew⟩
      · intro t' ht'
        rcases List.mem_append.mp ht' with hOld | hNew
        · exact hSound.2 t' hOld
        · rw [List.mem_singleton.mp hNew]
          exact (HouseTick.marks_final_iff hOf).mpr hCovered

theorem HouseState.Sound.kept
    {s : HouseState}
    (hSound : s.Sound) :
    s.Kept where
  marks := hSound.2
  handed := by
    intro t hOf hAnswered k hBoundary
    rcases hOf.handed hAnswered hBoundary with hHanded | hDone
    · exact .inl hHanded
    · right
      rcases List.mem_map.mp hDone with ⟨mark, hMark, hKey⟩
      rcases hSound.1 mark hMark with ⟨t', ht', hIn⟩
      refine ⟨t', ht', mark, hIn, hKey, ?_⟩
      intro hThen
      rw [← hKey] at hThen ⊢
      exact hSound.2 t' ht' mark hIn hThen

/-
  In every run whose marking ticks have read the boundaries that
  nothing else keeps open, no House boundary is dropped.
-/
theorem house_boundary_kept
    (s : HouseState)
    (hReach :
      Transition.Reachable HouseState.Start
        (HouseStep HouseTick.Covered) s) :
    s.Kept := by
  have hSound : s.Sound := by
    refine
      Transition.invariant HouseState.Sound ?_
        (fun _ _ h hStep => h.step hStep) hReach
    rintro s ⟨hMarks, hTicks⟩
    constructor
    · intro mark hMark
      rw [hMarks] at hMark
      cases hMark
    · intro t ht
      rw [hTicks] at ht
      cases ht
  exact hSound.kept

----
-- A Boundary Whose Read Fails
----

/- Two series at the boundary, with nothing minted yet. -/
def idleHead : HeadView :=
  { twoSeriesHead false with
    series :=
      (twoSeriesHead false).series.map
        (fun c => { c with settled := false })
    status := fun _ => .None }

def boundaryHouse : HouseView :=
  { vaults := fun _ => ["0xv"]
    vault := fun _ =>
      { oracle := "0xo"
        underlying := "0xu"
        epochEnd := 1000 } }

def boundaryKey : ExpiryKey :=
  { oracle := "0xo"
    underlying := "0xu"
    expiry := 1000 }

/- The vault's read fails, or answers. -/
def boundaryReads
    (answers : Bool) : HouseRollReads :=
  { factories := ["0xf"]
    registryVaults := []
    discover := fun _ => some ["0xv"]
    readVault := fun _ =>
      if answers then .answered (boundaryHouse.vault "0xv")
      else .unread }

def boundaryTick
    (answers : Bool) : HouseTick :=
  let house := (houseBoundaryKeys (boundaryReads answers)).getD []
  let tick := twoSeriesTick 2 false
  { tick :=
      { tick with
        house := house
        input :=
          { tick.input with
            head := idleHead
            ctx :=
              { tick.input.ctx with
                houseBoundary := fun k =>
                  decide
                    (expiryKeyString k ∈
                      house.map expiryKeyString) } } }
    reads := boundaryReads answers
    atHead := boundaryHouse
    atRedeem := boundaryHouse }

theorem boundaryTick_of
    (answers : Bool) :
    (boundaryTick answers).Of (afterScan 2) where
  tick := by
    constructor
    · rfl
    · rfl
    · intro k
      exact decide_eq_true_iff
    · cases answers <;> decide +kernel
  house := rfl
  reads := by
    constructor
    · rintro _ _ ⟨⟩
      rfl
    · intro vault answer h
      cases answers with
      | false => cases h
      | true =>
          cases h
          rfl

theorem afterScan_start :
    (HouseState.started (afterScan 2)).Start :=
  ⟨rfl, rfl⟩

theorem boundaryKey_boundary
    (answers : Bool) :
    boundaryHouse.Boundary (boundaryReads answers)
      (expiryKeyString boundaryKey) :=
  ⟨"0xv", .inr ⟨"0xf", List.mem_cons_self, List.mem_cons_self⟩,
    by decide, rfl⟩

/-
  The vault is not read once, the series at its boundary have no
  supply, and the boundary is marked done before it is final.
-/
theorem unread_boundary_marked_done :
    Transition.Reachable HouseState.Start
        (HouseStep (fun _ => True))
        ((HouseState.started (afterScan 2)).ticked
          (boundaryTick false)) ∧
      ¬ ((HouseState.started (afterScan 2)).ticked
          (boundaryTick false)).Kept := by
  constructor
  · exact
      (Transition.Reachable.init afterScan_start).step
        (.ticked _ _ (boundaryTick_of false) trivial)
  · intro h
    have hMarks :
        (boundaryTick false).tick.marks.map DoneMark.key =
          [boundaryKey] := by
      decide +kernel
    have hIn :
        boundaryKey ∈
          (boundaryTick false).tick.marks.map DoneMark.key := by
      rw [hMarks]
      exact List.mem_cons_self
    rcases List.mem_map.mp hIn with ⟨mark, hMark, hKey⟩
    have hFinal :=
      h.marks _ List.mem_cons_self mark hMark
        (by rw [hKey]; exact boundaryKey_boundary false)
    cases hFinal

/- Read in every tick, the same boundary stays open. -/
theorem read_boundary_stays_open :
    ((HouseState.started (afterScan 2)).ticked
        (boundaryTick true)).Kept ∧
      (boundaryTick true).tick.marks.length = 0 := by
  refine ⟨?_, by decide +kernel⟩
  apply house_boundary_kept
  refine
    (Transition.Reachable.init afterScan_start).step
      (.ticked _ _ (boundaryTick_of true) ?_)
  apply (HouseTick.marks_final_iff (boundaryTick_of true)).mp
  intro mark hMark
  have hNone :
      (boundaryTick true).tick.marks.map DoneMark.key = [] := by
    decide +kernel
  rw [List.map_eq_nil_iff] at hNone
  rw [hNone] at hMark
  cases hMark

end Callhouse.Keeper.Cranker
