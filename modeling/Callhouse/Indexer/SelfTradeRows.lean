import Callhouse.Indexer.PnlSkips
import Callhouse.Lib.Succeeds

/-
  indexer/src/v2/pnl.ts: a tick never inserts a self-traded lot
  twice.  The stored lots are named after logs that are booked,
  and the new ones after logs of the range.

  Main declarations:
    * `LotsNamed`, `storeLots_run`
    * `updateSelfTrade_runs`
-/

----
-- Rows That Are Inserted
----

namespace Callhouse.Indexer.PnlClock

section

open SelfTrade

/- Every stored lot is named after one of the logs. -/
def LotsNamed
    (origins : List Origin)
    (lots : OrderedMap String SelfTradeLot) : Prop :=
  ∀ id, lots.has id = true →
    ∃ origin ∈ origins, origin.Names id

variable {lots : OrderedMap String SelfTradeLot}

/- A row of a lot that is not stored yet is not inserted twice. -/
theorem storeLot_runs
    (old : OrderedMap String SelfTradeLot)
    {row : SelfTradeLot}
    (hNew : old.has row.id = false → lots.has row.id = false) :
    Succeeds (storeLot old lots row)
      (fun lots' =>
        ∀ id, lots'.has id = true →
          row.id = id ∨ lots.has id = true) := by
  unfold storeLot
  simp only
  cases hOld : old.get? row.id with
  | none =>
      have hAbsent : old.has row.id = false := by
        unfold OrderedMap.has
        rw [hOld]
        rfl
      simp only
      rw [if_neg (by rw [hNew hAbsent]; exact Bool.false_ne_true)]
      exact
        Succeeds.ok
          (fun id hHas => (OrderedMap.has_set _ _ _ id).mp hHas)
  | some previous =>
      simp only
      split
      · exact
          Succeeds.ok
            (fun id hHas =>
              (OrderedMap.has_set _ _ _ id).mp hHas)
      · exact Succeeds.ok (fun id hHas => .inr hHas)

theorem storeLots_run
    (old : OrderedMap String SelfTradeLot)
    {rows : List SelfTradeLot}
    (hIds : (rows.map (fun row => row.id)).Nodup)
    (hNew :
      ∀ row ∈ rows,
        old.has row.id = false → lots.has row.id = false) :
    Succeeds (rows.foldlM (storeLot old) lots)
      (fun lots' =>
        ∀ id, lots'.has id = true →
          (∃ row ∈ rows, row.id = id) ∨ lots.has id = true) := by
  induction rows generalizing lots with
  | nil => exact Succeeds.ok (fun id hHas => .inr hHas)
  | cons row rest ih =>
      rw [List.map_cons, List.nodup_cons] at hIds
      rcases hIds with ⟨hOwn, hRest⟩
      rcases List.forall_mem_cons.mp hNew with ⟨hFirst, hLater⟩
      rw [List.foldlM_cons]
      apply (storeLot_runs old hFirst).bind
      intro mid hMid
      have hMidNew :
          ∀ other ∈ rest,
            old.has other.id = false →
              mid.has other.id = false := by
        intro other hIn hAbsent
        rw [Bool.eq_false_iff]
        intro hHas
        rcases hMid other.id hHas with hSame | hHad
        · apply hOwn
          rw [hSame]
          exact List.mem_map_of_mem hIn
        · rw [hLater other hIn hAbsent] at hHad
          cases hHad
      apply (ih hRest hMidNew).mono
      intro lots' hLots' id hHas
      rcases hLots' id hHas with ⟨other, hIn, hId⟩ | hHad
      · exact .inl ⟨other, List.mem_cons_of_mem _ hIn, hId⟩
      · rcases hMid id hHad with hId | hOld
        · exact .inl ⟨row, List.mem_cons_self, hId⟩
        · exact .inr hOld

end

----
-- A Tick's Self-Traded Lots
----

open Reconcile SelfTrade

variable {env : Env} {inputs : Inputs} {rows : RangeRows}
variable {deliveries : Deliveries}
variable {tables : SelfTradeTables} {after through ts : Int}
variable {origins : List Origin}

theorem map_id_values
    {lots : OrderedMap String SelfTradeLot}
    (hFiled : LotsFiled lots) :
    lots.values.map (fun lot => lot.id) =
      lots.entries.map Prod.fst := by
  unfold OrderedMap.values
  rw [List.map_map]
  apply List.map_congr_left
  intro entry hEntry
  exact
    hFiled entry.1 entry.2
      ((OrderedMap.mem_entries_iff lots).mp hEntry)

/- The logs that a batch's lots can be named after. -/
theorem batchOrigins_subperm
    (locale : SelfTrade.Locale)
    (state : SelfTradeState)
    (batch : SelfTradeBatch) :
    ((batchEvents locale state batch).filterMap
        SelfTradeEvent.origin).Subperm
      (batch.events.filterMap SelfTradeEvent.origin) := by
  unfold batchEvents
  refine
    ((List.perm_insertionSort _ _).filterMap _).subperm.trans ?_
  exact (List.filter_sublist.filterMap _).subperm

/- The ids of the reduced lots are told apart by their logs. -/
theorem reducedIds
    (hAhead : after < through)
    (hFiled : LotsFiled tables.lots)
    (hNamed : LotsNamed origins tables.lots)
    (hOrigins :
      (origins ++
        (rows.events deliveries.matchedMints).filterMap
          SelfTradeEvent.origin).Nodup)
    {state : SelfTradeState}
    (h :
      reduceSelfTrade env.locale (tables.state after)
        (selfTradeBatch env inputs rows deliveries through
          ts) = some state) :
    (state.lots.map (fun lot => lot.id)).Nodup ∧
      ∀ lot ∈ state.lots,
        tables.lots.has lot.id = true ∨
          ∃ origin ∈
              (rows.events deliveries.matchedMints).filterMap
                SelfTradeEvent.origin,
            origin.Names lot.id := by
  rcases reduceSelfTrade_grown hAhead h with
    ⟨lots, hPerm, more, hTags, hIds, hMore⟩
  have hSub :=
    batchOrigins_subperm env.locale (tables.state after)
      (selfTradeBatch env inputs rows deliveries through ts)
  rcases List.nodup_append.mp hOrigins with
    ⟨_, hNewOrigins, hApart⟩
  have hBatchOrigins :
      ((batchEvents env.locale (tables.state after)
            (selfTradeBatch env inputs rows deliveries through
              ts)).filterMap
          SelfTradeEvent.origin).Nodup := by
    rcases hSub with ⟨_, hSame, hPart⟩
    exact hSame.nodup_iff.mp (hNewOrigins.sublist hPart)
  have hLotIds :
      lots.map (fun lot => lot.id) =
        tables.lots.entries.map Prod.fst ++
          more.map Prod.fst := by
    have hFirst := congrArg (List.map Prod.fst) hTags
    rw [List.map_append, List.map_map, List.map_map] at hFirst
    rw [← map_id_values hFiled]
    exact hFirst
  have hMoreNamed :
      ∀ id ∈ more.map Prod.fst,
        ∃ origin ∈
            (rows.events deliveries.matchedMints).filterMap
              SelfTradeEvent.origin,
          origin.Names id := by
    intro id hId
    rcases List.mem_map.mp hId with ⟨tag, hTag, rfl⟩
    rcases hMore tag hTag with ⟨origin, hOf, hNames⟩
    exact ⟨origin, hSub.subset hOf, hNames⟩
  constructor
  · rw [(hPerm.map _).nodup_iff, hLotIds, List.nodup_append]
    refine ⟨tables.lots.nodup, hIds hBatchOrigins, ?_⟩
    intro id hOld id' hNew hSame
    subst hSame
    rcases hNamed id ((OrderedMap.has_iff _).mpr hOld) with
      ⟨a, ha, hNames⟩
    rcases hMoreNamed id hNew with ⟨b, hb, hNames'⟩
    exact hApart a ha b hb (hNames.inj hNames')
  · intro lot hLot
    have hId : lot.id ∈ lots.map (fun lot => lot.id) :=
      List.mem_map_of_mem (hPerm.mem_iff.mp hLot)
    rw [hLotIds] at hId
    rcases List.mem_append.mp hId with hOld | hNew
    · exact .inl ((OrderedMap.has_iff _).mpr hOld)
    · exact .inr (hMoreNamed lot.id hNew)

/- The tick's self-traded lots are stored. -/
theorem updateSelfTrade_runs
    (env : Env)
    (inputs : Inputs)
    (ts : Int)
    (hAhead : after < through)
    (hFiled : tables.Filed env)
    (hNamed : LotsNamed origins tables.lots)
    (hUnits :
      ∀ event ∈ rows.events deliveries.matchedMints,
        0 ≤ event.units)
    (hOrigins :
      (origins ++
        (rows.events deliveries.matchedMints).filterMap
          SelfTradeEvent.origin).Nodup) :
    Succeeds
      (updateSelfTrade env inputs rows deliveries tables after
        through ts)
      (fun result =>
        result.1.Filed env ∧
          LotsNamed
            (origins ++
              (rows.events deliveries.matchedMints).filterMap
                SelfTradeEvent.origin)
            result.1.lots) := by
  have hRuns :
      ∃ state,
        reduceSelfTrade env.locale (tables.state after)
          (selfTradeBatch env inputs rows deliveries through
            ts) = some state :=
    reduceSelfTrade_runs env.locale (tables.state after) hUnits
  rcases hRuns with ⟨state, hReduce⟩
  rcases
      reducedIds hAhead hFiled.lots hNamed hOrigins hReduce with
    ⟨hIds, hLots⟩
  rcases
      @storeLots_run tables.lots tables.lots _ hIds
        (fun _ _ hAbsent => hAbsent) with
    ⟨lots, hStore, hHas⟩
  have hUpdate :
      ∃ result,
        updateSelfTrade env inputs rows deliveries tables after
            through ts = .ok result ∧
          result.1.lots = lots := by
    unfold updateSelfTrade
    rw [hReduce]
    simp only
    rw [hStore]
    exact ⟨_, rfl, rfl⟩
  rcases hUpdate with ⟨⟨tables', next⟩, hUpdate, rfl⟩
  refine
    ⟨_, hUpdate, updateSelfTrade_filed hAhead hFiled hUpdate, ?_⟩
  intro id hId
  have hOld :
      tables.lots.has id = true →
        ∃ origin ∈
            origins ++
              (rows.events deliveries.matchedMints).filterMap
                SelfTradeEvent.origin,
          origin.Names id := by
    intro hHad
    rcases hNamed id hHad with ⟨origin, hOf, hNames⟩
    exact ⟨origin, List.mem_append_left _ hOf, hNames⟩
  rcases hHas id hId with ⟨lot, hLot, rfl⟩ | hHad
  · rcases hLots lot hLot with hHad | ⟨origin, hOf, hNames⟩
    · exact hOld hHad
    · exact ⟨origin, List.mem_append_right _ hOf, hNames⟩
  · exact hOld hHad

end Callhouse.Indexer.PnlClock
