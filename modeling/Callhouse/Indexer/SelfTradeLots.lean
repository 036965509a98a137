import Callhouse.Indexer.SelfTrade
import Std.Data.String.ToNat

/-
  What the reduction of self-trades does to its lots: an
  event changes lots in place, and adds lots that are named
  after it.

  Main declarations:
    * `Origin`, `Origin.Names`, `Origin.Names.inj`
    * `LotsGrown`, `reduceEvents_grown`
    * `reduceSelfTrade_grown`, `reduceSelfTrade_keeps`
-/

----
-- Names of Lots
----

namespace Callhouse.Indexer.SelfTrade

/- The log that a lot is named after. -/
inductive Origin where
  | fill (source : String)
  | mint (source : String)
  | transfer (source : String)
deriving DecidableEq

/- A transfer's lots are numbered, one for each portion. -/
def Origin.Names
    (id : String) : Origin → Prop
  | .fill source => id = s!"fill:{source}"
  | .mint source => id = s!"mint:{source}"
  | .transfer source =>
      ∃ k : Nat, id = s!"transfer:{source}:{k}"

def SelfTradeEvent.origin
    (event : SelfTradeEvent) : Option Origin :=
  match event.kind with
  | .fill _ => some (.fill event.id)
  | .mint _ => some (.mint event.id)
  | .transfer _ _ => some (.transfer event.id)
  | .close _ => none
  | .redemption _ => none

/- What stands after the first mark is read off. -/
theorem after_mark_inj
    {c : Char}
    {front front' back back' : List Char}
    (hFront : c ∉ front)
    (hFront' : c ∉ front')
    (h : front ++ c :: back = front' ++ c :: back') :
    back = back' := by
  induction front generalizing front' with
  | nil =>
      cases front' with
      | nil => exact (List.cons.inj h).2
      | cons d rest =>
          rw [(List.cons.inj h).1] at hFront'
          exact absurd List.mem_cons_self hFront'
  | cons d rest ih =>
      cases front' with
      | nil =>
          rw [← (List.cons.inj h).1] at hFront
          exact absurd List.mem_cons_self hFront
      | cons d' rest' =>
          exact
            ih (fun hIn => hFront (List.mem_cons_of_mem _ hIn))
              (fun hIn => hFront' (List.mem_cons_of_mem _ hIn))
              (List.cons.inj h).2

theorem colon_not_mem_digits
    (k : Nat) :
    ':' ∉ (toString k).toList.reverse := by
  rw [List.mem_reverse]
  intro hIn
  have hDigits : (toString k).toList = Nat.toDigits 10 k :=
    Nat.toList_repr
  rw [hDigits] at hIn
  have hDigit :=
    Nat.isDigit_of_mem_toDigits (by decide) (by decide) hIn
  exact absurd hDigit (by decide)

variable {id : String}

/- A transfer's lots are numbered. -/
theorem transferName_inj
    {j k : Nat}
    (h : s!"transfer:{id}:{j}" = s!"transfer:{id}:{k}") :
    j = k := by
  have hText : toString j = toString k := by
    have hLists := congrArg String.toList h
    simp only [String.toList_append] at hLists
    rw [List.append_cancel_left_eq] at hLists
    exact String.toList_injective hLists
  exact Nat.repr_injective hText

/- The number has no colon, so the transfer's id is read off. -/
theorem transferName_id
    {other : String}
    {j k : Nat}
    (h : s!"transfer:{id}:{j}" = s!"transfer:{other}:{k}") :
    id = other := by
  have hLists := congrArg String.toList h
  simp only [String.toList_append] at hLists
  have hReversed := congrArg List.reverse hLists
  simp only [List.reverse_append] at hReversed
  have hFront :=
    after_mark_inj (colon_not_mem_digits j)
      (colon_not_mem_digits k) hReversed
  rw [← List.reverse_append, ← List.reverse_append] at hFront
  have hTexts := List.reverse_injective hFront
  exact String.toList_injective (List.append_cancel_left hTexts)

theorem fillName_id
    {other : String}
    (h : s!"fill:{id}" = s!"fill:{other}") :
    id = other := by
  have hLists := congrArg String.toList h
  simp only [String.toList_append] at hLists
  exact String.toList_injective (List.append_cancel_left hLists)

theorem mintName_id
    {other : String}
    (h : s!"mint:{id}" = s!"mint:{other}") :
    id = other := by
  have hLists := congrArg String.toList h
  simp only [String.toList_append] at hLists
  exact String.toList_injective (List.append_cancel_left hLists)

def Origin.mark : Origin → Char
  | .fill _ => 'f'
  | .mint _ => 'm'
  | .transfer _ => 't'

theorem Origin.Names.head
    {origin : Origin}
    (h : origin.Names id) :
    id.toList.head? = some origin.mark := by
  cases origin with
  | fill source =>
      rw [h, String.toList_append]
      rfl
  | mint source =>
      rw [h, String.toList_append]
      rfl
  | transfer source =>
      rcases h with ⟨k, rfl⟩
      simp only [String.toList_append]
      rfl

/- The names of lots tell their logs apart. -/
theorem Origin.Names.inj
    {a b : Origin}
    (ha : a.Names id)
    (hb : b.Names id) :
    a = b := by
  have hMark := Option.some.inj (ha.head.symm.trans hb.head)
  cases a with
  | fill source =>
      cases b with
      | fill other => rw [fillName_id (ha.symm.trans hb)]
      | mint other | transfer other =>
          simp [Origin.mark] at hMark
  | mint source =>
      cases b with
      | mint other => rw [mintName_id (ha.symm.trans hb)]
      | fill other | transfer other =>
          simp [Origin.mark] at hMark
  | transfer source =>
      cases b with
      | transfer other =>
          rcases ha with ⟨j, hj⟩
          rcases hb with ⟨k, hk⟩
          rw [transferName_id (hj.symm.trans hk)]
      | fill other | mint other =>
          simp [Origin.mark] at hMark

----
-- Lots That Grow
----

/- What no event changes of a lot. -/
def lotTag
    (lot : SelfTradeLot) : String × Int :=
  (lot.id, lot.longId)

/- Lots change in place, and new ones are named after logs. -/
def LotsGrown
    (origins : List Origin)
    (lots lots' : List SelfTradeLot) : Prop :=
  ∃ more : List (String × Int),
    lots'.map lotTag = lots.map lotTag ++ more ∧
      (origins.Nodup → (more.map Prod.fst).Nodup) ∧
      ∀ tag ∈ more, ∃ origin ∈ origins, origin.Names tag.1

variable {lots lots' : List SelfTradeLot}

theorem LotsGrown.of_tags
    (origins : List Origin)
    (hSame : lots'.map lotTag = lots.map lotTag) :
    LotsGrown origins lots lots' :=
  ⟨[], by rw [hSame, List.append_nil],
    fun _ => List.nodup_nil, fun _ hIn => by cases hIn⟩

/- New lots of one part are not named as those of another. -/
theorem LotsGrown.trans
    {first rest : List Origin}
    {mid : List SelfTradeLot}
    (h : LotsGrown first lots mid)
    (h' : LotsGrown rest mid lots') :
    LotsGrown (first ++ rest) lots lots' := by
  rcases h with ⟨early, hEarly, hEarlyIds, hEarlyNamed⟩
  rcases h' with ⟨late, hLate, hLateIds, hLateNamed⟩
  refine ⟨early ++ late, ?_, ?_, ?_⟩
  · rw [hLate, hEarly, List.append_assoc]
  · intro hNodup
    rcases List.nodup_append.mp hNodup with
      ⟨hFirst, hRest, hApart⟩
    rw [List.map_append, List.nodup_append]
    refine ⟨hEarlyIds hFirst, hLateIds hRest, ?_⟩
    intro id hIn id' hIn' hSame
    rcases List.mem_map.mp hIn with ⟨tag, hTag, rfl⟩
    rcases List.mem_map.mp hIn' with ⟨tag', hTag', rfl⟩
    rcases hEarlyNamed tag hTag with ⟨a, ha, hNames⟩
    rcases hLateNamed tag' hTag' with ⟨b, hb, hNames'⟩
    rw [← hSame] at hNames'
    exact hApart a ha b hb (hNames.inj hNames')
  · intro tag hTag
    rcases List.mem_append.mp hTag with hIn | hIn
    · rcases hEarlyNamed tag hIn with ⟨origin, hOf, hNames⟩
      exact ⟨origin, List.mem_append_left _ hOf, hNames⟩
    · rcases hLateNamed tag hIn with ⟨origin, hOf, hNames⟩
      exact ⟨origin, List.mem_append_right _ hOf, hNames⟩

theorem LotsGrown.trans_tags
    {origins : List Origin}
    {mid : List SelfTradeLot}
    (hSame : mid.map lotTag = lots.map lotTag)
    (h : LotsGrown origins mid lots') :
    LotsGrown origins lots lots' :=
  (LotsGrown.of_tags [] hSame).trans h

theorem map_lotTag_map
    {f : SelfTradeLot → SelfTradeLot}
    (hTag : ∀ lot, lotTag (f lot) = lotTag lot)
    (lots : List SelfTradeLot) :
    (lots.map f).map lotTag = lots.map lotTag := by
  rw [List.map_map]
  exact congrArg (lots.map) (funext hTag)

variable (reads : RangeReads)

theorem lotTag_expireLot
    (at' : Int)
    (onlyLongId : Option Int)
    (lot : SelfTradeLot) :
    lotTag (expireLot reads at' onlyLongId lot) = lotTag lot := by
  unfold expireLot
  split
  · rfl
  · split
    · rfl
    · split <;> rfl

theorem map_lotTag_expire
    (at' : Int)
    (onlyLongId : Option Int)
    (lots : List SelfTradeLot) :
    (expire reads at' onlyLongId lots).map lotTag =
      lots.map lotTag :=
  map_lotTag_map (lotTag_expireLot reads at' onlyLongId) lots

theorem map_lotTag_takeLot
    (state : Consumption)
    (position : Nat) :
    (takeLot state position).lots.map lotTag =
      state.lots.map lotTag := by
  unfold takeLot
  split
  · rfl
  · split
    · rfl
    · next lot hLot =>
        simp only
        rw [List.map_set]
        have hTag :
            (state.lots.map lotTag)[position]? =
              some (lotTag lot) := by
          rw [List.getElem?_map, hLot]
          rfl
        rcases List.getElem?_eq_some_iff.mp hTag with
          ⟨hLess, hAt⟩
        change
          (state.lots.map lotTag).set position (lotTag lot) = _
        rw [← hAt]
        exact List.set_getElem_self hLess

theorem map_lotTag_consume
    (locale : Locale)
    (lots : List SelfTradeLot)
    (longId : Int)
    (holder : String)
    (units : Int) :
    (consume locale lots longId holder units).1.map lotTag =
      lots.map lotTag := by
  unfold consume
  simp only
  have hFold :
      ∀ (positions : List Nat) (state : Consumption),
        (positions.foldl takeLot state).lots.map lotTag =
          state.lots.map lotTag := by
    intro positions
    induction positions with
    | nil => exact fun state => rfl
    | cons position rest ih =>
        exact fun state =>
          (ih _).trans (map_lotTag_takeLot state position)
  exact
    hFold _
      { lots := lots
        missing := units
        portions := [] }

/- An added lot's tag, if it has units. -/
theorem addLot_tags
    (lots : List SelfTradeLot)
    (lot : SelfTradeLot) :
    ∃ more : List (String × Int),
      (addLot lots lot).map lotTag = lots.map lotTag ++ more ∧
        more.Sublist [lotTag lot] := by
  unfold addLot
  split
  · exact ⟨[], (List.append_nil _).symm, List.nil_sublist _⟩
  · exact
      ⟨[lotTag lot], by rw [List.map_append]; rfl,
        List.Sublist.refl _⟩

theorem addLot_grown
    (lots : List SelfTradeLot)
    {lot : SelfTradeLot}
    {origin : Origin}
    (hNamed : origin.Names lot.id) :
    LotsGrown [origin] lots (addLot lots lot) := by
  rcases addLot_tags lots lot with ⟨more, hTags, hSub⟩
  refine ⟨more, hTags, ?_, ?_⟩
  · intro _
    exact
      (List.nodup_singleton lot.id).sublist
        (hSub.map Prod.fst)
  · intro tag hTag
    rw [List.mem_singleton.mp (hSub.subset hTag)]
    exact ⟨origin, List.mem_singleton_self origin, hNamed⟩

/- Each portion's lot, in the order of the portions. -/
theorem transferLots_tags
    (event : SelfTradeEvent)
    (sender recipient : String)
    (lots : List SelfTradeLot)
    (portions : List Portion) :
    ∃ more : List (String × Int),
      (transferLots reads event sender recipient lots
          portions).map lotTag =
        lots.map lotTag ++ more ∧
      (more.map Prod.fst).Sublist
        ((portions.zipIdx.map Prod.snd).map
          (fun k => s!"transfer:{event.id}:{k}")) := by
  unfold transferLots
  induction portions.zipIdx generalizing lots with
  | nil =>
      exact ⟨[], (List.append_nil _).symm, List.nil_sublist _⟩
  | cons portion rest ih =>
      rw [List.foldl_cons]
      rcases addLot_tags lots _ with ⟨own, hOwn, hSub⟩
      rcases ih (addLot lots _) with ⟨more, hTags, hIds⟩
      refine ⟨own ++ more, ?_, ?_⟩
      · rw [hTags, hOwn, List.append_assoc]
      · rw [List.map_append]
        exact (hSub.map Prod.fst).append hIds

theorem transferLots_grown
    (event : SelfTradeEvent)
    (sender recipient : String)
    (lots : List SelfTradeLot)
    (portions : List Portion) :
    LotsGrown [.transfer event.id] lots
      (transferLots reads event sender recipient lots
        portions) := by
  rcases
      transferLots_tags reads event sender recipient lots
        portions with
    ⟨more, hTags, hIds⟩
  refine ⟨more, hTags, ?_, ?_⟩
  · intro _
    apply List.Nodup.sublist hIds
    apply List.Nodup.map
    · intro j k hSame
      exact transferName_inj hSame
    · rw [List.zipIdx_map_snd]
      exact List.nodup_range'
  · intro tag hTag
    have hId := hIds.subset (List.mem_map_of_mem hTag)
    rcases List.mem_map.mp hId with ⟨k, _, hName⟩
    exact
      ⟨.transfer event.id, List.mem_singleton_self _, k,
        hName.symm⟩

/- An event's lots are named after it. -/
theorem reduceKind_grown
    (state : Reduction)
    (event : SelfTradeEvent) :
    LotsGrown event.origin.toList state.lots
      (reduceKind reads state event).lots := by
  unfold reduceKind SelfTradeEvent.origin
  cases event.kind with
  | mint holder => exact addLot_grown _ rfl
  | transfer sender recipient =>
      simp only
      unfold reduceTransfer
      simp only
      split
      · exact LotsGrown.of_tags _ rfl
      · exact
          (transferLots_grown _ _ _ _ _ _).trans_tags
            (map_lotTag_consume _ _ _ _ _)
  | close holder =>
      exact LotsGrown.of_tags _ (map_lotTag_consume _ _ _ _ _)
  | redemption holder =>
      exact LotsGrown.of_tags _ (map_lotTag_consume _ _ _ _ _)
  | fill fill =>
      simp only
      split
      · exact addLot_grown _ rfl
      · exact
          LotsGrown.trans_tags (map_lotTag_consume _ _ _ _ _)
            (addLot_grown _ rfl)

theorem reduceEvent_grown
    {reads : RangeReads}
    {state next : Reduction}
    {event : SelfTradeEvent}
    (h : reduceEvent reads state event = some next) :
    LotsGrown event.origin.toList state.lots next.lots := by
  unfold reduceEvent at h
  split at h
  · cases h
  · have hExpired :=
      map_lotTag_expire reads event.ts (some event.longId)
        state.lots
    simp only at h
    split at h
    · rw [← Option.some.inj h]
      exact LotsGrown.of_tags _ hExpired
    · rw [← Option.some.inj h]
      exact
        LotsGrown.trans_tags hExpired
          (reduceKind_grown reads
            { state with
              lots :=
                expire reads event.ts (some event.longId)
                  state.lots }
            event)

theorem reduceEvents_grown
    {reads : RangeReads}
    {events : List SelfTradeEvent}
    {state next : Reduction}
    (h : events.foldlM (reduceEvent reads) state = some next) :
    LotsGrown (events.filterMap SelfTradeEvent.origin)
      state.lots next.lots := by
  induction events generalizing state with
  | nil =>
      rw [← Option.some.inj h]
      exact LotsGrown.of_tags _ rfl
  | cons event rest ih =>
      rw [List.foldlM_cons] at h
      rcases Option.bind_eq_some_iff.mp h with
        ⟨middle, hFirst, hRest⟩
      have hGrown := (reduceEvent_grown hFirst).trans (ih hRest)
      have hOrigins :
          (event :: rest).filterMap SelfTradeEvent.origin =
            event.origin.toList ++
              rest.filterMap SelfTradeEvent.origin := by
        rw [List.filterMap_cons]
        cases event.origin <;> rfl
      rw [hOrigins]
      exact hGrown

----
-- The Reduced Lots
----

variable {locale : Locale} {state next : SelfTradeState}
variable {batch : SelfTradeBatch}

/- What a reduction leaves, with its final bookkeeping. -/
theorem reduceSelfTrade_some
    {locale : Locale}
    {state next : SelfTradeState}
    {batch : SelfTradeBatch}
    (hAhead : state.cursor < batch.through)
    (h : reduceSelfTrade locale state batch = some next) :
    ∃ final : Reduction,
      (batchEvents locale state batch).foldlM
          (reduceEvent
            (rangeReads locale (batchGraph locale state batch)
              batch))
          (beginReduction
            { state := state, counted := [], attributed := [] }) =
        some final ∧
      next.links =
        (batchGraph locale state batch).edges.values.insertionSort
          (linkBefore locale) ∧
      next.lots =
        (expire
          (rangeReads locale (batchGraph locale state batch)
            batch)
          batch.throughTimestamp none
          final.lots).insertionSort (lotBefore locale) ∧
      next.makers =
        (final.makers.entries.map (fun entry =>
          { writer := entry.1
            units := entry.2 })).insertionSort
          (fun a b => locale.before a.writer b.writer) ∧
      next.unseen =
        (final.unseen.entries.map (fun entry =>
          { reason := entry.1
            units := entry.2.units
            fills := entry.2.fills })).insertionSort
          (fun a b =>
            locale.before a.reason.text b.reason.text) := by
  unfold reduceSelfTrade at h
  rcases Option.map_eq_some_iff.mp h with ⟨run, hRun, rfl⟩
  unfold reduceRun at hRun
  rw [if_neg (not_le.mpr hAhead)] at hRun
  simp only at hRun
  rcases Option.bind_eq_some_iff.mp hRun with
    ⟨final, hFinal, hOut⟩
  rw [← Option.some.inj hOut]
  exact ⟨final, hFinal, rfl, rfl, rfl, rfl⟩

/- The lots of a reduction, before they are sorted. -/
theorem reduceSelfTrade_grown
    (hAhead : state.cursor < batch.through)
    (h : reduceSelfTrade locale state batch = some next) :
    ∃ lots : List SelfTradeLot,
      next.lots.Perm lots ∧
        LotsGrown
          ((batchEvents locale state batch).filterMap
            SelfTradeEvent.origin)
          state.lots lots := by
  rcases reduceSelfTrade_some hAhead h with
    ⟨final, hFinal, _, hLots, _⟩
  refine ⟨_, hLots ▸ List.perm_insertionSort _ _, ?_⟩
  rcases reduceEvents_grown hFinal with
    ⟨more, hTags, hIds, hNamed⟩
  refine ⟨more, ?_, hIds, hNamed⟩
  rw [map_lotTag_expire, hTags]
  congr 1
  exact map_lotTag_map (f := lowerLot) (fun _ => rfl) state.lots

/- Every lot of the state is in what the reduction leaves. -/
theorem reduceSelfTrade_keeps
    (hAhead : state.cursor < batch.through)
    (h : reduceSelfTrade locale state batch = some next)
    {lot : SelfTradeLot}
    (hLot : lot ∈ state.lots) :
    ∃ row ∈ next.lots, lotTag row = lotTag lot := by
  rcases reduceSelfTrade_grown hAhead h with
    ⟨lots, hPerm, more, hTags, _⟩
  have hTag : lotTag lot ∈ lots.map lotTag := by
    rw [hTags]
    exact List.mem_append_left _ (List.mem_map_of_mem hLot)
  rcases List.mem_map.mp hTag with ⟨row, hRow, hSame⟩
  exact ⟨row, hPerm.mem_iff.mpr hRow, hSame⟩

theorem reduceEvent_runs
    (state : Reduction)
    {event : SelfTradeEvent}
    (hUnits : 0 ≤ event.units) :
    ∃ next, reduceEvent reads state event = some next := by
  unfold reduceEvent
  rw [if_neg (not_lt.mpr hUnits)]
  simp only
  split
  · exact ⟨_, rfl⟩
  · exact ⟨_, rfl⟩

/- Only negative units are refused. -/
theorem reduceEvents_run
    (state : Reduction)
    {events : List SelfTradeEvent}
    (hUnits : ∀ event ∈ events, 0 ≤ event.units) :
    ∃ next,
      events.foldlM (reduceEvent reads) state =
        some next := by
  induction events generalizing state with
  | nil => exact ⟨state, rfl⟩
  | cons event rest ih =>
      rcases List.forall_mem_cons.mp hUnits with ⟨hOwn, hRest⟩
      rcases reduceEvent_runs reads state hOwn with
        ⟨middle, hFirst⟩
      rw [List.foldlM_cons, hFirst]
      exact ih middle hRest

theorem reduceSelfTrade_runs
    (locale : Locale)
    (state : SelfTradeState)
    (hUnits : ∀ event ∈ batch.events, 0 ≤ event.units) :
    ∃ next, reduceSelfTrade locale state batch = some next := by
  unfold reduceSelfTrade reduceRun
  split
  · exact ⟨_, rfl⟩
  · have hOwn :
        ∀ event ∈ batchEvents locale state batch,
          0 ≤ event.units := by
      intro event hEvent
      unfold batchEvents at hEvent
      rw [List.mem_insertionSort, List.mem_filter] at hEvent
      exact hUnits event hEvent.1
    simp only
    rcases
        reduceEvents_run
          (rangeReads locale (batchGraph locale state batch)
            batch)
          (beginReduction
            { state := state, counted := [], attributed := [] })
          hOwn with
      ⟨final, hFinal⟩
    rw [hFinal]
    exact ⟨_, rfl⟩

end Callhouse.Indexer.SelfTrade
