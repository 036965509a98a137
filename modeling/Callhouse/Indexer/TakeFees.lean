import Callhouse.Indexer.Reconcile

/-
  matchTakeFees on logs in which each Taken closes the fills
  of its own call.

  Calls of one transaction may be nested: what a Taken closes
  is the latest fills on its side that no earlier Taken of the
  transaction has closed.

  Main declarations:
    * `Closing`, `Closed`
    * `matchCall_closing`, `matchCalls_closings`
    * `matchTakeFees_splits`
    * `Closed.restrict`
-/

----
-- Calls and Their Fills
----

namespace Callhouse.Indexer.Reconcile

/- A fill of a call's transaction, series, taker and side. -/
def onSide
    (call : TakenCall)
    (fill : FeeFill) : Bool :=
  same fill.tx call.tx &&
    decide (fill.longId = call.longId) &&
    same fill.taker call.taker &&
    decide (fill.takerIsBuyer = call.buying)

/- A call and the fills that it closes, in log order. -/
structure Closing where
  taken : TakenCall
  run : List FeeFill
deriving DecidableEq

structure Closing.Whole
    (c : Closing) : Prop where
  run_ne_nil : c.run ≠ []
  sorted :
    c.run.Pairwise (fun a b => a.logIndex < b.logIndex)
  onSide : ∀ fill ∈ c.run, onSide c.taken fill = true
  before : ∀ fill ∈ c.run, fill.logIndex < c.taken.logIndex
  units_pos : ∀ fill ∈ c.run, 0 < fill.units
  premium_pos : ∀ fill ∈ c.run, 0 < fill.premium
  units_eq :
    c.taken.units = (c.run.map (fun fill => fill.units)).sum
  premium_eq :
    c.taken.premium =
      (c.run.map (fun fill => fill.premium)).sum
  fee_nonneg : 0 ≤ c.taken.takerFee

/- Each fill is closed by one call, the first that may. -/
structure Closed
    (closings : List Closing)
    (fills : List FeeFill) : Prop where
  whole : ∀ c ∈ closings, c.Whole
  fills_perm : fills.Perm (closings.flatMap Closing.run)
  ids_nodup : (fills.map (fun fill => fill.id)).Nodup
  logIndex_inj :
    ∀ a ∈ fills, ∀ b ∈ fills, same a.tx b.tx = true →
      a.logIndex = b.logIndex → a = b
  latest :
    ∀ c ∈ closings, ∀ d ∈ closings, ∀ fill ∈ d.run,
      onSide c.taken fill = true →
        fill.logIndex < c.taken.logIndex →
          c = d ∨ d.taken.logIndex < c.taken.logIndex ∨
            ∀ own ∈ c.run, fill.logIndex < own.logIndex

def feeShares
    (c : Closing) : List Int :=
  Fifo.shareLoop c.taken.takerFee c.taken.premium 0
    (c.run.map (fun fill => fill.premium))

theorem same_tx_of_onSide
    {call : TakenCall}
    {a b : FeeFill}
    (ha : onSide call a = true)
    (hb : onSide call b = true) :
    same a.tx b.tx = true := by
  unfold onSide at ha hb
  simp only [Bool.and_eq_true] at ha hb
  exact same_trans ha.1.1.1 (same_symm hb.1.1.1)

variable {c : Closing}

theorem Closing.Whole.premium_taken_pos
    (h : c.Whole) :
    0 < c.taken.premium := by
  rw [h.premium_eq]
  apply List.sum_pos
  · intro premium hPremium
    rcases List.mem_map.mp hPremium with ⟨fill, hFill, rfl⟩
    exact h.premium_pos fill hFill
  · simpa using h.run_ne_nil

theorem length_feeShares
    (c : Closing) :
    (feeShares c).length = c.run.length := by
  unfold feeShares
  rw [Fifo.length_shareLoop, List.length_map]

theorem sum_feeShares
    (h : c.Whole) :
    (feeShares c).sum = c.taken.takerFee := by
  unfold feeShares
  rw [Fifo.sum_shareLoop, sub_zero]
  simpa using h.run_ne_nil

theorem feeShares_nonneg
    (h : c.Whole) :
    ∀ share ∈ feeShares c, 0 ≤ share := by
  apply Fifo.shareLoop_nonneg h.fee_nonneg h.premium_taken_pos
  · intro premium hPremium
    rcases List.mem_map.mp hPremium with ⟨fill, hFill, rfl⟩
    exact (h.premium_pos fill hFill).le
  · rw [← h.premium_eq]
    simp

/- Every share but the last is the floor of the fill's part. -/
theorem mem_zip_feeShares
    (h : c.Whole) :
    ∀ fill ∈ c.run.dropLast,
      (fill,
          c.taken.takerFee * fill.premium /
            c.taken.premium) ∈
        c.run.zip (feeShares c) := by
  intro fill hFill
  have hShares :
      (feeShares c).dropLast =
        c.run.dropLast.map
          (fun fill =>
            c.taken.takerFee * fill.premium /
              c.taken.premium) := by
    unfold feeShares
    rw [Fifo.dropLast_shareLoop, ← List.map_dropLast,
      List.map_map]
    apply List.map_congr_left
    intro own hOwn
    have hPremium :=
      h.premium_pos own (List.mem_of_mem_dropLast hOwn)
    exact
      Int.tdiv_eq_ediv_of_nonneg
        (mul_nonneg h.fee_nonneg hPremium.le)
  have hZip :
      (c.run.zip (feeShares c)).dropLast =
        c.run.dropLast.zip (feeShares c).dropLast := by
    rw [List.dropLast_eq_take, List.dropLast_eq_take,
      List.dropLast_eq_take, List.length_zip,
      length_feeShares, min_self, List.zip_eq_zipWith,
      List.zip_eq_zipWith, List.take_zipWith]
  apply List.mem_of_mem_dropLast
  have hPairs :=
    List.zip_map' (l := c.run.dropLast) (f := id)
      (g := fun fill : FeeFill =>
        c.taken.takerFee * fill.premium / c.taken.premium)
  rw [List.map_id] at hPairs
  rw [hZip, hShares, hPairs, List.mem_map]
  exact ⟨fill, hFill, rfl⟩

----
-- One Call
----

/- Writing shares marks their fills, in order. -/
theorem setFees_assigned
    (state : TakeFees)
    (shares : List (FeeFill × Int))
    (hNew :
      (state.assigned ++
        shares.map (fun share => share.1.id)).Nodup) :
    (setFees state shares).assigned =
      state.assigned ++
        shares.map (fun share => share.1.id) := by
  induction shares generalizing state with
  | nil => exact (List.append_nil _).symm
  | cons share rest ih =>
      have hHead : share.1.id ∉ state.assigned := by
        intro hOld
        exact
          (List.nodup_append.mp hNew).2.2 _ hOld _
            List.mem_cons_self rfl
      have hAdd :
          addAssigned state.assigned share.1.id =
            state.assigned ++ [share.1.id] :=
        if_neg hHead
      rw [List.map_cons] at hNew ⊢
      rw [List.append_cons] at hNew ⊢
      rw [← hAdd] at hNew ⊢
      exact ih _ hNew

theorem setFees_get?_of_notMem
    (state : TakeFees)
    (shares : List (FeeFill × Int))
    {id : String}
    (hOther : id ∉ shares.map (fun share => share.1.id)) :
    (setFees state shares).fees.get? id =
      state.fees.get? id := by
  induction shares generalizing state with
  | nil => rfl
  | cons share rest ih =>
      rw [List.map_cons, List.mem_cons, not_or] at hOther
      have hRest := ih
        { fees := state.fees.set share.1.id share.2
          assigned := addAssigned state.assigned share.1.id }
        hOther.2
      exact
        hRest.trans
          (OrderedMap.get?_set_of_ne state.fees share.2
            (Ne.symm hOther.1))

theorem setFees_get?
    (state : TakeFees)
    {shares : List (FeeFill × Int)}
    (hIds : (shares.map (fun share => share.1.id)).Nodup)
    {share : FeeFill × Int}
    (hShare : share ∈ shares) :
    (setFees state shares).fees.get? share.1.id =
      some share.2 := by
  induction shares generalizing state with
  | nil => cases hShare
  | cons first rest ih =>
      rw [List.map_cons, List.nodup_cons] at hIds
      rcases List.mem_cons.mp hShare with rfl | hRest
      · have hLater :=
          setFees_get?_of_notMem
            { fees := state.fees.set share.1.id share.2
              assigned :=
                addAssigned state.assigned share.1.id }
            rest hIds.1
        exact
          hLater.trans
            (OrderedMap.get?_set_self state.fees share.1.id
              share.2)
      · exact ih _ hIds.2 hRest

/- The walk takes the fills whose units the call has. -/
theorem walkFills_append
    {run rest : List FeeFill}
    (hUnits : ∀ fill ∈ run, 0 < fill.units)
    (matched : List FeeFill) :
    walkFills (run ++ rest)
        (run.map (fun fill => fill.units)).sum matched =
      .ok (0, matched ++ run) := by
  induction run generalizing matched with
  | nil =>
      rw [List.append_nil]
      cases rest with
      | nil => rfl
      | cons fill rest => exact if_pos rfl
  | cons fill run ih =>
      rw [List.forall_mem_cons] at hUnits
      have hRun : 0 ≤ (run.map (fun fill => fill.units)).sum := by
        apply List.sum_nonneg
        intro units hMem
        rcases List.mem_map.mp hMem with ⟨own, hOwn, rfl⟩
        exact (hUnits.2 own hOwn).le
      have hHead := hUnits.1
      rw [List.map_cons, List.sum_cons, List.cons_append]
      unfold walkFills
      rw [if_neg (by omega), if_neg (by omega),
        add_sub_cancel_left, ih hUnits.2, ← List.append_cons]

/- What is left to claim starts with the call's own fills. -/
theorem feeCandidates_eq
    {fills : List FeeFill}
    {assigned : List String}
    (hWhole : c.Whole)
    (hFills : ∀ fill ∈ c.run, fill ∈ fills)
    (hNodup : fills.Nodup)
    (hInj :
      ∀ a ∈ fills, ∀ b ∈ fills, same a.tx b.tx = true →
        a.logIndex = b.logIndex → a = b)
    (hOpen : ∀ fill ∈ c.run, fill.id ∉ assigned)
    (hOlder :
      ∀ fill ∈ fills, fill ∉ c.run →
        fill.id ∉ assigned → onSide c.taken fill = true →
          fill.logIndex < c.taken.logIndex →
            ∀ own ∈ c.run, fill.logIndex < own.logIndex) :
    ∃ older,
      feeCandidates fills assigned c.taken =
        c.run.reverse ++ older := by
  have hMem :
      ∀ fill, fill ∈ feeCandidates fills assigned c.taken ↔
        fill ∈ fills ∧ fill.id ∉ assigned ∧
          onSide c.taken fill = true ∧
          fill.logIndex < c.taken.logIndex := by
    intro fill
    unfold feeCandidates onSide
    rw [List.mem_insertionSort, List.mem_filter]
    simp only [Bool.and_eq_true, decide_eq_true_eq]
    tauto
  have hDistinct :
      (feeCandidates fills assigned c.taken).Nodup := by
    unfold feeCandidates
    exact
      (List.perm_insertionSort _ _).nodup_iff.mpr
        (hNodup.filter _)
  have : Std.Total
      (fun a b : FeeFill => b.logIndex ≤ a.logIndex) :=
    ⟨fun a b => le_total b.logIndex a.logIndex⟩
  have : IsTrans FeeFill
      (fun a b => b.logIndex ≤ a.logIndex) :=
    ⟨fun _ _ _ hab hbc => hbc.trans hab⟩
  have hSorted :
      (feeCandidates fills assigned c.taken).Pairwise
        (fun a b => b.logIndex ≤ a.logIndex) :=
    List.pairwise_insertionSort _ _
  have hRunNodup : c.run.Nodup :=
    hWhole.sorted.imp
      (fun h hSame => absurd (hSame ▸ h) (lt_irrefl _))
  have hOwn :
      ((feeCandidates fills assigned c.taken).filter
        (fun fill => fill ∈ c.run)).Perm c.run.reverse := by
    rw [List.perm_ext_iff_of_nodup (hDistinct.filter _)
      (List.nodup_reverse.mpr hRunNodup)]
    intro fill
    rw [List.mem_filter, List.mem_reverse, decide_eq_true_eq,
      hMem]
    constructor
    · exact fun h => h.2
    · intro h
      exact
        ⟨⟨hFills fill h, hOpen fill h,
            hWhole.onSide fill h, hWhole.before fill h⟩, h⟩
  refine
    ⟨(feeCandidates fills assigned c.taken).filter
      (fun fill => !decide (fill ∈ c.run)), ?_⟩
  refine
    List.Perm.eq_of_pairwise ?_ hSorted ?_
      ((List.filter_append_perm
          (fun fill => decide (fill ∈ c.run)) _).symm.trans
        (hOwn.append_right _))
  · intro a b ha hb hba hab
    rw [hMem] at ha
    have hb' := (hMem b).mp ?_
    · exact
        hInj a ha.1 b hb'.1
          (same_tx_of_onSide ha.2.2.1 hb'.2.2.1)
          (le_antisymm hab hba)
    · rcases List.mem_append.mp hb with hRun | hOld
      · exact (List.mem_filter.mp (hOwn.mem_iff.mpr hRun)).1
      · exact (List.mem_filter.mp hOld).1
  · rw [List.pairwise_append, List.pairwise_reverse]
    refine
      ⟨hWhole.sorted.imp (fun h => h.le), hSorted.filter _,
        ?_⟩
    intro own hRun fill hOld
    rcases List.mem_filter.mp hOld with ⟨hIn, hNot⟩
    rw [hMem] at hIn
    have hOther : fill ∉ c.run := by simpa using hNot
    exact
      (hOlder fill hIn.1 hOther hIn.2.1 hIn.2.2.1 hIn.2.2.2
        own (List.mem_reverse.mp hRun)).le

/- A call marks its own fills and gives them its shares. -/
theorem matchCall_closing
    {fills : List FeeFill}
    {state : TakeFees}
    (hWhole : c.Whole)
    (hCandidates :
      ∃ older,
        feeCandidates fills state.assigned c.taken =
          c.run.reverse ++ older) :
    matchCall fills state c.taken =
      .ok (setFees state (c.run.zip (feeShares c))) := by
  rcases hCandidates with ⟨older, hCandidates⟩
  have hPremium := hWhole.premium_taken_pos
  have hUnits :
      c.taken.units =
        (c.run.reverse.map (fun fill => fill.units)).sum := by
    rw [hWhole.units_eq, List.map_reverse, List.sum_reverse]
  unfold matchCall
  rw [hCandidates, hUnits,
    walkFills_append
      (fun fill h =>
        hWhole.units_pos fill (List.mem_reverse.mp h))]
  simp only [bind, Except.bind, pure, Except.pure,
    List.nil_append, List.reverse_reverse,
    ← hWhole.premium_eq]
  rw [if_neg (by simp), if_neg (by simp),
    if_neg (by omega), if_neg (by omega)]
  rfl

----
-- All Calls
----

def runIds
    (closings : List Closing) : List String :=
  (closings.flatMap Closing.run).map (fun fill => fill.id)

/- The fills of the calls done so far are settled. -/
structure Settled
    (state : TakeFees)
    (done : List Closing) : Prop where
  assigned_eq : state.assigned = runIds done
  fees_eq :
    ∀ c ∈ done, ∀ share ∈ c.run.zip (feeShares c),
      state.fees.get? share.1.id = some share.2

theorem map_id_zip_feeShares
    (c : Closing) :
    (c.run.zip (feeShares c)).map
        (fun share => share.1.id) =
      c.run.map (fun fill => fill.id) := by
  have hFirst : (c.run.zip (feeShares c)).map Prod.fst = c.run :=
    List.map_fst_zip (length_feeShares c).ge
  have hIds :=
    congrArg (List.map (fun fill : FeeFill => fill.id)) hFirst
  rwa [List.map_map] at hIds

theorem runIds_append
    (done todo : List Closing) :
    runIds (done ++ todo) = runIds done ++ runIds todo := by
  unfold runIds
  rw [List.flatMap_append, List.map_append]

theorem runIds_cons
    (c : Closing)
    (todo : List Closing) :
    runIds (c :: todo) =
      c.run.map (fun fill => fill.id) ++ runIds todo := by
  unfold runIds
  rw [List.flatMap_cons, List.map_append]

theorem mem_runIds
    {closings : List Closing}
    (hc : c ∈ closings)
    {fill : FeeFill}
    (hFill : fill ∈ c.run) :
    fill.id ∈ runIds closings :=
  List.mem_map_of_mem
    (List.mem_flatMap.mpr ⟨c, hc, hFill⟩)

variable {fills : List FeeFill} {closings : List Closing}

theorem Closed.nodup_runIds
    (h : Closed closings fills)
    {same : List Closing}
    (hPerm : same.Perm closings) :
    (runIds same).Nodup := by
  have hFills : (same.flatMap Closing.run).Perm fills :=
    (hPerm.flatMap_right _).trans h.fills_perm.symm
  exact (hFills.map _).nodup_iff.mpr h.ids_nodup

theorem matchCalls_closings
    (h : Closed closings fills)
    (state : TakeFees)
    (done todo : List Closing)
    (hPerm : (done ++ todo).Perm closings)
    (hSorted :
      (done ++ todo).Pairwise
        (fun a b => a.taken.logIndex ≤ b.taken.logIndex))
    (hState : Settled state done) :
    ∃ final,
      (todo.map Closing.taken).foldlM (matchCall fills)
          state = .ok final ∧
        Settled final (done ++ todo) := by
  induction todo generalizing done state with
  | nil =>
      refine ⟨state, rfl, ?_⟩
      rwa [List.append_nil]
  | cons c rest ih =>
      have hIn : c ∈ closings :=
        hPerm.subset
          (List.mem_append_right _ List.mem_cons_self)
      have hWhole := h.whole c hIn
      have hIds := h.nodup_runIds hPerm
      rw [runIds_append, runIds_cons, ← List.append_assoc]
        at hIds
      have hOwnIds := (List.nodup_append.mp hIds).1
      have hFills : ∀ fill ∈ c.run, fill ∈ fills := by
        intro fill hFill
        exact
          h.fills_perm.mem_iff.mpr
            (List.mem_flatMap.mpr ⟨c, hIn, hFill⟩)
      have hOpen : ∀ fill ∈ c.run, fill.id ∉ state.assigned := by
        intro fill hFill hOld
        rw [hState.assigned_eq] at hOld
        exact
          (List.nodup_append.mp hOwnIds).2.2 _ hOld _
            (List.mem_map_of_mem hFill) rfl
      -- What is open and not of this call is of a later one.
      have hOlder :
          ∀ fill ∈ fills, fill ∉ c.run →
            fill.id ∉ state.assigned →
              onSide c.taken fill = true →
                fill.logIndex < c.taken.logIndex →
                  ∀ own ∈ c.run,
                    fill.logIndex < own.logIndex := by
        intro fill hFill hOther hUnassigned hSide hBefore
        rw [h.fills_perm.mem_iff, List.mem_flatMap] at hFill
        rcases hFill with ⟨d, hd, hRun⟩
        rcases
            h.latest c hIn d hd fill hRun hSide hBefore with
          rfl | hEarlier | hLatest
        · exact absurd hRun hOther
        · exfalso
          rcases
              List.mem_append.mp (hPerm.mem_iff.mpr hd) with
            hDone | hTodo
          · apply hUnassigned
            rw [hState.assigned_eq]
            exact mem_runIds hDone hRun
          · rcases List.mem_cons.mp hTodo with rfl | hRest
            · exact hOther hRun
            · have hLe :=
                (List.pairwise_cons.mp
                  (List.pairwise_append.mp hSorted).2.1).1
                    d hRest
              omega
        · exact hLatest
      have hCall :=
        matchCall_closing hWhole
          (feeCandidates_eq hWhole hFills
            (h.ids_nodup.of_map _) h.logIndex_inj hOpen
            hOlder)
      have hNew :
          (state.assigned ++
            (c.run.zip (feeShares c)).map
              (fun share => share.1.id)).Nodup := by
        rwa [map_id_zip_feeShares, hState.assigned_eq]
      have hAssigned := setFees_assigned state _ hNew
      have hNext :
          Settled
            (setFees state (c.run.zip (feeShares c)))
            (done ++ [c]) := by
        constructor
        · rw [hAssigned, map_id_zip_feeShares,
            hState.assigned_eq, runIds_append, runIds_cons]
          exact congrArg _ (List.append_nil _).symm
        · intro d hd share hShare
          rcases List.mem_append.mp hd with hOld | hLast
          · rw [setFees_get?_of_notMem]
            · exact hState.fees_eq d hOld share hShare
            · intro hMem
              have hFill := (List.of_mem_zip hShare).1
              apply
                (List.nodup_append.mp hNew).2.2 _ _ _ hMem rfl
              rw [hState.assigned_eq]
              exact mem_runIds hOld hFill
          · rw [List.mem_singleton] at hLast
            subst hLast
            exact
              setFees_get? state
                (List.nodup_append.mp hNew).2.1 hShare
      rw [List.append_cons] at hPerm hSorted ⊢
      rcases ih _ _ hPerm hSorted hNext with
        ⟨final, hFold, hFinal⟩
      refine ⟨final, ?_, hFinal⟩
      rw [List.map_cons, List.foldlM_cons, hCall]
      exact hFold

/- Every fill's fee is its share of its own call's. -/
theorem Closed.fees_matched
    (h : Closed closings fills) :
    ∃ fees,
      matchTakeFees fills (closings.map Closing.taken) =
          .ok fees ∧
        ∀ c ∈ closings, ∀ share ∈ c.run.zip (feeShares c),
          fees.get? share.1.id = some share.2 := by
  have : Std.Total
      (fun a b : Closing =>
        a.taken.logIndex ≤ b.taken.logIndex) :=
    ⟨fun a b => le_total a.taken.logIndex b.taken.logIndex⟩
  have : IsTrans Closing
      (fun a b => a.taken.logIndex ≤ b.taken.logIndex) :=
    ⟨fun _ _ _ => le_trans⟩
  have hSort :
      (closings.map Closing.taken).insertionSort
          (fun a b => a.logIndex ≤ b.logIndex) =
        (closings.insertionSort
          (fun a b =>
            a.taken.logIndex ≤ b.taken.logIndex)).map
              Closing.taken := by
    symm
    apply List.map_insertionSort
    intro a _ b _
    exact Iff.rfl
  have hPerm :=
    List.perm_insertionSort
      (fun a b : Closing =>
        a.taken.logIndex ≤ b.taken.logIndex) closings
  have hStart :
      Settled
        { fees := OrderedMap.empty
          assigned := [] } [] :=
    { assigned_eq := rfl
      fees_eq := fun c hc => absurd hc List.not_mem_nil }
  rcases
      matchCalls_closings h _ []
        (closings.insertionSort
          (fun a b =>
            a.taken.logIndex ≤ b.taken.logIndex))
        hPerm (List.pairwise_insertionSort _ _) hStart with
    ⟨final, hFold, hFinal⟩
  refine ⟨final.fees, ?_, ?_⟩
  · have hLength : final.assigned.length = fills.length := by
      rw [hFinal.assigned_eq]
      unfold runIds
      rw [List.length_map]
      exact
        ((hPerm.flatMap_right _).trans
          h.fills_perm.symm).length_eq
    unfold matchTakeFees
    rw [hSort, hFold]
    simp only [bind, Except.bind, pure, Except.pure]
    rw [if_neg (by simp [hLength])]
  · intro c hc
    exact hFinal.fees_eq c (hPerm.mem_iff.mpr hc)

/-
  Every fill bears a share of the fee of the call that closed
  it.  A call's shares sum to its fee, and each but the last
  is the floor of the fill's part of the premium.
-/
theorem matchTakeFees_splits
    (h : Closed closings fills) :
    ∃ fees,
      matchTakeFees fills (closings.map Closing.taken) =
          .ok fees ∧
        (∀ fill ∈ fills,
          ∃ fee, fees.get? fill.id = some fee ∧ 0 ≤ fee) ∧
        ∀ c ∈ closings,
          (c.run.map (fun fill => fees.getD fill.id 0)).sum =
              c.taken.takerFee ∧
            ∀ fill ∈ c.run.dropLast,
              fees.get? fill.id =
                some
                  (c.taken.takerFee * fill.premium /
                    c.taken.premium) := by
  rcases h.fees_matched with ⟨fees, hRun, hFees⟩
  refine ⟨fees, hRun, ?_, ?_⟩
  · intro fill hFill
    rw [h.fills_perm.mem_iff, List.mem_flatMap] at hFill
    rcases hFill with ⟨c, hc, hRun⟩
    have hFirst :
        (c.run.zip (feeShares c)).map Prod.fst = c.run :=
      List.map_fst_zip (length_feeShares c).ge
    rw [← hFirst, List.mem_map] at hRun
    rcases hRun with ⟨share, hShare, rfl⟩
    exact
      ⟨share.2, hFees c hc share hShare,
        feeShares_nonneg (h.whole c hc) _
          (List.of_mem_zip hShare).2⟩
  · intro c hc
    constructor
    · have hGot :
          (c.run.zip (feeShares c)).map
              (fun share =>
                fees.getD share.1.id 0) =
            (c.run.zip (feeShares c)).map Prod.snd := by
        apply List.map_congr_left
        intro share hShare
        unfold OrderedMap.getD
        rw [hFees c hc share hShare]
        rfl
      have hFirst :
          (c.run.zip (feeShares c)).map Prod.fst = c.run :=
        List.map_fst_zip (length_feeShares c).ge
      have hSecond :
          (c.run.zip (feeShares c)).map Prod.snd =
            feeShares c :=
        List.map_snd_zip (length_feeShares c).le
      have hRun :
          c.run.map (fun fill => fees.getD fill.id 0) =
            (c.run.zip (feeShares c)).map
              (fun share => fees.getD share.1.id 0) := by
        conv_lhs => rw [← hFirst]
        rw [List.map_map]
        rfl
      rw [hRun, hGot, hSecond, sum_feeShares (h.whole c hc)]
    · intro fill hFill
      exact
        hFees c hc _ (mem_zip_feeShares (h.whole c hc) fill hFill)

----
-- Some Transactions of Many
----

/- Dropping calls by their transaction drops their fills. -/
theorem flatMap_run_filter
    (keep : String → Bool)
    {closings : List Closing}
    (hTxs :
      ∀ c ∈ closings, ∀ fill ∈ c.run, fill.tx = c.taken.tx) :
    (closings.filter (fun c => keep c.taken.tx)).flatMap
        Closing.run =
      (closings.flatMap Closing.run).filter
        (fun fill => keep fill.tx) := by
  induction closings with
  | nil => rfl
  | cons c rest ih =>
      rw [List.forall_mem_cons] at hTxs
      have hRun :
          c.run.filter (fun fill => keep fill.tx) =
            if keep c.taken.tx then c.run else [] := by
        split
        · next hKeep =>
            rw [List.filter_eq_self]
            intro fill hFill
            rw [hTxs.1 fill hFill, hKeep]
        · next hDrop =>
            rw [List.filter_eq_nil_iff]
            intro fill hFill
            rwa [hTxs.1 fill hFill]
      rw [List.flatMap_cons, List.filter_append, hRun,
        ← ih hTxs.2, List.filter_cons]
      split
      · rw [List.flatMap_cons]
      · rw [List.nil_append]

/- Closed logs are closed transaction by transaction. -/
theorem Closed.restrict
    (h : Closed closings fills)
    (hTxs :
      ∀ c ∈ closings, ∀ fill ∈ c.run, fill.tx = c.taken.tx)
    (keep : String → Bool) :
    Closed (closings.filter (fun c => keep c.taken.tx))
      (fills.filter (fun fill => keep fill.tx)) where
  whole := fun c hc => h.whole c (List.mem_of_mem_filter hc)
  fills_perm := by
    rw [flatMap_run_filter keep hTxs]
    exact h.fills_perm.filter _
  ids_nodup :=
    h.ids_nodup.sublist (List.filter_sublist.map _)
  logIndex_inj := fun a ha b hb =>
    h.logIndex_inj a (List.mem_of_mem_filter ha) b
      (List.mem_of_mem_filter hb)
  latest := fun c hc d hd =>
    h.latest c (List.mem_of_mem_filter hc) d
      (List.mem_of_mem_filter hd)

----
-- Nested Calls
----

/- A call of three fills, with one of another inside it. -/
def nestedFill
    (id : String)
    (units premium logIndex : Int) : FeeFill :=
  { id := id
    tx := "0xabc"
    longId := 100
    taker := "0x22"
    takerIsBuyer := true
    units := units
    premium := premium
    logIndex := logIndex }

def nestedTaken
    (units premium takerFee logIndex : Int) : TakenCall :=
  { tx := "0xabc"
    longId := 100
    taker := "0x22"
    buying := true
    units := units
    premium := premium
    takerFee := takerFee
    logIndex := logIndex }

def nestedClosings : List Closing :=
  [ { taken := nestedTaken 10 30 7 12
      run := [nestedFill "a" 3 9 3, nestedFill "b" 7 21 10] },
    { taken := nestedTaken 2 10 3 7
      run := [nestedFill "c" 2 10 5] }]

theorem nestedClosings_closed :
    Closed nestedClosings
      [nestedFill "a" 3 9 3, nestedFill "c" 2 10 5,
        nestedFill "b" 7 21 10] where
  whole := by
    unfold nestedClosings
    simp only [List.forall_mem_cons]
    refine ⟨?_, ?_, ?_⟩
    · constructor <;>
        simp [nestedFill, nestedTaken, onSide, same]
    · constructor <;>
        simp [nestedFill, nestedTaken, onSide, same]
    · simp
  fills_perm := by decide
  ids_nodup := by decide
  logIndex_inj := by
    simp [nestedFill]
  latest := by
    simp [nestedClosings, nestedFill, nestedTaken]

theorem matchTakeFees_splits_nested :
    ∃ fees,
      matchTakeFees
          [nestedFill "a" 3 9 3, nestedFill "c" 2 10 5,
            nestedFill "b" 7 21 10]
          (nestedClosings.map Closing.taken) = .ok fees ∧
        (∀ fill ∈
            [nestedFill "a" 3 9 3, nestedFill "c" 2 10 5,
              nestedFill "b" 7 21 10],
          ∃ fee, fees.get? fill.id = some fee ∧ 0 ≤ fee) ∧
        ∀ c ∈ nestedClosings,
          (c.run.map (fun fill => fees.getD fill.id 0)).sum =
              c.taken.takerFee ∧
            ∀ fill ∈ c.run.dropLast,
              fees.get? fill.id =
                some
                  (c.taken.takerFee * fill.premium /
                    c.taken.premium) :=
  matchTakeFees_splits nestedClosings_closed

end Callhouse.Indexer.Reconcile
