import Callhouse.Web.BuyWalk
import Callhouse.Web.Ticket

/-
  web/lib/v2/ticket.ts against web/lib/v2/payoff.ts: the
  check of the quoted orders before the transaction and the
  plan that chose them keep the same writers' budgets.

  Main declarations:
    * `Planned`, `costToBuy_planned`
    * `RowKept`, `RentLater`
    * `writerFills`
    * `staleSelectedOrders_agrees`
-/

----
-- What the Plan Guarantees of Its Fills
----

namespace Callhouse.Web

section

/-
  The fills are of quoted asks, and in their order the needs
  of each writer fit the budget that it has left.
-/
def Planned
    (asks : List TicketAsk)
    (rent : Option RentTerms) :
    OrderedMap String Int → List BuyFill → Prop
  | _, [] => True
  | budget, fill :: rest =>
      ∃ ask ∈ asks,
        ask.orderId = fill.orderId ∧
          fill.price = ask.price ∧
          fill.units ≤ ask.onChainRemainingUnits ∧
          match ask.kind with
          | .AskResale => Planned asks rent budget rest
          | .AskWrite =>
              ∃ terms initial need,
                rent = some terms ∧
                  ask.makerFreeCollateral = some initial ∧
                  writerCollateralNeed fill.units terms =
                    .ok need ∧
                  need ≤
                    budget.getD ask.maker.toLower initial ∧
                  Planned asks rent
                    (budget.set ask.maker.toLower
                      (budget.getD ask.maker.toLower initial -
                        need)) rest

variable {asks : List TicketAsk} {rent : Option RentTerms}

/- The walk appends fills that the plan can be led by. -/
structure BuyWalk.Plans
    (asks : List TicketAsk)
    (rent : Option RentTerms)
    (walk walk' : BuyWalk)
    (new : List BuyFill) : Prop where
  fills : walk'.fills = walk.fills ++ new
  planned :
    ∀ rest,
      Planned asks rent walk'.writerBudget rest →
        Planned asks rent walk.writerBudget (new ++ rest)

variable {walk' : BuyWalk} {walk : BuyWalk}

theorem BuyWalk.Plans.of_same
    (hFills : walk'.fills = walk.fills)
    (hBudget : walk'.writerBudget = walk.writerBudget) :
    BuyWalk.Plans asks rent walk walk' [] where
  fills := by simp [hFills]
  planned := by
    intro rest h
    rw [← hBudget]
    exact h

theorem BuyWalk.Plans.trans
    {a b c : BuyWalk}
    {xs ys : List BuyFill}
    (h : BuyWalk.Plans asks rent a b xs)
    (h' : BuyWalk.Plans asks rent b c ys) :
    BuyWalk.Plans asks rent a c (xs ++ ys) where
  fills := by
    rw [h'.fills, h.fills, List.append_assoc]
  planned := by
    intro rest hRest
    rw [List.append_assoc]
    exact h.planned _ (h'.planned rest hRest)

theorem fill_cases
    {ask : Ask}
    {units : Int}
    (h : walk.fill ask units = .ok walk') :
    walk'.seen = walk.seen ∧
      walk'.writerBudget = walk.writerBudget ∧
        ∃ amount,
          walk'.fills =
            walk.fills ++
              [{ orderId := ask.orderId
                 price := ask.price
                 units := units
                 premium := amount }] := by
  unfold BuyWalk.fill at h
  split at h
  · cases h
  · cases h
    exact ⟨rfl, rfl, _, rfl⟩

theorem fillWrite_plans
    {ask : TicketAsk}
    (hMem : ask ∈ asks)
    (hKind : ask.kind = .AskWrite)
    {units : Int}
    (hUnits : units ≤ ask.onChainRemainingUnits)
    (h : walk.fillWrite ask.ask units rent = .ok walk') :
    walk'.seen = walk.seen ∧
      ∃ new, BuyWalk.Plans asks rent walk walk' new := by
  unfold BuyWalk.fillWrite at h
  split at h
  · cases h
    exact ⟨rfl, [], .of_same rfl rfl⟩
  · cases h
    exact ⟨rfl, [], .of_same rfl rfl⟩
  · cases h
    exact ⟨rfl, [], .of_same rfl rfl⟩
  · next maker terms initial hMaker hFree =>
      have hSame : ask.maker = maker := Option.some.inj hMaker
      subst hSame
      split at h
      · cases h
        exact ⟨rfl, [], .of_same rfl rfl⟩
      · simp only at h
        split at h
        · cases h
        · next need hNeed =>
            split at h
            · cases h
              exact ⟨rfl, [], .of_same rfl rfl⟩
            · next hEnough =>
                rcases fill_cases h with
                  ⟨hSeen, hBudget, amount, hFills⟩
                refine
                  ⟨hSeen, _,
                    { fills := hFills, planned := ?_ }⟩
                intro rest hRest
                rw [hBudget] at hRest
                refine ⟨ask, hMem, rfl, rfl, hUnits, ?_⟩
                rw [hKind]
                exact
                  ⟨terms, initial, need, rfl, hFree, hNeed,
                    not_lt.mp hEnough, hRest⟩

theorem walkAsk_plans
    {ask : TicketAsk}
    (hMem : ask ∈ asks)
    (h : walkAsk rent walk ask.ask = .ok walk') :
    ask.orderId ∉ walk.seen ∧
      walk'.seen = walk.seen ++ [ask.orderId] ∧
        ∃ new, BuyWalk.Plans asks rent walk walk' new := by
  unfold walkAsk at h
  split at h
  · cases h
  · next hChecked =>
      have hNew : ask.orderId ∉ walk.seen :=
        fun hOld => hChecked (.inr hOld)
      refine ⟨hNew, ?_⟩
      simp only at h
      split at h
      · cases h
      · split at h
        · cases h
          exact ⟨rfl, [], .of_same rfl rfl⟩
        · split at h
          · cases h
            exact ⟨rfl, [], .of_same rfl rfl⟩
          · generalize hUnits :
              (if ask.ask.onChainRemainingUnits.getD
                    ask.ask.units < walk.remaining then
                  ask.ask.onChainRemainingUnits.getD
                    ask.ask.units
                else walk.remaining) = units at h
            have hLe : units ≤ ask.onChainRemainingUnits := by
              have hStored :
                  ask.ask.onChainRemainingUnits.getD
                      ask.ask.units =
                    ask.onChainRemainingUnits := rfl
              rw [hStored] at hUnits
              split at hUnits <;> omega
            split at h
            · next hKind =>
                have hWrite : ask.kind = .AskWrite :=
                  Option.some.inj hKind
                rcases fillWrite_plans hMem hWrite hLe h with
                  ⟨hSeen, new, hPlans⟩
                exact
                  ⟨hSeen, new,
                    { fills := hPlans.fills
                      planned := hPlans.planned }⟩
            · next hKind =>
                have hResale : ask.kind = .AskResale := by
                  cases hCase : ask.kind with
                  | AskResale => rfl
                  | AskWrite =>
                      exact absurd (congrArg some hCase) hKind
                rcases fill_cases h with
                  ⟨hSeen, hBudget, amount, hFills⟩
                refine
                  ⟨hSeen, _,
                    { fills := hFills, planned := ?_ }⟩
                intro rest hRest
                rw [hBudget] at hRest
                refine ⟨ask, hMem, rfl, rfl, hLe, ?_⟩
                rw [hResale]
                exact hRest

theorem walkAsks_plans
    {list : List Ask}
    (hList : ∀ x ∈ list, ∃ ask ∈ asks, ask.ask = x)
    (h : walkAsks rent walk list = .ok walk') :
    (walk.seen.Nodup →
        (walk.seen ++ list.map (fun a => a.orderId)).Nodup) ∧
      ∃ new, BuyWalk.Plans asks rent walk walk' new := by
  induction list generalizing walk with
  | nil =>
      cases h
      exact ⟨by simp, [], .of_same rfl rfl⟩
  | cons x rest ih =>
      rw [walkAsks] at h
      cases hFirst : walkAsk rent walk x with
      | error e =>
          rw [hFirst] at h
          cases h
      | ok next =>
          rw [hFirst] at h
          rcases hList x (List.mem_cons_self ..) with
            ⟨ask, hMem, rfl⟩
          rcases walkAsk_plans hMem hFirst with
            ⟨hNew, hSeen, new, hPlans⟩
          rcases ih
              (fun y hy =>
                hList y (List.mem_cons_of_mem _ hy)) h with
            ⟨hIds, more, hMore⟩
          refine ⟨?_, new ++ more, hPlans.trans hMore⟩
          intro hOld
          have hNext : next.seen.Nodup := by
            rw [hSeen]
            exact
              List.nodup_append.mpr
                ⟨hOld, List.nodup_singleton _,
                  by
                    intro a ha b hb hSame
                    rw [List.mem_singleton] at hb
                    exact hNew (hb ▸ hSame ▸ ha)⟩
          have hAll := hIds hNext
          rw [hSeen, List.append_assoc] at hAll
          exact hAll

/- A buy's asks have distinct ids, and its fills are planned. -/
theorem costToBuy_planned
    {units : Int}
    {params : TakerFeeParams}
    {buy : BuyCost}
    (h :
      costToBuy (asks.map TicketAsk.ask) units params rent =
        .ok buy) :
    (asks.map (fun a => a.orderId)).Nodup ∧
      Planned asks rent OrderedMap.empty buy.fills := by
  unfold costToBuy at h
  split at h
  · cases h
  · split at h
    · cases h
    · next walk hWalk =>
        split at h
        · cases h
        · cases h
          have hPerm := sortAsks_perm (asks.map TicketAsk.ask)
          have hList :
              ∀ x ∈ sortAsks (asks.map TicketAsk.ask),
                ∃ ask ∈ asks, ask.ask = x := by
            intro x hx
            exact List.mem_map.mp (hPerm.subset hx)
          rcases walkAsks_plans hList hWalk with
            ⟨hIds, new, hPlans⟩
          constructor
          · have hSorted := hIds List.nodup_nil
            rw [show (BuyWalk.start units).seen = [] from rfl,
              List.nil_append] at hSorted
            have hAll :=
              (hPerm.map (fun a => a.orderId)).nodup_iff.mp
                hSorted
            rw [List.map_map] at hAll
            exact hAll
          · have hFills : walk.fills = new := hPlans.fills
            have hPlanned := hPlans.planned [] trivial
            rw [List.append_nil] at hPlanned
            show Planned asks rent OrderedMap.empty walk.fills
            rw [hFills]
            exact hPlanned

end

----
-- Rows That Still Stand Pass the Check
----

section

/- A row read again is the quoted ask, live and as well backed. -/
structure RowKept
    (longId now : Int)
    (ask : TicketAsk)
    (row : ChainOrder) : Prop where
  maker : row.maker.toLower = ask.maker.toLower
  kind : row.kind = contractKind ask.kind
  price : row.price = ask.price
  series : row.longId = longId
  remaining :
    row.units - row.filled = ask.onChainRemainingUnits
  uncancelled : row.cancelled = false
  unexpired : now < row.validUntil
  operator :
    ask.kind = .AskWrite → row.writerIsOperator ≠ some false
  free :
    ask.kind = .AskWrite →
      ∃ amount, row.freeCollateral = some amount ∧
        ∀ quoted, ask.makerFreeCollateral = some quoted →
          quoted ≤ amount

/- The terms of a later snapshot, still before the cutoff. -/
def RentLater
    (rent rent' : Option RentTerms) : Prop :=
  ∀ terms, rent = some terms →
    ∃ snapshot,
      terms.snapshotTimestamp ≤ snapshot ∧
        rent' =
          some { terms with snapshotTimestamp := snapshot } ∧
        { terms with
          snapshotTimestamp := snapshot }.closed = false

/- Rent shrinks with time. -/
theorem need_later
    {terms : RentTerms}
    {snapshot units need : Int}
    (hLater : terms.snapshotTimestamp ≤ snapshot)
    (hOpen :
      { terms with
        snapshotTimestamp := snapshot }.closed = false)
    (hNeed : writerCollateralNeed units terms = .ok need) :
    ∃ need',
      writerCollateralNeed units
          { terms with snapshotTimestamp := snapshot } =
          .ok need' ∧
        need' ≤ need := by
  rcases valid_of_need hNeed with ⟨hValid, hUnits, hMost⟩
  have hBefore : snapshot < terms.expiry := by
    unfold RentTerms.closed at hOpen
    rw [Bool.or_eq_false_iff, decide_eq_false_iff_not] at hOpen
    exact not_le.mp hOpen.1
  have hStart := hValid.snapshot_nonneg
  have hSafe : isSafeInteger snapshot = true := by
    have hExpiry := of_decide_eq_true hValid.expiry_safe
    unfold isSafeInteger
    rw [decide_eq_true_eq]
    omega
  have hValid' :
      ({ terms with
        snapshotTimestamp := snapshot } : RentTerms).Valid :=
    { cpu_pos := hValid.cpu_pos
      ppm_nonneg := hValid.ppm_nonneg
      ppm_le := hValid.ppm_le
      expiry_safe := hValid.expiry_safe
      snapshot_safe := hSafe
      snapshot_nonneg := hStart.trans hLater }
  refine
    ⟨_, writerCollateralNeed_eq_cost hValid' hUnits hMost, ?_⟩
  rw [writerCollateralNeed_eq_cost hValid hUnits hMost] at hNeed
  cases hNeed
  apply WriteCost.cost_mono_remaining hValid.cpu_pos.le
    hValid.ppm_nonneg hUnits
  unfold RentTerms.life
  simp only
  omega

/- The check has spent no more of any budget than the plan. -/
def BudgetsKept
    (planned read : OrderedMap String Int) : Prop :=
  ∀ k,
    (planned.get? k = none ∧ read.get? k = none) ∨
      ∃ a b,
        planned.get? k = some a ∧ read.get? k = some b ∧ a ≤ b

theorem BudgetsKept.getD_le
    {planned read : OrderedMap String Int}
    (h : BudgetsKept planned read)
    (k : String)
    {a b : Int}
    (hab : a ≤ b) :
    planned.getD k a ≤ read.getD k b := by
  unfold OrderedMap.getD
  rcases h k with ⟨hPlanned, hRead⟩ | ⟨_, _, hPlanned, hRead, hLe⟩
  · rw [hPlanned, hRead]
    exact hab
  · rw [hPlanned, hRead]
    exact hLe

theorem BudgetsKept.set
    {planned read : OrderedMap String Int}
    (h : BudgetsKept planned read)
    (key : String)
    {a b : Int}
    (hab : a ≤ b) :
    BudgetsKept (planned.set key a) (read.set key b) := by
  intro k
  rw [OrderedMap.get?_set, OrderedMap.get?_set]
  split
  · exact .inr ⟨a, b, rfl, rfl, hab⟩
  · exact h k

variable {asks : List TicketAsk} {rent : Option RentTerms}
variable {context : StaleContext}

/- The rows of the fills, each the only quoted ask of its id. -/
structure FillsKept
    (asks : List TicketAsk)
    (context : StaleContext)
    (fills : List BuyFill) : Prop where
  rows :
    ∀ fill ∈ fills, ∀ ask ∈ asks,
      ask.orderId = fill.orderId →
        ∃ row,
          context.byId.get? fill.orderId = some row ∧
            RowKept context.longId context.now ask row
  expected :
    ∀ ask ∈ asks,
      context.expected.get? ask.orderId = some ask

theorem not_changed
    {ask : TicketAsk}
    {row : ChainOrder}
    {fill : BuyFill}
    {longId collateralPerUnit now : Int}
    (hRow : RowKept longId now ask row)
    (hPrice : fill.price = ask.price)
    (hUnits : fill.units ≤ ask.onChainRemainingUnits)
    (hCpu : ask.kind = .AskWrite → 0 < collateralPerUnit) :
    row.changed ask fill longId collateralPerUnit now =
      false := by
  have hRemaining := hRow.remaining
  have hUnexpired := hRow.unexpired
  have hWrite :
      contractKind ask.kind = 2 →
        (row.freeCollateral ≠ none ∧ 0 < collateralPerUnit) ∧
          row.writerIsOperator ≠ some false := by
    intro hKind
    cases hCase : ask.kind with
    | AskResale =>
        rw [hCase] at hKind
        cases hKind
    | AskWrite =>
        rcases hRow.free hCase with ⟨amount, hAmount, _⟩
        rw [hAmount]
        exact
          ⟨⟨Option.some_ne_none amount, hCpu hCase⟩,
            hRow.operator hCase⟩
  unfold ChainOrder.changed
  simp only [hRow.uncancelled, hRow.series, hRow.kind,
    hRow.price, hRow.maker, hRow.remaining, hPrice,
    Bool.or_eq_false_iff, Bool.and_eq_false_imp,
    decide_eq_false_iff_not, decide_eq_true_eq, not_le, not_lt,
    ne_eq, not_true_eq_false, not_false_eq_true, true_and,
    and_true]
  exact ⟨⟨hUnexpired, hUnits⟩, hWrite⟩

/- A planned run of fills, checked from budgets no smaller. -/
theorem checkFills_of_planned
    (hCpu :
      ∀ terms, context.rent = some terms →
        0 < terms.collateralPerUnit →
          0 < context.collateralPerUnit)
    (hRent : RentLater rent context.rent)
    {fills : List BuyFill}
    (hKept : FillsKept asks context fills)
    {planned : OrderedMap String Int}
    (hPlanned : Planned asks rent planned fills)
    {check : StaleCheck}
    (hBudgets : BudgetsKept planned check.writerBudget) :
    ∃ check',
      checkFills context check fills = .ok check' ∧
        check'.stale = check.stale := by
  induction fills generalizing planned check with
  | nil => exact ⟨check, rfl, rfl⟩
  | cons fill rest ih =>
      rcases hPlanned with
        ⟨ask, hMem, hId, hPrice, hUnits, hRest⟩
      have hRestKept : FillsKept asks context rest :=
        { rows := fun f hf =>
            hKept.rows f (List.mem_cons_of_mem fill hf)
          expected := hKept.expected }
      rcases hKept.rows fill (List.mem_cons_self ..) ask hMem
          hId with ⟨row, hRow, hSame⟩
      have hExpected := hKept.expected ask hMem
      rw [hId] at hExpected
      rw [checkFills]
      unfold checkFill
      rw [hRow, hExpected]
      simp only
      cases hKind : ask.kind with
      | AskResale =>
          have hUnchanged :
              row.changed ask fill context.longId
                  context.collateralPerUnit context.now =
                false :=
            not_changed hSame hPrice hUnits (by simp [hKind])
          rw [hKind] at hRest
          rw [hUnchanged, if_neg (by decide), hSame.kind,
            hKind, if_neg (by decide)]
          exact ih hRestKept hRest hBudgets
      | AskWrite =>
          rw [hKind] at hRest
          rcases hRest with
            ⟨terms, initial, need, hTerms, hInitial, hNeed,
              hEnough, hRest⟩
          rcases hRent terms hTerms with
            ⟨snapshot, hLater, hRent', hOpen⟩
          rcases need_later hLater hOpen hNeed with
            ⟨need', hNeed', hLess⟩
          rcases hSame.free hKind with
            ⟨amount, hAmount, hMore⟩
          have hBudget :=
            hBudgets.getD_le ask.maker.toLower
              (hMore initial hInitial)
          have hUnchanged :=
            not_changed hSame hPrice hUnits
              (fun _ =>
                hCpu _ hRent' (valid_of_need hNeed').1.cpu_pos)
          rw [hUnchanged, if_neg (by decide), hSame.kind,
            hKind, if_pos (by decide)]
          unfold StaleCheck.payWrite
          rw [hRent', hSame.maker, hAmount]
          simp only [Option.getD_some]
          rw [hOpen, if_neg (by decide), hNeed']
          simp only
          rw [if_neg (by omega)]
          exact
            ih hRestKept hRest
              (hBudgets.set ask.maker.toLower (by omega))

end

----
-- What Passing the Check Guarantees
----

section

variable {context : StaleContext}

/- The row of a fill is of a write, by this writer. -/
def writtenBy
    (byId : OrderedMap String ChainOrder)
    (writer : String)
    (fill : BuyFill) : Bool :=
  match byId.get? fill.orderId with
  | none => false
  | some row =>
      decide (row.kind = 2 ∧ row.maker.toLower = writer)

/- The fills that one writer's balance pays for. -/
def writerFills
    (byId : OrderedMap String ChainOrder)
    (writer : String)
    (fills : List BuyFill) : List BuyFill :=
  fills.filter (writtenBy byId writer)

def NeedOf
    (rent : Option RentTerms)
    (fill : BuyFill)
    (need : Int) : Prop :=
  ∃ terms,
    rent = some terms ∧
      writerCollateralNeed fill.units terms = .ok need

variable {check check' : StaleCheck} {fill : BuyFill}

/- A fill is rejected, or its row covers it and is charged. -/
theorem checkFill_cases
    (h : checkFill context check fill = .ok check') :
    check'.stale = check.stale ++ [fill.orderId] ∨
      (check'.stale = check.stale ∧
        ∃ row,
          context.byId.get? fill.orderId = some row ∧
            fill.units ≤ row.units - row.filled ∧
            ((row.kind ≠ 2 ∧
                check'.writerBudget = check.writerBudget) ∨
              (row.kind = 2 ∧
                ∃ amount need,
                  row.freeCollateral = some amount ∧
                    NeedOf context.rent fill need ∧
                    need ≤
                      check.writerBudget.getD
                        row.maker.toLower amount ∧
                    check'.writerBudget =
                      check.writerBudget.set
                        row.maker.toLower
                        (check.writerBudget.getD
                          row.maker.toLower amount -
                            need)))) := by
  unfold checkFill at h
  split at h
  · next row ask hRow hAsk =>
      cases hChanged :
          row.changed ask fill context.longId
            context.collateralPerUnit context.now with
      | true =>
          rw [hChanged, if_pos rfl] at h
          cases h
          exact .inl rfl
      | false =>
          rw [hChanged, if_neg (by decide)] at h
          simp only [ChainOrder.changed, Bool.or_eq_false_iff,
            Bool.and_eq_false_imp, decide_eq_false_iff_not,
            decide_eq_true_eq, not_lt] at hChanged
          have hUnits := hChanged.1.2
          have hWrite := hChanged.2
          split at h
          · next hKind =>
              unfold StaleCheck.payWrite at h
              split at h
              · cases h
                exact .inl rfl
              · next terms hRent =>
                  simp only at h
                  split at h
                  · cases h
                    exact .inl rfl
                  · split at h
                    · cases h
                    · next need hNeed =>
                        split at h
                        · cases h
                          exact .inl rfl
                        · next hEnough =>
                            cases h
                            rcases Option.ne_none_iff_exists'.mp
                                (hWrite hKind).1.1 with
                              ⟨amount, hAmount⟩
                            rw [hAmount,
                              Option.getD_some] at hEnough
                            right
                            refine
                              ⟨rfl, row, hRow, hUnits, .inr
                                ⟨hKind, amount, need, hAmount,
                                  ⟨terms, hRent, hNeed⟩,
                                  not_lt.mp hEnough, ?_⟩⟩
                            rw [hAmount]
                            rfl
          · next hKind =>
              cases h
              exact
                .inr ⟨rfl, row, hRow, hUnits, .inl ⟨hKind, rfl⟩⟩
  · cases h
    exact .inl rfl

variable {fills : List BuyFill}

theorem checkFills_stale_prefix
    (h : checkFills context check fills = .ok check') :
    check.stale <+: check'.stale := by
  induction fills generalizing check with
  | nil =>
      cases h
      exact List.prefix_refl _
  | cons fill rest ih =>
      rw [checkFills] at h
      split at h
      · cases h
      · next next hFirst =>
          have hRest := ih h
          rcases checkFill_cases hFirst with
            hRejected | ⟨hSame, _⟩
          · rw [hRejected] at hRest
            exact (List.prefix_append _ _).trans hRest
          · rw [hSame] at hRest
            exact hRest

/- A check without stale orders, fill by fill. -/
theorem checkFills_cons_nil
    {rest : List BuyFill}
    (h : checkFills context check (fill :: rest) = .ok check')
    (hNone : check'.stale = []) :
    ∃ next,
      checkFill context check fill = .ok next ∧
        next.stale = [] ∧
        checkFills context next rest = .ok check' := by
  rw [checkFills] at h
  split at h
  · cases h
  · next next hFirst =>
      have hPrefix := checkFills_stale_prefix h
      rw [hNone] at hPrefix
      exact ⟨next, hFirst, List.prefix_nil.mp hPrefix, h⟩

theorem passes_of_nil
    {next : StaleCheck}
    (h : checkFill context check fill = .ok next)
    (hNone : next.stale = []) :
    ∃ row,
      context.byId.get? fill.orderId = some row ∧
        fill.units ≤ row.units - row.filled ∧
        ((row.kind ≠ 2 ∧
            next.writerBudget = check.writerBudget) ∨
          (row.kind = 2 ∧
            ∃ amount need,
              row.freeCollateral = some amount ∧
                NeedOf context.rent fill need ∧
                need ≤
                  check.writerBudget.getD
                    row.maker.toLower amount ∧
                next.writerBudget =
                  check.writerBudget.set row.maker.toLower
                    (check.writerBudget.getD
                      row.maker.toLower amount - need))) := by
  rcases checkFill_cases h with hRejected | ⟨_, hPass⟩
  · rw [hRejected] at hNone
    exact absurd hNone (by simp)
  · exact hPass

theorem fills_le_rows
    (h : checkFills context check fills = .ok check')
    (hNone : check'.stale = []) :
    ∀ fill ∈ fills,
      ∃ row,
        context.byId.get? fill.orderId = some row ∧
          fill.units ≤ row.units - row.filled := by
  induction fills generalizing check with
  | nil =>
      intro fill hFill
      cases hFill
  | cons first rest ih =>
      rcases checkFills_cons_nil h hNone with
        ⟨next, hFirst, hNext, hRest⟩
      intro fill hFill
      rcases List.mem_cons.mp hFill with rfl | hLater
      · rcases passes_of_nil hFirst hNext with
          ⟨row, hRow, hUnits, _⟩
        exact ⟨row, hRow, hUnits⟩
      · exact ih hRest fill hLater

/- Each writer's needs fit what the check has left of it. -/
theorem needs_le_budget
    {free : String → Int}
    (hFree :
      ∀ id row, context.byId.get? id = some row →
        row.kind = 2 →
          ∀ amount, row.freeCollateral = some amount →
            amount = free row.maker.toLower)
    (writer : String)
    (h : checkFills context check fills = .ok check')
    (hNone : check'.stale = []) :
    ∃ needs,
      List.Forall₂ (NeedOf context.rent)
          (writerFills context.byId writer fills) needs ∧
        (needs ≠ [] →
          needs.sum ≤
            check.writerBudget.getD writer (free writer)) := by
  induction fills generalizing check with
  | nil => exact ⟨[], .nil, fun hNot => absurd rfl hNot⟩
  | cons fill rest ih =>
      rcases checkFills_cons_nil h hNone with
        ⟨next, hFirst, hNext, hRest⟩
      rcases ih hRest with ⟨needs, hNeeds, hSum⟩
      rcases passes_of_nil hFirst hNext with
        ⟨row, hRow, _, hCharge⟩
      have hWritten :
          writtenBy context.byId writer fill =
            decide
              (row.kind = 2 ∧ row.maker.toLower = writer) := by
        unfold writtenBy
        rw [hRow]
      unfold writerFills at hNeeds ⊢
      rw [List.filter_cons, hWritten]
      rcases hCharge with
        ⟨hKind, hBudget⟩ |
          ⟨hKind, amount, need, hAmount, hNeed, hEnough,
            hBudget⟩
      · rw [if_neg (by simp [hKind])]
        rw [hBudget] at hSum
        exact ⟨needs, hNeeds, hSum⟩
      · rw [hFree _ _ hRow hKind _ hAmount]
          at hEnough hBudget
        by_cases hWriter : row.maker.toLower = writer
        · rw [if_pos (by simp [hKind, hWriter])]
          rw [hWriter] at hEnough hBudget
          refine ⟨need :: needs, .cons hNeed hNeeds, ?_⟩
          intro _
          rw [List.sum_cons]
          cases needs with
          | nil =>
              rw [List.sum_nil, add_zero]
              exact hEnough
          | cons first more =>
              have hMore := hSum (List.cons_ne_nil _ _)
              rw [hBudget, OrderedMap.getD_set,
                if_pos rfl] at hMore
              omega
        · rw [if_neg (by simp [hWriter])]
          rw [hBudget, OrderedMap.getD_set,
            if_neg hWriter] at hSum
          exact ⟨needs, hNeeds, hSum⟩

end

----
-- The Check Agrees With the Plan
----

/- Each fill's row was read, and every row read is kept. -/
structure RowsKept
    (quote : BuyQuote)
    (selected : List ChainOrder)
    (longId now : Int) : Prop where
  read :
    ∀ fill ∈ quote.buy.fills,
      ∃ row ∈ selected, row.idText = fill.orderId
  kept :
    ∀ row ∈ selected, ∀ ask ∈ quote.asks,
      ask.orderId = row.idText → RowKept longId now ask row

/- One balance was read for all the writes of a writer. -/
def BalancesRead
    (selected : List ChainOrder)
    (free : String → Int) : Prop :=
  ∀ row ∈ selected, row.kind = 2 →
    ∀ amount, row.freeCollateral = some amount →
      amount = free row.maker.toLower

theorem quote_planned
    {levels : List ApiLevel}
    {units toleranceBps : Int}
    {fees : TakerFeeParams}
    {taker : Option String}
    {rent : Option RentTerms}
    {quote : BuyQuote}
    (h :
      buyQuote levels units fees toleranceBps taker rent =
        .ok quote) :
    (quote.asks.map (fun a => a.orderId)).Nodup ∧
      Planned quote.asks rent OrderedMap.empty
        quote.buy.fills := by
  unfold buyQuote at h
  split at h
  · cases h
  · simp only at h
    split at h
    · cases h
    · next buy hBuy =>
        cases h
        exact costToBuy_planned hBuy

theorem fillsKept_of_rows
    {quote : BuyQuote}
    {selected : List ChainOrder}
    {longId collateralPerUnit now : Int}
    {rent : Option RentTerms}
    (hIds : (quote.asks.map (fun a => a.orderId)).Nodup)
    (hRows : RowsKept quote selected longId now) :
    FillsKept quote.asks
      (StaleContext.of quote selected longId
        collateralPerUnit now rent) quote.buy.fills where
  rows := by
    intro fill hFill ask hAsk hId
    rcases hRows.read fill hFill with ⟨read, hRead, hText⟩
    have hSome :=
      OrderedMap.isSome_get?_indexBy ChainOrder.idText hRead
    rw [hText] at hSome
    rcases Option.isSome_iff_exists.mp hSome with ⟨row, hRow⟩
    rcases OrderedMap.get?_indexBy ChainOrder.idText hRow with
      ⟨hMem, hKey⟩
    exact
      ⟨row, hRow,
        hRows.kept row hMem ask hAsk (hId.trans hKey.symm)⟩
  expected := by
    intro ask hAsk
    have hSome :=
      OrderedMap.isSome_get?_indexBy
        (fun a : TicketAsk => a.orderId) hAsk
    rcases Option.isSome_iff_exists.mp hSome with
      ⟨found, hFound⟩
    rcases OrderedMap.get?_indexBy _ hFound with ⟨hMem, hKey⟩
    have hSame := List.inj_on_of_nodup_map hIds hMem hAsk hKey
    rw [hSame] at hFound
    exact hFound

/-
  Rows that still stand as they were quoted pass the check.
  Conversely, where no order is stale, every fill is covered
  by its row, and the needs of each writer by its balance.
-/
theorem staleSelectedOrders_agrees
    (levels : List ApiLevel)
    (units : Int)
    (fees : TakerFeeParams)
    (toleranceBps : Int)
    (taker : Option String)
    (rent : Option RentTerms)
    (quote : BuyQuote)
    (hQuote :
      buyQuote levels units fees toleranceBps taker rent =
        .ok quote)
    (selected : List ChainOrder)
    (longId collateralPerUnit now : Int)
    (rent' : Option RentTerms) :
    (RowsKept quote selected longId now →
        RentLater rent rent' →
        (∀ terms, rent' = some terms →
          0 < terms.collateralPerUnit →
            0 < collateralPerUnit) →
          staleSelectedOrders quote selected longId
              collateralPerUnit now rent' =
            .ok []) ∧
      (staleSelectedOrders quote selected longId
            collateralPerUnit now rent' =
          .ok [] →
        (∀ fill ∈ quote.buy.fills,
            ∃ row ∈ selected,
              row.idText = fill.orderId ∧
                fill.units ≤ row.units - row.filled) ∧
          ∀ free, BalancesRead selected free →
            ∀ writer,
              ∃ needs,
                List.Forall₂ (NeedOf rent')
                    (writerFills
                      (OrderedMap.indexBy ChainOrder.idText
                        selected) writer quote.buy.fills)
                    needs ∧
                  (needs ≠ [] →
                    needs.sum ≤ free writer)) := by
  rcases quote_planned hQuote with ⟨hIds, hPlanned⟩
  let context :=
    StaleContext.of quote selected longId collateralPerUnit
      now rent'
  let start : StaleCheck :=
    { writerBudget := OrderedMap.empty, stale := [] }
  constructor
  · intro hRows hRent hCpu
    have hStart :
        BudgetsKept OrderedMap.empty start.writerBudget :=
      fun _ => .inl ⟨rfl, rfl⟩
    have hContextRent : RentLater rent context.rent := hRent
    rcases checkFills_of_planned hCpu hContextRent
        (fillsKept_of_rows hIds hRows) hPlanned hStart with
      ⟨check, hCheck, hStale⟩
    unfold staleSelectedOrders
    rw [hCheck]
    exact congrArg Except.ok hStale
  · intro hNone
    unfold staleSelectedOrders at hNone
    cases hCheck : checkFills context start quote.buy.fills with
    | error e =>
        rw [hCheck] at hNone
        cases hNone
    | ok check =>
        rw [hCheck] at hNone
        have hStale : check.stale = [] := by
          simpa using hNone
        refine ⟨?_, ?_⟩
        · intro fill hFill
          rcases fills_le_rows hCheck hStale fill hFill with
            ⟨row, hRow, hUnits⟩
          rcases OrderedMap.get?_indexBy ChainOrder.idText hRow
            with ⟨hMem, hKey⟩
          exact ⟨row, hMem, hKey, hUnits⟩
        · intro free hFree writer
          have hRead :
              ∀ id row, context.byId.get? id = some row →
                row.kind = 2 →
                  ∀ amount, row.freeCollateral = some amount →
                    amount = free row.maker.toLower := by
            intro id row hRow
            exact
              hFree row
                (OrderedMap.get?_indexBy ChainOrder.idText
                  hRow).1
          rcases needs_le_budget hRead writer hCheck hStale with
            ⟨needs, hNeeds, hSum⟩
          refine ⟨needs, hNeeds, ?_⟩
          intro hSome
          have hLe := hSum hSome
          rw [show start.writerBudget = OrderedMap.empty from
            rfl, OrderedMap.getD_empty] at hLe
          exact hLe

/- One write-on-fill ask, and its row read ten seconds later. -/
def writeLevels : List ApiLevel :=
  [{ price := { raw := 200, decimals := 6 }
     orders :=
       [{ orderId := "2"
          maker := "0xA"
          units := 10
          onChainRemainingUnits := 10
          makerFreeUnits := some 5
          makerFreeCollateral := some { raw := 6, decimals := 6 }
          kind := .AskWrite }] }]

def writeRent : RentTerms :=
  { collateralPerUnit := 1
    mintFeePpm := 3000
    expiry := 10000
    snapshotTimestamp := 10
    mintCutoff := some 8200 }

def writeFees : TakerFeeParams :=
  { takerFeeFlat := 2
    takerFeeCapBps := 1000
    discountBps := none }

def writeRow : ChainOrder :=
  { orderId := 2
    maker := "0xa"
    longId := 7
    kind := 2
    price := 200
    units := 12
    filled := 2
    validUntil := 100
    cancelled := false
    freeCollateral := some 6
    writerIsOperator := none }

theorem writeRow_passes :
    ∃ quote,
      buyQuote writeLevels 5 writeFees 200 none
          (some writeRent) = .ok quote ∧
        staleSelectedOrders quote [writeRow] 7 1 20
            (some { writeRent with snapshotTimestamp := 20 }) =
          .ok [] := by
  have hRun :
      (buyQuote writeLevels 5 writeFees 200 none
          (some writeRent)).toOption.map
        (fun q => (q.asks, q.buy.fills.map (fun f => f.orderId))) =
        some (flattenAsks writeLevels none, ["2"]) := by
    decide +kernel
  cases hQuote :
      buyQuote writeLevels 5 writeFees 200 none
        (some writeRent) with
  | error e =>
      rw [hQuote] at hRun
      cases hRun
  | ok quote =>
      rw [hQuote] at hRun
      have hBoth := Option.some.inj hRun
      have hAsks : quote.asks = flattenAsks writeLevels none :=
        congrArg Prod.fst hBoth
      have hFills :
          quote.buy.fills.map (fun f => f.orderId) = ["2"] :=
        congrArg Prod.snd hBoth
      have hText : writeRow.idText = "2" := by decide +kernel
      have hRows : RowsKept quote [writeRow] 7 20 :=
        { read := by
            intro fill hFill
            have hId :
                fill.orderId ∈
                  quote.buy.fills.map (fun f => f.orderId) :=
              List.mem_map_of_mem hFill
            rw [hFills, List.mem_singleton] at hId
            exact
              ⟨writeRow, List.mem_singleton_self _,
                hText.trans hId.symm⟩
          kept := by
            intro row hRow ask hAsk _
            rw [hAsks] at hAsk
            rw [List.mem_singleton.mp hRow,
              List.mem_singleton.mp hAsk]
            exact
              { maker := by decide +kernel
                kind := rfl
                price := rfl
                series := rfl
                remaining := rfl
                uncancelled := rfl
                unexpired := by decide
                operator := fun _ => by decide
                free := by
                  intro _
                  refine ⟨6, rfl, ?_⟩
                  intro quoted hQuoted
                  cases hQuoted
                  decide } }
      refine ⟨quote, rfl, ?_⟩
      apply (staleSelectedOrders_agrees writeLevels 5 writeFees
        200 none (some writeRent) quote hQuote [writeRow] 7 1
        20 (some { writeRent with snapshotTimestamp := 20 })).1
        hRows
      · intro terms hTerms
        cases hTerms
        exact ⟨20, by decide, rfl, by decide⟩
      · intro _ _ _
        decide

end Callhouse.Web
