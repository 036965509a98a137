import Callhouse.Keeper.Mm.Pnl
import Callhouse.Lib.Loop
import Mathlib.Data.Rat.Cast.Order

/-
  What the replayed ledger says of the vault's cash.

  Realised results and the cost still tied up in open
  positions add up to the cash flow of the events, short of
  one base unit for each event that realises.  A sale is
  counted at the floored net price the ledger books.

  Main declarations:
    * `openUnits`, `netCash`, `realisingCount`
    * `replayLedger_conserves`
    * `replayLedger_misses_received`
-/

----
-- Units, Cash and Realising Events of a History
----

namespace Callhouse.Keeper.Mm

def LedgerEvent.isFill : LedgerEvent → Bool
  | .fill _ => true
  | .settle _ => false

/- Bought units are positive, sold ones negative. -/
def LedgerEvent.signedUnits : LedgerEvent → Int
  | .fill e => e.side.sign * e.units
  | .settle _ => 0

/- Bought less sold units since a series last settled. -/
def openUnits
    (longId : String)
    (events : List LedgerEvent) : Int :=
  let mine := events.filter (fun e => e.longId = longId)
  let fills := mine.reverse.takeWhile (fun e => e.isFill)
  (fills.map (fun e => e.signedUnits)).sum

/- What the ledger takes a sale to have brought in. -/
def bookedProceeds
    (e : FillEvent) : ℚ :=
  e.bookedPrice * e.units / unitsPerShare

/- What a sale brought in: the premium less the seller fee. -/
def receivedProceeds
    (e : FillEvent) : ℚ :=
  match e.premium, e.sellerFee with
  | some premium, some sellerFee => premium - sellerFee
  | _, _ =>
      e.price * e.units / unitsPerShare *
        ((bps - e.feeBps) / bps)

def heldBefore
    (past : List LedgerEvent)
    (longId : String) : Position :=
  { units := openUnits longId past
    basis := 0 }

/- The cash an event moves, in USDG base units. -/
def cashOf
    (proceeds : FillEvent → ℚ)
    (past : List LedgerEvent) : LedgerEvent → ℚ
  | .fill e =>
      match e.side with
      | .buy => -(e.price * e.units / unitsPerShare)
      | .sell => proceeds e
  | .settle e =>
      let held := heldBefore past e.longId
      settlementValue held e * held.units / unitsPerShare

def netCash
    (proceeds : FillEvent → ℚ)
    (events : List LedgerEvent) : ℚ :=
  Loop.historySum (cashOf proceeds) [] events

/- A close of some units, or a settlement with units open. -/
def realises
    (past : List LedgerEvent)
    (e : LedgerEvent) : Bool :=
  let held := heldBefore past e.longId
  match e with
  | .fill e => held.opposes e.side.sign
  | .settle _ => decide (held.units ≠ 0)

def realisingCount
    (events : List LedgerEvent) : Nat :=
  Loop.historySum
    (fun past e => if realises past e then 1 else 0) []
    events

def Ledger.position
    (ledger : Ledger)
    (longId : String) : Position :=
  ledger.positions.getD longId flat

def Ledger.realised
    (ledger : Ledger) : Int :=
  (ledger.realisedByDay.entries.map
    (fun entry => entry.2)).sum

/- The open positions' signed basis, in hundredths. -/
def Ledger.openBasis
    (ledger : Ledger) : Int :=
  (ledger.positions.entries.map
    (fun entry => entry.2.signedBasis)).sum

/- Positive units, unsigned prices, fees of at most all of it. -/
structure FillEvent.WellFormed
    (e : FillEvent) : Prop where
  units_pos : 0 < e.units
  price_nonneg : 0 ≤ e.price
  feeBps_nonneg : 0 ≤ e.feeBps
  feeBps_le : e.feeBps ≤ bps
  sellerFee_le :
    ∀ premium sellerFee,
      e.premium = some premium →
        e.sellerFee = some sellerFee → sellerFee ≤ premium

def LedgerEvent.WellFormed : LedgerEvent → Prop
  | .fill e => e.WellFormed
  | .settle _ => True

----
-- Booked Prices
----

section

variable {e : FillEvent}

theorem bookedPrice_nonneg
    (h : e.WellFormed) :
    0 ≤ e.bookedPrice := by
  have hPrice := h.price_nonneg
  have hNet : 0 ≤ netSalePrice e.price e.feeBps := by
    apply TruncDiv.tdiv_nonneg _ bps_pos
    exact mul_nonneg hPrice (sub_nonneg.mpr h.feeBps_le)
  have hExact :
      ∀ premium sellerFee,
        0 ≤ exactNetSalePrice e.units premium sellerFee := by
    intro premium sellerFee
    unfold exactNetSalePrice
    split
    · exact le_refl 0
    · next hSome =>
        rw [not_or, not_le, not_le] at hSome
        apply TruncDiv.tdiv_nonneg _ hSome.1
        exact mul_nonneg (sub_nonneg.mpr hSome.2.le)
          unitsPerShare_pos.le
  unfold FillEvent.bookedPrice
  split
  · exact hPrice
  · exact hExact _ _
  · exact hNet

/- Flooring a price a share loses less than its own units. -/
theorem floored_proceeds
    {net units : Int}
    {exact : ℚ}
    (hUnits : 0 < units)
    (hLow : (net : ℚ) ≤ exact)
    (hHigh : exact < net + 1) :
    (net : ℚ) * units / unitsPerShare ≤
        exact * units / unitsPerShare ∧
      exact * units / unitsPerShare <
        (net : ℚ) * units / unitsPerShare +
          units / unitsPerShare := by
  have hUnits' : (0 : ℚ) < units := by exact_mod_cast hUnits
  have hShare : (0 : ℚ) < unitsPerShare := by
    exact_mod_cast unitsPerShare_pos
  constructor
  · gcongr
  · rw [← add_div]
    gcongr
    linarith [mul_lt_mul_of_pos_right hHigh hUnits']

theorem bookedProceeds_exact
    (h : e.WellFormed)
    (hSell : e.side = .sell)
    {premium sellerFee : Int}
    (hPremium : e.premium = some premium)
    (hFee : e.sellerFee = some sellerFee) :
    bookedProceeds e ≤ receivedProceeds e ∧
      receivedProceeds e <
        bookedProceeds e + e.units / unitsPerShare := by
  have hUnits := h.units_pos
  have hUnits' : (0 : ℚ) < e.units := by
    exact_mod_cast hUnits
  have hShare : (0 : ℚ) < unitsPerShare := by
    exact_mod_cast unitsPerShare_pos
  have hReceived : receivedProceeds e = premium - sellerFee := by
    simp [receivedProceeds, hPremium, hFee]
  have hBooked :
      e.bookedPrice =
        exactNetSalePrice e.units premium sellerFee := by
    simp [FillEvent.bookedPrice, hSell, hPremium, hFee]
  rw [hReceived]
  unfold bookedProceeds
  rw [hBooked]
  rcases (h.sellerFee_le _ _ hPremium hFee).lt_or_eq with
    hLess | hAll
  · have hNet : 0 ≤ (premium - sellerFee) * unitsPerShare :=
      mul_nonneg (sub_nonneg.mpr hLess.le)
        unitsPerShare_pos.le
    have hPrice :
        exactNetSalePrice e.units premium sellerFee =
          ((premium - sellerFee) * unitsPerShare).tdiv
            e.units := by
      apply if_neg
      rw [not_or, not_le, not_le]
      exact ⟨hUnits, hLess⟩
    have hFloor :=
      floored_proceeds hUnits
        (TruncDiv.tdiv_le_div hNet hUnits)
        (TruncDiv.div_lt_tdiv_add_one hNet hUnits)
    rw [← hPrice] at hFloor
    have hPaid :
        (((premium - sellerFee) * unitsPerShare : Int) : ℚ) /
              e.units * e.units / unitsPerShare =
          premium - sellerFee := by
      push_cast
      field_simp
    rwa [hPaid] at hFloor
  · have hPrice :
        exactNetSalePrice e.units premium sellerFee = 0 :=
      if_pos (Or.inr hAll.ge)
    rw [hPrice, hAll]
    simp only [Int.cast_zero, zero_mul, zero_div, sub_self,
      zero_add]
    exact ⟨le_refl 0, div_pos hUnits' hShare⟩

theorem bookedProceeds_rate
    (h : e.WellFormed)
    (hSell : e.side = .sell)
    (hLogs : e.premium = none ∨ e.sellerFee = none) :
    bookedProceeds e ≤ receivedProceeds e ∧
      receivedProceeds e <
        bookedProceeds e + e.units / unitsPerShare := by
  have hNet : 0 ≤ e.price * (bps - e.feeBps) :=
    mul_nonneg h.price_nonneg (sub_nonneg.mpr h.feeBps_le)
  have hFloor :=
    floored_proceeds h.units_pos
      (TruncDiv.tdiv_le_div hNet bps_pos)
      (TruncDiv.div_lt_tdiv_add_one hNet bps_pos)
  have hBooked :
      e.bookedPrice =
        (e.price * (bps - e.feeBps)).tdiv bps := by
    unfold FillEvent.bookedPrice netSalePrice
    rw [hSell]
    rcases hLogs with hNone | hNone
    · rw [hNone]
    · rw [hNone]
      cases e.premium <;> rfl
  have hReceived :
      receivedProceeds e =
        ((e.price * (bps - e.feeBps) : Int) : ℚ) / bps *
          e.units / unitsPerShare := by
    have hRate :
        receivedProceeds e =
          e.price * e.units / unitsPerShare *
            ((bps - e.feeBps) / bps) := by
      unfold receivedProceeds
      rcases hLogs with hNone | hNone
      · rw [hNone]
      · rw [hNone]
        cases e.premium <;> rfl
    rw [hRate]
    push_cast
    ring
  unfold bookedProceeds
  rw [hReceived, hBooked]
  exact hFloor

/- What is booked for a sale is what came in, floored a share. -/
theorem bookedProceeds_bounds
    (h : e.WellFormed)
    (hSell : e.side = .sell) :
    bookedProceeds e ≤ receivedProceeds e ∧
      receivedProceeds e <
        bookedProceeds e + e.units / unitsPerShare := by
  cases hPremium : e.premium with
  | none =>
      exact bookedProceeds_rate h hSell (Or.inl hPremium)
  | some premium =>
      cases hFee : e.sellerFee with
      | none =>
          exact bookedProceeds_rate h hSell (Or.inr hFee)
      | some sellerFee =>
          exact bookedProceeds_exact h hSell hPremium hFee

end

----
-- One Event
----

/- What an event does to a position's units, and its cash. -/
def eventUnits
    (position : Position) : LedgerEvent → Int
  | .fill e => e.side.sign * e.units
  | .settle _ => -position.units

def eventCash
    (position : Position) : LedgerEvent → Int
  | .fill e => -e.side.sign * (e.bookedPrice * e.units)
  | .settle e => settlementValue position e * position.units

def eventRealises
    (position : Position) : LedgerEvent → Bool
  | .fill e => position.opposes e.side.sign
  | .settle _ => decide (position.units ≠ 0)

variable {e : LedgerEvent} {position : Position}

theorem applyEvent_booked
    (hPosition : position.Sound)
    (h : e.WellFormed) :
    Booked position (applyEvent position e).1
      (applyEvent position e).2 (eventUnits position e)
      (eventCash position e)
      (if eventRealises position e then 99 else 0) := by
  cases e with
  | fill e =>
      exact applyFill_booked hPosition e.side h.units_pos
        (bookedPrice_nonneg h)
  | settle e =>
      have hBooked :=
        applySettlement_booked hPosition
          (settlementValue position e)
      by_cases hFlat : position.units = 0
      · rw [if_pos hFlat] at hBooked
        simpa [applyEvent, eventUnits, eventCash,
          eventRealises, hFlat] using hBooked
      · rw [if_neg hFlat] at hBooked
        simpa [applyEvent, eventUnits, eventCash,
          eventRealises, hFlat] using hBooked

variable {past : List LedgerEvent}

/- The history knows the units, and nothing else is read. -/
theorem realises_eq
    (hHeld : position.units = openUnits e.longId past) :
    realises past e = eventRealises position e := by
  cases e with
  | fill e =>
      have hUnits :
          (heldBefore past e.longId).units =
            position.units := hHeld.symm
      simp [realises, eventRealises, Position.opposes,
        LedgerEvent.longId, hUnits]
  | settle e =>
      have hUnits :
          (heldBefore past e.longId).units =
            position.units := hHeld.symm
      simp [realises, eventRealises, LedgerEvent.longId,
        hUnits]

theorem cashOf_booked_eq
    (hHeld : position.units = openUnits e.longId past) :
    cashOf bookedProceeds past e =
      (eventCash position e : ℚ) / unitsPerShare := by
  cases e with
  | fill e =>
      cases hSide : e.side with
      | buy =>
          simp only [cashOf, hSide, eventCash, Side.sign,
            FillEvent.bookedPrice]
          push_cast
          ring
      | sell =>
          simp only [cashOf, hSide, eventCash, Side.sign,
            bookedProceeds]
          push_cast
          ring
  | settle e =>
      have hUnits :
          (heldBefore past e.longId).units =
            position.units := hHeld.symm
      have hValue :
          settlementValue (heldBefore past e.longId) e =
            settlementValue position e := by
        simp only [settlementValue, hUnits]
      simp only [cashOf, eventCash, hValue, hUnits]
      push_cast
      ring

/- The units open after one more event of the series. -/
theorem openUnits_concat
    (past : List LedgerEvent)
    (e : LedgerEvent)
    (hHeld : position.units = openUnits e.longId past) :
    openUnits e.longId (past ++ [e]) =
      position.units + eventUnits position e := by
  unfold openUnits at hHeld ⊢
  have hMine :
      (past ++ [e]).filter
          (fun x => x.longId = e.longId) =
        past.filter (fun x => x.longId = e.longId) ++
          [e] := by
    simp
  rw [hMine]
  simp only [List.reverse_append, List.reverse_singleton,
    List.singleton_append]
  cases e with
  | fill e =>
      rw [List.takeWhile_cons_of_pos rfl, List.map_cons,
        List.sum_cons, hHeld]
      simp only [LedgerEvent.signedUnits, eventUnits]
      ring
  | settle e =>
      simp [LedgerEvent.isFill, eventUnits]

theorem openUnits_concat_of_ne
    (past : List LedgerEvent)
    {longId : String}
    (hOther : e.longId ≠ longId) :
    openUnits longId (past ++ [e]) =
      openUnits longId past := by
  unfold openUnits
  simp [hOther]

----
-- A Whole Replay
----

/- What the ledger knows of the events it has replayed. -/
structure Conserves
    (ledger : Ledger)
    (past : List LedgerEvent) : Prop where
  sound : ∀ longId, (ledger.position longId).Sound
  units_eq :
    ∀ longId,
      (ledger.position longId).units = openUnits longId past
  cash :
    |(ledger.realised : ℚ) +
          ledger.openBasis / unitsPerShare -
        netCash bookedProceeds past| ≤
      99 / 100 * realisingCount past

theorem Ledger.empty_conserves :
    Conserves Ledger.empty [] := by
  constructor
  · intro longId
    exact flat_sound
  · intro longId
    rfl
  · simp [Ledger.realised, Ledger.openBasis, Ledger.empty,
      OrderedMap.empty, netCash, realisingCount,
      Loop.historySum]

theorem position_replayEvent
    (ledger : Ledger)
    (e : LedgerEvent)
    (longId : String) :
    (replayEvent ledger e).position longId =
      if e.longId = longId then
        (applyEvent (ledger.position e.longId) e).1
      else ledger.position longId := by
  unfold Ledger.position replayEvent
  exact OrderedMap.getD_set _ _ _ _ _

theorem realised_replayEvent
    (ledger : Ledger)
    (e : LedgerEvent) :
    (replayEvent ledger e).realised =
      ledger.realised +
        (applyEvent (ledger.position e.longId) e).2 := by
  have hSum :=
    OrderedMap.sum_entries_set (fun _ v => v)
      ledger.realisedByDay (dayOf e.timestamp)
      (ledger.realisedByDay.getD (dayOf e.timestamp) 0 +
        (applyEvent (ledger.position e.longId) e).2)
  rw [OrderedMap.contribution_eq_getD _ _ _ (d := 0) rfl]
    at hSum
  refine hSum.trans ?_
  unfold Ledger.realised
  ring

theorem openBasis_replayEvent
    (ledger : Ledger)
    (e : LedgerEvent) :
    (replayEvent ledger e).openBasis =
      ledger.openBasis +
        ((applyEvent (ledger.position e.longId)
            e).1.signedBasis -
          (ledger.position e.longId).signedBasis) := by
  have hSum :=
    OrderedMap.sum_entries_set
      (fun _ v => Position.signedBasis v) ledger.positions
      e.longId
      (applyEvent (ledger.position e.longId) e).1
  rw [OrderedMap.contribution_eq_getD _ _ _ (d := flat) rfl]
    at hSum
  exact hSum.trans (add_sub_assoc _ _ _)

theorem Conserves.replayEvent
    {ledger : Ledger}
    (h : Conserves ledger past)
    (hEvent : e.WellFormed) :
    Conserves (replayEvent ledger e) (past ++ [e]) := by
  have hHeld := h.units_eq e.longId
  have hBooked := applyEvent_booked (h.sound e.longId) hEvent
  constructor
  · intro longId
    rw [position_replayEvent]
    split
    · exact hBooked.sound
    · exact h.sound longId
  · intro longId
    rw [position_replayEvent]
    split
    · next hSame =>
        subst hSame
        rw [openUnits_concat past e hHeld]
        exact hBooked.units_eq
    · next hOther =>
        rw [openUnits_concat_of_ne past hOther]
        exact h.units_eq longId
  · have hCash := h.cash
    have hStep := hBooked.conserved
    have hNet :
        netCash bookedProceeds (past ++ [e]) =
          netCash bookedProceeds past +
            (eventCash (ledger.position e.longId) e : ℚ) /
              unitsPerShare := by
      unfold netCash
      rw [Loop.historySum_concat, List.nil_append,
        cashOf_booked_eq hHeld]
    have hCount :
        realisingCount (past ++ [e]) =
          realisingCount past +
            (if eventRealises (ledger.position e.longId) e
              then 1 else 0) := by
      unfold realisingCount
      rw [Loop.historySum_concat, List.nil_append,
        realises_eq hHeld]
    have hStep' :
        |(unitsPerShare : ℚ) *
              (applyEvent (ledger.position e.longId) e).2 +
            ((applyEvent (ledger.position e.longId)
                e).1.signedBasis -
              (ledger.position e.longId).signedBasis) -
            eventCash (ledger.position e.longId) e| ≤
          99 *
            (if eventRealises (ledger.position e.longId) e
              then 1 else 0) := by
      split at hStep
      · next hSome =>
          rw [if_pos hSome, mul_one]
          exact_mod_cast hStep
      · next hNone =>
          rw [if_neg hNone, mul_zero]
          exact_mod_cast hStep
    rw [realised_replayEvent, openBasis_replayEvent, hNet,
      hCount]
    have hHundred : (unitsPerShare : ℚ) = 100 := rfl
    rw [hHundred] at hCash hStep' ⊢
    push_cast at hCash hStep' ⊢
    rw [abs_le] at hCash hStep' ⊢
    constructor <;> linarith [hCash.1, hCash.2]

theorem replayLedger_conserves_booked
    (events : List LedgerEvent)
    (hEvents : ∀ e ∈ events, e.WellFormed) :
    Conserves (replayLedger events) events := by
  induction events using List.reverseRecOn with
  | nil => exact Ledger.empty_conserves
  | append_singleton past e ih =>
      unfold replayLedger
      rw [List.foldl_append]
      apply Conserves.replayEvent
      · apply ih
        intro e' he'
        exact hEvents e' (List.mem_append_left _ he')
      · exact hEvents e (List.mem_append_right _
          (List.mem_singleton.mpr rfl))

/- With nothing held, nothing is tied up. -/
theorem openBasis_eq_zero
    {ledger : Ledger}
    (hSound : ∀ longId, (ledger.position longId).Sound)
    (hFlat : ∀ longId, (ledger.position longId).units = 0) :
    ledger.openBasis = 0 := by
  apply List.sum_eq_zero
  intro x hx
  rcases List.mem_map.mp hx with ⟨⟨longId, position⟩, hp, rfl⟩
  have hGet : ledger.position longId = position := by
    unfold Ledger.position OrderedMap.getD
    rw [(OrderedMap.mem_entries_iff _).mp hp]
    rfl
  have hUnits := hFlat longId
  have hBasis := (hSound longId).flat_basis hUnits
  rw [hGet] at hUnits hBasis
  simp [signedBasis_of_nonpos hUnits.le, hBasis]

/-
  Every replay keeps each position's basis, its units, and the
  vault's cash to within 99 hundredths of a base unit for each
  event that realises.
-/
theorem replayLedger_conserves
    (events : List LedgerEvent)
    (hEvents : ∀ e ∈ events, e.WellFormed) :
    (∀ longId,
        0 ≤ ((replayLedger events).position longId).basis ∧
          (((replayLedger events).position longId).units = 0 →
            ((replayLedger events).position longId).basis =
              0) ∧
          ((replayLedger events).position longId).units =
            openUnits longId events) ∧
      |((replayLedger events).realised : ℚ) +
            (replayLedger events).openBasis / unitsPerShare -
          netCash bookedProceeds events| ≤
        99 / 100 * realisingCount events ∧
      ((∀ longId,
          ((replayLedger events).position longId).units = 0) →
        |((replayLedger events).realised : ℚ) -
            netCash bookedProceeds events| ≤
          99 / 100 * realisingCount events) ∧
      ∀ e, .fill e ∈ events → e.side = .sell →
        bookedProceeds e ≤ receivedProceeds e ∧
          receivedProceeds e <
            bookedProceeds e + e.units / unitsPerShare := by
  have h := replayLedger_conserves_booked events hEvents
  refine ⟨?_, h.cash, ?_, ?_⟩
  · intro longId
    exact
      ⟨(h.sound longId).basis_nonneg,
        (h.sound longId).flat_basis, h.units_eq longId⟩
  · intro hFlat
    have hCash := h.cash
    rw [openBasis_eq_zero h.sound hFlat] at hCash
    simpa using hCash
  · intro e he hSell
    exact bookedProceeds_bounds (hEvents _ he) hSell

/- A sale at exact proceeds, and its series' settlement at 0. -/
def soldAndSettled : List LedgerEvent :=
  [.fill
      { longId := "1"
        side := .sell
        units := 700
        price := 5100
        feeBps := 250
        premium := some 35700
        sellerFee := some 892
        timestamp := 0 },
    .settle
      { longId := "1"
        isPut := false
        strike := 100
        settlementPrice := 90
        exerciseFeeBps := none
        timestamp := 0 }]

theorem soldAndSettled_wellFormed :
    ∀ e ∈ soldAndSettled, e.WellFormed := by
  intro e he
  simp only [soldAndSettled, List.mem_cons,
    List.not_mem_nil, or_false] at he
  rcases he with rfl | rfl
  · refine ⟨by decide, by decide, by decide, by decide, ?_⟩
    intro premium sellerFee hPremium hFee
    cases hPremium
    cases hFee
    decide
  · trivial

theorem soldAndSettled_conserves :
    |((replayLedger soldAndSettled).realised : ℚ) +
          (replayLedger soldAndSettled).openBasis /
            unitsPerShare -
        netCash bookedProceeds soldAndSettled| ≤
      99 / 100 * realisingCount soldAndSettled :=
  (replayLedger_conserves soldAndSettled
    soldAndSettled_wellFormed).2.1

/-
  Counted at what came in, the cash is missed by more: the sale
  above brings 34808 and realises 34804 at one event.
-/
theorem replayLedger_misses_received :
    ¬ (∀ events : List LedgerEvent,
        (∀ e ∈ events, e.WellFormed) →
          0 < realisingCount events →
            |((replayLedger events).realised : ℚ) +
                  (replayLedger events).openBasis /
                    unitsPerShare -
                netCash receivedProceeds events| <
              realisingCount events) := by
  intro h
  have hMiss :=
    h soldAndSettled soldAndSettled_wellFormed (by decide)
  have hRealised :
      (replayLedger soldAndSettled).realised = 34804 := by
    decide
  have hOpen : (replayLedger soldAndSettled).openBasis = 0 := by
    decide
  have hCount : realisingCount soldAndSettled = 1 := by
    decide
  have hWorthless :
      ∀ position : Position,
        settlementValue position
          { longId := "1"
            isPut := false
            strike := 100
            settlementPrice := 90
            exerciseFeeBps := none
            timestamp := 0 } = 0 := by
    intro position
    simp [settlementValue, intrinsicAt]
  have hCash :
      netCash receivedProceeds soldAndSettled = 34808 := by
    simp only [netCash, soldAndSettled, Loop.historySum,
      cashOf, receivedProceeds, hWorthless]
    norm_num
  rw [hRealised, hOpen, hCount, hCash] at hMiss
  norm_num at hMiss

end Callhouse.Keeper.Mm
