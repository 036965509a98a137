import Callhouse.Keeper.Mm.FillLogs
import Callhouse.Keeper.Mm.MmStore
import Callhouse.Lib.Watermark

/-
  keeper/src/v2/mm/fills.ts trackVaultOrders and pnl.ts
  fillOf: the open orders of a vault re-read at the head, a
  grown `filled` booked as a fill.

  Main declarations:
    * `fillOf`, `trackVaultOrders`
    * `Books`, `Books.look`
    * `booked_once_iff`
-/

----
-- One Order
----

namespace Callhouse.Keeper.Mm

structure OrderNow where
  filled : Int
  cancelled : Bool
  units : Int
  validUntil : Int
deriving DecidableEq

structure FillSeen where
  orderId : Int
  longId : Int
  side : Side
  kind : OrderKindName
  units : Int
  price : Int
  closed : Bool
  filled : Int
deriving DecidableEq

/- An expired Bid or AskResale still holds escrow: open. -/
def fillOf
    (tracked : TrackedOrder)
    (now : OrderNow)
    (head : Int) : FillSeen :=
  { orderId := tracked.orderId
    longId := tracked.longId
    side := if tracked.kind = .Bid then .buy else .sell
    kind := tracked.kind
    units :=
      if now.filled > tracked.filledSeen then
        now.filled - tracked.filledSeen
      else 0
    price := tracked.price
    closed :=
      now.cancelled || decide (now.filled ≥ now.units) ||
        (decide (head ≥ now.validUntil) &&
          decide (tracked.kind = .AskWrite))
    filled := now.filled }

def feeChangeDelayS : Int := 172800

def premiumFeeCeilBps : Int := 1000

def logChunkBlocks : Int := 50000

def fillLogMaxChunks : Int := 4

def fillReorgOverlap : Int := 5

/- `conservativeSellerFee`, with this caller's delay and cap. -/
def conservativeSellerFeeBps
    (kind : OrderKindName)
    (fees : FeeRegime)
    (previous : Option FillCheckpoint)
    (now : Int) : Int :=
  conservativeSellerFee kind
    { current := fees
      previous :=
        previous.map (fun c =>
          { regime := c.toFeeRegime
            seen := c.timestamp })
      now := now
      delayS := feeChangeDelayS
      ceilingBps := premiumFeeCeilBps }

def fillLogStart
    (checkpointBlock : Option Int)
    (head deployBlock : Int) : Int :=
  let start :=
    match checkpointBlock with
    | none => head - logChunkBlocks * fillLogMaxChunks + 1
    | some block => block + 1 - fillReorgOverlap
  if start < deployBlock then deployBlock
  else if start < 0 then 0
  else start

----
-- One Look
----

/-
  What a look is given: the vault, the fees in effect, the
  head, and the answers of its node: `getOrders` by id, and
  the OrderFilled logs of some orders from a block on (`none`
  when the read is refused).
-/
structure Look where
  vault : String
  deployBlock : Int
  fees : FeeRegime
  block : Int
  timestamp : Int
  order : Int → Option ChainOrder
  fillLogs : List Int → Int → Option (List FillLog)

structure OrderProgress where
  tracked : TrackedOrder
  chain : ChainOrder
  seen : FillSeen
deriving DecidableEq

inductive FeeBasis where
  | exact (feeBps sellerFee : Int)
  | conservative (feeBps : Int)
deriving DecidableEq

structure FillRecord where
  timestamp : Int
  orderId : Int
  longId : Int
  kind : OrderKindName
  side : Side
  units : Int
  price : Int
  fee : Option FeeBasis
deriving DecidableEq

structure TrackResult where
  chain : List ChainOrder
  fills : List FillRecord
  exact : Nat
  conservative : Nat
deriving DecidableEq

def orderNow
    (c : ChainOrder) : OrderNow :=
  { filled := c.filled
    cancelled := c.cancelled
    units := c.units
    validUntil := c.validUntil }

variable (l : Look)

/- Nothing for an order the node does not know or an idle one. -/
def Look.progressOf
    (t : TrackedOrder) : Option OrderProgress :=
  match l.order t.orderId with
  | none => none
  | some c =>
      if c.maker = zeroAddress then none
      else
        let f := fillOf t (orderNow c) l.timestamp
        if f.units = 0 ∧ ¬ f.closed ∧
            c.filled = t.filledSeen then none
        else some { tracked := t, chain := c, seen := f }

def Look.progress
    (db : MmDb) : List OrderProgress :=
  (openOrders db l.vault).filterMap l.progressOf

def OrderProgress.isSale
    (p : OrderProgress) : Bool :=
  decide (p.seen.units > 0) && decide (p.seen.side = .sell)

/- The logs are read only when there is a sale to price. -/
def Look.saleLogs
    (db : MmDb) : Option (List FillLog) :=
  let sales := (l.progress db).filter OrderProgress.isSale
  if sales = [] then none
  else
    l.fillLogs (sales.map (fun p => p.tracked.orderId))
      (fillLogStart
        ((fillCheckpoint db l.vault).map (fun c => c.block))
        l.block l.deployBlock)

/- The rate of a matched sale, rounded up. -/
def matchedFeeBps
    (m : FillMatch) : Int :=
  if m.premium = 0 then 0
  else
    (m.sellerFee * 10000 + m.premium - 1).tdiv m.premium

def Look.matchSale
    (logs : Option (List FillLog))
    (p : OrderProgress) : Option FillMatch :=
  match logs with
  | none => none
  | some ls =>
      matchFillLogs p.seen.units
        (ls.filter (fun x =>
          x.orderId = p.tracked.orderId ∧
            lc x.maker = lc l.vault))

def Look.feeOf
    (checkpoint : Option FillCheckpoint)
    (logs : Option (List FillLog))
    (p : OrderProgress) : Option FeeBasis :=
  if p.seen.side = .sell then
    match l.matchSale logs p with
    | some m => some (.exact (matchedFeeBps m) m.sellerFee)
    | none =>
        some
          (.conservative
            (conservativeSellerFeeBps p.tracked.kind l.fees
              checkpoint l.timestamp))
  else none

def FeeBasis.feeBps : FeeBasis → Int
  | .exact feeBps _ => feeBps
  | .conservative feeBps => feeBps

/- The ledger event of a fill: none when nothing grew. -/
def Look.eventOf
    (checkpoint : Option FillCheckpoint)
    (logs : Option (List FillLog))
    (p : OrderProgress) : Option LedgerEvent :=
  if p.seen.units > 0 then
    let sale :=
      if p.seen.side = .sell then l.matchSale logs p
      else none
    some
      (.fill
        { longId := toString p.tracked.longId
          side := p.seen.side
          units := p.seen.units
          price := p.tracked.price
          feeBps :=
            match l.feeOf checkpoint logs p with
            | some fee => fee.feeBps
            | none => sellerFeeBpsOf p.tracked.kind l.fees
          premium := sale.map (fun m => m.premium)
          sellerFee := sale.map (fun m => m.sellerFee)
          timestamp := l.timestamp })
  else none

def TrackResult.book
    (result : TrackResult)
    (l : Look)
    (checkpoint : Option FillCheckpoint)
    (logs : Option (List FillLog))
    (p : OrderProgress) : TrackResult :=
  if p.seen.units > 0 then
    let fee := l.feeOf checkpoint logs p
    { result with
      fills :=
        result.fills ++
          [{ timestamp := l.timestamp
             orderId := p.tracked.orderId
             longId := p.tracked.longId
             kind := p.tracked.kind
             side := p.seen.side
             units := p.seen.units
             price := p.tracked.price
             fee := fee }]
      exact :=
        match fee with
        | some (.exact _ _) => result.exact + 1
        | _ => result.exact
      conservative :=
        match fee with
        | some (.conservative _) => result.conservative + 1
        | _ => result.conservative }
  else result

def Look.record
    (checkpoint : Option FillCheckpoint)
    (logs : Option (List FillLog))
    (db : MmDb)
    (p : OrderProgress) : MmDb :=
  recordOrderProgress db p.tracked.orderId p.chain.filled
    p.seen.closed (l.eventOf checkpoint logs p) l.vault

/-
  The store when a crash ends the look after `n` of its
  transactions; every order is one of them.
-/
def Look.cut
    (db : MmDb)
    (n : Nat) : MmDb :=
  ((l.progress db).take n).foldl
    (l.record (fillCheckpoint db l.vault) (l.saleLogs db))
    db

def Look.checkpoint
    (l : Look) : FillCheckpoint :=
  { premiumFeeBps := l.fees.premiumFeeBps
    resaleFeeBps := l.fees.resaleFeeBps
    block := l.block
    timestamp := l.timestamp }

/- A look that comes to its end. -/
def trackVaultOrders
    (db : MmDb)
    (l : Look) : MmDb × TrackResult :=
  let chain :=
    (openOrders db l.vault).filterMap
      (fun t => l.order t.orderId)
  let result :=
    (l.progress db).foldl
      (fun acc p =>
        acc.book l (fillCheckpoint db l.vault)
          (l.saleLogs db) p)
      { chain := chain
        fills := []
        exact := 0
        conservative := 0 }
  (setFillCheckpoint
    (l.cut db (l.progress db).length) l.checkpoint l.vault,
   result)

----
-- Runs of the Bot
----

/-
  What happens to the store: complete looks, looks that a
  crash cuts, and the bot's other writes between them.
-/
inductive BotEvent where
  | look (l : Look)
  | crash (l : Look) (n : Nat)
  | ingest
      (rows : List (TrackedOrder × Bool))
      (index now : Int)
      (vault : String)
  | settle (event : SettleEvent) (vault : String)

def BotEvent.apply
    (db : MmDb) : BotEvent → MmDb
  | .look l => (trackVaultOrders db l).1
  | .crash l n => l.cut db n
  | .ingest rows index now vault =>
      ingestOrders db rows index now vault
  | .settle event vault => recordSettlement db event vault

def runBot
    (db : MmDb)
    (events : List BotEvent) : MmDb :=
  events.foldl BotEvent.apply db

/-
  The `filled` a look gets to act on for an order: the order
  is open, the node knows it, and the look came to it.
-/
def Look.reading
    (db : MmDb)
    (n : Nat)
    (id : Int) : Option Int :=
  match (openOrders db l.vault).find?
      (fun t => t.orderId = id) with
  | none => none
  | some t =>
      match l.order t.orderId with
      | none => none
      | some c =>
          if c.maker = zeroAddress then none
          else if l.progressOf t = none then some c.filled
          else if
            t.orderId ∈
              ((l.progress db).take n).map
                (fun p => p.tracked.orderId) then
            some c.filled
          else none

def BotEvent.reading
    (db : MmDb)
    (id : Int) : BotEvent → Option Int
  | .look l => l.reading db (l.progress db).length id
  | .crash l n => l.reading db n id
  | .ingest _ _ _ _ => none
  | .settle _ _ => none

/- The values of `filled` a run reads of an order, in turn. -/
def readings
    (id : Int) : MmDb → List BotEvent → List Int
  | _, [] => []
  | db, e :: rest =>
      (e.reading db id).toList ++
        readings id (e.apply db) rest

def LedgerEvent.units : LedgerEvent → Int
  | .fill e => e.units
  | .settle _ => 0

/- A fill row of the order: the value it ends at, its units. -/
def LedgerRow.fillOf
    (id : Int)
    (row : LedgerRow) : Option (Int × Int) :=
  match row.uniq with
  | .fill orderId filled =>
      if orderId = id then some (filled, row.event.units)
      else none
  | .settle _ => none
  | .settleFor _ _ => none

def fillRows
    (db : MmDb)
    (id : Int) : List (Int × Int) :=
  db.ledger.filterMap (LedgerRow.fillOf id)

def unitsBooked
    (db : MmDb)
    (id : Int) : Int :=
  ((fillRows db id).map Prod.snd).sum

----
-- One Order's Books Through a Look
----

section

/- The order's row and its fill rows are a watermark. -/
structure Books
    (db : MmDb)
    (id : Int)
    (m : Watermark.Mark Int) : Prop where
  tracked : id ∈ db.orders.map OrderRow.orderId
  seen :
    ∀ r ∈ db.orders, r.orderId = id →
      r.order.filledSeen = m.seen
  fills : fillRows db id = m.rises

variable {db : MmDb} {id : Int} {m : Watermark.Mark Int}

theorem fillRows_insert_fill
    (db : MmDb)
    (event : LedgerEvent)
    (id filled : Int)
    (vault : Option String) :
    fillRows
        (insertLedger db event (.fill id filled) vault) id =
      KeyedTable.insertOrIgnore Prod.fst (fillRows db id)
        (filled, event.units) := by
  unfold fillRows insertLedger
  apply KeyedTable.filterMap_insertOrIgnore
  · simp [LedgerRow.fillOf]
  · intro x z hz
    cases hUniq : x.uniq with
    | fill orderId other =>
        simp only [LedgerRow.fillOf, hUniq] at hz
        split at hz
        · rename_i hSame
          cases hz
          simp [hSame]
        · cases hz
    | settle longId =>
        simp [LedgerRow.fillOf, hUniq] at hz
    | settleFor v longId =>
        simp [LedgerRow.fillOf, hUniq] at hz
  · intro x hx
    have hUniq : x.uniq = .fill id filled := hx
    simp [LedgerRow.fillOf, hUniq]

theorem fillRows_insert_of_ne
    (db : MmDb)
    (event : LedgerEvent)
    {uniq : LedgerUniq}
    (vault : Option String)
    (h : ∀ filled, uniq ≠ .fill id filled) :
    fillRows (insertLedger db event uniq vault) id =
      fillRows db id := by
  unfold fillRows insertLedger
  apply KeyedTable.filterMap_insertOrIgnore_none
  cases uniq with
  | fill orderId filled =>
      have hNe : orderId ≠ id := by
        rintro rfl
        exact h filled rfl
      simp [LedgerRow.fillOf, hNe]
  | settle longId => rfl
  | settleFor v longId => rfl

/- What the update of one row leaves of the others. -/
theorem Books.progress
    (h : Books db id m)
    {orderId filled : Int}
    (closed : Bool)
    (hSeen : orderId = id → filled = m.seen) :
    Books
      { db with
        orders :=
          db.orders.map
            (OrderRow.progress orderId filled closed) }
      id m := by
  refine { tracked := ?_, seen := ?_, fills := h.fills }
  · rw [map_orderId_progress]
    exact h.tracked
  · intro r hr hId
    rcases List.mem_map.mp hr with ⟨old, hOld, rfl⟩
    rw [OrderRow.orderId_progress] at hId
    unfold OrderRow.progress
    by_cases hSame : old.orderId = orderId
    · rw [if_pos hSame]
      exact hSeen (hSame.symm.trans hId)
    · rw [if_neg hSame]
      exact h.seen old hOld hId

theorem Books.record_other
    (h : Books db id m)
    {orderId filled : Int}
    {closed : Bool}
    {event : Option LedgerEvent}
    {vault : Option String}
    (hNe : orderId ≠ id) :
    Books
      (recordOrderProgress db orderId filled closed event
        vault) id m := by
  unfold recordOrderProgress
  apply Books.progress _ closed
    (fun hSame => absurd hSame hNe)
  cases event with
  | none => exact h
  | some e =>
      refine
        { tracked := h.tracked
          seen := h.seen
          fills := ?_ }
      rw [fillRows_insert_of_ne db e vault
        (by
          intro other hSame
          cases hSame
          exact hNe rfl)]
      exact h.fills

/- Recording a look at the order is observing its value. -/
theorem Books.record_self
    (h : Books db id m)
    {filled : Int}
    {closed : Bool}
    {event : Option LedgerEvent}
    {vault : Option String}
    (hEvent :
      event.map LedgerEvent.units =
        if m.seen < filled then some (filled - m.seen)
        else none) :
    Books
      (recordOrderProgress db id filled closed event vault)
      id (Watermark.observe m filled) := by
  refine { tracked := ?_, seen := ?_, fills := ?_ }
  · rw [orders_recordOrderProgress, map_orderId_progress]
    exact h.tracked
  · intro r hr hId
    rw [orders_recordOrderProgress] at hr
    rcases List.mem_map.mp hr with ⟨old, hOld, rfl⟩
    rw [OrderRow.orderId_progress] at hId
    unfold OrderRow.progress
    rw [if_pos hId]
    rfl
  · cases event with
    | none =>
        have hLow : ¬ m.seen < filled := by
          intro hRise
          simp [hRise] at hEvent
        simp only [Watermark.observe, if_neg hLow]
        exact h.fills
    | some e =>
        have hRise : m.seen < filled := by
          by_contra hLow
          simp [hLow] at hEvent
        simp only [if_pos hRise, Option.map_some,
          Option.some.injEq] at hEvent
        simp only [Watermark.observe, if_pos hRise]
        rw [← h.fills, ← hEvent]
        exact fillRows_insert_fill db e id filled vault

end

----
-- The Transactions of a Look
----

section

variable {db : MmDb} {id : Int} {m : Watermark.Mark Int}

variable {t : TrackedOrder}

theorem mem_openOrders
    {vault : String}
    (h : t ∈ openOrders db vault) :
    ∃ r ∈ db.orders, r.order = t := by
  unfold openOrders at h
  rw [List.mem_insertionSort] at h
  rcases List.mem_map.mp h with ⟨r, hr, rfl⟩
  exact ⟨r, (List.mem_filter.mp hr).1, rfl⟩

theorem openOrders_ids_nodup
    (h : db.Keyed)
    (vault : Option String) :
    ((openOrders db vault).map
      (fun t => t.orderId)).Nodup := by
  unfold openOrders
  rw [((List.perm_insertionSort _ _).map _).nodup_iff,
    List.map_map]
  exact h.orders.sublist (List.filter_sublist.map _)

variable {l} {p : OrderProgress}

theorem Look.progressOf_spec
    (h : l.progressOf t = some p) :
    p.tracked = t ∧ l.order t.orderId = some p.chain ∧
      p.chain.maker ≠ zeroAddress ∧
      p.seen = Mm.fillOf t (orderNow p.chain) l.timestamp := by
  unfold Look.progressOf at h
  cases hOrder : l.order t.orderId with
  | none => simp [hOrder] at h
  | some c =>
      simp only [hOrder] at h
      split at h
      · cases h
      · rename_i hMaker
        split at h
        · cases h
        · cases h
          exact ⟨rfl, rfl, hMaker, rfl⟩

theorem mem_progress
    (h : p ∈ l.progress db) :
    p.tracked ∈ openOrders db l.vault ∧
      l.progressOf p.tracked = some p := by
  rcases List.mem_filterMap.mp h with ⟨t, ht, hp⟩
  have hSame := (Look.progressOf_spec hp).1
  subst hSame
  exact ⟨ht, hp⟩

theorem progress_ids_nodup
    (h : db.Keyed)
    (l : Look) :
    ((l.progress db).map
      (fun p => p.tracked.orderId)).Nodup := by
  have hSub :
      List.Sublist
        ((l.progress db).map (fun p => p.tracked.orderId))
        ((openOrders db l.vault).map
          (fun t => t.orderId)) := by
    unfold Look.progress
    generalize openOrders db l.vault = ts
    induction ts with
    | nil => exact List.Sublist.refl _
    | cons t rest ih =>
        cases hp : l.progressOf t with
        | none =>
            rw [List.filterMap_cons_none hp]
            exact ih.cons _
        | some p =>
            rw [List.filterMap_cons_some hp, List.map_cons,
              List.map_cons,
              (Look.progressOf_spec hp).1]
            exact ih.cons_cons _
  exact (openOrders_ids_nodup h _).sublist hSub

/- What a look books of an order: the rise over the mark. -/
theorem units_eventOf
    {checkpoint : Option FillCheckpoint}
    {logs : Option (List FillLog)}
    (h : l.progressOf t = some p) :
    (l.eventOf checkpoint logs p).map LedgerEvent.units =
      if t.filledSeen < p.chain.filled then
        some (p.chain.filled - t.filledSeen)
      else none := by
  rcases Look.progressOf_spec h with ⟨_, _, _, hSeen⟩
  have hUnits :
      p.seen.units =
        if p.chain.filled > t.filledSeen then
          p.chain.filled - t.filledSeen
        else 0 := by
    rw [hSeen]
    rfl
  unfold Look.eventOf
  by_cases hRise : t.filledSeen < p.chain.filled
  · rw [if_pos hRise] at hUnits
    have hPos : p.seen.units > 0 := by
      omega
    rw [if_pos hPos, if_pos hRise, ← hUnits]
    rfl
  · rw [if_neg hRise] at hUnits
    have hZero : ¬ p.seen.units > 0 := by
      omega
    rw [if_neg hZero, if_neg hRise]
    rfl

/- An idle order's reading is the one already stored. -/
theorem filled_of_progressOf_none
    {c : ChainOrder}
    (hOrder : l.order t.orderId = some c)
    (hMaker : c.maker ≠ zeroAddress)
    (h : l.progressOf t = none) :
    c.filled = t.filledSeen := by
  simp only [Look.progressOf, hOrder, if_neg hMaker] at h
  by_contra hNe
  have hMoved :
      ¬ ((fillOf t (orderNow c) l.timestamp).units = 0 ∧
        ¬ (fillOf t (orderNow c) l.timestamp).closed = true ∧
        c.filled = t.filledSeen) :=
    fun hIdle => hNe hIdle.2.2
  rw [if_neg hMoved] at h
  cases h

section Recording

variable
    (l : Look)
    (checkpoint : Option FillCheckpoint)
    (logs : Option (List FillLog))

variable {ps : List OrderProgress}

theorem Books.records_other
    (h : Books db id m)
    (hNone : id ∉ ps.map (fun p => p.tracked.orderId)) :
    Books (ps.foldl (l.record checkpoint logs) db) id m := by
  induction ps generalizing db with
  | nil => exact h
  | cons p rest ih =>
      rw [List.map_cons, List.mem_cons] at hNone
      rcases not_or.mp hNone with ⟨hNe, hRest⟩
      exact ih (h.record_other (Ne.symm hNe)) hRest

/- Of a look's transactions, one at most is the order's. -/
theorem Books.records
    (h : Books db id m)
    (hNodup : (ps.map (fun p => p.tracked.orderId)).Nodup)
    {p : OrderProgress}
    (hp : p ∈ ps)
    (hId : p.tracked.orderId = id)
    (hEvent :
      (l.eventOf checkpoint logs p).map LedgerEvent.units =
        if m.seen < p.chain.filled then
          some (p.chain.filled - m.seen)
        else none) :
    Books (ps.foldl (l.record checkpoint logs) db) id
      (Watermark.observe m p.chain.filled) := by
  induction ps generalizing db with
  | nil => cases hp
  | cons first rest ih =>
      rw [List.map_cons, List.nodup_cons] at hNodup
      rcases List.mem_cons.mp hp with rfl | hRest
      · have hSelf :
            Books (l.record checkpoint logs db p) id
              (Watermark.observe m p.chain.filled) := by
          unfold Look.record
          rw [hId]
          exact h.record_self hEvent
        exact hSelf.records_other l checkpoint logs
          (hId ▸ hNodup.1)
      · have hNe : first.tracked.orderId ≠ id := by
          intro hSame
          apply hNodup.1
          rw [hSame, ← hId]
          exact List.mem_map_of_mem
            (f := fun p => p.tracked.orderId) hRest
        exact ih (h.record_other hNe) hNodup.2 hRest

theorem keyed_records
    (h : db.Keyed) :
    (ps.foldl (l.record checkpoint logs) db).Keyed := by
  induction ps generalizing db with
  | nil => exact h
  | cons p rest ih =>
      exact ih (h.recordOrderProgress _ _ _ _ _)

end Recording

/- The mark after a reading, if there was one. -/
def observeOption
    (m : Watermark.Mark Int) :
    Option Int → Watermark.Mark Int
  | none => m
  | some r => Watermark.observe m r

theorem observe_seen
    (m : Watermark.Mark Int) :
    Watermark.observe m m.seen = m := by
  simp [Watermark.observe]

/- A look does to the order's books what its reading does. -/
theorem Books.look
    (h : Books db id m)
    (hKeyed : db.Keyed)
    (l : Look)
    (n : Nat) :
    Books (l.cut db n) id
      (observeOption m (l.reading db n id)) := by
  have hNodup :
      (((l.progress db).take n).map
        (fun p => p.tracked.orderId)).Nodup :=
    (progress_ids_nodup hKeyed l).sublist
      ((List.take_sublist _ _).map _)
  -- a transaction for the order comes from its open row
  have hOpen :
      ∀ p ∈ (l.progress db).take n,
        p.tracked.orderId = id →
        (openOrders db l.vault).find?
            (fun t => t.orderId = id) = some p.tracked ∧
          l.progressOf p.tracked = some p := by
    intro p hp hId
    have hMem := mem_progress (List.mem_of_mem_take hp)
    refine ⟨?_, hMem.2⟩
    cases hFind :
        (openOrders db l.vault).find?
          (fun t => t.orderId = id) with
    | none =>
        have hNone := List.find?_eq_none.mp hFind p.tracked
          hMem.1
        simp [hId] at hNone
    | some t =>
        have hT := List.find?_some hFind
        have hIn := List.mem_of_find?_eq_some hFind
        congr 1
        apply List.inj_on_of_nodup_map
          (openOrders_ids_nodup hKeyed _) hIn hMem.1
        simpa [hId] using hT
  cases hFind :
      (openOrders db l.vault).find?
        (fun t => t.orderId = id) with
  | none =>
      have hReading : l.reading db n id = none := by
        simp only [Look.reading, hFind]
      rw [hReading]
      apply h.records_other
      intro hIn
      rcases List.mem_map.mp hIn with ⟨p, hp, hId⟩
      rw [(hOpen p hp hId).1] at hFind
      cases hFind
  | some t =>
      have hT : t.orderId = id := by
        simpa using List.find?_some hFind
      subst hT
      have hSeen : t.filledSeen = m.seen := by
        rcases mem_openOrders (List.mem_of_find?_eq_some hFind)
          with ⟨r, hr, rfl⟩
        exact h.seen r hr rfl
      by_cases hIn :
          t.orderId ∈ ((l.progress db).take n).map
            (fun p => p.tracked.orderId)
      · rcases List.mem_map.mp hIn with ⟨p, hp, hId⟩
        rcases hOpen p hp hId with ⟨hSame, hProgress⟩
        rw [hFind] at hSame
        cases hSame
        rcases Look.progressOf_spec hProgress with
          ⟨_, hOrder, hMaker, _⟩
        have hReading :
            l.reading db n p.tracked.orderId =
              some p.chain.filled := by
          simp only [Look.reading, hFind, hOrder,
            hProgress, if_neg hMaker, if_pos hIn,
            reduceCtorEq, if_false]
        have hEvent :=
          @units_eventOf l p.tracked p (fillCheckpoint db l.vault)
            (l.saleLogs db) hProgress
        rw [hSeen] at hEvent
        rw [hReading]
        exact h.records l _ _ hNodup hp rfl hEvent
      · -- the stored value is what an idle look reads
        have hReading :
            observeOption m (l.reading db n t.orderId) =
              m := by
          simp only [Look.reading, hFind, if_neg hIn]
          cases hOrder : l.order t.orderId with
          | none => rfl
          | some c =>
              by_cases hMaker : c.maker = zeroAddress
              · simp only [if_pos hMaker]
                rfl
              · by_cases hIdle : l.progressOf t = none
                · simp only [if_neg hMaker, if_pos hIdle]
                  rw [filled_of_progressOf_none hOrder
                    hMaker hIdle, hSeen]
                  exact observe_seen m
                · simp only [if_neg hMaker, if_neg hIdle]
                  rfl
        rw [hReading]
        exact h.records_other l _ _ hIn

end

----
-- Booked Exactly Once
----

variable {db : MmDb} {id : Int} {m : Watermark.Mark Int}

/- The order has just been adopted with `filled` at `a`. -/
structure Adopted
    (db : MmDb)
    (id a : Int) : Prop where
  keyed : db.Keyed
  tracked :
    ∃ r ∈ db.orders,
      r.orderId = id ∧ r.order.filledSeen = a
  unfilled : fillRows db id = []

/-
  After every part of the run: no more units are booked than
  the largest reading is over the adoption, and exactly those
  once the last reading is the largest.
-/
def BookedOnce
    (db : MmDb)
    (id a : Int)
    (events : List BotEvent) : Prop :=
  ∀ part, part <+: events →
    unitsBooked (runBot db part) id ≤
        Watermark.top a (readings id db part) - a ∧
      ((readings id db part).getLast? =
          some (Watermark.top a (readings id db part)) →
        unitsBooked (runBot db part) id =
          Watermark.top a (readings id db part) - a)

def BotEvent.lookOf : BotEvent → Option Look
  | .look l => some l
  | .crash l _ => some l
  | .ingest _ _ _ _ => none
  | .settle _ _ => none

/-
  A node may answer from an older block than the head, but
  only what the chain held there; heads do not go back.
-/
structure TrueReads
    (history : Int → Int)
    (id : Int)
    (events : List BotEvent) : Prop where
  monotone : Monotone history
  heads :
    (events.filterMap BotEvent.lookOf).Pairwise
      (fun l l' => l.block ≤ l'.block)
  answers :
    ∀ l ∈ events.filterMap BotEvent.lookOf,
      ∀ c, l.order id = some c →
        ∃ block ≤ l.block, c.filled = history block

theorem Adopted.books
    {a : Int}
    (h : Adopted db id a) :
    Books db id (Watermark.start a) := by
  rcases h.tracked with ⟨r, hr, hId, hSeen⟩
  refine { tracked := ?_, seen := ?_, fills := h.unfilled }
  · exact hId ▸ List.mem_map_of_mem (f := OrderRow.orderId) hr
  · intro r' hr' hId'
    have hSame :=
      List.inj_on_of_nodup_map h.keyed.orders hr' hr
        (hId'.trans hId.symm)
    rw [hSame]
    exact hSeen

theorem Books.insertOrder
    (h : Books db id m)
    (row : OrderRow) :
    Books (insertOrder db row) id m := by
  refine { tracked := ?_, seen := ?_, fills := h.fills }
  · exact List.map_subset _
      (KeyedTable.subset_insertOrIgnore _ _) h.tracked
  · intro r hr hId
    by_cases hNew : row.orderId = id
    · have hSame : (Mm.insertOrder db row).orders = db.orders :=
        KeyedTable.insertOrIgnore_of_mem
          (hNew ▸ h.tracked)
      exact h.seen r (hSame ▸ hr) hId
    · rcases KeyedTable.mem_insertOrIgnore hr with
        hOld | rfl
      · exact h.seen r hOld hId
      · exact absurd hId hNew

theorem Books.ingest
    (h : Books db id m)
    (rows : List (TrackedOrder × Bool))
    (index now : Int)
    (vault : Option String) :
    Books (ingestOrders db rows index now vault) id m := by
  have hTracked :
      Books
        (rows.foldl
          (fun acc r => trackOrder acc r.1 r.2 now vault) db)
        id m := by
    induction rows generalizing db with
    | nil => exact h
    | cons r rest ih => exact ih (h.insertOrder _)
  exact
    { tracked := hTracked.tracked
      seen := hTracked.seen
      fills := hTracked.fills }

theorem Books.apply
    (h : Books db id m)
    (hKeyed : db.Keyed)
    (e : BotEvent) :
    Books (e.apply db) id
      (observeOption m (e.reading db id)) := by
  cases e with
  | look l =>
      have hLook := h.look hKeyed l (l.progress db).length
      exact
        { tracked := hLook.tracked
          seen := hLook.seen
          fills := hLook.fills }
  | crash l n => exact h.look hKeyed l n
  | ingest rows index now vault =>
      exact h.ingest rows index now vault
  | settle event vault =>
      refine
        { tracked := h.tracked
          seen := h.seen
          fills := ?_ }
      have hKeep :
          fillRows
              ((BotEvent.settle event vault).apply db) id =
            fillRows db id := by
        apply fillRows_insert_of_ne
        intro filled hSame
        cases hSame
      rw [hKeep]
      exact h.fills

theorem BotEvent.keyed
    (h : db.Keyed)
    (e : BotEvent) :
    (e.apply db).Keyed := by
  cases e with
  | look l =>
      have hLook : (l.cut db (l.progress db).length).Keyed :=
        keyed_records l _ _ h
      exact
        { orders := hLook.orders
          ledger := hLook.ledger }
  | crash l n => exact keyed_records l _ _ h
  | ingest rows index now vault =>
      exact h.ingestOrders rows index now vault
  | settle event vault => exact h.insertLedger _ _ _

/- A run does to the order's books what its readings do. -/
theorem Books.run
    (h : Books db id m)
    (hKeyed : db.Keyed)
    (events : List BotEvent) :
    Books (runBot db events) id
      ((readings id db events).foldl Watermark.observe
        m) := by
  induction events generalizing db m with
  | nil => exact h
  | cons e rest ih =>
      have hStep := ih (h.apply hKeyed e) (e.keyed hKeyed)
      unfold readings
      rw [List.foldl_append]
      cases hReading : e.reading db id with
      | none =>
          rw [hReading] at hStep
          exact hStep
      | some r =>
          rw [hReading] at hStep
          exact hStep

theorem Adopted.unitsBooked_run
    {a : Int}
    (h : Adopted db id a)
    (events : List BotEvent) :
    unitsBooked (runBot db events) id =
      (Watermark.observeAll a
        (readings id db events)).total := by
  unfold unitsBooked
  rw [(h.books.run h.keyed events).fills]
  rfl

theorem readings_append
    (id : Int)
    (db : MmDb)
    (events rest : List BotEvent) :
    readings id db (events ++ rest) =
      readings id db events ++
        readings id (runBot db events) rest := by
  induction events generalizing db with
  | nil => rfl
  | cons e events ih =>
      rw [List.cons_append, readings, readings, ih,
        List.append_assoc]
      rfl

theorem readings_of_part
    (id : Int)
    (db : MmDb)
    {part events : List BotEvent}
    (h : part <+: events) :
    readings id db part <+: readings id db events := by
  rcases h with ⟨rest, rfl⟩
  rw [readings_append]
  exact List.prefix_append _ _

/- Every first part of the readings is some part's readings. -/
theorem exists_readings_eq
    (id : Int)
    (db : MmDb)
    {events : List BotEvent}
    {q : List Int}
    (h : q <+: readings id db events) :
    ∃ part, part <+: events ∧ readings id db part = q := by
  induction events using List.reverseRecOn with
  | nil =>
      exact ⟨[], List.prefix_refl _,
        (List.prefix_nil.mp h).symm⟩
  | append_singleton events e ih =>
      have hWiden :
          q <+: readings id db events →
            ∃ part, part <+: events ++ [e] ∧
              readings id db part = q := by
        intro hEarlier
        rcases ih hEarlier with ⟨part, hPart, hSame⟩
        exact ⟨part,
          List.IsPrefix.trans hPart (List.prefix_append _ _),
          hSame⟩
      have hLast :
          readings id db (events ++ [e]) =
            readings id db events ++
              (e.reading (runBot db events) id).toList := by
        rw [readings_append, readings, readings,
          List.append_nil]
      rw [hLast] at h
      cases hReading : e.reading (runBot db events) id with
      | none =>
          rw [hReading, Option.toList_none,
            List.append_nil] at h
          exact hWiden h
      | some r =>
          rw [hReading, Option.toList_some,
            List.prefix_concat_iff] at h
          rcases h with hWhole | hEarlier
          · refine ⟨events ++ [e], List.prefix_refl _, ?_⟩
            rw [hLast, hReading, hWhole]
            rfl
          · exact hWiden hEarlier

/-
  Fills are booked exactly once iff every reading above the
  one before it starts from the largest so far, or ends where
  an earlier rise did.
-/
theorem booked_once_iff
    {a : Int}
    (h : Adopted db id a)
    (events : List BotEvent) :
    BookedOnce db id a events ↔
      Watermark.Tight a (readings id db events) := by
  rw [← Watermark.exact_iff_tight]
  constructor
  · intro hOnce q hPrefix
    rcases exists_readings_eq id db hPrefix with
      ⟨part, hPart, rfl⟩
    rw [← h.unitsBooked_run part]
    exact hOnce part hPart
  · intro hExact part hPart
    rw [h.unitsBooked_run part]
    exact hExact _ (readings_of_part id db hPart)

/- A bid of 100 units, adopted unfilled. -/
def adoptedBid : TrackedOrder :=
  { orderId := 1
    longId := 7
    kind := .Bid
    price := 2000000
    units := 100
    filledSeen := 0 }

def adoptedBidDb : MmDb :=
  { orders :=
      [{ order := adoptedBid
         closed := false
         seenAt := 0
         vault := "v" }]
    ledger := []
    store := MmMeta.empty }

def bidLook
    (block filled : Int) : Look :=
  { vault := "v"
    deployBlock := 0
    fees := { premiumFeeBps := 500, resaleFeeBps := 100 }
    block := block
    timestamp := block
    order := fun id =>
      if id = 1 then
        some
          { id := 1
            kind := .Bid
            price := 2000000
            units := 100
            filled := filled
            validUntil := 5000
            cancelled := false
            maker := "v"
            longId := 7 }
      else none
    fillLogs := fun _ _ => none }

/- The second look's node answers from an older block. -/
def laggingRun : List BotEvent :=
  [.look (bidLook 20 10), .look (bidLook 21 5),
    .look (bidLook 30 12)]

/- The bid's `filled`: 5 from block 10 on, 10 and 12 later. -/
def bidHistory
    (block : Int) : Int :=
  if block < 10 then 0
  else if block < 20 then 5
  else if block < 30 then 10
  else 12

theorem adopted_adoptedBidDb :
    Adopted adoptedBidDb 1 0 := by
  refine
    { keyed := { orders := ?_, ledger := ?_ }
      tracked := ?_
      unfilled := rfl }
  · simp [adoptedBidDb]
  · exact List.nodup_nil
  · exact ⟨_, List.mem_cons_self .., rfl, rfl⟩

theorem booked_once_iff_adoptedBidDb :
    BookedOnce adoptedBidDb 1 0 laggingRun ↔
      Watermark.Tight 0
        (readings 1 adoptedBidDb laggingRun) :=
  booked_once_iff adopted_adoptedBidDb laggingRun

theorem trueReads_laggingRun :
    TrueReads bidHistory 1 laggingRun := by
  refine { monotone := ?_, heads := ?_, answers := ?_ }
  · intro a b h
    unfold bidHistory
    split_ifs <;> omega
  · simp [laggingRun, BotEvent.lookOf, bidLook]
  · intro l hl c hc
    have hLooks :
        l ∈ [bidLook 20 10, bidLook 21 5, bidLook 30 12] :=
      hl
    rcases List.mem_cons.mp hLooks with rfl | hRest
    · cases hc
      exact ⟨20, le_refl _, rfl⟩
    · rcases List.mem_cons.mp hRest with rfl | hLast
      · cases hc
        exact ⟨10, by decide, rfl⟩
      · rw [List.mem_singleton.mp hLast] at hc ⊢
        cases hc
        exact ⟨30, le_refl _, rfl⟩

/- The bid filled 12 units; the ledger has 17 of them. -/
theorem lagging_run_books_twice :
    Adopted adoptedBidDb 1 0 ∧
      TrueReads bidHistory 1 laggingRun ∧
      unitsBooked (runBot adoptedBidDb laggingRun) 1 = 17 ∧
      ¬ BookedOnce adoptedBidDb 1 0 laggingRun := by
  have hReadings :
      readings 1 adoptedBidDb laggingRun = [10, 5, 12] := by
    decide +kernel
  have hUnits :
      unitsBooked (runBot adoptedBidDb laggingRun) 1 =
        17 := by
    decide +kernel
  refine ⟨adopted_adoptedBidDb, trueReads_laggingRun,
    hUnits, ?_⟩
  intro hOnce
  have hBound := (hOnce laggingRun (List.prefix_refl _)).1
  rw [hUnits, hReadings] at hBound
  exact absurd hBound (by decide)

end Callhouse.Keeper.Mm
