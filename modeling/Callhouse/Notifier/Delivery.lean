import Callhouse.Notifier.Breaker
import Callhouse.Lib.KeyedTable
import Callhouse.Lib.SlidingWindow
import Callhouse.Lib.Transition
import Mathlib.Data.List.Sort

/-
  notifier/src/delivery.ts: the queue of deliveries, leased and
  processed by one worker that may meet any outcome, database
  error or crash.

  Main declarations:
    * `DeliveryRow`, `RowWrite`
    * `leasedRows`, `processRow`
    * `Worker`, `deliveryStep`
-/

----
-- Rows and Options
----

namespace Callhouse.Notifier

inductive RowStatus where
  | pending
  | sending
  | sent
  | failed
  | dropped
deriving DecidableEq

/- `sent`, `failed` and `dropped` rows are finished. -/
def RowStatus.finished : RowStatus → Bool
  | .pending => false
  | .sending => false
  | _ => true

inductive ChannelName where
  | telegram
  | webpush
  | email
deriving DecidableEq

inductive DeliveryClass where
  | receipts
  | alerts
deriving DecidableEq

def DeliveryClass.text : DeliveryClass → String
  | .receipts => "receipts"
  | .alerts => "alerts"

def eventKinds : List String :=
  ["strike_cross", "price_alert", "expiry_24h", "expiry_1h",
    "settlement_receipt", "fill_receipt", "writer_itm_warning",
    "auto_roll", "payout_failed_to_ledger", "fee_notice",
    "admin_operation", "market_live"]

def receiptKinds : List String :=
  ["fill_receipt", "settlement_receipt",
    "payout_failed_to_ledger", "auto_roll"]

def deliveryClass
    (kind : String) : DeliveryClass :=
  if kind ∈ receiptKinds then .receipts else .alerts

def classKinds
    (c : DeliveryClass) : List String :=
  eventKinds.filter (fun kind => deliveryClass kind = c)

/- Times are milliseconds; a row's id orders as its uuid does. -/
structure DeliveryRow where
  id : Nat
  subscriptionId : Nat
  kind : String
  dedupeKey : String
  status : RowStatus
  attempts : Nat
  lastErrorCode : Option String
  createdAt : Int
  nextAttemptAt : Int
  sentAt : Option Int
deriving DecidableEq

structure DeliveryOptions where
  batchSize : Nat
  leaseMs : Int
  retryBackoffMs : List Int
  ratePerHour : DeliveryClass → Nat
  maxAgeMs : Int

structure DeliveryConfig where
  options : DeliveryOptions
  channels : ChannelName → Bool
  breakers : ChannelName → BreakerOptions

/- The subscription's columns that a lease reads with the row. -/
structure Subscription where
  channel : ChannelName
  targetEnc : Option String
  verified : Bool
  disabled : Bool
deriving DecidableEq

structure ClaimedRow where
  row : DeliveryRow
  sub : Subscription
deriving DecidableEq

/- A Date holds a number of milliseconds within its range. -/
def ValidDate
    (ms : Int) : Prop :=
  -8640000000000000 ≤ ms ∧ ms ≤ 8640000000000000

instance (ms : Int) : Decidable (ValidDate ms) :=
  inferInstanceAs
    (Decidable
      (-8640000000000000 ≤ ms ∧ ms ≤ 8640000000000000))

/- A query refuses the date that is made of any other number. -/
def dateMs
    (ms : Int) : Option Int :=
  if ValidDate ms then some ms else none

theorem validDate_of_dateMs
    {ms date : Int}
    (h : dateMs ms = some date) :
    ValidDate date := by
  unfold dateMs at h
  split at h
  · next hValid =>
      cases h
      exact hValid
  · cases h

----
-- Leases
----

def hourMs : Int := 3600000

def dueRows
    (rows : List DeliveryRow)
    (atMs : Int) : List DeliveryRow :=
  rows.filter
    (fun r =>
      !r.status.finished && decide (r.nextAttemptAt ≤ atMs))

def dueBefore
    (a b : DeliveryRow) : Prop :=
  a.nextAttemptAt < b.nextAttemptAt ∨
    a.nextAttemptAt = b.nextAttemptAt ∧ a.id ≤ b.id

instance : DecidableRel dueBefore :=
  fun a b =>
    inferInstanceAs
      (Decidable
        (a.nextAttemptAt < b.nextAttemptAt ∨
          a.nextAttemptAt = b.nextAttemptAt ∧ a.id ≤ b.id))

def leasedRows
    (options : DeliveryOptions)
    (rows : List DeliveryRow)
    (atMs : Int) : List DeliveryRow :=
  ((dueRows rows atMs).insertionSort dueBefore).take
    options.batchSize

def DeliveryRow.leased
    (r : DeliveryRow)
    (leaseEnd : Int) : DeliveryRow :=
  { r with
    status := .sending
    nextAttemptAt := leaseEnd }

def processedBefore
    (a b : ClaimedRow) : Prop :=
  a.row.createdAt < b.row.createdAt ∨
    a.row.createdAt = b.row.createdAt ∧ a.row.id ≤ b.row.id

instance : DecidableRel processedBefore :=
  fun a b =>
    inferInstanceAs
      (Decidable
        (a.row.createdAt < b.row.createdAt ∨
          a.row.createdAt = b.row.createdAt ∧
            a.row.id ≤ b.row.id))

/- The table after the lease, and the batch it returned. -/
def leaseTable
    (leased : List DeliveryRow)
    (leaseEnd : Int)
    (rows : List DeliveryRow) : List DeliveryRow :=
  rows.map
    (fun r =>
      if r.id ∈ leased.map DeliveryRow.id then r.leased leaseEnd
      else r)

def leaseBatch
    (leased : List DeliveryRow)
    (leaseEnd : Int)
    (subs : Nat → Subscription) : List ClaimedRow :=
  (leased.map
    (fun r =>
      { row := r.leased leaseEnd
        sub := subs r.subscriptionId : ClaimedRow })).insertionSort
    processedBefore

----
-- Processing One Row
----

/- A number, which need not be finite. -/
inductive RetryAfterMs where
  | finite (ms : Int)
  | notFinite
deriving DecidableEq

inductive SendOutcome where
  | ok
  | transient (code : String) (retryAfterMs : Option RetryAfterMs)
  | permanent (code : String)
  | gone (code : String)
deriving DecidableEq

/-
  What one row meets: the clock, whether its payload, its
  preferences, its target and its template are good, whether the
  count of sent rows fails, the breaker's key, what the channel
  answers or throws, and whether the row's write is lost.
-/
structure RowMeets where
  now : Int
  payloadOk : Bool
  prefsOk : Bool
  countFails : Bool
  targetOk : Bool
  renderOk : Bool
  pushKey : String
  answer : Except String SendOutcome
  writeLost : Bool

/- Breakers of Telegram, email and the push hosts, oldest first. -/
structure Breakers where
  telegram : CircuitBreaker
  email : CircuitBreaker
  push : List (String × CircuitBreaker)
deriving DecidableEq

def maxPushBreakers : Nat := 256

def Breakers.fresh
    (config : DeliveryConfig) : Breakers :=
  { telegram := .fresh (config.breakers .telegram)
    email := .fresh (config.breakers .email)
    push := [] }

def Breakers.breakerFor
    (b : Breakers)
    (channel : ChannelName)
    (key : String) : CircuitBreaker × Breakers :=
  match channel with
  | .telegram => (b.telegram, b)
  | .email => (b.email, b)
  | .webpush =>
      match b.push.find? (fun e => e.1 = key) with
      | some e =>
          (e.2,
            { b with
              push := b.push.filter (fun e => e.1 ≠ key) ++ [e] })
      | none =>
          let kept :=
            if b.push.length ≥ maxPushBreakers then b.push.tail
            else b.push
          (.fresh defaultBreaker,
            { b with
              push := kept ++ [(key, .fresh defaultBreaker)] })

/- The breaker is a reference into the map. -/
def Breakers.put
    (b : Breakers)
    (channel : ChannelName)
    (key : String)
    (breaker : CircuitBreaker) : Breakers :=
  match channel with
  | .telegram => { b with telegram := breaker }
  | .email => { b with email := breaker }
  | .webpush =>
      { b with
        push :=
          b.push.map
            (fun e => if e.1 = key then (key, breaker) else e) }

/- One UPDATE of a row. -/
inductive RowWrite where
  | dropped (reason : String)
  | failed (code : String)
  | postponed (next : Int)
  | sent (atMs : Int)
  | retry (code : String) (next : Int)
deriving DecidableEq

def RowWrite.apply
    (write : RowWrite)
    (r : DeliveryRow) : DeliveryRow :=
  match write with
  | .dropped reason =>
      { r with
        status := .dropped
        lastErrorCode := some reason }
  | .failed code =>
      { r with
        status := .failed
        attempts := r.attempts + 1
        lastErrorCode := some code }
  | .postponed next =>
      { r with
        status := .pending
        nextAttemptAt := next }
  | .sent atMs =>
      { r with
        status := .sent
        attempts := r.attempts + 1
        sentAt := some atMs
        lastErrorCode := none }
  | .retry code next =>
      { r with
        status := .pending
        attempts := r.attempts + 1
        lastErrorCode := some code
        nextAttemptAt := next }

/- Whether the write records what became of an attempt. -/
def RowWrite.outcome : RowWrite → Bool
  | .failed _ => true
  | .sent _ => true
  | .retry _ _ => true
  | _ => false

structure SendRecord where
  channel : ChannelName
  send : BreakerSend
deriving DecidableEq

/- The write, unless it threw first, and the send before it. -/
structure Processed where
  write : Option RowWrite
  breakers : Breakers
  sent : Option SendRecord

def retryAt
    (atMs backoff : Int) : Option RetryAfterMs → Option Int
  | none => dateMs (atMs + max backoff 0)
  | some (.finite ms) => dateMs (atMs + max backoff ms)
  | some .notFinite => none

def SendOutcome.outage : SendOutcome → Bool
  | .transient code _ => decide (code ≠ "http_429")
  | _ => false

def SendOutcome.write
    (outcome : SendOutcome)
    (options : DeliveryOptions)
    (row : DeliveryRow)
    (atMs : Int) : Option RowWrite :=
  match outcome with
  | .ok => some (.sent atMs)
  | .transient code retryAfter =>
      match options.retryBackoffMs[row.attempts]? with
      | none => some (.failed code)
      | some backoff =>
          (retryAt atMs backoff retryAfter).map (.retry code)
  | .permanent code => some (.failed code)
  | .gone code => some (.failed code)

def answered : Except String SendOutcome → SendOutcome
  | .ok outcome => outcome
  | .error code => .transient code none

/- From the breaker's gate on. -/
def sendRow
    (config : DeliveryConfig)
    (breakers : Breakers)
    (c : ClaimedRow)
    (m : RowMeets) : Processed :=
  let found := breakers.breakerFor c.sub.channel m.pushKey
  let asked := found.1.allow m.now
  if !asked.1 then
    { write :=
        (dateMs (max asked.2.openedUntil (m.now + 1000))).map
          .postponed
      breakers := found.2
      sent := none }
  else
    let outcome := answered m.answer
    { write := outcome.write config.options c.row m.now
      breakers :=
        found.2.put c.sub.channel m.pushKey
          (if outcome.outage then asked.2.failure m.now
          else asked.2.success)
      sent :=
        some
          { channel := c.sub.channel
            send :=
              { atMs := m.now
                outage := outcome.outage } } }

/- Rows of the subscription and class sent within the hour. -/
def sentLastHour
    (rows : List DeliveryRow)
    (subscriptionId : Nat)
    (c : DeliveryClass)
    (atMs : Int) : Nat :=
  rows.countP
    (fun r =>
      decide (r.subscriptionId = subscriptionId) &&
        decide (r.status = .sent) &&
        (match r.sentAt with
          | some t => decide (atMs - hourMs < t)
          | none => false) &&
        decide (r.kind ∈ classKinds c))

def processRow
    (config : DeliveryConfig)
    (rows : List DeliveryRow)
    (breakers : Breakers)
    (c : ClaimedRow)
    (m : RowMeets) : Processed :=
  let only (write : RowWrite) : Processed :=
    { write := some write
      breakers := breakers
      sent := none }
  if c.sub.disabled || !c.sub.verified ||
      c.sub.targetEnc.isNone then
    only (.dropped "subscription_inactive")
  else if !config.channels c.sub.channel then
    only (.dropped "channel_off")
  else if m.now - c.row.createdAt > config.options.maxAgeMs then
    only (.dropped "stale")
  else if c.row.kind ∉ eventKinds then
    only (.dropped "unknown_kind")
  else if !m.payloadOk then only (.failed "bad_payload")
  else if !m.prefsOk then only (.dropped "pref_off")
  else if m.countFails then
    { write := none
      breakers := breakers
      sent := none }
  else if sentLastHour rows c.row.subscriptionId
      (deliveryClass c.row.kind) m.now ≥
        config.options.ratePerHour (deliveryClass c.row.kind) then
    only
      (.dropped
        ("rate_limited:" ++ (deliveryClass c.row.kind).text))
  else if !m.targetOk then only (.failed "target_unreadable")
  else if !m.renderOk then only (.failed "render_error")
  else sendRow config breakers c m

----
-- The Worker
----

/-
  The table; the batch leased and not yet processed; the
  breakers of the process; its clock; the sends it made; and
  the row of every outcome recorded so far.
-/
structure Worker where
  rows : List DeliveryRow
  batch : List ClaimedRow
  breakers : Breakers
  clock : Int
  sends : List SendRecord
  outcomes : List Nat

inductive LeaseFate where
  | done
  | refused
  | unanswered
deriving DecidableEq

inductive DeliveryEvent where
  | enqueue
      (id subscriptionId : Nat)
      (kind dedupeKey : String)
      (atMs : Int)
  | lease
      (atMs : Int)
      (subs : Nat → Subscription)
      (fate : LeaseFate)
  | process (m : RowMeets)
  | restart

def enqueuedRow
    (id subscriptionId : Nat)
    (kind dedupeKey : String)
    (atMs : Int) : DeliveryRow :=
  { id := id
    subscriptionId := subscriptionId
    kind := kind
    dedupeKey := dedupeKey
    status := .pending
    attempts := 0
    lastErrorCode := none
    createdAt := atMs
    nextAttemptAt := atMs
    sentAt := none }

/- A fresh uuid; a taken dedupe key leaves the table alone. -/
def Worker.enqueue
    (w : Worker)
    (row : DeliveryRow) : Option Worker :=
  if row.id ∈ w.rows.map DeliveryRow.id then none
  else if !decide (ValidDate row.createdAt) then none
  else
    some
      { w with
        rows :=
          KeyedTable.insertOrIgnore
            (fun r => (r.subscriptionId, r.dedupeKey))
            w.rows row }

/- The pass before has ended, and the clock has not gone back. -/
def Worker.lease
    (config : DeliveryConfig)
    (w : Worker)
    (atMs : Int)
    (subs : Nat → Subscription)
    (fate : LeaseFate) : Option Worker :=
  if w.batch ≠ [] ∨ atMs < w.clock ∨ ¬ ValidDate atMs then none
  else
    let leased := leasedRows config.options w.rows atMs
    match fate, dateMs (atMs + config.options.leaseMs) with
    | .done, some leaseEnd =>
        some
          { w with
            rows := leaseTable leased leaseEnd w.rows
            batch := leaseBatch leased leaseEnd subs
            clock := atMs }
    | .unanswered, some leaseEnd =>
        some
          { w with
            rows := leaseTable leased leaseEnd w.rows
            clock := atMs }
    | _, _ => some { w with clock := atMs }

/- A lost write leaves the row to its lease. -/
def Worker.process
    (config : DeliveryConfig)
    (w : Worker)
    (m : RowMeets) : Option Worker :=
  match w.batch with
  | [] => none
  | c :: rest =>
      if m.now < w.clock ∨ ¬ ValidDate m.now then none
      else
        let p := processRow config w.rows w.breakers c m
        let w' :=
          { w with
            batch := rest
            breakers := p.breakers
            clock := m.now
            sends := w.sends ++ p.sent.toList }
        match p.write with
        | none => some w'
        | some write =>
            if m.writeLost then some w'
            else
              some
                { w' with
                  rows :=
                    KeyedTable.updateAt DeliveryRow.id c.row.id
                      write.apply w.rows
                  outcomes :=
                    if write.outcome then
                      w.outcomes ++ [c.row.id]
                    else w.outcomes }

/- The process stops anywhere and another one starts. -/
def Worker.restart
    (config : DeliveryConfig)
    (w : Worker) : Worker :=
  { w with
    batch := []
    breakers := Breakers.fresh config
    sends := [] }

def deliveryStep
    (config : DeliveryConfig)
    (w : Worker) : DeliveryEvent → Option Worker
  | .enqueue id subscriptionId kind dedupeKey atMs =>
      w.enqueue (enqueuedRow id subscriptionId kind dedupeKey atMs)
  | .lease atMs subs fate => w.lease config atMs subs fate
  | .process m => w.process config m
  | .restart => some (w.restart config)

def DeliveryStep
    (config : DeliveryConfig)
    (w w' : Worker) : Prop :=
  ∃ event, deliveryStep config w event = some w'

/- Any queue of rows as they are enqueued, after 1970. -/
structure Worker.Start
    (config : DeliveryConfig)
    (w : Worker) : Prop where
  ids : (w.rows.map DeliveryRow.id).Nodup
  enqueued :
    ∀ r ∈ w.rows,
      r.status = .pending ∧ r.attempts = 0 ∧
        ValidDate r.nextAttemptAt
  batch : w.batch = []
  breakers : w.breakers = Breakers.fresh config
  clock : 0 < w.clock
  sends : w.sends = []
  outcomes : w.outcomes = []

end Callhouse.Notifier
