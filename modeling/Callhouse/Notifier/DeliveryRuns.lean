import Callhouse.Notifier.DeliverySteps

/-
  notifier/src/delivery.ts over runs: what every reachable queue
  keeps, whatever its rows meet and wherever the worker stops.

  Main declarations:
    * `RowStep`, `rowStep`
    * `KeepsRows`, `LeasesInTurn`, `CountsAttempts`
    * `PostponesFree`, `StaysInRate`, `CoolsDown`
    * `deliveries_kept`
-/

----
-- Rows Over One Step
----

namespace Callhouse.Notifier

/- What one step can make of a row. -/
inductive RowStep
    (w w' : Worker)
    (r : DeliveryRow) : DeliveryRow → Prop where
  | same : RowStep w w' r r
  | leased
      (leaseEnd : Int)
      (unfinished : r.status.finished = false)
      (due : r.nextAttemptAt ≤ w'.clock) :
      RowStep w w' r (r.leased leaseEnd)
  | written
      (write : RowWrite)
      (unfinished : r.status.finished = false)
      (claimed : r.id ∈ w.batch.map (fun c => c.row.id)) :
      RowStep w w' r (write.apply r)

variable {w w' : Worker} {r r' : DeliveryRow}

theorem RowStep.id_eq
    (h : RowStep w w' r r') :
    r'.id = r.id := by
  cases h with
  | same => rfl
  | leased leaseEnd _ _ => rfl
  | written write _ _ => exact write.apply_id r

variable {config : DeliveryConfig}

section

variable (hSound : w.Sound config)
include hSound

theorem rowStep_lease
    {atMs : Int}
    {subs : Nat → Subscription}
    {fate : LeaseFate}
    (h : w.lease config atMs subs fate = some w')
    (hr : r ∈ w.rows) :
    ∃ r' ∈ w'.rows, RowStep w w' r r' := by
  have hTable :
      ∀ leaseEnd,
        w'.rows =
            leaseTable (leasedRows config.options w.rows atMs)
              leaseEnd w.rows →
          w'.clock = atMs →
            ∃ r' ∈ w'.rows, RowStep w w' r r' := by
    intro leaseEnd hRows hClock
    rw [hRows]
    refine ⟨_, List.mem_map.mpr ⟨r, hr, rfl⟩, ?_⟩
    split
    · next hIn =>
        rcases List.mem_map.mp hIn with ⟨x, hx, hId⟩
        have hDue := mem_dueRows.mp (due_of_leasedRows hx)
        have hSame :=
          KeyedTable.eq_of_key_eq hSound.rows.ids hDue.1 hr hId
        subst hSame
        rw [← hClock] at hDue
        exact RowStep.leased leaseEnd hDue.2.1 hDue.2.2
    · exact RowStep.same
  rcases Worker.lease_cases h with ⟨-, -, hCases⟩
  rcases hCases with rfl | ⟨leaseEnd, -, rfl | rfl⟩
  · exact ⟨r, hr, RowStep.same⟩
  · exact hTable leaseEnd rfl rfl
  · exact hTable leaseEnd rfl rfl

theorem rowStep_process
    {m : RowMeets}
    (h : w.process config m = some w')
    (hr : r ∈ w.rows) :
    ∃ r' ∈ w'.rows, RowStep w w' r r' := by
  rcases Worker.process_cases h with
    ⟨c, rest, hBatch, -, -, -, -, -, hCases⟩
  rcases hCases with ⟨hRows, -⟩ | ⟨write, -, hRows, -⟩
  · rw [hRows]
    exact ⟨r, hr, RowStep.same⟩
  · rw [hRows]
    refine ⟨_, List.mem_map.mpr ⟨r, hr, rfl⟩, ?_⟩
    split
    · next hId =>
        have hHead : c ∈ w.batch := by
          rw [hBatch]
          exact List.mem_cons_self
        rcases hSound.batch.claimed c hHead with ⟨hIn, hSending⟩
        have hSame :=
          KeyedTable.eq_of_key_eq hSound.rows.ids hr hIn hId
        subst hSame
        refine RowStep.written write ?_ ?_
        · rw [hSending]
          rfl
        · exact List.mem_map_of_mem hHead
    · exact RowStep.same

/- Every row outlives the step, as one of the above. -/
theorem rowStep
    (hStep : DeliveryStep config w w')
    (hr : r ∈ w.rows) :
    ∃ r' ∈ w'.rows, RowStep w w' r r' := by
  rcases hStep with ⟨event, h⟩
  cases event with
  | enqueue id subscriptionId kind dedupeKey atMs =>
      rcases Worker.enqueue_cases h with rfl | ⟨-, -, rfl⟩
      · exact ⟨r, hr, RowStep.same⟩
      · exact ⟨r, List.mem_append_left _ hr, RowStep.same⟩
  | lease atMs subs fate => exact rowStep_lease hSound h hr
  | process m => exact rowStep_process hSound h hr
  | restart =>
      cases h
      exact ⟨r, hr, RowStep.same⟩

/- The row a step leaves under an id is made by the step. -/
theorem rowStep_of_id
    (hStep : DeliveryStep config w w')
    (hr : r ∈ w.rows)
    (hr' : r' ∈ w'.rows)
    (hId : r'.id = r.id) :
    RowStep w w' r r' := by
  rcases rowStep hSound hStep hr with ⟨x, hx, hRow⟩
  have hSame :=
    KeyedTable.eq_of_key_eq (hSound.step hStep).rows.ids hr' hx
      (hId.trans hRow.id_eq.symm)
  rw [hSame]
  exact hRow

end

/- A finished row is left as it is. -/
theorem RowStep.eq_of_finished
    (h : RowStep w w' r r')
    (hDone : r.status.finished = true) :
    r' = r := by
  cases h with
  | same => rfl
  | leased leaseEnd hOpen _ =>
      rw [hDone] at hOpen
      cases hOpen
  | written write hOpen _ =>
      rw [hDone] at hOpen
      cases hOpen

theorem kept_of_run
    (hSound : w.Sound config)
    (hRun : Relation.ReflTransGen (DeliveryStep config) w w')
    (hr : r ∈ w.rows) :
    w'.Sound config ∧
      ∃ r' ∈ w'.rows, r'.id = r.id ∧
        (r.status.finished = true → r' = r) := by
  induction hRun with
  | refl => exact ⟨hSound, r, hr, rfl, fun _ => rfl⟩
  | tail _ hStep ih =>
      rcases ih with ⟨hMid, r₁, hr₁, hId, hDone⟩
      refine ⟨hMid.step hStep, ?_⟩
      rcases rowStep hMid hStep hr₁ with ⟨r₂, hr₂, hRow⟩
      refine ⟨r₂, hr₂, hRow.id_eq.trans hId, ?_⟩
      intro hFinished
      have hMidEq := hDone hFinished
      subst hMidEq
      exact hRow.eq_of_finished hFinished

----
-- Room in a Pass
----

/- A sorted list's element with few elements before it. -/
theorem mem_take_of_few_before
    {α : Type}
    [DecidableEq α]
    {before : α → α → Prop}
    [DecidableRel before]
    {l : List α}
    (hSorted : l.Pairwise before)
    (hNodup : l.Nodup)
    {x : α}
    (hx : x ∈ l)
    {n : Nat}
    (hFew :
      (l.filter (fun y => decide (before y x ∧ y ≠ x))).length <
        n) :
    x ∈ l.take n := by
  rcases List.append_of_mem hx with ⟨pre, post, rfl⟩
  rw [List.pairwise_append] at hSorted
  rw [List.nodup_append] at hNodup
  have hPre :
      pre.filter (fun y => decide (before y x ∧ y ≠ x)) = pre := by
    rw [List.filter_eq_self]
    intro y hy
    exact decide_eq_true
      ⟨hSorted.2.2 y hy x List.mem_cons_self,
        hNodup.2.2 y hy x List.mem_cons_self⟩
  rw [List.filter_append, hPre, List.length_append] at hFew
  rw [List.take_append, List.mem_append]
  right
  have hPos : n - pre.length = (n - pre.length - 1) + 1 := by
    omega
  rw [hPos, List.take_succ_cons]
  exact List.mem_cons_self

instance : Std.Total dueBefore where
  total a b := by
    unfold dueBefore
    omega

instance : IsTrans DeliveryRow dueBefore where
  trans a b c := by
    unfold dueBefore
    omega

/- The due rows that a lease takes before the given one. -/
def dueBeforeRow
    (rows : List DeliveryRow)
    (atMs : Int)
    (r : DeliveryRow) : List DeliveryRow :=
  (dueRows rows atMs).filter
    (fun x => decide (dueBefore x r ∧ x ≠ r))

theorem mem_leasedRows
    {options : DeliveryOptions}
    {rows : List DeliveryRow}
    (hIds : (rows.map DeliveryRow.id).Nodup)
    {atMs : Int}
    (hDue : r ∈ dueRows rows atMs)
    (hRoom :
      (dueBeforeRow rows atMs r).length < options.batchSize) :
    r ∈ leasedRows options rows atMs := by
  have hPerm := List.perm_insertionSort dueBefore (dueRows rows atMs)
  have hNodup : (dueRows rows atMs).Nodup :=
    (List.Nodup.of_map _ hIds).filter _
  unfold leasedRows
  apply mem_take_of_few_before
    (List.pairwise_insertionSort dueBefore _)
    (hPerm.nodup_iff.mpr hNodup)
    (hPerm.mem_iff.mpr hDue)
  rw [(hPerm.filter _).length_eq]
  exact hRoom

----
-- The Queue's Promises
----

/- No row is lost, and a finished row never changes again. -/
def KeepsRows
    (config : DeliveryConfig)
    (w : Worker) : Prop :=
  ∀ w', Relation.ReflTransGen (DeliveryStep config) w w' →
    ∀ r ∈ w.rows,
      (∃ r' ∈ w'.rows, r'.id = r.id) ∧
        (r.status.finished = true →
          ∀ r' ∈ w'.rows, r'.id = r.id → r' = r)

/-
  An unfinished row has a date, waits unchanged while it is not
  in a batch, and is in the batch of the next pass that runs
  after that date and has room for it.
-/
def LeasesInTurn
    (config : DeliveryConfig)
    (w : Worker) : Prop :=
  ∀ r ∈ w.rows, r.status.finished = false →
    ValidDate r.nextAttemptAt ∧
      (r.id ∉ w.batch.map (fun c => c.row.id) →
        ∀ w', DeliveryStep config w w' →
          r ∈ w'.rows ∨
            r.nextAttemptAt ≤ w'.clock ∧
              ∃ leaseEnd, r.leased leaseEnd ∈ w'.rows) ∧
      ∀ atMs subs w',
        w.lease config atMs subs .done = some w' →
          ValidDate (atMs + config.options.leaseMs) →
            r.nextAttemptAt ≤ atMs →
              (dueBeforeRow w.rows atMs r).length <
                  config.options.batchSize →
                ∃ c ∈ w'.batch, c.row.id = r.id

/-
  A row's attempts are the outcomes recorded for it, at most one
  more than the retries; a step adds one only with an outcome.
-/
def CountsAttempts
    (config : DeliveryConfig)
    (w : Worker) : Prop :=
  ∀ r ∈ w.rows,
    r.attempts = w.outcomes.count r.id ∧
      r.attempts ≤ config.options.retryBackoffMs.length + 1 ∧
      ∀ w', DeliveryStep config w w' →
        ∀ r' ∈ w'.rows, r'.id = r.id →
          r'.attempts = r.attempts ∨
            r'.attempts = r.attempts + 1 ∧
              ∃ write : RowWrite,
                write.outcome = true ∧ r' = write.apply r

/- A row that a breaker refuses is postponed for nothing. -/
def PostponesFree
    (config : DeliveryConfig)
    (w : Worker) : Prop :=
  ∀ m w' c rest,
    w.batch = c :: rest → w.process config m = some w' →
      processRow config w.rows w.breakers c m =
          sendRow config w.breakers c m →
        ((w.breakers.breakerFor c.sub.channel
            m.pushKey).1.allow m.now).1 = false →
          w'.sends = w.sends ∧ w'.outcomes = w.outcomes ∧
            ∀ r' ∈ w'.rows, r'.id = c.row.id →
              r'.attempts = c.row.attempts ∧
                r'.status.finished = false

/- No hour holds more sent rows of a class than its rate. -/
def StaysInRate
    (config : DeliveryConfig)
    (w : Worker) : Prop :=
  ∀ subscriptionId c lo,
    SlidingWindow.count hourMs lo
        (sentTimes w.rows subscriptionId c) ≤
      config.options.ratePerHour c

/-
  In one process, from the send that opens a shared channel's
  breaker and while only outages come, each send waits for the
  end of the cool-down that the send before it began.
-/
def CoolsDown
    (config : DeliveryConfig)
    (w : Worker) : Prop :=
  ∀ ch, ch ≠ .webpush →
    ∀ (pre : List BreakerSend) (first : BreakerSend)
      (tail : List BreakerSend),
      w.sendsOn ch = pre ++ first :: tail →
        (CircuitBreaker.replay (config.breakers ch)
            pre).openedUntil = 0 →
          (CircuitBreaker.replay (config.breakers ch)
              (pre ++ [first])).openedUntil ≠ 0 →
            (∀ send ∈ tail, send.outage = true) →
              ∀ k < tail.length,
                ((first :: tail).getD k first).atMs +
                    CircuitBreaker.coolDown
                      (config.breakers ch) k ≤
                  (tail.getD k first).atMs

section

variable (hSound : w.Sound config)
include hSound

theorem Worker.Sound.keepsRows :
    KeepsRows config w := by
  intro w' hRun r hr
  rcases kept_of_run hSound hRun hr with
    ⟨hSound', r', hr', hId, hDone⟩
  refine ⟨⟨r', hr', hId⟩, ?_⟩
  intro hFinished x hx hIdX
  rw [← hDone hFinished]
  exact
    KeyedTable.eq_of_key_eq hSound'.rows.ids hx hr'
      (hIdX.trans hId.symm)

theorem Worker.Sound.leasesInTurn :
    LeasesInTurn config w := by
  intro r hr hOpen
  refine ⟨hSound.rows.dates r hr, ?_, ?_⟩
  · intro hWaits w' hStep
    rcases rowStep hSound hStep hr with ⟨r', hr', hRow⟩
    cases hRow with
    | same => exact Or.inl hr'
    | leased leaseEnd _ hDue =>
        exact Or.inr ⟨hDue, leaseEnd, hr'⟩
    | written write _ hClaimed => exact absurd hClaimed hWaits
  · intro atMs subs w' h hDate hDue hRoom
    have hIn : r ∈ leasedRows config.options w.rows atMs :=
      mem_leasedRows hSound.rows.ids
        (mem_dueRows.mpr ⟨hr, hOpen, hDue⟩) hRoom
    have hUntil :
        dateMs (atMs + config.options.leaseMs) =
          some (atMs + config.options.leaseMs) := if_pos hDate
    unfold Worker.lease at h
    split at h
    · cases h
    · rw [hUntil] at h
      cases h
      exact ⟨_, mem_leaseBatch.mpr ⟨r, hIn, rfl⟩, rfl⟩

theorem Worker.Sound.countsAttempts :
    CountsAttempts config w := by
  intro r hr
  refine
    ⟨hSound.rows.attempts r hr, hSound.rows.bounded r hr, ?_⟩
  intro w' hStep r' hr' hId
  cases rowStep_of_id hSound hStep hr hr' hId with
  | same => exact Or.inl rfl
  | leased leaseEnd _ _ => exact Or.inl rfl
  | written write _ _ =>
      rw [write.apply_attempts]
      cases hOutcome : write.outcome with
      | false => exact Or.inl rfl
      | true => exact Or.inr ⟨rfl, write, hOutcome, rfl⟩

theorem Worker.Sound.postponesFree :
    PostponesFree config w := by
  intro m w' c rest hBatch h hGate hRefused
  have hHead : c ∈ w.batch := by
    rw [hBatch]
    exact List.mem_cons_self
  rcases hSound.batch.claimed c hHead with ⟨hr, hSending⟩
  have hProcessed :
      (sendRow config w.breakers c m).sent = none ∧
        ∀ write,
          (sendRow config w.breakers c m).write = some write →
            ∃ next, write = .postponed next := by
    unfold sendRow
    simp only [hRefused, Bool.not_false, if_true, true_and]
    intro write hWrite
    rw [Option.map_eq_some_iff] at hWrite
    rcases hWrite with ⟨next, -, rfl⟩
    exact ⟨next, rfl⟩
  rcases Worker.process_cases h with
    ⟨c', rest', hBatch', -, -, -, -, hSends, hCases⟩
  rw [hBatch] at hBatch'
  cases hBatch'
  rw [hGate] at hSends hCases
  refine ⟨?_, ?_⟩
  · rw [hSends, hProcessed.1]
    exact List.append_nil _
  · have hUnique : ∀ r' ∈ w.rows, r'.id = c.row.id → r' = c.row :=
      fun r' hr' hId =>
        KeyedTable.eq_of_key_eq hSound.rows.ids hr' hr hId
    rcases hCases with
      ⟨hRows, hOutcomes⟩ | ⟨write, hWrite, hRows, hOutcomes⟩
    · refine ⟨hOutcomes, ?_⟩
      intro r' hr' hId
      rw [hRows] at hr'
      rw [hUnique r' hr' hId, hSending]
      exact ⟨rfl, rfl⟩
    · rcases hProcessed.2 write hWrite with ⟨next, rfl⟩
      refine ⟨hOutcomes, ?_⟩
      intro r' hr' hId
      rw [hRows] at hr'
      rcases KeyedTable.mem_updateAt hr' with
        ⟨-, hNot⟩ | ⟨x, hx, hIdX, rfl⟩
      · exact absurd hId hNot
      · rw [hUnique x hx hIdX]
        exact ⟨rfl, rfl⟩

theorem Worker.Sound.coolsDown :
    CoolsDown config w := by
  intro ch hShared pre first tail hSends hClosed hOpened hOutages
    k hk
  have hHistory :
      CircuitBreaker.History (config.breakers ch)
        (w.sendsOn ch) := by
    cases ch with
    | telegram => exact (hSound.breakers.replayed _ _ rfl).2
    | email => exact (hSound.breakers.replayed _ _ rfl).2
    | webpush => exact absurd rfl hShared
  rw [hSends] at hHistory
  have hSince :
      CircuitBreaker.OpenSince (config.breakers ch) pre first
        tail :=
    ⟨hHistory, hClosed, hOpened, hOutages⟩
  exact hSince.cooled_down k hk

end

/-
  In every reachable state, whatever its rows meet and wherever
  the worker stops: no delivery is lost or revived, each is
  leased in its turn, and the budgets hold.
-/
theorem deliveries_kept
    (config : DeliveryConfig)
    (w : Worker)
    (hReach :
      Transition.Reachable (Worker.Start config)
        (DeliveryStep config) w) :
    KeepsRows config w ∧ LeasesInTurn config w ∧
      CountsAttempts config w ∧ PostponesFree config w ∧
        StaysInRate config w ∧ CoolsDown config w := by
  have hSound := Worker.sound_of_reachable hReach
  exact
    ⟨hSound.keepsRows, hSound.leasesInTurn,
      hSound.countsAttempts, hSound.postponesFree,
      hSound.rows.rate, hSound.coolsDown⟩

def deliveryRun
    (config : DeliveryConfig)
    (w : Worker)
    (events : List DeliveryEvent) : Option Worker :=
  events.foldlM (deliveryStep config) w

theorem reachable_of_run
    (hReach :
      Transition.Reachable (Worker.Start config)
        (DeliveryStep config) w)
    {events : List DeliveryEvent}
    (h : deliveryRun config w events = some w') :
    Transition.Reachable (Worker.Start config)
      (DeliveryStep config) w' := by
  induction events generalizing w with
  | nil =>
      cases h
      exact hReach
  | cons event rest ih =>
      unfold deliveryRun at h
      rw [List.foldlM_cons] at h
      rcases Option.bind_eq_some_iff.mp h with
        ⟨mid, hMid, hRest⟩
      exact ih (hReach.step ⟨event, hMid⟩) hRest

def defaultDelivery : DeliveryConfig :=
  { options :=
      { batchSize := 20
        leaseMs := 300000
        retryBackoffMs := [30000, 120000, 600000]
        ratePerHour := fun
          | .receipts => 60
          | .alerts => 20
        maxAgeMs := 21600000 }
    channels := fun _ => true
    breakers := fun _ => defaultBreaker }

def emptyQueue : Worker :=
  { rows := []
    batch := []
    breakers := Breakers.fresh defaultDelivery
    clock := 1
    sends := []
    outcomes := [] }

def oneFill : DeliveryEvent :=
  .enqueue 7 3 "fill_receipt" "fill_receipt:0xa:1:2" 1000

def leaseAll
    (atMs : Int) : DeliveryEvent :=
  .lease atMs
    (fun _ =>
      { channel := .telegram
        targetEnc := some "t"
        verified := true
        disabled := false })
    .done

def answeredWith
    (now : Int)
    (answer : Except String SendOutcome) : DeliveryEvent :=
  .process
    { now := now
      payloadOk := true
      prefsOk := true
      countFails := false
      targetOk := true
      renderOk := true
      pushKey := "3"
      answer := answer
      writeLost := false }

/- A throw, a retry thirty seconds later, and a delivery. -/
def retriedRun : List DeliveryEvent :=
  [oneFill, leaseAll 1000, answeredWith 1500 (.error "ECONNRESET"),
    leaseAll 31500, answeredWith 31500 (.ok .ok)]

theorem retried_delivery_kept :
    ∃ w, deliveryRun defaultDelivery emptyQueue retriedRun =
        some w ∧
      w.rows.map (fun r => (r.status, r.attempts)) =
        [(.sent, 2)] ∧
      KeepsRows defaultDelivery w ∧
        LeasesInTurn defaultDelivery w ∧
        CountsAttempts defaultDelivery w ∧
        PostponesFree defaultDelivery w ∧
        StaysInRate defaultDelivery w ∧
        CoolsDown defaultDelivery w := by
  have hStart : emptyQueue.Start defaultDelivery := by
    constructor <;> try rfl
    · exact List.nodup_nil
    · intro r hr
      cases hr
    · decide
  refine ⟨_, rfl, rfl, ?_⟩
  apply deliveries_kept
  exact reachable_of_run (.init hStart) (rfl :
    deliveryRun defaultDelivery emptyQueue retriedRun = some _)

end Callhouse.Notifier
