import Callhouse.Notifier.Delivery

/-
  notifier/src/delivery.ts: the invariant of the queue, kept by
  every enqueue, lease, processed row and restart.

  Main declarations:
    * `processRow_write`, `processRow_breakers`
    * `Worker.Sound`
    * `Worker.sound_of_reachable`
-/

----
-- What Processing Can Write
----

namespace Callhouse.Notifier

/- What a write of the claimed row comes with. -/
def RowWrite.Of
    (write : RowWrite)
    (config : DeliveryConfig)
    (rows : List DeliveryRow)
    (c : ClaimedRow)
    (m : RowMeets) : Prop :=
  match write with
  | .dropped _ => True
  | .failed _ => True
  | .postponed next => ValidDate next
  | .sent atMs =>
      atMs = m.now ∧ c.row.kind ∈ eventKinds ∧
        sentLastHour rows c.row.subscriptionId
            (deliveryClass c.row.kind) m.now <
          config.options.ratePerHour (deliveryClass c.row.kind)
  | .retry _ next =>
      ValidDate next ∧
        c.row.attempts < config.options.retryBackoffMs.length

/- Settled before the breaker's gate, with nothing sent. -/
structure Processed.Early
    (p : Processed)
    (breakers : Breakers) : Prop where
  sent : p.sent = none
  breakers_eq : p.breakers = breakers
  write :
    ∀ write, p.write = some write →
      (∃ reason, write = .dropped reason) ∨
        ∃ code, write = .failed code

theorem Processed.early_dropped
    (breakers : Breakers)
    (reason : String) :
    Processed.Early
      { write := some (.dropped reason)
        breakers := breakers
        sent := none }
      breakers :=
  ⟨rfl, rfl, fun _ h => .inl ⟨reason, (Option.some.inj h).symm⟩⟩

theorem Processed.early_failed
    (breakers : Breakers)
    (code : String) :
    Processed.Early
      { write := some (.failed code)
        breakers := breakers
        sent := none }
      breakers :=
  ⟨rfl, rfl, fun _ h => .inr ⟨code, (Option.some.inj h).symm⟩⟩

variable {config : DeliveryConfig} {breakers : Breakers}
variable {c : ClaimedRow} {m : RowMeets}
variable {rows : List DeliveryRow}

/-
  A row is settled early, or it comes to the breaker's gate with
  its class's budget unspent.
-/
theorem processRow_cases
    {p : Processed}
    (h : processRow config rows breakers c m = p) :
    p.Early breakers ∨
      c.row.kind ∈ eventKinds ∧
        sentLastHour rows c.row.subscriptionId
            (deliveryClass c.row.kind) m.now <
          config.options.ratePerHour (deliveryClass c.row.kind) ∧
        p = sendRow config breakers c m := by
  unfold processRow at h
  dsimp only at h
  split at h
  · exact Or.inl (h ▸ Processed.early_dropped _ _)
  split at h
  · exact Or.inl (h ▸ Processed.early_dropped _ _)
  split at h
  · exact Or.inl (h ▸ Processed.early_dropped _ _)
  split at h
  · exact Or.inl (h ▸ Processed.early_dropped _ _)
  next hKind =>
  split at h
  · exact Or.inl (h ▸ Processed.early_failed _ _)
  split at h
  · exact Or.inl (h ▸ Processed.early_dropped _ _)
  split at h
  · subst h
    exact Or.inl ⟨rfl, rfl, fun write hWrite => by cases hWrite⟩
  split at h
  · exact Or.inl (h ▸ Processed.early_dropped _ _)
  next hRoom =>
  split at h
  · exact Or.inl (h ▸ Processed.early_failed _ _)
  split at h
  · exact Or.inl (h ▸ Processed.early_failed _ _)
  · exact Or.inr ⟨not_not.mp hKind, not_le.mp hRoom, h.symm⟩

variable {atMs : Int}

theorem retryAt_valid
    {backoff next : Int}
    {retryAfter : Option RetryAfterMs}
    (h : retryAt atMs backoff retryAfter = some next) :
    ValidDate next := by
  unfold retryAt at h
  split at h
  · exact validDate_of_dateMs h
  · exact validDate_of_dateMs h
  · cases h

theorem SendOutcome.write_of
    {outcome : SendOutcome}
    (hKind : c.row.kind ∈ eventKinds)
    (hRoom :
      sentLastHour rows c.row.subscriptionId
          (deliveryClass c.row.kind) m.now <
        config.options.ratePerHour (deliveryClass c.row.kind))
    {write : RowWrite}
    (h : outcome.write config.options c.row m.now = some write) :
    write.Of config rows c m := by
  unfold SendOutcome.write at h
  cases outcome with
  | ok =>
      cases h
      exact ⟨rfl, hKind, hRoom⟩
  | transient code retryAfter =>
      cases hBackoff :
          config.options.retryBackoffMs[c.row.attempts]? with
      | none =>
          rw [hBackoff] at h
          cases h
          trivial
      | some backoff =>
          simp only [hBackoff, Option.map_eq_some_iff] at h
          rcases h with ⟨next, hNext, rfl⟩
          have hLength :=
            (List.getElem?_eq_some_iff.mp hBackoff).1
          exact ⟨retryAt_valid hNext, hLength⟩
  | permanent code =>
      cases h
      trivial
  | gone code =>
      cases h
      trivial

theorem processRow_write
    {write : RowWrite}
    (h :
      (processRow config rows breakers c m).write = some write) :
    write.Of config rows c m := by
  rcases processRow_cases rfl with
    hEarly | ⟨hKind, hRoom, hSend⟩
  · rcases hEarly.write write h with
      ⟨_, rfl⟩ | ⟨_, rfl⟩ <;> trivial
  · rw [hSend] at h
    unfold sendRow at h
    dsimp only at h
    split at h
    · rw [Option.map_eq_some_iff] at h
      rcases h with ⟨next, hNext, rfl⟩
      exact validDate_of_dateMs hNext
    · exact SendOutcome.write_of hKind hRoom h

----
-- What Processing Does to the Breakers
----

/- The breakers that a whole channel shares. -/
def Breakers.shared
    (b : Breakers) : ChannelName → Option CircuitBreaker
  | .telegram => some b.telegram
  | .email => some b.email
  | .webpush => none

theorem Breakers.breakerFor_shared
    (b : Breakers)
    (channel : ChannelName)
    (key : String)
    (ch : ChannelName) :
    (b.breakerFor channel key).2.shared ch = b.shared ch := by
  unfold Breakers.breakerFor
  cases channel with
  | telegram => rfl
  | email => rfl
  | webpush =>
      dsimp only
      split <;> cases ch <;> rfl

theorem Breakers.breakerFor_fst
    (b : Breakers)
    {channel : ChannelName}
    (key : String)
    {breaker : CircuitBreaker}
    (h : b.shared channel = some breaker) :
    (b.breakerFor channel key).1 = breaker := by
  cases channel with
  | telegram => exact Option.some.inj h
  | email => exact Option.some.inj h
  | webpush => cases h

theorem Breakers.put_shared
    (b : Breakers)
    (channel : ChannelName)
    (key : String)
    (breaker : CircuitBreaker)
    {ch : ChannelName}
    {old : CircuitBreaker}
    (h : b.shared ch = some old) :
    (b.put channel key breaker).shared ch =
      some (if channel = ch then breaker else old) := by
  unfold Breakers.put
  cases ch with
  | telegram =>
      cases channel with
      | telegram => rfl
      | email => exact h
      | webpush => exact h
  | email =>
      cases channel with
      | telegram => exact h
      | email => rfl
      | webpush => exact h
  | webpush => cases h

/- The shared breaker after the send of the row, if there is one. -/
def afterRecord
    (breaker : CircuitBreaker)
    (ch : ChannelName) : Option SendRecord → CircuitBreaker
  | none => breaker
  | some record =>
      if record.channel = ch then breaker.afterSend record.send
      else breaker

theorem processRow_breakers
    {ch : ChannelName}
    {breaker : CircuitBreaker}
    (h : breakers.shared ch = some breaker) :
    (processRow config rows breakers c m).breakers.shared ch =
        some
          (afterRecord breaker ch
            (processRow config rows breakers c m).sent) ∧
      ∀ record,
        (processRow config rows breakers c m).sent = some record →
          record.send.atMs = m.now ∧
            (record.channel = ch →
              (breaker.allow m.now).1 = true) := by
  rcases processRow_cases rfl with hEarly | ⟨-, -, hSend⟩
  · rw [hEarly.sent, hEarly.breakers_eq]
    exact ⟨h, fun record hRecord => by cases hRecord⟩
  · rw [hSend]
    unfold sendRow
    dsimp only
    split
    · refine ⟨?_, fun record hRecord => by cases hRecord⟩
      rw [Breakers.breakerFor_shared]
      exact h
    · next hAllowed =>
        simp only [Bool.not_eq_true', Bool.not_eq_false]
          at hAllowed
        have hFound :
            c.sub.channel = ch →
              (breakers.breakerFor c.sub.channel m.pushKey).1 =
                breaker := by
          intro hChannel
          apply Breakers.breakerFor_fst
          rw [hChannel]
          exact h
        constructor
        · rw [Breakers.put_shared _ _ _ _
            ((Breakers.breakerFor_shared _ _ _ _).trans h)]
          unfold afterRecord CircuitBreaker.afterSend
          dsimp only
          split
          · next hChannel =>
              rw [hFound hChannel]
          · rfl
        · intro record hRecord
          cases hRecord
          refine ⟨rfl, ?_⟩
          intro hChannel
          rw [← hFound hChannel]
          exact hAllowed

----
-- The Invariant
----

def sentTime
    (subscriptionId : Nat)
    (c : DeliveryClass)
    (r : DeliveryRow) : Option Int :=
  if r.subscriptionId = subscriptionId ∧ r.status = .sent ∧
      deliveryClass r.kind = c then
    r.sentAt
  else none

/- When the rows of a subscription and class were sent. -/
def sentTimes
    (rows : List DeliveryRow)
    (subscriptionId : Nat)
    (c : DeliveryClass) : List Int :=
  rows.filterMap (sentTime subscriptionId c)

/- The sends this process made on a channel. -/
def Worker.sendsOn
    (w : Worker)
    (ch : ChannelName) : List BreakerSend :=
  (w.sends.filter (fun s => s.channel = ch)).map SendRecord.send

/- What the table keeps; `outcomes` counts the attempts. -/
structure RowsSound
    (config : DeliveryConfig)
    (rows : List DeliveryRow)
    (outcomes : List Nat) : Prop where
  ids : (rows.map DeliveryRow.id).Nodup
  dates : ∀ r ∈ rows, ValidDate r.nextAttemptAt
  attempts : ∀ r ∈ rows, r.attempts = outcomes.count r.id
  known : ∀ id ∈ outcomes, id ∈ rows.map DeliveryRow.id
  bounded :
    ∀ r ∈ rows,
      r.attempts ≤ config.options.retryBackoffMs.length + 1
  retriable :
    ∀ r ∈ rows, r.status.finished = false →
      r.attempts ≤ config.options.retryBackoffMs.length
  kinds :
    ∀ r ∈ rows, r.status = .sent → r.kind ∈ eventKinds
  rate :
    ∀ subscriptionId c,
      SlidingWindow.Within hourMs (config.options.ratePerHour c)
        (sentTimes rows subscriptionId c)

/- Every batch row is in the table as it was leased. -/
structure BatchSound
    (rows : List DeliveryRow)
    (batch : List ClaimedRow) : Prop where
  claimed :
    ∀ c ∈ batch, c.row ∈ rows ∧ c.row.status = .sending
  distinct : (batch.map (fun c => c.row.id)).Nodup

/- A channel's breaker is what its sends have made of it. -/
structure BreakersSound
    (config : DeliveryConfig)
    (w : Worker) : Prop where
  replayed :
    ∀ ch breaker, w.breakers.shared ch = some breaker →
      breaker =
          CircuitBreaker.replay (config.breakers ch)
            (w.sendsOn ch) ∧
        CircuitBreaker.History (config.breakers ch) (w.sendsOn ch)
  clock : 0 < w.clock

structure Worker.Sound
    (config : DeliveryConfig)
    (w : Worker) : Prop where
  rows : RowsSound config w.rows w.outcomes
  batch : BatchSound w.rows w.batch
  breakers : BreakersSound config w

variable {w : Worker}

theorem breakersSound_fresh
    (config : DeliveryConfig)
    (hBreakers : w.breakers = Breakers.fresh config)
    (hSends : w.sends = [])
    (hClock : 0 < w.clock) :
    BreakersSound config w := by
  constructor
  · intro ch breaker h
    rw [hBreakers] at h
    unfold Worker.sendsOn
    rw [hSends]
    refine ⟨?_, CircuitBreaker.History.nil⟩
    cases ch with
    | telegram => exact (Option.some.inj h).symm
    | email => exact (Option.some.inj h).symm
    | webpush => cases h
  · exact hClock

theorem batchSound_nil
    (rows : List DeliveryRow) :
    BatchSound rows [] := by
  constructor
  · intro c hc
    cases hc
  · exact List.nodup_nil

theorem sentTimes_of_unsent
    (h : ∀ r ∈ rows, r.status ≠ .sent)
    (subscriptionId : Nat)
    (c : DeliveryClass) :
    sentTimes rows subscriptionId c = [] := by
  unfold sentTimes
  rw [List.filterMap_eq_nil_iff]
  intro r hr
  exact if_neg (fun hSent => h r hr hSent.2.1)

theorem Worker.Start.sound
    (h : w.Start config) :
    w.Sound config := by
  have hUnsent : ∀ r ∈ w.rows, r.status ≠ .sent := by
    intro r hr
    rw [(h.enqueued r hr).1]
    decide
  have hNone : ∀ r ∈ w.rows, r.attempts = 0 :=
    fun r hr => (h.enqueued r hr).2.1
  constructor
  · constructor
    · exact h.ids
    · exact fun r hr => (h.enqueued r hr).2.2
    · intro r hr
      rw [hNone r hr, h.outcomes]
      rfl
    · rw [h.outcomes]
      intro id hId
      cases hId
    · intro r hr
      rw [hNone r hr]
      exact Nat.zero_le _
    · intro r hr _
      rw [hNone r hr]
      exact Nat.zero_le _
    · exact fun r hr hSent => absurd hSent (hUnsent r hr)
    · intro subscriptionId c
      rw [sentTimes_of_unsent hUnsent]
      exact SlidingWindow.within_nil _ _
  · rw [h.batch]
    exact batchSound_nil _
  · exact breakersSound_fresh config h.breakers h.sends h.clock

----
-- Enqueue and Restart
----

theorem RowsSound.enqueue
    {outcomes : List Nat}
    (h : RowsSound config rows outcomes)
    {row : DeliveryRow}
    (hFresh : row.id ∉ rows.map DeliveryRow.id)
    (hDate : ValidDate row.nextAttemptAt)
    (hPending : row.status = .pending)
    (hNone : row.attempts = 0) :
    RowsSound config (rows ++ [row]) outcomes := by
  have hCases : ∀ r ∈ rows ++ [row], r ∈ rows ∨ r = row := by
    intro r hr
    simpa using hr
  constructor
  · rw [List.map_append, List.map_singleton]
    rw [← List.concat_eq_append]
    exact h.ids.concat hFresh
  · intro r hr
    rcases hCases r hr with hOld | rfl
    · exact h.dates r hOld
    · exact hDate
  · intro r hr
    rcases hCases r hr with hOld | rfl
    · exact h.attempts r hOld
    · rw [hNone, List.count_eq_zero_of_not_mem]
      exact fun hId => hFresh (h.known _ hId)
  · intro id hId
    rw [List.map_append]
    exact List.mem_append_left _ (h.known id hId)
  · intro r hr
    rcases hCases r hr with hOld | rfl
    · exact h.bounded r hOld
    · rw [hNone]
      exact Nat.zero_le _
  · intro r hr hOpen
    rcases hCases r hr with hOld | rfl
    · exact h.retriable r hOld hOpen
    · rw [hNone]
      exact Nat.zero_le _
  · intro r hr hSent
    rcases hCases r hr with hOld | rfl
    · exact h.kinds r hOld hSent
    · rw [hPending] at hSent
      cases hSent
  · intro subscriptionId c
    unfold sentTimes
    rw [List.filterMap_append]
    have hNew :
        [row].filterMap (sentTime subscriptionId c) = [] := by
      apply sentTimes_of_unsent
      intro r hr
      rw [List.mem_singleton.mp hr, hPending]
      decide
    rw [hNew, List.append_nil]
    exact h.rate subscriptionId c

variable {w' : Worker}

theorem Worker.enqueue_cases
    {row : DeliveryRow}
    (h : w.enqueue row = some w') :
    w' = w ∨
      row.id ∉ w.rows.map DeliveryRow.id ∧
        ValidDate row.createdAt ∧
        w' = { w with rows := w.rows ++ [row] } := by
  unfold Worker.enqueue at h
  split at h
  · cases h
  · next hFresh =>
      split at h
      · cases h
      · next hDate =>
          cases h
          unfold KeyedTable.insertOrIgnore
          split
          · exact Or.inl rfl
          · refine Or.inr ⟨hFresh, ?_, rfl⟩
            simpa using hDate

theorem Worker.Sound.enqueue
    (hSound : w.Sound config)
    {id subscriptionId : Nat}
    {kind dedupeKey : String}
    (h :
      w.enqueue
          (enqueuedRow id subscriptionId kind dedupeKey atMs) =
        some w') :
    w'.Sound config := by
  rcases Worker.enqueue_cases h with
    rfl | ⟨hFresh, hDate, rfl⟩
  · exact hSound
  · constructor
    · exact hSound.rows.enqueue hFresh hDate rfl rfl
    · constructor
      · intro c hc
        rcases hSound.batch.claimed c hc with ⟨hIn, hStatus⟩
        exact ⟨List.mem_append_left _ hIn, hStatus⟩
      · exact hSound.batch.distinct
    · exact ⟨hSound.breakers.replayed, hSound.breakers.clock⟩

theorem Worker.Sound.restart
    (hSound : w.Sound config) :
    (w.restart config).Sound config := by
  constructor
  · exact hSound.rows
  · exact batchSound_nil _
  · exact
      breakersSound_fresh config rfl rfl hSound.breakers.clock

----
-- Leasing
----

theorem mem_dueRows
    {r : DeliveryRow} :
    r ∈ dueRows rows atMs ↔
      r ∈ rows ∧ r.status.finished = false ∧
        r.nextAttemptAt ≤ atMs := by
  unfold dueRows
  rw [List.mem_filter]
  simp

variable {r : DeliveryRow}

theorem due_of_leasedRows
    {options : DeliveryOptions}
    (h : r ∈ leasedRows options rows atMs) :
    r ∈ dueRows rows atMs := by
  have hSorted := List.mem_of_mem_take h
  rwa [List.mem_insertionSort] at hSorted

theorem mem_of_leasedRows
    {options : DeliveryOptions}
    (h : r ∈ leasedRows options rows atMs) :
    r ∈ rows ∧ r.status.finished = false := by
  rcases mem_dueRows.mp (due_of_leasedRows h) with
    ⟨hIn, hOpen, -⟩
  exact ⟨hIn, hOpen⟩

theorem nodup_leasedRows
    (options : DeliveryOptions)
    (atMs : Int)
    (hIds : (rows.map DeliveryRow.id).Nodup) :
    ((leasedRows options rows atMs).map DeliveryRow.id).Nodup := by
  unfold leasedRows
  have hDue : ((dueRows rows atMs).map DeliveryRow.id).Nodup :=
    List.Nodup.sublist ((List.filter_sublist).map _) hIds
  have hSorted :
      (((dueRows rows atMs).insertionSort dueBefore).map
        DeliveryRow.id).Nodup :=
    ((List.perm_insertionSort dueBefore _).map _).nodup_iff.mpr
      hDue
  exact
    List.Nodup.sublist ((List.take_sublist _ _).map _) hSorted

variable {leaseEnd : Int}

variable {leased : List DeliveryRow}

/- A row of the leased table was leased, or is as it was. -/
theorem mem_leaseTable
    (hIds : (rows.map DeliveryRow.id).Nodup)
    (hLeased : ∀ r ∈ leased, r ∈ rows)
    {x : DeliveryRow}
    (hx : x ∈ leaseTable leased leaseEnd rows) :
    (∃ r ∈ leased, x = r.leased leaseEnd) ∨
      x ∈ rows ∧ x.id ∉ leased.map DeliveryRow.id := by
  rcases List.mem_map.mp hx with ⟨r, hr, rfl⟩
  split
  · next hIn =>
      rcases List.mem_map.mp hIn with ⟨r', hr', hId⟩
      have hSame :=
        KeyedTable.eq_of_key_eq hIds (hLeased r' hr') hr hId
      subst hSame
      exact Or.inl ⟨r', hr', rfl⟩
  · next hOut => exact Or.inr ⟨hr, hOut⟩

theorem leased_mem_leaseTable
    (leaseEnd : Int)
    (hr : r ∈ rows)
    (hLeased : r ∈ leased) :
    r.leased leaseEnd ∈ leaseTable leased leaseEnd rows := by
  apply List.mem_map.mpr
  exact ⟨r, hr, if_pos (List.mem_map_of_mem hLeased)⟩

theorem map_id_leaseTable
    (leased : List DeliveryRow)
    (leaseEnd : Int)
    (rows : List DeliveryRow) :
    (leaseTable leased leaseEnd rows).map DeliveryRow.id =
      rows.map DeliveryRow.id := by
  unfold leaseTable
  rw [List.map_map]
  apply List.map_congr_left
  intro r _
  simp only [Function.comp_apply]
  split <;> rfl

theorem sentTimes_leaseTable
    (hIds : (rows.map DeliveryRow.id).Nodup)
    (hLeased :
      ∀ r ∈ leased, r ∈ rows ∧ r.status.finished = false)
    (leaseEnd : Int)
    (subscriptionId : Nat)
    (c : DeliveryClass) :
    sentTimes (leaseTable leased leaseEnd rows) subscriptionId c =
      sentTimes rows subscriptionId c := by
  unfold sentTimes leaseTable
  rw [List.filterMap_map]
  apply List.filterMap_congr
  intro r hr
  simp only [Function.comp_apply]
  split
  · next hIn =>
      rcases List.mem_map.mp hIn with ⟨r', hr', hId⟩
      have hSame :=
        KeyedTable.eq_of_key_eq hIds (hLeased r' hr').1 hr hId
      subst hSame
      have hOpen := (hLeased r' hr').2
      unfold sentTime
      rw [if_neg (fun h => by cases h.2.1), if_neg]
      intro h
      rw [h.2.1] at hOpen
      cases hOpen
  · rfl

theorem RowsSound.lease
    {outcomes : List Nat}
    (h : RowsSound config rows outcomes)
    (hLeased :
      ∀ r ∈ leased, r ∈ rows ∧ r.status.finished = false)
    (hDate : ValidDate leaseEnd) :
    RowsSound config (leaseTable leased leaseEnd rows) outcomes := by
  have hCases :
      ∀ x ∈ leaseTable leased leaseEnd rows,
        (∃ r ∈ leased, x = r.leased leaseEnd) ∨
          x ∈ rows ∧ x.id ∉ leased.map DeliveryRow.id :=
    fun x hx =>
      mem_leaseTable h.ids (fun r hr => (hLeased r hr).1) hx
  constructor
  · rw [map_id_leaseTable]
    exact h.ids
  · intro x hx
    rcases hCases x hx with ⟨r, hr, rfl⟩ | ⟨hOld, -⟩
    · exact hDate
    · exact h.dates x hOld
  · intro x hx
    rcases hCases x hx with ⟨r, hr, rfl⟩ | ⟨hOld, -⟩
    · exact h.attempts r (hLeased r hr).1
    · exact h.attempts x hOld
  · rw [map_id_leaseTable]
    exact h.known
  · intro x hx
    rcases hCases x hx with ⟨r, hr, rfl⟩ | ⟨hOld, -⟩
    · exact h.bounded r (hLeased r hr).1
    · exact h.bounded x hOld
  · intro x hx hOpen
    rcases hCases x hx with ⟨r, hr, rfl⟩ | ⟨hOld, -⟩
    · exact h.retriable r (hLeased r hr).1 (hLeased r hr).2
    · exact h.retriable x hOld hOpen
  · intro x hx hSent
    rcases hCases x hx with ⟨r, hr, rfl⟩ | ⟨hOld, -⟩
    · cases hSent
    · exact h.kinds x hOld hSent
  · intro subscriptionId c
    rw [sentTimes_leaseTable h.ids hLeased]
    exact h.rate subscriptionId c

variable {subs : Nat → Subscription}

theorem mem_leaseBatch
    {c : ClaimedRow} :
    c ∈ leaseBatch leased leaseEnd subs ↔
      ∃ r ∈ leased,
        { row := r.leased leaseEnd
          sub := subs r.subscriptionId } = c := by
  unfold leaseBatch
  rw [List.mem_insertionSort, List.mem_map]

theorem batchSound_lease
    (hNodup : (leased.map DeliveryRow.id).Nodup)
    (hLeased : ∀ r ∈ leased, r ∈ rows)
    (leaseEnd : Int)
    (subs : Nat → Subscription) :
    BatchSound (leaseTable leased leaseEnd rows)
      (leaseBatch leased leaseEnd subs) := by
  constructor
  · intro c hc
    rcases mem_leaseBatch.mp hc with ⟨r, hr, rfl⟩
    exact
      ⟨leased_mem_leaseTable leaseEnd (hLeased r hr) hr, rfl⟩
  · unfold leaseBatch
    have hPerm :=
      (List.perm_insertionSort processedBefore
        (leased.map
          (fun r =>
            { row := r.leased leaseEnd
              sub := subs r.subscriptionId : ClaimedRow }))).map
        (fun c => c.row.id)
    rw [hPerm.nodup_iff, List.map_map]
    exact hNodup

/- A lease takes the due rows, or moves the clock only. -/
theorem Worker.lease_cases
    {fate : LeaseFate}
    (h : w.lease config atMs subs fate = some w') :
    w.clock ≤ atMs ∧ w.batch = [] ∧
      (w' = { w with clock := atMs } ∨
        ∃ leaseEnd, ValidDate leaseEnd ∧
          (w' =
              { w with
                rows :=
                  leaseTable
                    (leasedRows config.options w.rows atMs)
                    leaseEnd w.rows
                clock := atMs } ∨
            w' =
              { w with
                rows :=
                  leaseTable
                    (leasedRows config.options w.rows atMs)
                    leaseEnd w.rows
                batch :=
                  leaseBatch
                    (leasedRows config.options w.rows atMs)
                    leaseEnd subs
                clock := atMs })) := by
  unfold Worker.lease at h
  split at h
  · cases h
  · next hOpen =>
      rw [not_or, not_or, not_not, not_lt] at hOpen
      refine ⟨hOpen.2.1, hOpen.1, ?_⟩
      dsimp only at h
      split at h
      · next leaseEnd hUntil =>
          cases h
          exact
            Or.inr
              ⟨leaseEnd, validDate_of_dateMs hUntil, Or.inr rfl⟩
      · next leaseEnd hUntil =>
          cases h
          exact
            Or.inr
              ⟨leaseEnd, validDate_of_dateMs hUntil, Or.inl rfl⟩
      · cases h
        exact Or.inl rfl

theorem Worker.Sound.lease
    (hSound : w.Sound config)
    {fate : LeaseFate}
    (h : w.lease config atMs subs fate = some w') :
    w'.Sound config := by
  rcases Worker.lease_cases h with ⟨hClock, hBatch, hCases⟩
  have hLeased :
      ∀ r ∈ leasedRows config.options w.rows atMs,
        r ∈ w.rows ∧ r.status.finished = false :=
    fun r hr => mem_of_leasedRows hr
  have hBreakers :
      ∀ x : Worker,
        x.breakers = w.breakers → x.sends = w.sends →
          x.clock = atMs → BreakersSound config x := by
    intro x hBreakers hSends hAt
    constructor
    · intro ch breaker hShared
      rw [hBreakers] at hShared
      unfold Worker.sendsOn
      rw [hSends]
      exact hSound.breakers.replayed ch breaker hShared
    · rw [hAt]
      exact lt_of_lt_of_le hSound.breakers.clock hClock
  rcases hCases with rfl | ⟨leaseEnd, hDate, rfl | rfl⟩
  · exact ⟨hSound.rows, hSound.batch, hBreakers _ rfl rfl rfl⟩
  · refine
      ⟨hSound.rows.lease hLeased hDate, ?_,
        hBreakers _ rfl rfl rfl⟩
    dsimp only
    rw [hBatch]
    exact batchSound_nil _
  · exact
      ⟨hSound.rows.lease hLeased hDate,
        batchSound_lease
          (nodup_leasedRows config.options atMs hSound.rows.ids)
          (fun r hr => (hLeased r hr).1) leaseEnd subs,
        hBreakers _ rfl rfl rfl⟩

----
-- Processing
----

theorem RowWrite.apply_id
    (write : RowWrite)
    (r : DeliveryRow) :
    (write.apply r).id = r.id := by
  cases write <;> rfl

theorem RowWrite.apply_attempts
    (write : RowWrite)
    (r : DeliveryRow) :
    (write.apply r).attempts =
      r.attempts + (if write.outcome then 1 else 0) := by
  cases write <;> rfl

/- The count query sees the send times of the invariant. -/
theorem recent_sentTimes
    (hKinds :
      ∀ r ∈ rows, r.status = .sent → r.kind ∈ eventKinds)
    (subscriptionId : Nat)
    (c : DeliveryClass)
    (atMs : Int) :
    SlidingWindow.recent hourMs atMs
        (sentTimes rows subscriptionId c) =
      sentLastHour rows subscriptionId c atMs := by
  unfold SlidingWindow.recent sentTimes sentLastHour
  rw [List.countP_filterMap]
  apply List.countP_congr
  intro r hr
  unfold sentTime classKinds
  by_cases hSent : r.status = .sent
  · have hKind := hKinds r hr hSent
    cases hAt : r.sentAt with
    | none => simp
    | some t =>
        by_cases hSub : r.subscriptionId = subscriptionId <;>
          by_cases hClass : deliveryClass r.kind = c <;>
            simp [hSub, hSent, hClass, hKind]
  · simp [hSent]

/- The send times after a write of a row that was not sent. -/
theorem sentTimes_updateAt
    (hIds : (rows.map DeliveryRow.id).Nodup)
    (hr : r ∈ rows)
    (hOpen : r.status = .sending)
    (write : RowWrite)
    (subscriptionId : Nat)
    (c : DeliveryClass) :
    (sentTimes
        (KeyedTable.updateAt DeliveryRow.id r.id write.apply rows)
        subscriptionId c).Perm
      ((sentTime subscriptionId c (write.apply r)).toList ++
        sentTimes rows subscriptionId c) := by
  apply KeyedTable.filterMap_updateAt hIds hr
  unfold sentTime
  rw [if_neg]
  intro h
  rw [hOpen] at h
  cases h.2.1

theorem RowWrite.Of.rate
    {outcomes : List Nat}
    (h : RowsSound config rows outcomes)
    (hr : c.row ∈ rows)
    (hOpen : c.row.status = .sending)
    {write : RowWrite}
    (hOf : write.Of config rows c m)
    (subscriptionId : Nat)
    (cl : DeliveryClass) :
    SlidingWindow.Within hourMs (config.options.ratePerHour cl)
      (sentTimes
        (KeyedTable.updateAt DeliveryRow.id c.row.id write.apply
          rows) subscriptionId cl) := by
  refine SlidingWindow.Within.perm ?_
    (sentTimes_updateAt h.ids hr hOpen write subscriptionId cl)
  have hNone :
      (write.apply c.row).status ≠ .sent →
        sentTime subscriptionId cl (write.apply c.row) = none :=
    fun hNot => if_neg (fun hSent => hNot hSent.2.1)
  cases write with
  | sent atMs =>
      rcases hOf with ⟨rfl, -, hRoom⟩
      unfold sentTime
      split
      · next hMine =>
          rcases hMine with ⟨rfl, -, rfl⟩
          apply SlidingWindow.Within.add (h.rate _ _)
          rw [recent_sentTimes h.kinds]
          exact hRoom
      · exact h.rate subscriptionId cl
  | dropped reason =>
      rw [hNone (fun hSent => by cases hSent)]
      exact h.rate subscriptionId cl
  | failed code =>
      rw [hNone (fun hSent => by cases hSent)]
      exact h.rate subscriptionId cl
  | postponed next =>
      rw [hNone (fun hSent => by cases hSent)]
      exact h.rate subscriptionId cl
  | retry code next =>
      rw [hNone (fun hSent => by cases hSent)]
      exact h.rate subscriptionId cl

/- What an allowed write makes of the row it was leased for. -/
theorem RowWrite.Of.row
    {outcomes : List Nat}
    (h : RowsSound config rows outcomes)
    (hr : c.row ∈ rows)
    (hOpen : c.row.status = .sending)
    {write : RowWrite}
    (hOf : write.Of config rows c m) :
    ValidDate (write.apply c.row).nextAttemptAt ∧
      (write.apply c.row).attempts ≤
        config.options.retryBackoffMs.length + 1 ∧
      ((write.apply c.row).status.finished = false →
        (write.apply c.row).attempts ≤
          config.options.retryBackoffMs.length) ∧
      ((write.apply c.row).status = .sent →
        c.row.kind ∈ eventKinds) := by
  have hDate := h.dates c.row hr
  have hTries := h.retriable c.row hr (by rw [hOpen]; rfl)
  cases write with
  | dropped reason =>
      exact
        ⟨hDate, Nat.le_succ_of_le hTries, fun _ => hTries, nofun⟩
  | failed code =>
      exact ⟨hDate, Nat.succ_le_succ hTries, nofun, nofun⟩
  | postponed next =>
      exact
        ⟨hOf, Nat.le_succ_of_le hTries, fun _ => hTries, nofun⟩
  | sent atMs =>
      exact
        ⟨hDate, Nat.succ_le_succ hTries, nofun,
          fun _ => hOf.2.1⟩
  | retry code next =>
      exact
        ⟨hOf.1, Nat.succ_le_succ hTries, fun _ => hOf.2, nofun⟩

/- The outcomes recorded once the row's write is made. -/
def RowWrite.outcomes
    (write : RowWrite)
    (id : Nat)
    (outcomes : List Nat) : List Nat :=
  if write.outcome then outcomes ++ [id] else outcomes

theorem RowWrite.count_outcomes
    (write : RowWrite)
    (id other : Nat)
    (outcomes : List Nat) :
    (write.outcomes id outcomes).count other =
      outcomes.count other +
        (if write.outcome ∧ id = other then 1 else 0) := by
  unfold RowWrite.outcomes
  cases write.outcome with
  | false => simp
  | true =>
      by_cases hId : id = other <;>
        simp [hId, List.count_append]

theorem RowsSound.write
    {outcomes : List Nat}
    (h : RowsSound config rows outcomes)
    (hr : c.row ∈ rows)
    (hOpen : c.row.status = .sending)
    {write : RowWrite}
    (hOf : write.Of config rows c m) :
    RowsSound config
      (KeyedTable.updateAt DeliveryRow.id c.row.id write.apply
        rows)
      (write.outcomes c.row.id outcomes) := by
  have hCases :
      ∀ x ∈
          KeyedTable.updateAt DeliveryRow.id c.row.id write.apply
            rows,
        x ∈ rows ∧ x.id ≠ c.row.id ∨ x = write.apply c.row := by
    intro x hx
    rcases KeyedTable.mem_updateAt hx with
      hOld | ⟨r, hIn, hId, rfl⟩
    · exact Or.inl hOld
    · right
      rw [KeyedTable.eq_of_key_eq h.ids hIn hr hId]
  rcases hOf.row h hr hOpen with
    ⟨hDate, hBound, hRetry, hKind⟩
  have hMap :=
    @KeyedTable.map_key_updateAt _ _ DeliveryRow.id _ c.row.id
      write.apply write.apply_id rows
  constructor
  · rw [hMap]
    exact h.ids
  · intro x hx
    rcases hCases x hx with ⟨hOld, -⟩ | rfl
    · exact h.dates x hOld
    · exact hDate
  · intro x hx
    rw [RowWrite.count_outcomes]
    rcases hCases x hx with ⟨hOld, hId⟩ | rfl
    · rw [if_neg (fun hBoth => hId hBoth.2.symm), Nat.add_zero]
      exact h.attempts x hOld
    · rw [write.apply_attempts, write.apply_id,
        h.attempts c.row hr]
      simp
  · intro id hId
    rw [hMap]
    unfold RowWrite.outcomes at hId
    split at hId
    · rw [List.mem_append, List.mem_singleton] at hId
      rcases hId with hOld | rfl
      · exact h.known id hOld
      · exact List.mem_map_of_mem hr
    · exact h.known id hId
  · intro x hx
    rcases hCases x hx with ⟨hOld, -⟩ | rfl
    · exact h.bounded x hOld
    · exact hBound
  · intro x hx
    rcases hCases x hx with ⟨hOld, -⟩ | rfl
    · exact h.retriable x hOld
    · exact hRetry
  · intro x hx hSent
    rcases hCases x hx with ⟨hOld, -⟩ | rfl
    · exact h.kinds x hOld hSent
    · have hSame : (write.apply c.row).kind = c.row.kind := by
        cases write <;> rfl
      rw [hSame]
      exact hKind hSent
  · intro subscriptionId cl
    exact hOf.rate h hr hOpen subscriptionId cl

theorem BatchSound.tail
    {rest : List ClaimedRow}
    (h : BatchSound rows (c :: rest)) :
    BatchSound rows rest :=
  ⟨fun c' hc => h.claimed c' (List.mem_cons_of_mem _ hc),
    (List.nodup_cons.mp h.distinct).2⟩

/- The rest of the batch is of other rows. -/
theorem BatchSound.write
    {rest : List ClaimedRow}
    (h : BatchSound rows (c :: rest))
    (g : DeliveryRow → DeliveryRow) :
    BatchSound (KeyedTable.updateAt DeliveryRow.id c.row.id g rows)
      rest := by
  constructor
  · intro c' hc
    rcases h.tail.claimed c' hc with ⟨hIn, hStatus⟩
    refine ⟨?_, hStatus⟩
    apply KeyedTable.mem_updateAt_of_ne hIn
    intro hId
    apply (List.nodup_cons.mp h.distinct).1
    exact List.mem_map.mpr ⟨c', hc, hId⟩
  · exact h.tail.distinct

theorem sendsOn_append
    (w : Worker)
    (record : Option SendRecord)
    (ch : ChannelName) :
    ((w.sends ++ record.toList).filter
        (fun s => s.channel = ch)).map SendRecord.send =
      w.sendsOn ch ++
        (record.toList.filter (fun s => s.channel = ch)).map
          SendRecord.send := by
  rw [List.filter_append, List.map_append]
  rfl

theorem BreakersSound.process
    (h : BreakersSound config w)
    (hClock : w.clock ≤ m.now)
    (hBreakers :
      w'.breakers =
        (processRow config w.rows w.breakers c m).breakers)
    (hSends :
      w'.sends =
        w.sends ++
          (processRow config w.rows w.breakers c m).sent.toList)
    (hAt : w'.clock = m.now) :
    BreakersSound config w' := by
  have hDated : 0 < m.now := lt_of_lt_of_le h.clock hClock
  constructor
  · intro ch breaker hShared
    cases hOld : w.breakers.shared ch with
    | none =>
        cases ch with
        | telegram => cases hOld
        | email => cases hOld
        | webpush => cases hShared
    | some old =>
        rcases h.replayed ch old hOld with ⟨rfl, hHistory⟩
        rcases @processRow_breakers config w.breakers c m w.rows
            ch _ hOld with
          ⟨hNew, hRecord⟩
        rw [hBreakers, hNew] at hShared
        have hOn :
            w'.sendsOn ch =
              w.sendsOn ch ++
                ((processRow config w.rows w.breakers c
                  m).sent.toList.filter
                    (fun s => s.channel = ch)).map
                  SendRecord.send := by
          rw [← sendsOn_append, ← hSends]
          rfl
        rw [← Option.some.inj hShared, hOn]
        cases hSent :
            (processRow config w.rows w.breakers c m).sent with
        | none =>
            unfold afterRecord
            simpa using hHistory
        | some record =>
            rcases hRecord record hSent with ⟨hNow, hAllowed⟩
            by_cases hChannel : record.channel = ch
            · simp only [afterRecord, Option.toList_some, List.filter_cons,
                hChannel, decide_true, if_true, List.filter_nil,
                List.map_cons, List.map_nil]
              refine
                ⟨(CircuitBreaker.replay_concat _ _ _).symm, ?_⟩
              apply CircuitBreaker.History.concat hHistory
              · rw [hNow]
                exact hAllowed hChannel
              · rw [hNow]
                exact hDated
            · simpa [afterRecord, hChannel] using hHistory
  · rw [hAt]
    exact hDated

/- The head of the batch is processed, with or without a write. -/
theorem Worker.process_cases
    (h : w.process config m = some w') :
    ∃ c rest, w.batch = c :: rest ∧ w.clock ≤ m.now ∧
      w'.batch = rest ∧ w'.clock = m.now ∧
      w'.breakers =
        (processRow config w.rows w.breakers c m).breakers ∧
      w'.sends =
        w.sends ++
          (processRow config w.rows w.breakers c m).sent.toList ∧
      (w'.rows = w.rows ∧ w'.outcomes = w.outcomes ∨
        ∃ write,
          (processRow config w.rows w.breakers c m).write =
              some write ∧
            w'.rows =
              KeyedTable.updateAt DeliveryRow.id c.row.id
                write.apply w.rows ∧
            w'.outcomes =
              write.outcomes c.row.id w.outcomes) := by
  unfold Worker.process at h
  split at h
  · cases h
  · next c rest hBatch =>
      split at h
      · cases h
      · next hClock =>
          rw [not_or, not_lt] at hClock
          refine ⟨c, rest, hBatch, hClock.1, ?_⟩
          dsimp only at h
          split at h
          · cases h
            exact ⟨rfl, rfl, rfl, rfl, Or.inl ⟨rfl, rfl⟩⟩
          · next write hWrite =>
              split at h
              · cases h
                exact ⟨rfl, rfl, rfl, rfl, Or.inl ⟨rfl, rfl⟩⟩
              · cases h
                exact
                  ⟨rfl, rfl, rfl, rfl,
                    Or.inr ⟨write, hWrite, rfl, rfl⟩⟩

theorem Worker.Sound.process
    (hSound : w.Sound config)
    (h : w.process config m = some w') :
    w'.Sound config := by
  rcases Worker.process_cases h with
    ⟨c, rest, hBatch, hClock, hRest, hAt, hBreakers, hSends,
      hCases⟩
  have hBatchSound := hSound.batch
  rw [hBatch] at hBatchSound
  rcases hBatchSound.claimed c List.mem_cons_self with
    ⟨hr, hOpen⟩
  refine
    ⟨?_, ?_, hSound.breakers.process hClock hBreakers hSends hAt⟩
  · rcases hCases with
      ⟨hRows, hOutcomes⟩ | ⟨write, hWrite, hRows, hOutcomes⟩
    · rw [hRows, hOutcomes]
      exact hSound.rows
    · rw [hRows, hOutcomes]
      exact hSound.rows.write hr hOpen (processRow_write hWrite)
  · rw [hRest]
    rcases hCases with ⟨hRows, -⟩ | ⟨write, -, hRows, -⟩
    · rw [hRows]
      exact hBatchSound.tail
    · rw [hRows]
      exact hBatchSound.write write.apply

theorem Worker.Sound.step
    (hSound : w.Sound config)
    (hStep : DeliveryStep config w w') :
    w'.Sound config := by
  rcases hStep with ⟨event, h⟩
  cases event with
  | enqueue id subscriptionId kind dedupeKey atMs =>
      exact hSound.enqueue h
  | lease atMs subs fate => exact hSound.lease h
  | process m => exact hSound.process h
  | restart =>
      cases h
      exact hSound.restart

theorem Worker.sound_of_reachable
    (hReach :
      Transition.Reachable (Worker.Start config)
        (DeliveryStep config) w) :
    w.Sound config :=
  Transition.invariant (Worker.Sound config)
    (fun _ hStart => hStart.sound)
    (fun _ _ hSound hStep => hSound.step hStep) hReach

end Callhouse.Notifier
