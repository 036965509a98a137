import Callhouse.Keeper.Guardian.Watch

/-
  keeper/src/v2/guardian/watch.ts, GuardianWatch.tick: the open
  set over whole runs, filled from the oracle's logs at one
  node's head and emptied by state reads at another's.

  Main declarations:
    * `WatchStep`
    * `WatchState.Tracked`, `WatchState.Sound`
    * `WatchState.Watches`, `pending_watched`
    * `pending_forgotten`
-/

----
-- Ticks
----

namespace Callhouse.Keeper.Guardian

section

open Cranker (SettlementStatusName lc)

structure GuardianTickReport where
  head : Head
  scannedTo : Option Nat
  opened : Nat
  expiries : List GuardianExpiryReport
deriving DecidableEq

/-
  Where the process is: between ticks, in the scan, before the
  watch loop, and in it with the expiries it began with, those
  still to be read and what the others gave.
-/
inductive WatchPhase where
  | idle
  | scanning (head : Head) (scan : LogScan)
  | scannedAll (head : Head) (scannedTo : Option Nat)
  | watching
      (head : Head)
      (scannedTo : Option Nat)
      (began rest : List OpenExpiry)
      (seen : List WatchedExpiry)

/- An expiry taken out of the open set: where it was closed. -/
structure Closing where
  key : WatchKey
  blockNumber : Nat
  read : Bool
  cursor : Option Nat
deriving DecidableEq

/-
  The process, the last head of each client, and the closings
  so far.
-/
structure WatchState where
  watch : GuardianWatch
  phase : WatchPhase
  last : Option GuardianTickReport
  ticks : Nat
  head : Nat
  logHead : Nat
  closings : List Closing

def WatchState.fresh : WatchState :=
  { watch := .fresh
    phase := .idle
    last := none
    ticks := 0
    head := 0
    logHead := 0
    closings := [] }

def WatchState.Start
    (s : WatchState) : Prop :=
  s = .fresh

def closingsOf
    (w : GuardianWatch)
    (head : Head)
    (report : GuardianExpiryReport) : List Closing :=
  match report.closedAt head with
  | none => []
  | some blockNumber =>
      [{ key := keyOf report.underlying report.expiry
         blockNumber := blockNumber
         read :=
           decide
             (report.status = .Finalized ∨ report.status = .Held)
         cursor := w.cursor }]

def WatchState.watched
    (s : WatchState)
    (o : GuardianWatchOptions)
    (head : Head)
    (scannedTo : Option Nat)
    (began : List OpenExpiry)
    (e : OpenExpiry)
    (rest : List OpenExpiry)
    (seen : List WatchedExpiry)
    (a : WatchAnswers) : WatchState :=
  let x := watchExpiry o s.watch e head a
  { s with
    watch := x.watch
    phase := .watching head scannedTo began rest (seen ++ [x])
    closings := s.closings ++ closingsOf s.watch head x.report }

/- The answers come from the oracle at the tick's head. -/
structure WatchAnswers.Of
    (a : WatchAnswers)
    (H : OracleHistory)
    (k : WatchKey)
    (head : Head)
    (logHead : Nat) : Prop where
  status : a.reads.status = H.status k head.blockNumber
  /- A veto is mined above the heads read before it was sent. -/
  mined :
    ∀ blockNumber, a.outcome = .confirmed blockNumber →
      logHead < blockNumber
  /- It leaves the expiry Held, unless an unveto follows. -/
  vetoed :
    ∀ blockNumber, a.outcome = .confirmed blockNumber →
      H.status k blockNumber = .Pending → H.Opens k blockNumber

inductive WatchStep
    (o : GuardianWatchOptions)
    (H : OracleHistory) :
    WatchState → WatchState → Prop where
  | began
      (s : WatchState)
      (head : Head)
      (logHead : Nat)
      (hPhase : s.phase = .idle)
      (hHead : s.head ≤ head.blockNumber)
      (hLogHead : s.logHead ≤ logHead) :
      WatchStep o H s
        { s with
          phase :=
            .scanning head (beginScan o s.watch.cursor logHead)
          head := head.blockNumber
          logHead := logHead }
  | scanned
      (s : WatchState)
      (head : Head)
      (scan : LogScan)
      (hPhase : s.phase = .scanning head scan)
      (hMore : scan.more o = true) :
      WatchStep o H s
        { s with
          watch :=
            s.watch.scanned
              (getLogs H scan.start scan.toBlock) scan.toBlock
          phase := .scanning head scan.scanned }
  | halved
      (s : WatchState)
      (head : Head)
      (scan : LogScan)
      (hPhase : s.phase = .scanning head scan)
      (hMore : scan.more o = true)
      (hChunk : minChunk < scan.chunk) :
      WatchStep o H s
        { s with phase := .scanning head scan.halved }
  | refused
      (s : WatchState)
      (head : Head)
      (scan : LogScan)
      (hPhase : s.phase = .scanning head scan)
      (hMore : scan.more o = true)
      (hChunk : scan.chunk ≤ minChunk) :
      WatchStep o H s { s with phase := .idle }
  | scannedAll
      (s : WatchState)
      (head : Head)
      (scan : LogScan)
      (hPhase : s.phase = .scanning head scan)
      (hDone : scan.more o = false) :
      WatchStep o H s
        { s with phase := .scannedAll head scan.last }
  | entered
      (s : WatchState)
      (head : Head)
      (scannedTo : Option Nat)
      (hPhase : s.phase = .scannedAll head scannedTo) :
      WatchStep o H s
        { s with
          phase :=
            .watching head scannedTo s.watch.opened
              s.watch.opened [] }
  | watched
      (s : WatchState)
      (head : Head)
      (scannedTo : Option Nat)
      (began : List OpenExpiry)
      (e : OpenExpiry)
      (rest : List OpenExpiry)
      (seen : List WatchedExpiry)
      (a : WatchAnswers)
      (hPhase :
        s.phase = .watching head scannedTo began (e :: rest) seen)
      (hOf : a.Of H e.key head s.logHead) :
      WatchStep o H s
        (s.watched o head scannedTo began e rest seen a)
  | failed
      (s : WatchState)
      (head : Head)
      (scannedTo : Option Nat)
      (began rest : List OpenExpiry)
      (seen : List WatchedExpiry)
      (hPhase :
        s.phase = .watching head scannedTo began rest seen) :
      WatchStep o H s { s with phase := .idle }
  | finished
      (s : WatchState)
      (head : Head)
      (scannedTo : Option Nat)
      (began : List OpenExpiry)
      (seen : List WatchedExpiry)
      (hPhase :
        s.phase = .watching head scannedTo began [] seen) :
      WatchStep o H s
        { s with
          phase := .idle
          ticks := s.ticks + 1
          last :=
            some
              { head := head
                scannedTo := scannedTo
                opened := s.watch.opened.length
                expiries := seen.map WatchedExpiry.report } }

end

----
-- What the Scan Has Read
----

section

open Cranker (SettlementStatusName lc)

/-
  The closing is newer than the log of block `u`: the state was
  read at that block or above, or the veto mined above it.
-/
def Closing.Since
    (c : Closing)
    (u : Nat) : Prop :=
  if c.read = true then u ≤ c.blockNumber
  else u < c.blockNumber

/-
  The state was read below the log of block `u`, which the
  rescans after it do not reach.
-/
def Closing.Behind
    (c : Closing)
    (u : Nat) : Prop :=
  c.read = true ∧ c.blockNumber < u ∧
    ∃ cursor, c.cursor = some cursor ∧
      u + reorgOverlap ≤ cursor

/- What became of an expiry opened by a log of block `u`. -/
def WatchState.Tracked
    (s : WatchState)
    (H : OracleHistory)
    (k : WatchKey)
    (u : Nat) : Prop :=
  s.watch.isOpen k ∨
    (∃ b cursor, s.watch.cursor = some cursor ∧ b ≤ cursor ∧
      H.Finalizes k b) ∨
    ∃ c ∈ s.closings, c.key = k ∧ (c.Since u ∨ c.Behind u)

def WatchState.TrackedBelow
    (s : WatchState)
    (H : OracleHistory)
    (bound : Nat) : Prop :=
  ∀ k u, H.Opens k u → u < bound → s.Tracked H k u

/- The logs the next scan does not read again. -/
def WatchState.TrackedOld
    (s : WatchState)
    (H : OracleHistory) : Prop :=
  ∀ cursor, s.watch.cursor = some cursor →
    s.TrackedBelow H (cursor + 1 - reorgOverlap)

/- A scan's variables against the cursor it moves. -/
structure LogScan.Sound
    (scan : LogScan)
    (o : GuardianWatchOptions)
    (cursor : Option Nat) : Prop where
  chunk : minChunk ≤ scan.chunk
  first :
    scan.i = 0 →
      scan.start = scanStart o cursor ∧ scan.last = none
  next : scan.i ≠ 0 → cursor = some (scan.start - 1) ∧ 0 < scan.start
  head : ∀ c, cursor = some c → c ≤ scan.logHead

/- What is read and tracked in each phase. -/
def WatchState.PhaseSound
    (s : WatchState)
    (o : GuardianWatchOptions)
    (H : OracleHistory) : Prop :=
  match s.phase with
  | .idle => s.TrackedOld H
  | .scanning _ scan =>
      scan.Sound o s.watch.cursor ∧
        scan.logHead = s.logHead ∧
        s.TrackedBelow H scan.start
  | .scannedAll _ _ =>
      ∀ cursor, s.watch.cursor = some cursor →
        s.TrackedBelow H (cursor + 1)
  | .watching _ _ _ _ _ => s.TrackedOld H

structure WatchState.Sound
    (s : WatchState)
    (o : GuardianWatchOptions)
    (H : OracleHistory) : Prop where
  phase : s.PhaseSound o H
  known :
    ∀ k, s.watch.knowsFinal k →
      ∃ b cursor, s.watch.cursor = some cursor ∧ b ≤ cursor ∧
        H.Finalizes k b
  reached : ∀ c, s.watch.cursor = some c → c ≤ s.logHead
  above : ∀ c, s.watch.cursor = some c → o.fromBlock ≤ c
  chunks : s.watch.cursor ≠ none → 0 < o.chunksPerTick
  closed :
    ∀ c ∈ s.closings,
      (c.read = true →
        H.status c.key c.blockNumber ≠ .Pending) ∧
      (c.read = false →
        H.status c.key c.blockNumber = .Pending →
          H.Opens c.key c.blockNumber)

variable {o : GuardianWatchOptions} {H : OracleHistory}
variable {s t : WatchState}

theorem WatchState.Tracked.of_watch
    {k : WatchKey}
    {u : Nat}
    (h : s.Tracked H k u)
    (hWatch : t.watch = s.watch)
    (hClosings : s.closings ⊆ t.closings) :
    t.Tracked H k u := by
  unfold WatchState.Tracked
  rw [hWatch]
  rcases h with hOpen | hFinal | ⟨c, hc, hKey, hWhy⟩
  · exact .inl hOpen
  · exact .inr (.inl hFinal)
  · exact .inr (.inr ⟨c, hClosings hc, hKey, hWhy⟩)

theorem WatchState.TrackedBelow.of_watch
    {bound bound' : Nat}
    (h : s.TrackedBelow H bound)
    (hBound : bound' ≤ bound)
    (hWatch : t.watch = s.watch)
    (hClosings : s.closings ⊆ t.closings) :
    t.TrackedBelow H bound' :=
  fun k u hOpens hu =>
    (h k u hOpens (by omega)).of_watch hWatch hClosings

theorem scanStart_ge
    (o : GuardianWatchOptions)
    (cursor : Nat) :
    o.fromBlock ≤ scanStart o (some cursor) ∧
      cursor + 1 - reorgOverlap ≤ scanStart o (some cursor) := by
  unfold scanStart
  dsimp only
  split
  · exact ⟨le_refl _, by omega⟩
  · exact ⟨by omega, le_refl _⟩

variable {cursor : Nat}

theorem scanStart_le
    {o : GuardianWatchOptions}
    (hFrom : o.fromBlock ≤ cursor) :
    scanStart o (some cursor) ≤ cursor := by
  have hOverlap : reorgOverlap = 100 := rfl
  unfold scanStart
  dsimp only
  split <;> omega

/- Everything a scan skips, it has read before. -/
theorem WatchState.TrackedOld.start
    (h : s.TrackedOld H)
    (hDeploy : o.fromBlock ≤ H.deployBlock) :
    s.TrackedBelow H (scanStart o s.watch.cursor) := by
  intro k u hOpens hu
  have hLogs : o.fromBlock ≤ u := by
    by_contra hBelow
    rcases hOpens with ⟨log, hLog, _⟩
    rw [H.before u (by omega)] at hLog
    cases hLog
  cases hCursor : s.watch.cursor with
  | none =>
      rw [hCursor] at hu
      unfold scanStart at hu
      dsimp only at hu
      split at hu <;> omega
  | some cursor =>
      rw [hCursor] at hu
      apply h cursor hCursor k u hOpens
      unfold scanStart at hu
      dsimp only at hu
      split at hu <;> omega

variable {head : Head}

theorem WatchState.Sound.began
    (h : s.Sound o H)
    (hDeploy : o.fromBlock ≤ H.deployBlock)
    (hChunks : minChunk ≤ o.chunkBlocks)
    (hPhase : s.phase = .idle)
    {logHead : Nat}
    (hLogHead : s.logHead ≤ logHead) :
    WatchState.Sound
      { s with
        phase :=
          .scanning head (beginScan o s.watch.cursor logHead)
        head := head.blockNumber
        logHead := logHead }
      o H := by
  have hOld : s.TrackedOld H := by
    have hSound := h.phase
    unfold WatchState.PhaseSound at hSound
    rw [hPhase] at hSound
    exact hSound
  exact
    { phase := by
        refine ⟨?_, rfl, ?_⟩
        · exact
            { chunk := hChunks
              first := fun _ => ⟨rfl, rfl⟩
              next := fun hNe => absurd rfl hNe
              head := fun c hc =>
                le_trans (h.reached c hc) hLogHead }
        · exact
            (hOld.start hDeploy).of_watch (le_refl _) rfl
              (List.Subset.refl _)
      known := h.known
      reached := fun c hc => le_trans (h.reached c hc) hLogHead
      above := h.above
      chunks := h.chunks
      closed := h.closed }

variable {scan : LogScan}

theorem LogScan.Sound.toBlock_ge
    (h : scan.Sound o (some cursor)) :
    cursor ≤ scan.toBlock := by
  have hOverlap : reorgOverlap = 100 := rfl
  have hFloor : minChunk = 100 := rfl
  have hHead := h.head cursor rfl
  have hChunk := h.chunk
  have hStart : cursor + 1 - reorgOverlap ≤ scan.start := by
    by_cases hFirst : scan.i = 0
    · rw [(h.first hFirst).1]
      exact (scanStart_ge o cursor).2
    · rcases h.next hFirst with ⟨hCursor, hPos⟩
      rw [Option.some.injEq] at hCursor
      omega
  unfold LogScan.toBlock
  split <;> omega

theorem LogScan.Sound.start_le
    {cursor : Option Nat}
    (h : scan.Sound o cursor)
    (hMore : scan.more o = true) :
    scan.start ≤ scan.toBlock ∧
      scan.toBlock ≤ scan.logHead := by
  have hFloor : minChunk = 100 := rfl
  have hChunk := h.chunk
  simp only [LogScan.more, Bool.and_eq_true,
    decide_eq_true_eq] at hMore
  unfold LogScan.toBlock
  split <;> omega

theorem LogScan.Sound.fromBlock_le
    {cursor : Option Nat}
    (h : scan.Sound o cursor)
    (hAbove : ∀ c, cursor = some c → o.fromBlock ≤ c) :
    o.fromBlock ≤ scan.start := by
  by_cases hFirst : scan.i = 0
  · rw [(h.first hFirst).1]
    cases cursor with
    | none =>
        unfold scanStart
        dsimp only
        split <;> omega
    | some c => exact (scanStart_ge o c).1
  · rcases h.next hFirst with ⟨hCursor, hPos⟩
    have := hAbove _ hCursor
    omega

theorem WatchState.Sound.scanned
    (h : s.Sound o H)
    (hPhase : s.phase = .scanning head scan)
    (hMore : scan.more o = true) :
    WatchState.Sound
      { s with
        watch :=
          s.watch.scanned
            (getLogs H scan.start scan.toBlock) scan.toBlock
        phase := .scanning head scan.scanned }
      o H := by
  have hSound := h.phase
  unfold WatchState.PhaseSound at hSound
  rw [hPhase] at hSound
  rcases hSound with ⟨hScan, hLogHead, hBelow⟩
  have hRange := hScan.start_le hMore
  have hFrom := hScan.fromBlock_le h.above
  have hMoved :
      ∀ c, s.watch.cursor = some c → c ≤ scan.toBlock := by
    intro c hc
    rw [hc] at hScan
    exact hScan.toBlock_ge
  -- A finalization of the range is at most at the new cursor.
  have hFinal :
      ∀ k,
        (s.watch.knowsFinal k ∨
          ∃ log ∈ getLogs H scan.start scan.toBlock,
            log.Finalizes k) →
          ∃ b cursor, some scan.toBlock = some cursor ∧
            b ≤ cursor ∧ H.Finalizes k b := by
    rintro k (hKnown | ⟨log, hLog, hFinalizes⟩)
    · rcases h.known k hKnown with ⟨b, c, hc, hb, hFin⟩
      have := hMoved c hc
      exact ⟨b, scan.toBlock, rfl, by omega, hFin⟩
    · rcases mem_getLogs_iff.mp hLog with ⟨b, _, hb, hIn⟩
      exact ⟨b, scan.toBlock, rfl, hb, log, hIn, hFinalizes⟩
  have hTracked :
      ∀ k u, H.Opens k u → u < scan.toBlock + 1 →
        WatchState.Tracked
          { s with
            watch :=
              s.watch.scanned
                (getLogs H scan.start scan.toBlock) scan.toBlock
            phase := .scanning head scan.scanned }
          H k u := by
    intro k u hOpens hu
    have hApply :
        (s.watch.isOpen k ∨ s.watch.knowsFinal k ∨
            ∃ log ∈ getLogs H scan.start scan.toBlock,
              log.Opens k) →
          WatchState.Tracked
            { s with
              watch :=
                s.watch.scanned
                  (getLogs H scan.start scan.toBlock)
                  scan.toBlock
              phase := .scanning head scan.scanned }
            H k u := by
      intro hBefore
      rcases isOpen_foldl_apply hBefore with hOpen | hFin
      · exact .inl hOpen
      · exact .inr (.inl (hFinal k hFin))
    rcases Nat.lt_or_ge u scan.start with hOld | hNew
    · rcases hBelow k u hOpens hOld with hOpen | hFin | hClosed
      · exact hApply (.inl hOpen)
      · rcases hFin with ⟨b, c, hc, hb, hFin⟩
        have := hMoved c hc
        exact .inr (.inl ⟨b, scan.toBlock, rfl, by omega, hFin⟩)
      · exact .inr (.inr hClosed)
    · rcases hOpens with ⟨log, hLog, hOpens⟩
      exact
        hApply
          (.inr
            (.inr
              ⟨log,
                mem_getLogs_iff.mpr ⟨u, hNew, by omega, hLog⟩,
                hOpens⟩))
  exact
    { phase := by
        refine ⟨?_, hLogHead, hTracked⟩
        exact
          { chunk := hScan.chunk
            first := fun hNone => by
              change scan.i + 1 = 0 at hNone
              omega
            next := fun _ => by
              refine ⟨?_, Nat.succ_pos _⟩
              change some scan.toBlock = some (scan.toBlock + 1 - 1)
              rw [Nat.add_sub_cancel]
            head := fun c hc => by
              cases hc
              exact hRange.2 }
      known := by
        intro k hKnown
        exact hFinal k (knowsFinal_foldl_apply hKnown)
      reached := by
        intro c hc
        cases hc
        rw [← hLogHead]
        exact hRange.2
      above := by
        intro c hc
        cases hc
        omega
      chunks := by
        intro _
        simp only [LogScan.more, Bool.and_eq_true,
          decide_eq_true_eq] at hMore
        omega
      closed := h.closed }

theorem LogScan.Sound.scanned_below
    (h : scan.Sound o (some cursor)) :
    cursor + 1 - reorgOverlap ≤ scan.start := by
  by_cases hFirst : scan.i = 0
  · rw [(h.first hFirst).1]
    exact (scanStart_ge o cursor).2
  · rcases h.next hFirst with ⟨hCursor, hPos⟩
    rw [Option.some.injEq] at hCursor
    omega

theorem WatchState.Sound.refused
    (h : s.Sound o H)
    (hPhase : s.phase = .scanning head scan) :
    WatchState.Sound { s with phase := .idle } o H := by
  have hSound := h.phase
  unfold WatchState.PhaseSound at hSound
  rw [hPhase] at hSound
  rcases hSound with ⟨hScan, _, hBelow⟩
  exact
    { phase := by
        intro cursor hCursor
        have hCursor' : s.watch.cursor = some cursor := hCursor
        rw [hCursor'] at hScan
        exact
          hBelow.of_watch hScan.scanned_below rfl
            (List.Subset.refl _)
      known := h.known
      reached := h.reached
      above := h.above
      chunks := h.chunks
      closed := h.closed }

/- A scan that ends has read every log up to the cursor. -/
theorem WatchState.Sound.scannedAll
    (h : s.Sound o H)
    (hPhase : s.phase = .scanning head scan)
    (hDone : scan.more o = false) :
    WatchState.Sound
      { s with phase := .scannedAll head scan.last } o H := by
  have hSound := h.phase
  unfold WatchState.PhaseSound at hSound
  rw [hPhase] at hSound
  rcases hSound with ⟨hScan, _, hBelow⟩
  exact
    { phase := by
        intro cursor hCursor
        have hCursor' : s.watch.cursor = some cursor := hCursor
        have hPos : 0 < o.chunksPerTick := by
          apply h.chunks
          rw [hCursor']
          exact Option.some_ne_none cursor
        have hUp := scanStart_le (h.above cursor hCursor')
        rw [hCursor'] at hScan
        have hHead := hScan.head cursor rfl
        have hStart : cursor + 1 ≤ scan.start := by
          by_cases hFirst : scan.i = 0
          · have hMore : scan.more o = true := by
              simp only [LogScan.more, Bool.and_eq_true,
                decide_eq_true_eq]
              rw [(hScan.first hFirst).1]
              omega
            rw [hDone] at hMore
            cases hMore
          · rcases hScan.next hFirst with ⟨hNext, _⟩
            rw [Option.some.injEq] at hNext
            omega
        exact hBelow.of_watch hStart rfl (List.Subset.refl _)
      known := h.known
      reached := h.reached
      above := h.above
      chunks := h.chunks
      closed := h.closed }

theorem mem_closingsOf
    {w : GuardianWatch}
    {e : OpenExpiry}
    {a : WatchAnswers}
    {c : Closing}
    (h :
      c ∈ closingsOf w head (watchExpiry o w e head a).report) :
    c.key = e.key ∧ c.cursor = w.cursor ∧
      (c.read = true ∧ c.blockNumber = head.blockNumber ∧
          a.reads.status ≠ .Pending ∨
        c.read = false ∧
          a.outcome = .confirmed c.blockNumber) := by
  unfold closingsOf GuardianExpiryReport.closedAt at h
  rw [watchExpiry_key, watchExpiry_status] at h
  by_cases hClosed :
      a.reads.status = .Finalized ∨ a.reads.status = .Held
  · rw [if_pos hClosed, decide_eq_true hClosed] at h
    rw [List.mem_singleton.mp h]
    refine ⟨rfl, rfl, .inl ⟨rfl, rfl, ?_⟩⟩
    rcases hClosed with hStatus | hStatus <;>
      rw [hStatus] <;> exact nofun
  · rw [if_neg hClosed, decide_eq_false hClosed] at h
    split at h
    · cases h
    · next blockNumber hVeto =>
        rw [List.mem_singleton.mp h]
        refine ⟨rfl, rfl, .inr ⟨rfl, ?_⟩⟩
        split at hVeto
        · next b hSent =>
            cases hVeto
            exact watchExpiry_outcome hSent
        · cases hVeto

theorem WatchState.Sound.watched
    (h : s.Sound o H)
    {scannedTo : Option Nat}
    {began rest : List OpenExpiry}
    {e : OpenExpiry}
    {seen : List WatchedExpiry}
    {a : WatchAnswers}
    (hPhase :
      s.phase = .watching head scannedTo began (e :: rest) seen)
    (hOf : a.Of H e.key head s.logHead) :
    (s.watched o head scannedTo began e rest seen a).Sound
      o H := by
  have hOld : s.TrackedOld H := by
    have hSound := h.phase
    unfold WatchState.PhaseSound at hSound
    rw [hPhase] at hSound
    exact hSound
  have hWatch := watchExpiry_watch o s.watch e head a
  have hSame :
      (watchExpiry o s.watch e head a).watch.cursor =
          s.watch.cursor ∧
        (watchExpiry o s.watch e head a).watch.finalized =
          s.watch.finalized := by
    rw [hWatch]
    split <;> exact ⟨rfl, rfl⟩
  have hTracked :
      (s.watched o head scannedTo began e rest seen a).TrackedOld
        H := by
    intro cursor hCursor k u hOpens hu
    have hCursor' : s.watch.cursor = some cursor := by
      rw [← hSame.1]
      exact hCursor
    rcases hOld cursor hCursor' k u hOpens hu with
      hOpen | ⟨b, c, hc, hb, hFin⟩ | ⟨c, hc, hKey, hWhy⟩
    · cases hAt :
          (watchExpiry o s.watch e head a).report.closedAt
            head with
      | none =>
          left
          change
            (watchExpiry o s.watch e head a).watch.isOpen k
          rw [hWatch, hAt]
          exact hOpen
      | some blockNumber =>
          by_cases hKey : k = e.key
          · right
            right
            have hIn :
                (closingsOf s.watch head
                    (watchExpiry o s.watch e head a).report).length
                  = 1 := by
              unfold closingsOf
              rw [hAt]
              rfl
            rcases List.length_eq_one_iff.mp hIn with ⟨c, hc⟩
            have hMem :
                c ∈
                  closingsOf s.watch head
                    (watchExpiry o s.watch e head a).report := by
              rw [hc]
              exact List.mem_singleton_self c
            rcases mem_closingsOf hMem with
              ⟨hcKey, hcCursor, hCase⟩
            refine
              ⟨c, List.mem_append_right _ hMem,
                hcKey.trans hKey.symm, ?_⟩
            rcases hCase with
              ⟨hRead, _, _⟩ | ⟨hRead, hConfirmed⟩
            · rcases Nat.lt_or_ge c.blockNumber u with
                hBehind | hSince
              · right
                exact
                  ⟨hRead, hBehind, cursor,
                    hcCursor.trans hCursor', by omega⟩
              · left
                unfold Closing.Since
                rw [if_pos hRead]
                exact hSince
            · left
              have hMined := hOf.mined _ hConfirmed
              have hReached := h.reached cursor hCursor'
              unfold Closing.Since
              rw [hRead, if_neg Bool.false_ne_true]
              omega
          · left
            change
              (watchExpiry o s.watch e head a).watch.isOpen k
            rw [hWatch, hAt]
            exact isOpen_close_iff.mpr ⟨hOpen, hKey⟩
    · exact .inr (.inl ⟨b, c, hSame.1.trans hc, hb, hFin⟩)
    · exact
        .inr
          (.inr ⟨c, List.mem_append_left _ hc, hKey, hWhy⟩)
  exact
    { phase := hTracked
      known := by
        intro k hKnown
        have hKnown' : s.watch.knowsFinal k := by
          unfold GuardianWatch.knowsFinal
          rw [← hSame.2]
          exact hKnown
        rcases h.known k hKnown' with ⟨b, c, hc, hb, hFin⟩
        exact ⟨b, c, hSame.1.trans hc, hb, hFin⟩
      reached := fun c hc => h.reached c (hSame.1.symm.trans hc)
      above := fun c hc => h.above c (hSame.1.symm.trans hc)
      chunks := fun hc => h.chunks (hSame.1 ▸ hc)
      closed := by
        intro c hc
        rcases List.mem_append.mp hc with hBefore | hNew
        · exact h.closed c hBefore
        · rcases mem_closingsOf hNew with ⟨hKey, _, hCase⟩
          rcases hCase with
            ⟨hRead, hBlock, hStatus⟩ | ⟨hRead, hConfirmed⟩
          · constructor
            · intro _
              rw [hKey, hBlock, ← hOf.status]
              exact hStatus
            · intro hFalse
              rw [hRead] at hFalse
              cases hFalse
          · constructor
            · intro hTrue
              rw [hRead] at hTrue
              cases hTrue
            · intro _
              rw [hKey]
              exact hOf.vetoed _ hConfirmed }

theorem WatchState.Sound.step
    (h : s.Sound o H)
    (hDeploy : o.fromBlock ≤ H.deployBlock)
    (hChunks : minChunk ≤ o.chunkBlocks)
    (hStep : WatchStep o H s t) :
    t.Sound o H := by
  have hSound := h.phase
  unfold WatchState.PhaseSound at hSound
  cases hStep with
  | began head logHead hPhase hHead hLogHead =>
      exact h.began hDeploy hChunks hPhase hLogHead
  | scanned head scan hPhase hMore =>
      exact h.scanned hPhase hMore
  | halved head scan hPhase hMore hChunk =>
      rw [hPhase] at hSound
      rcases hSound with ⟨hScan, hLogHead, hBelow⟩
      refine
        { h with
          phase := ⟨?_, hLogHead,
            hBelow.of_watch (le_refl _) rfl
              (List.Subset.refl _)⟩ }
      refine { hScan with chunk := ?_ }
      change
        minChunk ≤
          if scan.chunk / 2 < minChunk then minChunk
          else scan.chunk / 2
      split <;> omega
  | refused head scan hPhase hMore hChunk =>
      exact h.refused hPhase
  | scannedAll head scan hPhase hDone =>
      exact h.scannedAll hPhase hDone
  | entered head scannedTo hPhase =>
      rw [hPhase] at hSound
      refine { h with phase := ?_ }
      intro cursor hCursor
      exact
        (hSound cursor hCursor).of_watch (by omega) rfl
          (List.Subset.refl _)
  | watched head scannedTo began e rest seen a hPhase hOf =>
      exact h.watched hPhase hOf
  | failed head scannedTo began rest seen hPhase =>
      rw [hPhase] at hSound
      exact { h with phase := hSound }
  | finished head scannedTo began seen hPhase =>
      rw [hPhase] at hSound
      exact { h with phase := hSound }

end

----
-- What Every Tick Watches
----

section

open Cranker (SettlementStatusName lc)

/- Closed at a block the scan has not come to. -/
def WatchState.ClosedAhead
    (s : WatchState)
    (k : WatchKey)
    (cursor : Nat) : Prop :=
  ∃ c ∈ s.closings, c.key = k ∧ cursor < c.blockNumber

/-
  Closed by a read made below the last log to open it at or
  under the cursor, with the cursor then the overlap or more
  above that log.
-/
def WatchState.ClosedBehind
    (s : WatchState)
    (H : OracleHistory)
    (k : WatchKey)
    (cursor : Nat) : Prop :=
  ∃ c ∈ s.closings, c.key = k ∧
    ∃ u ≤ cursor, H.Opens k u ∧
      (∀ u', u < u' → u' ≤ cursor → ¬ H.Opens k u') ∧
        c.Behind u

/- The expiry was read at the head, paged and judged. -/
def WatchedExpiry.Judged
    (x : WatchedExpiry)
    (o : GuardianWatchOptions)
    (H : OracleHistory)
    (head : Head) : Prop :=
  ∃ w e a, a.reads.status = H.status e.key head.blockNumber ∧
    x = watchExpiry o w e head a ∧
      (a.reads.status = .Pending →
        ∀ c, a.reads.candidate = some c → 0 < c.price →
          GuardianAlert.candidate ∈ x.alerts)

/-
  At the start of every watch loop each expiry pending at the
  cursor is in the open set, but one the process has itself
  seen closed; and the loop reads all it began with.
-/
structure WatchState.Watches
    (s : WatchState)
    (o : GuardianWatchOptions)
    (H : OracleHistory) : Prop where
  pending :
    ∀ head scannedTo, s.phase = .scannedAll head scannedTo →
      ∀ cursor, s.watch.cursor = some cursor →
        ∀ k, (∃ u, u ≤ cursor ∧ H.Opens k u) →
          H.status k cursor = .Pending →
            s.watch.isOpen k ∨ s.ClosedAhead k cursor ∨
              s.ClosedBehind H k cursor
  walked :
    ∀ head scannedTo began rest seen,
      s.phase = .watching head scannedTo began rest seen →
        began.map OpenExpiry.key =
          seen.map
              (fun x =>
                keyOf x.report.underlying x.report.expiry) ++
            rest.map OpenExpiry.key
  judged :
    ∀ head scannedTo began rest seen,
      s.phase = .watching head scannedTo began rest seen →
        ∀ x ∈ seen, x.Judged o H head

/- The part of it that is about the watch loop. -/
def WatchState.Walks
    (s : WatchState)
    (o : GuardianWatchOptions)
    (H : OracleHistory) : Prop :=
  ∀ head scannedTo began rest seen,
    s.phase = .watching head scannedTo began rest seen →
      began.map OpenExpiry.key =
          seen.map
              (fun x =>
                keyOf x.report.underlying x.report.expiry) ++
            rest.map OpenExpiry.key ∧
        ∀ x ∈ seen, x.Judged o H head

variable {o : GuardianWatchOptions} {H : OracleHistory}
variable {s t : WatchState}

theorem WatchState.Walks.step
    (h : s.Walks o H)
    (hStep : WatchStep o H s t) :
    t.Walks o H := by
  intro head scannedTo began rest seen hNow
  cases hStep with
  | began head logHead hPhase hHead hLogHead => cases hNow
  | scanned head scan hPhase hMore => cases hNow
  | halved head scan hPhase hMore hChunk => cases hNow
  | refused head scan hPhase hMore hChunk => cases hNow
  | scannedAll head scan hPhase hDone => cases hNow
  | entered head scannedTo hPhase =>
      cases hNow
      refine ⟨rfl, ?_⟩
      intro x hx
      cases hx
  | watched head scannedTo began e rest seen a hPhase hOf =>
      unfold WatchState.watched at hNow
      dsimp only at hNow
      rw [WatchPhase.watching.injEq] at hNow
      rcases hNow with ⟨rfl, rfl, rfl, rfl, rfl⟩
      rcases h _ _ _ _ _ hPhase with ⟨hWalked, hJudged⟩
      constructor
      · rw [hWalked, List.map_append, List.map_cons,
          List.map_singleton, watchExpiry_key,
          List.append_assoc, List.singleton_append]
      · intro x hx
        rcases List.mem_append.mp hx with hOld | hNew
        · exact hJudged x hOld
        · rw [List.mem_singleton.mp hNew]
          refine ⟨s.watch, e, a, hOf.status, rfl, ?_⟩
          intro hPending c hCandidate hPrice
          exact watchExpiry_pages hPending hCandidate hPrice
  | failed head scannedTo began rest seen hPhase => cases hNow
  | finished head scannedTo began seen hPhase => cases hNow

theorem WatchState.fresh_sound
    (o : GuardianWatchOptions)
    (H : OracleHistory) :
    WatchState.fresh.Sound o H where
  phase := nofun
  known := nofun
  reached := nofun
  above := nofun
  chunks := fun h => absurd rfl h
  closed := nofun

theorem WatchState.Sound.pending
    (h : s.Sound o H)
    {head : Head}
    {scannedTo : Option Nat}
    (hPhase : s.phase = .scannedAll head scannedTo)
    {cursor : Nat}
    (hCursor : s.watch.cursor = some cursor)
    {k : WatchKey}
    (hPending : H.status k cursor = .Pending) :
    s.watch.isOpen k ∨ s.ClosedAhead k cursor ∨
      s.ClosedBehind H k cursor := by
  have hSound := h.phase
  unfold WatchState.PhaseSound at hSound
  rw [hPhase] at hSound
  -- The log that made it pending for the last time decides.
  rcases H.last_opened hPending with
    ⟨u, hu, hOpens, hKept, hLast⟩
  rcases hSound cursor hCursor k u hOpens (by omega) with
    hOpen | ⟨b, c, hc, hb, hFin⟩ | ⟨c, hc, hKey, hWhy⟩
  · exact .inl hOpen
  · rw [hCursor] at hc
    cases hc
    have hFinal := H.final k b hFin cursor hb
    rw [hPending] at hFinal
    cases hFinal
  · right
    rcases hWhy with hSince | hBehind
    · left
      refine ⟨c, hc, hKey, ?_⟩
      by_contra hBelow
      have hClosed := h.closed c hc
      rw [hKey] at hClosed
      unfold Closing.Since at hSince
      cases hRead : c.read with
      | true =>
          rw [hRead, if_pos rfl] at hSince
          exact
            hClosed.1 hRead
              (hKept c.blockNumber hSince (by omega))
      | false =>
          rw [hRead, if_neg Bool.false_ne_true] at hSince
          have hAgain :=
            hClosed.2 hRead
              (hKept c.blockNumber (by omega) (by omega))
          exact hLast c.blockNumber hSince (by omega) hAgain
    · exact .inr ⟨c, hc, hKey, u, hu, hOpens, hLast, hBehind⟩

/-
  For every history of the oracle and every run of ticks, with
  the two heads apart by any number of blocks.
-/
theorem pending_watched
    (o : GuardianWatchOptions)
    (H : OracleHistory)
    (hDeploy : o.fromBlock ≤ H.deployBlock)
    (hChunks : minChunk ≤ o.chunkBlocks)
    (s : WatchState)
    (hReach :
      Transition.Reachable WatchState.Start (WatchStep o H) s) :
    s.Watches o H := by
  have hSound : s.Sound o H := by
    refine
      Transition.invariant (fun s => s.Sound o H) ?_
        (fun _ _ h hStep => h.step hDeploy hChunks hStep) hReach
    intro s hStart
    rw [show s = .fresh from hStart]
    exact WatchState.fresh_sound o H
  have hWalks : s.Walks o H := by
    refine
      Transition.invariant (fun s => s.Walks o H) ?_
        (fun _ _ h hStep => h.step hStep) hReach
    intro s hStart head scannedTo began rest seen hPhase
    rw [show s = .fresh from hStart] at hPhase
    cases hPhase
  exact
    { pending := fun _ _ hPhase _ hCursor _ _ hPending =>
        hSound.pending hPhase hCursor hPending
      walked := fun _ _ _ _ _ hPhase =>
        (hWalks _ _ _ _ _ hPhase).1
      judged := fun _ _ _ _ _ hPhase =>
        (hWalks _ _ _ _ _ hPhase).2 }

end

----
-- Heads Apart
----

open Cranker (SettlementStatusName lc)

def loneExpiry : OpenExpiry :=
  { underlying := "0xu"
    expiry := 1000 }

def loneLog
    (eventName : GuardianEventName) : GuardianLog :=
  { eventName := eventName
    underlying := "0xu"
    expiry := 1000
    price := some 5 }

/- A candidate in block 10, finalized in block 300. -/
def finalizedLater : OracleHistory where
  deployBlock := 0
  logs := fun b =>
    if b = 10 then [loneLog .SettlementCandidate]
    else if b = 300 then [loneLog .SettlementFinalized]
    else []
  status := fun k b =>
    if k = loneExpiry.key ∧ 10 ≤ b then
      if b < 300 then .Pending else .Finalized
    else .None
  before := nofun
  opened := by
    intro k b hPending
    split at hPending
    · next hKey =>
        split at hPending
        · next hBelow =>
            rcases hKey with ⟨rfl, hFrom⟩
            by_cases hFirst : b = 10
            · left
              rw [if_pos hFirst]
              exact ⟨_, List.mem_cons_self, nofun, rfl⟩
            · right
              refine ⟨b - 1, by omega, ?_⟩
              rw [if_pos ⟨rfl, by omega⟩, if_pos (by omega)]
        · cases hPending
    · cases hPending
  final := by
    rintro k b ⟨log, hLog, hName, rfl⟩ b' hLe
    split at hLog
    · rw [List.mem_singleton.mp hLog] at hName
      cases hName
    · split at hLog
      · rw [List.mem_singleton.mp hLog,
          if_pos ⟨rfl, by omega⟩, if_neg (by omega)]
      · cases hLog

/-
  A candidate in block 10, held from block 20 on by a veto, and
  pending again by an unveto in block 50.
-/
def unvetoedLater : OracleHistory where
  deployBlock := 0
  logs := fun b =>
    if b = 10 then [loneLog .SettlementCandidate]
    else if b = 50 then [loneLog .SettlementUnvetoed]
    else []
  status := fun k b =>
    if k = loneExpiry.key ∧ 10 ≤ b then
      if 20 ≤ b ∧ b < 50 then .Held else .Pending
    else .None
  before := nofun
  opened := by
    intro k b hPending
    split at hPending
    · next hKey =>
        rcases hKey with ⟨rfl, hFrom⟩
        split at hPending
        · cases hPending
        · next hHeld =>
            by_cases hFirst : b = 10
            · left
              rw [if_pos hFirst]
              exact ⟨_, List.mem_cons_self, nofun, rfl⟩
            · by_cases hAgain : b = 50
              · left
                rw [if_neg hFirst, if_pos hAgain]
                exact ⟨_, List.mem_cons_self, nofun, rfl⟩
              · right
                refine ⟨b - 1, by omega, ?_⟩
                rw [if_pos ⟨rfl, by omega⟩, if_neg (by omega)]
    · cases hPending
  final := by
    rintro k b ⟨log, hLog, hName, rfl⟩ b' hLe
    split at hLog
    · rw [List.mem_singleton.mp hLog] at hName
      cases hName
    · split at hLog
      · rw [List.mem_singleton.mp hLog] at hName
        cases hName
      · cases hLog

def loneOptions : GuardianWatchOptions :=
  { fromBlock := 0
    chunkBlocks := 1000
    chunksPerTick := 4
    thresholds :=
      { scaleFactor := 10
        autoVeto := true
        staleRoundAfterS := 90000 }
    adminSafe := none }

def headAt
    (blockNumber : Nat) : Head :=
  { blockNumber := blockNumber
    timestamp := 1200 }

def loneAnswers
    (H : OracleHistory)
    (blockNumber : Nat) : WatchAnswers :=
  { reads :=
      { status := H.status loneExpiry.key blockNumber
        candidate := none
        recorded := { sources := [], ok := [], prices := [] }
        sources := []
        maxDeviationBps := 150 }
    latest := fun _ => none
    roundAge := fun _ => .none
    outcome := .noOp }

theorem loneAnswers_of
    (H : OracleHistory)
    (blockNumber : Nat) :
    (loneAnswers H blockNumber).Of H loneExpiry.key
      (headAt blockNumber) 200 where
  status := rfl
  mined := nofun
  vetoed := nofun

/- After its scan of the logs up to block 200. -/
def loneOpened : GuardianWatch :=
  { cursor := some 200
    opened := [loneExpiry]
    finalized := [] }

/- After its read as finalized or held. -/
def loneClosed : GuardianWatch :=
  { cursor := some 200
    opened := []
    finalized := [] }

/- The start of the watch loop of the second tick. -/
def loneState
    (H : OracleHistory)
    (blockNumber : Nat) : WatchState :=
  let report :=
    (watchExpiry loneOptions loneOpened loneExpiry
      (headAt blockNumber) (loneAnswers H blockNumber)).report
  { watch := loneClosed
    phase := .scannedAll (headAt blockNumber) (some 200)
    last :=
      some
        { head := headAt blockNumber
          scannedTo := some 200
          opened := 0
          expiries := [report] }
    ticks := 1
    head := blockNumber
    logHead := 200
    closings := closingsOf loneOpened (headAt blockNumber) report }

/-
  The first tick scans to block 200 and reads the expiry, the
  second scans the overlap again, where it has no log.
-/
theorem loneState_reached
    {H : OracleHistory}
    {blockNumber : Nat}
    (hFirst :
      GuardianWatch.fresh.scanned (getLogs H 0 200) 200 =
        loneOpened)
    (hRead :
      (watchExpiry loneOptions loneOpened loneExpiry
          (headAt blockNumber)
          (loneAnswers H blockNumber)).watch =
        loneClosed)
    (hOverlap : getLogs H 101 200 = []) :
    Transition.Reachable WatchState.Start
      (WatchStep loneOptions H) (loneState H blockNumber) := by
  have hStart :
      Transition.Reachable WatchState.Start
        (WatchStep loneOptions H) .fresh :=
    .init rfl
  have hBegan :=
    hStart.step
      (.began _ (headAt blockNumber) 200 rfl (Nat.zero_le _)
        (Nat.zero_le _))
  have hScanned :=
    hBegan.step (.scanned _ (headAt blockNumber) _ rfl rfl)
  have hAll :=
    hScanned.step (.scannedAll _ (headAt blockNumber) _ rfl rfl)
  have hEntered :=
    hAll.step (.entered _ (headAt blockNumber) _ rfl)
  change
    Transition.Reachable WatchState.Start
      (WatchStep loneOptions H)
      { watch :=
          GuardianWatch.fresh.scanned (getLogs H 0 200) 200
        phase :=
          .watching (headAt blockNumber) (some 200)
            (GuardianWatch.fresh.scanned
              (getLogs H 0 200) 200).opened
            (GuardianWatch.fresh.scanned
              (getLogs H 0 200) 200).opened []
        last := none
        ticks := 0
        head := blockNumber
        logHead := 200
        closings := [] } at hEntered
  rw [hFirst] at hEntered
  have hWatched :=
    hEntered.step
      (.watched _ (headAt blockNumber) (some 200) [loneExpiry]
        loneExpiry [] [] (loneAnswers H blockNumber) rfl
        (loneAnswers_of H blockNumber))
  unfold WatchState.watched at hWatched
  dsimp only at hWatched
  rw [hRead] at hWatched
  have hFinished :=
    hWatched.step (.finished _ (headAt blockNumber) _ _ _ rfl)
  have hAgain :=
    hFinished.step
      (.began _ (headAt blockNumber) 200 rfl (le_refl _)
        (le_refl _))
  have hRescanned :=
    hAgain.step (.scanned _ (headAt blockNumber) _ rfl rfl)
  have hSecond :
      loneClosed.scanned (getLogs H 101 200) 200 =
        loneClosed := by
    rw [hOverlap]
    rfl
  have hLoop :=
    hRescanned.step
      (.scannedAll _ (headAt blockNumber) _ rfl rfl)
  change
    Transition.Reachable WatchState.Start
      (WatchStep loneOptions H)
      { loneState H blockNumber with
        watch :=
          loneClosed.scanned (getLogs H 101 200) 200 } at hLoop
  rw [hSecond] at hLoop
  exact hLoop

theorem finalizedLater_reached :
    Transition.Reachable WatchState.Start
      (WatchStep loneOptions finalizedLater)
      (loneState finalizedLater 400) :=
  loneState_reached (by decide +kernel) (by decide +kernel)
    (by decide +kernel)

theorem unvetoedLater_reached :
    Transition.Reachable WatchState.Start
      (WatchStep loneOptions unvetoedLater)
      (loneState unvetoedLater 30) :=
  loneState_reached (by decide +kernel) (by decide +kernel)
    (by decide +kernel)

/- Pending at the cursor when the loop starts, and not open. -/
def WatchState.Forgets
    (s : WatchState)
    (H : OracleHistory)
    (k : WatchKey) : Prop :=
  ∃ head scannedTo cursor,
    s.phase = .scannedAll head scannedTo ∧
      s.watch.cursor = some cursor ∧
      (∃ u, u ≤ cursor ∧ H.Opens k u) ∧
      H.status k cursor = .Pending ∧ ¬ s.watch.isOpen k

theorem loneState_forgets
    {H : OracleHistory}
    {blockNumber : Nat}
    (hOpens : H.Opens loneExpiry.key 10)
    (hPending : H.status loneExpiry.key 200 = .Pending) :
    (loneState H blockNumber).Forgets H loneExpiry.key :=
  ⟨headAt blockNumber, some 200, 200, rfl, rfl,
    ⟨10, by omega, hOpens⟩, hPending, nofun⟩

/-
  A state head 200 blocks above the cursor reads the expiry as
  finalized while it is pending at the cursor; one 170 blocks
  below it reads a veto that has been lifted since.
-/
theorem pending_forgotten :
    (Transition.Reachable WatchState.Start
        (WatchStep loneOptions finalizedLater)
        (loneState finalizedLater 400) ∧
      (loneState finalizedLater 400).Forgets finalizedLater
        loneExpiry.key) ∧
    (Transition.Reachable WatchState.Start
        (WatchStep loneOptions unvetoedLater)
        (loneState unvetoedLater 30) ∧
      (loneState unvetoedLater 30).Forgets unvetoedLater
        loneExpiry.key) := by
  constructor
  · refine ⟨finalizedLater_reached, ?_⟩
    exact
      loneState_forgets
        ⟨_, List.mem_cons_self, nofun, rfl⟩ (if_pos ⟨rfl, by omega⟩)
  · refine ⟨unvetoedLater_reached, ?_⟩
    exact
      loneState_forgets
        ⟨_, List.mem_cons_self, nofun, rfl⟩ (if_pos ⟨rfl, by omega⟩)

theorem finalizedLater_watched :
    (loneState finalizedLater 400).Watches loneOptions
      finalizedLater :=
  pending_watched loneOptions finalizedLater (le_refl 0)
    (by decide) _ finalizedLater_reached

end Callhouse.Keeper.Guardian
