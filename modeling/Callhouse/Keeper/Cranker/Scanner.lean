import Callhouse.Keeper.Cranker.Index
import Callhouse.Lib.Transition
import Mathlib.Tactic

/-
  keeper/src/v2/cranker/scanner.ts: feeding the index from
  the contracts' logs, one block range at a time.

  A call is run in its own steps, since the chain may be
  reorganised, a range refused or the process killed between
  any two of them.

  Main declarations:
    * `rowsFromLogs`, `beginScan`
    * `ScanStep`
    * `scan_complete`
    * `scan_wellFounded`
-/

----
-- Logs and Rows
----

namespace Callhouse.Keeper.Cranker

/- 100 blocks: ~10 s at 0.1 s blocks. -/
def reorgOverlap : Int := 100

def minChunk : Int := 100

/- `recipient` is the event's `to`. -/
inductive LogEvent where
  | SeriesCreated (series : IndexedSeries)
  | TransferSingle (recipient : String) (id : Int)
  | TransferBatch (recipient : String) (ids : List Int)
  | OrderPlaced (order : IndexedOrder)
  | StrategySet (strategy : IndexedStrategy)
  | other
deriving DecidableEq

structure DecodedLog where
  address : String
  event : LogEvent
deriving DecidableEq

structure ScanTargets where
  clearinghouse : String
  orderBook : String
  autoRoller : Option String
  fromBlock : Int
deriving DecidableEq

def same
    (a b : String) : Bool :=
  a.toLower == b.toLower

def zeroAddress : String :=
  "0x0000000000000000000000000000000000000000"

def RangeRows.empty : RangeRows :=
  { series := []
    holders := []
    orders := []
    strategies := [] }

/- What one log adds to the rows of its range. -/
def addLog
    (targets : ScanTargets)
    (rows : RangeRows)
    (log : DecodedLog) : RangeRows :=
  match log.event with
  | .SeriesCreated s =>
      if same log.address targets.clearinghouse = false then
        rows
      else { rows with series := rows.series ++ [s] }
  | .TransferSingle recipient id =>
      if same log.address targets.clearinghouse = false ∨
          same recipient zeroAddress = true then rows
      else
        let holder := { tokenId := id, holder := recipient }
        { rows with holders := rows.holders ++ [holder] }
  | .TransferBatch recipient ids =>
      if same log.address targets.clearinghouse = false ∨
          same recipient zeroAddress = true then rows
      else
        let held :=
          ids.map
            (fun id => { tokenId := id, holder := recipient })
        { rows with holders := rows.holders ++ held }
  | .OrderPlaced o =>
      if same log.address targets.orderBook = false then rows
      else { rows with orders := rows.orders ++ [o] }
  | .StrategySet s =>
      match targets.autoRoller with
      | none => rows
      | some roller =>
          if same log.address roller = false then rows
          else
            { rows with strategies := rows.strategies ++ [s] }
  | .other => rows

def rowsFromLogs
    (targets : ScanTargets)
    (logs : List DecodedLog) : RangeRows :=
  logs.foldl (addLog targets) RangeRows.empty

/- A log adds what it contributes alone, to any rows. -/
theorem addLog_eq
    (targets : ScanTargets)
    (rows : RangeRows)
    (log : DecodedLog) :
    addLog targets rows log =
      { series :=
          rows.series ++ (rowsFromLogs targets [log]).series
        holders :=
          rows.holders ++ (rowsFromLogs targets [log]).holders
        orders :=
          rows.orders ++ (rowsFromLogs targets [log]).orders
        strategies :=
          rows.strategies ++
            (rowsFromLogs targets [log]).strategies } := by
  rcases rows with ⟨series, holders, orders, strategies⟩
  simp only [rowsFromLogs, List.foldl_cons, List.foldl_nil,
    addLog, RangeRows.empty]
  cases log.event with
  | SeriesCreated s => simp only; split <;> simp
  | TransferSingle recipient id => simp only; split <;> simp
  | TransferBatch recipient ids => simp only; split <;> simp
  | OrderPlaced o => simp only; split <;> simp
  | StrategySet s =>
      cases targets.autoRoller with
      | none => simp
      | some roller => simp only; split <;> simp
  | other => simp

theorem foldl_addLog_eq
    (targets : ScanTargets)
    (logs : List DecodedLog)
    (rows : RangeRows) :
    logs.foldl (addLog targets) rows =
      { series :=
          rows.series ++
            logs.flatMap
              (fun l => (rowsFromLogs targets [l]).series)
        holders :=
          rows.holders ++
            logs.flatMap
              (fun l => (rowsFromLogs targets [l]).holders)
        orders :=
          rows.orders ++
            logs.flatMap
              (fun l => (rowsFromLogs targets [l]).orders)
        strategies :=
          rows.strategies ++
            logs.flatMap
              (fun l =>
                (rowsFromLogs targets [l]).strategies) } := by
  induction logs generalizing rows with
  | nil => simp
  | cons log rest ih =>
      rw [List.foldl_cons, ih, addLog_eq]
      simp only [List.flatMap_cons, List.append_assoc]

/- The rows of a range are the rows of its logs, in order. -/
theorem rowsFromLogs_eq
    (targets : ScanTargets)
    (logs : List DecodedLog) :
    rowsFromLogs targets logs =
      { series :=
          logs.flatMap
            (fun l => (rowsFromLogs targets [l]).series)
        holders :=
          logs.flatMap
            (fun l => (rowsFromLogs targets [l]).holders)
        orders :=
          logs.flatMap
            (fun l => (rowsFromLogs targets [l]).orders)
        strategies :=
          logs.flatMap
            (fun l =>
              (rowsFromLogs targets [l]).strategies) } := by
  have hFold := foldl_addLog_eq targets logs RangeRows.empty
  simp only [RangeRows.empty, List.nil_append] at hFold
  exact hFold

variable {log : DecodedLog}

/- The index holds every log of a range whose rows it holds. -/
theorem CrankerIndex.HasKeys.of_mem
    {index : CrankerIndex}
    {targets : ScanTargets}
    {logs : List DecodedLog}
    (h : index.HasKeys (rowsFromLogs targets logs))
    (hLog : log ∈ logs) :
    index.HasKeys (rowsFromLogs targets [log]) := by
  rw [rowsFromLogs_eq targets logs] at h
  exact
    { series := fun s hs =>
        h.series s (List.mem_flatMap.mpr ⟨log, hLog, hs⟩)
      holders := fun x hx =>
        h.holders x (List.mem_flatMap.mpr ⟨log, hLog, hx⟩)
      orders := fun o ho =>
        h.orders o (List.mem_flatMap.mpr ⟨log, hLog, ho⟩)
      strategies := fun x hx =>
        h.strategies x
          (List.mem_flatMap.mpr ⟨log, hLog, hx⟩) }

/- A row read with a range was read with one of its logs. -/
theorem CrankerIndex.ValuesOf.of_range
    {index : CrankerIndex}
    {targets : ScanTargets}
    {logs : List DecodedLog}
    {read : RangeRows → Prop}
    (h :
      index.ValuesOf
        (fun rows =>
          read rows ∨ rows = rowsFromLogs targets logs))
    (hLogs :
      ∀ log ∈ logs, read (rowsFromLogs targets [log])) :
    index.ValuesOf read where
  series := by
    intro r hr
    rcases h.series r hr with ⟨rows, hRead | rfl, s, hs, hEq⟩
    · exact ⟨rows, hRead, s, hs, hEq⟩
    · rw [rowsFromLogs_eq] at hs
      rcases List.mem_flatMap.mp hs with ⟨log, hLog, hs⟩
      exact ⟨_, hLogs log hLog, s, hs, hEq⟩
  orders := by
    intro r hr
    rcases h.orders r hr with ⟨rows, hRead | rfl, o, ho, hEq⟩
    · exact ⟨rows, hRead, o, ho, hEq⟩
    · rw [rowsFromLogs_eq] at ho
      rcases List.mem_flatMap.mp ho with ⟨log, hLog, ho⟩
      exact ⟨_, hLogs log hLog, o, ho, hEq⟩

----
-- One Call
----

/- The canonical chain: the decoded logs of every block. -/
abbrev Chain : Type :=
  Int → List DecodedLog

structure ScanOptions where
  head : Int
  chunkBlocks : Int
  maxChunks : Int
deriving DecidableEq

structure ScanResult where
  fromBlock : Option Int
  toBlock : Option Int
  ranges : Int
  logs : Int
  caughtUp : Bool
  chunkBlocks : Int
deriving DecidableEq

/- A call between two awaits: its loop variables. -/
structure Scan where
  start : Int
  chunk : Int
  head : Int
  maxChunks : Int
  result : ScanResult
deriving DecidableEq

def scanStart
    (targets : ScanTargets)
    (cursor : Option Int) : Int :=
  let start :=
    match cursor with
    | none => targets.fromBlock
    | some cursor => cursor + 1 - reorgOverlap
  if start < targets.fromBlock then targets.fromBlock
  else start

def beginScan
    (targets : ScanTargets)
    (cursor : Option Int)
    (options : ScanOptions)
    (logHead : Int) : Scan :=
  let start := scanStart targets cursor
  let head :=
    if logHead < options.head then logHead else options.head
  { start := start
    chunk := options.chunkBlocks
    head := head
    maxChunks := options.maxChunks
    result :=
      { fromBlock := none
        toBlock := none
        ranges := 0
        logs := 0
        caughtUp := decide (start > head)
        chunkBlocks := options.chunkBlocks } }

/- Whether the loop goes on. -/
def Scan.more
    (scan : Scan) : Bool :=
  decide (scan.start ≤ scan.head) &&
    decide (scan.result.ranges < scan.maxChunks)

/- The last block of the next range. -/
def Scan.last
    (scan : Scan) : Int :=
  if scan.start + scan.chunk - 1 > scan.head then scan.head
  else scan.start + scan.chunk - 1

/- A complete answer: every log of the range, in order. -/
def getLogs
    (chain : Chain)
    (fromBlock toBlock : Int) : List DecodedLog :=
  (List.range (toBlock + 1 - fromBlock).toNat).flatMap
    (fun i : Nat => chain (fromBlock + (i : Int)))

/- The loop body on an answered range. -/
def Scan.scanned
    (scan : Scan)
    (logs : List DecodedLog) : Scan :=
  { scan with
    start := scan.last + 1
    result :=
      { scan.result with
        fromBlock :=
          match scan.result.fromBlock with
          | none => some scan.start
          | some block => some block
        toBlock := some scan.last
        ranges := scan.result.ranges + 1
        logs := scan.result.logs + logs.length } }

/- The loop body on a refused range that can be halved. -/
def Scan.halved
    (scan : Scan) : Scan :=
  { scan with
    chunk :=
      if scan.chunk.tdiv 2 < minChunk then minChunk
      else scan.chunk.tdiv 2 }

def Scan.finished
    (scan : Scan) : ScanResult :=
  { scan.result with
    caughtUp := decide (scan.start > scan.head)
    chunkBlocks := scan.chunk }

variable {chain : Chain}

theorem mem_getLogs
    {fromBlock toBlock block : Int}
    (hFrom : fromBlock ≤ block)
    (hTo : block ≤ toBlock)
    (hLog : log ∈ chain block) :
    log ∈ getLogs chain fromBlock toBlock := by
  refine List.mem_flatMap.mpr
    ⟨(block - fromBlock).toNat, ?_, ?_⟩
  · rw [List.mem_range]
    omega
  · have hBlock :
        fromBlock + ((block - fromBlock).toNat : Int) =
          block := by
      omega
    rw [hBlock]
    exact hLog

theorem block_of_mem_getLogs
    {fromBlock toBlock : Int}
    (h : log ∈ getLogs chain fromBlock toBlock) :
    ∃ block, log ∈ chain block := by
  rcases List.mem_flatMap.mp h with ⟨i, _, hLog⟩
  exact ⟨_, hLog⟩

theorem last_le_head
    (scan : Scan) :
    scan.last ≤ scan.head := by
  unfold Scan.last
  split <;> omega

/- One more iteration of the loop, either way. -/
inductive Scan.Next : Scan → Scan → Prop where
  | scanned
      (scan : Scan)
      (logs : List DecodedLog)
      (hMore : scan.more = true) :
      Scan.Next scan (scan.scanned logs)
  | halved
      (scan : Scan)
      (hMore : scan.more = true)
      (hChunk : minChunk < scan.chunk) :
      Scan.Next scan scan.halved

/-
  No call loops forever: an answer spends one of its ranges,
  and a refusal halves the range size down to its floor.
-/
theorem scan_wellFounded :
    WellFounded
      (fun scan' scan : Scan => Scan.Next scan scan') := by
  refine Subrelation.wf ?_
    (InvImage.wf
      (fun scan : Scan =>
        ((scan.maxChunks - scan.result.ranges).toNat,
          scan.chunk.toNat))
      (WellFounded.prod_lex Nat.lt_wfRel.wf Nat.lt_wfRel.wf))
  intro scan' scan hNext
  cases hNext with
  | scanned logs hMore =>
      simp only [Scan.more, Bool.and_eq_true,
        decide_eq_true_eq] at hMore
      apply Prod.Lex.left
      change
        (scan.maxChunks - (scan.result.ranges + 1)).toNat <
          (scan.maxChunks - scan.result.ranges).toNat
      omega
  | halved hMore hChunk =>
      have hFloor : minChunk = 100 := rfl
      have hHalf : scan.chunk.tdiv 2 = scan.chunk / 2 :=
        Int.tdiv_eq_ediv_of_nonneg (by omega)
      apply Prod.Lex.right
      change
        (if scan.chunk.tdiv 2 < minChunk then minChunk
          else scan.chunk.tdiv 2).toNat <
          scan.chunk.toNat
      rw [hHalf]
      split <;> omega

----
-- Calls, Crashes and Reorgs
----

/-
  The chain, the stored index and the running call, with a
  history: every log that was ever canonical, whether a reorg
  came since the running call began (`clean`), and whether
  one came since the call that applied the last range began
  (`fresh`).
-/
structure ScanState where
  chain : Chain
  index : CrankerIndex
  scan : Option Scan
  returned : Option ScanResult
  ever : DecodedLog → Prop
  clean : Bool
  fresh : Bool

def ScanState.Start
    (s : ScanState) : Prop :=
  s.index = CrankerIndex.empty ∧ s.scan = none ∧
    (∀ block, ∀ log ∈ s.chain block, s.ever log) ∧
    s.clean = true ∧ s.fresh = true

/-
  Blocks a reorg leaves alone: those more than the overlap
  below the stored cursor, and below the head of a running
  call.
-/
def ScanState.Settled
    (s : ScanState)
    (block : Int) : Prop :=
  (∃ cursor, s.index.scannedTo = some cursor ∧
      block ≤ cursor - reorgOverlap) ∨
    ∃ scan, s.scan = some scan ∧
      block ≤ scan.head - reorgOverlap

inductive ScanStep
    (targets : ScanTargets) :
    ScanState → ScanState → Prop where
  | called
      (s : ScanState)
      (options : ScanOptions)
      (logHead : Int)
      (hIdle : s.scan = none) :
      ScanStep targets s
        { s with
          scan :=
            some
              (beginScan targets s.index.scannedTo options
                logHead)
          clean := true }
  | scanned
      (s : ScanState)
      (scan : Scan)
      (hScan : s.scan = some scan)
      (hMore : scan.more = true) :
      ScanStep targets s
        { s with
          index :=
            applyRange s.index
              (rowsFromLogs targets
                (getLogs s.chain scan.start scan.last))
              scan.last
          scan :=
            some
              (scan.scanned
                (getLogs s.chain scan.start scan.last))
          fresh := s.clean }
  | halved
      (s : ScanState)
      (scan : Scan)
      (hScan : s.scan = some scan)
      (hMore : scan.more = true)
      (hChunk : minChunk < scan.chunk) :
      ScanStep targets s { s with scan := some scan.halved }
  | gaveUp
      (s : ScanState)
      (scan : Scan)
      (hScan : s.scan = some scan)
      (hMore : scan.more = true)
      (hChunk : scan.chunk ≤ minChunk) :
      ScanStep targets s
        { s with scan := none, returned := none }
  | finished
      (s : ScanState)
      (scan : Scan)
      (hScan : s.scan = some scan)
      (hDone : scan.more = false) :
      ScanStep targets s
        { s with
          scan := none
          returned := some scan.finished }
  | crashed
      (s : ScanState)
      (scan : Scan)
      (hScan : s.scan = some scan) :
      ScanStep targets s
        { s with scan := none, returned := none }
  | reorganised
      (s : ScanState)
      (chain : Chain)
      (hSettled :
        ∀ block, s.Settled block →
          chain block = s.chain block) :
      ScanStep targets s
        { s with
          chain := chain
          ever := fun log =>
            s.ever log ∨ ∃ block, log ∈ chain block
          clean := false
          fresh := false }

/- The rows of every log of a block have their keys there. -/
def ScanState.Covers
    (s : ScanState)
    (targets : ScanTargets)
    (block : Int) : Prop :=
  ∀ log ∈ s.chain block,
    s.index.HasKeys (rowsFromLogs targets [log])

/- The rows of a log that was canonical at some time. -/
def ScanState.Read
    (s : ScanState)
    (targets : ScanTargets)
    (rows : RangeRows) : Prop :=
  ∃ log, s.ever log ∧ rows = rowsFromLogs targets [log]

/- What holds whatever the process and the chain do. -/
structure ScanState.Sound
    (s : ScanState)
    (targets : ScanTargets) : Prop where
  ever : ∀ block, ∀ log ∈ s.chain block, s.ever log
  values : s.index.ValuesOf (s.Read targets)
  settled :
    ∀ cursor, s.index.scannedTo = some cursor →
      ∀ block, targets.fromBlock ≤ block →
        block ≤ cursor - reorgOverlap →
          s.Covers targets block
  fresh :
    s.fresh = true →
      ∀ cursor, s.index.scannedTo = some cursor →
        ∀ block, targets.fromBlock ≤ block →
          block ≤ cursor → s.Covers targets block
  behind :
    ∀ scan, s.scan = some scan →
      ∀ block, targets.fromBlock ≤ block →
        block < scan.start →
          s.clean = true ∨ s.Settled block →
            s.Covers targets block
  restart :
    ∀ scan, s.scan = some scan →
      ∀ cursor, s.index.scannedTo = some cursor →
        cursor + 1 - reorgOverlap ≤ scan.start
  applied :
    ∀ scan, s.scan = some scan →
      0 < scan.result.ranges → s.clean = true →
        s.fresh = true

variable {targets : ScanTargets} {s t : ScanState}

theorem ScanState.Start.sound
    (h : s.Start) :
    s.Sound targets := by
  rcases h with ⟨hIndex, hScan, hEver, _, _⟩
  have hCursor : s.index.scannedTo = none := by
    rw [hIndex]
    rfl
  exact
    { ever := hEver
      values := by
        rw [hIndex]
        exact
          { series := fun r hr => nomatch hr
            orders := fun r hr => nomatch hr }
      settled := fun cursor h => by
        rw [hCursor] at h
        cases h
      fresh := fun _ cursor h => by
        rw [hCursor] at h
        cases h
      behind := fun scan h => by
        rw [hScan] at h
        cases h
      restart := fun scan h => by
        rw [hScan] at h
        cases h
      applied := fun scan h => by
        rw [hScan] at h
        cases h }

/- Ending a call in any way leaves chain and index alone. -/
theorem ScanState.Sound.ended
    (h : s.Sound targets)
    (returned : Option ScanResult) :
    ScanState.Sound
      { s with scan := none, returned := returned }
      targets where
  ever := h.ever
  values := h.values
  settled := h.settled
  fresh := h.fresh
  behind := fun _ hScan => nomatch hScan
  restart := fun _ hScan => nomatch hScan
  applied := fun _ hScan => nomatch hScan

theorem ScanState.Sound.called
    (h : s.Sound targets)
    (options : ScanOptions)
    (logHead : Int) :
    ScanState.Sound
      { s with
        scan :=
          some
            (beginScan targets s.index.scannedTo options
              logHead)
        clean := true }
      targets where
  ever := h.ever
  values := h.values
  settled := h.settled
  fresh := h.fresh
  behind := by
    intro scan hScan block hFrom hBehind _
    cases hScan
    simp only [beginScan, scanStart] at hBehind
    cases hCursor : s.index.scannedTo with
    | none =>
        rw [hCursor] at hBehind
        simp only at hBehind
        split at hBehind <;> omega
    | some cursor =>
        rw [hCursor] at hBehind
        simp only at hBehind
        apply h.settled cursor hCursor block hFrom
        split at hBehind <;> omega
  restart := by
    intro scan hScan cursor hCursor
    cases hScan
    have hCursor' : s.index.scannedTo = some cursor := hCursor
    simp only [beginScan, scanStart, hCursor']
    split <;> omega
  applied := by
    intro scan hScan hRanges
    cases hScan
    simp [beginScan] at hRanges

theorem Covers.applyRange
    {block : Int}
    (h : s.Covers targets block)
    (rows : RangeRows)
    (toBlock : Int)
    (scan : Option Scan)
    (fresh : Bool) :
    ScanState.Covers
      { s with
        index := Cranker.applyRange s.index rows toBlock
        scan := scan
        fresh := fresh }
      targets block :=
  fun log hLog => (h log hLog).applyRange rows toBlock

section

variable (h : s.Sound targets)
include h

theorem ScanState.Sound.scanned
    {scan : Scan}
    (hScan : s.scan = some scan) :
    ScanState.Sound
      { s with
        index :=
          applyRange s.index
            (rowsFromLogs targets
              (getLogs s.chain scan.start scan.last))
            scan.last
        scan :=
          some
            (scan.scanned
              (getLogs s.chain scan.start scan.last))
        fresh := s.clean }
      targets := by
  have hHead := last_le_head scan
  -- Old coverage stays, and the range itself is covered now.
  have hCovered :
      ∀ block, targets.fromBlock ≤ block →
        block ≤ scan.last →
          s.clean = true ∨
              block ≤ scan.head - reorgOverlap →
            ScanState.Covers
              { s with
                index :=
                  applyRange s.index
                    (rowsFromLogs targets
                      (getLogs s.chain scan.start
                        scan.last))
                    scan.last
                scan :=
                  some
                    (scan.scanned
                      (getLogs s.chain scan.start
                        scan.last))
                fresh := s.clean }
              targets block := by
    intro block hFrom hLast hKept
    rcases lt_or_ge block scan.start with hBefore | hInside
    · apply Covers.applyRange
      apply h.behind scan hScan block hFrom hBefore
      rcases hKept with hClean | hDeep
      · exact .inl hClean
      · exact .inr (.inr ⟨scan, hScan, hDeep⟩)
    · intro log hLog
      exact (applyRange_keys _ _ _).of_mem
        (mem_getLogs hInside hLast hLog)
  exact
    { ever := h.ever
      values := by
        apply CrankerIndex.ValuesOf.of_range
        · apply applyRange_values
          · exact h.values.mono (fun rows hRead => .inl hRead)
          · exact .inr rfl
        · intro log hLog
          rcases block_of_mem_getLogs hLog with
            ⟨block, hIn⟩
          exact ⟨log, h.ever block log hIn, rfl⟩
      settled := by
        intro cursor hCursor block hFrom hDeep
        cases hCursor
        have hOverlap : reorgOverlap = 100 := rfl
        exact hCovered block hFrom (by omega)
          (.inr (by omega))
      fresh := by
        intro hClean cursor hCursor block hFrom hLe
        cases hCursor
        exact hCovered block hFrom hLe (.inl hClean)
      behind := by
        intro scan' hScan' block hFrom hBehind hKept
        cases hScan'
        simp only [Scan.scanned] at hBehind
        apply hCovered block hFrom (by omega)
        rcases hKept with hClean | hSettled
        · exact .inl hClean
        · right
          rcases hSettled with
            ⟨cursor, hCursor, hDeep⟩ | ⟨scan', hScan', hDeep⟩
          · cases hCursor
            omega
          · cases hScan'
            exact hDeep
      restart := by
        intro scan' hScan' cursor hCursor
        cases hScan'
        cases hCursor
        have hOverlap : reorgOverlap = 100 := rfl
        simp only [Scan.scanned]
        omega
      applied := fun _ _ _ hClean => hClean }

theorem ScanState.Sound.halved
    {scan : Scan}
    (hScan : s.scan = some scan) :
    ScanState.Sound
      { s with scan := some scan.halved } targets where
  ever := h.ever
  values := h.values
  settled := h.settled
  fresh := h.fresh
  behind := by
    intro scan' hScan' block hFrom hBehind hKept
    cases hScan'
    apply h.behind scan hScan block hFrom hBehind
    rcases hKept with hClean | hCursor | hHead
    · exact .inl hClean
    · exact .inr (.inl hCursor)
    · rcases hHead with ⟨scan', hScan', hDeep⟩
      cases hScan'
      exact .inr (.inr ⟨scan, hScan, hDeep⟩)
  restart := by
    intro scan' hScan' cursor hCursor
    cases hScan'
    exact h.restart scan hScan cursor hCursor
  applied := by
    intro scan' hScan' hRanges hClean
    cases hScan'
    exact h.applied scan hScan hRanges hClean

/- A reorg spares what is settled, and marks the rest. -/
theorem ScanState.Sound.reorganised
    (hSettled :
      ∀ block, s.Settled block →
        chain block = s.chain block) :
    ScanState.Sound
      { s with
        chain := chain
        ever := fun log =>
          s.ever log ∨ ∃ block, log ∈ chain block
        clean := false
        fresh := false }
      targets where
  ever := fun block log hLog => .inr ⟨block, hLog⟩
  values := by
    apply h.values.mono
    rintro rows ⟨log, hEver, hRows⟩
    exact ⟨log, .inl hEver, hRows⟩
  settled := by
    intro cursor hCursor block hFrom hDeep log hLog
    have hSame := hSettled block (.inl ⟨cursor, hCursor, hDeep⟩)
    have hLog' : log ∈ chain block := hLog
    rw [hSame] at hLog'
    exact h.settled cursor hCursor block hFrom hDeep log hLog'
  fresh := fun hFalse => nomatch hFalse
  behind := by
    intro scan hScan block hFrom hBehind hKept log hLog
    rcases hKept with hFalse | hDeep
    · cases hFalse
    · have hLog' : log ∈ chain block := hLog
      rw [hSettled block hDeep] at hLog'
      exact h.behind scan hScan block hFrom hBehind
        (.inr hDeep) log hLog'
  restart := h.restart
  applied := fun _ _ _ hFalse => nomatch hFalse

theorem ScanState.Sound.step
    (hStep : ScanStep targets s t) :
    t.Sound targets := by
  cases hStep with
  | called options logHead hIdle =>
      exact h.called options logHead
  | scanned scan hScan hMore => exact h.scanned hScan
  | halved scan hScan hMore hChunk => exact h.halved hScan
  | gaveUp scan hScan hMore hChunk => exact h.ended none
  | finished scan hScan hDone => exact h.ended _
  | crashed scan hScan => exact h.ended none
  | reorganised chain hSettled =>
      exact h.reorganised hSettled

end

theorem sound_of_reachable
    (h :
      Transition.Reachable ScanState.Start
        (ScanStep targets) s) :
    s.Sound targets :=
  Transition.invariant (fun s => s.Sound targets)
    (fun _ hStart => hStart.sound)
    (fun _ _ hSound hStep => hSound.step hStep) h

/- Every canonical log up to the cursor has its row. -/
def ScanState.NoGap
    (s : ScanState)
    (targets : ScanTargets) : Prop :=
  ∀ cursor, s.index.scannedTo = some cursor →
    ∀ block, targets.fromBlock ≤ block → block ≤ cursor →
      s.Covers targets block

/-
  The index is complete below the overlap in every state,
  and up to its cursor from the moment a call that no reorg
  interrupts has applied a range, until the next reorg.  Its
  rows are rows of canonical logs, and every call ends.
-/
theorem scan_complete
    (targets : ScanTargets) :
    (∀ s,
        Transition.Reachable ScanState.Start
            (ScanStep targets) s →
          (∀ cursor, s.index.scannedTo = some cursor →
              ∀ block, targets.fromBlock ≤ block →
                block ≤ cursor - reorgOverlap →
                  s.Covers targets block) ∧
            (s.fresh = true → s.NoGap targets) ∧
            s.index.ValuesOf (s.Read targets)) ∧
      (∀ s t scan,
        Transition.Reachable ScanState.Start
            (ScanStep targets) s →
          ScanStep targets s t →
            s.scan = some scan → t.scan = none →
              s.clean = true → 0 < scan.result.ranges →
                t.NoGap targets) ∧
      WellFounded
        (fun scan' scan : Scan => Scan.Next scan scan') := by
  refine ⟨?_, ?_, scan_wellFounded⟩
  · intro s hReachable
    have hSound := sound_of_reachable hReachable
    exact ⟨hSound.settled, hSound.fresh, hSound.values⟩
  · intro s t scan hReachable hStep hScan hEnded hClean
      hRanges
    have hSound := sound_of_reachable hReachable
    have hFresh := hSound.applied scan hScan hRanges hClean
    have hGap : s.NoGap targets := hSound.fresh hFresh
    cases hStep with
    | called options logHead hIdle => cases hEnded
    | scanned scan' hScan' hMore => cases hEnded
    | halved scan' hScan' hMore hChunk => cases hEnded
    | gaveUp scan' hScan' hMore hChunk => exact hGap
    | finished scan' hScan' hDone => exact hGap
    | crashed scan' hScan' => exact hGap
    | reorganised chain hSettled =>
        have hEnded' : s.scan = none := hEnded
        rw [hScan] at hEnded'
        cases hEnded'

/- One block range to five, and an order placed in block 5. -/
def fiveBlocks : ScanOptions :=
  { head := 5
    chunkBlocks := 100
    maxChunks := 1 }

def placedTargets : ScanTargets :=
  { clearinghouse := "0xc"
    orderBook := "0xb"
    autoRoller := none
    fromBlock := 0 }

def placedOrder : IndexedOrder :=
  { orderId := 1
    longId := 1
    maker := "0xa"
    kind := 0
    validUntil := 0 }

def placedLog : DecodedLog :=
  { address := "0xb"
    event := .OrderPlaced placedOrder }

def emptyChain : ScanState :=
  { chain := fun _ => []
    index := CrankerIndex.empty
    scan := none
    returned := none
    ever := fun _ => False
    clean := true
    fresh := true }

/-
  The call after a reorg is refused: it ends with the new log
  of block 5 unread, below a cursor that stays at 5.
-/
theorem refused_scan_leaves_gap :
    ∃ targets s t,
      Transition.Reachable ScanState.Start
          (ScanStep targets) s ∧
        ScanStep targets s t ∧ s.scan.isSome ∧
        t.scan = none ∧ ¬ t.NoGap targets := by
  have hStart : emptyChain.Start :=
    ⟨rfl, rfl, by simp [emptyChain], rfl, rfl⟩
  have hRead :=
    (((Transition.Reachable.init hStart).step
      (@ScanStep.called placedTargets _ fiveBlocks 5
        rfl)).step
      (ScanStep.scanned _ _ rfl (by decide))).step
      (ScanStep.finished _ _ rfl (by decide))
  have hReorg :=
    hRead.step
      (ScanStep.reorganised _
        (fun block => if block = 5 then [placedLog] else [])
        (by
          intro block hSettled
          rcases hSettled with
            ⟨cursor, hCursor, hDeep⟩ | ⟨scan, hScan, _⟩
          · cases hCursor
            change
              block ≤
                (beginScan placedTargets none fiveBlocks
                    5).last -
                  reorgOverlap at hDeep
            have hLast :
                (beginScan placedTargets none fiveBlocks
                  5).last = 5 := by
              decide
            have hOverlap : reorgOverlap = 100 := rfl
            rw [if_neg (by omega)]
            rfl
          · cases hScan))
  have hCalled := hReorg.step (ScanStep.called _ fiveBlocks 5 rfl)
  refine
    ⟨placedTargets, _, _, hCalled,
      ScanStep.gaveUp _ _ rfl (by decide) (by decide), rfl,
      rfl, ?_⟩
  intro hNoGap
  have hKeys :=
    hNoGap 5 rfl 5 (by decide) (by decide) placedLog (by simp)
  have hRow :
      placedOrder ∈
        (rowsFromLogs placedTargets [placedLog]).orders := by
    decide +kernel
  rcases hKeys.orders placedOrder hRow with ⟨r, hr, _⟩
  cases hr

end Callhouse.Keeper.Cranker
