import Callhouse.Keeper.Cranker.ExpiryPlan

/-
  keeper/src/v2/cranker/reads.ts and steps.ts, stepRedeem: a
  survey of the expiries at one head, the redeem batches, and
  which expiries are marked done.

  Main declarations:
    * `HeadView`, `surveyExpiries`
    * `stepRedeem`
    * `readSeriesOrders_complete`
    * `stepRedeem_done`
-/

----
-- The Chain at One Head
----

namespace Callhouse.Keeper.Cranker

structure SeriesChain where
  longId : Int
  underlying : String
  isPut : Bool
  expiry : Int
  oracle : String
  settled : Bool
  longPayoutPerUnit : Int
  shortPayoutPerUnit : Int
  longSupply : Int
  shortSupply : Int
deriving DecidableEq

/- The short id is the long one with its low bit set. -/
def shortIdOf
    (longId : Int) : Int :=
  if longId % 2 = 0 then longId + 1 else longId

/- What the contracts answer at a block, by lower-case key. -/
structure HeadView where
  blockNumber : Int
  timestamp : Int
  series : List SeriesChain
  createdAt : Int → Int
  orderIds : Int → List Int
  order : Int → OrderView
  holders : Int → List String
  balance : Int → String → Int
  thirdPartyRedeemAllowed : String → Bool
  isOperator : String → String → Bool
  inKind : String → Bool
  status : ExpiryKey → SettlementStatusName
  openInterest : ExpiryKey → Int

def SeriesChain.key
    (s : SeriesChain) : ExpiryKey :=
  expiryKeyString
    { oracle := s.oracle
      underlying := s.underlying
      expiry := s.expiry }

def SeriesChain.tokenId
    (s : SeriesChain)
    (isLong : Bool) : Int :=
  if isLong then s.longId else shortIdOf s.longId

def SeriesChain.supply
    (s : SeriesChain)
    (isLong : Bool) : Int :=
  if isLong then s.longSupply else s.shortSupply

def SeriesChain.perUnitPayout
    (s : SeriesChain)
    (isLong : Bool) : Int :=
  if isLong then s.longPayoutPerUnit else s.shortPayoutPerUnit

def HeadView.readSeries
    (v : HeadView)
    (longId : Int) : Option SeriesChain :=
  v.series.find? (fun s => s.longId = longId)

/- A page of the ids placed on a series, and the next cursor. -/
def HeadView.ordersOfSeries
    (v : HeadView)
    (longId : Int)
    (cursor limit : Nat) : List Int × Nat :=
  (((v.orderIds longId).drop cursor).take limit,
    if cursor + limit < (v.orderIds longId).length then
      cursor + limit
    else 0)

def HeadView.mayRedeem
    (v : HeadView)
    (holder caller : String) : Bool :=
  decide (lc holder = lc caller) ||
    v.thirdPartyRedeemAllowed (lc holder) ||
    v.isOperator (lc holder) (lc caller)

def HeadView.readHolder
    (v : HeadView)
    (tokenId : Int)
    (caller holder : String) : HolderView :=
  { holder := holder
    balance := v.balance tokenId (lc holder)
    thirdPartyAllowed := v.mayRedeem holder caller
    inKind := v.inKind (lc holder) }

def HeadView.readOrder
    (v : HeadView)
    (id : Int) : OrderView :=
  { v.order id with id := id }

/- What the contracts keep at every block. -/
structure HeadView.WellFormed
    (v : HeadView) : Prop where
  longIds : (v.series.map (fun s => s.longId)).Nodup
  nonneg : ∀ tokenId holder, 0 ≤ v.balance tokenId holder
  listed :
    ∀ tokenId holder,
      holder ∉ v.holders tokenId → v.balance tokenId holder = 0
  distinct : ∀ tokenId, (v.holders tokenId).Nodup
  lower :
    ∀ tokenId, ∀ holder ∈ v.holders tokenId, lc holder = holder
  supply :
    ∀ s ∈ v.series, ∀ isLong,
      s.supply isLong =
        ((v.holders (s.tokenId isLong)).map
          (v.balance (s.tokenId isLong))).sum
  paired :
    ∀ s ∈ v.series, s.settled = false →
      s.shortSupply = s.longSupply

----
-- The Orders of a Series
----

/- Most order ids read per series per survey. -/
def maxSeriesOrderIds : Nat := 20000

def orderPage : Nat := 200

/- The ids of at most `rounds` pages, and whether more are left. -/
def readPages
    (v : HeadView)
    (longId : Int) : Nat → Nat → List Int × Bool
  | 0, _ => ([], true)
  | rounds + 1, cursor =>
      let page := v.ordersOfSeries longId cursor orderPage
      if page.2 = 0 then (page.1, false)
      else
        let more := readPages v longId rounds page.2
        (page.1 ++ more.1, more.2)

structure SeriesOrders where
  orders : List OrderView
  truncated : Bool
deriving DecidableEq

def readSeriesOrders
    (v : HeadView)
    (longId : Int) : SeriesOrders :=
  let count := (v.orderIds longId).length
  let cursor :=
    if count > maxSeriesOrderIds then count - maxSeriesOrderIds
    else 0
  let pages :=
    readPages v longId (maxSeriesOrderIds / orderPage) cursor
  { orders := pages.1.map v.readOrder
    truncated := decide (count > maxSeriesOrderIds) || pages.2 }

theorem readPages_complete
    (v : HeadView)
    (longId : Int)
    (rounds cursor : Nat)
    (h : (readPages v longId rounds cursor).2 = false) :
    (readPages v longId rounds cursor).1 =
      (v.orderIds longId).drop cursor := by
  induction rounds generalizing cursor with
  | zero => cases h
  | succ rounds ih =>
      have hPage : 0 < orderPage := by decide
      unfold readPages at h ⊢
      unfold HeadView.ordersOfSeries at h ⊢
      simp only at h ⊢
      by_cases hMore :
        cursor + orderPage < (v.orderIds longId).length
      · rw [if_pos hMore] at h ⊢
        have hNext : cursor + orderPage ≠ 0 := by omega
        rw [if_neg hNext] at h ⊢
        simp only at h ⊢
        rw [ih _ h, ← List.drop_drop, List.take_append_drop]
      · rw [if_neg hMore, if_pos rfl]
        simp only
        apply List.take_of_length_le
        rw [List.length_drop]
        omega

variable {v : HeadView}

/- A series whose orders are not truncated has them all read. -/
theorem readSeriesOrders_complete
    {longId : Int}
    (h : (readSeriesOrders v longId).truncated = false)
    {id : Int}
    (hId : id ∈ v.orderIds longId) :
    v.readOrder id ∈ (readSeriesOrders v longId).orders := by
  unfold readSeriesOrders at h ⊢
  simp only at h ⊢
  rw [Bool.or_eq_false_iff, decide_eq_false_iff_not] at h
  rw [readPages_complete v longId _ _ h.2, if_neg h.1,
    List.drop_zero]
  exact List.mem_map_of_mem hId

/- The prunable orders without those the book skips for good. -/
def prunableHere
    (unprunable : List Int)
    (orders : List OrderView)
    (now : Int) : List OrderView :=
  (prunableOrders orders now).filter
    (fun o => o.id ∉ unprunable)

----
-- The Survey
----

/- The row a series is stored under. -/
def IndexedSeries.key
    (s : IndexedSeries) : ExpiryKey :=
  { oracle := s.oracle
    underlying := s.underlying
    expiry := s.expiry }

def seriesBefore
    (a b : SeriesRow) : Prop :=
  a.series.isPut < b.series.isPut ∨
    a.series.isPut = b.series.isPut ∧
      (a.series.strike < b.series.strike ∨
        a.series.strike = b.series.strike ∧
          ¬ toString b.series.longId < toString a.series.longId)

instance : DecidableRel seriesBefore :=
  fun a b =>
    inferInstanceAs
      (Decidable
        (a.series.isPut < b.series.isPut ∨
          a.series.isPut = b.series.isPut ∧
            (a.series.strike < b.series.strike ∨
              a.series.strike = b.series.strike ∧
                ¬ toString b.series.longId <
                  toString a.series.longId)))

def CrankerIndex.seriesOf
    (index : CrankerIndex)
    (k : ExpiryKey) : List SeriesRow :=
  (index.series.filter
    (fun r => r.series.key = expiryKeyString k)).insertionSort
      seriesBefore

/- Distinct expiries of every indexed series, oldest first. -/
def CrankerIndex.expiries
    (index : CrankerIndex) : List ExpiryKey :=
  ((index.series.map (fun r => r.series.key)).dedup).insertionSort
    (fun a b => a.expiry ≤ b.expiry)

def CrankerIndex.holdersOf
    (index : CrankerIndex)
    (tokenId : Int) : List String :=
  ((index.holders.filter (fun h => h.tokenId = tokenId)).map
    (fun h => h.holder)).insertionSort (fun a b => ¬ b < a)

/- What the tick holds besides the chain. -/
structure SurveyContext where
  index : CrankerIndex
  unprunable : List Int
  houseBoundary : ExpiryKey → Bool

structure ExpirySurvey where
  key : ExpiryKey
  view : ExpiryView
  series : List SeriesChain
deriving DecidableEq

def seriesView
    (ctx : SurveyContext)
    (v : HeadView)
    (expired : Bool)
    (s : SeriesChain) : SeriesView :=
  let read :=
    if expired then readSeriesOrders v s.longId
    else { orders := [], truncated := false }
  { longId := s.longId
    settled := s.settled
    longSupply := s.longSupply
    shortSupply := s.shortSupply
    prunableOrders :=
      (prunableHere ctx.unprunable read.orders v.timestamp).length +
        (if read.truncated then 1 else 0) }

/- A series of the index that the chain does not answer throws. -/
def surveyExpiry
    (ctx : SurveyContext)
    (v : HeadView)
    (k : ExpiryKey) : Option ExpirySurvey := do
  let series ←
    (ctx.index.seriesOf k).mapM
      (fun r => v.readSeries r.series.longId)
  return {
    key := k
    view :=
      { expiry := k.expiry
        now := v.timestamp
        openInterest := v.openInterest (expiryKeyString k)
        status := v.status (expiryKeyString k)
        series :=
          series.map
            (seriesView ctx v
              (decide (v.timestamp ≥ k.expiry)))
        houseBoundary := ctx.houseBoundary k }
    series := series }

def surveyExpiries
    (ctx : SurveyContext)
    (v : HeadView)
    (keys : List ExpiryKey) : Option (List ExpirySurvey) :=
  keys.mapM (surveyExpiry ctx v)

----
-- The Redeem Step
----

/-
  What a send comes back with: mined, with the balances read
  at its block when that read succeeds; or simulated short, or
  out of gas without a reason; or anything else, with or
  without a transaction spent.
-/
inductive CrankOutcome where
  | confirmed (after : Option (String → Int))
  | wouldSend
  | noOp
  | outOfGas
  | spent
  | unspent

def CrankOutcome.spends : CrankOutcome → Bool
  | .confirmed _ => true
  | .wouldSend => true
  | .spent => true
  | _ => false

def CrankOutcome.fellShort : CrankOutcome → Bool
  | .noOp => true
  | .outOfGas => true
  | _ => false

structure RedeemConfig where
  dryRun : Bool
  account : String
  maxTxPerStep : Int
  txGasCap : Int
  zeroPayoutMaxGasPriceWei : Int

/-
  One redeem step and what it meets: the nth time it asks
  whether to yield, its nth send, its nth indexer call. Only a
  dry run answers a send without one.
-/
structure RedeemInput where
  config : RedeemConfig
  ctx : SurveyContext
  keys : List ExpiryKey
  head : HeadView
  payoutAdapter : Option String
  gasPrice : Int
  indexer : Option (Nat → Int → Bool → Option (List String))
  yieldWhen : Nat → Bool
  execute : Nat → Int → GasChunk HolderView → CrankOutcome
  live :
    config.dryRun = false →
      ∀ n tokenId chunk, execute n tokenId chunk ≠ .wouldSend

def redeemInKindEach : Int := 180000

def redeemConvertEach : Int := 450000

def redeemConvertReserve : Int := 1600000

def redeemBase : Int := 60000

structure RedeemToken where
  isLong : Bool
  isPut : Bool
  perUnitPayout : Int
  adapterSet : Bool
deriving DecidableEq

def redeemConverts
    (holder : HolderView)
    (token : RedeemToken) : Bool :=
  token.isLong && !token.isPut &&
    decide (token.perUnitPayout > 0) && token.adapterSet &&
      !holder.inKind

def redeemGasOf
    (holder : HolderView)
    (token : RedeemToken) : Int :=
  if redeemConverts holder token then redeemConvertEach
  else redeemInKindEach

def redeemBaseGas
    (holders : List HolderView)
    (token : RedeemToken) : Int :=
  if holders.any (fun h => redeemConverts h token) then
    redeemBase + redeemConvertReserve
  else redeemBase

def RedeemInput.burnZero
    (input : RedeemInput) : Bool :=
  decide (input.config.zeroPayoutMaxGasPriceWei > 0) &&
    decide
      (input.gasPrice ≤ input.config.zeroPayoutMaxGasPriceWei)

def RedeemInput.adapterSet
    (input : RedeemInput) : Bool :=
  match input.payoutAdapter with
  | none => false
  | some adapter => decide (lc adapter ≠ zeroAddress)

/- A candidate replaces one that differs in case only. -/
def mergeHolder
    (merged : List String)
    (a : String) : List String :=
  if merged.any (fun x => lc x = lc a) then
    merged.map (fun x => if lc x = lc a then a else x)
  else merged ++ [a]

/- How far the step has got: calls made, and the budget used. -/
structure StepProgress where
  asked : Nat
  sent : Nat
  used : Int
  indexerCalls : Nat
  indexerDown : Bool
deriving DecidableEq

def StepProgress.start : StepProgress :=
  { asked := 0
    sent := 0
    used := 0
    indexerCalls := 0
    indexerDown := false }

def holderCandidates
    (input : RedeemInput)
    (progress : StepProgress)
    (tokenId longId : Int)
    (isLong : Bool) : List String × StepProgress :=
  let fromLogs :=
    (input.ctx.index.holdersOf tokenId).foldl mergeHolder []
  match input.indexer with
  | none => (fromLogs, progress)
  | some indexer =>
      if progress.indexerDown then (fromLogs, progress)
      else
        match indexer progress.indexerCalls longId isLong with
        | none =>
            (fromLogs,
              { progress with
                indexerCalls := progress.indexerCalls + 1
                indexerDown := true })
        | some items =>
            (items.foldl mergeHolder fromLogs,
              { progress with
                indexerCalls := progress.indexerCalls + 1 })

/- A batch's holders that still hold the token at its block. -/
def stillHeldAtBlock
    (holders : List HolderView) :
    Option (String → Int) → List HolderView
  | none => holders
  | some after =>
      holders.filter
        (fun h => decide (after (lc h.holder) > 0))

/- Tallies of one token; `cleared` are the holders it emptied. -/
structure TokenResult where
  progress : StepProgress
  redeemed : Int
  skipped : Int
  cleared : List HolderView
deriving DecidableEq

/- Splitting a chunk, or giving it the cap, lowers its weight. -/
def chunkWeight
    (cap : Int)
    (c : GasChunk HolderView) : Nat :=
  if c.items.length = 0 then 1
  else if c.items.length = 1 ∧ cap ≤ c.gas then 1
  else 3 * c.items.length - 1

def queueWeight
    (cap : Int)
    (queue : List (GasChunk HolderView)) : Nat :=
  (queue.map (chunkWeight cap)).sum

theorem chunkWeight_pos
    (cap : Int)
    (c : GasChunk HolderView) :
    0 < chunkWeight cap c := by
  unfold chunkWeight
  split
  · decide
  · split
    · decide
    · omega

theorem splitChunk_weight
    (cap : Int)
    (c : GasChunk HolderView)
    (h : c.items.length > 1 ∨ c.gas < cap) :
    queueWeight cap (splitChunk c cap) < chunkWeight cap c := by
  have hHalf :
      ∀ (items : List HolderView) (gas : Int),
        0 < items.length →
          chunkWeight cap { items := items, gas := gas } ≤
            3 * items.length - 1 := by
    intro items gas hLength
    unfold chunkWeight
    split
    · next hZero =>
        simp only at hZero
        omega
    · split
      · next hOne =>
          simp only at hOne
          omega
      · exact le_refl _
  unfold splitChunk
  simp only
  split
  · exact chunkWeight_pos cap c
  · split
    · next hOne =>
        have hGas : c.gas < cap := by omega
        have hCap : ¬ cap ≤ c.gas := by omega
        simp [queueWeight, chunkWeight, hOne, hCap]
    · next hZero hOne =>
        have hFirst :=
          hHalf (c.items.take ((c.items.length + 1) / 2))
            (if c.gas > cap then cap else c.gas)
            (by rw [List.length_take]; omega)
        have hSecond :=
          hHalf (c.items.drop ((c.items.length + 1) / 2))
            (if c.gas > cap then cap else c.gas)
            (by rw [List.length_drop]; omega)
        have hWhole :
            chunkWeight cap c = 3 * c.items.length - 1 := by
          unfold chunkWeight
          rw [if_neg hZero, if_neg (fun hBoth => hOne hBoth.1)]
        rw [List.length_take] at hFirst
        rw [List.length_drop] at hSecond
        rw [hWhole]
        simp only [queueWeight, List.map_cons, List.map_nil,
          List.sum_cons, List.sum_nil]
        omega

theorem queueWeight_cons
    (cap : Int)
    (c : GasChunk HolderView)
    (queue : List (GasChunk HolderView)) :
    queueWeight cap (c :: queue) =
      chunkWeight cap c + queueWeight cap queue := by
  unfold queueWeight
  rw [List.map_cons, List.sum_cons]

theorem queueWeight_append
    (cap : Int)
    (xs ys : List (GasChunk HolderView)) :
    queueWeight cap (xs ++ ys) =
      queueWeight cap xs + queueWeight cap ys := by
  unfold queueWeight
  rw [List.map_append, List.sum_append]

/- One send of a token, and the chunks it puts back. -/
def redeemChunk
    (input : RedeemInput)
    (tokenId : Int)
    (chunk : GasChunk HolderView)
    (result : TokenResult) :
    TokenResult × List (GasChunk HolderView) :=
  let cap := input.config.txGasCap
  let outcome :=
    input.execute result.progress.sent tokenId chunk
  let progress :=
    { result.progress with
      sent := result.progress.sent + 1
      used :=
        result.progress.used + (if outcome.spends then 1 else 0) }
  match outcome with
  | .confirmed after =>
      let left := stillHeldAtBlock chunk.items after
      ({ progress := progress
         redeemed :=
           result.redeemed + (chunk.items.length - left.length)
         skipped := result.skipped
         cleared :=
           result.cleared ++
             chunk.items.filter (fun h => h ∉ left) },
        [])
  | .wouldSend =>
      ({ result with
         progress := progress
         redeemed := result.redeemed + chunk.items.length },
        [])
  | _ =>
      if outcome.fellShort = false then
        ({ result with progress := progress }, [])
      else if chunk.items.length > 1 ∨ chunk.gas < cap then
        ({ result with progress := progress },
          splitChunk chunk cap)
      else
        ({ result with
           progress := progress
           skipped := result.skipped + 1 },
          [])

theorem redeemChunk_weight
    (input : RedeemInput)
    (tokenId : Int)
    (chunk : GasChunk HolderView)
    (result : TokenResult) :
    queueWeight input.config.txGasCap
        (redeemChunk input tokenId chunk result).2 <
      chunkWeight input.config.txGasCap chunk := by
  have hNone := chunkWeight_pos input.config.txGasCap chunk
  unfold redeemChunk
  simp only
  split
  · exact hNone
  · exact hNone
  · split
    · exact hNone
    · split
      · next hSplit => exact splitChunk_weight _ _ hSplit
      · exact hNone

/- Whether the step may send, asked before every send. -/
def RedeemInput.budgetLeft
    (input : RedeemInput)
    (progress : StepProgress) : Bool :=
  decide (progress.used < input.config.maxTxPerStep) &&
    !input.yieldWhen progress.asked

def StepProgress.ask
    (progress : StepProgress) : StepProgress :=
  { progress with asked := progress.asked + 1 }

/- The redeemBatch sends of one token. -/
def redeemQueue
    (input : RedeemInput)
    (tokenId : Int)
    (queue : List (GasChunk HolderView))
    (result : TokenResult) : TokenResult :=
  match queue with
  | [] => result
  | chunk :: rest =>
      let asked :=
        { result with progress := result.progress.ask }
      if input.budgetLeft result.progress then
        let sent := redeemChunk input tokenId chunk asked
        redeemQueue input tokenId (sent.2 ++ rest) sent.1
      else asked
termination_by queueWeight input.config.txGasCap queue
decreasing_by
  rw [queueWeight_cons, queueWeight_append]
  exact Nat.add_lt_add_right (redeemChunk_weight _ _ _ _) _

/- One side of a settled series of a survey. -/
structure StepToken where
  survey : ExpirySurvey
  series : SeriesChain
  isLong : Bool
deriving DecidableEq

/-
  What the step carries from token to token: per expiry, what
  remains of each; and the holders its batches emptied.
-/
structure StepState where
  progress : StepProgress
  remaining : List (ExpiryKey × Int)
  cleared : List (Int × String)
deriving DecidableEq

def StepState.start : StepState :=
  { progress := .start
    remaining := []
    cleared := [] }

def StepState.remainingOf
    (state : StepState)
    (key : ExpiryKey) : Int :=
  ((state.remaining.filter (fun r => r.1 = key)).map
    (fun r => r.2)).sum

/- The holders read, those to redeem, and the units unseen. -/
structure TokenRead where
  selection : List HolderView
  unaccounted : Int
  progress : StepProgress
deriving DecidableEq

def readToken
    (input : RedeemInput)
    (progress : StepProgress)
    (token : StepToken) : TokenRead :=
  let tokenId := token.series.tokenId token.isLong
  let supply := token.series.supply token.isLong
  let candidates :=
    holderCandidates input progress tokenId
      token.series.longId token.isLong
  let views :=
    candidates.1.map
      (input.head.readHolder tokenId input.config.account)
  let selection :=
    selectRedeemable views
      { perUnitPayout := token.series.perUnitPayout token.isLong
        burnZero := input.burnZero }
  let known := (views.map (fun v => v.balance)).sum
  { selection := selection.redeem
    unaccounted := if supply > known then supply - known else 0
    progress := candidates.2 }

def sendToken
    (input : RedeemInput)
    (read : TokenRead)
    (token : StepToken) : TokenResult :=
  let redeemToken :=
    { isLong := token.isLong
      isPut := token.series.isPut
      perUnitPayout := token.series.perUnitPayout token.isLong
      adapterSet := input.adapterSet }
  redeemQueue input (token.series.tokenId token.isLong)
    (chunkByGas read.selection
      { gasOf := fun h => redeemGasOf h redeemToken
        baseGas := redeemBaseGas read.selection redeemToken
        capGas := input.config.txGasCap
        maxItems := 200 })
    { progress := read.progress
      redeemed := 0
      skipped := 0
      cleared := [] }

def redeemToken
    (input : RedeemInput)
    (state : StepState)
    (token : StepToken) : StepState :=
  if token.series.supply token.isLong = 0 then state
  else
    let read := readToken input state.progress token
    let result := sendToken input read token
    let remaining :=
      (read.selection.length : Int) - result.redeemed -
        result.skipped
    { progress := result.progress
      remaining :=
        state.remaining ++
          [(token.survey.key,
            remaining + result.skipped +
              (if read.unaccounted > 0 then 1 else 0))]
      cleared :=
        state.cleared ++
          result.cleared.map (fun h =>
            (token.series.tokenId token.isLong, lc h.holder)) }

def ExpirySurvey.tokens
    (s : ExpirySurvey)
    (isLong : Bool) : List StepToken :=
  (planExpiry s.view).redeem.filterMap (fun longId =>
    (s.series.find? (fun c => c.longId = longId)).map (fun c =>
      { survey := s
        series := c
        isLong := isLong }))

/- Longs first, then shorts. -/
def stepTokens
    (surveys : List ExpirySurvey) : List StepToken :=
  surveys.flatMap (fun s => s.tokens true) ++
    surveys.flatMap (fun s => s.tokens false)

structure RedeemResult where
  done : List ExpiryKey
  cleared : List (Int × String)
deriving DecidableEq

def marksDone
    (state : StepState)
    (s : ExpirySurvey) : Bool :=
  let plan := planExpiry s.view
  if s.view.status ≠ .Finalized ∧ plan.done = false then false
  else
    plan.done ||
      (plan.settle.isEmpty && plan.prune.isEmpty &&
        decide (state.remainingOf s.key = 0))

/- None when a read that must answer does not. -/
def stepRedeem
    (input : RedeemInput) : Option RedeemResult := do
  let surveys ←
    surveyExpiries input.ctx input.head
      (input.keys.filter
        (fun k => decide (k.expiry ≤ input.head.timestamp)))
  if input.payoutAdapter = none then
    return { done := [], cleared := [] }
  let state :=
    (stepTokens surveys).foldl (redeemToken input) .start
  return {
    done :=
      if input.config.dryRun then []
      else
        (surveys.filter (marksDone state)).map (fun s => s.key)
    cleared := state.cleared }

----
-- What a Batch Leaves
----

section

variable {input : RedeemInput}

/- The holders a batch no longer finds, and those it does. -/
theorem stillHeld_split
    (items : List HolderView)
    (after : Option (String → Int)) :
    (items.filter
          (fun h => h ∉ stillHeldAtBlock items after)).length +
        (stillHeldAtBlock items after).length =
      items.length := by
  cases after with
  | none => simp +contextual [stillHeldAtBlock]
  | some after =>
      have hGone :
          items.filter
              (fun h => h ∉ stillHeldAtBlock items (some after)) =
            items.filter
              (fun h => !decide (after (lc h.holder) > 0)) := by
        apply List.filter_congr
        intro h hIn
        simp [stillHeldAtBlock, hIn, ← decide_not]
      rw [hGone, Nat.add_comm]
      exact
        (List.length_eq_length_filter_add
          (fun h : HolderView =>
            decide (after (lc h.holder) > 0))).symm

/- One send empties some of its holders, puts back the rest. -/
theorem redeemChunk_spec
    (hLive : input.config.dryRun = false)
    (tokenId : Int)
    (chunk : GasChunk HolderView)
    (result : TokenResult) :
    ∃ emptied,
      (emptied ++
            queueItems
              (redeemChunk input tokenId chunk result).2).Subperm
          chunk.items ∧
        (redeemChunk input tokenId chunk result).1.cleared =
          result.cleared ++ emptied ∧
        (redeemChunk input tokenId chunk result).1.redeemed =
          result.redeemed + emptied.length := by
  have hSend :=
    input.live hLive result.progress.sent tokenId chunk
  unfold redeemChunk
  simp only
  split
  · next after _ =>
      refine ⟨_, ?_, rfl, ?_⟩
      · simpa [queueItems] using
          List.filter_sublist.subperm
      · have hSplit := stillHeld_split chunk.items after
        simp only
        omega
  · next hWould => exact absurd hWould hSend
  · split
    · exact ⟨[], List.nil_subperm, by simp, by simp⟩
    · split
      · refine ⟨[], ?_, by simp, by simp⟩
        rw [List.nil_append, splitChunk_items]
      · exact ⟨[], List.nil_subperm, by simp, by simp⟩

/-
  The sends of a token count as redeemed exactly the holders
  they emptied, each at most once.
-/
theorem redeemQueue_spec
    (hLive : input.config.dryRun = false)
    (tokenId : Int)
    (queue : List (GasChunk HolderView))
    (result : TokenResult) :
    ∃ emptied,
      emptied.Subperm (queueItems queue) ∧
        (redeemQueue input tokenId queue result).cleared =
          result.cleared ++ emptied ∧
        (redeemQueue input tokenId queue result).redeemed =
          result.redeemed + emptied.length := by
  induction queue, result using
    redeemQueue.induct input tokenId with
  | case1 result =>
      refine ⟨[], List.nil_subperm, ?_, ?_⟩
      · rw [redeemQueue, List.append_nil]
      · rw [redeemQueue]
        simp
  | case2 result chunk rest asked hLeft sent ih =>
      rcases
        redeemChunk_spec hLive tokenId chunk asked with
        ⟨first, hFirst, hFirstCleared, hFirstRedeemed⟩
      rcases ih with ⟨later, hLater, hCleared, hRedeemed⟩
      refine ⟨first ++ later, ?_, ?_, ?_⟩
      · rw [queueItems_append] at hLater
        rw [queueItems_cons]
        have hAll := (List.Subperm.refl first).append hLater
        rw [← List.append_assoc] at hAll
        exact hAll.trans (hFirst.append (List.Subperm.refl _))
      · rw [redeemQueue]
        simp only [if_pos hLeft]
        rw [hCleared, hFirstCleared, List.append_assoc]
      · rw [redeemQueue]
        simp only [if_pos hLeft]
        rw [hRedeemed, hFirstRedeemed, List.length_append]
        push_cast
        ring
  | case3 result chunk rest hLeft =>
      refine ⟨[], List.nil_subperm, ?_, ?_⟩
      · rw [redeemQueue]
        simp [hLeft]
      · rw [redeemQueue]
        simp [hLeft]

end

----
-- What a Token Leaves
----

section

variable {input : RedeemInput}

theorem mergeHolder_distinct
    {merged : List String}
    (h : (merged.map lc).Nodup)
    (a : String) :
    ((mergeHolder merged a).map lc).Nodup := by
  unfold mergeHolder
  split
  · have hSame :
        (merged.map (fun x =>
          if lc x = lc a then a else x)).map lc =
            merged.map lc := by
      rw [List.map_map]
      apply List.map_congr_left
      intro x _
      simp only [Function.comp]
      split
      · next hEq => exact hEq.symm
      · rfl
    rw [hSame]
    exact h
  · next hNew =>
      rw [List.map_append]
      apply h.append (List.nodup_singleton _)
      intro x hx hxa
      rcases List.mem_map.mp hx with ⟨y, hy, rfl⟩
      apply hNew
      exact
        List.any_eq_true.mpr
          ⟨y, hy, decide_eq_true (List.mem_singleton.mp hxa)⟩

theorem foldl_mergeHolder_distinct
    (items : List String)
    {merged : List String}
    (h : (merged.map lc).Nodup) :
    ((items.foldl mergeHolder merged).map lc).Nodup := by
  induction items generalizing merged with
  | nil => exact h
  | cons a rest ih => exact ih (mergeHolder_distinct h a)

/- No two candidates are the same address. -/
theorem holderCandidates_distinct
    (input : RedeemInput)
    (progress : StepProgress)
    (tokenId longId : Int)
    (isLong : Bool) :
    ((holderCandidates input progress tokenId longId
        isLong).1.map lc).Nodup := by
  have hNone : (([] : List String).map lc).Nodup := List.nodup_nil
  have hLogs :=
    foldl_mergeHolder_distinct
      (input.ctx.index.holdersOf tokenId) hNone
  unfold holderCandidates
  simp only
  split
  · exact hLogs
  · split
    · exact hLogs
    · split
      · exact hLogs
      · exact foldl_mergeHolder_distinct _ hLogs

/- Units that add up to the whole supply leave nobody out. -/
theorem listed_of_sum_le
    {f : String → Int}
    {listed all : List String}
    (hListed : listed.Nodup)
    (hAll : all.Nodup)
    (hNonneg : ∀ x, 0 ≤ f x)
    (hOther : ∀ x, x ∉ all → f x = 0)
    (hSum : (all.map f).sum ≤ (listed.map f).sum)
    {x : String}
    (hx : x ∈ all)
    (hPos : 0 < f x) :
    x ∈ listed := by
  by_contra hMissing
  rw [← List.sum_toFinset f hListed,
    ← List.sum_toFinset f hAll] at hSum
  have hSub :
      ∑ y ∈ listed.toFinset, f y ≤
        ∑ y ∈ all.toFinset.erase x, f y := by
    rw [← Finset.sum_filter_add_sum_filter_not listed.toFinset
      (fun y => y ∈ all)]
    have hZero :
        ∑ y ∈ listed.toFinset.filter (fun y => y ∉ all), f y =
          0 :=
      Finset.sum_eq_zero
        (fun y hy => hOther y (Finset.mem_filter.mp hy).2)
    rw [hZero, add_zero]
    apply Finset.sum_le_sum_of_subset_of_nonneg
    · intro y hy
      rcases Finset.mem_filter.mp hy with ⟨hyListed, hyAll⟩
      rw [Finset.mem_erase, List.mem_toFinset]
      refine ⟨?_, hyAll⟩
      rintro rfl
      exact hMissing (List.mem_toFinset.mp hyListed)
    · exact fun y _ _ => hNonneg y
  have hErase :=
    Finset.sum_erase_add all.toFinset f
      (List.mem_toFinset.mpr hx)
  linarith

/- Nothing more is to be done for a holder of the token. -/
def HolderDone
    (input : RedeemInput)
    (cleared : List (Int × String))
    (s : SeriesChain)
    (isLong : Bool)
    (holder : String) : Prop :=
  input.head.mayRedeem holder input.config.account = false ∨
    (s.perUnitPayout isLong = 0 ∧ input.burnZero = false) ∨
      (s.tokenId isLong, holder) ∈ cleared

/- Nothing more is to be done for the token's holders. -/
def TokenDone
    (input : RedeemInput)
    (cleared : List (Int × String))
    (s : SeriesChain)
    (isLong : Bool) : Prop :=
  ∀ holder ∈ input.head.holders (s.tokenId isLong),
    0 < input.head.balance (s.tokenId isLong) holder →
      HolderDone input cleared s isLong holder

theorem TokenDone.mono
    {cleared cleared' : List (Int × String)}
    {s : SeriesChain}
    {isLong : Bool}
    (h : TokenDone input cleared s isLong)
    (hSub : cleared ⊆ cleared') :
    TokenDone input cleared' s isLong := by
  intro holder hHolder hPos
  rcases h holder hHolder hPos with hNot | hZero | hCleared
  · exact .inl hNot
  · exact .inr (.inl hZero)
  · exact .inr (.inr (hSub hCleared))

/- A token without supply has no holder. -/
theorem tokenDone_of_supply
    (hForm : input.head.WellFormed)
    {s : SeriesChain}
    (hs : s ∈ input.head.series)
    {isLong : Bool}
    (hSupply : s.supply isLong ≤ 0)
    (cleared : List (Int × String)) :
    TokenDone input cleared s isLong := by
  intro holder hHolder hPos
  rw [hForm.supply s hs isLong] at hSupply
  have hOne :=
    List.single_le_sum
      (l := (input.head.holders (s.tokenId isLong)).map
        (input.head.balance (s.tokenId isLong)))
      (by
        intro x hx
        rcases List.mem_map.mp hx with ⟨y, _, rfl⟩
        exact hForm.nonneg _ y)
      _ (List.mem_map_of_mem hHolder)
  omega

variable {token : StepToken}

/- A holder read is one to redeem, or is to be left alone. -/
theorem readToken_holder
    (hForm : input.head.WellFormed)
    {progress : StepProgress}
    (hs : token.series ∈ input.head.series)
    (hAll :
      (readToken input progress token).unaccounted ≤ 0)
    {holder : String}
    (hHolder :
      holder ∈
        input.head.holders (token.series.tokenId token.isLong))
    (hPos :
      0 <
        input.head.balance (token.series.tokenId token.isLong)
          holder) :
    input.head.mayRedeem holder input.config.account = false ∨
      (token.series.perUnitPayout token.isLong = 0 ∧
          input.burnZero = false) ∨
        ∃ h ∈ (readToken input progress token).selection,
          lc h.holder = holder := by
  have hDistinct :=
    holderCandidates_distinct input progress
      (token.series.tokenId token.isLong) token.series.longId
      token.isLong
  have hSupply := hForm.supply token.series hs token.isLong
  unfold readToken at hAll ⊢
  simp only at hAll ⊢
  generalize
    (holderCandidates input progress
      (token.series.tokenId token.isLong) token.series.longId
      token.isLong).1 = candidates at *
  generalize hViews :
    candidates.map
      (input.head.readHolder
        (token.series.tokenId token.isLong)
        input.config.account) = views at *
  have hKnown :
      (views.map (fun v => v.balance)).sum =
        ((candidates.map lc).map
          (input.head.balance
            (token.series.tokenId token.isLong))).sum := by
    rw [← hViews, List.map_map, List.map_map]
    rfl
  have hListed : holder ∈ candidates.map lc := by
    apply
      listed_of_sum_le hDistinct
        (hForm.distinct (token.series.tokenId token.isLong))
        (hForm.nonneg _) (hForm.listed _) _ hHolder hPos
    rw [← hKnown, ← hSupply]
    split at hAll <;> omega
  rcases List.mem_map.mp hListed with ⟨a, ha, haLower⟩
  have hView := List.mem_map_of_mem
    (f := input.head.readHolder
      (token.series.tokenId token.isLong)
      input.config.account) ha
  rw [hViews] at hView
  rcases exists_firstOfHolder hView with ⟨x, hx, hxSame⟩
  have hxLower : lc x.holder = holder := hxSame.trans haLower
  have hxView := firstOfHolder_subset views hx
  rw [← hViews] at hxView
  rcases List.mem_map.mp hxView with ⟨b, _, rfl⟩
  have hbLower : lc b = holder := hxLower
  have hLower := hForm.lower _ holder hHolder
  by_cases hRedeem :
    classifyHolder
        { perUnitPayout :=
            token.series.perUnitPayout token.isLong
          burnZero := input.burnZero }
        (input.head.readHolder
          (token.series.tokenId token.isLong)
          input.config.account b) = .redeem
  · exact
      .inr
        (.inr
          ⟨_, (mem_selectRedeemable _ _ _).mpr ⟨hx, hRedeem⟩,
            hxLower⟩)
  · rcases (not_redeem_iff _ _).mp hRedeem with
      hEmpty | hOut | hZero
    · have hBalance :
          input.head.balance
              (token.series.tokenId token.isLong) (lc b) =
            0 :=
        hEmpty
      rw [hbLower] at hBalance
      omega
    · left
      have hAllowed :
          input.head.mayRedeem b input.config.account = false :=
        hOut
      unfold HeadView.mayRedeem at hAllowed ⊢
      rw [hLower]
      rw [hbLower] at hAllowed
      exact hAllowed
    · exact .inr (.inl hZero)

/- Some of the token's holders are still to be redeemed. -/
def Outstanding
    (state : StepState)
    (key : ExpiryKey) : Prop :=
  ∃ r ∈ state.remaining, r.1 = key ∧ 0 < r.2

/-
  What the step has made of the tokens so far: no count is
  negative, and each token is done or counted as remaining.
-/
structure StepState.Accounts
    (state : StepState)
    (input : RedeemInput)
    (tokens : List StepToken) : Prop where
  nonneg : ∀ r ∈ state.remaining, 0 ≤ r.2
  done :
    ∀ token ∈ tokens,
      TokenDone input state.cleared token.series token.isLong ∨
        Outstanding state token.survey.key

/- A token that is sent leaves a count, and is done at zero. -/
theorem sendToken_spec
    (hForm : input.head.WellFormed)
    (hLive : input.config.dryRun = false)
    {progress : StepProgress}
    (hs : token.series ∈ input.head.series)
    {read : TokenRead}
    (hRead : read = readToken input progress token)
    {result : TokenResult}
    (hResult : result = sendToken input read token) :
    (result.redeemed ≤ read.selection.length) ∧
      (read.unaccounted ≤ 0 →
        read.selection.length = result.redeemed →
          TokenDone input
            (result.cleared.map (fun h =>
              (token.series.tokenId token.isLong,
                lc h.holder)))
            token.series token.isLong) := by
  unfold sendToken at hResult
  simp only at hResult
  rcases
    redeemQueue_spec hLive
      (token.series.tokenId token.isLong) _ _ with
    ⟨emptied, hSub, hCleared, hRedeemed⟩
  rw [← hResult] at hCleared hRedeemed
  rw [chunkByGas_items] at hSub
  rw [List.nil_append] at hCleared
  simp only [zero_add] at hRedeemed
  have hLength := hSub.length_le
  constructor
  · omega
  · intro hAll hEqual holder hHolder hPos
    have hPerm := hSub.perm_of_length_le (by omega)
    rw [hRead] at hAll hPerm
    rcases readToken_holder hForm hs hAll hHolder hPos with
      hNot | hZero | ⟨h, hSelected, hLower⟩
    · exact .inl hNot
    · exact .inr (.inl hZero)
    · right
      right
      apply List.mem_map.mpr
      refine ⟨h, ?_, by rw [hLower]⟩
      rw [hCleared]
      exact hPerm.mem_iff.mpr hSelected

/- One more token. -/
theorem redeemToken_accounts
    (hForm : input.head.WellFormed)
    (hLive : input.config.dryRun = false)
    {state : StepState}
    {tokens : List StepToken}
    (h : state.Accounts input tokens)
    (hs : token.series ∈ input.head.series) :
    (redeemToken input state token).Accounts input
      (tokens ++ [token]) := by
  by_cases hSupply : token.series.supply token.isLong = 0
  · have hSame : redeemToken input state token = state := by
      unfold redeemToken
      rw [if_pos hSupply]
    rw [hSame]
    refine ⟨h.nonneg, ?_⟩
    intro t ht
    rcases List.mem_append.mp ht with hOld | hNew
    · exact h.done t hOld
    · rw [List.mem_singleton.mp hNew]
      exact .inl (tokenDone_of_supply hForm hs (by omega) _)
  · obtain ⟨hBound, hDone⟩ :=
      sendToken_spec hForm hLive hs
        (rfl :
          readToken input state.progress token =
            readToken input state.progress token)
        rfl
    unfold redeemToken
    rw [if_neg hSupply]
    simp only
    generalize readToken input state.progress token = read at *
    generalize sendToken input read token = result at *
    have hUnseen :
        (0 : Int) ≤ if read.unaccounted > 0 then 1 else 0 := by
      split <;> decide
    refine ⟨?_, ?_⟩
    · intro r hr
      rcases List.mem_append.mp hr with hOld | hNew
      · exact h.nonneg r hOld
      · rw [List.mem_singleton.mp hNew]
        simp only
        omega
    · intro t ht
      rcases List.mem_append.mp ht with hOld | hNew
      · rcases h.done t hOld with hDoneOld | ⟨r, hr, hOpen⟩
        · exact
            .inl (hDoneOld.mono (List.subset_append_left _ _))
        · exact .inr ⟨r, List.mem_append_left _ hr, hOpen⟩
      · rw [List.mem_singleton.mp hNew]
        by_cases hZero :
          read.unaccounted ≤ 0 ∧
            read.selection.length = result.redeemed
        · exact
            .inl
              ((hDone hZero.1 hZero.2).mono
                (List.subset_append_right _ _))
        · right
          refine
            ⟨_,
              List.mem_append_right _
                (List.mem_singleton.mpr rfl),
              rfl, ?_⟩
          simp only
          by_cases hSeen : read.unaccounted ≤ 0
          · have hMore :
                (read.selection.length : Int) ≠
                  result.redeemed :=
              fun hEqual => hZero ⟨hSeen, hEqual⟩
            omega
          · rw [if_pos (by omega)]
            omega

/- All tokens, in any order. -/
theorem redeemTokens_accounts
    (hForm : input.head.WellFormed)
    (hLive : input.config.dryRun = false)
    (tokens : List StepToken)
    (hs : ∀ token ∈ tokens, token.series ∈ input.head.series)
    {state : StepState}
    {before : List StepToken}
    (h : state.Accounts input before) :
    (tokens.foldl (redeemToken input) state).Accounts input
      (before ++ tokens) := by
  induction tokens generalizing state before with
  | nil =>
      rw [List.append_nil]
      exact h
  | cons token rest ih =>
      have hFirst :=
        redeemToken_accounts hForm hLive h
          (hs token List.mem_cons_self)
      have hRest :=
        ih (fun t ht => hs t (List.mem_cons_of_mem _ ht)) hFirst
      rw [List.append_assoc] at hRest
      exact hRest

/- At zero remaining, every token of the expiry is done. -/
theorem StepState.Accounts.token_done
    {state : StepState}
    {tokens : List StepToken}
    (h : state.Accounts input tokens)
    (ht : token ∈ tokens)
    (hZero : state.remainingOf token.survey.key = 0) :
    TokenDone input state.cleared token.series token.isLong := by
  rcases h.done token ht with hDone | ⟨r, hr, hKey, hPos⟩
  · exact hDone
  · have hMem :
        r.2 ∈
          (state.remaining.filter
            (fun r => r.1 = token.survey.key)).map
              (fun r => r.2) := by
      apply List.mem_map_of_mem
      exact List.mem_filter.mpr ⟨hr, decide_eq_true hKey⟩
    have hLe :=
      List.single_le_sum
        (by
          intro x hx
          rcases List.mem_map.mp hx with ⟨y, hy, rfl⟩
          exact h.nonneg y (List.mem_filter.mp hy).1)
        _ hMem
    unfold StepState.remainingOf at hZero
    omega

end

----
-- What a Marked Expiry Leaves
----

variable {input : RedeemInput}

/- Nothing is left to do for a series at the head. -/
structure SeriesDone
    (input : RedeemInput)
    (cleared : List (Int × String))
    (s : SeriesChain) : Prop where
  settled : 0 < s.longSupply → s.settled = true
  orders :
    ∀ id ∈ input.head.orderIds s.longId,
      isPrunable input.head.timestamp
          (input.head.readOrder id) = true →
        id ∈ input.ctx.unprunable
  holders : ∀ isLong, TokenDone input cleared s isLong

theorem mem_of_mapM_eq_some
    {α β : Type}
    {f : α → Option β}
    {xs : List α}
    {ys : List β}
    (h : xs.mapM f = some ys) :
    (∀ x ∈ xs, ∃ y ∈ ys, f x = some y) ∧
      ∀ y ∈ ys, ∃ x ∈ xs, f x = some y := by
  induction xs generalizing ys with
  | nil =>
      rw [List.mapM_nil] at h
      cases h
      exact ⟨fun x hx => (List.not_mem_nil hx).elim,
        fun y hy => (List.not_mem_nil hy).elim⟩
  | cons x rest ih =>
      cases hx : f x with
      | none => simp [List.mapM_cons, hx] at h
      | some y =>
          cases hRest : rest.mapM f with
          | none => simp [List.mapM_cons, hx, hRest] at h
          | some more =>
              have hAll : y :: more = ys := by
                simpa [List.mapM_cons, hx, hRest] using h
              subst hAll
              rcases ih hRest with ⟨hIn, hOut⟩
              constructor
              · intro z hz
                rcases List.mem_cons.mp hz with rfl | hz
                · exact ⟨y, List.mem_cons_self, hx⟩
                · rcases hIn z hz with ⟨w, hw, hEq⟩
                  exact ⟨w, List.mem_cons_of_mem _ hw, hEq⟩
              · intro w hw
                rcases List.mem_cons.mp hw with rfl | hw
                · exact ⟨x, List.mem_cons_self, hx⟩
                · rcases hOut w hw with ⟨z, hz, hEq⟩
                  exact ⟨z, List.mem_cons_of_mem _ hz, hEq⟩

/- A survey of an expiry, series by series. -/
structure ExpirySurvey.Of
    (s : ExpirySurvey)
    (ctx : SurveyContext)
    (v : HeadView)
    (k : ExpiryKey) : Prop where
  key : s.key = k
  expiry : s.view.expiry = k.expiry
  now : s.view.now = v.timestamp
  status : s.view.status = v.status (expiryKeyString k)
  views :
    s.view.series =
      s.series.map
        (seriesView ctx v (decide (v.timestamp ≥ k.expiry)))
  indexed :
    ∀ r ∈ ctx.index.seriesOf k,
      ∃ c ∈ s.series, v.readSeries r.series.longId = some c
  chain : ∀ c ∈ s.series, c ∈ v.series

variable {s : ExpirySurvey}

theorem surveyExpiry_of
    {ctx : SurveyContext}
    {k : ExpiryKey}
    (h : surveyExpiry ctx v k = some s) :
    s.Of ctx v k := by
  unfold surveyExpiry at h
  cases hRead :
      (ctx.index.seriesOf k).mapM
        (fun r => v.readSeries r.series.longId) with
  | none =>
      rw [hRead] at h
      cases h
  | some series =>
      rw [hRead] at h
      cases h
      obtain ⟨hIn, hOut⟩ := mem_of_mapM_eq_some hRead
      exact
        { key := rfl
          expiry := rfl
          now := rfl
          status := rfl
          views := rfl
          indexed := hIn
          chain := by
            intro c hc
            rcases hOut c hc with ⟨r, _, hr⟩
            exact List.mem_of_find?_eq_some hr }

theorem longId_unique
    (hForm : v.WellFormed)
    {a b : SeriesChain}
    (ha : a ∈ v.series)
    (hb : b ∈ v.series)
    (h : a.longId = b.longId) :
    a = b :=
  List.inj_on_of_nodup_map hForm.longIds ha hb h

/- An unread or prunable order is counted. -/
theorem seriesView_orders
    {ctx : SurveyContext}
    {s : SeriesChain}
    (h : (seriesView ctx v true s).hasPrunable = false)
    {id : Int}
    (hId : id ∈ v.orderIds s.longId)
    (hPrunable :
      isPrunable v.timestamp (v.readOrder id) = true) :
    id ∈ ctx.unprunable := by
  unfold SeriesView.hasPrunable seriesView at h
  simp only [if_true, decide_eq_false_iff_not] at h
  have hWhole :
      (readSeriesOrders v s.longId).truncated = false := by
    cases hTruncated :
        (readSeriesOrders v s.longId).truncated with
    | false => rfl
    | true =>
        rw [hTruncated, if_pos rfl] at h
        omega
  rw [hWhole] at h
  simp only [Bool.false_eq_true, if_false, add_zero] at h
  have hEmpty :
      prunableHere ctx.unprunable
          (readSeriesOrders v s.longId).orders v.timestamp =
        [] := by
    apply List.eq_nil_of_length_eq_zero
    omega
  by_contra hMarked
  have hIn :
      v.readOrder id ∈
        prunableHere ctx.unprunable
          (readSeriesOrders v s.longId).orders v.timestamp := by
    apply List.mem_filter.mpr
    constructor
    · rw [mem_prunableOrders]
      exact ⟨readSeriesOrders_complete hWhole hId, hPrunable⟩
    · exact decide_eq_true hMarked
  rw [hEmpty] at hIn
  cases hIn

variable {surveys : List ExpirySurvey}

/- A series of a plan's redeem list is a token, on each side. -/
theorem mem_stepTokens
    (hForm : input.head.WellFormed)
    (hs : s ∈ surveys)
    (hChain : ∀ c ∈ s.series, c ∈ input.head.series)
    {c : SeriesChain}
    (hc : c ∈ s.series)
    (hRedeem : c.longId ∈ (planExpiry s.view).redeem)
    (isLong : Bool) :
    { survey := s, series := c, isLong := isLong } ∈
      stepTokens surveys := by
  have hFind :
      s.series.find? (fun x => x.longId = c.longId) =
        some c := by
    cases hFound :
        s.series.find? (fun x => x.longId = c.longId) with
    | none =>
        have hNone := List.find?_eq_none.mp hFound c hc
        simp at hNone
    | some x =>
        have hx := List.mem_of_find?_eq_some hFound
        have hSame := List.find?_some hFound
        rw [longId_unique hForm (hChain x hx) (hChain c hc)
          (of_decide_eq_true hSame)]
  have hToken :
      { survey := s, series := c, isLong := isLong } ∈
        s.tokens isLong := by
    apply List.mem_filterMap.mpr
    refine ⟨c.longId, hRedeem, ?_⟩
    rw [hFind]
    rfl
  unfold stepTokens
  rw [List.mem_append, List.mem_flatMap, List.mem_flatMap]
  cases isLong with
  | true => exact .inl ⟨s, hs, hToken⟩
  | false => exact .inr ⟨s, hs, hToken⟩

theorem series_of_stepTokens
    {token : StepToken}
    (h : token ∈ stepTokens surveys) :
    ∃ s ∈ surveys, token.series ∈ s.series := by
  have hSide :
      ∀ isLong,
        token ∈ surveys.flatMap (fun s => s.tokens isLong) →
          ∃ s ∈ surveys, token.series ∈ s.series := by
    intro isLong hIn
    rcases List.mem_flatMap.mp hIn with ⟨s, hs, hToken⟩
    rcases List.mem_filterMap.mp hToken with ⟨longId, _, hMap⟩
    rcases Option.map_eq_some_iff.mp hMap with ⟨c, hc, rfl⟩
    exact ⟨s, hs, List.mem_of_find?_eq_some hc⟩
  rcases List.mem_append.mp h with hLong | hShort
  · exact hSide true hLong
  · exact hSide false hShort

/-
  A survey marked done under a final price: nothing is left of
  any series in it.
-/
theorem marksDone_series
    (hForm : input.head.WellFormed)
    {state : StepState}
    (hState : state.Accounts input (stepTokens surveys))
    {k : ExpiryKey}
    (hs : s ∈ surveys)
    (hOf : s.Of input.ctx input.head k)
    (hExpired : k.expiry ≤ input.head.timestamp)
    (hFinal : s.view.status = .Finalized)
    (hMark : marksDone state s = true)
    {c : SeriesChain}
    (hc : c ∈ s.series) :
    SeriesDone input state.cleared c := by
  have hChain := hOf.chain c hc
  have hView :
      seriesView input.ctx input.head true c ∈ s.view.series := by
    rw [hOf.views, decide_eq_true hExpired]
    exact List.mem_map_of_mem hc
  have hReached : s.view.expiry ≤ s.view.now := by
    rw [hOf.expiry, hOf.now]
    exact hExpired
  obtain ⟨hPlan, hPlanDone⟩ :=
    planExpiry_finalized hReached hFinal
  obtain ⟨hSettle, hRedeem, hPrune⟩ := hPlan _ hView
  have hLeft :
      (planExpiry s.view).settle = [] ∧
        (planExpiry s.view).prune = [] ∧
          ((planExpiry s.view).redeem = [] ∨
            state.remainingOf s.key = 0) := by
    unfold marksDone at hMark
    simp only [hFinal, ne_eq, not_true, false_and, if_false,
      Bool.or_eq_true, Bool.and_eq_true, List.isEmpty_iff,
      decide_eq_true_eq] at hMark
    rcases hMark with hDone | ⟨⟨hSettled, hPruned⟩, hZero⟩
    · rcases hPlanDone hDone with ⟨h1, h2, h3⟩
      exact ⟨h1, h3, .inl h2⟩
    · exact ⟨hSettled, hPruned, .inr hZero⟩
  rcases hLeft with ⟨hNoSettle, hNoPrune, hNoRedeem⟩
  rw [hNoSettle] at hSettle
  rw [hNoPrune] at hPrune
  have hSettled : 0 < c.longSupply → c.settled = true := by
    intro hPos
    by_contra hOpen
    rw [Bool.not_eq_true] at hOpen
    have hIn := hSettle (by
      simp [SeriesView.toSettle, seriesView, hOpen, hPos])
    cases hIn
  refine ⟨hSettled, ?_, ?_⟩
  · intro id hId hPrunable
    apply seriesView_orders _ hId hPrunable
    by_contra hMore
    rw [Bool.not_eq_false] at hMore
    cases hPrune hMore
  · intro isLong
    by_cases hSupply : c.supply isLong ≤ 0
    · exact tokenDone_of_supply hForm hChain hSupply _
    · have hAny : 0 < c.longSupply ∨ 0 < c.shortSupply := by
        cases isLong with
        | true => exact .inl (lt_of_not_ge hSupply)
        | false => exact .inr (lt_of_not_ge hSupply)
      have hFinalSeries : c.settled = true := by
        by_contra hOpen
        rw [Bool.not_eq_true] at hOpen
        have hPaired := hForm.paired c hChain hOpen
        have hPos : 0 < c.longSupply := by omega
        rw [hSettled hPos] at hOpen
        cases hOpen
      have hIn :=
        hRedeem (by
          simp [SeriesView.toRedeem, seriesView, hFinalSeries,
            hAny])
      rcases hNoRedeem with hNone | hZero
      · rw [hNone] at hIn
        cases hIn
      · exact
          hState.token_done
            (mem_stepTokens hForm hs hOf.chain hc hIn isLong)
            hZero

/-
  What the redeem step marks done under a final price has
  nothing left at the head, in every series of the index.
-/
theorem stepRedeem_done
    (hForm : input.head.WellFormed)
    {result : RedeemResult}
    (h : stepRedeem input = some result)
    {key : ExpiryKey}
    (hKey : key ∈ result.done)
    (hFinal :
      input.head.status (expiryKeyString key) = .Finalized) :
    key ∈ input.keys ∧
      ∀ r ∈ input.ctx.index.seriesOf key,
        ∀ c ∈ input.head.series,
          c.longId = r.series.longId →
            SeriesDone input result.cleared c := by
  unfold stepRedeem at h
  cases hSurveys :
      surveyExpiries input.ctx input.head
        (input.keys.filter
          (fun k => decide (k.expiry ≤ input.head.timestamp)))
      with
  | none =>
      rw [hSurveys] at h
      cases h
  | some surveys =>
      rw [hSurveys] at h
      obtain ⟨_, hOut⟩ := mem_of_mapM_eq_some hSurveys
      by_cases hAdapter : input.payoutAdapter = none
      · simp [hAdapter] at h
        subst h
        cases hKey
      · simp [hAdapter] at h
        subst h
        simp only at hKey ⊢
        by_cases hDry : input.config.dryRun = true
        · rw [if_pos hDry] at hKey
          cases hKey
        · rw [if_neg hDry] at hKey
          rw [Bool.not_eq_true] at hDry
          rcases List.mem_map.mp hKey with ⟨s, hMarked, rfl⟩
          rcases List.mem_filter.mp hMarked with ⟨hs, hMark⟩
          rcases hOut s hs with ⟨k, hk, hSurvey⟩
          have hOf := surveyExpiry_of hSurvey
          have hExpired :=
            of_decide_eq_true (List.mem_filter.mp hk).2
          have hState :
              ((stepTokens surveys).foldl (redeemToken input)
                .start).Accounts input ([] ++ stepTokens surveys) :=
            redeemTokens_accounts hForm hDry _
              (by
                intro token ht
                rcases series_of_stepTokens ht with
                  ⟨s', hs', hSeries⟩
                rcases hOut s' hs' with ⟨k', _, hSurvey'⟩
                exact
                  (surveyExpiry_of hSurvey').chain _ hSeries)
              { nonneg := fun r hr =>
                  (List.not_mem_nil hr).elim
                done := fun t ht => (List.not_mem_nil ht).elim }
          refine ⟨?_, ?_⟩
          · rw [hOf.key]
            exact (List.mem_filter.mp hk).1
          intro r hr c hc hSame
          rw [hOf.key] at hr
          rcases hOf.indexed r hr with ⟨c', hc', hRead⟩
          have hFound :
              input.head.series.find?
                  (fun s => s.longId = r.series.longId) =
                some c' :=
            hRead
          have hLong := List.find?_some hFound
          rw [decide_eq_true_eq] at hLong
          have hcSame : c' = c :=
            longId_unique hForm (hOf.chain c' hc') hc
              (hLong.trans hSame.symm)
          subst hcSame
          refine
            marksDone_series hForm hState hs hOf hExpired ?_
              hMark hc'
          rw [hOf.status, ← hOf.key]
          exact hFinal

end Callhouse.Keeper.Cranker
