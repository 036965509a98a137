import Callhouse.Keeper.Store
import Callhouse.Lib.Transition

/-
  keeper/src/v2/tx.ts: sending one transaction at a time from
  one key: the in-flight check, the nonce, the broadcast, the
  journal and the wait, with the chain free to move between
  any two awaits.

  Main declarations:
    * `beginExecute`, `resolveReceipt`, `resolveMined`
    * `TxStep`, `Undisturbed`
    * `resent_only_when_settled`
    * `mined_between_reads_is_resent`
-/

----
-- The Chain
----

namespace Callhouse.Keeper

structure TxReceipt where
  hash : Nat
  success : Bool
  blockNumber : Int
  gasUsed : Int
deriving DecidableEq

/-
  The key's mined transactions in nonce order, and what was
  broadcast from it and may still be mined.
-/
structure TxChain where
  mined : List TxReceipt
  mempool : List Nat
deriving DecidableEq

def TxChain.getReceipt
    (chain : TxChain)
    (hash : Nat) : Option TxReceipt :=
  chain.mined.find? (fun m => m.hash = hash)

def TxChain.minedNonce
    (chain : TxChain) : Nat :=
  chain.mined.length

def TxReceipt.status
    (receipt : TxReceipt) : V2TxStatus :=
  if receipt.success then .success else .reverted

/- One more transaction of the key is mined. -/
def TxChain.withMined
    (chain : TxChain)
    (receipt : TxReceipt) : TxChain :=
  { chain with mined := chain.mined ++ [receipt] }

variable {hash : Nat} {m : TxReceipt} {chain : TxChain}

theorem getReceipt_withMined_of_some
    (h : chain.getReceipt hash = some m)
    (receipt : TxReceipt) :
    (chain.withMined receipt).getReceipt hash = some m := by
  unfold TxChain.getReceipt TxChain.withMined at *
  rw [List.find?_append, h]
  rfl

theorem getReceipt_eq_some
    (h : chain.getReceipt hash = some m) :
    m.hash = hash ∧
      ∃ i : Nat, chain.mined[i]? = some m := by
  unfold TxChain.getReceipt at h
  refine ⟨?_, ?_⟩
  · simpa using List.find?_some h
  · exact List.getElem?_of_mem (List.mem_of_find?_eq_some h)

theorem getReceipt_isSome
    {i : Nat}
    (h : chain.mined[i]? = some m) :
    chain.getReceipt m.hash ≠ none := by
  unfold TxChain.getReceipt
  intro hNone
  rw [List.find?_eq_none] at hNone
  exact hNone m (List.mem_of_getElem? h) (by simp)

----
-- The Sender
----

/- Where the one running execute() stands. -/
inductive TxPhase where
  | idle
  | receipt (kind key : String) (row : V2TxRow)
  | mined (kind key : String) (row : V2TxRow) (ageMs : Int)
  | cleared (kind key : String)
  | taken (kind key : String) (nonce : Nat)
  | accepted (kind key : String) (nonce hash : Nat)
  | waiting (kind key : String) (nonce hash : Nat)
deriving DecidableEq

structure SenderState where
  chain : TxChain
  journal : List V2TxRow
  phase : TxPhase
  nextNonce : Option Nat
  now : Int
deriving DecidableEq

/- The journal's newest submission, when it is unresolved. -/
def beginExecute
    (journal : List V2TxRow)
    (kind key : String) : TxPhase :=
  match latestTx journal kind key with
  | none => .cleared kind key
  | some previous =>
      if previous.status ≠ .pending then .cleared kind key
      else .receipt kind key previous

/- The in-flight check once the receipt read has answered. -/
def resolveReceipt
    (journal : List V2TxRow)
    (kind key : String)
    (previous : V2TxRow)
    (receipt : Option TxReceipt)
    (now : Int) : List V2TxRow × TxPhase :=
  match receipt with
  | some receipt =>
      (recordTxResult journal previous.hash receipt.status
          (some receipt.blockNumber) (some receipt.gasUsed)
          (if receipt.success then none
            else some .receiptReverted)
          now,
        .cleared kind key)
  | none =>
      (journal,
        .mined kind key previous (now - previous.createdAt))

/- The in-flight check once the mined count has answered. -/
def resolveMined
    (inFlightTtlMs : Int)
    (journal : List V2TxRow)
    (kind key : String)
    (previous : V2TxRow)
    (ageMs : Int)
    (mined : Nat)
    (now : Int) : List V2TxRow × TxPhase :=
  if mined > previous.nonce then
    (recordTxResult journal previous.hash .dropped none none
        (some (.nonceUsed previous.nonce mined)) now,
      .cleared kind key)
  else if ageMs < inFlightTtlMs then (journal, .idle)
  else
    (recordTxResult journal previous.hash .dropped none none
        (some (.noReceipt ageMs)) now,
      .cleared kind key)

/- max(own next, the node's pending count). -/
def takeNonce
    (nextNonce : Option Nat)
    (pending : Nat) : Nat :=
  match nextNonce with
  | none => pending
  | some nextNonce => max nextNonce pending

/-
  One step of the sender, of the chain or of the clock.  A
  hash fixes its nonce.  The node takes no transaction whose
  nonce is used, and answers from its current state.
-/
inductive TxStep
    (inFlightTtlMs : Int)
    (nonceOf : Nat → Nat) :
    SenderState → SenderState → Prop where
  | clock
      (s : SenderState)
      (now : Int)
      (hNow : s.now ≤ now) :
      TxStep inFlightTtlMs nonceOf s { s with now := now }
  | included
      (s : SenderState)
      (receipt : TxReceipt)
      (hPool : receipt.hash ∈ s.chain.mempool)
      (hNonce : nonceOf receipt.hash = s.chain.minedNonce) :
      TxStep inFlightTtlMs nonceOf s
        { s with chain := s.chain.withMined receipt }
  | pool
      (s : SenderState)
      (mempool : List Nat) :
      TxStep inFlightTtlMs nonceOf s
        { s with chain := { s.chain with mempool := mempool } }
  | begun
      (s : SenderState)
      (kind key : String)
      (hPhase : s.phase = .idle) :
      TxStep inFlightTtlMs nonceOf s
        { s with phase := beginExecute s.journal kind key }
  | receiptRead
      (s : SenderState)
      (kind key : String)
      (previous : V2TxRow)
      (hPhase : s.phase = .receipt kind key previous) :
      TxStep inFlightTtlMs nonceOf s
        (let resolved :=
          resolveReceipt s.journal kind key previous
            (s.chain.getReceipt previous.hash) s.now
        { s with
          journal := resolved.1
          phase := resolved.2 })
  | minedRead
      (s : SenderState)
      (kind key : String)
      (previous : V2TxRow)
      (ageMs : Int)
      (hPhase : s.phase = .mined kind key previous ageMs) :
      TxStep inFlightTtlMs nonceOf s
        (let resolved :=
          resolveMined inFlightTtlMs s.journal kind key
            previous ageMs s.chain.minedNonce s.now
        { s with
          journal := resolved.1
          phase := resolved.2 })
  | nonceTaken
      (s : SenderState)
      (kind key : String)
      (pending : Nat)
      (hPhase : s.phase = .cleared kind key)
      (hPending : s.chain.minedNonce ≤ pending) :
      TxStep inFlightTtlMs nonceOf s
        { s with
          phase :=
            .taken kind key (takeNonce s.nextNonce pending) }
  | broadcast
      (s : SenderState)
      (kind key : String)
      (nonce hash : Nat)
      (hPhase : s.phase = .taken kind key nonce)
      (hHash : nonceOf hash = nonce)
      (hFree : s.chain.minedNonce ≤ nonce) :
      TxStep inFlightTtlMs nonceOf s
        { s with
          chain :=
            { s.chain with mempool := hash :: s.chain.mempool }
          phase := .accepted kind key nonce hash }
  | answerLost
      (s : SenderState)
      (kind key : String)
      (nonce hash : Nat)
      (hPhase : s.phase = .taken kind key nonce)
      (hHash : nonceOf hash = nonce) :
      TxStep inFlightTtlMs nonceOf s
        { s with
          chain :=
            { s.chain with mempool := hash :: s.chain.mempool }
          phase := .idle
          nextNonce := none }
  | recorded
      (s : SenderState)
      (kind key : String)
      (nonce hash : Nat)
      (hPhase : s.phase = .accepted kind key nonce hash) :
      TxStep inFlightTtlMs nonceOf s
        { s with
          journal :=
            recordTxSubmitted s.journal hash kind key nonce
              s.now
          phase := .waiting kind key nonce hash
          nextNonce := some (nonce + 1) }
  | confirmed
      (s : SenderState)
      (kind key : String)
      (nonce hash : Nat)
      (receipt : TxReceipt)
      (hPhase : s.phase = .waiting kind key nonce hash)
      (hReceipt : s.chain.getReceipt hash = some receipt) :
      TxStep inFlightTtlMs nonceOf s
        { s with
          journal :=
            recordTxResult s.journal hash receipt.status
              (some receipt.blockNumber)
              (some receipt.gasUsed)
              (if receipt.success then none
                else some .receiptReverted)
              s.now
          phase := .idle }
  | unconfirmed
      (s : SenderState)
      (kind key : String)
      (nonce hash : Nat)
      (message : String)
      (hPhase : s.phase = .waiting kind key nonce hash) :
      TxStep inFlightTtlMs nonceOf s
        { s with
          journal :=
            recordTxResult s.journal hash .pending none none
              (some (.unconfirmed message)) s.now
          phase := .idle
          nextNonce := none }
  | stopped
      (s : SenderState)
      (hPhase :
        ∀ kind key nonce hash,
          s.phase ≠ .accepted kind key nonce hash)
      (nextNonce : Option Nat)
      (hNonce :
        nextNonce = none ∨ nextNonce = s.nextNonce) :
      TxStep inFlightTtlMs nonceOf s
        { s with phase := .idle, nextNonce := nextNonce }

def SenderState.Start
    (s : SenderState) : Prop :=
  s.chain.mined = [] ∧ s.journal = [] ∧ s.phase = .idle

/-
  Between the two reads of an in-flight check the step does
  not include the transaction under check.
-/
def Undisturbed
    (s t : SenderState) : Prop :=
  ∀ kind key previous ageMs,
    s.phase = .mined kind key previous ageMs →
      s.chain.getReceipt previous.hash = none →
        t.chain.getReceipt previous.hash = none

----
-- What a Journal Row May Say
----

section

/- The row's status is the status of its receipt. -/
def TrueStatus
    (chain : TxChain)
    (r : V2TxRow) : Prop :=
  ∃ receipt,
    chain.getReceipt r.hash = some receipt ∧
      r.status = receipt.status

/- Another transaction was mined at the row's nonce. -/
def NeverMined
    (chain : TxChain)
    (r : V2TxRow) : Prop :=
  ∃ receipt,
    chain.mined[r.nonce]? = some receipt ∧
      receipt.hash ≠ r.hash

/- Nothing of the row can be sent twice any more. -/
def SenderState.Done
    (s : SenderState)
    (inFlightTtlMs : Int)
    (r : V2TxRow) : Prop :=
  TrueStatus s.chain r ∨ NeverMined s.chain r ∨
    r.createdAt + inFlightTtlMs ≤ s.now

/- The row that the next check of its key will ask about. -/
def Checked
    (journal : List V2TxRow)
    (r : V2TxRow) : Prop :=
  r.status = .pending ∧
    latestTx journal r.kind r.key = some r

/- The row is old, or it will be asked about. -/
def SenderState.Awaited
    (s : SenderState)
    (inFlightTtlMs : Int)
    (r : V2TxRow) : Prop :=
  r.createdAt + inFlightTtlMs ≤ s.now ∨
    Checked s.journal r

/- What the running execute() has established so far. -/
def SenderState.PhaseSound
    (s : SenderState)
    (inFlightTtlMs : Int)
    (nonceOf : Nat → Nat) : Prop :=
  match s.phase with
  | .idle => True
  | .receipt kind key previous =>
      latestTx s.journal kind key = some previous
  | .mined kind key previous ageMs =>
      latestTx s.journal kind key = some previous ∧
        s.chain.getReceipt previous.hash = none ∧
        previous.createdAt + ageMs ≤ s.now
  | .cleared kind key =>
      ∀ r ∈ s.journal, r.kind = kind → r.key = key →
        s.Done inFlightTtlMs r
  | .taken kind key _ =>
      ∀ r ∈ s.journal, r.kind = kind → r.key = key →
        s.Done inFlightTtlMs r
  | .accepted kind key nonce hash =>
      (∀ r ∈ s.journal, r.kind = kind → r.key = key →
        s.Done inFlightTtlMs r) ∧
        nonceOf hash = nonce ∧
        ∀ r ∈ s.journal, r.hash = hash →
          s.Awaited inFlightTtlMs r
  | .waiting _ _ _ hash =>
      ∀ r ∈ s.journal, r.hash = hash →
        s.Awaited inFlightTtlMs r

structure SenderState.Sound
    (s : SenderState)
    (inFlightTtlMs : Int)
    (nonceOf : Nat → Nat) : Prop where
  nonces :
    ∀ (i : Nat) (m : TxReceipt),
      s.chain.mined[i]? = some m → nonceOf m.hash = i
  unique : (s.journal.map (fun r => r.hash)).Nodup
  rowNonce : ∀ r ∈ s.journal, nonceOf r.hash = r.nonce
  created : ∀ r ∈ s.journal, r.createdAt ≤ s.now
  replaced :
    ∀ r ∈ s.journal, ∀ nonce mined,
      r.status = .dropped →
        r.error = some (.nonceUsed nonce mined) →
          NeverMined s.chain r
  rows :
    ∀ r ∈ s.journal,
      s.Done inFlightTtlMs r ∨ Checked s.journal r
  phase : s.PhaseSound inFlightTtlMs nonceOf

variable {inFlightTtlMs : Int} {nonceOf : Nat → Nat}
variable {s t : SenderState}

theorem SenderState.Start.sound
    (h : s.Start) :
    s.Sound inFlightTtlMs nonceOf := by
  rcases h with ⟨hMined, hJournal, hPhase⟩
  exact
    { nonces := fun i m hm => by
        rw [hMined] at hm
        simp at hm
      unique := by
        rw [hJournal]
        exact List.nodup_nil
      rowNonce := fun r hr => by
        rw [hJournal] at hr
        cases hr
      created := fun r hr => by
        rw [hJournal] at hr
        cases hr
      replaced := fun r hr => by
        rw [hJournal] at hr
        cases hr
      rows := fun r hr => by
        rw [hJournal] at hr
        cases hr
      phase := by
        unfold SenderState.PhaseSound
        rw [hPhase]
        trivial }

/- A receipt sits at the nonce that its hash fixes. -/
theorem SenderState.Sound.mined_at
    (h : s.Sound inFlightTtlMs nonceOf)
    {hash : Nat}
    {receipt : TxReceipt}
    (hReceipt : s.chain.getReceipt hash = some receipt) :
    s.chain.mined[nonceOf hash]? = some receipt ∧
      receipt.hash = hash := by
  rcases getReceipt_eq_some hReceipt with ⟨hHash, i, hAt⟩
  have hIndex := h.nonces i receipt hAt
  rw [hHash] at hIndex
  rw [hIndex]
  exact ⟨hAt, hHash⟩

/- An unmined transaction whose nonce is used stays unmined. -/
theorem neverMined_of_used
    {r : V2TxRow}
    (hUnmined : s.chain.getReceipt r.hash = none)
    (hUsed : r.nonce < s.chain.minedNonce) :
    NeverMined s.chain r := by
  have hAt := List.getElem?_eq_getElem hUsed
  refine ⟨_, hAt, ?_⟩
  intro hSame
  have hSome := getReceipt_isSome hAt
  rw [hSame] at hSome
  exact hSome hUnmined

/- While its nonce is free, a row is only waited out. -/
theorem SenderState.Sound.awaited_of_free
    (h : s.Sound inFlightTtlMs nonceOf)
    {r : V2TxRow}
    (hr : r ∈ s.journal)
    (hFree : s.chain.minedNonce ≤ nonceOf r.hash) :
    s.Awaited inFlightTtlMs r := by
  have hNothing : s.chain.mined[nonceOf r.hash]? = none :=
    List.getElem?_eq_none hFree
  rcases h.rows r hr with (hTrue | hNever | hOld) | hNext
  · rcases hTrue with ⟨receipt, hReceipt, _⟩
    have hAt := (h.mined_at hReceipt).1
    rw [hNothing] at hAt
    cases hAt
  · rcases hNever with ⟨receipt, hAt, _⟩
    rw [← h.rowNonce r hr, hNothing] at hAt
    cases hAt
  · exact .inl hOld
  · exact .inr hNext

end

----
-- One Step
----

section

variable {inFlightTtlMs : Int} {nonceOf : Nat → Nat}
variable {s t : SenderState}

/- The chain only grows. -/
structure TxChain.Grows
    (chain chain' : TxChain) : Prop where
  receipt :
    ∀ hash m, chain.getReceipt hash = some m →
      chain'.getReceipt hash = some m
  mined :
    ∀ (i : Nat) (m : TxReceipt), chain.mined[i]? = some m →
      chain'.mined[i]? = some m

theorem TxChain.grows_withMined
    (chain : TxChain)
    (receipt : TxReceipt) :
    chain.Grows (chain.withMined receipt) where
  receipt := fun _ _ h => getReceipt_withMined_of_some h _
  mined := by
    intro i m h
    unfold TxChain.withMined
    have hLt := (List.getElem?_eq_some_iff.mp h).1
    rw [List.getElem?_append_left hLt]
    exact h

theorem TxChain.grows_pool
    (chain : TxChain)
    (mempool : List Nat) :
    chain.Grows { chain with mempool := mempool } where
  receipt := fun _ _ h => h
  mined := fun _ _ h => h

variable {r : V2TxRow}

theorem NeverMined.grows
    {chain chain' : TxChain}
    (hGrows : chain.Grows chain')
    (h : NeverMined chain r) :
    NeverMined chain' r := by
  rcases h with ⟨receipt, hAt, hNe⟩
  exact ⟨receipt, hGrows.mined _ _ hAt, hNe⟩

/- What is done stays done as chain and clock move on. -/
theorem SenderState.Done.moved
    (h : s.Done inFlightTtlMs r)
    (hGrows : s.chain.Grows t.chain)
    (hNow : s.now ≤ t.now) :
    t.Done inFlightTtlMs r := by
  rcases h with ⟨receipt, hReceipt, hStatus⟩ | hNever | hOld
  · exact .inl ⟨receipt, hGrows.receipt _ _ hReceipt, hStatus⟩
  · exact .inr (.inl (hNever.grows hGrows))
  · exact .inr (.inr (hOld.trans hNow))

theorem SenderState.Awaited.moved
    (h : s.Awaited inFlightTtlMs r)
    (hJournal : t.journal = s.journal)
    (hNow : s.now ≤ t.now) :
    t.Awaited inFlightTtlMs r := by
  rcases h with hOld | hChecked
  · exact .inl (hOld.trans hNow)
  · right
    rw [hJournal]
    exact hChecked

theorem SenderState.PhaseSound.moved
    (h : s.PhaseSound inFlightTtlMs nonceOf)
    (hPhase : t.phase = s.phase)
    (hJournal : t.journal = s.journal)
    (hGrows : s.chain.Grows t.chain)
    (hNow : s.now ≤ t.now)
    (hQuiet : Undisturbed s t) :
    t.PhaseSound inFlightTtlMs nonceOf := by
  unfold SenderState.PhaseSound at *
  rw [hPhase, hJournal]
  cases hAt : s.phase with
  | idle => trivial
  | receipt kind key previous =>
      rw [hAt] at h
      exact h
  | mined kind key previous ageMs =>
      rw [hAt] at h
      exact
        ⟨h.1, hQuiet kind key previous ageMs hAt h.2.1,
          h.2.2.trans hNow⟩
  | cleared kind key =>
      rw [hAt] at h
      exact fun r hr hKind hKey =>
        (h r hr hKind hKey).moved hGrows hNow
  | taken kind key nonce =>
      rw [hAt] at h
      exact fun r hr hKind hKey =>
        (h r hr hKind hKey).moved hGrows hNow
  | accepted kind key nonce hash =>
      rw [hAt] at h
      exact
        ⟨fun r hr hKind hKey =>
            (h.1 r hr hKind hKey).moved hGrows hNow,
          h.2.1,
          fun r hr hHash =>
            (h.2.2 r hr hHash).moved hJournal hNow⟩
  | waiting kind key nonce hash =>
      rw [hAt] at h
      exact fun r hr hHash =>
        (h r hr hHash).moved hJournal hNow

/- The chain and the clock move, the sender does not. -/
theorem SenderState.Sound.moved
    (h : s.Sound inFlightTtlMs nonceOf)
    (hPhase : t.phase = s.phase)
    (hJournal : t.journal = s.journal)
    (hGrows : s.chain.Grows t.chain)
    (hNow : s.now ≤ t.now)
    (hNonces :
      ∀ (i : Nat) (m : TxReceipt),
        t.chain.mined[i]? = some m → nonceOf m.hash = i)
    (hQuiet : Undisturbed s t) :
    t.Sound inFlightTtlMs nonceOf where
  nonces := hNonces
  unique := hJournal ▸ h.unique
  rowNonce := hJournal ▸ h.rowNonce
  created := by
    intro r hr
    rw [hJournal] at hr
    exact (h.created r hr).trans hNow
  replaced := by
    intro r hr nonce mined hStatus hError
    rw [hJournal] at hr
    exact
      (h.replaced r hr nonce mined hStatus hError).grows
        hGrows
  rows := by
    intro r hr
    rw [hJournal] at hr ⊢
    rcases h.rows r hr with hDone | hChecked
    · exact .inl (hDone.moved hGrows hNow)
    · exact .inr hChecked
  phase := h.phase.moved hPhase hJournal hGrows hNow hQuiet

/- The sender moves on; chain, clock and journal stay. -/
theorem SenderState.Sound.phased
    (h : s.Sound inFlightTtlMs nonceOf)
    (phase : TxPhase)
    (nextNonce : Option Nat)
    (mempool : List Nat)
    (hPhase :
      SenderState.PhaseSound
        { s with
          chain := { s.chain with mempool := mempool }
          phase := phase
          nextNonce := nextNonce }
        inFlightTtlMs nonceOf) :
    SenderState.Sound
      { s with
        chain := { s.chain with mempool := mempool }
        phase := phase
        nextNonce := nextNonce }
      inFlightTtlMs nonceOf where
  nonces := h.nonces
  unique := h.unique
  rowNonce := h.rowNonce
  created := h.created
  replaced := h.replaced
  rows := h.rows
  phase := hPhase

section Result

variable
  (hash : Nat)
  (status : V2TxStatus)
  (blockNumber gasUsed : Option Int)
  (error : Option TxError)

/- The journal after a result has come in for a hash. -/
def SenderState.resulted
    (s : SenderState)
    (phase : TxPhase)
    (nextNonce : Option Nat) : SenderState :=
  { s with
    journal :=
      recordTxResult s.journal hash status blockNumber gasUsed
        error s.now
    phase := phase
    nextNonce := nextNonce }

theorem onResult_of_ne
    {r : V2TxRow}
    {now : Int}
    (h : r.hash ≠ hash) :
    r.onResult hash status blockNumber gasUsed error now =
      r :=
  if_neg h

theorem onResult_of_eq
    {r : V2TxRow}
    {now : Int}
    (h : r.hash = hash) :
    r.onResult hash status blockNumber gasUsed error now =
      r.withResult status blockNumber gasUsed error now :=
  if_pos h

/- A row whose hash has its result, and the rows beside it. -/
theorem SenderState.Sound.resulted
    (h : s.Sound inFlightTtlMs nonceOf)
    (phase : TxPhase)
    (nextNonce : Option Nat)
    (hRow :
      ∀ r ∈ s.journal, r.hash = hash →
        s.Done inFlightTtlMs
            (r.withResult status blockNumber gasUsed error
              s.now) ∨
          (status = .pending ∧
            latestTx s.journal r.kind r.key = some r))
    (hReplaced :
      ∀ r ∈ s.journal, r.hash = hash → ∀ nonce mined,
        status = .dropped →
          error = some (.nonceUsed nonce mined) →
            NeverMined s.chain r)
    (hPhase :
      (s.resulted hash status blockNumber gasUsed error phase
        nextNonce).PhaseSound inFlightTtlMs nonceOf) :
    (s.resulted hash status blockNumber gasUsed error phase
      nextNonce).Sound inFlightTtlMs nonceOf where
  nonces := h.nonces
  unique := by
    have hHashes :
        (recordTxResult s.journal hash status blockNumber
            gasUsed error s.now).map (fun r => r.hash) =
          s.journal.map (fun r => r.hash) := by
      rw [recordTxResult_eq, List.map_map]
      apply List.map_congr_left
      intro r hr
      simp
    exact hHashes ▸ h.unique
  rowNonce := by
    intro r hr
    rcases mem_recordTxResult _ _ _ _ _ _ hr with
      ⟨old, hOld, rfl⟩
    simpa using h.rowNonce old hOld
  created := by
    intro r hr
    rcases mem_recordTxResult _ _ _ _ _ _ hr with
      ⟨old, hOld, rfl⟩
    rw [onResult_createdAt]
    exact h.created old hOld
  replaced := by
    intro r hr nonce mined hStatus hError
    rcases mem_recordTxResult _ _ _ _ _ _ hr with
      ⟨old, hOld, rfl⟩
    rcases Decidable.em (old.hash = hash) with hHash | hOther
    · rw [onResult_of_eq _ _ _ _ _ hHash] at hStatus hError ⊢
      exact hReplaced old hOld hHash nonce mined hStatus hError
    · rw [onResult_of_ne _ _ _ _ _ hOther] at hStatus hError ⊢
      exact h.replaced old hOld nonce mined hStatus hError
  rows := by
    intro r hr
    rcases mem_recordTxResult _ _ _ _ _ _ hr with
      ⟨old, hOld, rfl⟩
    have hLatest :
        latestTx s.journal old.kind old.key = some old →
          latestTx
              (recordTxResult s.journal hash status
                blockNumber gasUsed error s.now)
              old.kind old.key =
            some
              (old.onResult hash status blockNumber gasUsed
                error s.now) := by
      intro hSome
      rw [latestTx_recordTxResult, hSome]
      rfl
    rcases Decidable.em (old.hash = hash) with hHash | hOther
    · rcases hRow old hOld hHash with
        hDone | ⟨hPending, hNewest⟩
      · left
        rw [onResult_of_eq _ _ _ _ _ hHash]
        exact hDone
      · right
        refine ⟨?_, ?_⟩
        · rw [onResult_of_eq _ _ _ _ _ hHash]
          exact hPending
        · rw [onResult_kind, onResult_key]
          exact hLatest hNewest
    · rcases h.rows old hOld with
        hDone | ⟨hPending, hNewest⟩
      · left
        rw [onResult_of_ne _ _ _ _ _ hOther]
        exact hDone
      · right
        refine ⟨?_, ?_⟩
        · rw [onResult_of_ne _ _ _ _ _ hOther]
          exact hPending
        · rw [onResult_kind, onResult_key]
          exact hLatest hNewest
  phase := hPhase

/- Every row of the checked key is done once its newest is. -/
theorem SenderState.Sound.cleared
    (h : s.Sound inFlightTtlMs nonceOf)
    {kind key : String}
    {previous : V2TxRow}
    (hNewest :
      latestTx s.journal kind key = some previous)
    (hDone :
      s.Done inFlightTtlMs
        (previous.withResult status blockNumber gasUsed error
          s.now))
    (nextNonce : Option Nat) :
    (s.resulted previous.hash status blockNumber gasUsed error
      (.cleared kind key) nextNonce).PhaseSound inFlightTtlMs
      nonceOf := by
  intro r hr hKind hKey
  rcases mem_recordTxResult _ _ _ _ _ _ hr with
    ⟨old, hOld, rfl⟩
  rw [onResult_kind] at hKind
  rw [onResult_key] at hKey
  have hPrevious := (latestTx_mem hNewest).1
  rcases Decidable.em (old.hash = previous.hash) with
    hHash | hOther
  · have hSame : old = previous :=
      List.inj_on_of_nodup_map h.unique hOld hPrevious hHash
    rw [onResult_of_eq _ _ _ _ _ hHash, hSame]
    exact hDone
  · rw [onResult_of_ne _ _ _ _ _ hOther]
    rcases h.rows old hOld with hOldDone | ⟨_, hLatest⟩
    · exact hOldDone
    · rw [hKind, hKey, hNewest] at hLatest
      cases hLatest
      exact absurd rfl hOther

end Result

end

----
-- Every Step
----

variable {inFlightTtlMs : Int} {nonceOf : Nat → Nat}
variable {s t : SenderState}

theorem SenderState.Sound.included
    (h : s.Sound inFlightTtlMs nonceOf)
    {receipt : TxReceipt}
    (hNonce : nonceOf receipt.hash = s.chain.minedNonce)
    (hQuiet :
      Undisturbed s
        { s with chain := s.chain.withMined receipt }) :
    SenderState.Sound
      { s with chain := s.chain.withMined receipt }
      inFlightTtlMs nonceOf := by
  refine
    h.moved rfl rfl (s.chain.grows_withMined receipt)
      (le_refl _) ?_ hQuiet
  intro i m hm
  simp only [TxChain.withMined] at hm
  rw [List.getElem?_append] at hm
  split at hm
  · exact h.nonces i m hm
  · next hLast =>
      have hIndex : i - s.chain.mined.length = 0 := by
        by_contra hBeyond
        rw [List.getElem?_eq_none (by
          simp only [List.length_singleton]
          omega)] at hm
        cases hm
      rw [hIndex] at hm
      cases hm
      unfold TxChain.minedNonce at hNonce
      omega

theorem SenderState.Sound.begun
    (h : s.Sound inFlightTtlMs nonceOf)
    (kind key : String) :
    SenderState.Sound
      { s with phase := beginExecute s.journal kind key }
      inFlightTtlMs nonceOf := by
  refine
    h.phased (beginExecute s.journal kind key) s.nextNonce
      s.chain.mempool ?_
  unfold beginExecute
  cases hNewest : latestTx s.journal kind key with
  | none =>
      intro r hr hKind hKey
      rcases h.rows r hr with hDone | ⟨_, hLatest⟩
      · exact hDone
      · rw [hKind, hKey, hNewest] at hLatest
        cases hLatest
  | some previous =>
      simp only
      split
      · next hResolved =>
          intro r hr hKind hKey
          rcases h.rows r hr with hDone | ⟨hPending, hLatest⟩
          · exact hDone
          · rw [hKind, hKey, hNewest] at hLatest
            cases hLatest
            exact absurd hPending hResolved
      · exact hNewest

variable {kind : String}

theorem SenderState.Sound.receiptRead
    (h : s.Sound inFlightTtlMs nonceOf)
    {key : String}
    {previous : V2TxRow}
    (hPhase : s.phase = .receipt kind key previous) :
    SenderState.Sound
      (let resolved :=
        resolveReceipt s.journal kind key previous
          (s.chain.getReceipt previous.hash) s.now
      { s with
        journal := resolved.1
        phase := resolved.2 })
      inFlightTtlMs nonceOf := by
  have hNewest : latestTx s.journal kind key = some previous := by
    have hSound := h.phase
    unfold SenderState.PhaseSound at hSound
    rw [hPhase] at hSound
    exact hSound
  unfold resolveReceipt
  cases hReceipt : s.chain.getReceipt previous.hash with
  | none =>
      refine
        h.phased
          (.mined kind key previous
            (s.now - previous.createdAt))
          s.nextNonce s.chain.mempool ?_
      refine ⟨hNewest, hReceipt, ?_⟩
      change
        previous.createdAt + (s.now - previous.createdAt) ≤
          s.now
      omega
  | some receipt =>
      have hDone :
          ∀ r : V2TxRow, r.hash = previous.hash →
            s.Done inFlightTtlMs
              (r.withResult receipt.status
                (some receipt.blockNumber)
                (some receipt.gasUsed)
                (if receipt.success then none
                  else some .receiptReverted)
                s.now) := by
        intro r hHash
        refine .inl ⟨receipt, ?_, rfl⟩
        change s.chain.getReceipt r.hash = some receipt
        rw [hHash]
        exact hReceipt
      refine
        h.resulted previous.hash receipt.status _ _ _
          (.cleared kind key) s.nextNonce
          (fun r _ hHash => .inl (hDone r hHash)) ?_
          (h.cleared _ _ _ _ hNewest (hDone previous rfl) _)
      intro r hr hHash nonce mined hDropped
      unfold TxReceipt.status at hDropped
      split at hDropped <;> cases hDropped

theorem SenderState.Sound.minedRead
    (h : s.Sound inFlightTtlMs nonceOf)
    {key : String}
    {previous : V2TxRow}
    {ageMs : Int}
    (hPhase : s.phase = .mined kind key previous ageMs) :
    SenderState.Sound
      (let resolved :=
        resolveMined inFlightTtlMs s.journal kind key previous
          ageMs s.chain.minedNonce s.now
      { s with
        journal := resolved.1
        phase := resolved.2 })
      inFlightTtlMs nonceOf := by
  have hSound := h.phase
  unfold SenderState.PhaseSound at hSound
  rw [hPhase] at hSound
  rcases hSound with ⟨hNewest, hUnmined, hAge⟩
  have hPrevious := (latestTx_mem hNewest).1
  have hOne :
      ∀ r ∈ s.journal, r.hash = previous.hash →
        r = previous :=
    fun r hr hHash =>
      List.inj_on_of_nodup_map h.unique hr hPrevious hHash
  unfold resolveMined
  split
  · next hUsed =>
      have hNever := neverMined_of_used hUnmined hUsed
      have hDone :
          s.Done inFlightTtlMs
            (previous.withResult .dropped none none
              (some
                (.nonceUsed previous.nonce
                  s.chain.minedNonce))
              s.now) :=
        .inr (.inl hNever)
      refine
        h.resulted previous.hash .dropped _ _ _
          (.cleared kind key) s.nextNonce ?_ ?_
          (h.cleared _ _ _ _ hNewest hDone _)
      · intro r hr hHash
        rw [hOne r hr hHash]
        exact .inl hDone
      · intro r hr hHash nonce mined _ _
        rw [hOne r hr hHash]
        exact hNever
  · split
    · exact h.phased .idle s.nextNonce s.chain.mempool trivial
    · next hOld =>
        have hDone :
            s.Done inFlightTtlMs
              (previous.withResult .dropped none none
                (some (.noReceipt ageMs)) s.now) := by
          refine .inr (.inr ?_)
          change previous.createdAt + inFlightTtlMs ≤ s.now
          omega
        refine
          h.resulted previous.hash .dropped _ _ _
            (.cleared kind key) s.nextNonce ?_ ?_
            (h.cleared _ _ _ _ hNewest hDone _)
        · intro r hr hHash
          rw [hOne r hr hHash]
          exact .inl hDone
        · intro r hr hHash nonce mined _ hError
          cases hError

variable {nonce : Nat}

section

variable (h : s.Sound inFlightTtlMs nonceOf)
include h

theorem SenderState.Sound.broadcast
    {key : String}
    (hPhase : s.phase = .taken kind key nonce)
    (hHash : nonceOf hash = nonce)
    (hFree : s.chain.minedNonce ≤ nonce) :
    SenderState.Sound
      { s with
        chain :=
          { s.chain with mempool := hash :: s.chain.mempool }
        phase := .accepted kind key nonce hash }
      inFlightTtlMs nonceOf := by
  have hSound := h.phase
  unfold SenderState.PhaseSound at hSound
  rw [hPhase] at hSound
  refine
    h.phased (.accepted kind key nonce hash) s.nextNonce
      (hash :: s.chain.mempool) ?_
  refine ⟨hSound, hHash, ?_⟩
  intro r hr hSame
  rw [← hHash, ← hSame] at hFree
  exact h.awaited_of_free hr hFree

theorem SenderState.Sound.recorded
    {key : String}
    (hPhase : s.phase = .accepted kind key nonce hash) :
    SenderState.Sound
      { s with
        journal :=
          recordTxSubmitted s.journal hash kind key nonce
            s.now
        phase := .waiting kind key nonce hash
        nextNonce := some (nonce + 1) }
      inFlightTtlMs nonceOf := by
  have hSound := h.phase
  unfold SenderState.PhaseSound at hSound
  rw [hPhase] at hSound
  rcases hSound with ⟨hKeyDone, hNonce, hAwaited⟩
  unfold recordTxSubmitted
  split
  · -- The hash is in the journal already: nothing is written.
    exact
      h.phased (.waiting kind key nonce hash)
        (some (nonce + 1)) s.chain.mempool hAwaited
  · next hNew =>
      have hNewest :
          ∀ r : V2TxRow, r.createdAt = s.now →
            latestTx (s.journal ++ [r]) r.kind r.key =
              some r := by
        intro r hCreated
        apply latestTx_concat_self
        intro x hx
        rw [hCreated]
        exact h.created x hx
      have hOther : ∀ r ∈ s.journal, r.hash ≠ hash := by
        intro r hr hSame
        exact hNew (List.mem_map.mpr ⟨r, hr, hSame⟩)
      constructor
      · exact h.nonces
      · rw [List.map_append, List.nodup_append]
        refine ⟨h.unique, by simp, ?_⟩
        intro a ha b hb
        rcases List.mem_map.mp ha with ⟨r, hr, rfl⟩
        simp only [List.map_cons, List.map_nil,
          List.mem_singleton] at hb
        rw [hb]
        exact hOther r hr
      · intro r hr
        rcases List.mem_append.mp hr with hOld | hLast
        · exact h.rowNonce r hOld
        · rw [List.mem_singleton.mp hLast]
          exact hNonce
      · intro r hr
        rcases List.mem_append.mp hr with hOld | hLast
        · exact h.created r hOld
        · rw [List.mem_singleton.mp hLast]
      · intro r hr n m hStatus hError
        rcases List.mem_append.mp hr with hOld | hLast
        · exact h.replaced r hOld n m hStatus hError
        · rw [List.mem_singleton.mp hLast] at hStatus
          cases hStatus
      · intro r hr
        rcases List.mem_append.mp hr with hOld | hLast
        · rcases Decidable.em
              (kind = r.kind ∧ key = r.key) with
            ⟨hKind, hKey⟩ | hElse
          · exact .inl
              (hKeyDone r hOld hKind.symm hKey.symm)
          · rcases h.rows r hOld with
              hDone | ⟨hPending, hLatest⟩
            · exact .inl hDone
            · right
              refine ⟨hPending, ?_⟩
              rw [latestTx_concat_of_ne hElse]
              exact hLatest
        · rw [List.mem_singleton.mp hLast]
          exact .inr ⟨rfl, hNewest _ rfl⟩
      · intro r hr hSame
        rcases List.mem_append.mp hr with hOld | hLast
        · exact absurd hSame (hOther r hOld)
        · rw [List.mem_singleton.mp hLast]
          exact .inr ⟨rfl, hNewest _ rfl⟩

theorem SenderState.Sound.confirmed
    {receipt : TxReceipt}
    (hReceipt : s.chain.getReceipt hash = some receipt) :
    (s.resulted hash receipt.status
        (some receipt.blockNumber) (some receipt.gasUsed)
        (if receipt.success then none
          else some .receiptReverted)
        .idle s.nextNonce).Sound inFlightTtlMs nonceOf := by
  apply h.resulted
  · intro r hr hHash
    refine .inl (.inl ⟨receipt, ?_, rfl⟩)
    change s.chain.getReceipt r.hash = some receipt
    rw [hHash]
    exact hReceipt
  · intro r hr hHash nonce mined hDropped
    unfold TxReceipt.status at hDropped
    split at hDropped <;> cases hDropped
  · trivial

theorem SenderState.Sound.unconfirmed
    {key : String}
    (message : String)
    (hPhase : s.phase = .waiting kind key nonce hash) :
    (s.resulted hash .pending none none
        (some (.unconfirmed message)) .idle none).Sound
      inFlightTtlMs nonceOf := by
  have hSound := h.phase
  unfold SenderState.PhaseSound at hSound
  rw [hPhase] at hSound
  apply h.resulted
  · intro r hr hHash
    rcases hSound r hr hHash with hOld | ⟨_, hLatest⟩
    · exact .inl (.inr (.inr hOld))
    · exact .inr ⟨rfl, hLatest⟩
  · intro r hr hHash n m hDropped
    cases hDropped
  · trivial

theorem SenderState.Sound.step
    (hStep : TxStep inFlightTtlMs nonceOf s t)
    (hQuiet : Undisturbed s t) :
    t.Sound inFlightTtlMs nonceOf := by
  cases hStep with
  | clock now hNow =>
      exact
        h.moved rfl rfl ⟨fun _ _ h => h, fun _ _ h => h⟩ hNow
          h.nonces hQuiet
  | included receipt hPool hNonce =>
      exact h.included hNonce hQuiet
  | pool mempool =>
      exact
        h.moved rfl rfl (s.chain.grows_pool mempool)
          (le_refl _) h.nonces hQuiet
  | begun kind key hPhase => exact h.begun kind key
  | receiptRead kind key previous hPhase =>
      exact h.receiptRead hPhase
  | minedRead kind key previous ageMs hPhase =>
      exact h.minedRead hPhase
  | nonceTaken kind key pending hPhase hPending =>
      have hSound := h.phase
      unfold SenderState.PhaseSound at hSound
      rw [hPhase] at hSound
      exact
        h.phased (.taken kind key _) s.nextNonce
          s.chain.mempool hSound
  | broadcast kind key nonce hash hPhase hHash hFree =>
      exact h.broadcast hPhase hHash hFree
  | answerLost kind key nonce hash hPhase hHash =>
      exact h.phased .idle none _ trivial
  | recorded kind key nonce hash hPhase =>
      exact h.recorded hPhase
  | confirmed kind key nonce hash receipt hPhase hReceipt =>
      exact h.confirmed hReceipt
  | unconfirmed kind key nonce hash message hPhase =>
      exact h.unconfirmed message hPhase
  | stopped hPhase nextNonce hNonce =>
      exact h.phased .idle nextNonce s.chain.mempool trivial

end

/- The runs in which no step disturbs an in-flight check. -/
def QuietStep
    (inFlightTtlMs : Int)
    (nonceOf : Nat → Nat)
    (s t : SenderState) : Prop :=
  TxStep inFlightTtlMs nonceOf s t ∧ Undisturbed s t

theorem sound_of_quiet
    (h :
      Transition.Reachable SenderState.Start
        (QuietStep inFlightTtlMs nonceOf) s) :
    s.Sound inFlightTtlMs nonceOf :=
  Transition.invariant
    (fun s => s.Sound inFlightTtlMs nonceOf)
    (fun _ hStart => hStart.sound)
    (fun _ _ hSound hStep => hSound.step hStep.1 hStep.2) h

/-
  In a run that never includes a transaction between the two
  reads of its own in-flight check: whenever the sender is
  about to broadcast for (kind, key), every journal row of
  that key younger than the TTL has its receipt's status or
  can never be mined; and a row dropped for a used nonce lost
  that nonce to another transaction.
-/
theorem resent_only_when_settled
    (inFlightTtlMs : Int)
    (nonceOf : Nat → Nat)
    (s : SenderState)
    (h :
      Transition.Reachable SenderState.Start
        (QuietStep inFlightTtlMs nonceOf) s) :
    (∀ kind key nonce, s.phase = .taken kind key nonce →
        ∀ r ∈ s.journal, r.kind = kind → r.key = key →
          s.now < r.createdAt + inFlightTtlMs →
            TrueStatus s.chain r ∨ NeverMined s.chain r) ∧
      ∀ r ∈ s.journal, ∀ nonce mined,
        r.status = .dropped →
          r.error = some (.nonceUsed nonce mined) →
            NeverMined s.chain r := by
  have hSound := sound_of_quiet h
  refine ⟨?_, hSound.replaced⟩
  intro kind key nonce hPhase r hr hKind hKey hYoung
  have hTaken := hSound.phase
  unfold SenderState.PhaseSound at hTaken
  rw [hPhase] at hTaken
  rcases hTaken r hr hKind hKey with hTrue | hNever | hOld
  · exact .inl hTrue
  · exact .inr hNever
  · omega

def freshSender : SenderState :=
  { chain := { mined := [], mempool := [] }
    journal := []
    phase := .idle
    nextNonce := none
    now := 0 }

/- The mined form of the transaction with this hash. -/
def minedAs
    (hash : Nat) : TxReceipt :=
  { hash := hash
    success := true
    blockNumber := 1
    gasUsed := 21000 }

/- The journal's row of a submission at nonce 0. -/
def sentRow
    (status : V2TxStatus)
    (error : Option TxError) : V2TxRow :=
  { hash := 0
    kind := "settle"
    key := "7"
    nonce := 0
    status := status
    blockNumber := none
    gasUsed := none
    error := error
    createdAt := 0
    updatedAt := 0 }

/- The sender in one phase of its second execute(). -/
def sendingAgain
    (chain : TxChain)
    (row : V2TxRow)
    (phase : TxPhase) : SenderState :=
  { freshSender with
    chain := chain
    journal := [row]
    phase := phase }

def timedOutRow : V2TxRow :=
  sentRow .pending (some (.unconfirmed "timeout"))

def replacedRow : V2TxRow :=
  sentRow .dropped (some (.nonceUsed 0 1))

theorem freshSender_starts :
    freshSender.Start :=
  ⟨rfl, rfl, rfl⟩

theorem QuietStep.of_phase
    {inFlightTtlMs : Int}
    {s t : SenderState}
    (hStep : TxStep inFlightTtlMs nonceOf s t)
    (hPhase :
      ∀ kind key previous ageMs,
        s.phase ≠ .mined kind key previous ageMs) :
    QuietStep inFlightTtlMs nonceOf s t :=
  ⟨hStep, fun kind key previous ageMs hMined =>
    absurd hMined (hPhase kind key previous ageMs)⟩

/- The first execute(), up to its wait timing out. -/
theorem timedOut_reached
    (hZero : nonceOf 0 = 0) :
    Transition.Reachable SenderState.Start
      (QuietStep 600000 nonceOf)
      (sendingAgain { mined := [], mempool := [0] }
        timedOutRow .idle) := by
  have hBegun :
      Transition.Reachable SenderState.Start
        (QuietStep 600000 nonceOf)
        { freshSender with phase := .cleared "settle" "7" } :=
    (Transition.Reachable.init freshSender_starts).step
      (.of_phase (.begun _ "settle" "7" rfl) (fun _ _ _ _ h => by cases h))
  have hTaken :
      Transition.Reachable SenderState.Start
        (QuietStep 600000 nonceOf)
        { freshSender with phase := .taken "settle" "7" 0 } :=
    hBegun.step
      (.of_phase
        (.nonceTaken _ "settle" "7" 0 rfl (le_refl _)) (fun _ _ _ _ h => by cases h))
  have hSent :
      Transition.Reachable SenderState.Start
        (QuietStep 600000 nonceOf)
        { freshSender with
          chain := { mined := [], mempool := [0] }
          phase := .accepted "settle" "7" 0 0 } :=
    hTaken.step
      (.of_phase
        (.broadcast _ "settle" "7" 0 0 rfl hZero (le_refl _))
        (fun _ _ _ _ h => by cases h))
  have hRow :
      Transition.Reachable SenderState.Start
        (QuietStep 600000 nonceOf)
        { freshSender with
          chain := { mined := [], mempool := [0] }
          journal := [sentRow .pending none]
          phase := .waiting "settle" "7" 0 0
          nextNonce := some 1 } :=
    hSent.step
      (.of_phase (.recorded _ "settle" "7" 0 0 rfl) (fun _ _ _ _ h => by cases h))
  exact
    hRow.step
      (.of_phase
        (.unconfirmed _ "settle" "7" 0 0 "timeout" rfl) (fun _ _ _ _ h => by cases h))

/- The nonce went to another transaction, of hash 10. -/
abbrev ReplacedReached
    (row : V2TxRow)
    (phase : TxPhase) : Prop :=
  Transition.Reachable SenderState.Start
    (QuietStep 600000 (fun hash => hash % 10))
    (sendingAgain { mined := [minedAs 10], mempool := [10] } row
      phase)

/-
  Sent at nonce 0 and not confirmed in time, lost, and its
  nonce taken by another transaction of the key: it is sent
  again, rightly.
-/
theorem replaced_tx_is_settled :
    ∃ (s : SenderState) (r : V2TxRow),
      s.phase = .taken "settle" "7" 1 ∧ r ∈ s.journal ∧
        r.status = .dropped ∧ s.now < r.createdAt + 600000 ∧
        (TrueStatus s.chain r ∨ NeverMined s.chain r) := by
  have hMined : ReplacedReached timedOutRow .idle :=
    ((timedOut_reached rfl).step
      (.of_phase (.pool _ [10])
        (fun _ _ _ _ h => by cases h))).step
      (.of_phase
        (.included _ (minedAs 10) (by decide) rfl)
        (fun _ _ _ _ h => by cases h))
  have hBegun :
      ReplacedReached timedOutRow
        (.receipt "settle" "7" timedOutRow) :=
    hMined.step
      (.of_phase (.begun _ "settle" "7" rfl)
        (fun _ _ _ _ h => by cases h))
  have hBetween :
      ReplacedReached timedOutRow
        (.mined "settle" "7" timedOutRow 0) :=
    hBegun.step
      (.of_phase
        (.receiptRead _ "settle" "7" timedOutRow rfl)
        (fun _ _ _ _ h => by cases h))
  have hDropped :
      ReplacedReached replacedRow (.cleared "settle" "7") :=
    hBetween.step
      ⟨.minedRead _ "settle" "7" timedOutRow 0 rfl,
        fun _ _ _ _ _ hNone => hNone⟩
  have hTaken :
      ReplacedReached replacedRow (.taken "settle" "7" 1) :=
    hDropped.step
      (.of_phase
        (.nonceTaken _ "settle" "7" 1 rfl (le_refl _))
        (fun _ _ _ _ h => by cases h))
  exact
    ⟨_, replacedRow, rfl, List.mem_singleton.mpr rfl, rfl,
      by decide,
      (resent_only_when_settled 600000
        (fun hash => hash % 10) _ hTaken).1
        "settle" "7" 1 rfl replacedRow
        (List.mem_singleton.mpr rfl) rfl rfl (by decide)⟩

/-
  Included between the receipt read and the mined-count read
  of its own in-flight check, a transaction is dropped as
  "nonce used by another transaction", and a second copy goes
  out.
-/
theorem mined_between_reads_is_resent :
    ∃ (s : SenderState) (r : V2TxRow),
      Transition.Reachable SenderState.Start
          (TxStep 600000 (fun hash => hash)) s ∧
        s.phase = .taken "settle" "7" 1 ∧ r ∈ s.journal ∧
        r.kind = "settle" ∧ r.key = "7" ∧
        s.now < r.createdAt + 600000 ∧
        r.status = .dropped ∧
        r.error = some (.nonceUsed 0 1) ∧
        ¬ TrueStatus s.chain r ∧ ¬ NeverMined s.chain r := by
  have hTimedOut :
      Transition.Reachable SenderState.Start
        (TxStep 600000 (fun hash => hash))
        (sendingAgain { mined := [], mempool := [0] }
          timedOutRow .idle) :=
    (timedOut_reached rfl).mono (fun _ _ h => h.1)
  have hBegun :
      Transition.Reachable SenderState.Start
        (TxStep 600000 (fun hash => hash))
        (sendingAgain { mined := [], mempool := [0] }
          timedOutRow (.receipt "settle" "7" timedOutRow)) :=
    hTimedOut.step (.begun _ "settle" "7" rfl)
  have hBetween :
      Transition.Reachable SenderState.Start
        (TxStep 600000 (fun hash => hash))
        (sendingAgain { mined := [], mempool := [0] }
          timedOutRow (.mined "settle" "7" timedOutRow 0)) :=
    hBegun.step (.receiptRead _ "settle" "7" timedOutRow rfl)
  have hMined :
      Transition.Reachable SenderState.Start
        (TxStep 600000 (fun hash => hash))
        (sendingAgain
          { mined := [minedAs 0], mempool := [0] }
          timedOutRow (.mined "settle" "7" timedOutRow 0)) :=
    hBetween.step (.included _ (minedAs 0) (by decide) rfl)
  have hDropped :
      Transition.Reachable SenderState.Start
        (TxStep 600000 (fun hash => hash))
        (sendingAgain
          { mined := [minedAs 0], mempool := [0] }
          replacedRow (.cleared "settle" "7")) :=
    hMined.step (.minedRead _ "settle" "7" timedOutRow 0 rfl)
  refine
    ⟨_, replacedRow,
      hDropped.step
        (.nonceTaken _ "settle" "7" 1 rfl (le_refl _)),
      rfl, List.mem_singleton.mpr rfl, rfl, rfl, by decide,
      rfl, rfl, ?_, ?_⟩
  · rintro ⟨receipt, hRead, hStatus⟩
    cases hRead
    cases hStatus
  · rintro ⟨receipt, hAt, hNe⟩
    cases hAt
    exact hNe rfl

end Callhouse.Keeper
