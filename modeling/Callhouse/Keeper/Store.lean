import Mathlib.Tactic

/-
  keeper/src/v2/store.ts: the transaction journal, as the
  rows of `v2_txs` in insertion order.

  Main declarations:
    * `recordTxSubmitted`, `recordTxResult`, `latestTx`
    * `latestTx_concat_self`
    * `latestTx_recordTxResult`
-/

----
-- The Journal
----

namespace Callhouse.Keeper

inductive V2TxStatus where
  | pending
  | success
  | reverted
  | dropped
deriving DecidableEq

/- The texts that the sender writes beside a status. -/
inductive TxError where
  | receiptReverted
  | nonceUsed (nonce mined : Nat)
  | noReceipt (ageMs : Int)
  | unconfirmed (message : String)
deriving DecidableEq

def TxError.text : TxError → String
  | .receiptReverted => "receipt status: reverted"
  | .nonceUsed nonce mined =>
      s!"nonce {nonce} was used by another transaction " ++
        s!"(mined count {mined}); never mined"
  | .noReceipt ageMs =>
      let seconds := (2 * ageMs + 1000) / 2000
      s!"no receipt {seconds} s after submission"
  | .unconfirmed message => message

structure V2TxRow where
  hash : Nat
  kind : String
  key : String
  nonce : Nat
  status : V2TxStatus
  blockNumber : Option Int
  gasUsed : Option Int
  error : Option TxError
  createdAt : Int
  updatedAt : Int
deriving DecidableEq

/- A new pending row; a hash already there changes nothing. -/
def recordTxSubmitted
    (rows : List V2TxRow)
    (hash : Nat)
    (kind key : String)
    (nonce : Nat)
    (now : Int) : List V2TxRow :=
  if hash ∈ rows.map (fun r => r.hash) then rows
  else
    rows ++
      [{ hash := hash
         kind := kind
         key := key
         nonce := nonce
         status := .pending
         blockNumber := none
         gasUsed := none
         error := none
         createdAt := now
         updatedAt := now }]

def V2TxRow.withResult
    (r : V2TxRow)
    (status : V2TxStatus)
    (blockNumber gasUsed : Option Int)
    (error : Option TxError)
    (now : Int) : V2TxRow :=
  { r with
    status := status
    blockNumber := blockNumber
    gasUsed := gasUsed
    error := error
    updatedAt := now }

def recordTxResult
    (rows : List V2TxRow)
    (hash : Nat)
    (status : V2TxStatus)
    (blockNumber gasUsed : Option Int)
    (error : Option TxError)
    (now : Int) : List V2TxRow :=
  rows.map (fun r =>
    if r.hash = hash then
      r.withResult status blockNumber gasUsed error now
    else r)

/- The later of two rows: by creation, then by insertion. -/
def newerTx
    (best : Option V2TxRow)
    (r : V2TxRow) : Option V2TxRow :=
  match best with
  | none => some r
  | some b => if b.createdAt ≤ r.createdAt then some r else some b

/- The newest submission for (kind, key), resolved or not. -/
def latestTx
    (rows : List V2TxRow)
    (kind key : String) : Option V2TxRow :=
  (rows.filter
    (fun r => r.kind = kind ∧ r.key = key)).foldl newerTx none

----
-- Reading and Writing Rows
----

variable {rows : List V2TxRow} {r : V2TxRow}

theorem foldl_newerTx_mem
    (rows : List V2TxRow)
    (best : Option V2TxRow)
    (h : rows.foldl newerTx best = some r) :
    best = some r ∨ r ∈ rows := by
  induction rows generalizing best with
  | nil => exact .inl h
  | cons first rest ih =>
      rcases ih (newerTx best first) h with hBest | hRest
      · cases best with
        | none =>
            cases hBest
            exact .inr (List.mem_cons_self ..)
        | some b =>
            simp only [newerTx] at hBest
            split at hBest
            · cases hBest
              exact .inr (List.mem_cons_self ..)
            · exact .inl hBest
      · exact .inr (List.mem_cons_of_mem _ hRest)

theorem latestTx_mem
    {kind key : String}
    (h : latestTx rows kind key = some r) :
    r ∈ rows ∧ r.kind = kind ∧ r.key = key := by
  rcases foldl_newerTx_mem _ none h with hNone | hMem
  · cases hNone
  · rcases List.mem_filter.mp hMem with ⟨hIn, hKey⟩
    exact ⟨hIn, of_decide_eq_true hKey⟩

/- A row created no earlier than the others is the newest. -/
theorem latestTx_concat_self
    (h : ∀ x ∈ rows, x.createdAt ≤ r.createdAt) :
    latestTx (rows ++ [r]) r.kind r.key = some r := by
  unfold latestTx
  rw [List.filter_append, List.foldl_append]
  have hSelf :
      [r].filter (fun x => x.kind = r.kind ∧ x.key = r.key) =
        [r] := by
    simp
  rw [hSelf, List.foldl_cons, List.foldl_nil]
  cases hBest :
      (rows.filter
        (fun x => x.kind = r.kind ∧ x.key = r.key)).foldl
        newerTx none with
  | none => rfl
  | some best =>
      have hIn := latestTx_mem hBest
      simp only [newerTx]
      rw [if_pos (h best hIn.1)]

theorem latestTx_concat_of_ne
    {kind key : String}
    (h : ¬ (r.kind = kind ∧ r.key = key)) :
    latestTx (rows ++ [r]) kind key =
      latestTx rows kind key := by
  unfold latestTx
  rw [List.filter_append, List.filter_singleton]
  simp [h]

/- The effect of a result on one row. -/
def V2TxRow.onResult
    (r : V2TxRow)
    (hash : Nat)
    (status : V2TxStatus)
    (blockNumber gasUsed : Option Int)
    (error : Option TxError)
    (now : Int) : V2TxRow :=
  if r.hash = hash then
    r.withResult status blockNumber gasUsed error now
  else r

theorem recordTxResult_eq
    (rows : List V2TxRow)
    (hash : Nat)
    (status : V2TxStatus)
    (blockNumber gasUsed : Option Int)
    (error : Option TxError)
    (now : Int) :
    recordTxResult rows hash status blockNumber gasUsed error
        now =
      rows.map (fun r =>
        r.onResult hash status blockNumber gasUsed error
          now) := rfl

section Result

variable (hash : Nat)
  (status : V2TxStatus)
  (blockNumber gasUsed : Option Int)
  (error : Option TxError)
  (now : Int)

@[simp] theorem onResult_hash
    (r : V2TxRow) :
    (r.onResult hash status blockNumber gasUsed error
      now).hash = r.hash := by
  unfold V2TxRow.onResult
  split <;> rfl

@[simp] theorem onResult_kind
    (r : V2TxRow) :
    (r.onResult hash status blockNumber gasUsed error
      now).kind = r.kind := by
  unfold V2TxRow.onResult
  split <;> rfl

@[simp] theorem onResult_key
    (r : V2TxRow) :
    (r.onResult hash status blockNumber gasUsed error
      now).key = r.key := by
  unfold V2TxRow.onResult
  split <;> rfl

@[simp] theorem onResult_nonce
    (r : V2TxRow) :
    (r.onResult hash status blockNumber gasUsed error
      now).nonce = r.nonce := by
  unfold V2TxRow.onResult
  split <;> rfl

@[simp] theorem onResult_createdAt
    (r : V2TxRow) :
    (r.onResult hash status blockNumber gasUsed error
      now).createdAt = r.createdAt := by
  unfold V2TxRow.onResult
  split <;> rfl

theorem newerTx_onResult
    (best : Option V2TxRow)
    (r : V2TxRow) :
    newerTx
        (best.map (fun b =>
          b.onResult hash status blockNumber gasUsed error
            now))
        (r.onResult hash status blockNumber gasUsed error
          now) =
      (newerTx best r).map (fun b =>
        b.onResult hash status blockNumber gasUsed error
          now) := by
  cases best with
  | none => rfl
  | some b =>
      simp only [newerTx, Option.map_some,
        onResult_createdAt]
      split <;> rfl

/- A result moves no row and changes no row's key or age. -/
theorem latestTx_recordTxResult
    (rows : List V2TxRow)
    (kind key : String) :
    latestTx
        (recordTxResult rows hash status blockNumber gasUsed
          error now) kind key =
      (latestTx rows kind key).map (fun r =>
        r.onResult hash status blockNumber gasUsed error
          now) := by
  unfold latestTx
  rw [recordTxResult_eq, List.filter_map]
  have hKeep :
      ((fun r : V2TxRow =>
          decide (r.kind = kind ∧ r.key = key)) ∘
        (fun r : V2TxRow =>
          r.onResult hash status blockNumber gasUsed error
            now)) =
        fun r : V2TxRow =>
          decide (r.kind = kind ∧ r.key = key) := by
    funext r
    simp
  rw [hKeep]
  generalize
    rows.filter
      (fun r => decide (r.kind = kind ∧ r.key = key)) = mine
  have hFold :
      ∀ best : Option V2TxRow,
        (mine.map (fun r =>
            r.onResult hash status blockNumber gasUsed error
              now)).foldl newerTx
            (best.map (fun r =>
              r.onResult hash status blockNumber gasUsed
                error now)) =
          (mine.foldl newerTx best).map (fun r =>
            r.onResult hash status blockNumber gasUsed error
              now) := by
    induction mine with
    | nil => exact fun best => rfl
    | cons r rest ih =>
        intro best
        rw [List.map_cons, List.foldl_cons, List.foldl_cons,
          newerTx_onResult, ih]
  exact hFold none

theorem mem_recordTxResult
    {r : V2TxRow}
    (h :
      r ∈ recordTxResult rows hash status blockNumber gasUsed
        error now) :
    ∃ old ∈ rows,
      r =
        old.onResult hash status blockNumber gasUsed error
          now := by
  rw [recordTxResult_eq] at h
  rcases List.mem_map.mp h with ⟨old, hOld, hEq⟩
  exact ⟨old, hOld, hEq.symm⟩

end Result

end Callhouse.Keeper
