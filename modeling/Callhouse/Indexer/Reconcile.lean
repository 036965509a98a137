import Callhouse.Lib.OrderedMap
import Callhouse.Indexer.Fifo
import Mathlib.Data.List.Sort
import Mathlib.Tactic

/-
  indexer/lib/v2/reconcile.ts: which transfers are the
  deliveries of fills, mints and exits, and which share of a
  call's taker fee each of its fills bears.

  Main declarations:
    * `matchDeliveries`, `matchTakeFees`
-/

----
-- Indexed Logs
----

namespace Callhouse.Indexer.Reconcile

/- Its two ends are the log's `from` and `to`. -/
structure IndexedTransfer where
  id : String
  tx : String
  longId : Int
  sender : String
  recipient : String
  units : Int
  logIndex : Int
deriving DecidableEq

structure IndexedFill where
  id : String
  tx : String
  longId : Int
  buyer : String
  seller : String
  takerIsBuyer : Bool
  units : Int
  logIndex : Int
  primary : Bool
deriving DecidableEq

structure IndexedMint where
  id : String
  tx : String
  longId : Int
  longTo : String
  units : Int
  logIndex : Int
deriving DecidableEq

structure IndexedExit where
  id : String
  tx : String
  longId : Int
  holder : String
  units : Int
  logIndex : Int
deriving DecidableEq

def zero : String :=
  "0x0000000000000000000000000000000000000000"

def same
    (a b : String) : Bool :=
  decide (a.toLower = b.toLower)

theorem same_iff
    (a b : String) :
    same a b = true ↔ a.toLower = b.toLower := by
  unfold same
  exact decide_eq_true_iff

theorem same_refl
    (a : String) :
    same a a = true :=
  (same_iff a a).mpr rfl

theorem same_symm
    {a b : String}
    (h : same a b = true) :
    same b a = true := by
  rw [same_iff] at h ⊢
  exact h.symm

theorem same_trans
    {a b c : String}
    (hab : same a b = true)
    (hbc : same b c = true) :
    same a c = true := by
  rw [same_iff] at hab hbc ⊢
  exact hab.trans hbc

----
-- Deliveries
----

/- The sets of matched ids, as lists of which one asks only
   what is in them. -/
structure Deliveries where
  matchedTransfers : List String
  matchedMints : List String
deriving DecidableEq

/- What a receipt tells of its delivery. -/
structure Receipt where
  tx : String
  longId : Int
  units : Int
  logIndex : Int
deriving DecidableEq

/- The latest unmatched transfer before a receipt that fits it. -/
def preceding
    (transfers : List IndexedTransfer)
    (matchedTransfers : List String)
    (input : Receipt)
    (predicate : IndexedTransfer → Bool) :
    Option IndexedTransfer :=
  ((transfers.filter
      (fun transfer =>
        decide (transfer.id ∉ matchedTransfers) &&
          same transfer.tx input.tx &&
          decide (transfer.longId = input.longId) &&
          decide (transfer.units = input.units) &&
          decide (transfer.logIndex < input.logIndex) &&
          predicate transfer)).insertionSort
    (fun a b => b.logIndex ≤ a.logIndex)).head?

def fillReceipt
    (fill : IndexedFill) : Receipt :=
  { tx := fill.tx
    longId := fill.longId
    units := fill.units
    logIndex := fill.logIndex }

def mintReceipt
    (mint : IndexedMint) : Receipt :=
  { tx := mint.tx
    longId := mint.longId
    units := mint.units
    logIndex := mint.logIndex }

def exitReceipt
    (exit : IndexedExit) : Receipt :=
  { tx := exit.tx
    longId := exit.longId
    units := exit.units
    logIndex := exit.logIndex }

def deliversFill
    (book : String)
    (fill : IndexedFill)
    (transfer : IndexedTransfer) : Bool :=
  same transfer.recipient fill.buyer &&
    (if fill.primary then same transfer.sender zero
    else if fill.takerIsBuyer then same transfer.sender book
    else same transfer.sender fill.seller)

def deliversMint
    (mint : IndexedMint)
    (transfer : IndexedTransfer) : Bool :=
  same transfer.sender zero && same transfer.recipient mint.longTo

def deliversExit
    (exit : IndexedExit)
    (transfer : IndexedTransfer) : Bool :=
  same transfer.sender exit.holder && same transfer.recipient zero

/- The latest unmatched mint before a primary fill. -/
def precedingMint
    (mints : List IndexedMint)
    (matchedMints : List String)
    (fill : IndexedFill) : Option IndexedMint :=
  ((mints.filter
      (fun item =>
        decide (item.id ∉ matchedMints) &&
          same item.tx fill.tx &&
          decide (item.longId = fill.longId) &&
          decide (item.units = fill.units) &&
          same item.longTo fill.buyer &&
          decide (item.logIndex < fill.logIndex))).insertionSort
    (fun a b => b.logIndex ≤ a.logIndex)).head?

def matchFill
    (transfers : List IndexedTransfer)
    (mints : List IndexedMint)
    (book : String)
    (state : Deliveries)
    (fill : IndexedFill) : Except String Deliveries :=
  match preceding transfers state.matchedTransfers
      (fillReceipt fill) (deliversFill book fill) with
  | none =>
      .error s!"Fill {fill.id} has no preceding long delivery"
  | some delivery =>
      let delivered :=
        { state with
          matchedTransfers :=
            state.matchedTransfers ++ [delivery.id] }
      if fill.primary then
        match precedingMint mints state.matchedMints fill with
        | none =>
            .error
              s!"Primary fill {fill.id} has no preceding Minted"
        | some mint =>
            .ok
              { delivered with
                matchedMints := state.matchedMints ++ [mint.id] }
      else .ok delivered

def matchMint
    (transfers : List IndexedTransfer)
    (state : Deliveries)
    (mint : IndexedMint) : Except String Deliveries :=
  if mint.id ∈ state.matchedMints then .ok state
  else
    match preceding transfers state.matchedTransfers
        (mintReceipt mint) (deliversMint mint) with
    | none =>
        .error s!"Mint {mint.id} has no preceding long delivery"
    | some delivery =>
        .ok
          { state with
            matchedTransfers :=
              state.matchedTransfers ++ [delivery.id] }

def matchExit
    (transfers : List IndexedTransfer)
    (state : Deliveries)
    (exit : IndexedExit) : Except String Deliveries :=
  match preceding transfers state.matchedTransfers
      (exitReceipt exit) (deliversExit exit) with
  | none =>
      .error s!"Exit {exit.id} has no preceding long burn"
  | some burn =>
      .ok
        { state with
          matchedTransfers :=
            state.matchedTransfers ++ [burn.id] }

def matchDeliveries
    (transfers : List IndexedTransfer)
    (fills : List IndexedFill)
    (mints : List IndexedMint)
    (exits : List IndexedExit)
    (book : String) : Except String Deliveries := do
  let filled ←
    (fills.insertionSort
      (fun a b => a.logIndex ≤ b.logIndex)).foldlM
        (matchFill transfers mints book)
        { matchedTransfers := []
          matchedMints := [] }
  let minted ← mints.foldlM (matchMint transfers) filled
  exits.foldlM (matchExit transfers) minted

----
-- Taker Fees
----

structure FeeFill where
  id : String
  tx : String
  longId : Int
  taker : String
  takerIsBuyer : Bool
  units : Int
  premium : Int
  logIndex : Int
deriving DecidableEq

structure TakenCall where
  tx : String
  longId : Int
  taker : String
  buying : Bool
  units : Int
  premium : Int
  takerFee : Int
  logIndex : Int
deriving DecidableEq

/- Which fills have a fee, and the set of the fills that do. -/
structure TakeFees where
  fees : OrderedMap String Int
  assigned : List String

/- The walk back over a call's fills, and what it still lacks. -/
def walkFills :
    List FeeFill → Int → List FeeFill →
      Except String (Int × List FeeFill)
  | [], missing, matched => .ok (missing, matched)
  | fill :: rest, missing, matched =>
      if missing = 0 then .ok (missing, matched)
      else if fill.units > missing then
        .error "Taken spans part of an OrderFilled"
      else
        walkFills rest (missing - fill.units)
          (matched ++ [fill])

def feeCandidates
    (fills : List FeeFill)
    (assigned : List String)
    (call : TakenCall) : List FeeFill :=
  (fills.filter
    (fun fill =>
      decide (fill.id ∉ assigned) &&
        same fill.tx call.tx &&
        decide (fill.longId = call.longId) &&
        same fill.taker call.taker &&
        decide (fill.takerIsBuyer = call.buying) &&
        decide (fill.logIndex < call.logIndex))).insertionSort
    (fun a b => b.logIndex ≤ a.logIndex)

def addAssigned
    (assigned : List String)
    (id : String) : List String :=
  if id ∈ assigned then assigned else assigned ++ [id]

def setFees
    (state : TakeFees)
    (shares : List (FeeFill × Int)) : TakeFees :=
  shares.foldl
    (fun state share =>
      { fees := state.fees.set share.1.id share.2
        assigned := addAssigned state.assigned share.1.id })
    state

def matchCall
    (fills : List FeeFill)
    (state : TakeFees)
    (call : TakenCall) : Except String TakeFees := do
  let walked ←
    walkFills (feeCandidates fills state.assigned call)
      call.units []
  if walked.1 ≠ 0 then
    .error
      s!"Taken {call.tx}-{call.logIndex} missing {walked.1} fill units"
  else
    let inLogOrder := walked.2.reverse
    let premiums := inLogOrder.map (fun fill => fill.premium)
    if premiums.sum ≠ call.premium then
      .error s!"Taken {call.tx}-{call.logIndex} premium mismatch"
    else if premiums.sum = 0 ∧ call.takerFee ≠ 0 then
      .error "taker fee without premium"
    else if premiums.sum = 0 ∧ 1 < inLogOrder.length then
      .error "Division by zero"
    else
      return setFees state
        (inLogOrder.zip
          (Fifo.shareLoop call.takerFee premiums.sum 0 premiums))

def matchTakeFees
    (fills : List FeeFill)
    (calls : List TakenCall) :
    Except String (OrderedMap String Int) := do
  let final ←
    (calls.insertionSort
      (fun a b => a.logIndex ≤ b.logIndex)).foldlM
        (matchCall fills)
        { fees := OrderedMap.empty
          assigned := [] }
  if final.assigned.length ≠ fills.length then
    .error "OrderFilled without matching Taken"
  else return final.fees

end Callhouse.Indexer.Reconcile
