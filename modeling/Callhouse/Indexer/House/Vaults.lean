import Callhouse.Indexer.House.Handlers
import Mathlib.Logic.Function.Basic

/-
  What the House vaults do, one log at a time: requests that
  wait for the epoch's end, claims that retire what has
  matured, boundaries that open the next epoch, and shares that
  change hands.

  Main declarations:
    * `Request`, `VaultState`, `Vaults`
    * `VaultState.claim`, `moveShares`
    * `Emits`, `Tape`
-/

----
-- One Vault
----

namespace Callhouse.Indexer.House

structure Request
    (A : Type) where
  epochId : Int
  amount : A
deriving DecidableEq

/- `listed` is that the factory has named it. -/
structure VaultState where
  listed : Bool
  epochId : Int
  deposits : String → Option (Request DepositAmount)
  withdraws : String → Option (Request Int)
  shares : String → Int

def VaultState.fresh
    (listed : Bool)
    (epochId : Int) : VaultState :=
  { listed := listed
    epochId := epochId
    deposits := fun _ => none
    withdraws := fun _ => none
    shares := fun _ => 0 }

/- Added to in the epoch it was opened in. -/
def topUp
    {A : Type}
    [Add A]
    (existing : Option (Request A))
    (epochId : Int)
    (amount : A) : Request A :=
  { epochId := epochId
    amount :=
      match existing with
      | none => amount
      | some request => request.amount + amount }

/- One of an earlier epoch has matured, and is retired. -/
def retire
    {A : Type}
    (existing : Option (Request A))
    (epochId : Int) : Option (Request A) :=
  existing.filter (fun request => decide (epochId ≤ request.epochId))

def VaultState.claim
    (s : VaultState)
    (account : String) : VaultState :=
  { s with
    deposits :=
      Function.update s.deposits account
        (retire (s.deposits account) s.epochId)
    withdraws :=
      Function.update s.withdraws account
        (retire (s.withdraws account) s.epochId) }

/- A transfer; the zero address mints and burns, and holds none. -/
def moveShares
    (shares : String → Int)
    (sender recipient : String)
    (value : Int) : String → Int :=
  fun account =>
    if account = Projection.zeroAddress then shares account
    else
      shares account + (if account = recipient then value else 0) -
        (if account = sender then value else 0)

----
-- All of Them
----

/- The vaults there are, by their address in lower case. -/
abbrev Vaults : Type :=
  String → Option VaultState

/-
  A vault's log, and what the vaults are after it.  A vault
  opens its first epoch in its constructor, before its factory
  names it; an older one says nothing until then.
-/
inductive Emits : Vaults → HouseLog → Vaults → Prop where
  | constructed
      {vaults : Vaults}
      {entry : HouseLog}
      {epochId epochEnd : Int}
      (hEvent : entry.event = .epochOpened epochId epochEnd)
      (hNew : vaults (lower entry.address) = none)
      (hEpoch : 0 ≤ epochId) :
      Emits vaults entry
        (Function.update vaults (lower entry.address)
          (some (.fresh false epochId)))
  | created
      {vaults : Vaults}
      {entry : HouseLog}
      {args : VaultCreated}
      {epochId : Int}
      (hEvent : entry.event = .vaultCreated args)
      (hNew :
        vaults (lower args.vault) = none ∨
          vaults (lower args.vault) = some (.fresh false epochId))
      (hEpoch : 0 ≤ epochId)
      (hAnswer : ∀ answer ∈ args.epoch, answer.2 = epochId) :
      Emits vaults entry
        (Function.update vaults (lower args.vault)
          (some (.fresh true epochId)))
  | opened
      {vaults : Vaults}
      {entry : HouseLog}
      {s : VaultState}
      {epochId epochEnd : Int}
      (hEvent : entry.event = .epochOpened epochId epochEnd)
      (hVault : vaults (lower entry.address) = some s)
      (hListed : s.listed = true)
      (hEpoch : epochId = s.epochId ∨ epochId = s.epochId + 1) :
      Emits vaults entry vaults
  | rolled
      {vaults : Vaults}
      {entry : HouseLog}
      {s : VaultState}
      {args : EpochRolled}
      (hEvent : entry.event = .epochRolled args)
      (hVault : vaults (lower entry.address) = some s)
      (hListed : s.listed = true)
      (hEpoch : args.epochId = s.epochId) :
      Emits vaults entry
        (Function.update vaults (lower entry.address)
          (some { s with epochId := s.epochId + 1 }))
  | depositRequested
      {vaults : Vaults}
      {entry : HouseLog}
      {s : VaultState}
      {account : String}
      {usdgAmount stockAmount : Int}
      (hEvent :
        entry.event =
          .depositRequested account usdgAmount stockAmount s.epochId)
      (hVault : vaults (lower entry.address) = some s)
      (hListed : s.listed = true)
      (hOpen :
        ∀ request ∈ s.deposits (lower account),
          request.epochId = s.epochId) :
      Emits vaults entry
        (Function.update vaults (lower entry.address)
          (some
            { s with
              deposits :=
                Function.update s.deposits (lower account)
                  (some
                    (topUp (s.deposits (lower account)) s.epochId
                      { usdgAmount := usdgAmount
                        stockAmount := stockAmount })) }))
  | depositCancelled
      {vaults : Vaults}
      {entry : HouseLog}
      {s : VaultState}
      {account : String}
      (hEvent : entry.event = .depositRequestCancelled account)
      (hVault : vaults (lower entry.address) = some s)
      (hListed : s.listed = true) :
      Emits vaults entry
        (Function.update vaults (lower entry.address)
          (some
            { s with
              deposits :=
                Function.update s.deposits (lower account) none }))
  | withdrawRequested
      {vaults : Vaults}
      {entry : HouseLog}
      {s : VaultState}
      {account : String}
      {shares : Int}
      (hEvent :
        entry.event = .withdrawRequested account shares s.epochId)
      (hVault : vaults (lower entry.address) = some s)
      (hListed : s.listed = true)
      (hOpen :
        ∀ request ∈ s.withdraws (lower account),
          request.epochId = s.epochId) :
      Emits vaults entry
        (Function.update vaults (lower entry.address)
          (some
            { s with
              withdraws :=
                Function.update s.withdraws (lower account)
                  (some
                    (topUp (s.withdraws (lower account)) s.epochId
                      shares)) }))
  | withdrawCancelled
      {vaults : Vaults}
      {entry : HouseLog}
      {s : VaultState}
      {account : String}
      (hEvent : entry.event = .withdrawRequestCancelled account)
      (hVault : vaults (lower entry.address) = some s)
      (hListed : s.listed = true) :
      Emits vaults entry
        (Function.update vaults (lower entry.address)
          (some
            { s with
              withdraws :=
                Function.update s.withdraws (lower account) none }))
  | claimed
      {vaults : Vaults}
      {entry : HouseLog}
      {s : VaultState}
      {account : String}
      {shares usdgAmount stockAmount : Int}
      (hEvent :
        entry.event = .claimed account shares usdgAmount stockAmount)
      (hVault : vaults (lower entry.address) = some s)
      (hListed : s.listed = true) :
      Emits vaults entry
        (Function.update vaults (lower entry.address)
          (some (s.claim (lower account))))
  | transferred
      {vaults : Vaults}
      {entry : HouseLog}
      {s : VaultState}
      {sender recipient : String}
      {value : Int}
      (hEvent : entry.event = .transfer sender recipient value)
      (hVault : vaults (lower entry.address) = some s)
      (hListed : s.listed = true)
      (hValue : 0 ≤ value)
      (hEnough :
        lower sender = Projection.zeroAddress ∨
          value ≤ s.shares (lower sender))
      (hSome :
        lower sender ≠ Projection.zeroAddress ∨
          lower recipient ≠ Projection.zeroAddress) :
      Emits vaults entry
        (Function.update vaults (lower entry.address)
          (some
            { s with
              shares :=
                moveShares s.shares (lower sender) (lower recipient)
                  value }))

/- Any number of logs, of any of the vaults. -/
inductive Tape : List HouseLog → Vaults → Prop where
  | start : Tape [] (fun _ => none)
  | next
      {logs : List HouseLog}
      {entry : HouseLog}
      {vaults vaults' : Vaults}
      (hBefore : Tape logs vaults)
      (hLog : Emits vaults entry vaults') :
      Tape (logs ++ [entry]) vaults'

end Callhouse.Indexer.House
