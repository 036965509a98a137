import Callhouse.Lib.LowerCase
import Mathlib.Tactic

/-
  keeper/src/v2/mm/constants.ts: the protocol constants the
  market maker plans with, and the kinds of its orders; and
  the spelling of addresses its modules share.
-/

----
-- Protocol Constants
----

namespace Callhouse.Keeper.Mm

def bps : Int := 10000

def priceTick : Int := 100

def unitsPerShare : Int := 100

/- The mint cutoff of a series is `expiry - settlementWindow`. -/
def settlementWindow : Int := 1800

def outflowWindowS : Int := 86400

/- Most order ids in one `vault.cancel`. -/
def cancelChunk : Nat := 20

theorem bps_pos : 0 < bps := by
  decide

theorem priceTick_pos : 0 < priceTick := by
  decide

theorem unitsPerShare_pos : 0 < unitsPerShare := by
  decide

theorem outflowWindowS_pos : 0 < outflowWindowS := by
  decide

/- OrderBook's order kinds, in enum order. -/
inductive OrderKindName where
  | Bid
  | AskResale
  | AskWrite
deriving DecidableEq

/- The bot's three quote slots on a series. -/
inductive Slot where
  | bid
  | write
  | resale
deriving DecidableEq

def slotKind : Slot → OrderKindName
  | .bid => .Bid
  | .write => .AskWrite
  | .resale => .AskResale

def kindIndex : OrderKindName → Int
  | .Bid => 0
  | .AskResale => 1
  | .AskWrite => 2

----
-- Addresses
----

/- An address as the keeper compares and files it. -/
def lc
    (a : String) : String :=
  a.toLower

def zeroAddress : String :=
  "0x0000000000000000000000000000000000000000"

theorem lc_lc
    (a : String) :
    lc (lc a) = lc a :=
  LowerCase.toLower_toLower a

end Callhouse.Keeper.Mm
