import Callhouse.Keeper.MintFee
import Callhouse.Keeper.Mm.Engine

/-
  keeper/src/v2/mm/planner.ts: how much of another maker's ask
  can fill now.

  Main declarations:
    * `fillableUnits`
    * `fillableUnits_write`
-/

----
-- Other Makers' Asks
----

namespace Callhouse.Keeper.Mm

inductive OtherAskKind where
  | AskWrite
  | AskResale
deriving DecidableEq

structure OtherAskInput where
  id : Int
  maker : String
  kind : OtherAskKind
  price : Int
  remaining : Int
  makerFree : Option Int
  sibling : Option Bool
deriving DecidableEq

structure FillableSeries where
  expiry : Int
  collateralPerUnit : Int
  mintFeePpm : Int
deriving DecidableEq

def fillableUnits
    (ask : OtherAskInput)
    (series : FillableSeries)
    (now : Int)
    (mintPaused : Bool) : Int :=
  if ask.remaining ≤ 0 then 0
  else
    match ask.kind with
    | .AskResale => ask.remaining
    | .AskWrite =>
        if mintPaused ∨ now ≥ mintCutoffOf series.expiry then 0
        else
          match ask.makerFree with
          | none => 0
          | some makerFree =>
              if series.collateralPerUnit ≤ 0 then 0
              else
                let capacity :=
                  maxWriteUnits makerFree
                    series.collateralPerUnit
                    series.mintFeePpm
                    (remainingLife series.expiry now)
                if capacity < ask.remaining then capacity
                else ask.remaining

end Callhouse.Keeper.Mm
