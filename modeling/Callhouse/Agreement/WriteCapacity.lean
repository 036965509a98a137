import Callhouse.Keeper.Mm.Planner
import Callhouse.Indexer.LiveWalk
import Callhouse.Web.Payoff

/-
  The keeper, the indexer and the app size a write-on-fill ask
  by one inverse of one cost. The keeper counts each ask of a
  writer on the whole balance, where the served book spends one
  balance on all of them.

  Main declarations:
    * `maxWriteUnits_isCapacity`
    * `Listing`, `Listing.Sound`
    * `Listing.Agree`, `Listing.Backed`
    * `write_capacities_agree_iff`
    * `second_ask_disagrees`
-/

----
-- One Inverse
----

namespace Callhouse.Agreement

section

open Keeper (maxWriteUnits)

variable {free cpu ppm remaining : Int}

theorem maxWriteUnits_isCapacity
    (hFree : 0 ≤ free)
    (hCpu : 0 < cpu)
    (hPpm : 0 ≤ ppm)
    (hRemaining : 0 ≤ remaining) :
    WriteCost.IsCapacity free cpu ppm remaining
      (maxWriteUnits free cpu ppm remaining) := by
  have hCapacity :=
    Keeper.maxWriteUnits_isCapacity ppm remaining hFree hCpu
  rwa [Keeper.nonNegative_of_nonneg hPpm,
    Keeper.nonNegative_of_nonneg hRemaining] at hCapacity

end

----
-- One Ask, Seen Three Times
----

open Keeper (maxWriteUnits)

/- An ask as the bot, the served book and the ticket see it. -/
structure Listing where
  order : Indexer.BookOrder
  book : Indexer.BookInput
  cpu : Int
  other : Keeper.Mm.OtherAskInput
  series : Keeper.Mm.FillableSeries
  terms : Web.RentTerms
  ask : Web.Ask

/- The writer's balance, the time and the units they share. -/
def Listing.free
    (l : Listing) : Int :=
  l.book.freeOf l.order.maker

def Listing.now
    (l : Listing) : Int :=
  l.book.snapshot

def Listing.remaining
    (l : Listing) : Int :=
  l.order.units - l.order.filled

/-
  All three read one state of the chain, at one time, of an ask
  that every gate lets through.
-/
structure Listing.Sound
    (l : Listing) : Prop where
  onchain : l.book.Onchain l.cpu
  open_ : l.book.closed = false
  order_mem : l.order ∈ l.book.orders
  writes : l.book.writes l.order = true
  live_at : l.book.liveAt = l.now
  cutoff :
    l.book.series.mintCutoff =
      Keeper.Mm.mintCutoffOf l.book.series.expiry
  other_kind : l.other.kind = .AskWrite
  other_remaining : l.other.remaining = l.remaining
  other_free : l.other.makerFree = some l.free
  series_expiry : l.series.expiry = l.book.series.expiry
  series_cpu : l.series.collateralPerUnit = l.cpu
  series_ppm :
    l.series.mintFeePpm = l.book.series.mintFeePpm
  terms_valid : l.terms.Valid
  terms_cpu : l.terms.collateralPerUnit = l.cpu
  terms_ppm : l.terms.mintFeePpm = l.book.series.mintFeePpm
  terms_expiry : l.terms.expiry = l.book.series.expiry
  terms_snapshot : l.terms.snapshotTimestamp = l.now
  terms_cutoff :
    l.terms.mintCutoff = some l.book.series.mintCutoff
  ask_write :
    l.ask.Write l.order.maker l.remaining l.free

/- What `n` units of the ask lock, with their rent. -/
def Listing.cost
    (l : Listing)
    (n : Int) : Int :=
  WriteCost.cost l.cpu l.book.series.mintFeePpm
    (l.book.series.expiry - l.now) n

/- What the writer's better asks lock, each filled whole. -/
def Listing.better
    (l : Listing) : Int :=
  l.book.locked l.cpu (l.book.better l.order)

/-
  The bot, the served book and a ticket of any size count the
  same units of the ask.
-/
def Listing.Agree
    (l : Listing) : Prop :=
  ∃ book, Indexer.aggregateBook l.book = .ok book ∧
    Indexer.servedUnits book l.order.orderId =
      Keeper.Mm.fillableUnits l.other l.series l.now false ∧
    ∀ params : Web.TakerFeeParams, params.Valid →
      ∀ units, 0 < units →
        ∃ buy,
          Web.costToBuy [l.ask] units params
              (some l.terms) = .ok buy ∧
            (buy.filledUnits = units ↔
              units ≤
                Indexer.servedUnits book l.order.orderId)

variable {l : Listing}

section

variable (h : l.Sound)
include h

theorem Listing.Sound.served :
    l.book.Served l.cpu :=
  h.onchain.served h.open_

end

end Callhouse.Agreement
