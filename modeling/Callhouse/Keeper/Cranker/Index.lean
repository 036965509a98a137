import Callhouse.Lib.KeyedTable

/-
  keeper/src/v2/cranker/index-store.ts: the cranker's index
  of a deployment, and the one way a scanned range gets in.

  Main declarations:
    * `CrankerIndex`, `applyRange`
    * `applyRange_keys`
    * `applyRange_values`
-/

----
-- Tables
----

namespace Callhouse.Keeper.Cranker

/- Addresses are kept in lower case. -/
def lc
    (a : String) : String :=
  a.toLower

structure IndexedSeries where
  longId : Int
  underlying : String
  isPut : Bool
  strike : Int
  expiry : Int
  oracle : String
deriving DecidableEq

structure IndexedHolder where
  tokenId : Int
  holder : String
deriving DecidableEq

structure IndexedOrder where
  orderId : Int
  longId : Int
  maker : String
  kind : Int
  validUntil : Int
deriving DecidableEq

structure IndexedStrategy where
  writer : String
  underlying : String
deriving DecidableEq

/- The rows one batch of logs contributes. -/
structure RangeRows where
  series : List IndexedSeries
  holders : List IndexedHolder
  orders : List IndexedOrder
  strategies : List IndexedStrategy
deriving DecidableEq

/- A row of `v2_cranker_series`, with its range's last block. -/
structure SeriesRow where
  series : IndexedSeries
  block : Int
deriving DecidableEq

/- A row of `v2_cranker_orders`. -/
structure OrderRow where
  order : IndexedOrder
  dead : Bool
deriving DecidableEq

structure CrankerIndex where
  series : List SeriesRow
  holders : List IndexedHolder
  orders : List OrderRow
  strategies : List IndexedStrategy
  scannedTo : Option Int
deriving DecidableEq

def CrankerIndex.empty : CrankerIndex :=
  { series := []
    holders := []
    orders := []
    strategies := []
    scannedTo := none }

def IndexedSeries.stored
    (s : IndexedSeries) : IndexedSeries :=
  { s with
    underlying := lc s.underlying
    oracle := lc s.oracle }

def IndexedHolder.stored
    (h : IndexedHolder) : IndexedHolder :=
  { h with holder := lc h.holder }

def IndexedOrder.stored
    (o : IndexedOrder) : IndexedOrder :=
  { o with maker := lc o.maker }

def IndexedStrategy.stored
    (s : IndexedStrategy) : IndexedStrategy :=
  { writer := lc s.writer
    underlying := lc s.underlying }

def SeriesRow.key
    (r : SeriesRow) : Int :=
  r.series.longId

def OrderRow.key
    (r : OrderRow) : Int :=
  r.order.orderId

/- One scanned range: its rows and the cursor move together. -/
def applyRange
    (index : CrankerIndex)
    (rows : RangeRows)
    (toBlock : Int) : CrankerIndex :=
  { series :=
      KeyedTable.insertAll SeriesRow.key index.series
        (rows.series.map
          (fun s => { series := s.stored, block := toBlock }))
    holders :=
      KeyedTable.insertAll id index.holders
        (rows.holders.map (fun h => h.stored))
    orders :=
      KeyedTable.insertAll OrderRow.key index.orders
        (rows.orders.map
          (fun o => { order := o.stored, dead := false }))
    strategies :=
      KeyedTable.insertAll id index.strategies
        (rows.strategies.map (fun s => s.stored))
    scannedTo := some toBlock }

----
-- What a Range Leaves in the Index
----

/- Every row has a row of its key in its table. -/
structure CrankerIndex.HasKeys
    (index : CrankerIndex)
    (rows : RangeRows) : Prop where
  series :
    ∀ s ∈ rows.series,
      ∃ r ∈ index.series, r.series.longId = s.longId
  holders : ∀ h ∈ rows.holders, h.stored ∈ index.holders
  orders :
    ∀ o ∈ rows.orders,
      ∃ r ∈ index.orders, r.order.orderId = o.orderId
  strategies :
    ∀ s ∈ rows.strategies, s.stored ∈ index.strategies

/- No row of the index is made up: each came from a read one. -/
structure CrankerIndex.ValuesOf
    (index : CrankerIndex)
    (read : RangeRows → Prop) : Prop where
  series :
    ∀ r ∈ index.series,
      ∃ rows, read rows ∧
        ∃ s ∈ rows.series, r.series = s.stored
  orders :
    ∀ r ∈ index.orders,
      ∃ rows, read rows ∧
        ∃ o ∈ rows.orders, r.order = o.stored

theorem CrankerIndex.ValuesOf.mono
    {index : CrankerIndex}
    {read read' : RangeRows → Prop}
    (h : index.ValuesOf read)
    (hRead : ∀ rows, read rows → read' rows) :
    index.ValuesOf read' where
  series := by
    intro r hr
    rcases h.series r hr with ⟨rows, hRows, hValue⟩
    exact ⟨rows, hRead rows hRows, hValue⟩
  orders := by
    intro r hr
    rcases h.orders r hr with ⟨rows, hRows, hValue⟩
    exact ⟨rows, hRead rows hRows, hValue⟩

variable {index : CrankerIndex} {rows : RangeRows}

theorem CrankerIndex.HasKeys.applyRange
    {old : RangeRows}
    (h : index.HasKeys old)
    (rows : RangeRows)
    (toBlock : Int) :
    (applyRange index rows toBlock).HasKeys old where
  series := by
    intro s hs
    rcases h.series s hs with ⟨r, hr, hKey⟩
    exact ⟨r, KeyedTable.subset_insertAll _ _ hr, hKey⟩
  holders := fun x hx =>
    KeyedTable.subset_insertAll _ _ (h.holders x hx)
  orders := by
    intro o ho
    rcases h.orders o ho with ⟨r, hr, hKey⟩
    exact ⟨r, KeyedTable.subset_insertAll _ _ hr, hKey⟩
  strategies := fun x hx =>
    KeyedTable.subset_insertAll _ _ (h.strategies x hx)

theorem applyRange_keys
    (index : CrankerIndex)
    (rows : RangeRows)
    (toBlock : Int) :
    (applyRange index rows toBlock).HasKeys rows where
  series := fun _ hs =>
    KeyedTable.exists_of_insertAll_map SeriesRow.key _ _ hs
  holders := by
    intro h hh
    rcases KeyedTable.exists_of_insertAll_map id
        index.holders IndexedHolder.stored hh with
      ⟨r, hr, hSame⟩
    have hEq : r = h.stored := hSame
    exact hEq ▸ hr
  orders := fun _ ho =>
    KeyedTable.exists_of_insertAll_map OrderRow.key _ _ ho
  strategies := by
    intro s hs
    rcases KeyedTable.exists_of_insertAll_map id
        index.strategies IndexedStrategy.stored hs with
      ⟨r, hr, hSame⟩
    have hEq : r = s.stored := hSame
    exact hEq ▸ hr

theorem applyRange_values
    {read : RangeRows → Prop}
    (h : index.ValuesOf read)
    (hRows : read rows)
    (toBlock : Int) :
    (applyRange index rows toBlock).ValuesOf read where
  series := by
    intro r hr
    rcases KeyedTable.mem_insertAll hr with hOld | hNew
    · exact h.series r hOld
    · rcases List.mem_map.mp hNew with ⟨s, hs, rfl⟩
      exact ⟨rows, hRows, s, hs, rfl⟩
  orders := by
    intro r hr
    rcases KeyedTable.mem_insertAll hr with hOld | hNew
    · exact h.orders r hOld
    · rcases List.mem_map.mp hNew with ⟨o, ho, rfl⟩
      exact ⟨rows, hRows, o, ho, rfl⟩

end Callhouse.Keeper.Cranker
