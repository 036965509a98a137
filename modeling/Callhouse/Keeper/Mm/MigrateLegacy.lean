import Callhouse.Keeper.Mm.MmStore

/-
  keeper/src/v2/mm/mm-store.ts bind and migrateLegacy: rows
  and keys of the pre-vault binary are the treasury's, and are
  attributed whenever a bind sees one.

  Main declarations:
    * `attributeLegacy`, `migrateLegacy`, `bind`
    * `MmDb.Shaped`
    * `BindResult`
    * `bind_attributes`
-/

----
-- Deployments
----

namespace Callhouse.Keeper.Mm

structure MmBind where
  chainId : Int
  clearinghouse : String
  orderBook : String
  vault : Option String
  vaults : Option (List String)
  treasury : Option String
deriving DecidableEq

/- The addresses that the binding names, in its words. -/
def MmBind.named
    (d : MmBind) : List String :=
  match d.vaults, d.vault with
  | some (v :: vs), _ => v :: vs
  | _, some v => [v]
  | _, none => []

def vaultList
    (d : MmBind) : List String :=
  (d.named.map lc).dedup.insertionSort (fun a b => a ≤ b)

def coreKey
    (d : MmBind) : MmCore :=
  { chainId := d.chainId
    clearinghouse := lc d.clearinghouse
    orderBook := lc d.orderBook }

def setKey
    (d : MmBind) : Except String DeploymentId :=
  if vaultList d = [] then
    .error "mm bind: vault or vaults required"
  else .ok { core := coreKey d, vaults := vaultList d }

/- Who owns the rows written before the vault column. -/
def treasuryOf
    (d : MmBind) : Option String :=
  match d.treasury, d.named with
  | some t, _ => some (lc t)
  | none, v :: _ => some (lc v)
  | none, [] => none

----
-- The Migration
----

/- `type = 'settle' AND uniq = 'settle:' || long_id`. -/
def LedgerRow.isLegacySettle
    (r : LedgerRow) : Bool :=
  match r.event with
  | .fill _ => false
  | .settle e => decide (r.uniq = .settle e.longId)

/- `UPDATE … SET vault = ? WHERE vault = ''`. -/
def OrderRow.attribute
    (treasury : String)
    (r : OrderRow) : OrderRow :=
  if r.vault = "" then { r with vault := treasury } else r

def LedgerRow.attribute
    (treasury : String)
    (r : LedgerRow) : LedgerRow :=
  if r.vault = "" then { r with vault := treasury } else r

/- The legacy settlement's treasury form is there already. -/
def LedgerRow.hasTwin
    (treasury : String)
    (rows : List LedgerRow)
    (r : LedgerRow) : Bool :=
  decide
    (LedgerUniq.settleFor treasury r.event.longId ∈
      rows.map LedgerRow.uniq)

def LedgerRow.rekey
    (treasury : String)
    (r : LedgerRow) : LedgerRow :=
  if r.isLegacySettle then
    { r with uniq := .settleFor treasury r.event.longId }
  else r

def dropTwins
    (treasury : String)
    (rows : List LedgerRow) : List LedgerRow :=
  rows.filter (fun r =>
    !(r.isLegacySettle && r.hasTwin treasury rows))

/- The unique column aborts an update that repeats a text. -/
def rekeyLedger
    (treasury : String)
    (rows : List LedgerRow) :
    Except String (List LedgerRow) :=
  let rekeyed := rows.map (LedgerRow.rekey treasury)
  if (rekeyed.map LedgerRow.uniq).Nodup then .ok rekeyed
  else
    .error "UNIQUE constraint failed: v2_mm_ledger.uniq"

/- An existing scoped key is never overwritten. -/
def moveKey
    (treasury : String)
    (m : MmMeta)
    (key : ScopedKey) : MmMeta :=
  match m.unsuffixed key with
  | none => m
  | some raw =>
      let moved :=
        if m.perVault key treasury = none then
          m.setPerVault key treasury (some raw)
        else m
      moved.setUnsuffixed key none

/- The transaction of the migration. -/
def attributeLegacy
    (treasury : String)
    (db : MmDb) : Except String MmDb :=
  let attributed :=
    db.ledger.map (LedgerRow.attribute treasury)
  match rekeyLedger treasury
      (dropTwins treasury attributed) with
  | .error e => .error e
  | .ok ledger =>
      let moved :=
        legacyScopedKeys.foldl (moveKey treasury) db.store
      .ok
        { orders :=
            db.orders.map (OrderRow.attribute treasury)
          ledger := ledger
          store := { moved with legacyVault := treasury } }

def legacyShapesRemain
    (db : MmDb) : Bool :=
  db.orders.any (fun r => r.vault = "") ||
    db.ledger.any
      (fun r => r.vault = "" || r.isLegacySettle) ||
    legacyScopedKeys.any
      (fun key => (db.store.unsuffixed key).isSome)

def migrateLegacy
    (treasury : Option String)
    (db : MmDb) : Except String MmDb :=
  match treasury with
  | none => .ok db
  | some t =>
      if db.store.legacyVault ≠ none ∧
          ¬ legacyShapesRemain db then
        .ok db
      else attributeLegacy t db

/- Everything of a deployment goes; the kill switches stay. -/
def MmDb.reset
    (db : MmDb) : MmDb :=
  { orders := []
    ledger := []
    store :=
      { db.store with
        scannedTo := none
        unsuffixed := fun _ => none
        perVault := fun _ _ => none
        legacyVault := none
        lossStopAlerted := fun _ => none } }

/- True when rows of another core were deleted. -/
def bind
    (d : MmBind)
    (db : MmDb) : Except String (Bool × MmDb) :=
  match setKey d with
  | .error e => .error e
  | .ok id =>
      if db.store.deployment = some id then
        (migrateLegacy (treasuryOf d) db).map
          (fun migrated => (false, migrated))
      else
        let wiped :=
          match db.store.deployment with
          | none => false
          | some current => decide (current.core ≠ coreKey d)
        let kept :=
          if wiped then
            { db.reset with
              store := { db.reset.store with anchor := none } }
          else db
        let bound :=
          { kept with
            store := { kept.store with deployment := id } }
        (migrateLegacy (treasuryOf d) bound).map
          (fun migrated => (wiped, migrated))

----
-- Sessions
----

section

/- A vault's address: its filed spelling is not empty. -/
structure VaultAddress where
  text : String
  nonempty : lc text ≠ ""

def VaultAddress.key
    (v : VaultAddress) : String :=
  lc v.text

/- What a binary writes for the vault it is given. -/
inductive StoreWrite where
  | track
      (order : TrackedOrder)
      (closed : Bool)
      (now : Int)
  | ingest
      (rows : List (TrackedOrder × Bool))
      (index now : Int)
  | progress
      (orderId filled : Int)
      (closed : Bool)
      (fill : Option FillEvent)
  | settle (event : SettleEvent)
  | checkpoint (c : FillCheckpoint)
  | lastSync (t : Int)
  | outflow (p : Projection)

def StoreWrite.apply
    (db : MmDb)
    (vault : Option String) : StoreWrite → MmDb
  | .track order closed now =>
      trackOrder db order closed now vault
  | .ingest rows index now =>
      ingestOrders db rows index now vault
  | .progress orderId filled closed fill =>
      recordOrderProgress db orderId filled closed
        (fill.map LedgerEvent.fill) vault
  | .settle event => recordSettlement db event vault
  | .checkpoint c => setFillCheckpoint db c vault
  | .lastSync t => setLastSync db t vault
  | .outflow p => setOutflowProjection db p vault

/- A binding of one core that names one treasury. -/
structure CoreBind
    (core : MmCore)
    (treasury : VaultAddress) where
  deployment : MmBind
  core_eq : coreKey deployment = core
  treasury_eq : treasuryOf deployment = some treasury.key
  vaults_ne : vaultList deployment ≠ []

variable {core : MmCore} {treasury : VaultAddress}

/-
  One write of an old session (without a vault) or of a new
  one (for a vault), a kill or resume, or a bind.
-/
inductive StoreEvent
    (core : MmCore)
    (treasury : VaultAddress) where
  | old (w : StoreWrite)
  | new (v : VaultAddress) (w : StoreWrite)
  | kill (state : Option KilledState)
  | killFor (v : VaultAddress) (state : Option KilledState)
  | bind (d : CoreBind core treasury)

/- A bind that throws leaves the file as it was. -/
def bindFile
    (d : MmBind)
    (db : MmDb) : MmDb :=
  match bind d db with
  | .error _ => db
  | .ok bound => bound.2

def StoreEvent.apply
    (db : MmDb) : StoreEvent core treasury → MmDb
  | .old w => w.apply db none
  | .new v w => w.apply db v.text
  | .kill state => setKilled db state
  | .killFor v state => setKilledFor db v.text state
  | .bind d => bindFile d.deployment db

def emptyFile : MmDb :=
  { orders := [], ledger := [], store := MmMeta.empty }

def fileAfter
    (events : List (StoreEvent core treasury)) : MmDb :=
  events.foldl StoreEvent.apply emptyFile

end

----
-- The Shapes a File Can Hold
----

section

variable {core : MmCore} {treasury : VaultAddress} {db : MmDb}

/- A legacy settlement carries no vault; every other one does. -/
def LedgerRow.Shaped
    (r : LedgerRow) : Prop :=
  match r.event with
  | .fill _ =>
      ∃ orderId filled, r.uniq = .fill orderId filled
  | .settle e =>
      (r.uniq = .settle e.longId ∧ r.vault = "") ∨
        (r.uniq = .settleFor r.vault e.longId ∧
          r.vault ≠ "")

/- What the two binaries can leave in a file of one core. -/
structure MmDb.Shaped
    (core : MmCore)
    (db : MmDb) : Prop where
  keyed : db.Keyed
  rows : ∀ r ∈ db.ledger, r.Shaped
  bound :
    ∀ id, db.store.deployment = some id → id.core = core

section

variable (h : db.Shaped core)
include h

theorem MmDb.Shaped.keep_store
    (m : MmMeta)
    (hSame : m.deployment = db.store.deployment) :
    MmDb.Shaped core { db with store := m } :=
  { keyed :=
      { orders := h.keyed.orders
        ledger := h.keyed.ledger }
    rows := h.rows
    bound := fun id hId => h.bound id (hSame ▸ hId) }

theorem MmDb.Shaped.insertFill
    (e : FillEvent)
    (orderId filled : Int)
    (vault : Option String) :
    (insertLedger db (.fill e) (.fill orderId filled)
      vault).Shaped core := by
  refine
    { keyed := h.keyed.insertLedger _ _ _
      rows := ?_
      bound := h.bound }
  intro r hr
  rcases KeyedTable.mem_insertOrIgnore hr with hOld | rfl
  · exact h.rows r hOld
  · exact ⟨orderId, filled, rfl⟩

theorem MmDb.Shaped.recordOrderProgress
    (orderId filled : Int)
    (closed : Bool)
    (fill : Option FillEvent)
    (vault : Option String) :
    (recordOrderProgress db orderId filled closed
      (fill.map LedgerEvent.fill) vault).Shaped core := by
  have hKeyed :=
    h.keyed.recordOrderProgress orderId filled closed
      (fill.map LedgerEvent.fill) vault
  cases fill with
  | none =>
      exact
        { keyed := hKeyed
          rows := h.rows
          bound := h.bound }
  | some e =>
      exact
        { keyed := hKeyed
          rows := (h.insertFill e orderId filled vault).rows
          bound := h.bound }

theorem MmDb.Shaped.recordSettlement
    (e : SettleEvent)
    {vault : Option String}
    (hVault : ∀ v, vault = some v → lc v ≠ "") :
    (recordSettlement db e vault).Shaped core := by
  refine
    { keyed := h.keyed.insertLedger _ _ _
      rows := ?_
      bound := h.bound }
  intro r hr
  rcases KeyedTable.mem_insertOrIgnore hr with hOld | rfl
  · exact h.rows r hOld
  · cases vault with
    | none => exact .inl ⟨rfl, rfl⟩
    | some v => exact .inr ⟨rfl, hVault v rfl⟩

theorem MmDb.Shaped.ingestOrders
    (rows : List (TrackedOrder × Bool))
    (index now : Int)
    (vault : Option String) :
    (ingestOrders db rows index now vault).Shaped core := by
  have hTracked :
      (rows.foldl
        (fun acc r => trackOrder acc r.1 r.2 now vault)
        db).Shaped core := by
    induction rows generalizing db with
    | nil => exact h
    | cons r rest ih =>
        apply ih
        exact
          { keyed := h.keyed.insertOrder _
            rows := h.rows
            bound := h.bound }
  unfold Mm.ingestOrders
  apply hTracked.keep_store
  cases vault <;> rfl

theorem MmDb.Shaped.write
    {vault : Option String}
    (hVault : ∀ v, vault = some v → lc v ≠ "")
    (w : StoreWrite) :
    (w.apply db vault).Shaped core := by
  cases w with
  | track order closed now =>
      exact
        { keyed := h.keyed.insertOrder _
          rows := h.rows
          bound := h.bound }
  | ingest rows index now =>
      exact h.ingestOrders rows index now vault
  | progress orderId filled closed fill =>
      exact h.recordOrderProgress _ _ _ fill vault
  | settle event =>
      exact h.recordSettlement event hVault
  | checkpoint c =>
      exact h.keep_store _ (by cases vault <;> rfl)
  | lastSync t =>
      exact h.keep_store _ (by cases vault <;> rfl)
  | outflow p =>
      exact h.keep_store _ (by cases vault <;> rfl)

end

end

----
-- What the Migration Does
----

section

variable {core : MmCore} {treasury : String} {db : MmDb}

@[simp] theorem orderId_attribute
    (treasury : String)
    (r : OrderRow) :
    (r.attribute treasury).orderId = r.orderId := by
  unfold OrderRow.attribute
  split <;> rfl

@[simp] theorem uniq_attribute
    (treasury : String)
    (r : LedgerRow) :
    (r.attribute treasury).uniq = r.uniq := by
  unfold LedgerRow.attribute
  split <;> rfl

theorem map_uniq_attribute
    (treasury : String)
    (rows : List LedgerRow) :
    (rows.map (LedgerRow.attribute treasury)).map
        LedgerRow.uniq =
      rows.map LedgerRow.uniq := by
  rw [List.map_map]
  apply List.map_congr_left
  intro r _
  exact uniq_attribute treasury r

@[simp] theorem event_attribute
    (treasury : String)
    (r : LedgerRow) :
    (r.attribute treasury).event = r.event := by
  unfold LedgerRow.attribute
  split <;> rfl

theorem vault_attribute_ne
    (hTreasury : treasury ≠ "")
    (r : LedgerRow) :
    (r.attribute treasury).vault ≠ "" := by
  unfold LedgerRow.attribute
  by_cases h : r.vault = ""
  · rw [if_pos h]
    exact hTreasury
  · rw [if_neg h]
    exact h

theorem order_vault_attribute_ne
    (hTreasury : treasury ≠ "")
    (r : OrderRow) :
    (r.attribute treasury).vault ≠ "" := by
  unfold OrderRow.attribute
  by_cases h : r.vault = ""
  · rw [if_pos h]
    exact hTreasury
  · rw [if_neg h]
    exact h

theorem isLegacySettle_iff
    {r : LedgerRow} :
    r.isLegacySettle = true ↔
      ∃ e, r.event = .settle e ∧
        r.uniq = .settle e.longId := by
  unfold LedgerRow.isLegacySettle
  cases hEvent : r.event with
  | fill e => simp
  | settle e => simp

@[simp] theorem isLegacySettle_attribute
    (treasury : String)
    (r : LedgerRow) :
    (r.attribute treasury).isLegacySettle =
      r.isLegacySettle := by
  unfold LedgerRow.isLegacySettle
  simp

theorem uniq_rekey_of_legacy
    {r : LedgerRow}
    (h : r.isLegacySettle = true) :
    (r.rekey treasury).uniq =
      .settleFor treasury r.event.longId := by
  unfold LedgerRow.rekey
  rw [if_pos h]

theorem rekey_of_not_legacy
    {r : LedgerRow}
    (h : ¬ r.isLegacySettle = true) :
    r.rekey treasury = r := by
  unfold LedgerRow.rekey
  rw [if_neg h]

theorem mem_dropTwins
    {rows : List LedgerRow}
    {r : LedgerRow} :
    r ∈ dropTwins treasury rows ↔
      r ∈ rows ∧
        (r.isLegacySettle = true →
          LedgerUniq.settleFor treasury r.event.longId ∉
            rows.map LedgerRow.uniq) := by
  unfold dropTwins
  rw [List.mem_filter]
  simp only [LedgerRow.hasTwin, Bool.not_eq_true',
    Bool.and_eq_false_iff, decide_eq_false_iff_not]
  constructor
  · rintro ⟨hr, hKeep⟩
    refine ⟨hr, fun hLegacy => ?_⟩
    rcases hKeep with hNot | hNoTwin
    · rw [hLegacy] at hNot
      cases hNot
    · exact hNoTwin
  · rintro ⟨hr, hKeep⟩
    refine ⟨hr, ?_⟩
    by_cases hLegacy : r.isLegacySettle = true
    · exact .inr (hKeep hLegacy)
    · exact .inl (by simpa using hLegacy)

/- No two rows are given one text, so nothing aborts. -/
theorem rekeyed_nodup
    {rows : List LedgerRow}
    (h : (rows.map LedgerRow.uniq).Nodup) :
    (((dropTwins treasury rows).map
        (LedgerRow.rekey treasury)).map
      LedgerRow.uniq).Nodup := by
  have hKept :
      ((dropTwins treasury rows).map
        LedgerRow.uniq).Nodup :=
    h.sublist (List.filter_sublist.map _)
  rw [List.map_map]
  apply List.Nodup.map_on _ hKept.of_map
  intro a ha b hb hSame
  simp only [Function.comp_apply] at hSame
  rcases mem_dropTwins.mp ha with ⟨haIn, haTwin⟩
  rcases mem_dropTwins.mp hb with ⟨hbIn, hbTwin⟩
  have hInj : ∀ x y, x ∈ rows → y ∈ rows →
      x.uniq = y.uniq → x = y :=
    fun x y hx hy => List.inj_on_of_nodup_map h hx hy
  by_cases hA : a.isLegacySettle = true
  · rw [uniq_rekey_of_legacy hA] at hSame
    by_cases hB : b.isLegacySettle = true
    · rw [uniq_rekey_of_legacy hB] at hSame
      rcases isLegacySettle_iff.mp hA with ⟨ea, hEa, hUa⟩
      rcases isLegacySettle_iff.mp hB with ⟨eb, hEb, hUb⟩
      apply hInj a b haIn hbIn
      have hLong : ea.longId = eb.longId := by
        simpa [hEa, hEb, LedgerEvent.longId] using hSame
      rw [hUa, hUb, hLong]
    · rw [rekey_of_not_legacy hB] at hSame
      exact absurd
        (hSame ▸ List.mem_map_of_mem hbIn) (haTwin hA)
  · rw [rekey_of_not_legacy hA] at hSame
    by_cases hB : b.isLegacySettle = true
    · rw [uniq_rekey_of_legacy hB] at hSame
      exact absurd
        (hSame ▸ List.mem_map_of_mem haIn) (hbTwin hB)
    · rw [rekey_of_not_legacy hB] at hSame
      exact hInj a b haIn hbIn hSame

/- The scoped keys after the loop over the legacy ones. -/
theorem foldl_moveKey
    (keys : List ScopedKey)
    (m : MmMeta)
    (k : ScopedKey) :
    let moved := keys.foldl (moveKey treasury) m
    moved.unsuffixed k =
        (if k ∈ keys then none else m.unsuffixed k) ∧
      (∀ v, moved.perVault k v =
        if v = treasury ∧ k ∈ keys then
          (m.perVault k v).or (m.unsuffixed k)
        else m.perVault k v) := by
  induction keys generalizing m with
  | nil => simp
  | cons key rest ih =>
      have hStep := ih (moveKey treasury m key)
      simp only [List.foldl_cons] at hStep ⊢
      rw [hStep.1]
      constructor
      · unfold moveKey
        cases hRaw : m.unsuffixed key with
        | none =>
            by_cases hk : k = key
            · subst hk
              simp [hRaw]
            · simp [hk]
        | some raw =>
            by_cases hk : k = key
            · simp [MmMeta.setUnsuffixed, hk]
            · simp only [MmMeta.setUnsuffixed, hk, if_false,
                List.mem_cons, false_or]
              split_ifs <;> rfl
      · intro v
        rw [hStep.2 v]
        unfold moveKey
        cases hRaw : m.unsuffixed key with
        | none =>
            by_cases hk : k = key
            · subst hk
              by_cases hv : v = treasury
              · simp [hRaw, hv]
              · simp [hv]
            · simp [hk]
        | some raw =>
            by_cases hk : k = key
            · subst hk
              by_cases hv : v = treasury
              · subst hv
                cases hOld : m.perVault k v with
                | none =>
                    simp [MmMeta.setUnsuffixed,
                      MmMeta.setPerVault, hRaw]
                | some x =>
                    simp [MmMeta.setUnsuffixed, hOld]
              · by_cases hOld : m.perVault k treasury = none
                · simp [MmMeta.setUnsuffixed,
                    MmMeta.setPerVault, hOld, hv]
                · simp [MmMeta.setUnsuffixed, hOld, hv]
            · by_cases hOld : m.perVault key treasury = none
              · simp [MmMeta.setUnsuffixed,
                  MmMeta.setPerVault, hOld, hk]
              · simp [MmMeta.setUnsuffixed, hOld, hk]

/- The loop leaves every other key. -/
theorem foldl_moveKey_rest
    (keys : List ScopedKey)
    (m : MmMeta) :
    let moved := keys.foldl (moveKey treasury) m
    moved.deployment = m.deployment ∧
      moved.killed = m.killed ∧
      moved.killedVault = m.killedVault := by
  induction keys generalizing m with
  | nil => exact ⟨rfl, rfl, rfl⟩
  | cons key rest ih =>
      have hKeep :
          (moveKey treasury m key).deployment =
              m.deployment ∧
            (moveKey treasury m key).killed = m.killed ∧
            (moveKey treasury m key).killedVault =
              m.killedVault := by
        unfold moveKey
        split
        · exact ⟨rfl, rfl, rfl⟩
        · split_ifs <;> exact ⟨rfl, rfl, rfl⟩
      have hRest := ih (moveKey treasury m key)
      exact ⟨hRest.1.trans hKeep.1,
        hRest.2.1.trans hKeep.2.1,
        hRest.2.2.trans hKeep.2.2⟩

theorem mem_legacyScopedKeys
    (k : ScopedKey) :
    k ∈ legacyScopedKeys := by
  cases k <;> simp [legacyScopedKeys]

theorem legacyShapesRemain_eq_false_iff :
    legacyShapesRemain db = false ↔
      (∀ r ∈ db.orders, r.vault ≠ "") ∧
        (∀ r ∈ db.ledger,
          r.vault ≠ "" ∧ ¬ r.isLegacySettle = true) ∧
        ∀ k, db.store.unsuffixed k = none := by
  unfold legacyShapesRemain
  simp only [Bool.or_eq_false_iff, List.any_eq_false,
    Bool.or_eq_true, decide_eq_true_eq, not_or,
    Option.isSome_iff_ne_none, not_not]
  constructor
  · rintro ⟨⟨hOrders, hLedger⟩, hKeys⟩
    exact ⟨hOrders, hLedger,
      fun k => hKeys k (mem_legacyScopedKeys k)⟩
  · rintro ⟨hOrders, hLedger, hKeys⟩
    exact ⟨⟨hOrders, hLedger⟩, fun k _ => hKeys k⟩

end

----
-- What a Bind Leaves
----

section

variable {core : MmCore} {treasury : String} {db db' : MmDb}

/- Rows and keys after the migration, from those before. -/
structure Attributed
    (treasury : String)
    (db db' : MmDb) : Prop where
  orders :
    db'.orders = db.orders.map (OrderRow.attribute treasury)
  ledger :
    db'.ledger =
      (dropTwins treasury
        (db.ledger.map
          (LedgerRow.attribute treasury))).map
        (LedgerRow.rekey treasury)
  unsuffixed : ∀ k, db'.store.unsuffixed k = none
  perVault :
    ∀ k v, db'.store.perVault k v =
      if v = treasury then
        (db.store.perVault k v).or (db.store.unsuffixed k)
      else db.store.perVault k v
  killed : db'.store.killed = db.store.killed
  killedVault :
    db'.store.killedVault = db.store.killedVault
  legacyVault : db'.store.legacyVault ≠ none

theorem attribute_of_ne
    {r : LedgerRow}
    (h : r.vault ≠ "") :
    r.attribute treasury = r := by
  unfold LedgerRow.attribute
  rw [if_neg h]

theorem order_attribute_of_ne
    {r : OrderRow}
    (h : r.vault ≠ "") :
    r.attribute treasury = r := by
  unfold OrderRow.attribute
  rw [if_neg h]

theorem map_eq_self
    {α : Type}
    {f : α → α}
    {rows : List α}
    (h : ∀ r ∈ rows, f r = r) :
    rows.map f = rows :=
  (List.map_congr_left h).trans (List.map_id' rows)

/- On a file without legacy shapes there is nothing to do. -/
theorem attributed_self
    (h : legacyShapesRemain db = false)
    (hKey : db.store.legacyVault ≠ none) :
    Attributed treasury db db := by
  rcases legacyShapesRemain_eq_false_iff.mp h with
    ⟨hOrders, hLedger, hKeys⟩
  have hAttribute :
      db.ledger.map (LedgerRow.attribute treasury) =
        db.ledger :=
    map_eq_self (fun r hr =>
      attribute_of_ne (hLedger r hr).1)
  have hDrop : dropTwins treasury db.ledger = db.ledger := by
    unfold dropTwins
    apply List.filter_eq_self.mpr
    intro r hr
    simp [(hLedger r hr).2]
  refine
    { orders := ?_
      ledger := ?_
      unsuffixed := hKeys
      perVault := ?_
      killed := rfl
      killedVault := rfl
      legacyVault := hKey }
  · exact
      (map_eq_self (fun r hr =>
        order_attribute_of_ne (hOrders r hr))).symm
  · rw [hAttribute, hDrop]
    exact
      (map_eq_self (fun r hr =>
        rekey_of_not_legacy (hLedger r hr).2)).symm
  · intro k v
    rw [hKeys k, Option.or_none, ite_self]

theorem attributeLegacy_spec
    (h : db.Keyed) :
    ∃ db', attributeLegacy treasury db = .ok db' ∧
      Attributed treasury db db' ∧
      db'.store.deployment = db.store.deployment := by
  have hNodup :
      ((db.ledger.map
        (LedgerRow.attribute treasury)).map
        LedgerRow.uniq).Nodup := by
    rw [map_uniq_attribute]
    exact h.ledger
  have hLedger :
      rekeyLedger treasury
          (dropTwins treasury
            (db.ledger.map
              (LedgerRow.attribute treasury))) =
        .ok
          ((dropTwins treasury
            (db.ledger.map
              (LedgerRow.attribute treasury))).map
            (LedgerRow.rekey treasury)) := by
    unfold rekeyLedger
    rw [if_pos (rekeyed_nodup hNodup)]
  have hKeys := @foldl_moveKey treasury legacyScopedKeys db.store
  have hRest :=
    @foldl_moveKey_rest treasury legacyScopedKeys db.store
  refine ⟨_, by simp only [attributeLegacy, hLedger]; rfl,
    ?_, hRest.1⟩
  refine
    { orders := rfl
      ledger := rfl
      unsuffixed := ?_
      perVault := ?_
      killed := hRest.2.1
      killedVault := hRest.2.2
      legacyVault := Option.some_ne_none _ }
  · intro k
    rw [(hKeys k).1, if_pos (mem_legacyScopedKeys k)]
  · intro k v
    rw [(hKeys k).2 v]
    simp [mem_legacyScopedKeys k]

theorem migrateLegacy_spec
    (h : db.Keyed) :
    ∃ db', migrateLegacy (some treasury) db = .ok db' ∧
      Attributed treasury db db' ∧
      db'.store.deployment = db.store.deployment := by
  unfold migrateLegacy
  by_cases hSkip :
      db.store.legacyVault ≠ none ∧
        ¬ legacyShapesRemain db = true
  · refine ⟨db, ?_, ?_, rfl⟩
    · simp only [if_pos hSkip]
    · exact attributed_self (by simpa using hSkip.2) hSkip.1
  · simp only [if_neg hSkip]
    exact attributeLegacy_spec h

/- The file with the recorded vault set of a binding. -/
def MmDb.withDeployment
    (db : MmDb)
    (id : DeploymentId) : MmDb :=
  { db with
    store := { db.store with deployment := some id } }

/- A bind of the same core is the migration of the file. -/
theorem bind_eq_migrate
    {treasury : VaultAddress}
    (h : db.Shaped core)
    (d : CoreBind core treasury) :
    ∃ id : DeploymentId, id.core = core ∧
      setKey d.deployment = .ok id ∧
      bind d.deployment db =
        (migrateLegacy (some treasury.key)
          (db.withDeployment id)).map
          (fun migrated => (false, migrated)) := by
  have hSet :
      setKey d.deployment =
        .ok
          { core := coreKey d.deployment
            vaults := vaultList d.deployment } := by
    unfold setKey
    rw [if_neg d.vaults_ne]
  refine
    ⟨{ core := coreKey d.deployment
       vaults := vaultList d.deployment },
      d.core_eq, hSet, ?_⟩
  unfold bind
  rw [hSet, d.treasury_eq]
  simp only
  split
  · rename_i hSame
    have hFile :
        db.withDeployment
            { core := coreKey d.deployment
              vaults := vaultList d.deployment } = db := by
      unfold MmDb.withDeployment
      rw [← hSame]
    rw [hFile]
  · have hKept :
        (match db.store.deployment with
          | none => false
          | some current =>
              decide
                (current.core ≠ coreKey d.deployment)) =
          false := by
      cases hCurrent : db.store.deployment with
      | none => rfl
      | some current =>
          simp [h.bound current hCurrent, d.core_eq]
    simp only [hKept]
    rfl

theorem bind_spec
    {treasury : VaultAddress}
    (h : db.Shaped core)
    (d : CoreBind core treasury) :
    ∃ db' id, bind d.deployment db = .ok (false, db') ∧
      Attributed treasury.key db db' ∧
      id.core = core ∧
      setKey d.deployment = .ok id ∧
      db'.store.deployment = some id := by
  rcases bind_eq_migrate h d with ⟨id, hCore, hSet, hBind⟩
  have hKeyed : (db.withDeployment id).Keyed :=
    { orders := h.keyed.orders
      ledger := h.keyed.ledger }
  rcases @migrateLegacy_spec treasury.key _ hKeyed with
    ⟨db', hMigrate, hRows, hSame⟩
  refine ⟨db', id, ?_, ?_, hCore, hSet, hSame⟩
  · rw [hBind, hMigrate]
    rfl
  · exact
      { orders := hRows.orders
        ledger := hRows.ledger
        unsuffixed := hRows.unsuffixed
        perVault := hRows.perVault
        killed := hRows.killed
        killedVault := hRows.killedVault
        legacyVault := hRows.legacyVault }

/- On an attributed file a bind only looks. -/
theorem bind_again
    {treasury : VaultAddress}
    (d : CoreBind core treasury)
    {id : DeploymentId}
    (hSet : setKey d.deployment = .ok id)
    (hId : db.store.deployment = some id)
    (hShapes : legacyShapesRemain db = false)
    (hKey : db.store.legacyVault ≠ none) :
    bind d.deployment db = .ok (false, db) := by
  unfold bind
  rw [hSet]
  simp only [hId, if_true, d.treasury_eq, migrateLegacy,
    hKey, hShapes, ne_eq, not_false_eq_true,
    Bool.false_eq_true, and_self]
  rfl

/- Where each row of the ledger comes from. -/
theorem Attributed.mem_ledger
    (hRows : Attributed treasury db db')
    {r' : LedgerRow} :
    r' ∈ db'.ledger ↔
      ∃ r ∈ db.ledger,
        (r.isLegacySettle = true →
          LedgerUniq.settleFor treasury r.event.longId ∉
            db.ledger.map LedgerRow.uniq) ∧
        r' = (r.attribute treasury).rekey treasury := by
  have hUniq := map_uniq_attribute treasury db.ledger
  rw [hRows.ledger, List.mem_map]
  constructor
  · rintro ⟨a, ha, rfl⟩
    rcases mem_dropTwins.mp ha with ⟨hIn, hTwin⟩
    rcases List.mem_map.mp hIn with ⟨r, hr, rfl⟩
    rw [hUniq, isLegacySettle_attribute,
      event_attribute] at hTwin
    exact ⟨r, hr, hTwin, rfl⟩
  · rintro ⟨r, hr, hTwin, rfl⟩
    refine ⟨r.attribute treasury, ?_, rfl⟩
    apply mem_dropTwins.mpr
    rw [hUniq, isLegacySettle_attribute, event_attribute]
    exact ⟨List.mem_map_of_mem hr, hTwin⟩

theorem vault_rekey
    (treasury : String)
    (r : LedgerRow) :
    (r.rekey treasury).vault = r.vault := by
  unfold LedgerRow.rekey
  split <;> rfl

theorem event_rekey
    (treasury : String)
    (r : LedgerRow) :
    (r.rekey treasury).event = r.event := by
  unfold LedgerRow.rekey
  split <;> rfl

theorem not_legacy_rekey
    (treasury : String)
    (r : LedgerRow) :
    ¬ (r.rekey treasury).isLegacySettle = true := by
  intro hLegacy
  by_cases h : r.isLegacySettle = true
  · rcases isLegacySettle_iff.mp hLegacy with ⟨e, _, hUniq⟩
    rw [uniq_rekey_of_legacy h] at hUniq
    cases hUniq
  · rw [rekey_of_not_legacy h] at hLegacy
    exact h hLegacy

/- A shaped row that carries a vault is not legacy. -/
theorem LedgerRow.Shaped.not_legacy
    {r : LedgerRow}
    (h : r.Shaped)
    (hVault : r.vault ≠ "") :
    ¬ r.isLegacySettle = true := by
  intro hLegacy
  rcases isLegacySettle_iff.mp hLegacy with
    ⟨e, hEvent, hUniq⟩
  simp only [LedgerRow.Shaped, hEvent] at h
  rcases h with ⟨_, hNone⟩ | ⟨hFor, _⟩
  · exact hVault hNone
  · rw [hUniq] at hFor
    cases hFor

/- A settlement's text is only on a settlement. -/
theorem LedgerRow.Shaped.event_of_uniq
    {r : LedgerRow}
    (h : r.Shaped)
    (vault longId : String)
    (hUniq :
      r.uniq = .settleFor vault longId ∨
        r.uniq = .settle longId) :
    ∃ e, r.event = .settle e ∧ e.longId = longId := by
  cases hEvent : r.event with
  | fill e =>
      simp only [LedgerRow.Shaped, hEvent] at h
      rcases h with ⟨orderId, filled, hFill⟩
      rw [hFill] at hUniq
      rcases hUniq with hFor | hOld
      · cases hFor
      · cases hOld
  | settle e =>
      refine ⟨e, rfl, ?_⟩
      simp only [LedgerRow.Shaped, hEvent] at h
      rcases h with ⟨hSame, _⟩ | ⟨hSame, _⟩
      · simpa [hSame] using hUniq
      · rw [hSame] at hUniq
        rcases hUniq with hFor | hOld
        · injection hFor
        · cases hOld

theorem LedgerRow.Shaped.attribute_rekey
    {r : LedgerRow}
    (h : r.Shaped)
    (hTreasury : treasury ≠ "") :
    ((r.attribute treasury).rekey treasury).Shaped := by
  by_cases hLegacy : r.isLegacySettle = true
  · rcases isLegacySettle_iff.mp hLegacy with
      ⟨e, hEvent, hUniq⟩
    have hVault : r.vault = "" := by
      by_contra hNe
      exact h.not_legacy hNe hLegacy
    have hRow :
        (r.attribute treasury).rekey treasury =
          { r with
            vault := treasury
            uniq := .settleFor treasury r.event.longId } := by
      unfold LedgerRow.rekey
      rw [isLegacySettle_attribute, if_pos hLegacy,
        event_attribute]
      unfold LedgerRow.attribute
      rw [if_pos hVault]
    rw [hRow]
    simp only [LedgerRow.Shaped, hEvent]
    exact .inr ⟨rfl, hTreasury⟩
  · rw [rekey_of_not_legacy
      (by rwa [isLegacySettle_attribute])]
    by_cases hVault : r.vault = ""
    · cases hEvent : r.event with
      | fill e =>
          simp only [LedgerRow.Shaped, hEvent,
            event_attribute, uniq_attribute] at h ⊢
          exact h
      | settle e =>
          simp only [LedgerRow.Shaped, hEvent] at h
          rcases h with ⟨hUniq, _⟩ | ⟨_, hNe⟩
          · exact absurd
              (isLegacySettle_iff.mpr ⟨e, hEvent, hUniq⟩)
              hLegacy
          · exact absurd hVault hNe
    · rw [attribute_of_ne hVault]
      exact h

/- The migration leaves nothing of the old shape. -/
theorem Attributed.no_legacy
    (hRows : Attributed treasury db db')
    (hTreasury : treasury ≠ "") :
    legacyShapesRemain db' = false := by
  refine legacyShapesRemain_eq_false_iff.mpr
    ⟨?_, ?_, hRows.unsuffixed⟩
  · intro r hr
    rw [hRows.orders] at hr
    rcases List.mem_map.mp hr with ⟨old, _, rfl⟩
    exact order_vault_attribute_ne hTreasury old
  · intro r hr
    rcases hRows.mem_ledger.mp hr with ⟨old, _, _, rfl⟩
    rw [vault_rekey]
    exact ⟨vault_attribute_ne hTreasury old,
      not_legacy_rekey treasury _⟩

theorem Attributed.shaped
    (hRows : Attributed treasury db db')
    (h : db.Shaped core)
    (hTreasury : treasury ≠ "")
    (hBound :
      ∀ id, db'.store.deployment = some id →
        id.core = core) :
    db'.Shaped core := by
  refine
    { keyed := { orders := ?_, ledger := ?_ }
      rows := ?_
      bound := hBound }
  · rw [hRows.orders, List.map_map]
    have hSame :
        OrderRow.orderId ∘ OrderRow.attribute treasury =
          OrderRow.orderId := by
      funext r
      exact orderId_attribute treasury r
    rw [hSame]
    exact h.keyed.orders
  · rw [hRows.ledger]
    apply rekeyed_nodup
    rw [map_uniq_attribute]
    exact h.keyed.ledger
  · intro r hr
    rcases hRows.mem_ledger.mp hr with ⟨old, hOld, _, rfl⟩
    exact (h.rows old hOld).attribute_rekey hTreasury

end

----
-- Rows Through Sessions and Binds
----

section

variable {core : MmCore} {db db' : MmDb}

/- A vault column and what it is at any later time. -/
def VaultLater
    (treasury vault vault' : String) : Prop :=
  vault' = vault ∨ vault = "" ∧ vault' = treasury

/- The same order, further filled or not. -/
structure OrderRow.Later
    (treasury : String)
    (r r' : OrderRow) : Prop where
  order :
    { r'.order with filledSeen := r.order.filledSeen } =
      r.order
  seenAt : r'.seenAt = r.seenAt
  vault : VaultLater treasury r.vault r'.vault

structure LedgerRow.Later
    (treasury : String)
    (r r' : LedgerRow) : Prop where
  event : r'.event = r.event
  uniq : r'.uniq = r.uniq
  vault : VaultLater treasury r.vault r'.vault

def LedgerRow.isFill
    (r : LedgerRow) : Prop :=
  ∃ e, r.event = .fill e

/- Every order and fill row of the one file is in the other. -/
structure KeepsRows
    (treasury : String)
    (db db' : MmDb) : Prop where
  orders :
    ∀ r ∈ db.orders, ∃ r' ∈ db'.orders, r.Later treasury r'
  fills :
    ∀ r ∈ db.ledger, r.isFill →
      ∃ r' ∈ db'.ledger, r.Later treasury r'

variable {treasury : String}

theorem VaultLater.trans
    {a b c : String}
    (hab : VaultLater treasury a b)
    (hbc : VaultLater treasury b c) :
    VaultLater treasury a c := by
  rcases hab with rfl | ⟨hNone, rfl⟩
  · exact hbc
  · rcases hbc with rfl | ⟨hAgain, rfl⟩
    · exact .inr ⟨hNone, rfl⟩
    · exact .inr ⟨hNone, rfl⟩

theorem OrderRow.Later.refl
    (r : OrderRow) :
    r.Later treasury r :=
  { order := rfl, seenAt := rfl, vault := .inl rfl }

theorem LedgerRow.Later.refl
    (r : LedgerRow) :
    r.Later treasury r :=
  { event := rfl, uniq := rfl, vault := .inl rfl }

theorem OrderRow.Later.trans
    {a b c : OrderRow}
    (hab : a.Later treasury b)
    (hbc : b.Later treasury c) :
    a.Later treasury c := by
  refine
    { order := ?_
      seenAt := hbc.seenAt.trans hab.seenAt
      vault := hab.vault.trans hbc.vault }
  have hAB := hab.order
  have hBC := hbc.order
  rw [← hAB, ← hBC]

theorem LedgerRow.Later.trans
    {a b c : LedgerRow}
    (hab : a.Later treasury b)
    (hbc : b.Later treasury c) :
    a.Later treasury c :=
  { event := hbc.event.trans hab.event
    uniq := hbc.uniq.trans hab.uniq
    vault := hab.vault.trans hbc.vault }

theorem KeepsRows.refl
    (db : MmDb) :
    KeepsRows treasury db db :=
  { orders := fun r hr => ⟨r, hr, .refl r⟩
    fills := fun r hr _ => ⟨r, hr, .refl r⟩ }

theorem KeepsRows.trans
    {db'' : MmDb}
    (h : KeepsRows treasury db db')
    (h' : KeepsRows treasury db' db'') :
    KeepsRows treasury db db'' := by
  refine { orders := ?_, fills := ?_ }
  · intro r hr
    rcases h.orders r hr with ⟨r', hr', hLater⟩
    rcases h'.orders r' hr' with ⟨r'', hr'', hLater'⟩
    exact ⟨r'', hr'', hLater.trans hLater'⟩
  · intro r hr hFill
    rcases h.fills r hr hFill with ⟨r', hr', hLater⟩
    have hFill' : r'.isFill := by
      rcases hFill with ⟨e, he⟩
      exact ⟨e, hLater.event.trans he⟩
    rcases h'.fills r' hr' hFill' with ⟨r'', hr'', hLater'⟩
    exact ⟨r'', hr'', hLater.trans hLater'⟩

theorem KeepsRows.of_subset
    (hOrders : db.orders ⊆ db'.orders)
    (hLedger : db.ledger ⊆ db'.ledger) :
    KeepsRows treasury db db' :=
  { orders := fun r hr => ⟨r, hOrders hr, .refl r⟩
    fills := fun r hr _ => ⟨r, hLedger hr, .refl r⟩ }

/- A write inserts rows or moves an order's progress. -/
theorem write_keeps
    (db : MmDb)
    (vault : Option String)
    (w : StoreWrite) :
    db.ledger ⊆ (w.apply db vault).ledger ∧
      KeepsRows treasury db (w.apply db vault) := by
  cases w with
  | track order closed now =>
      exact ⟨List.Subset.refl _,
        .of_subset (KeyedTable.subset_insertOrIgnore _ _)
          (List.Subset.refl _)⟩
  | ingest rows index now =>
      have hTracked :
          ∀ start : MmDb,
            start.orders ⊆
                (rows.foldl
                  (fun acc r =>
                    trackOrder acc r.1 r.2 now vault)
                  start).orders ∧
              (rows.foldl
                  (fun acc r =>
                    trackOrder acc r.1 r.2 now vault)
                  start).ledger = start.ledger := by
        induction rows with
        | nil => exact fun _ => ⟨List.Subset.refl _, rfl⟩
        | cons r rest ih =>
            intro start
            have hRest := ih (trackOrder start r.1 r.2 now vault)
            exact
              ⟨List.Subset.trans
                (KeyedTable.subset_insertOrIgnore _ _)
                hRest.1, hRest.2⟩
      have hLedger :
          db.ledger ⊆
            ((StoreWrite.ingest rows index now).apply db
              vault).ledger :=
        fun r hr => (hTracked db).2.symm ▸ hr
      exact ⟨hLedger, .of_subset (hTracked db).1 hLedger⟩
  | progress orderId filled closed fill =>
      have hLedger :
          db.ledger ⊆
            ((StoreWrite.progress orderId filled closed
              fill).apply db vault).ledger := by
        cases fill with
        | none => exact List.Subset.refl _
        | some e =>
            exact KeyedTable.subset_insertOrIgnore _ _
      refine ⟨hLedger,
        { orders := ?_
          fills := fun r hr _ => ⟨r, hLedger hr, .refl r⟩ }⟩
      intro r hr
      refine ⟨r.progress orderId filled closed, ?_, ?_⟩
      · simp only [StoreWrite.apply]
        rw [orders_recordOrderProgress]
        exact List.mem_map_of_mem hr
      · unfold OrderRow.progress
        split
        · exact
            { order := rfl
              seenAt := rfl
              vault := .inl rfl }
        · exact .refl r
  | settle event =>
      have hLedger :
          db.ledger ⊆
            ((StoreWrite.settle event).apply db
              vault).ledger :=
        KeyedTable.subset_insertOrIgnore _ _
      exact ⟨hLedger,
        .of_subset (List.Subset.refl _) hLedger⟩
  | checkpoint c =>
      exact ⟨List.Subset.refl _,
        .of_subset (List.Subset.refl _)
          (List.Subset.refl _)⟩
  | lastSync t =>
      exact ⟨List.Subset.refl _,
        .of_subset (List.Subset.refl _)
          (List.Subset.refl _)⟩
  | outflow p =>
      exact ⟨List.Subset.refl _,
        .of_subset (List.Subset.refl _)
          (List.Subset.refl _)⟩

theorem Attributed.keeps
    (hRows : Attributed treasury db db') :
    KeepsRows treasury db db' := by
  refine { orders := ?_, fills := ?_ }
  · intro r hr
    refine ⟨r.attribute treasury, ?_, ?_⟩
    · rw [hRows.orders]
      exact List.mem_map_of_mem hr
    · unfold OrderRow.attribute
      by_cases hVault : r.vault = ""
      · rw [if_pos hVault]
        exact
          { order := rfl
            seenAt := rfl
            vault := .inr ⟨hVault, rfl⟩ }
      · rw [if_neg hVault]
        exact .refl r
  · intro r hr hFill
    have hNot : ¬ r.isLegacySettle = true := by
      intro hLegacy
      rcases isLegacySettle_iff.mp hLegacy with ⟨e, he, _⟩
      rcases hFill with ⟨e', he'⟩
      rw [he] at he'
      cases he'
    refine ⟨r.attribute treasury, ?_, ?_⟩
    · apply hRows.mem_ledger.mpr
      refine ⟨r, hr, fun hLegacy => absurd hLegacy hNot, ?_⟩
      rw [rekey_of_not_legacy
        (by rwa [isLegacySettle_attribute])]
    · refine
        { event := event_attribute treasury r
          uniq := uniq_attribute treasury r
          vault := ?_ }
      unfold LedgerRow.attribute
      by_cases hVault : r.vault = ""
      · rw [if_pos hVault]
        exact .inr ⟨hVault, rfl⟩
      · rw [if_neg hVault]
        exact .inl rfl

/- The vault's settlement is in the ledger, in some form. -/
def Settles
    (treasury : String)
    (db : MmDb)
    (vault longId : String) : Prop :=
  ∃ r ∈ db.ledger,
    (∃ e, r.event = .settle e ∧ e.longId = longId) ∧
      (r.uniq = .settleFor vault longId ∨
        vault = treasury ∧ r.uniq = .settle longId)

theorem Settles.of_subset
    {vault longId : String}
    (h : Settles treasury db vault longId)
    (hLedger : db.ledger ⊆ db'.ledger) :
    Settles treasury db' vault longId := by
  rcases h with ⟨r, hr, hRow⟩
  exact ⟨r, hLedger hr, hRow⟩

/- After a bind the settlement has the vault in its key. -/
theorem Attributed.settles
    (hRows : Attributed treasury db db')
    (h : db.Shaped core)
    {vault longId : String}
    (hSettles : Settles treasury db vault longId) :
    ∃ r ∈ db'.ledger,
      (∃ e, r.event = .settle e ∧ e.longId = longId) ∧
        r.uniq = .settleFor vault longId := by
  -- a row that has the key already is left as it is
  have hFor :
      ∀ v, ∀ r ∈ db.ledger,
        (∃ e, r.event = .settle e ∧ e.longId = longId) →
        r.uniq = .settleFor v longId →
        ∃ r' ∈ db'.ledger,
          (∃ e, r'.event = .settle e ∧ e.longId = longId) ∧
            r'.uniq = .settleFor v longId := by
    intro v r hr hEvent hUniq
    have hNot : ¬ r.isLegacySettle = true := by
      intro hLegacy
      rcases isLegacySettle_iff.mp hLegacy with ⟨e, _, hOld⟩
      rw [hUniq] at hOld
      cases hOld
    refine ⟨r.attribute treasury, ?_, ?_, ?_⟩
    · apply hRows.mem_ledger.mpr
      refine ⟨r, hr, fun hLegacy => absurd hLegacy hNot, ?_⟩
      rw [rekey_of_not_legacy
        (by rwa [isLegacySettle_attribute])]
    · rwa [event_attribute]
    · rwa [uniq_attribute]
  rcases hSettles with
    ⟨r, hr, hEvent, hUniq | ⟨rfl, hUniq⟩⟩
  · exact hFor vault r hr hEvent hUniq
  · rcases hEvent with ⟨e, hE, rfl⟩
    have hLong : r.event.longId = e.longId := by
      rw [hE]
      rfl
    have hLegacy : r.isLegacySettle = true :=
      isLegacySettle_iff.mpr ⟨e, hE, hUniq⟩
    by_cases hTwin :
        LedgerUniq.settleFor vault e.longId ∈
          db.ledger.map LedgerRow.uniq
    · rcases List.mem_map.mp hTwin with ⟨t, ht, hT⟩
      have hTEvent := (h.rows t ht).event_of_uniq _ _ (.inl hT)
      exact hFor vault t ht hTEvent hT
    · refine
        ⟨(r.attribute vault).rekey vault, ?_,
          ⟨e, ?_, rfl⟩, ?_⟩
      · apply hRows.mem_ledger.mpr
        exact ⟨r, hr, fun _ => hLong ▸ hTwin, rfl⟩
      · rw [event_rekey, event_attribute]
        exact hE
      · rw [uniq_rekey_of_legacy
          (by rwa [isLegacySettle_attribute]),
          event_attribute, hLong]

end

----
-- Any Interleaving
----

section

variable {core : MmCore} {treasury : VaultAddress} {db db' : MmDb}

/- The orders a write tracks and the fill it books. -/
def StoreWrite.orderIds : StoreWrite → List Int
  | .track order _ _ => [order.orderId]
  | .ingest rows _ _ => rows.map (fun r => r.1.orderId)
  | _ => []

def StoreWrite.fillKeys : StoreWrite → List (Int × Int)
  | .progress orderId filled _ (some _) =>
      [(orderId, filled)]
  | _ => []

def StoreWrite.settled
    (vault : String) : StoreWrite → List (String × String)
  | .settle e => [(vault, e.longId)]
  | _ => []

def StoreEvent.write :
    StoreEvent core treasury → Option StoreWrite
  | .old w => some w
  | .new _ w => some w
  | .kill _ => none
  | .killFor _ _ => none
  | .bind _ => none

/- What the old binary settles is the treasury's. -/
def StoreEvent.settled :
    StoreEvent core treasury → List (String × String)
  | .old w => w.settled treasury.key
  | .new v w => w.settled v.key
  | .kill _ => []
  | .killFor _ _ => []
  | .bind _ => []

def ownerOf
    (treasury vault : String) : String :=
  if vault = "" then treasury else vault

def LedgerRow.settlesFor
    (vault longId : String)
    (r : LedgerRow) : Bool :=
  match r.event with
  | .fill _ => false
  | .settle e =>
      decide (r.vault = vault) && decide (e.longId = longId)

theorem StoreEvent.shaped
    (h : db.Shaped core)
    (e : StoreEvent core treasury) :
    (e.apply db).Shaped core := by
  cases e with
  | old w => exact h.write (fun _ hSome => by cases hSome) w
  | new v w =>
      apply h.write _ w
      intro t ht
      cases ht
      exact v.nonempty
  | kill state => exact h.keep_store _ rfl
  | killFor v state => exact h.keep_store _ rfl
  | bind d =>
      rcases bind_spec h d with
        ⟨db', id, hBind, hRows, hCore, _, hId⟩
      have hFile : (StoreEvent.bind d).apply db = db' := by
        simp only [StoreEvent.apply, bindFile, hBind]
      rw [hFile]
      apply hRows.shaped h treasury.nonempty
      intro other hOther
      rw [hId] at hOther
      cases hOther
      exact hCore

theorem StoreEvent.keeps
    (h : db.Shaped core)
    (e : StoreEvent core treasury) :
    KeepsRows treasury.key db (e.apply db) := by
  cases e with
  | old w => exact (write_keeps db _ w).2
  | new v w => exact (write_keeps db _ w).2
  | kill state =>
      exact .of_subset (List.Subset.refl _)
        (List.Subset.refl _)
  | killFor v state =>
      exact .of_subset (List.Subset.refl _)
        (List.Subset.refl _)
  | bind d =>
      rcases bind_spec h d with ⟨db', id, hBind, hRows, _⟩
      have hFile : (StoreEvent.bind d).apply db = db' := by
        simp only [StoreEvent.apply, bindFile, hBind]
      rw [hFile]
      exact hRows.keeps

theorem StoreEvent.settles
    (h : db.Shaped core)
    (e : StoreEvent core treasury)
    {vault longId : String}
    (hSettles : Settles treasury.key db vault longId) :
    Settles treasury.key (e.apply db) vault longId := by
  cases e with
  | old w => exact hSettles.of_subset (@write_keeps "" _ _ w).1
  | new v w =>
      exact hSettles.of_subset (@write_keeps "" _ _ w).1
  | kill state => exact hSettles
  | killFor v state => exact hSettles
  | bind d =>
      rcases bind_spec h d with ⟨db', id, hBind, hRows, _⟩
      have hFile : (StoreEvent.bind d).apply db = db' := by
        simp only [StoreEvent.apply, bindFile, hBind]
      rw [hFile]
      rcases hRows.settles h hSettles with
        ⟨r, hr, hEvent, hUniq⟩
      exact ⟨r, hr, hEvent, .inl hUniq⟩

theorem shaped_emptyFile :
    MmDb.Shaped core emptyFile :=
  { keyed :=
      { orders := List.nodup_nil
        ledger := List.nodup_nil }
    rows := fun _ hr => absurd hr List.not_mem_nil
    bound := fun _ hId => by cases hId }

theorem fileAfter_concat
    (events : List (StoreEvent core treasury))
    (e : StoreEvent core treasury) :
    fileAfter (events ++ [e]) =
      e.apply (fileAfter events) := by
  simp [fileAfter]

theorem shaped_fileAfter
    (events : List (StoreEvent core treasury)) :
    (fileAfter events).Shaped core := by
  induction events using List.reverseRecOn with
  | nil => exact shaped_emptyFile
  | append_singleton events e ih =>
      rw [fileAfter_concat]
      exact e.shaped ih

/- What was in the file at any time is in it later. -/
theorem fileAfter_keeps
    {part events : List (StoreEvent core treasury)}
    (h : part <+: events) :
    KeepsRows treasury.key (fileAfter part)
      (fileAfter events) := by
  induction events using List.reverseRecOn with
  | nil =>
      rw [List.prefix_nil.mp h]
      exact .refl _
  | append_singleton events e ih =>
      rcases List.prefix_concat_iff.mp h with rfl | hPart
      · exact .refl _
      · rw [fileAfter_concat]
        exact (ih hPart).trans
          (e.keeps (shaped_fileAfter events))

/- A write leaves the rows it is about in the file. -/
theorem StoreWrite.writes
    (db : MmDb)
    (vault : Option String)
    (w : StoreWrite) :
    (∀ id ∈ w.orderIds,
        id ∈ (w.apply db vault).orders.map
          OrderRow.orderId) ∧
      ∀ k ∈ w.fillKeys,
        LedgerUniq.fill k.1 k.2 ∈
          (w.apply db vault).ledger.map LedgerRow.uniq := by
  cases w with
  | track order closed now =>
      refine ⟨?_, fun k hk => absurd hk List.not_mem_nil⟩
      intro id hId
      rw [List.mem_singleton.mp hId]
      exact KeyedTable.key_mem_insertOrIgnore _ _
  | ingest rows index now =>
      refine ⟨?_, fun k hk => absurd hk List.not_mem_nil⟩
      simp only [StoreWrite.orderIds]
      intro id hId
      have hTracked :
          ∀ start : MmDb,
            (id ∈ start.orders.map OrderRow.orderId ∨
              id ∈ rows.map (fun r => r.1.orderId)) →
            id ∈
              ((rows.foldl
                (fun acc r =>
                  trackOrder acc r.1 r.2 now vault)
                start).orders.map OrderRow.orderId) := by
        clear hId
        induction rows with
        | nil =>
            rintro start (hOld | hNew)
            · exact hOld
            · cases hNew
        | cons r rest ih =>
            intro start hIn
            apply ih
            rw [List.map_cons, List.mem_cons] at hIn
            rcases hIn with hOld | rfl | hRest
            · exact .inl
                (List.map_subset _
                  (KeyedTable.subset_insertOrIgnore _ _)
                  hOld)
            · exact .inl
                (KeyedTable.key_mem_insertOrIgnore _ _)
            · exact .inr hRest
      exact hTracked db (.inr hId)
  | progress orderId filled closed fill =>
      refine ⟨fun id hId => absurd hId List.not_mem_nil, ?_⟩
      cases fill with
      | none =>
          intro k hk
          cases hk
      | some e =>
          intro k hk
          rw [List.mem_singleton.mp hk]
          exact
            @KeyedTable.key_mem_insertOrIgnore _ _ _
              LedgerRow.uniq db.ledger
              { event := .fill e
                uniq := .fill orderId filled
                vault := vaultColumn vault }
  | settle event =>
      exact ⟨fun id hId => absurd hId List.not_mem_nil,
        fun k hk => absurd hk List.not_mem_nil⟩
  | checkpoint c =>
      exact ⟨fun id hId => absurd hId List.not_mem_nil,
        fun k hk => absurd hk List.not_mem_nil⟩
  | lastSync t =>
      exact ⟨fun id hId => absurd hId List.not_mem_nil,
        fun k hk => absurd hk List.not_mem_nil⟩
  | outflow p =>
      exact ⟨fun id hId => absurd hId List.not_mem_nil,
        fun k hk => absurd hk List.not_mem_nil⟩

theorem KeepsRows.orderId_mem
    {t : String}
    (h : KeepsRows t db db')
    {id : Int}
    (hId : id ∈ db.orders.map OrderRow.orderId) :
    id ∈ db'.orders.map OrderRow.orderId := by
  rcases List.mem_map.mp hId with ⟨r, hr, rfl⟩
  rcases h.orders r hr with ⟨r', hr', hLater⟩
  have hSame : r'.orderId = r.orderId := by
    unfold OrderRow.orderId
    rw [← hLater.order]
  exact hSame ▸ List.mem_map_of_mem hr'

theorem KeepsRows.fillKey_mem
    {t : String}
    (h : KeepsRows t db db')
    (hShaped : db.Shaped core)
    {k : Int × Int}
    (hk :
      LedgerUniq.fill k.1 k.2 ∈
        db.ledger.map LedgerRow.uniq) :
    LedgerUniq.fill k.1 k.2 ∈
      db'.ledger.map LedgerRow.uniq := by
  rcases List.mem_map.mp hk with ⟨r, hr, hUniq⟩
  have hFill : r.isFill := by
    have hShape := hShaped.rows r hr
    cases hEvent : r.event with
    | fill e => exact ⟨e, hEvent⟩
    | settle e =>
        simp only [LedgerRow.Shaped, hEvent, hUniq,
          reduceCtorEq, false_and, or_self] at hShape
  rcases h.fills r hr hFill with ⟨r', hr', hLater⟩
  exact List.mem_map.mpr
    ⟨r', hr', hLater.uniq.trans hUniq⟩

theorem StoreEvent.settled_settles
    (h : db.Shaped core)
    (e : StoreEvent core treasury)
    {vault longId : String}
    (hMem : (vault, longId) ∈ e.settled) :
    Settles treasury.key (e.apply db) vault longId := by
  have hAfter := e.shaped h
  -- the row with the settlement's text, old or new
  have hRow :
      ∀ (event : SettleEvent) (v : Option String),
        ∃ r ∈ (recordSettlement db event v).ledger,
          r.uniq = settlementUniq event.longId v := by
    intro event v
    exact List.mem_map.mp
      (@KeyedTable.key_mem_insertOrIgnore _ _ _
        LedgerRow.uniq db.ledger
        { event := .settle event
          uniq := settlementUniq event.longId v
          vault := vaultColumn v })
  cases e with
  | old w =>
      cases w with
      | settle event =>
          rcases List.mem_singleton.mp hMem with ⟨rfl, rfl⟩
          rcases hRow event none with ⟨r, hr, hUniq⟩
          exact ⟨r, hr,
            (hAfter.rows r hr).event_of_uniq "" _
              (.inr hUniq),
            .inr ⟨rfl, hUniq⟩⟩
      | _ => cases hMem
  | new v w =>
      cases w with
      | settle event =>
          rcases List.mem_singleton.mp hMem with ⟨rfl, rfl⟩
          rcases hRow event v.text with ⟨r, hr, hUniq⟩
          exact ⟨r, hr,
            (hAfter.rows r hr).event_of_uniq _ _ (.inl hUniq),
            .inl hUniq⟩
      | _ => cases hMem
  | kill state => cases hMem
  | killFor v state => cases hMem
  | bind d => cases hMem

/-
  What one event makes true of every file it can meet, and
  the later events keep, is true of the file in the end.
-/
theorem fileAfter_of_mem
    (P : MmDb → Prop)
    {events : List (StoreEvent core treasury)}
    {e : StoreEvent core treasury}
    (he : e ∈ events)
    (hMade : ∀ db : MmDb, db.Shaped core → P (e.apply db))
    (hKept :
      ∀ (db : MmDb) (e : StoreEvent core treasury),
        db.Shaped core → P db → P (e.apply db)) :
    P (fileAfter events) := by
  induction events using List.reverseRecOn with
  | nil => cases he
  | append_singleton events last ih =>
      rw [fileAfter_concat]
      rcases List.mem_append.mp he with hEarlier | hLast
      · exact hKept _ last (shaped_fileAfter events)
          (ih hEarlier)
      · rw [← List.mem_singleton.mp hLast]
        exact hMade _ (shaped_fileAfter events)

end

----
-- Attribution Without Loss or Duplication
----

variable {core : MmCore} {treasury : VaultAddress}

/-
  What holds after a bind `d` of the file that `events` left:
  `before` is the file it met, `db` the one it leaves.
-/
structure BindResult
    (events : List (StoreEvent core treasury))
    (d : CoreBind core treasury)
    (before db : MmDb) : Prop where
  no_legacy : legacyShapesRemain db = false
  orders_kept :
    ∀ part, part <+: events →
      ∀ r ∈ (fileAfter part).orders, ∃ r' ∈ db.orders,
        { r'.order with filledSeen := r.order.filledSeen } =
            r.order ∧
          r'.seenAt = r.seenAt ∧
          r'.vault = ownerOf treasury.key r.vault
  fills_kept :
    ∀ part, part <+: events →
      ∀ r ∈ (fileAfter part).ledger, r.isFill →
        { r with vault := ownerOf treasury.key r.vault } ∈
          db.ledger
  orders_written :
    ∀ e ∈ events, ∀ w, e.write = some w →
      ∀ id ∈ w.orderIds,
        id ∈ db.orders.map OrderRow.orderId
  fills_written :
    ∀ e ∈ events, ∀ w, e.write = some w →
      ∀ k ∈ w.fillKeys,
        LedgerUniq.fill k.1 k.2 ∈
          db.ledger.map LedgerRow.uniq
  settled_once :
    ∀ vault longId,
      (db.ledger.filter
        (LedgerRow.settlesFor vault longId)).length ≤ 1
  settled_kept :
    ∀ e ∈ events, ∀ s ∈ e.settled,
      ∃ r ∈ db.ledger, r.settlesFor s.1 s.2 = true ∧
        r.uniq = .settleFor s.1 s.2
  orders_unchanged :
    ∀ r ∈ before.orders, r.vault ≠ "" → r ∈ db.orders
  ledger_unchanged :
    ∀ r ∈ before.ledger, r.vault ≠ "" → r ∈ db.ledger
  keys_unchanged :
    ∀ k v x, before.store.perVault k v = some x →
      db.store.perVault k v = some x
  others_orders :
    ∀ vault, vault ≠ "" → vault ≠ treasury.key →
      db.orders.filter (fun r => r.vault = vault) =
        before.orders.filter (fun r => r.vault = vault)
  others_ledger :
    ∀ vault, vault ≠ "" → vault ≠ treasury.key →
      db.ledger.filter (fun r => r.vault = vault) =
        before.ledger.filter (fun r => r.vault = vault)
  others_keys :
    ∀ k vault, vault ≠ treasury.key →
      db.store.perVault k vault =
        before.store.perVault k vault
  killed : db.store.killed = before.store.killed
  killedVault :
    db.store.killedVault = before.store.killedVault
  again : bind d.deployment db = .ok (false, db)

variable {db db' : MmDb}

theorem length_le_one_of_nodup
    {α : Type}
    {l : List α}
    (hNodup : l.Nodup)
    (hSame : ∀ a ∈ l, ∀ b ∈ l, a = b) :
    l.length ≤ 1 := by
  rcases l with _ | ⟨a, _ | ⟨b, rest⟩⟩
  · exact Nat.zero_le _
  · exact Nat.le_refl _
  · exfalso
    rw [List.nodup_cons] at hNodup
    apply hNodup.1
    rw [hSame a (by simp) b (by simp)]
    exact List.mem_cons_self ..

theorem settlesFor_iff
    {vault longId : String}
    {r : LedgerRow} :
    r.settlesFor vault longId = true ↔
      r.vault = vault ∧
        ∃ e, r.event = .settle e ∧ e.longId = longId := by
  unfold LedgerRow.settlesFor
  cases hEvent : r.event with
  | fill e => simp
  | settle e => simp

/- A vault's row of a shaped file has the vault in its key. -/
theorem uniq_of_settlesFor
    (h : db.Shaped core)
    {vault longId : String}
    (hVault : vault ≠ "")
    {r : LedgerRow}
    (hr : r ∈ db.ledger)
    (hRow : r.settlesFor vault longId = true) :
    r.uniq = .settleFor vault longId := by
  rcases settlesFor_iff.mp hRow with
    ⟨rfl, e, hEvent, rfl⟩
  have hShape := h.rows r hr
  simp only [LedgerRow.Shaped, hEvent] at hShape
  rcases hShape with ⟨_, hNone⟩ | ⟨hUniq, _⟩
  · exact absurd hNone hVault
  · exact hUniq

theorem settledFor_length_le_one
    (h : db.Shaped core)
    (hVaults : ∀ r ∈ db.ledger, r.vault ≠ "")
    (vault longId : String) :
    (db.ledger.filter
      (LedgerRow.settlesFor vault longId)).length ≤ 1 := by
  apply length_le_one_of_nodup
    (h.keyed.ledger.of_map.filter _)
  intro a ha b hb
  rcases List.mem_filter.mp ha with ⟨haIn, haRow⟩
  rcases List.mem_filter.mp hb with ⟨hbIn, hbRow⟩
  have hVault : vault ≠ "" := by
    rw [← (settlesFor_iff.mp haRow).1]
    exact hVaults a haIn
  apply List.inj_on_of_nodup_map h.keyed.ledger haIn hbIn
  rw [uniq_of_settlesFor h hVault haIn haRow,
    uniq_of_settlesFor h hVault hbIn hbRow]

/- A vault's rows are neither moved nor joined by others. -/
theorem Attributed.others_orders
    {treasury : String}
    (hRows : Attributed treasury db db')
    {vault : String}
    (hVault : vault ≠ "")
    (hOther : vault ≠ treasury) :
    db'.orders.filter (fun r => r.vault = vault) =
      db.orders.filter (fun r => r.vault = vault) := by
  rw [hRows.orders, List.filter_map]
  have hSame :
      db.orders.filter
          ((fun r : OrderRow => decide (r.vault = vault)) ∘
            OrderRow.attribute treasury) =
        db.orders.filter (fun r => r.vault = vault) := by
    apply List.filter_congr
    intro r _
    simp only [Function.comp_apply, OrderRow.attribute]
    by_cases hNone : r.vault = ""
    · simp [hNone, Ne.symm hVault, Ne.symm hOther]
    · simp [hNone]
  rw [hSame]
  apply map_eq_self
  intro r hr
  apply order_attribute_of_ne
  have hIs := (List.mem_filter.mp hr).2
  simp only [decide_eq_true_eq] at hIs
  rwa [hIs]

theorem Attributed.others_ledger
    {treasury : String}
    (hRows : Attributed treasury db db')
    (h : db.Shaped core)
    {vault : String}
    (hVault : vault ≠ "")
    (hOther : vault ≠ treasury) :
    db'.ledger.filter (fun r => r.vault = vault) =
      db.ledger.filter (fun r => r.vault = vault) := by
  have hNotLegacy :
      ∀ r ∈ db.ledger, (r.attribute treasury).vault = vault →
        r.vault = vault ∧ ¬ r.isLegacySettle = true := by
    intro r hr hIs
    unfold LedgerRow.attribute at hIs
    by_cases hNone : r.vault = ""
    · rw [if_pos hNone] at hIs
      exact absurd hIs.symm hOther
    · rw [if_neg hNone] at hIs
      exact ⟨hIs, (h.rows r hr).not_legacy hNone⟩
  rw [hRows.ledger, List.filter_map]
  unfold dropTwins
  rw [List.filter_filter, List.filter_map]
  have hSame :
      ∀ q : LedgerRow → Bool,
        (∀ r ∈ db.ledger,
          q (r.attribute treasury) =
            decide (r.vault = vault)) →
        db.ledger.filter
            (q ∘ LedgerRow.attribute treasury) =
          db.ledger.filter (fun r => r.vault = vault) :=
    fun q hq => List.filter_congr hq
  rw [hSame]
  · rw [List.map_map]
    apply map_eq_self
    intro r hr
    rcases List.mem_filter.mp hr with ⟨hIn, hIs⟩
    simp only [decide_eq_true_eq] at hIs
    have hNe : r.vault ≠ "" := by
      rwa [hIs]
    simp only [Function.comp_apply]
    rw [attribute_of_ne hNe,
      rekey_of_not_legacy ((h.rows r hIn).not_legacy hNe)]
  · intro r hr
    simp only [Function.comp_apply, vault_rekey,
      isLegacySettle_attribute]
    by_cases hIs : (r.attribute treasury).vault = vault
    · rcases hNotLegacy r hr hIs with ⟨hOwn, hNot⟩
      simp [hIs, hOwn, hNot]
    · have hOwn : r.vault ≠ vault := by
        intro hOwn
        apply hIs
        rw [attribute_of_ne (by rwa [hOwn])]
        exact hOwn
      simp [hIs, hOwn]

theorem vault_eq_ownerOf
    {vault vault' : String}
    (h : VaultLater treasury.key vault vault')
    (hNe : vault' ≠ "") :
    vault' = ownerOf treasury.key vault := by
  unfold ownerOf
  rcases h with rfl | ⟨hNone, rfl⟩
  · rw [if_neg hNe]
  · rw [if_pos hNone]

/-
  After any interleaving of old sessions, new sessions, kills
  and binds, a bind attributes what is of the old shape to the
  treasury, loses and duplicates nothing, and is done.
-/
theorem bind_attributes
    (events : List (StoreEvent core treasury))
    (d : CoreBind core treasury) :
    ∃ db, bind d.deployment (fileAfter events) =
        .ok (false, db) ∧
      BindResult events d (fileAfter events) db := by
  have h : (fileAfter events).Shaped core :=
    shaped_fileAfter events
  rcases bind_spec h d with
    ⟨db, id, hBind, hRows, hCore, hSet, hId⟩
  have hT : treasury.key ≠ "" := treasury.nonempty
  have hNone := hRows.no_legacy hT
  rcases legacyShapesRemain_eq_false_iff.mp hNone with
    ⟨hOrders, hLedger, _⟩
  have hShaped : db.Shaped core := by
    apply hRows.shaped h hT
    intro other hOther
    rw [hId] at hOther
    cases hOther
    exact hCore
  have hKeeps :
      ∀ part, part <+: events →
        KeepsRows treasury.key (fileAfter part) db :=
    fun part hPart =>
      (fileAfter_keeps hPart).trans hRows.keeps
  refine ⟨db, hBind, ?_⟩
  refine
    { no_legacy := hNone
      orders_kept := ?_
      fills_kept := ?_
      orders_written := ?_
      fills_written := ?_
      settled_once :=
        settledFor_length_le_one hShaped
          (fun r hr => (hLedger r hr).1)
      settled_kept := ?_
      orders_unchanged := ?_
      ledger_unchanged := ?_
      keys_unchanged := ?_
      others_orders := fun vault => hRows.others_orders
      others_ledger := fun vault => hRows.others_ledger h
      others_keys := ?_
      killed := hRows.killed
      killedVault := hRows.killedVault
      again :=
        bind_again d hSet hId hNone hRows.legacyVault }
  · intro part hPart r hr
    rcases (hKeeps part hPart).orders r hr with
      ⟨r', hr', hLater⟩
    exact ⟨r', hr', hLater.order, hLater.seenAt,
      vault_eq_ownerOf hLater.vault (hOrders r' hr')⟩
  · intro part hPart r hr hFill
    rcases (hKeeps part hPart).fills r hr hFill with
      ⟨r', hr', hLater⟩
    have hVault :=
      vault_eq_ownerOf hLater.vault (hLedger r' hr').1
    have hSame :
        { r with vault := ownerOf treasury.key r.vault } =
          r' := by
      rw [← hVault, ← hLater.event, ← hLater.uniq]
    rw [hSame]
    exact hr'
  · intro e he w hw idOf hIdOf
    apply hRows.keeps.orderId_mem
    apply fileAfter_of_mem
      (fun db => idOf ∈ db.orders.map OrderRow.orderId) he
    · intro db _
      cases e with
      | old w' =>
          cases hw
          exact (w.writes db none).1 idOf hIdOf
      | new v w' =>
          cases hw
          exact (w.writes db v.text).1 idOf hIdOf
      | kill state => cases hw
      | killFor v state => cases hw
      | bind d => cases hw
    · intro db e' hDb hIn
      exact (e'.keeps hDb).orderId_mem hIn
  · intro e he w hw k hk
    apply hRows.keeps.fillKey_mem h
    apply fileAfter_of_mem
      (fun db =>
        LedgerUniq.fill k.1 k.2 ∈
          db.ledger.map LedgerRow.uniq) he
    · intro db _
      cases e with
      | old w' =>
          cases hw
          exact (w.writes db none).2 k hk
      | new v w' =>
          cases hw
          exact (w.writes db v.text).2 k hk
      | kill state => cases hw
      | killFor v state => cases hw
      | bind d => cases hw
    · intro db e' hDb hIn
      exact (e'.keeps hDb).fillKey_mem hDb hIn
  · intro e he s hs
    have hSettles :
        Settles treasury.key (fileAfter events) s.1 s.2 :=
      fileAfter_of_mem
        (fun db => Settles treasury.key db s.1 s.2) he
        (fun db hDb => e.settled_settles hDb hs)
        (fun db e' hDb hIn => e'.settles hDb hIn)
    rcases hRows.settles h hSettles with
      ⟨r, hr, ⟨ev, hEvent, hLong⟩, hUniq⟩
    refine ⟨r, hr, settlesFor_iff.mpr ⟨?_, ev, hEvent, hLong⟩,
      hUniq⟩
    have hShape := hShaped.rows r hr
    simp only [LedgerRow.Shaped, hEvent, hUniq,
      reduceCtorEq, false_and, false_or] at hShape
    injection hShape.1 with hSame _
    exact hSame.symm
  · intro r hr hVault
    rw [hRows.orders]
    exact List.mem_map.mpr
      ⟨r, hr, order_attribute_of_ne hVault⟩
  · intro r hr hVault
    have hNot := (h.rows r hr).not_legacy hVault
    apply hRows.mem_ledger.mpr
    refine ⟨r, hr, fun hLegacy => absurd hLegacy hNot, ?_⟩
    rw [attribute_of_ne hVault, rekey_of_not_legacy hNot]
  · intro k v x hx
    rw [hRows.perVault k v, hx]
    split <;> rfl
  · intro k vault hOther
    rw [hRows.perVault k vault, if_neg hOther]

def exampleTreasury : VaultAddress :=
  { text := "v", nonempty := by decide +kernel }

def exampleBind :
    CoreBind
      { chainId := 1, clearinghouse := "c", orderBook := "b" }
      exampleTreasury :=
  { deployment :=
      { chainId := 1
        clearinghouse := "c"
        orderBook := "b"
        vault := some "v"
        vaults := none
        treasury := none }
    core_eq := by decide +kernel
    treasury_eq := by decide +kernel
    vaults_ne := by decide +kernel }

def exampleSettle : SettleEvent :=
  { longId := "9"
    isPut := false
    strike := 220
    settlementPrice := 230
    exerciseFeeBps := none
    timestamp := 200 }

/- A settlement that a rolled-back binary writes again. -/
example :
    (fileAfter
        [StoreEvent.new exampleTreasury
          (.settle exampleSettle),
        .old (.settle exampleSettle),
        .bind exampleBind]).ledger.map
        (fun r => (r.uniq, r.vault)) =
      [(.settleFor "v" "9", "v")] := by
  decide +kernel

end Callhouse.Keeper.Mm
