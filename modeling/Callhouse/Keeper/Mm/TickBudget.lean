import Mathlib.Tactic

/-
  keeper/src/v2/mm/quoter.ts: how a tick's transactions are
  shared between the vaults that have planned, each sending
  some of its plan within its grant.

  What becomes of a planned transaction at its send is any
  sequence of verdicts; a send that throws ends the vault's
  turn, and what it sent before is charged all the same.

  Main declarations:
    * `vaultBudgetOf`, `execute`, `sendLoop`
    * `sendLoop_total_le`, `sendLoop_grants`
    * `tick_budget`
-/

----
-- Grants and Sends
----

namespace Callhouse.Keeper.Mm.TickBudget

def vaultBudgetOf
    (remaining share : Int)
    (laterNeeds : List Int) : Int :=
  let later := (laterNeeds.map (fun need => min share need)).sum
  let reserve := min later (max 0 (remaining - share))
  max 0 (remaining - reserve)

/- What a planned transaction meets when its turn comes. -/
inductive Verdict where
  | feeBroken
  | killed
  | skipped
  | thrown
  | sent
deriving DecidableEq

/- How many of a plan's transactions go out within a limit. -/
def execute
    (limit : Int) : Nat → List Verdict → Nat
  | out, [] => out
  | out, verdict :: rest =>
      if verdict = .feeBroken then execute limit out rest
      else if (out : Int) ≥ limit then out
      else
        match verdict with
        | .feeBroken => execute limit out rest
        | .killed => out
        | .skipped => execute limit out rest
        | .thrown => out
        | .sent => execute limit (out + 1) rest

/- What one vault needed, was given, and sent. -/
structure VaultSend where
  need : Nat
  given : Int
  sends : Nat
deriving DecidableEq

def shareOf
    (maxTxPerTick planned : Nat) : Int :=
  max 1 ((maxTxPerTick / max 1 planned : Nat) : Int)

/- The send loop, from what was sent this tick. -/
def sendLoop
    (maxTxPerTick : Nat)
    (share : Int) :
    Nat → List (List Verdict) → List VaultSend
  | _, [] => []
  | sentThisTick, txs :: later =>
      let remaining := (maxTxPerTick : Int) - sentThisTick
      let budget :=
        vaultBudgetOf remaining share
          (later.map (fun txs => (txs.length : Int)))
      let sends := execute budget 0 txs
      { need := txs.length
        given := budget
        sends := sends } ::
        sendLoop maxTxPerTick share (sentThisTick + sends) later

/- The vaults' sends after `refusedSends` of refused vaults. -/
def tickSends
    (maxTxPerTick refusedSends : Nat)
    (planned : List (List Verdict)) : List VaultSend :=
  sendLoop maxTxPerTick (shareOf maxTxPerTick planned.length)
    refusedSends planned

def totalSends
    (sends : List VaultSend) : Nat :=
  (sends.map (fun s => s.sends)).sum

----
-- One Vault
----

/- A vault sends no more than its plan has, nor past its limit. -/
theorem execute_le
    (limit : Int)
    (out : Nat)
    (txs : List Verdict) :
    execute limit out txs ≤ out + txs.length ∧
      (execute limit out txs = out ∨
        (execute limit out txs : Int) ≤ limit) := by
  induction txs generalizing out with
  | nil => exact ⟨le_refl _, Or.inl rfl⟩
  | cons verdict rest ih =>
      have hSkip := ih out
      have hSend := ih (out + 1)
      rw [List.length_cons]
      unfold execute
      split
      · exact ⟨by omega, hSkip.2⟩
      · split
        · exact ⟨by omega, Or.inl rfl⟩
        · next hRoom =>
            cases verdict with
            | feeBroken | skipped =>
                simp only
                exact ⟨by omega, hSkip.2⟩
            | killed | thrown =>
                refine ⟨?_, Or.inl rfl⟩
                simp only
                omega
            | sent =>
                simp only
                exact ⟨by omega, Or.inr (by omega)⟩

theorem execute_le_need
    (limit : Int)
    (txs : List Verdict) :
    execute limit 0 txs ≤ txs.length := by
  have := (execute_le limit 0 txs).1
  omega

theorem execute_le_limit
    {limit : Int}
    (hLimit : 0 ≤ limit)
    (txs : List Verdict) :
    (execute limit 0 txs : Int) ≤ limit := by
  rcases (execute_le limit 0 txs).2 with hNone | hLe
  · rw [hNone]
    exact hLimit
  · exact hLe

theorem vaultBudgetOf_nonneg
    (remaining share : Int)
    (laterNeeds : List Int) :
    0 ≤ vaultBudgetOf remaining share laterNeeds :=
  le_max_left _ _

theorem laterSum_nonneg
    {share : Int}
    (hShare : 0 ≤ share)
    (later : List (List Verdict)) :
    0 ≤ ((later.map (fun txs => (txs.length : Int))).map
      (fun need => min share need)).sum := by
  apply List.sum_nonneg
  intro reserve hReserve
  rw [List.map_map, List.mem_map] at hReserve
  rcases hReserve with ⟨txs, _, rfl⟩
  exact le_min hShare (Int.natCast_nonneg _)

/- No grant exceeds what remains. -/
theorem vaultBudgetOf_le
    {share : Int}
    (hShare : 0 ≤ share)
    (remaining : Int)
    (later : List (List Verdict)) :
    vaultBudgetOf remaining share
        (later.map (fun txs => (txs.length : Int))) ≤
      max 0 remaining := by
  have hLater := laterSum_nonneg hShare later
  unfold vaultBudgetOf
  simp only
  omega

/-
  A vault that is left its own part and the reserve for those
  after it is granted its part, and leaves them the reserve:
  the reserve is cut only where the vault needs less than a
  share, and it sends no more than it needs.
-/
theorem vaultBudgetOf_spec
    {remaining share need sends : Int}
    {laterNeeds : List Int}
    (hShare : 0 ≤ share)
    (hRoom :
      min share need +
          (laterNeeds.map (fun need => min share need)).sum ≤
        remaining)
    (hSends : sends ≤ need)
    (hGiven :
      sends ≤ vaultBudgetOf remaining share laterNeeds) :
    min need share ≤
        vaultBudgetOf remaining share laterNeeds ∧
      (laterNeeds.map (fun need => min share need)).sum ≤
        remaining - sends := by
  unfold vaultBudgetOf at hGiven ⊢
  simp only at hGiven ⊢
  omega

----
-- The Tick
----

theorem sendLoop_need
    (maxTxPerTick : Nat)
    (share : Int)
    (sentThisTick : Nat)
    (planned : List (List Verdict)) :
    (sendLoop maxTxPerTick share sentThisTick planned).map
        (fun s => s.need) =
      planned.map List.length := by
  induction planned generalizing sentThisTick with
  | nil => rfl
  | cons txs later ih =>
      simp only [sendLoop]
      rw [List.map_cons, List.map_cons, ih]

theorem sendLoop_total_le
    (maxTxPerTick : Nat)
    {share : Int}
    (hShare : 0 ≤ share)
    (sentThisTick : Nat)
    (planned : List (List Verdict)) :
    (totalSends
        (sendLoop maxTxPerTick share sentThisTick planned) :
          Int) ≤
      max ((maxTxPerTick : Int) - sentThisTick) 0 := by
  induction planned generalizing sentThisTick with
  | nil => exact le_max_right _ _
  | cons txs later ih =>
      have hGiven :=
        vaultBudgetOf_le hShare
          ((maxTxPerTick : Int) - sentThisTick) later
      have hSends :=
        execute_le_limit
          (vaultBudgetOf_nonneg
            ((maxTxPerTick : Int) - sentThisTick) share
            (later.map (fun txs => (txs.length : Int))))
          txs
      have hLater := ih
        (sentThisTick +
          execute
            (vaultBudgetOf
              ((maxTxPerTick : Int) - sentThisTick) share
              (later.map (fun txs => (txs.length : Int))))
            0 txs)
      simp only [sendLoop]
      unfold totalSends at hLater ⊢
      rw [List.map_cons, List.sum_cons]
      simp only
      omega

/- While each vault's part remains, each is granted its part. -/
theorem sendLoop_grants
    (maxTxPerTick : Nat)
    {share : Int}
    (hShare : 0 ≤ share)
    (sentThisTick : Nat)
    (planned : List (List Verdict))
    (hRoom :
      ((planned.map (fun txs => (txs.length : Int))).map
          (fun need => min share need)).sum ≤
        (maxTxPerTick : Int) - sentThisTick) :
    ∀ s ∈ sendLoop maxTxPerTick share sentThisTick planned,
      min (s.need : Int) share ≤ s.given := by
  induction planned generalizing sentThisTick with
  | nil =>
      intro s hs
      cases hs
  | cons txs later ih =>
      rw [List.map_cons, List.map_cons, List.sum_cons] at hRoom
      have hSends :=
        execute_le_limit
          (vaultBudgetOf_nonneg
            ((maxTxPerTick : Int) - sentThisTick) share
            (later.map (fun txs => (txs.length : Int))))
          txs
      have hNeed :=
        execute_le_need
          (vaultBudgetOf
            ((maxTxPerTick : Int) - sentThisTick) share
            (later.map (fun txs => (txs.length : Int))))
          txs
      rcases
          vaultBudgetOf_spec hShare hRoom
            (Int.ofNat_le.mpr hNeed) hSends with
        ⟨hGrant, hLeft⟩
      simp only [sendLoop]
      intro s hs
      rcases List.mem_cons.mp hs with rfl | hLater
      · exact hGrant
      · apply ih _ _ s hLater
        rw [Nat.cast_add]
        omega

/- The parts of all planned vaults fit the tick's maximum. -/
theorem sum_parts_le
    (share : Int)
    (planned : List (List Verdict)) :
    ((planned.map (fun txs => (txs.length : Int))).map
        (fun need => min share need)).sum ≤
      planned.length * share := by
  rw [← nsmul_eq_mul, List.map_map]
  have hSum :=
    List.sum_le_card_nsmul
      (planned.map
        ((fun need => min share need) ∘
          fun txs : List Verdict => (txs.length : Int)))
      share
  rw [List.length_map] at hSum
  apply hSum
  intro part hPart
  rcases List.mem_map.mp hPart with ⟨txs, _, rfl⟩
  exact min_le_left _ _

theorem length_mul_shareOf_le
    {maxTxPerTick planned : Nat}
    (h : planned ≤ maxTxPerTick) :
    (planned : Int) * shareOf maxTxPerTick planned ≤
      maxTxPerTick := by
  unfold shareOf
  cases planned with
  | zero => simp
  | succ n =>
      have hMax : max 1 (n + 1) = n + 1 := by omega
      have hShare : 1 ≤ maxTxPerTick / (n + 1) := by
        rw [Nat.le_div_iff_mul_le (Nat.succ_pos n)]
        omega
      rw [hMax, max_eq_right (by exact_mod_cast hShare)]
      exact_mod_cast Nat.mul_div_le maxTxPerTick (n + 1)

/-
  The vaults of a tick send no more than its maximum leaves
  after the sends for refused vaults; and with none of these,
  each vault is given its need or a share, whatever the vaults
  before it sent.
-/
theorem tick_budget
    (maxTxPerTick : Nat)
    (planned : List (List Verdict)) :
    (∀ refusedSends,
      (tickSends maxTxPerTick refusedSends planned).map
            (fun s => s.need) =
          planned.map List.length ∧
        (totalSends
            (tickSends maxTxPerTick refusedSends planned) :
              Int) ≤
          max ((maxTxPerTick : Int) - refusedSends) 0) ∧
      (planned.length ≤ maxTxPerTick →
        totalSends (tickSends maxTxPerTick 0 planned) ≤
            maxTxPerTick ∧
          ∀ s ∈ tickSends maxTxPerTick 0 planned,
            min (s.need : Int)
                (max 1
                  ((maxTxPerTick / planned.length : Nat) :
                    Int)) ≤
              s.given) := by
  have hShare : 0 ≤ shareOf maxTxPerTick planned.length :=
    zero_le_one.trans (le_max_left _ _)
  have hTotal := fun refusedSends =>
    sendLoop_total_le maxTxPerTick hShare refusedSends planned
  refine ⟨?_, ?_⟩
  · intro refusedSends
    exact ⟨sendLoop_need _ _ _ _, hTotal refusedSends⟩
  · intro hEnough
    constructor
    · have := hTotal 0
      unfold tickSends
      omega
    · intro s hs
      have hRoom :=
        (sum_parts_le (shareOf maxTxPerTick planned.length)
          planned).trans (length_mul_shareOf_le hEnough)
      have hGrant :=
        sendLoop_grants maxTxPerTick hShare 0 planned
          (by simpa using hRoom) s hs
      cases planned with
      | nil => cases hs
      | cons txs later =>
          have hMax :
              max 1 (txs :: later).length =
                (txs :: later).length := by
            rw [List.length_cons]
            omega
          unfold shareOf at hGrant
          rwa [hMax] at hGrant

end Callhouse.Keeper.Mm.TickBudget
