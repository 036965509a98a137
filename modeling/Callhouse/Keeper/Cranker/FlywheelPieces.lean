import Mathlib.Tactic

/-
  keeper/src/v2/cranker/flywheel.ts, distributeInPieces: the
  search for the largest piece of a declined stock fee that
  the splitter fills, and the sale of such pieces.

  Main declarations:
    * `walkDown`, `bisectUp`, `searchPiece`
    * `sellPieces`, `distributeInPieces`
    * `bisectUp_finds`, `searchPiece_finds`
    * `sellPieces_sound`, `distributeInPieces_bounded`
    * `pieces_found_and_bounded`
-/

----
-- The Splitter and the Sender
----

namespace Callhouse.Keeper.Cranker

def flywheelMaxPieces : Nat := 8

def flywheelPieceProbes : Nat := 16

def flywheelPieceStride : Nat := 8

def flywheelMinPieceUsdg : Nat := 1000000

def tradingPaused : String := "TradingPaused"

/- A simulated `distributeAmount`, or the revert of it. -/
inductive PieceProbe where
  | usdgIn (amount : Nat)
  | revert (name : Option String) (error : String)
deriving DecidableEq

/-
  What becomes of a call that was worth sending. The journal
  or an alert may also throw, before or after the send is
  spent.
-/
inductive SendFate where
  | threw (error : String) (spent : Bool)
  | wouldSend
  | sendFailed (error : String)
  | confirmed (blockNumber : Nat)
  | reverted
  | unconfirmed (error : String)
deriving DecidableEq

/- What the sender meets on one call, in its own order. -/
inductive PieceAttempt where
  | throws (error : String)
  | inFlight
  | simulationReverted (revert : Option String)
  | simulated (usdgIn : Nat) (fate : SendFate)
deriving DecidableEq

inductive PieceOutcome where
  | threw (error : String)
  | inFlight
  | simulationReverted (revert : Option String)
  | noOp (usdgIn : Nat)
  | worth (usdgIn : Nat) (fate : SendFate)
deriving DecidableEq

/- The sender judges the simulation before it sends. -/
def PieceAttempt.outcome : PieceAttempt → PieceOutcome
  | .throws error => .threw error
  | .inFlight => .inFlight
  | .simulationReverted revert => .simulationReverted revert
  | .simulated usdgIn fate =>
      if usdgIn ≥ flywheelMinPieceUsdg then .worth usdgIn fate
      else .noOp usdgIn

def PieceOutcome.status : PieceOutcome → String
  | .threw _ => "error"
  | .worth _ (.threw _ _) => "error"
  | .inFlight => "in-flight"
  | .simulationReverted _ => "simulation-reverted"
  | .noOp _ => "no-op"
  | .worth _ .wouldSend => "would-send"
  | .worth _ (.sendFailed _) => "send-failed"
  | .worth _ (.confirmed _) => "confirmed"
  | .worth _ .reverted => "reverted"
  | .worth _ (.unconfirmed _) => "unconfirmed"

/- steps.ts, Budget: the sends of a step. -/
structure PieceBudget where
  max : Nat
  used : Nat
deriving DecidableEq

/- Whether an outcome uses up a send. -/
def PieceOutcome.spends : PieceOutcome → Bool
  | .worth _ (.threw _ spent) => spent
  | .worth _ _ => true
  | _ => false

def PieceBudget.spend
    (budget : PieceBudget)
    (outcome : PieceOutcome) : PieceBudget :=
  { budget with
    used :=
      budget.used + (if outcome.spends = true then 1 else 0) }

/- A send is left beyond the one kept for the buyback. -/
def spareSend
    (yields : Bool)
    (budget : PieceBudget) : Bool :=
  decide (budget.used < budget.max) && !yields &&
    decide (budget.max > budget.used + 1)

/-
  Whatever the world does: the answer of each simulation, of
  each look at the time, of each send and balance read.
-/
structure PieceEnv where
  probe : Nat → Nat → PieceProbe
  yields : Nat → Bool
  attempt : Nat → Nat → PieceAttempt
  balanceAt : Nat → Except String Nat

----
-- The Search
----

/- The action record of a refused probe. -/
structure RefusedProbe where
  piece : Nat
  revert : Option String
  error : String
deriving DecidableEq

/- `fills` is a halving that sells, with what it fetches. -/
structure PieceSearch where
  probes : List (Nat × PieceProbe)
  refusedProbe : Option RefusedProbe
  refused : Nat
  fills : Option (Nat × Nat)
  stop : Option String
  paused : Bool
deriving DecidableEq

def PieceSearch.start : PieceSearch :=
  { probes := []
    refusedProbe := none
    refused := 0
    fills := none
    stop := none
    paused := false }

/- The answer for `balance >> k`; a revert stops the search. -/
def PieceSearch.ask
    (env : PieceEnv)
    (balance : Nat)
    (s : PieceSearch)
    (k : Nat) : Option Nat × PieceSearch :=
  let piece := balance >>> k
  let answer := env.probe s.probes.length piece
  let asked :=
    { s with probes := s.probes ++ [(piece, answer)] }
  match answer with
  | .usdgIn amount => (some amount, asked)
  | .revert name error =>
      (none,
        { asked with
          refusedProbe :=
            some
              { piece := piece
                revert := name
                error := String.ofList (error.toList.take 300) }
          paused := s.paused || decide (name = some tradingPaused)
          stop :=
            some
              ("probe reverted: " ++
                name.getD "unknown") })

/- By the stride, down to the first piece that sells. -/
def walkDown
    (env : PieceEnv)
    (balance : Nat) :
    (probesLeft : Nat) → Nat → PieceSearch → PieceSearch
  | 0, _, s => { s with stop := some "probes spent" }
  | probesLeft + 1, k, s =>
      if balance >>> k = 0 then
        { s with stop := some "no size sells" }
      else
        match s.ask env balance k with
        | (none, asked) => asked
        | (some amount, asked) =>
            if amount > 0 then
              { asked with fills := some (k, amount) }
            else
              walkDown env balance probesLeft
                (k + flywheelPieceStride)
                { asked with refused := k }

/- Between the last refused and the first that sells. -/
def bisectUp
    (env : PieceEnv)
    (balance : Nat) :
    (probesLeft : Nat) → PieceSearch → PieceSearch
  | 0, s => s
  | probesLeft + 1, s =>
      match s.stop, s.fills with
      | none, some (k, _) =>
          if k - s.refused > 1 then
            let mid := (s.refused + k) >>> 1
            match s.ask env balance mid with
            | (none, asked) => asked
            | (some amount, asked) =>
                let next : PieceSearch :=
                  if amount > 0 then
                    { asked with fills := some (mid, amount) }
                  else { asked with refused := mid }
                bisectUp env balance probesLeft next
          else s
      | _, _ => s

def searchPiece
    (env : PieceEnv)
    (balance : Nat) : PieceSearch :=
  let walked :=
    walkDown env balance flywheelPieceProbes 1 .start
  bisectUp env balance
    (flywheelPieceProbes - walked.probes.length) walked

----
-- The Sale
----

structure PieceRecord where
  assetIn : Nat
  outcome : PieceOutcome
deriving DecidableEq

structure PieceSale where
  budget : PieceBudget
  unsent : Nat
  sent : Nat
  simulatedUsdgIn : Nat
  lastBlock : Option Nat
  each : List PieceRecord
  stop : Option String
  paused : Bool
deriving DecidableEq

def PieceOutcome.stopText
    (outcome : PieceOutcome) : String :=
  match outcome with
  | .noOp usdgIn =>
      if usdgIn = 0 then "the size stopped filling"
      else "under the piece floor"
  | _ => outcome.status

/- One send of a piece, and what is known after it. -/
def sendPiece
    (s : PieceSale)
    (piece : Nat)
    (outcome : PieceOutcome) : PieceSale :=
  let record : PieceRecord :=
    { assetIn := piece, outcome := outcome }
  let s :=
    { s with
      budget := s.budget.spend outcome
      each := s.each ++ [record] }
  match outcome with
  | .worth usdgIn (.confirmed blockNumber) =>
      { s with
        sent := s.sent + piece
        simulatedUsdgIn := s.simulatedUsdgIn + usdgIn
        unsent := s.unsent - piece
        lastBlock := some blockNumber }
  | .simulationReverted revert =>
      { s with
        paused := s.paused || decide (revert = some tradingPaused)
        stop := some outcome.stopText }
  | _ => { s with stop := some outcome.stopText }

/- The loop's `n`; it stops with the first piece not confirmed. -/
def sellPieces
    (env : PieceEnv)
    (size : Nat) :
    (piecesLeft : Nat) → Nat → PieceSale → PieceSale
  | 0, _, s => s
  | piecesLeft + 1, n, s =>
      if s.unsent = 0 then s
      else if spareSend (env.yields (n + 1)) s.budget = false then
        { s with stop := some "tick budget spent" }
      else
        let piece := if size < s.unsent then size else s.unsent
        let next := sendPiece s piece (env.attempt n piece).outcome
        match next.stop with
        | some _ => next
        | none => sellPieces env size piecesLeft (n + 1) next

structure PiecesResult where
  sold : Option Nat
  remaining : Option Nat
  remainingError : Option String
  stop : String
  probes : List (Nat × PieceProbe)
  refusedProbe : Option RefusedProbe
  sale : PieceSale
  paused : Bool

/- Only a search that has not stopped sells. -/
def saleOf
    (env : PieceEnv)
    (budget : PieceBudget)
    (balance : Nat)
    (s : PieceSearch) : PieceSale :=
  let idle : PieceSale :=
    { budget := budget
      unsent := balance
      sent := 0
      simulatedUsdgIn := 0
      lastBlock := none
      each := []
      stop := s.stop
      paused := s.paused }
  match s.stop, s.fills with
  | none, some (k, amount) =>
      if amount < flywheelMinPieceUsdg then
        { idle with stop := some "under the piece floor" }
      else
        let sold :=
          sellPieces env (balance >>> k) flywheelMaxPieces 0 idle
        { sold with
          stop :=
            some
              (sold.stop.getD
                (if sold.unsent = 0 then "all sent"
                else "pieces spent")) }
  | _, _ => idle

def distributeInPieces
    (env : PieceEnv)
    (budget : PieceBudget)
    (balance : Nat) : PiecesResult :=
  let search :=
    if spareSend (env.yields 0) budget = true then
      searchPiece env balance
    else { PieceSearch.start with stop := some "tick budget spent" }
  let sale := saleOf env budget balance search
  let read : Except String Nat :=
    match sale.lastBlock with
    | none => .ok balance
    | some block => env.balanceAt block
  let remaining := read.toOption
  { sold :=
      remaining.map
        (fun r => if r < balance then balance - r else 0)
    remaining := remaining
    remainingError :=
      match read with
      | .ok _ => none
      | .error error => some error
    stop := sale.stop.getD "no size sells"
    probes := search.probes
    refusedProbe := search.refusedProbe
    sale := sale
    paused := sale.paused }

----
-- The Largest Piece That Sells
----

section

/- The sizes that sell are `balance >> k` for `a ≤ k ≤ b`. -/
def SellsBetween
    (env : PieceEnv)
    (balance a b : Nat) : Prop :=
  ∀ n k, ∃ amount,
    env.probe n (balance >>> k) = .usdgIn amount ∧
      (0 < amount ↔ a ≤ k ∧ k ≤ b)

variable {env : PieceEnv} {balance a b : Nat}

/- An honest answer is recorded and decides. -/
theorem ask_sells
    (h : SellsBetween env balance a b)
    (s : PieceSearch)
    (k : Nat) :
    ∃ amount asked,
      s.ask env balance k = (some amount, asked) ∧
        (0 < amount ↔ a ≤ k ∧ k ≤ b) ∧
          asked.probes.length = s.probes.length + 1 ∧
            asked.refused = s.refused ∧
              asked.fills = s.fills ∧ asked.stop = s.stop := by
  rcases h s.probes.length k with ⟨amount, hAnswer, hSells⟩
  unfold PieceSearch.ask
  simp only [hAnswer]
  exact ⟨amount, _, rfl, hSells, by simp, rfl, rfl, rfl⟩

/-
  Where a search stands between a size known too big and one
  that sells.
-/
structure Bracket
    (a b : Nat)
    (s : PieceSearch)
    (k : Nat) : Prop where
  fills : ∃ amount, s.fills = some (k, amount)
  running : s.stop = none
  below : s.refused < a
  from_a : a ≤ k
  to_b : k ≤ b

variable {s : PieceSearch} {k : Nat}

/- One probe halves what lies between the two. -/
theorem bisectUp_step
    (h : SellsBetween env balance a b)
    (hBracket : Bracket a b s k)
    (hOpen : k - s.refused > 1)
    (probesLeft : Nat) :
    ∃ next k',
      bisectUp env balance (probesLeft + 1) s =
          bisectUp env balance probesLeft next ∧
        Bracket a b next k' ∧
          2 * (k' - next.refused) ≤ k - s.refused + 1 ∧
            next.probes.length ≤ s.probes.length + 1 := by
  rcases hBracket.fills with ⟨amount, hFills⟩
  have hBelow := hBracket.below
  have hMid : (s.refused + k) >>> 1 = (s.refused + k) / 2 :=
    Nat.shiftRight_eq_div_pow _ 1
  rcases ask_sells h s ((s.refused + k) >>> 1) with
    ⟨sold, asked, hAsk, hSells, hCount, hRefused, hSame,
      hRunning⟩
  have hStep :
      bisectUp env balance (probesLeft + 1) s =
        bisectUp env balance probesLeft
          (if sold > 0 then
            { asked with
              fills := some ((s.refused + k) / 2, sold) }
          else
            { asked with refused := (s.refused + k) / 2 }) := by
    rw [bisectUp, hBracket.running, hFills]
    simp only
    rw [if_pos hOpen, hAsk, hMid]
  rw [hMid] at hSells
  by_cases hSold : sold > 0
  · rw [if_pos hSold] at hStep
    refine ⟨_, (s.refused + k) / 2, hStep, ?_, ?_, ?_⟩
    · exact
        { fills := ⟨sold, rfl⟩
          running := hRunning.trans hBracket.running
          below := hRefused ▸ hBelow
          from_a := (hSells.mp hSold).1
          to_b := (hSells.mp hSold).2 }
    · simp only
      rw [hRefused]
      omega
    · simp only
      omega
  · rw [if_neg hSold] at hStep
    have hNot :
        ¬ (a ≤ (s.refused + k) / 2 ∧
          (s.refused + k) / 2 ≤ b) :=
      fun hIn => hSold (hSells.mpr hIn)
    have hFrom := hBracket.from_a
    have hTo := hBracket.to_b
    refine ⟨_, k, hStep, ?_, ?_, ?_⟩
    · exact
        { fills := ⟨amount, hSame.trans hFills⟩
          running := hRunning.trans hBracket.running
          below := by
            simp only
            omega
          from_a := hFrom
          to_b := hTo }
    · simp only
      omega
    · simp only
      omega

/- With nothing between the two, the search is over. -/
theorem bisectUp_closed
    (env : PieceEnv)
    (balance : Nat)
    (hBracket : Bracket a b s k)
    (hClosed : ¬ k - s.refused > 1)
    (probesLeft : Nat) :
    bisectUp env balance probesLeft s = s ∧ k = a := by
  have hBelow := hBracket.below
  have hFrom := hBracket.from_a
  refine ⟨?_, by omega⟩
  rcases hBracket.fills with ⟨amount, hFills⟩
  cases probesLeft with
  | zero => rfl
  | succ n =>
      rw [bisectUp, hBracket.running, hFills]
      exact if_neg hClosed

/-
  The window halves with every probe; the invariant is the
  bracket, and the power of two bounds its width.
-/
theorem bisectUp_finds
    (h : SellsBetween env balance a b)
    (hBracket : Bracket a b s k)
    (m probesLeft : Nat)
    (hWidth : k - s.refused ≤ 2 ^ m)
    (hProbes : m ≤ probesLeft) :
    Bracket a b (bisectUp env balance probesLeft s) a ∧
      (bisectUp env balance probesLeft s).probes.length ≤
        s.probes.length + m := by
  induction m generalizing s k probesLeft with
  | zero =>
      have hClosed : ¬ k - s.refused > 1 := by omega
      rcases bisectUp_closed env balance hBracket hClosed
        probesLeft with ⟨hSame, rfl⟩
      rw [hSame]
      exact ⟨hBracket, Nat.le_add_right _ _⟩
  | succ m ih =>
      by_cases hOpen : k - s.refused > 1
      · cases probesLeft with
        | zero => omega
        | succ probesLeft =>
            rcases bisectUp_step h hBracket hOpen probesLeft
              with ⟨next, k', hStep, hNext, hHalf, hCount⟩
            rw [pow_succ] at hWidth
            have hRest := ih hNext probesLeft (by omega) (by omega)
            rw [hStep]
            exact ⟨hRest.1, hRest.2.trans (by omega)⟩
      · rcases bisectUp_closed env balance hBracket hOpen
          probesLeft with ⟨hSame, rfl⟩
        rw [hSame]
        exact ⟨hBracket, Nat.le_add_right _ _⟩

/- What the walk down assumes of the band of sizes. -/
structure Band
    (balance a b : Nat) : Prop where
  first : 1 ≤ a
  wide : a + flywheelPieceStride ≤ b + 1
  whole : 0 < balance >>> b

theorem Band.size_pos
    (h : Band balance a b)
    (hk : k ≤ b) :
    balance >>> k ≠ 0 := by
  have hWhole := h.whole
  rw [Nat.shiftRight_eq_div_pow] at hWhole ⊢
  have hLe : balance / 2 ^ b ≤ balance / 2 ^ k :=
    Nat.div_le_div_left (Nat.pow_le_pow_right (by decide) hk)
      (Nat.two_pow_pos k)
  omega

/-
  The walk never passes the band, which is as wide as its
  stride; by induction on the probes left, the last refused
  size stays at most a stride behind.
-/
theorem walkDown_lands
    (h : SellsBetween env balance a b)
    (hBand : Band balance a b)
    (probesLeft : Nat)
    (hRunning : s.stop = none)
    (hBelow : s.refused < a)
    (hNear : k ≤ s.refused + flywheelPieceStride)
    (hProbes :
      a + flywheelPieceStride ≤
        k + flywheelPieceStride * probesLeft) :
    ∃ j, Bracket a b (walkDown env balance probesLeft k s)
        (k + flywheelPieceStride * j) ∧
      k + flywheelPieceStride * j ≤
          (walkDown env balance probesLeft k s).refused +
            flywheelPieceStride ∧
        (walkDown env balance probesLeft k s).probes.length =
          s.probes.length + j + 1 := by
  have hWide := hBand.wide
  unfold flywheelPieceStride at *
  induction probesLeft generalizing s k with
  | zero => omega
  | succ probesLeft ih =>
      rcases ask_sells h s k with
        ⟨amount, asked, hAsk, hSells, hCount, hRefused, _,
          hSame⟩
      unfold walkDown
      rw [if_neg (hBand.size_pos (by omega)), hAsk]
      simp only
      by_cases hSold : amount > 0
      · rw [if_pos hSold]
        refine ⟨0, ?_, ?_, ?_⟩
        · exact
            { fills := ⟨amount, rfl⟩
              running := hSame.trans hRunning
              below := hRefused ▸ hBelow
              from_a := (hSells.mp hSold).1
              to_b := by omega }
        · simp only [hRefused]
          omega
        · exact hCount
      · rw [if_neg hSold]
        have hk : k < a := by
          by_contra hIn
          exact hSold (hSells.mpr (by omega))
        have hRest :=
          ih (s := { asked with refused := k })
            (k := k + flywheelPieceStride)
            (hSame.trans hRunning) hk
            (by unfold flywheelPieceStride; simp only; omega)
            (by unfold flywheelPieceStride; omega)
        rcases hRest with ⟨j, hBracket, hClose, hLength⟩
        unfold flywheelPieceStride at hBracket hClose hLength
        have hShift : k + 8 + 8 * j = k + 8 * (j + 1) := by
          omega
        rw [hShift] at hBracket hClose
        refine ⟨j + 1, hBracket, hClose, ?_⟩
        unfold flywheelPieceStride
        rw [hLength]
        simp only [hCount]
        omega

/- The search ends at the largest size that sells. -/
theorem searchPiece_finds
    (h : SellsBetween env balance a b)
    (hBand : Band balance a b)
    (hBalance : balance < 2 ^ 105) :
    Bracket a b (searchPiece env balance) a ∧
      (searchPiece env balance).probes.length ≤
        flywheelPieceProbes := by
  have hWide := hBand.wide
  have hLast : b < 105 := by
    have hPow : 2 ^ b ≤ balance := by
      have hWhole := hBand.whole
      rw [Nat.shiftRight_eq_div_pow] at hWhole
      by_contra hLess
      have hNone : balance / 2 ^ b = 0 :=
        Nat.div_eq_of_lt (by omega)
      omega
    exact
      (Nat.pow_lt_pow_iff_right (by decide)).mp
        (hPow.trans_lt hBalance)
  rcases walkDown_lands h hBand (s := .start) (k := 1)
      flywheelPieceProbes rfl hBand.first (by decide)
      (by unfold flywheelPieceStride flywheelPieceProbes at *
          omega) with
    ⟨j, hBracket, hClose, hLength⟩
  have hFrom := hBracket.from_a
  have hBelow := hBracket.below
  have hFew : j ≤ 12 := by
    unfold flywheelPieceStride at *
    omega
  have hStart : PieceSearch.start.probes.length = 0 := rfl
  have hFound :=
    bisectUp_finds h hBracket 3
      (flywheelPieceProbes -
        (walkDown env balance flywheelPieceProbes 1
          .start).probes.length)
      (by unfold flywheelPieceStride at *
          omega)
      (by rw [hLength, hStart]
          unfold flywheelPieceProbes
          omega)
  refine ⟨hFound.1, hFound.2.trans ?_⟩
  rw [hLength, hStart]
  unfold flywheelPieceProbes
  omega

end

----
-- Bounds Whatever the Answers
----

section

variable (env : PieceEnv) (balance : Nat)

theorem ask_probes
    (s : PieceSearch)
    (k : Nat) :
    (s.ask env balance k).2.probes.length =
      s.probes.length + 1 := by
  unfold PieceSearch.ask
  cases hAnswer : env.probe s.probes.length (balance >>> k) with
  | usdgIn amount => simp [hAnswer]
  | revert name error => simp [hAnswer]

theorem walkDown_probes
    (probesLeft k : Nat)
    (s : PieceSearch) :
    (walkDown env balance probesLeft k s).probes.length ≤
      s.probes.length + probesLeft := by
  induction probesLeft generalizing k s with
  | zero => simp [walkDown]
  | succ probesLeft ih =>
      have hCount := ask_probes env balance s k
      unfold walkDown
      split
      · exact Nat.le_add_right _ _
      · split
        · rename_i asked hAsk
          rw [hAsk] at hCount
          simp only at hCount
          omega
        · rename_i amount asked hAsk
          rw [hAsk] at hCount
          simp only at hCount
          split
          · simp only
            omega
          · refine (ih _ _).trans ?_
            simp only
            omega

theorem bisectUp_probes
    (probesLeft : Nat)
    (s : PieceSearch) :
    (bisectUp env balance probesLeft s).probes.length ≤
      s.probes.length + probesLeft := by
  induction probesLeft generalizing s with
  | zero => simp [bisectUp]
  | succ probesLeft ih =>
      unfold bisectUp
      split
      · split
        · rename_i k _ _ _ _
          have hCount :=
            ask_probes env balance s
              ((s.refused + k) >>> 1)
          simp only
          split
          · rename_i asked hAsk
            rw [hAsk] at hCount
            simp only at hCount
            omega
          · rename_i amount asked hAsk
            rw [hAsk] at hCount
            simp only at hCount
            refine (ih _).trans ?_
            split
            · simp only
              omega
            · simp only
              omega
        · exact Nat.le_add_right _ _
      · exact Nat.le_add_right _ _

theorem searchPiece_probes :
    (searchPiece env balance).probes.length ≤
      flywheelPieceProbes := by
  have hWalk :=
    walkDown_probes env balance
      flywheelPieceProbes 1 .start
  have hStart : PieceSearch.start.probes.length = 0 := rfl
  unfold searchPiece
  refine (bisectUp_probes env balance _ _).trans ?_
  omega

end

----
-- The Sale Is Bounded
----

section

def PieceOutcome.sent : PieceOutcome → Bool
  | .worth _ _ => true
  | _ => false

def PieceRecord.confirmedIn
    (record : PieceRecord) : Nat :=
  match record.outcome with
  | .worth _ (.confirmed _) => record.assetIn
  | _ => 0

/- What the pieces confirmed take out of the balance. -/
def confirmedTotal
    (each : List PieceRecord) : Nat :=
  (each.map PieceRecord.confirmedIn).sum

/-
  A sale under way: every attempt so far came from the
  sender, the confirmed pieces and the rest make up the
  balance, and a send is kept once one was tried.
-/
structure SaleSound
    (env : PieceEnv)
    (budget : PieceBudget)
    (balance : Nat)
    (s : PieceSale) : Prop where
  attempts :
    ∀ i record, s.each[i]? = some record →
      record.outcome = (env.attempt i record.assetIn).outcome
  total : confirmedTotal s.each + s.unsent = balance
  same : s.budget.max = budget.max
  keeps : s.each ≠ [] → s.budget.used < s.budget.max

variable {env : PieceEnv} {budget : PieceBudget} {balance : Nat}

theorem confirmedTotal_append
    (each : List PieceRecord)
    (record : PieceRecord) :
    confirmedTotal (each ++ [record]) =
      confirmedTotal each + record.confirmedIn := by
  simp [confirmedTotal]

theorem spend_used
    (budget : PieceBudget)
    (outcome : PieceOutcome) :
    (budget.spend outcome).used ≤ budget.used + 1 := by
  unfold PieceBudget.spend
  simp only
  split
  · exact le_refl _
  · exact Nat.le_succ _

/- One piece more: the record, the budget and what is left. -/
theorem sendPiece_each
    (s : PieceSale)
    (piece : Nat)
    (outcome : PieceOutcome) :
    (sendPiece s piece outcome).each =
        s.each ++ [{ assetIn := piece, outcome := outcome }] ∧
      (sendPiece s piece outcome).budget =
        s.budget.spend outcome := by
  unfold sendPiece
  split
  · exact ⟨rfl, rfl⟩
  · exact ⟨rfl, rfl⟩
  · exact ⟨rfl, rfl⟩

theorem sendPiece_unsent
    (s : PieceSale)
    (piece : Nat)
    (outcome : PieceOutcome) :
    (sendPiece s piece outcome).unsent =
      s.unsent -
        PieceRecord.confirmedIn
          { assetIn := piece, outcome := outcome } := by
  unfold sendPiece PieceRecord.confirmedIn
  rcases outcome with _ | _ | _ | _ | ⟨usdgIn, fate⟩
  · rfl
  · rfl
  · rfl
  · rfl
  · cases fate with
    | threw error spent => rfl
    | wouldSend => rfl
    | sendFailed error => rfl
    | confirmed blockNumber => rfl
    | reverted => rfl
    | unconfirmed error => rfl

theorem confirmedIn_le
    (record : PieceRecord) :
    record.confirmedIn ≤ record.assetIn := by
  unfold PieceRecord.confirmedIn
  split
  · exact le_refl _
  · exact Nat.zero_le _

variable {s : PieceSale}

/- A piece within what is left keeps the sale sound. -/
theorem sendPiece_sound
    (h : SaleSound env budget balance s)
    {piece : Nat}
    (hPiece : piece ≤ s.unsent)
    (hSpare : s.budget.used + 1 < s.budget.max) :
    SaleSound env budget balance
      (sendPiece s piece
        (env.attempt s.each.length piece).outcome) := by
  rcases sendPiece_each s piece
      (env.attempt s.each.length piece).outcome with
    ⟨hEach, hBudget⟩
  have hUnsent :=
    sendPiece_unsent s piece
      (env.attempt s.each.length piece).outcome
  have hUsed :=
    spend_used s.budget
      (env.attempt s.each.length piece).outcome
  refine
    { attempts := ?_
      total := ?_
      same := ?_
      keeps := ?_ }
  · intro i record hRecord
    rw [hEach] at hRecord
    rcases Nat.lt_or_ge i s.each.length with hOld | hNew
    · rw [List.getElem?_append_left hOld] at hRecord
      exact h.attempts i record hRecord
    · rw [List.getElem?_append_right hNew] at hRecord
      rcases List.getElem?_eq_some_iff.mp hRecord with
        ⟨hLength, hSame⟩
      have hLast : i = s.each.length := by
        simp only [List.length_singleton] at hLength
        omega
      subst hLast
      simp only [Nat.sub_self, List.getElem_cons_zero] at hSame
      subst hSame
      rfl
  · have hTotal := h.total
    have hWithin :=
      (confirmedIn_le
        { assetIn := piece
          outcome :=
            (env.attempt s.each.length piece).outcome }).trans
        hPiece
    rw [hEach, hUnsent, confirmedTotal_append]
    omega
  · rw [hBudget]
    exact h.same
  · intro _
    rw [hBudget]
    have hMax :
        (s.budget.spend
          (env.attempt s.each.length piece).outcome).max =
            s.budget.max := rfl
    omega

theorem SaleSound.stopped
    (h : SaleSound env budget balance s)
    (stop : Option String) :
    SaleSound env budget balance { s with stop := stop } :=
  { attempts := h.attempts
    total := h.total
    same := h.same
    keeps := h.keeps }

theorem spareSend_leaves
    {yields : Bool}
    {budget : PieceBudget}
    (h : spareSend yields budget ≠ false) :
    budget.used + 1 < budget.max := by
  unfold spareSend at h
  simp only [ne_eq, Bool.not_eq_false, Bool.and_eq_true,
    decide_eq_true_eq] at h
  exact h.2

/- Over a whole sale, by induction on the pieces left. -/
theorem sellPieces_sound
    (size piecesLeft n : Nat)
    (h : SaleSound env budget balance s)
    (hIndex : n = s.each.length) :
    SaleSound env budget balance
        (sellPieces env size piecesLeft n s) ∧
      (sellPieces env size piecesLeft n s).each.length ≤
        n + piecesLeft := by
  induction piecesLeft generalizing n s with
  | zero => exact ⟨h, hIndex ▸ le_refl _⟩
  | succ piecesLeft ih =>
      unfold sellPieces
      split
      · exact ⟨h, by omega⟩
      · split
        · exact ⟨h.stopped _, by simp only; omega⟩
        · rename_i hLeft hSpare
          have hKept := spareSend_leaves hSpare
          have hPiece :
              (if size < s.unsent then size else s.unsent) ≤
                s.unsent := by
            split
            · exact Nat.le_of_lt ‹_›
            · exact le_refl _
          have hNext := sendPiece_sound h hPiece hKept
          have hEach :=
            (sendPiece_each s
              (if size < s.unsent then size else s.unsent)
              (env.attempt n
                (if size < s.unsent then size
                else s.unsent)).outcome).1
          subst hIndex
          simp only
          split
          · refine ⟨hNext, ?_⟩
            rw [hEach]
            simp only [List.length_append, List.length_singleton]
            omega
          · have hRest :=
              ih (s.each.length + 1) hNext (by
                rw [hEach]
                simp)
            exact ⟨hRest.1, hRest.2.trans (by omega)⟩

end

----
-- Pieces Found and Bounded
----

variable {env : PieceEnv} {budget : PieceBudget} {balance : Nat}

/- The bounds of a pass, whatever the world answers. -/
structure PiecesBounded
    (env : PieceEnv)
    (budget : PieceBudget)
    (balance : Nat)
    (r : PiecesResult) : Prop where
  few_probes : r.probes.length ≤ flywheelPieceProbes
  few_pieces : r.sale.each.length ≤ flywheelMaxPieces
  after_worth :
    ∀ i record, r.sale.each[i]? = some record →
      record.outcome.sent = true →
        ∃ usdgIn fate,
          env.attempt i record.assetIn =
              .simulated usdgIn fate ∧
            flywheelMinPieceUsdg ≤ usdgIn
  same_budget : r.sale.budget.max = budget.max
  keeps_last :
    r.sale.each ≠ [] → r.sale.budget.used < budget.max
  within : confirmedTotal r.sale.each ≤ balance

/- Only a simulation worth the floor is sent. -/
theorem outcome_sent
    {attempt : PieceAttempt}
    (h : attempt.outcome.sent = true) :
    ∃ usdgIn fate,
      attempt = .simulated usdgIn fate ∧
        flywheelMinPieceUsdg ≤ usdgIn := by
  cases attempt with
  | throws error => exact absurd h Bool.false_ne_true
  | inFlight => exact absurd h Bool.false_ne_true
  | simulationReverted revert =>
      exact absurd h Bool.false_ne_true
  | simulated usdgIn fate =>
      refine ⟨usdgIn, fate, rfl, ?_⟩
      unfold PieceAttempt.outcome at h
      simp only at h
      split at h
      · assumption
      · exact absurd h Bool.false_ne_true

theorem saleOf_sound
    (env : PieceEnv)
    (budget : PieceBudget)
    (balance : Nat)
    (search : PieceSearch) :
    SaleSound env budget balance
        (saleOf env budget balance search) ∧
      (saleOf env budget balance search).each.length ≤
        flywheelMaxPieces := by
  have hIdle :
      ∀ stop,
        SaleSound env budget balance
          { budget := budget
            unsent := balance
            sent := 0
            simulatedUsdgIn := 0
            lastBlock := none
            each := []
            stop := stop
            paused := search.paused } :=
    fun stop =>
      { attempts := by simp
        total := by simp [confirmedTotal]
        same := rfl
        keeps := fun hNone => absurd rfl hNone }
  unfold saleOf
  simp only
  split
  · split
    · exact ⟨hIdle _, Nat.zero_le _⟩
    · rename_i k _ _ _ _
      have hSold :=
        sellPieces_sound (balance >>> k) flywheelMaxPieces 0
          (hIdle search.stop) rfl
      exact ⟨hSold.1.stopped _, hSold.2.trans (by omega)⟩
  · exact ⟨hIdle _, Nat.zero_le _⟩

theorem distributeInPieces_bounded
    (env : PieceEnv)
    (budget : PieceBudget)
    (balance : Nat) :
    PiecesBounded env budget balance
      (distributeInPieces env budget balance) := by
  have hSale :=
    saleOf_sound env budget balance
      (if spareSend (env.yields 0) budget = true then
        searchPiece env balance
      else
        { PieceSearch.start with
          stop := some "tick budget spent" })
  refine
    { few_probes := ?_
      few_pieces := hSale.2
      after_worth := ?_
      same_budget := hSale.1.same
      keeps_last := ?_
      within := ?_ }
  · unfold distributeInPieces
    simp only
    split
    · exact searchPiece_probes env balance
    · exact Nat.zero_le _
  · intro i record hRecord hSent
    rw [hSale.1.attempts i record hRecord] at hSent
    exact outcome_sent hSent
  · intro hTried
    rw [← hSale.1.same]
    exact hSale.1.keeps hTried
  · have hTotal := hSale.1.total
    exact (Nat.le_add_right _ _).trans (le_of_eq hTotal)

/-
  When the sizes that sell form a band no narrower than the
  stride, the search ends at the largest of them within its
  probes; and whatever the answers, a pass keeps its bounds.
-/
theorem pieces_found_and_bounded
    (env : PieceEnv)
    (budget : PieceBudget)
    (balance : Nat) :
    (∀ a b,
      0 < balance → balance < 2 ^ 105 →
      SellsBetween env balance a b → Band balance a b →
        (searchPiece env balance).probes.length ≤
            flywheelPieceProbes ∧
          (searchPiece env balance).stop = none ∧
            (∃ amount,
              (searchPiece env balance).fills =
                some (a, amount)) ∧
              (spareSend (env.yields 0) budget = true →
                (distributeInPieces env budget balance).probes =
                    (searchPiece env balance).probes ∧
                  (distributeInPieces env budget balance).sale =
                    saleOf env budget balance
                      (searchPiece env balance))) ∧
      PiecesBounded env budget balance
        (distributeInPieces env budget balance) := by
  refine ⟨?_, distributeInPieces_bounded env budget balance⟩
  intro a b _ hBalance hSells hBand
  rcases searchPiece_finds hSells hBand hBalance with
    ⟨hBracket, hFew⟩
  refine ⟨hFew, hBracket.running, hBracket.fills, ?_⟩
  intro hSpare
  unfold distributeInPieces
  rw [if_pos hSpare]
  exact ⟨rfl, rfl⟩

/- Halves of 4096 sell down to one unit, but not the half. -/
def bandOfEleven : PieceEnv :=
  { probe := fun _ piece =>
      .usdgIn
        (if 1 ≤ piece ∧ piece ≤ 1024 then piece * 2000 else 0)
    yields := fun _ => false
    attempt := fun n piece =>
      .simulated (piece * 2000) (.confirmed (100 + n))
    balanceAt := fun _ => .ok 0 }

theorem bandOfEleven_sells :
    SellsBetween bandOfEleven 4096 2 12 := by
  intro n k
  refine ⟨_, rfl, ?_⟩
  rw [Nat.shiftRight_eq_div_pow]
  rcases Nat.lt_or_ge k 13 with hShort | hLong
  · interval_cases k <;> decide
  · have hPow : 2 ^ 13 ≤ 2 ^ k :=
      Nat.pow_le_pow_right (by decide) hLong
    have hNone : 4096 / 2 ^ k = 0 := Nat.div_eq_of_lt (by omega)
    rw [hNone]
    simp only [nonpos_iff_eq_zero, one_ne_zero, false_and,
      if_false, lt_self_iff_false, false_iff, not_and, not_le]
    intro _
    omega

theorem bandOfEleven_found :
    (∃ amount,
      (searchPiece bandOfEleven 4096).fills =
        some (2, amount)) ∧
      confirmedTotal
          (distributeInPieces bandOfEleven
            { max := 4, used := 0 } 4096).sale.each ≤ 4096 := by
  have hBoth :=
    pieces_found_and_bounded bandOfEleven
      { max := 4, used := 0 } 4096
  have hFound :=
    hBoth.1 2 12 (by decide) (by decide) bandOfEleven_sells
      { first := by decide
        wide := by decide
        whole := by decide }
  exact ⟨hFound.2.2.1, hBoth.2.within⟩

end Callhouse.Keeper.Cranker
