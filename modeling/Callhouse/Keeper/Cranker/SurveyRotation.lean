import Callhouse.Keeper.Cranker.ExpiryPlan
import Callhouse.Lib.LowerCase
import Callhouse.Lib.RoundRobin
import Mathlib.Data.List.ReduceOption

/-
  keeper/src/v2/cranker/cranker.ts, tick: the expiries a tick
  surveys, and the offset its backlog rotates by.

  Main declarations:
    * `Selected`, `selectExpiries_selected`
    * `SurveyTick`, `surveyTick`, `surveyRun`
    * `tie_order_starves`
    * `backlog_never_starved`
-/

----
-- Ticks
----

namespace Callhouse.Keeper.Cranker

/- What a tick selects from: index, done set and head time. -/
structure SurveyTick where
  all : List ExpiryKey
  done : List ExpiryKey
  now : Int
  horizonS : Int
deriving DecidableEq

def SurveyTick.eligible
    (t : SurveyTick) : List ExpiryKey :=
  eligibleExpiries t.done t.now t.horizonS []
    (t.all.insertionSort (fun a b => a.expiry ≤ b.expiry))

def SurveyTick.recent
    (t : SurveyTick)
    (recentS : Int) : List ExpiryKey :=
  t.eligible.filter
    (fun k => decide (k.expiry ≥ t.now - recentS))

def SurveyTick.backlog
    (t : SurveyTick)
    (recentS : Int) : List ExpiryKey :=
  t.eligible.filter
    (fun k => decide (k.expiry < t.now - recentS))

/- The room the recent expiries leave. -/
def SurveyTick.room
    (t : SurveyTick)
    (limit : Nat)
    (recentS : Int) : Nat :=
  limit - ((t.recent recentS).take limit).length

def SurveyTick.keys
    (t : SurveyTick)
    (limit : Nat)
    (recentS : Int)
    (backlogOffset : Nat) : List ExpiryKey :=
  selectExpiries t.all t.done t.now t.horizonS limit
    (some recentS) backlogOffset

/-
  The keys of a tick and the offset after it. A tick whose
  head read fails selects nothing and leaves the offset.
-/
def surveyTick
    (limit : Nat)
    (recentS : Int)
    (backlogOffset : Nat) :
    Option SurveyTick → List ExpiryKey × Nat
  | none => ([], backlogOffset)
  | some t =>
      let keys := t.keys limit recentS backlogOffset
      (keys,
        backlogOffset +
          (keys.filter
            (fun k => decide (k.expiry < t.now - recentS))).length)

/- The keys of every tick of a run, in order. -/
def surveyRun
    (limit : Nat)
    (recentS : Int) :
    Nat → List (Option SurveyTick) → List (List ExpiryKey)
  | _, [] => []
  | backlogOffset, t :: rest =>
      let surveyed := surveyTick limit recentS backlogOffset t
      surveyed.1 :: surveyRun limit recentS surveyed.2 rest

def tickRoom
    (limit : Nat)
    (recentS : Int) : Option SurveyTick → Nat
  | none => 0
  | some t => t.room limit recentS

theorem SurveyTick.keys_eq
    (t : SurveyTick)
    (limit : Nat)
    (recentS : Int)
    (backlogOffset : Nat) :
    t.keys limit recentS backlogOffset =
      (t.recent recentS).take limit ++
        RoundRobin.window (t.backlog recentS) backlogOffset
          (t.room limit recentS) :=
  rfl

----
-- The Eligible Expiries
----

section

variable {done : List ExpiryKey} {now horizonS : Int}

theorem expiry_of_row
    {a b : ExpiryKey}
    (h : expiryKeyString a = expiryKeyString b) :
    a.expiry = b.expiry := by
  have hExpiry := congrArg (fun k => k.expiry) h
  exact hExpiry

theorem eligibleExpiries_sublist
    (seen all : List ExpiryKey) :
    (eligibleExpiries done now horizonS seen all).Sublist
      all := by
  induction all generalizing seen with
  | nil => exact List.Sublist.refl _
  | cons x rest ih =>
      unfold eligibleExpiries
      split
      · exact (ih seen).cons x
      · exact (ih _).cons_cons x

/- The rows that are listed: not seen, not done, in reach. -/
theorem mem_eligibleExpiries
    {seen all : List ExpiryKey}
    {row : ExpiryKey} :
    row ∈ (eligibleExpiries done now horizonS seen all).map
        expiryKeyString ↔
      row ∉ seen ∧ row ∉ done ∧
        ∃ k ∈ all, expiryKeyString k = row ∧
          k.expiry ≤ now + horizonS := by
  induction all generalizing seen with
  | nil => simp [eligibleExpiries]
  | cons x rest ih =>
      unfold eligibleExpiries
      split
      · next hSkip =>
          rw [ih]
          constructor
          · rintro ⟨hSeen, hDone, k, hk, hRow, hNear⟩
            exact
              ⟨hSeen, hDone, k, List.mem_cons_of_mem _ hk,
                hRow, hNear⟩
          · rintro ⟨hSeen, hDone, k, hk, hRow, hNear⟩
            refine ⟨hSeen, hDone, k, ?_, hRow, hNear⟩
            rcases List.mem_cons.mp hk with rfl | hRest
            · rw [hRow] at hSkip
              rcases hSkip with h | h | h
              · exact absurd h hSeen
              · exact absurd h hDone
              · omega
            · exact hRest
      · next hTake =>
          rw [List.map_cons, List.mem_cons, ih]
          constructor
          · rintro (rfl | ⟨hSeen, hDone, k, hk, hRow, hNear⟩)
            · refine
                ⟨fun h => hTake (.inl h),
                  fun h => hTake (.inr (.inl h)), x,
                  List.mem_cons_self, rfl, ?_⟩
              by_contra hFar
              exact hTake (.inr (.inr (by omega)))
            · exact
                ⟨fun h => hSeen (List.mem_cons_of_mem _ h),
                  hDone, k, List.mem_cons_of_mem _ hk, hRow,
                  hNear⟩
          · rintro ⟨hSeen, hDone, k, hk, hRow, hNear⟩
            by_cases hSame : row = expiryKeyString x
            · exact .inl hSame
            · refine .inr ⟨?_, hDone, k, ?_, hRow, hNear⟩
              · intro h
                rcases List.mem_cons.mp h with h | h
                · exact hSame h
                · exact hSeen h
              · rcases List.mem_cons.mp hk with rfl | hRest
                · exact absurd hRow.symm hSame
                · exact hRest

theorem eligibleExpiries_nodup
    (seen all : List ExpiryKey) :
    ((eligibleExpiries done now horizonS seen all).map
      expiryKeyString).Nodup := by
  induction all generalizing seen with
  | nil => exact List.nodup_nil
  | cons x rest ih =>
      unfold eligibleExpiries
      split
      · exact ih seen
      · rw [List.map_cons, List.nodup_cons]
        refine ⟨?_, ih _⟩
        intro h
        exact (mem_eligibleExpiries.mp h).1 List.mem_cons_self

end

----
-- One Selection
----

section

/- A key the tick may survey. -/
def SurveyTick.InReach
    (t : SurveyTick)
    (k : ExpiryKey) : Prop :=
  k ∈ t.all ∧ expiryKeyString k ∉ t.done ∧
    k.expiry ≤ t.now + t.horizonS

/- By expiry, the earlier first. -/
def OldestFirst
    (keys : List ExpiryKey) : Prop :=
  keys.Pairwise (fun a b => a.expiry ≤ b.expiry)

variable {t : SurveyTick}

theorem SurveyTick.mem_all_of_eligible
    {k : ExpiryKey}
    (h : k ∈ t.eligible) :
    k ∈ t.all :=
  List.mem_insertionSort _ |>.mp
    ((eligibleExpiries_sublist _ _).subset h)

theorem SurveyTick.mem_eligible
    {row : ExpiryKey} :
    row ∈ t.eligible.map expiryKeyString ↔
      ∃ k, t.InReach k ∧ expiryKeyString k = row := by
  unfold SurveyTick.eligible SurveyTick.InReach
  rw [mem_eligibleExpiries]
  constructor
  · rintro ⟨_, hDone, k, hk, rfl, hNear⟩
    exact
      ⟨k, ⟨(List.mem_insertionSort _).mp hk, hDone, hNear⟩,
        rfl⟩
  · rintro ⟨k, ⟨hk, hDone, hNear⟩, rfl⟩
    exact
      ⟨List.not_mem_nil, hDone, k,
        (List.mem_insertionSort _).mpr hk, rfl, hNear⟩

theorem SurveyTick.inReach_of_eligible
    {k : ExpiryKey}
    (h : k ∈ t.eligible) :
    t.InReach k := by
  rcases SurveyTick.mem_eligible.mp (List.mem_map_of_mem h)
    with ⟨k', ⟨_, hDone, hNear⟩, hRow⟩
  have hExpiry : k'.expiry = k.expiry := expiry_of_row hRow
  exact
    ⟨SurveyTick.mem_all_of_eligible h, hRow ▸ hDone,
      hExpiry ▸ hNear⟩

theorem SurveyTick.eligible_nodup :
    (t.eligible.map expiryKeyString).Nodup :=
  eligibleExpiries_nodup _ _

theorem SurveyTick.eligible_oldestFirst :
    OldestFirst t.eligible := by
  have :
      Std.Total
        (fun a b : ExpiryKey => a.expiry ≤ b.expiry) :=
    ⟨fun a b => le_total a.expiry b.expiry⟩
  have :
      IsTrans ExpiryKey (fun a b => a.expiry ≤ b.expiry) :=
    ⟨fun _ _ _ hab hbc => le_trans hab hbc⟩
  exact
    (List.pairwise_insertionSort _ _).sublist
      (eligibleExpiries_sublist _ _)

theorem SurveyTick.mem_recent
    {recentS : Int}
    {k : ExpiryKey} :
    k ∈ t.recent recentS ↔
      k ∈ t.eligible ∧ t.now - recentS ≤ k.expiry := by
  unfold SurveyTick.recent
  rw [List.mem_filter, decide_eq_true_eq]

theorem SurveyTick.mem_backlog
    {recentS : Int}
    {k : ExpiryKey} :
    k ∈ t.backlog recentS ↔
      k ∈ t.eligible ∧ k.expiry < t.now - recentS := by
  unfold SurveyTick.backlog
  rw [List.mem_filter, decide_eq_true_eq]

/- The backlog's rows. -/
def SurveyTick.backlogRows
    (t : SurveyTick)
    (recentS : Int) : List ExpiryKey :=
  (t.backlog recentS).map expiryKeyString

theorem SurveyTick.backlogRows_nodup
    (t : SurveyTick)
    (recentS : Int) :
    (t.backlogRows recentS).Nodup :=
  (List.filter_sublist.map expiryKeyString).nodup
    SurveyTick.eligible_nodup

theorem SurveyTick.backlogRows_oldestFirst
    (t : SurveyTick)
    (recentS : Int) :
    OldestFirst (t.backlogRows recentS) := by
  have hBacklog : OldestFirst (t.backlog recentS) :=
    SurveyTick.eligible_oldestFirst.sublist
      List.filter_sublist
  exact List.pairwise_map.mpr hBacklog

end

----
-- What a Selection Is
----

section

/-
  Distinct rows within reach, the oldest recent ones first,
  and backlog in the room they leave.
-/
structure Selected
    (t : SurveyTick)
    (limit : Nat)
    (recentS : Int)
    (keys recent backlog : List ExpiryKey) : Prop where
  split : keys = recent ++ backlog
  distinct : (keys.map expiryKeyString).Nodup
  inReach : ∀ k ∈ keys, t.InReach k
  bounded : keys.length ≤ limit
  recent_new : ∀ k ∈ recent, t.now - recentS ≤ k.expiry
  recent_oldest : OldestFirst recent
  recent_full :
    ∀ k, t.InReach k → t.now - recentS ≤ k.expiry →
      expiryKeyString k ∉ recent.map expiryKeyString →
        recent.length = limit ∧
          ∀ r ∈ recent, r.expiry ≤ k.expiry
  backlog_old : ∀ k ∈ backlog, k.expiry < t.now - recentS
  backlog_full :
    ∀ k, t.InReach k → k.expiry < t.now - recentS →
      expiryKeyString k ∉ backlog.map expiryKeyString →
        keys.length = limit

variable {t : SurveyTick} {limit : Nat} {recentS : Int}

theorem window_backlog_subset
    (t : SurveyTick)
    (recentS : Int)
    (backlogOffset room : Nat) :
    RoundRobin.window (t.backlog recentS) backlogOffset room ⊆
      t.backlog recentS := by
  intro k hk
  exact List.mem_rotate.mp (List.mem_of_mem_take hk)

theorem selected_distinct
    (backlogOffset : Nat) :
    ((t.keys limit recentS backlogOffset).map
      expiryKeyString).Nodup := by
  rw [SurveyTick.keys_eq, List.map_append,
    List.nodup_append]
  refine ⟨?_, ?_, ?_⟩
  · exact
      (((List.take_sublist _ _).trans
        List.filter_sublist).map expiryKeyString).nodup
          SurveyTick.eligible_nodup
  · unfold RoundRobin.window
    rw [List.map_take, List.map_rotate]
    exact
      ((List.nodup_rotate.mpr
        (t.backlogRows_nodup recentS))).sublist
          (List.take_sublist _ _)
  · rintro row hRecent row' hBacklog rfl
    rcases List.mem_map.mp hRecent with ⟨a, ha, rfl⟩
    rcases List.mem_map.mp hBacklog with ⟨b, hb, hRow⟩
    have hNew :=
      (SurveyTick.mem_recent.mp (List.mem_of_mem_take ha)).2
    have hOld :=
      (SurveyTick.mem_backlog.mp
        (window_backlog_subset t recentS _ _ hb)).2
    have hExpiry := expiry_of_row hRow
    omega

/- A recent row that was left out came after the limit. -/
theorem selected_recent_full
    {k : ExpiryKey}
    (hReach : t.InReach k)
    (hNew : t.now - recentS ≤ k.expiry)
    (hOut :
      expiryKeyString k ∉
        ((t.recent recentS).take limit).map expiryKeyString) :
    ((t.recent recentS).take limit).length = limit ∧
      ∀ r ∈ (t.recent recentS).take limit,
        r.expiry ≤ k.expiry := by
  rcases List.mem_map.mp
      (SurveyTick.mem_eligible.mpr ⟨k, hReach, rfl⟩) with
    ⟨e, he, hRow⟩
  have hExpiry := expiry_of_row hRow
  have hRecent : e ∈ t.recent recentS :=
    SurveyTick.mem_recent.mpr ⟨he, by omega⟩
  have hDropped : e ∈ (t.recent recentS).drop limit := by
    rw [← List.take_append_drop limit (t.recent recentS)]
      at hRecent
    rcases List.mem_append.mp hRecent with hIn | hIn
    · exact absurd (hRow ▸ List.mem_map_of_mem hIn) hOut
    · exact hIn
  constructor
  · have hLong := List.length_pos_of_mem hDropped
    rw [List.length_drop] at hLong
    rw [List.length_take]
    omega
  · intro r hr
    have hSorted : OldestFirst (t.recent recentS) :=
      SurveyTick.eligible_oldestFirst.sublist
        List.filter_sublist
    rw [← List.take_append_drop limit (t.recent recentS)]
      at hSorted
    have hLe :=
      (List.pairwise_append.mp hSorted).2.2 r hr e hDropped
    omega

theorem selected_length
    (backlogOffset : Nat) :
    (t.keys limit recentS backlogOffset).length =
      ((t.recent recentS).take limit).length +
        min (t.room limit recentS)
          (t.backlog recentS).length := by
  rw [SurveyTick.keys_eq, List.length_append,
    RoundRobin.length_window]

/- Backlog is left out only when there was no room for all. -/
theorem selected_backlog_full
    (backlogOffset : Nat)
    {k : ExpiryKey}
    (hReach : t.InReach k)
    (hOld : k.expiry < t.now - recentS)
    (hOut :
      expiryKeyString k ∉
        (RoundRobin.window (t.backlog recentS) backlogOffset
          (t.room limit recentS)).map expiryKeyString) :
    (t.keys limit recentS backlogOffset).length = limit := by
  rcases List.mem_map.mp
      (SurveyTick.mem_eligible.mpr ⟨k, hReach, rfl⟩) with
    ⟨e, he, hRow⟩
  have hExpiry := expiry_of_row hRow
  have hBacklog : e ∈ t.backlog recentS :=
    SurveyTick.mem_backlog.mpr ⟨he, by omega⟩
  have hShort :
      t.room limit recentS < (t.backlog recentS).length := by
    by_contra hAll
    apply hOut
    rw [← hRow]
    apply List.mem_map_of_mem
    unfold RoundRobin.window
    rw [Nat.min_eq_right (Nat.le_of_not_lt hAll),
      List.take_of_length_le (by rw [List.length_rotate])]
    exact List.mem_rotate.mpr hBacklog
  rw [selected_length]
  unfold SurveyTick.room at *
  have hTaken := List.length_take_le limit (t.recent recentS)
  omega

theorem selectExpiries_selected
    (t : SurveyTick)
    (limit : Nat)
    (recentS : Int)
    (backlogOffset : Nat) :
    Selected t limit recentS
      (t.keys limit recentS backlogOffset)
      ((t.recent recentS).take limit)
      (RoundRobin.window (t.backlog recentS) backlogOffset
        (t.room limit recentS)) where
  split := t.keys_eq limit recentS backlogOffset
  distinct := selected_distinct backlogOffset
  inReach := by
    intro k hk
    rw [SurveyTick.keys_eq] at hk
    rcases List.mem_append.mp hk with hRecent | hBacklog
    · exact
        SurveyTick.inReach_of_eligible
          (SurveyTick.mem_recent.mp
            (List.mem_of_mem_take hRecent)).1
    · exact
        SurveyTick.inReach_of_eligible
          (SurveyTick.mem_backlog.mp
            (window_backlog_subset t recentS _ _ hBacklog)).1
  bounded := by
    rw [selected_length]
    unfold SurveyTick.room
    have hTaken := List.length_take_le limit (t.recent recentS)
    omega
  recent_new := fun _ hk =>
    (SurveyTick.mem_recent.mp (List.mem_of_mem_take hk)).2
  recent_oldest :=
    SurveyTick.eligible_oldestFirst.sublist
      ((List.take_sublist _ _).trans List.filter_sublist)
  recent_full := fun _ => selected_recent_full
  backlog_old := fun _ hk =>
    (SurveyTick.mem_backlog.mp
      (window_backlog_subset t recentS _ _ hk)).2
  backlog_full := fun _ => selected_backlog_full backlogOffset

end

----
-- Rotation over Ticks
----

variable {limit : Nat} {recentS : Int}

/- Two ticks with the same backlog entries. -/
def SameBacklog
    (recentS : Int)
    (t u : SurveyTick) : Prop :=
  ∀ row, row ∈ t.backlogRows recentS ↔
    row ∈ u.backlogRows recentS

/- Entries of one expiry are listed in one order. -/
def SameTies
    (recentS : Int)
    (t u : SurveyTick) : Prop :=
  ∀ a b, a.expiry = b.expiry →
    [a, b].Sublist (u.backlogRows recentS) →
      [a, b].Sublist (t.backlogRows recentS)

theorem backlogRows_eq
    {t u : SurveyTick}
    (hSame : SameBacklog recentS t u)
    (hTies : SameTies recentS t u) :
    t.backlogRows recentS = u.backlogRows recentS :=
  RoundRobin.eq_of_same_order
    (fun k : ExpiryKey => k.expiry)
    (t.backlogRows_nodup recentS)
    (u.backlogRows_nodup recentS)
    (t.backlogRows_oldestFirst recentS)
    (u.backlogRows_oldestFirst recentS) hSame hTies

/- A tick moves the offset on by what it took of the backlog. -/
theorem surveyTick_offset
    (t : SurveyTick)
    (backlogOffset : Nat) :
    (surveyTick limit recentS backlogOffset (some t)).2 =
      backlogOffset +
        min (t.room limit recentS)
          (t.backlogRows recentS).length := by
  unfold surveyTick SurveyTick.backlogRows
  simp only
  rw [SurveyTick.keys_eq, List.filter_append]
  have hRecent :
      ((t.recent recentS).take limit).filter
          (fun k => decide (k.expiry < t.now - recentS)) =
        [] := by
    apply List.filter_eq_nil_iff.mpr
    intro k hk
    have hNew :=
      (SurveyTick.mem_recent.mp (List.mem_of_mem_take hk)).2
    rw [decide_eq_true_eq]
    omega
  have hBacklog :
      (RoundRobin.window (t.backlog recentS) backlogOffset
          (t.room limit recentS)).filter
          (fun k => decide (k.expiry < t.now - recentS)) =
        RoundRobin.window (t.backlog recentS) backlogOffset
          (t.room limit recentS) := by
    apply List.filter_eq_self.mpr
    intro k hk
    exact
      decide_eq_true
        (SurveyTick.mem_backlog.mp
          (window_backlog_subset t recentS _ _ hk)).2
  rw [hRecent, hBacklog, List.nil_append,
    RoundRobin.length_window, List.length_map]

/- What a tick surveys of the backlog, row by row. -/
theorem window_rows_surveyed
    (t : SurveyTick)
    (backlogOffset : Nat)
    {row : ExpiryKey}
    (h :
      row ∈
        RoundRobin.window (t.backlogRows recentS) backlogOffset
          (t.room limit recentS)) :
    row ∈
      (surveyTick limit recentS backlogOffset
        (some t)).1.map expiryKeyString := by
  unfold surveyTick
  simp only
  rw [SurveyTick.keys_eq, List.map_append]
  apply List.mem_append_right
  unfold RoundRobin.window SurveyTick.backlogRows at *
  rw [List.map_take, List.map_rotate]
  rwa [List.length_map] at h

/-
  Every tick serves the entry or brings the offset nearer to
  it by the room it had; by induction on the ticks, with the
  distance below the rooms to come.
-/
theorem surveyRun_covers
    {rows : List ExpiryKey}
    {row : ExpiryKey}
    {ticks : List (Option SurveyTick)}
    (hRows :
      ∀ t, some t ∈ ticks → t.backlogRows recentS = rows)
    {backlogOffset d : Nat}
    (hAhead : RoundRobin.Ahead rows backlogOffset d row)
    (hRoom :
      d < (ticks.map (tickRoom limit recentS)).sum) :
    ∃ keys ∈ surveyRun limit recentS backlogOffset ticks,
      row ∈ keys.map expiryKeyString := by
  induction ticks generalizing backlogOffset d with
  | nil => exact absurd hRoom (Nat.not_lt_zero d)
  | cons tick rest ih =>
      have hRest :
          ∀ t, some t ∈ rest →
            t.backlogRows recentS = rows :=
        fun t ht => hRows t (List.mem_cons_of_mem _ ht)
      rw [List.map_cons, List.sum_cons] at hRoom
      unfold surveyRun
      simp only [List.mem_cons, exists_eq_or_imp]
      cases tick with
      | none =>
          right
          apply ih hRest hAhead
          have hTick : tickRoom limit recentS none = 0 := rfl
          omega
      | some t =>
          have hEq := hRows t List.mem_cons_self
          rcases RoundRobin.served_or_nearer hAhead
              (t.room limit recentS) with
            hServed | ⟨hBeyond, hNearer⟩
          · left
            apply window_rows_surveyed
            rwa [hEq]
          · right
            rw [surveyTick_offset, hEq]
            apply ih hRest hNearer
            have hLong : d < rows.length := by
              rcases List.getElem?_eq_some_iff.mp hAhead with
                ⟨hd, _⟩
              rwa [List.length_rotate] at hd
            have hTick :
                tickRoom limit recentS (some t) =
                  t.room limit recentS := rfl
            omega

/-
  Each backlog entry is surveyed in the run, if the rooms of
  its ticks add up to the backlog.
-/
def NeverStarved
    (limit : Nat)
    (recentS : Int)
    (backlogOffset : Nat)
    (ticks : List (Option SurveyTick)) : Prop :=
  ∀ t, some t ∈ ticks →
    (t.backlogRows recentS).length ≤
        (ticks.map (tickRoom limit recentS)).sum →
      ∀ row ∈ t.backlogRows recentS,
        ∃ keys ∈ surveyRun limit recentS backlogOffset ticks,
          row ∈ keys.map expiryKeyString

def surveyKey
    (oracle : String) : ExpiryKey :=
  { oracle := oracle
    underlying := "0xu"
    expiry := 10 }

/- One tick of a backlog of one expiry. -/
def surveyTickOf
    (all : List ExpiryKey) : SurveyTick :=
  { all := all
    done := []
    now := 100
    horizonS := 5 }

def swappedTicks : List (Option SurveyTick) :=
  [some (surveyTickOf [surveyKey "0xA", surveyKey "0xB"]),
    some (surveyTickOf [surveyKey "0xB", surveyKey "0xA"])]

theorem surveyKey_rows :
    expiryKeyString (surveyKey "0xA") = surveyKey "0xa" ∧
      expiryKeyString (surveyKey "0xa") = surveyKey "0xa" ∧
        expiryKeyString (surveyKey "0xB") =
          surveyKey "0xb" := by
  unfold expiryKeyString surveyKey lc
  simp only [LowerCase.toLower_eq]
  decide +kernel

variable {a b : String}

section

variable
  (h :
    expiryKeyString (surveyKey b) ≠
      expiryKeyString (surveyKey a))
include h

/- Two rows of one expiry stay in the order of the index. -/
theorem surveyTickOf_eligible :
    (surveyTickOf [surveyKey a, surveyKey b]).eligible =
      [surveyKey a, surveyKey b] := by
  have hExpiry : ∀ o, (surveyKey o).expiry = 10 := fun _ => rfl
  simp [SurveyTick.eligible, surveyTickOf, eligibleExpiries,
    List.insertionSort, hExpiry, h]

theorem surveyTickOf_backlogRows :
    (surveyTickOf [surveyKey a, surveyKey b]).backlogRows 5 =
      [expiryKeyString (surveyKey a),
        expiryKeyString (surveyKey b)] := by
  unfold SurveyTick.backlogRows SurveyTick.backlog
  rw [surveyTickOf_eligible h]
  rfl

theorem surveyTickOf_room :
    (surveyTickOf [surveyKey a, surveyKey b]).room 1 5 = 1 := by
  unfold SurveyTick.room SurveyTick.recent
  rw [surveyTickOf_eligible h]
  rfl

/- With room for one, the offset decides which one it is. -/
theorem surveyTickOf_keys :
    (surveyTickOf [surveyKey a, surveyKey b]).keys 1 5 0 =
        [surveyKey a] ∧
      (surveyTickOf [surveyKey a, surveyKey b]).keys 1 5 1 =
        [surveyKey b] := by
  have hEligible := surveyTickOf_eligible h
  unfold SurveyTick.eligible at hEligible
  unfold SurveyTick.keys selectExpiries
  rw [hEligible]
  exact ⟨rfl, rfl⟩

end

theorem surveyKey_ne :
    expiryKeyString (surveyKey "0xB") ≠
      expiryKeyString (surveyKey "0xA") := by
  rw [surveyKey_rows.1, surveyKey_rows.2.2]
  decide

/-
  The index orders its rows by expiry alone: a tick that lists
  two of one expiry the other way round serves the first one
  again.
-/
theorem tie_order_starves :
    ¬ ∀ (limit : Nat) (recentS : Int) (backlogOffset : Nat)
        (ticks : List (Option SurveyTick)),
      (∀ t u, some t ∈ ticks → some u ∈ ticks →
        SameBacklog recentS t u) →
        NeverStarved limit recentS backlogOffset ticks := by
  intro h
  have hTicks :
      ∀ t, some t ∈ swappedTicks →
        t = surveyTickOf [surveyKey "0xA", surveyKey "0xB"] ∨
          t = surveyTickOf [surveyKey "0xB", surveyKey "0xA"] := by
    intro t ht
    simpa [swappedTicks] using ht
  have hRows :
      ∀ t, some t ∈ swappedTicks → ∀ row,
        row ∈ t.backlogRows 5 ↔
          row = expiryKeyString (surveyKey "0xA") ∨
            row = expiryKeyString (surveyKey "0xB") := by
    intro t ht row
    rcases hTicks t ht with rfl | rfl
    · rw [surveyTickOf_backlogRows surveyKey_ne]
      exact List.mem_pair
    · rw [surveyTickOf_backlogRows surveyKey_ne.symm]
      exact List.mem_pair.trans Or.comm
  have hSame :
      ∀ t u, some t ∈ swappedTicks → some u ∈ swappedTicks →
        SameBacklog 5 t u := by
    intro t u ht hu row
    rw [hRows t ht, hRows u hu]
  have hFirst :
      some (surveyTickOf [surveyKey "0xA", surveyKey "0xB"]) ∈
        swappedTicks :=
    List.mem_cons_self
  have hRoom :
      ((surveyTickOf
          [surveyKey "0xA", surveyKey "0xB"]).backlogRows
            5).length ≤
        (swappedTicks.map (tickRoom 1 5)).sum := by
    rw [surveyTickOf_backlogRows surveyKey_ne]
    simp [swappedTicks, tickRoom,
      surveyTickOf_room surveyKey_ne,
      surveyTickOf_room surveyKey_ne.symm]
  have hRun :
      surveyRun 1 5 0 swappedTicks =
        [[surveyKey "0xA"], [surveyKey "0xA"]] := by
    simp only [surveyRun, surveyTick, swappedTicks,
      (surveyTickOf_keys surveyKey_ne).1]
    have hOffset :
        0 + ([surveyKey "0xA"].filter
            (fun k =>
              decide (k.expiry <
                (surveyTickOf
                  [surveyKey "0xA", surveyKey "0xB"]).now -
                  5))).length = 1 := rfl
    rw [hOffset, (surveyTickOf_keys surveyKey_ne.symm).2]
  rcases h 1 5 0 swappedTicks hSame _ hFirst hRoom
    (expiryKeyString (surveyKey "0xB"))
    ((hRows _ hFirst _).mpr (.inr rfl)) with
    ⟨keys, hKeys, hRow⟩
  have hOnly : keys = [surveyKey "0xA"] := by
    simpa [hRun] using hKeys
  rw [hOnly] at hRow
  exact surveyKey_ne (List.mem_singleton.mp hRow)

/-
  Every selection is of distinct rows within reach, recent
  ones first, and no run of ticks with one backlog starves an
  entry of it.
-/
theorem backlog_never_starved
    (limit : Nat)
    (recentS : Int)
    (backlogOffset : Nat)
    (ticks : List (Option SurveyTick))
    (hSame :
      ∀ t u, some t ∈ ticks → some u ∈ ticks →
        SameBacklog recentS t u)
    (hTies :
      ∀ t u, some t ∈ ticks → some u ∈ ticks →
        SameTies recentS t u) :
    (∀ t : SurveyTick,
      ∃ recent backlog,
        Selected t limit recentS
          (t.keys limit recentS backlogOffset) recent
          backlog) ∧
      NeverStarved limit recentS backlogOffset ticks := by
  constructor
  · intro t
    exact
      ⟨_, _,
        selectExpiries_selected t limit recentS backlogOffset⟩
  · intro t ht hRoom row hRow
    rcases RoundRobin.exists_ahead hRow backlogOffset with
      ⟨d, hd, hAhead⟩
    have hRows :
        ∀ u, some u ∈ ticks →
          u.backlogRows recentS = t.backlogRows recentS :=
      fun u hu =>
        backlogRows_eq (hSame u t hu ht) (hTies u t hu ht)
    exact surveyRun_covers hRows hAhead (by omega)

def steadyTicks : List (Option SurveyTick) :=
  [some (surveyTickOf [surveyKey "0xA", surveyKey "0xB"]),
    none,
    some (surveyTickOf
      [surveyKey "0xA", surveyKey "0xa", surveyKey "0xB"])]

theorem steadyTicks_never_starved :
    NeverStarved 1 5 3 steadyTicks := by
  have hRows :
      ∀ t ∈ steadyTicks.reduceOption,
        t.backlogRows 5 =
          [expiryKeyString (surveyKey "0xA"),
            expiryKeyString (surveyKey "0xB")] := by
    have hExpiry : ∀ o, (surveyKey o).expiry = 10 := fun _ => rfl
    have hNe := surveyKey_ne
    rcases surveyKey_rows with ⟨hA, ha, hB⟩
    rw [hA, hB] at hNe
    simp [steadyTicks, SurveyTick.backlogRows,
      SurveyTick.backlog, SurveyTick.eligible, surveyTickOf,
      eligibleExpiries, List.insertionSort, List.reduceOption,
      hExpiry, hA, ha, hB, hNe]
  apply (backlog_never_starved 1 5 3 steadyTicks _ _).2
  · intro t u ht hu row
    rw [hRows t (List.reduceOption_mem_iff.mpr ht),
      hRows u (List.reduceOption_mem_iff.mpr hu)]
  · intro t u ht hu a b _ hab
    rw [hRows u (List.reduceOption_mem_iff.mpr hu)] at hab
    rw [hRows t (List.reduceOption_mem_iff.mpr ht)]
    exact hab

end Callhouse.Keeper.Cranker
