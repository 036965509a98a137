import Callhouse.Lib.KeysetPage

/-
  A client of a paged feed.  It asks again from a little
  before the newest time it has handled, drops what it has
  seen, forgets what is older than that, goes on from a cut
  paging, and jumps over what is too old.

  Main declarations:
    * `FeedClient.State`, `FeedClient.Tick`
    * `FeedClient.State.jump`, `FeedClient.State.read`
    * `FeedClient.Kept`, `FeedClient.Kept.read`
    * `FeedClient.mem_fresh_iff`
-/

----
-- One Tick
----

namespace FeedClient

section

open KeysetPage

structure State (ι κ : Type) where
  since : Int
  seen : List ι
  resume : Option (Int × κ)

/- The age limit, and where the paging of a tick ended. -/
structure Tick (ι κ : Type) where
  floor : Int
  read : Read ι
  next : Option κ

variable {ι κ : Type}

/- Nothing seen, from a time on. -/
def start
    (floor : Int) : State ι κ :=
  { since := floor
    seen := []
    resume := none }

/- Ahead to the age limit, with a paging that is young enough. -/
def State.jump
    (lookback floor : Int)
    (s : State ι κ) : State ι κ :=
  if s.since < floor then
    { since := floor
      seen := s.seen
      resume :=
        s.resume.filter
          (fun from_ => decide (from_.1 ≥ floor - lookback)) }
  else s

def State.querySince
    (lookback : Int)
    (s : State ι κ) : Int :=
  match s.resume with
  | none => max 0 (s.since - lookback)
  | some from_ => from_.1

def State.cursor
    (s : State ι κ) : Option κ :=
  s.resume.map Prod.snd

variable [LinearOrder κ] [DecidableEq ι]
variable (key : ι → κ) (ts : ι → Int) (feed : List ι)
variable (lookback : Int)

def Tick.Reaches
    (tick : Tick ι κ)
    (e : ι) : Prop :=
  reached key tick.read tick.next e = true

/- What the pages of the tick return. -/
def State.fetched
    (s : State ι κ)
    (tick : Tick ι κ) : List ι :=
  feed.filter
    (fun e =>
      decide (ts e ≥ s.querySince lookback) &&
        (after key s.cursor e &&
          reached key tick.read tick.next e))

def State.unseen
    (s : State ι κ)
    (tick : Tick ι κ) : List ι :=
  (s.fetched key ts feed lookback tick).filter
    (fun e => decide (e ∉ s.seen))

def State.fresh
    (s : State ι κ)
    (tick : Tick ι κ) : List ι :=
  (s.unseen key ts feed lookback tick).filter
    (fun e => decide (ts e ≥ tick.floor))

def newest
    (since : Int)
    (rows : List ι) : Int :=
  rows.foldl (fun newest e => max newest (ts e)) since

/- The state that the tick leaves. -/
def State.read
    (s : State ι κ)
    (tick : Tick ι κ) : State ι κ :=
  let unseen := s.unseen key ts feed lookback tick
  let since := newest ts s.since unseen
  { since := since
    seen :=
      (s.seen ++ unseen).filter
        (fun e => decide (ts e ≥ since - lookback))
    resume :=
      tick.next.map
        (fun next => (s.querySince lookback, next)) }

end

----
-- What a Client Keeps
----

section

open KeysetPage

variable {ι κ : Type} [LinearOrder κ]
variable (key : ι → κ) (ts : ι → Int) (feed : List ι)
variable (lookback : Int)

/- A later time has a later place. -/
def Timed : Prop :=
  ∀ a ∈ feed, ∀ b ∈ feed, ts a < ts b → key a < key b

/- A tick's last page shows a prefix, and issued its cursor. -/
structure Tick.Sound
    (tick : Tick ι κ)
    (cursor : Option κ) : Prop where
  lower : ∀ a ∈ feed, ∀ b ∈ feed, key a ≤ key b →
    tick.read.visible b = true → tick.read.visible a = true
  issued : Issued key feed tick.read cursor tick.next

/-
  A paging that was cut: everything up to its cursor has been
  reached, and past it the state forgets and leaves out only
  what its query does.
-/
structure Cut
    (passed : ι → Prop)
    (floor since query : Int)
    (cursor : κ) : Prop where
  reached : ∀ e ∈ feed, key e ≤ cursor → passed e
  forgotten : ∀ e ∈ feed, cursor < key e →
    ts e < since - lookback → ts e < query ∨ ts e < floor
  before : ∀ e ∈ feed, ts e < query → passed e ∨ ts e < floor

/-
  The state of a client that has passed `passed`, at an age
  limit of `floor`.
-/
structure Kept
    (passed : ι → Prop)
    (floor : Int)
    (s : State ι κ) : Prop where
  lower : ∀ a ∈ feed, ∀ b ∈ feed, key a ≤ key b →
    passed b → passed a
  seen_feed : ∀ e ∈ s.seen, e ∈ feed
  seen_passed : ∀ e ∈ s.seen, passed e
  passed_seen : ∀ e ∈ feed, passed e →
    e ∈ s.seen ∨ ts e < s.since - lookback ∨ ts e < floor
  before : ∀ e ∈ feed, ts e < s.since →
    passed e ∨ ts e < floor
  cut : ∀ query cursor, s.resume = some (query, cursor) →
    Cut key ts feed lookback passed floor s.since query cursor

variable {key ts feed lookback}
variable {passed : ι → Prop} {floor floor' : Int}
variable {s : State ι κ}

/- A client that has passed nothing can start afresh. -/
theorem kept_start
    (hNone : ∀ e ∈ feed, ¬ passed e)
    (floor : Int) :
    Kept key ts feed lookback passed floor (start floor) where
  lower := fun _ _ b hb _ h => absurd h (hNone b hb)
  seen_feed := fun _ h => absurd h List.not_mem_nil
  seen_passed := fun _ h => absurd h List.not_mem_nil
  passed_seen := fun e he h => absurd h (hNone e he)
  before := fun _ _ h => .inr h
  cut := fun _ _ h => nomatch h

/- An age limit that rises takes nothing back. -/
theorem Kept.raise
    (h : Kept key ts feed lookback passed floor s)
    (hFloor : floor ≤ floor') :
    Kept key ts feed lookback passed floor' s := by
  have hOlder : ∀ e, ts e < floor → ts e < floor' :=
    fun _ hLess => hLess.trans_le hFloor
  refine
    { lower := h.lower
      seen_feed := h.seen_feed
      seen_passed := h.seen_passed
      passed_seen := ?_
      before := ?_
      cut := ?_ }
  · intro e he hPassed
    exact
      (h.passed_seen e he hPassed).imp_right
        (Or.imp_right (hOlder e))
  · intro e he hOld
    exact (h.before e he hOld).imp_right (hOlder e)
  · intro query cursor hResume
    have hCut := h.cut query cursor hResume
    exact
      { reached := hCut.reached
        forgotten := fun e he hPast hOld =>
          (hCut.forgotten e he hPast hOld).imp_right
            (hOlder e)
        before := fun e he hOld =>
          (hCut.before e he hOld).imp_right (hOlder e) }

/- A jump leaves out only what is too old. -/
theorem Kept.jump
    (h : Kept key ts feed lookback passed floor s)
    (hLookback : 0 ≤ lookback)
    (hFloor : floor ≤ floor') :
    Kept key ts feed lookback passed floor'
      (s.jump lookback floor') := by
  have hRaised := h.raise hFloor
  unfold State.jump
  split
  · next hOld =>
      refine
        { lower := h.lower
          seen_feed := h.seen_feed
          seen_passed := h.seen_passed
          passed_seen := ?_
          before := fun e _ hLess => .inr hLess
          cut := ?_ }
      · intro e he hPassed
        rcases hRaised.passed_seen e he hPassed with
          hSeen | hLess | hLess
        · exact .inl hSeen
        · exact .inr (.inl (by dsimp only; omega))
        · exact .inr (.inr hLess)
      · intro query cursor hResume
        rcases Option.filter_eq_some_iff.mp hResume with
          ⟨hKept, _⟩
        have hCut := hRaised.cut query cursor hKept
        refine
          { reached := hCut.reached
            forgotten := ?_
            before := hCut.before }
        intro e _ _ hLess
        dsimp only at hLess
        exact .inr (by omega)
  · exact hRaised

end

----
-- Fresh Once
----

section

open KeysetPage

variable {ι κ : Type} [LinearOrder κ] [DecidableEq ι]
variable {key : ι → κ} {ts : ι → Int} {feed : List ι}
variable {lookback : Int} {passed : ι → Prop} {s : State ι κ}
variable {tick : Tick ι κ}

omit [DecidableEq ι] in
theorem mem_fetched_iff
    {e : ι} :
    e ∈ s.fetched key ts feed lookback tick ↔
      e ∈ feed ∧ s.querySince lookback ≤ ts e ∧
        after key s.cursor e = true ∧ tick.Reaches key e := by
  unfold State.fetched Tick.Reaches
  rw [List.mem_filter, Bool.and_eq_true, Bool.and_eq_true,
    decide_eq_true_eq]

theorem mem_unseen_iff
    {e : ι} :
    e ∈ s.unseen key ts feed lookback tick ↔
      (e ∈ feed ∧ s.querySince lookback ≤ ts e ∧
        after key s.cursor e = true ∧ tick.Reaches key e) ∧
        e ∉ s.seen := by
  unfold State.unseen
  rw [List.mem_filter, mem_fetched_iff, decide_eq_true_eq]

omit [DecidableEq ι] in
/- What the query leaves out has been passed or is too old. -/
theorem Kept.before_query
    (h : Kept key ts feed lookback passed tick.floor s)
    (hLookback : 0 ≤ lookback)
    (hTimes : ∀ e ∈ feed, 0 ≤ ts e)
    {e : ι}
    (he : e ∈ feed)
    (hOld : ts e < s.querySince lookback) :
    passed e ∨ ts e < tick.floor := by
  unfold State.querySince at hOld
  cases hResume : s.resume with
  | none =>
      rw [hResume] at hOld
      dsimp only at hOld
      rcases lt_or_ge (ts e) s.since with hLess | hMore
      · exact h.before e he hLess
      · have hTime := hTimes e he
        omega
  | some from_ =>
      rw [hResume] at hOld
      exact (h.cut from_.1 from_.2 hResume).before e he hOld

omit [DecidableEq ι] in
/- So has what comes before the cursor. -/
theorem Kept.before_cursor
    (h : Kept key ts feed lookback passed tick.floor s)
    {e : ι}
    (he : e ∈ feed)
    (hBefore : after key s.cursor e = false) :
    passed e := by
  unfold State.cursor at hBefore
  cases hResume : s.resume with
  | none =>
      rw [hResume] at hBefore
      cases hBefore
  | some from_ =>
      rw [hResume] at hBefore
      have hNot := of_decide_eq_false hBefore
      exact
        (h.cut from_.1 from_.2 hResume).reached e he
          (not_lt.mp hNot)

omit [DecidableEq ι] in
/- What is asked for again is still remembered, or too old. -/
theorem Kept.seen_of_passed
    (h : Kept key ts feed lookback passed tick.floor s)
    {e : ι}
    (he : e ∈ feed)
    (hPassed : passed e)
    (hQuery : s.querySince lookback ≤ ts e)
    (hAfter : after key s.cursor e = true) :
    e ∈ s.seen ∨ ts e < tick.floor := by
  rcases h.passed_seen e he hPassed with
    hSeen | hForgot | hOld
  · exact .inl hSeen
  · right
    unfold State.querySince at hQuery
    unfold State.cursor at hAfter
    cases hResume : s.resume with
    | none =>
        rw [hResume] at hQuery
        dsimp only at hQuery
        omega
    | some from_ =>
        rw [hResume] at hQuery hAfter
        rcases
            (h.cut from_.1 from_.2 hResume).forgotten e he
              (of_decide_eq_true hAfter) hForgot with
          hLess | hOld
        · exact absurd hLess (not_lt.mpr hQuery)
        · exact hOld
  · exact .inr hOld

/-
  A tick handles what it is the first to reach, unless that
  is too old.
-/
theorem mem_fresh_iff
    (h : Kept key ts feed lookback passed tick.floor s)
    (hLookback : 0 ≤ lookback)
    (hTimes : ∀ e ∈ feed, 0 ≤ ts e)
    {e : ι}
    (he : e ∈ feed) :
    e ∈ s.fresh key ts feed lookback tick ↔
      (tick.Reaches key e ∧ ¬ passed e) ∧
        tick.floor ≤ ts e := by
  unfold State.fresh
  rw [List.mem_filter, mem_unseen_iff, decide_eq_true_eq]
  constructor
  · rintro ⟨⟨⟨_, hQuery, hAfter, hReached⟩, hUnseen⟩, hYoung⟩
    refine ⟨⟨hReached, ?_⟩, hYoung⟩
    intro hPassed
    rcases h.seen_of_passed he hPassed hQuery hAfter with
      hSeen | hOld
    · exact hUnseen hSeen
    · exact absurd hOld (not_lt.mpr hYoung)
  · rintro ⟨⟨hReached, hNew⟩, hYoung⟩
    have hQuery : s.querySince lookback ≤ ts e := by
      by_contra hLess
      rcases
          h.before_query hLookback hTimes he
            (not_le.mp hLess) with
        hPassed | hOld
      · exact hNew hPassed
      · exact absurd hOld (not_lt.mpr hYoung)
    have hAfter : after key s.cursor e = true := by
      by_contra hBefore
      exact hNew (h.before_cursor he (by simpa using hBefore))
    have hUnseen : e ∉ s.seen :=
      fun hSeen => hNew (h.seen_passed e hSeen)
    exact ⟨⟨⟨he, hQuery, hAfter, hReached⟩, hUnseen⟩, hYoung⟩

/- Fresh rows come in the feed's order. -/
theorem fresh_eq_filter
    (s : State ι κ)
    (tick : Tick ι κ) :
    s.fresh key ts feed lookback tick =
      feed.filter
        (fun e =>
          decide (e ∈ s.fresh key ts feed lookback tick)) := by
  unfold State.fresh State.unseen State.fetched
  rw [List.filter_filter, List.filter_filter]
  apply List.filter_congr
  intro e he
  rw [Bool.eq_iff_iff, decide_eq_true_eq, List.mem_filter]
  exact ⟨fun h => ⟨he, h⟩, fun h => h.2⟩

end

----
-- What the Tick Leaves
----

open KeysetPage

variable {ι κ : Type} [LinearOrder κ] [DecidableEq ι]
variable {key : ι → κ} {ts : ι → Int} {feed : List ι}
variable {lookback : Int} {passed : ι → Prop} {s : State ι κ}
variable {tick : Tick ι κ}

omit [LinearOrder κ] [DecidableEq ι] in
/- The newest time is the old one or that of a row. -/
theorem newest_cases
    (ts : ι → Int)
    (since : Int)
    (rows : List ι) :
    newest ts since rows = since ∨
      ∃ e ∈ rows, newest ts since rows = ts e := by
  unfold newest
  induction rows generalizing since with
  | nil => exact .inl rfl
  | cons e rest ih =>
      rw [List.foldl_cons]
      rcases ih (max since (ts e)) with hSame | hRow
      · rcases max_choice since (ts e) with hMax | hMax
        · left
          rw [hSame, hMax]
        · right
          refine ⟨e, List.mem_cons_self, ?_⟩
          rw [hSame, hMax]
      · right
        rcases hRow with ⟨row, hMem, hEq⟩
        exact ⟨row, List.mem_cons_of_mem _ hMem, hEq⟩

omit [LinearOrder κ] [DecidableEq ι] in
theorem le_newest
    (ts : ι → Int)
    (since : Int)
    (rows : List ι) :
    since ≤ newest ts since rows := by
  unfold newest
  induction rows generalizing since with
  | nil => exact le_refl _
  | cons e rest ih =>
      exact (le_max_left _ _).trans (ih (max since (ts e)))

omit [LinearOrder κ] [DecidableEq ι] in
theorem le_newest_of_mem
    (ts : ι → Int)
    (since : Int)
    {rows : List ι}
    {e : ι}
    (he : e ∈ rows) :
    ts e ≤ newest ts since rows := by
  unfold newest
  induction rows generalizing since with
  | nil => exact absurd he List.not_mem_nil
  | cons row rest ih =>
      rw [List.foldl_cons]
      rcases List.mem_cons.mp he with rfl | hRest
      · exact
          (le_max_right _ _).trans
            (le_newest ts (max since (ts e)) rest)
      · exact ih (max since (ts row)) hRest

/- A client that is still before time zero has reached nothing. -/
theorem not_reaches_of_since_neg
    (hLookback : 0 ≤ lookback)
    (hTimes : ∀ e ∈ feed, 0 ≤ ts e)
    {floor : Int}
    (hNeg :
      ((start floor : State ι κ).read key ts feed lookback
        tick).since < 0)
    {e : ι}
    (he : e ∈ feed) :
    ¬ tick.Reaches key e := by
  intro hReached
  have hBefore : newest ts floor
      ((start floor : State ι κ).unseen key ts feed lookback
        tick) < 0 := hNeg
  have hFloor :=
    le_newest ts floor
      ((start floor : State ι κ).unseen key ts feed lookback
        tick)
  have hTime := hTimes e he
  have hQuery :
      (start floor : State ι κ).querySince lookback ≤ ts e := by
    show max 0 (floor - lookback) ≤ ts e
    omega
  have hUnseen :
      e ∈ (start floor : State ι κ).unseen key ts feed lookback
        tick :=
    mem_unseen_iff.mpr
      ⟨⟨he, hQuery, rfl, hReached⟩, List.not_mem_nil⟩
  have hNewest := le_newest_of_mem ts floor hUnseen
  omega

omit [DecidableEq ι] in
/- What a tick reaches is a prefix. -/
theorem Tick.Sound.reaches_lower
    (h : tick.Sound key feed s.cursor)
    {a b : ι}
    (ha : a ∈ feed)
    (hb : b ∈ feed)
    (hab : key a ≤ key b)
    (hReached : tick.Reaches key b) :
    tick.Reaches key a := by
  unfold Tick.Reaches reached at *
  cases hNext : tick.next with
  | none =>
      rw [hNext] at hReached
      exact h.lower a ha b hb hab hReached
  | some c =>
      rw [hNext] at hReached
      exact
        decide_eq_true
          (hab.trans (of_decide_eq_true hReached))

/- A time before that of an unseen row is before its place. -/
theorem Timed.reaches
    (hTimed : Timed key ts feed)
    (h : tick.Sound key feed s.cursor)
    {row e : ι}
    (hRow : row ∈ s.unseen key ts feed lookback tick)
    (he : e ∈ feed)
    (hLess : ts e < ts row) :
    key e < key row ∧ tick.Reaches key e := by
  rcases (mem_unseen_iff.mp hRow).1 with
    ⟨hFeed, _, _, hReached⟩
  have hBefore := hTimed e he row hFeed hLess
  exact
    ⟨hBefore,
      h.reaches_lower he hFeed hBefore.le hReached⟩

/- Every row up to a new cursor is before those past it. -/
theorem Kept.cut_read
    (h : Kept key ts feed lookback passed tick.floor s)
    (hTimed : Timed key ts feed)
    (hLookback : 0 ≤ lookback)
    (hTimes : ∀ e ∈ feed, 0 ≤ ts e)
    (hTick : tick.Sound key feed s.cursor)
    {cursor : κ}
    (hNext : tick.next = some cursor) :
    Cut key ts feed lookback
      (fun e => passed e ∨ tick.Reaches key e) tick.floor
      (s.read key ts feed lookback tick).since
      (s.querySince lookback) cursor := by
  have hReaches : ∀ e, tick.Reaches key e ↔ key e ≤ cursor := by
    intro e
    unfold Tick.Reaches reached
    rw [hNext]
    exact decide_eq_true_iff
  refine { reached := ?_, forgotten := ?_, before := ?_ }
  · intro e _ hLe
    exact .inr ((hReaches e).mpr hLe)
  · intro e he hPast hForgot
    have hSince :
        (s.read key ts feed lookback tick).since =
          newest ts s.since
            (s.unseen key ts feed lookback tick) := rfl
    rw [hSince] at hForgot
    rcases newest_cases ts s.since
        (s.unseen key ts feed lookback tick) with
      hSame | ⟨row, hRow, hSame⟩
    · rw [hSame] at hForgot
      unfold State.querySince
      cases hResume : s.resume with
      | none => exact .inl (lt_max_of_lt_right hForgot)
      | some from_ =>
          rcases hTick.issued cursor hNext with
            ⟨last, _, _, hAfter, hKey⟩
          unfold State.cursor at hAfter
          rw [hResume] at hAfter
          have hBeyond : from_.2 < key e := by
            have hLast := of_decide_eq_true hAfter
            rw [hKey] at hLast
            exact hLast.trans hPast
          exact
            (h.cut from_.1 from_.2 hResume).forgotten e he
              hBeyond hForgot
    · rw [hSame] at hForgot
      have hReached := (hTimed.reaches hTick hRow he (by omega)).2
      exact absurd ((hReaches e).mp hReached) (not_le.mpr hPast)
  · intro e he hOld
    exact
      (h.before_query hLookback hTimes he hOld).imp_left
        Or.inl

/- The state after a tick has passed what the tick reached. -/
theorem Kept.read
    (h : Kept key ts feed lookback passed tick.floor s)
    (hTimed : Timed key ts feed)
    (hLookback : 0 ≤ lookback)
    (hTimes : ∀ e ∈ feed, 0 ≤ ts e)
    (hTick : tick.Sound key feed s.cursor) :
    Kept key ts feed lookback
      (fun e => passed e ∨ tick.Reaches key e) tick.floor
      (s.read key ts feed lookback tick) := by
  let unseen := s.unseen key ts feed lookback tick
  have hSince : s.since ≤ newest ts s.since unseen :=
    le_newest ts s.since unseen
  have hSeen :
      ∀ e,
        e ∈ (s.read key ts feed lookback tick).seen ↔
          (e ∈ s.seen ∨ e ∈ unseen) ∧
            newest ts s.since unseen - lookback ≤ ts e := by
    intro e
    unfold State.read
    rw [List.mem_filter, List.mem_append, decide_eq_true_eq]
  -- an unseen row is remembered, or older than the lookback
  have hRemembered :
      ∀ e, e ∈ s.seen ∨ e ∈ unseen →
        e ∈ (s.read key ts feed lookback tick).seen ∨
          ts e < newest ts s.since unseen - lookback := by
    intro e hIn
    rcases lt_or_ge (ts e)
        (newest ts s.since unseen - lookback) with
      hLess | hMore
    · exact .inr hLess
    · exact .inl ((hSeen e).mpr ⟨hIn, hMore⟩)
  refine
    { lower := ?_
      seen_feed := ?_
      seen_passed := ?_
      passed_seen := ?_
      before := ?_
      cut := ?_ }
  · intro a ha b hb hab hb'
    exact
      hb'.imp (h.lower a ha b hb hab)
        (hTick.reaches_lower ha hb hab)
  · intro e he
    rcases ((hSeen e).mp he).1 with hOld | hNew
    · exact h.seen_feed e hOld
    · exact (mem_unseen_iff.mp hNew).1.1
  · intro e he
    rcases ((hSeen e).mp he).1 with hOld | hNew
    · exact .inl (h.seen_passed e hOld)
    · exact .inr (mem_unseen_iff.mp hNew).1.2.2.2
  · intro e he hPassed
    by_cases hBefore : passed e
    · rcases h.passed_seen e he hBefore with
        hIn | hForgot | hOld
      · exact (hRemembered e (.inl hIn)).imp_right Or.inl
      · exact .inr (.inl (by
          show ts e < newest ts s.since unseen - lookback
          omega))
      · exact .inr (.inr hOld)
    · have hReached := hPassed.resolve_left hBefore
      rcases lt_or_ge (ts e) tick.floor with hOld | hYoung
      · exact .inr (.inr hOld)
      · have hFresh :=
          (mem_fresh_iff h hLookback hTimes he).mpr
            ⟨⟨hReached, hBefore⟩, hYoung⟩
        have hUnseen : e ∈ unseen := (List.mem_filter.mp hFresh).1
        exact (hRemembered e (.inr hUnseen)).imp_right Or.inl
  · intro e he hLess
    have hNewest : ts e < newest ts s.since unseen := hLess
    rcases newest_cases ts s.since unseen with
      hSame | ⟨row, hRow, hSame⟩
    · rw [hSame] at hNewest
      exact (h.before e he hNewest).imp_left Or.inl
    · rw [hSame] at hNewest
      exact .inl (.inr (hTimed.reaches hTick hRow he hNewest).2)
  · intro query cursor hResume
    have hMap :
        tick.next.map
            (fun next => (s.querySince lookback, next)) =
          some (query, cursor) := hResume
    rcases Option.map_eq_some_iff.mp hMap with
      ⟨next, hNext, hPair⟩
    cases hPair
    exact h.cut_read hTimed hLookback hTimes hTick hNext

end FeedClient
