import Mathlib.Tactic
import Mathlib.Data.List.Sort
import Mathlib.Algebra.Order.BigOperators.Group.Finset
import Mathlib.Data.Int.Interval

/-
  An amount that changes at events: what is held at a time is
  what the latest event up to it set, and a walk over the
  events in their order integrates it.

  Events are ordered by a total preorder that refines their
  times.  Of equal ones the last in the list is the latest,
  as a stable sort leaves it.

  Main declarations:
    * `HeldIntegral.latest`, `HeldIntegral.heldAt`
    * `HeldIntegral.getLast?_insertionSort`
    * `HeldIntegral.integral_insertionSort`
    * `HeldIntegral.heldAt_perm`
-/

----
-- The Latest Event
----

namespace HeldIntegral

section

variable {ε : Type} (r : ε → ε → Prop) [DecidableRel r]

/- The last of the greatest events. -/
def latest : List ε → Option ε
  | [] => none
  | event :: rest =>
      match latest rest with
      | none => some event
      | some later =>
          if r event later then some later else some event

variable {r}

theorem latest_eq_none_iff
    {events : List ε} :
    latest r events = none ↔ events = [] := by
  cases events with
  | nil => simp [latest]
  | cons event rest =>
      simp only [latest, List.cons_ne_nil, iff_false]
      cases latest r rest with
      | none => exact Option.some_ne_none _
      | some later =>
          simp only
          split
          · exact Option.some_ne_none _
          · exact Option.some_ne_none _

theorem mem_of_latest
    {events : List ε}
    {event : ε}
    (h : latest r events = some event) :
    event ∈ events := by
  induction events generalizing event with
  | nil => simp [latest] at h
  | cons first rest ih =>
      simp only [latest] at h
      cases hRest : latest r rest with
      | none =>
          rw [hRest] at h
          rw [← Option.some.inj h]
          exact List.mem_cons_self
      | some later =>
          rw [hRest] at h
          simp only at h
          split at h
          · rw [← Option.some.inj h]
            exact List.mem_cons_of_mem _ (ih hRest)
          · rw [← Option.some.inj h]
            exact List.mem_cons_self

section Order

variable [IsTrans ε r]

/- A stable insertion is last only after all it must follow. -/
theorem getLast?_orderedInsert
    {sorted : List ε}
    (hSorted : sorted.Pairwise r)
    (event : ε) :
    (sorted.orderedInsert r event).getLast? =
      match sorted.getLast? with
      | none => some event
      | some later =>
          if r event later then some later
          else some event := by
  induction sorted with
  | nil => rfl
  | cons first rest ih =>
      rw [List.pairwise_cons] at hSorted
      rw [List.orderedInsert_cons]
      by_cases hFirst : r event first
      · rw [if_pos hFirst, List.getLast?_cons_cons]
        cases hLast : (first :: rest).getLast? with
        | none => simp at hLast
        | some later =>
            have hLater : r event later := by
              rcases List.mem_cons.mp
                  (List.mem_of_getLast? hLast) with
                hSame | hRest
              · rw [hSame]
                exact hFirst
              · exact trans_of r hFirst (hSorted.1 later hRest)
            simp only
            rw [if_pos hLater]
      · rw [if_neg hFirst, List.getLast?_cons,
          List.getLast?_cons, ih hSorted.2]
        cases hLast : rest.getLast? with
        | none => simp [hFirst]
        | some later =>
            simp only [Option.getD_some]
            split
            · rfl
            · rfl

theorem filter_orderedInsert
    (p : ε → Bool)
    {sorted : List ε}
    (hSorted : sorted.Pairwise r)
    (event : ε) :
    (sorted.orderedInsert r event).filter p =
      if p event then (sorted.filter p).orderedInsert r event
      else sorted.filter p := by
  induction sorted with
  | nil =>
      rw [List.filter_nil, List.orderedInsert_nil,
        List.filter_cons, List.filter_nil]
  | cons first rest ih =>
      rw [List.pairwise_cons] at hSorted
      rw [List.orderedInsert_cons]
      by_cases hFirst : r event first
      · rw [if_pos hFirst, List.filter_cons]
        split
        · have hAll :
              ∀ other ∈ (first :: rest).filter p,
                r event other := by
            intro other hOther
            rcases List.mem_cons.mp
                (List.mem_of_mem_filter hOther) with
              hSame | hRest
            · rw [hSame]
              exact hFirst
            · exact trans_of r hFirst (hSorted.1 other hRest)
          cases hKept : (first :: rest).filter p with
          | nil => rfl
          | cons next kept =>
              rw [List.orderedInsert_cons, if_pos]
              apply hAll
              rw [hKept]
              exact List.mem_cons_self
        · rfl
      · rw [if_neg hFirst, List.filter_cons, ih hSorted.2,
          List.filter_cons]
        by_cases hKeep : p first
        · rw [if_pos hKeep, if_pos hKeep]
          split
          · rw [List.orderedInsert_cons, if_neg hFirst]
          · rfl
        · rw [if_neg hKeep, if_neg hKeep]

variable [Std.Total r]

theorem le_latest
    {events : List ε}
    {event : ε}
    (h : latest r events = some event) :
    ∀ other ∈ events, r other event := by
  induction events generalizing event with
  | nil => simp [latest] at h
  | cons first rest ih =>
      simp only [latest] at h
      rw [List.forall_mem_cons]
      cases hRest : latest r rest with
      | none =>
          rw [hRest] at h
          rw [latest_eq_none_iff.mp hRest,
            ← Option.some.inj h]
          exact ⟨refl_of r first, List.forall_mem_nil _⟩
      | some later =>
          rw [hRest] at h
          simp only at h
          split at h
          · next hLater =>
              rw [← Option.some.inj h]
              exact ⟨hLater, ih hRest⟩
          · next hFirst =>
              have hBack :=
                (total_of r first later).resolve_left hFirst
              rw [← Option.some.inj h]
              refine ⟨refl_of r first, ?_⟩
              intro other hOther
              exact trans_of r (ih hRest other hOther) hBack

/- Sorting puts the latest event last. -/
theorem getLast?_insertionSort
    (events : List ε) :
    (events.insertionSort r).getLast? = latest r events := by
  induction events with
  | nil => rfl
  | cons event rest ih =>
      rw [List.insertionSort_cons,
        getLast?_orderedInsert
          (List.pairwise_insertionSort r rest), ih]
      rfl

theorem filter_insertionSort
    (p : ε → Bool)
    (events : List ε) :
    (events.insertionSort r).filter p =
      (events.filter p).insertionSort r := by
  induction events with
  | nil => rfl
  | cons event rest ih =>
      rw [List.insertionSort_cons,
        filter_orderedInsert p
          (List.pairwise_insertionSort r rest), ih,
        List.filter_cons]
      split
      · rfl
      · rfl

end Order

end

----
-- Holding and Integrating
----

section

variable {ε : Type} (time value : ε → Int)

/- What is held at a time, starting from an amount. -/
def heldAfter
    (events : List ε)
    (held now : Int) : Int :=
  events.foldl
    (fun held event =>
      if time event ≤ now then value event else held)
    held

structure Walk where
  held : Int
  cursor : Int
  weight : Int

def step
    (start : Int)
    (walk : Walk)
    (event : ε) : Walk :=
  if time event ≤ start then
    { walk with held := value event }
  else
    { held := value event
      cursor := time event
      weight :=
        walk.weight +
          walk.held * (time event - walk.cursor) }

/- The weight when the walk stops. -/
def closed
    (stop : Int)
    (walk : Walk) : Int :=
  walk.weight + walk.held * (stop - walk.cursor)

def integral
    (start stop : Int)
    (events : List ε) : Int :=
  closed stop
    (events.foldl (step time value start)
      { held := 0
        cursor := start
        weight := 0 })

variable {time value} {stop : Int}

theorem sum_const
    {start : Int}
    (h : start ≤ stop)
    (held : Int) :
    ∑ _t ∈ Finset.Ico start stop, held =
      held * (stop - start) := by
  rw [Finset.sum_const, Int.card_Ico, nsmul_eq_mul,
    Int.toNat_of_nonneg (sub_nonneg.mpr h), mul_comm]

theorem sum_consecutive
    {start mid : Int}
    (hFirst : start ≤ mid)
    (hSecond : mid ≤ stop)
    (f : Int → Int) :
    ∑ t ∈ Finset.Ico start stop, f t =
      ∑ t ∈ Finset.Ico start mid, f t +
        ∑ t ∈ Finset.Ico mid stop, f t := by
  rw [← Finset.sum_union
      (Finset.Ico_disjoint_Ico_consecutive start mid stop),
    Finset.Ico_union_Ico_eq_Ico hFirst hSecond]

/- Before the first event the amount does not change. -/
theorem heldAfter_of_before
    {events : List ε}
    {held now : Int}
    (h : ∀ event ∈ events, now < time event) :
    heldAfter time value events held now = held := by
  induction events with
  | nil => rfl
  | cons event rest ih =>
      rw [List.forall_mem_cons] at h
      unfold heldAfter
      rw [List.foldl_cons, if_neg (not_le.mpr h.1)]
      exact ih h.2

theorem heldAfter_cons_of_le
    {event : ε}
    {now : Int}
    (h : time event ≤ now)
    (rest : List ε)
    (held : Int) :
    heldAfter time value (event :: rest) held now =
      heldAfter time value rest (value event) now := by
  unfold heldAfter
  rw [List.foldl_cons, if_pos h]

/-
  The walk adds up what is held.  Until the first event after
  the start the cursor stays there; from then on no event
  lies before the cursor.
-/
theorem closed_foldl_step
    {start : Int}
    {events : List ε}
    (hSorted :
      events.Pairwise (fun a b => time a ≤ time b))
    (hStop : ∀ event ∈ events, time event < stop)
    (walk : Walk)
    (hStart : start ≤ walk.cursor)
    (hCursor : walk.cursor ≤ stop)
    (hNext :
      ∀ event ∈ events,
        walk.cursor = start ∨ walk.cursor ≤ time event) :
    closed stop (events.foldl (step time value start) walk) =
      walk.weight +
        ∑ t ∈ Finset.Ico walk.cursor stop,
          heldAfter time value events walk.held t := by
  induction events generalizing walk with
  | nil =>
      change closed stop walk =
        _ + ∑ _t ∈ Finset.Ico walk.cursor stop, walk.held
      rw [sum_const hCursor]
      rfl
  | cons event rest ih =>
      rw [List.pairwise_cons] at hSorted
      rw [List.forall_mem_cons] at hStop hNext
      rw [List.foldl_cons]
      by_cases hCarried : time event ≤ start
      · have hStep :
            step time value start walk event =
              { walk with held := value event } := by
          unfold step
          rw [if_pos hCarried]
        rw [hStep,
          ih hSorted.2 hStop.2
            { walk with held := value event } hStart hCursor
            hNext.2]
        congr 1
        apply Finset.sum_congr rfl
        intro t ht
        rw [Finset.mem_Ico] at ht
        exact
          (heldAfter_cons_of_le
            (hCarried.trans (hStart.trans ht.1)) _ _).symm
      · have hStep :
            step time value start walk event =
              { held := value event
                cursor := time event
                weight :=
                  walk.weight +
                    walk.held *
                      (time event - walk.cursor) } := by
          unfold step
          rw [if_neg hCarried]
        have hAfter : start < time event := not_le.mp hCarried
        have hReached : walk.cursor ≤ time event := by
          rcases hNext.1 with hHere | hLater
          · rw [hHere]
            exact hAfter.le
          · exact hLater
        have hBefore :
            ∑ t ∈ Finset.Ico walk.cursor (time event),
                heldAfter time value (event :: rest)
                  walk.held t =
              walk.held * (time event - walk.cursor) := by
          rw [← sum_const hReached]
          apply Finset.sum_congr rfl
          intro t ht
          rw [Finset.mem_Ico] at ht
          apply heldAfter_of_before
          rw [List.forall_mem_cons]
          refine ⟨ht.2, ?_⟩
          intro other hOther
          exact ht.2.trans_le (hSorted.1 other hOther)
        have hSince :
            ∑ t ∈ Finset.Ico (time event) stop,
                heldAfter time value (event :: rest)
                  walk.held t =
              ∑ t ∈ Finset.Ico (time event) stop,
                heldAfter time value rest
                  (value event) t := by
          apply Finset.sum_congr rfl
          intro t ht
          rw [Finset.mem_Ico] at ht
          exact heldAfter_cons_of_le ht.1 _ _
        rw [hStep,
          ih hSorted.2 hStop.2 _ hAfter.le hStop.1.le
            (fun other hOther =>
              Or.inr (hSorted.1 other hOther)),
          sum_consecutive hReached hStop.1.le, hBefore,
          hSince]
        exact add_assoc _ _ _

end

----
-- Held at a Time
----

variable {ε : Type} (r : ε → ε → Prop) [DecidableRel r]
variable (time value : ε → Int)

/- What the latest event up to now set, and nothing before. -/
def heldAt
    (events : List ε)
    (now : Int) : Int :=
  match latest r
      (events.filter (fun event => time event ≤ now)) with
  | none => 0
  | some event => value event

structure LatestAt
    (events : List ε)
    (now : Int)
    (event : ε) : Prop where
  mem : event ∈ events
  time_le : time event ≤ now
  above : ∀ other ∈ events, time other ≤ now → r other event

/- Latest events that tie agree on what is held. -/
def SettledAt
    (events : List ε)
    (now : Int) : Prop :=
  ∀ first second,
    LatestAt r time events now first →
      LatestAt r time events now second →
        value first = value second

variable {r time value}

theorem heldAfter_eq
    (events : List ε)
    (held now : Int) :
    heldAfter time value events held now =
      match (events.filter
          (fun event => time event ≤ now)).getLast? with
      | none => held
      | some event => value event := by
  induction events generalizing held with
  | nil => rfl
  | cons event rest ih =>
      rw [List.filter_cons]
      by_cases hPast : time event ≤ now
      · rw [heldAfter_cons_of_le hPast, ih,
          if_pos (decide_eq_true hPast), List.getLast?_cons]
        cases (rest.filter
            (fun event => time event ≤ now)).getLast? with
        | none => rfl
        | some later => rfl
      · rw [if_neg (by simpa using hPast), ← ih]
        unfold heldAfter
        rw [List.foldl_cons, if_neg hPast]

variable {events : List ε} {now : Int}

theorem heldAt_of_none
    (h : ∀ event ∈ events, now < time event) :
    heldAt r time value events now = 0 := by
  have hNone :
      events.filter (fun event => time event ≤ now) =
        [] := by
    rw [List.filter_eq_nil_iff]
    intro event hEvent hPast
    exact
      absurd (of_decide_eq_true hPast)
        (not_le.mpr (h event hEvent))
  unfold heldAt
  rw [hNone]
  rfl

theorem heldAt_nonneg
    (h : ∀ event ∈ events, 0 ≤ value event)
    (now : Int) :
    0 ≤ heldAt r time value events now := by
  unfold heldAt
  split
  · exact le_rfl
  · next event hLatest =>
      exact
        h event
          (List.mem_of_mem_filter (mem_of_latest hLatest))

/- Only the events up to a time matter to what is held then. -/
theorem heldAt_filter
    {p : ε → Bool}
    (h : ∀ event ∈ events, time event ≤ now → p event) :
    heldAt r time value (events.filter p) now =
      heldAt r time value events now := by
  have hSame :
      (events.filter p).filter
          (fun event => time event ≤ now) =
        events.filter (fun event => time event ≤ now) := by
    rw [List.filter_filter]
    apply List.filter_congr
    intro event hEvent
    rw [Bool.eq_iff_iff, Bool.and_eq_true]
    constructor
    · exact fun hBoth => hBoth.1
    · intro hPast
      exact ⟨hPast, h event hEvent (of_decide_eq_true hPast)⟩
  unfold heldAt
  rw [hSame]

omit [DecidableRel r] in
theorem SettledAt.perm
    {events' : List ε}
    (h : SettledAt r time value events now)
    (hPerm : events'.Perm events) :
    SettledAt r time value events' now := by
  have hHere :
      ∀ {event}, LatestAt r time events' now event →
        LatestAt r time events now event := by
    intro event hLatest
    exact
      ⟨hPerm.mem_iff.mp hLatest.mem, hLatest.time_le,
        fun other hOther =>
          hLatest.above other (hPerm.mem_iff.mpr hOther)⟩
  exact fun first second hFirst hSecond =>
    h first second (hHere hFirst) (hHere hSecond)

variable [IsTrans ε r] [Std.Total r]

/-
  The walk over the sorted events integrates what is held,
  where the order never goes back in time.
-/
theorem integral_insertionSort
    (hRefines : ∀ a b, r a b → time a ≤ time b)
    {start stop : Int}
    (hWindow : start ≤ stop)
    (hStop : ∀ event ∈ events, time event < stop) :
    integral time value start stop
        (events.insertionSort r) =
      ∑ t ∈ Finset.Ico start stop,
        heldAt r time value events t := by
  have hSorted :=
    (List.pairwise_insertionSort r events).imp
      (fun {a b} h => hRefines a b h)
  unfold integral
  rw [closed_foldl_step hSorted
    (fun event hEvent =>
      hStop event ((List.mem_insertionSort r).mp hEvent))
    { held := 0
      cursor := start
      weight := 0 }
    le_rfl hWindow (fun _ _ => Or.inl rfl), zero_add]
  apply Finset.sum_congr rfl
  intro t _
  rw [heldAfter_eq, filter_insertionSort,
    getLast?_insertionSort]
  rfl

/- If anything happened, something is latest. -/
theorem exists_latestAt
    {event : ε}
    (hEvent : event ∈ events)
    (hPast : time event ≤ now) :
    ∃ last, LatestAt r time events now last ∧
      latest r
          (events.filter (fun event => time event ≤ now)) =
        some last := by
  cases hLatest :
      latest r
        (events.filter (fun event => time event ≤ now)) with
  | none =>
      rw [latest_eq_none_iff, List.filter_eq_nil_iff]
        at hLatest
      exact absurd (decide_eq_true hPast)
        (hLatest event hEvent)
  | some last =>
      have hMem := List.mem_filter.mp (mem_of_latest hLatest)
      refine ⟨last, ⟨hMem.1, of_decide_eq_true hMem.2, ?_⟩, rfl⟩
      intro other hOther hOtherPast
      apply le_latest hLatest
      exact
        List.mem_filter.mpr
          ⟨hOther, decide_eq_true hOtherPast⟩

/- Settled events hold the same in any order. -/
theorem heldAt_perm
    {events' : List ε}
    (hPerm : events'.Perm events)
    (hSettled : SettledAt r time value events now) :
    heldAt r time value events' now =
      heldAt r time value events now := by
  by_cases hSome : ∃ event ∈ events, time event ≤ now
  · rcases hSome with ⟨event, hEvent, hPast⟩
    rcases exists_latestAt (r := r) hEvent hPast with
      ⟨last, hLast, hLatest⟩
    rcases exists_latestAt (r := r)
        (hPerm.mem_iff.mpr hEvent) hPast with
      ⟨last', hLast', hLatest'⟩
    have hLastHere : LatestAt r time events now last' :=
      ⟨hPerm.mem_iff.mp hLast'.mem, hLast'.time_le,
        fun other hOther =>
          hLast'.above other (hPerm.mem_iff.mpr hOther)⟩
    unfold heldAt
    rw [hLatest, hLatest']
    exact hSettled last' last hLastHere hLast
  · push Not at hSome
    rw [heldAt_of_none hSome,
      heldAt_of_none (fun event hEvent =>
        hSome event (hPerm.mem_iff.mp hEvent))]

/- A reflexive order of the list passes to its latest event. -/
theorem latest_of_pairwise
    {s : ε → ε → Prop}
    (hRefl : ∀ event, s event event)
    (hPairwise : events.Pairwise s)
    {last top : ε}
    (hLatest : latest r events = some last)
    (hTop : top ∈ events)
    (hAbove : ∀ other ∈ events, r other top) :
    s top last := by
  induction events generalizing last with
  | nil => cases hTop
  | cons first rest ih =>
      rw [List.pairwise_cons] at hPairwise
      rw [List.forall_mem_cons] at hAbove
      simp only [latest] at hLatest
      cases hRest : latest r rest with
      | none =>
          rw [hRest] at hLatest
          rw [latest_eq_none_iff.mp hRest,
            List.mem_singleton] at hTop
          rw [hTop, ← Option.some.inj hLatest]
          exact hRefl first
      | some later =>
          rw [hRest] at hLatest
          simp only at hLatest
          split at hLatest
          · rw [← Option.some.inj hLatest]
            rcases List.mem_cons.mp hTop with
              hFirst | hLater
            · rw [hFirst]
              exact hPairwise.1 later (mem_of_latest hRest)
            · exact ih hPairwise.2 hRest hLater hAbove.2
          · next hFirst =>
              rw [← Option.some.inj hLatest]
              rcases List.mem_cons.mp hTop with
                hHere | hLater
              · rw [hHere]
                exact hRefl first
              · exfalso
                apply hFirst
                exact
                  trans_of r hAbove.1
                    (le_latest hRest top hLater)

theorem heldAt_of_pairwise
    {s : Int → Int → Prop}
    (hRefl : ∀ held, s held held)
    (hPairwise :
      events.Pairwise (fun a b => s (value a) (value b)))
    {top : ε}
    (hTop : LatestAt r time events now top) :
    s (value top) (heldAt r time value events now) := by
  rcases exists_latestAt (r := r) hTop.mem hTop.time_le with
    ⟨last, _, hLatest⟩
  unfold heldAt
  rw [hLatest]
  apply
    latest_of_pairwise (s := fun a b => s (value a) (value b))
      (fun event => hRefl (value event))
      (hPairwise.filter _) hLatest
  · exact
      List.mem_filter.mpr
        ⟨hTop.mem, decide_eq_true hTop.time_le⟩
  · intro other hOther
    have hHere := List.mem_filter.mp hOther
    exact hTop.above other hHere.1 (of_decide_eq_true hHere.2)

/-
  Events sorted by what they set hold the most, and the same
  events reversed the least: a tie that disagrees at one time
  makes the two integrals differ.
-/
theorem sum_heldAt_reverse_lt
    (hUp :
      events.Pairwise (fun a b => value a ≤ value b))
    {start stop : Int}
    (hNow : now ∈ Finset.Ico start stop)
    (hTie : ¬ SettledAt r time value events now) :
    ∑ t ∈ Finset.Ico start stop,
        heldAt r time value events.reverse t <
      ∑ t ∈ Finset.Ico start stop,
        heldAt r time value events t := by
  have hDown :
      events.reverse.Pairwise
        (fun a b => value b ≤ value a) :=
    List.pairwise_reverse.mpr hUp
  have hReversed :
      ∀ {t top}, LatestAt r time events t top →
        LatestAt r time events.reverse t top := by
    intro t top h
    exact
      ⟨List.mem_reverse.mpr h.mem, h.time_le,
        fun other hOther =>
          h.above other (List.mem_reverse.mp hOther)⟩
  have hMost :
      ∀ {t top}, LatestAt r time events t top →
        value top ≤ heldAt r time value events t :=
    fun h => heldAt_of_pairwise (s := (· ≤ ·)) le_refl hUp h
  have hLeast :
      ∀ {t top}, LatestAt r time events t top →
        heldAt r time value events.reverse t ≤ value top :=
    fun h =>
      heldAt_of_pairwise (s := (· ≥ ·)) le_refl hDown
        (hReversed h)
  apply Finset.sum_lt_sum
  · intro t _
    by_cases hSome : ∃ event ∈ events, time event ≤ t
    · rcases hSome with ⟨event, hEvent, hPast⟩
      rcases exists_latestAt (r := r) hEvent hPast with
        ⟨last, hLast, _⟩
      exact (hLeast hLast).trans (hMost hLast)
    · push Not at hSome
      rw [heldAt_of_none hSome,
        heldAt_of_none (fun event hEvent =>
          hSome event (List.mem_reverse.mp hEvent))]
  · refine ⟨now, hNow, ?_⟩
    unfold SettledAt at hTie
    push Not at hTie
    rcases hTie with
      ⟨first, second, hFirst, hSecond, hDiffer⟩
    rcases lt_or_gt_of_ne hDiffer with hLess | hMore
    · exact
        (hLeast hFirst).trans_lt
          (hLess.trans_le (hMost hSecond))
    · exact
        (hLeast hSecond).trans_lt
          (hMore.trans_le (hMost hFirst))

end HeldIntegral
