import Mathlib.Tactic
import Mathlib.Data.List.Sort

/-
  Pages of a sorted feed that are asked for by the key of the
  last row received.

  A page merged from the first rows of several tables is the
  page of all their rows.  Pages that follow one another, each
  read at a state that shows no less of the feed than the one
  before, give every row once and in order.

  Main declarations:
    * `KeysetPage.firstRows`, `KeysetPage.firstRows_flatten`
    * `KeysetPage.follow`, `KeysetPage.follow_spec`
    * `KeysetPage.follow_ends`
-/

----
-- The First Rows
----

namespace KeysetPage

section

variable {ι κ : Type} [LinearOrder κ] (key : ι → κ)

def ByKey
    (a b : ι) : Prop :=
  key a ≤ key b

instance : DecidableRel (ByKey key) :=
  fun _ _ => inferInstanceAs (Decidable (_ ≤ _))

instance : Std.Total (ByKey key) where
  total _ _ := le_total _ _

instance : IsTrans ι (ByKey key) where
  trans _ _ _ := le_trans

def firstRows
    (limit : Nat)
    (rows : List ι) : List ι :=
  (rows.insertionSort (ByKey key)).take limit

/- How many rows come before a row. -/
def rankIn
    (rows : List ι)
    (e : ι) : Nat :=
  (rows.filter (fun other => key other < key e)).length

variable {key} {rows : List ι}

theorem rankIn_le_of_subperm
    {rows' : List ι}
    (h : rows.Subperm rows')
    (e : ι) :
    rankIn key rows e ≤ rankIn key rows' e :=
  (h.filter _).length_le

/- Sorted rows with distinct keys are strictly sorted. -/
theorem sorted_strictly
    (hKeys : (rows.map key).Nodup) :
    (rows.insertionSort (ByKey key)).Pairwise
      (fun a b => key a < key b) := by
  have hSorted := List.pairwise_insertionSort (ByKey key) rows
  have hDistinct :
      (rows.insertionSort (ByKey key)).Pairwise
        (fun a b => key a ≠ key b) := by
    rw [← List.pairwise_map]
    exact
      ((List.perm_insertionSort (ByKey key) rows).map
        key).nodup_iff.mpr hKeys
  exact
    (hSorted.and hDistinct).imp
      (fun h => lt_of_le_of_ne h.1 h.2)

theorem mem_take_iff
    (hSorted : rows.Pairwise (fun a b => key a < key b))
    (limit : Nat)
    (e : ι) :
    e ∈ rows.take limit ↔
      e ∈ rows ∧ rankIn key rows e < limit := by
  induction rows generalizing limit with
  | nil => simp
  | cons first rest ih =>
      rw [List.pairwise_cons] at hSorted
      cases limit with
      | zero => simp
      | succ limit =>
          rw [List.take_succ_cons, List.mem_cons,
            List.mem_cons, ih hSorted.2]
          have hFirst : rankIn key (first :: rest) first = 0 := by
            unfold rankIn
            rw [List.length_eq_zero_iff, List.filter_eq_nil_iff]
            intro other hOther hLess
            rcases List.mem_cons.mp hOther with rfl | hRest
            · exact lt_irrefl _ (of_decide_eq_true hLess)
            · exact
                lt_asymm (hSorted.1 other hRest)
                  (of_decide_eq_true hLess)
          constructor
          · rintro (rfl | ⟨hRest, hRank⟩)
            · exact ⟨Or.inl rfl, by omega⟩
            · refine ⟨Or.inr hRest, ?_⟩
              unfold rankIn at hRank ⊢
              rw [List.filter_cons, if_pos
                (decide_eq_true (hSorted.1 e hRest)),
                List.length_cons]
              omega
          · rintro ⟨rfl | hRest, hRank⟩
            · exact Or.inl rfl
            · right
              refine ⟨hRest, ?_⟩
              unfold rankIn at hRank ⊢
              rw [List.filter_cons, if_pos
                (decide_eq_true (hSorted.1 e hRest)),
                List.length_cons] at hRank
              omega

/- The first rows are those that few rows come before. -/
theorem mem_firstRows_iff
    (hKeys : (rows.map key).Nodup)
    (limit : Nat)
    (e : ι) :
    e ∈ firstRows key limit rows ↔
      e ∈ rows ∧ rankIn key rows e < limit := by
  have hPerm := List.perm_insertionSort (ByKey key) rows
  have hRank :
      rankIn key (rows.insertionSort (ByKey key)) e =
        rankIn key rows e :=
    (hPerm.filter _).length_eq
  unfold firstRows
  rw [mem_take_iff (sorted_strictly hKeys), hRank,
    hPerm.mem_iff]

theorem firstRows_subperm
    (limit : Nat)
    (rows : List ι) :
    (firstRows key limit rows).Subperm rows :=
  (List.take_sublist _ _).subperm.trans
    (List.perm_insertionSort (ByKey key) rows).subperm

variable (key) in
theorem flatten_firstRows_subperm
    (limit : Nat)
    (parts : List (List ι)) :
    (parts.map (firstRows key limit)).flatten.Subperm
      parts.flatten := by
  induction parts with
  | nil => exact List.Subperm.refl _
  | cons part rest ih =>
      rw [List.map_cons, List.flatten_cons,
        List.flatten_cons]
      exact (firstRows_subperm limit part).append ih

omit [LinearOrder κ] in
theorem nodup_keys_of_subperm
    {rows' : List ι}
    (h : rows.Subperm rows')
    (hKeys : (rows'.map key).Nodup) :
    (rows.map key).Nodup := by
  rcases h with ⟨same, hPerm, hSublist⟩
  exact
    (hPerm.map key).nodup_iff.mp
      (hKeys.sublist (hSublist.map key))

/-
  Of the rows that come first in all the parts together, each
  comes first in its own part.
-/
theorem firstRows_flatten
    (limit : Nat)
    {parts : List (List ι)}
    (hKeys : (parts.flatten.map key).Nodup) :
    firstRows key limit
        (parts.map (firstRows key limit)).flatten =
      firstRows key limit parts.flatten := by
  have hFewer := flatten_firstRows_subperm key limit parts
  have hFewerKeys := nodup_keys_of_subperm hFewer hKeys
  have hSubset :
      firstRows key limit parts.flatten ⊆
        firstRows key limit
          (parts.map (firstRows key limit)).flatten := by
    intro e he
    rw [mem_firstRows_iff hKeys] at he
    rcases List.mem_flatten.mp he.1 with
      ⟨part, hPart, hIn⟩
    have hWithin : part.Sublist parts.flatten :=
      List.sublist_flatten_of_mem hPart
    have hPartKeys : (part.map key).Nodup :=
      hKeys.sublist (hWithin.map key)
    rw [mem_firstRows_iff hFewerKeys]
    constructor
    · apply List.mem_flatten.mpr
      refine
        ⟨firstRows key limit part,
          List.mem_map_of_mem hPart, ?_⟩
      rw [mem_firstRows_iff hPartKeys]
      exact
        ⟨hIn,
          (rankIn_le_of_subperm hWithin.subperm e).trans_lt
            he.2⟩
    · exact (rankIn_le_of_subperm hFewer e).trans_lt he.2
  have hNodup : (firstRows key limit parts.flatten).Nodup :=
    (nodup_keys_of_subperm (firstRows_subperm limit _)
      hKeys).of_map
  have hLength :
      (firstRows key limit
          (parts.map (firstRows key limit)).flatten).length ≤
        (firstRows key limit parts.flatten).length := by
    unfold firstRows
    rw [List.length_take, List.length_take,
      List.length_insertionSort, List.length_insertionSort]
    have := hFewer.length_le
    unfold firstRows at this
    omega
  have hPerm :=
    (List.subperm_of_subset hNodup hSubset).perm_of_length_le
      hLength
  have hFirst :
      (firstRows key limit parts.flatten).Pairwise
        (fun a b => key a < key b) :=
    (sorted_strictly hKeys).sublist (List.take_sublist _ _)
  have hSecond :
      (firstRows key limit
        (parts.map (firstRows key limit)).flatten).Pairwise
          (fun a b => key a < key b) :=
    (sorted_strictly hFewerKeys).sublist
      (List.take_sublist _ _)
  refine (List.Perm.eq_of_pairwise ?_ hFirst hSecond hPerm).symm
  intro a b _ _ hLess hMore
  exact absurd hMore (lt_asymm hLess)

end

----
-- Following Pages
----

section

/- A state of the feed that is read, and a page size. -/
structure Read (ι : Type) where
  visible : ι → Bool
  size : Nat

structure Followed (ι κ : Type) where
  items : List ι
  next : Option κ
  last : Nat

variable {ι κ : Type} [LinearOrder κ] (key : ι → κ)

def after
    (cursor : Option κ)
    (e : ι) : Bool :=
  match cursor with
  | none => true
  | some c => decide (c < key e)

def rowsAfter
    (feed : List ι)
    (read : Read ι)
    (cursor : Option κ) : List ι :=
  feed.filter
    (fun e => read.visible e && after key cursor e)

def pageItems
    (feed : List ι)
    (read : Read ι)
    (cursor : Option κ) : List ι :=
  (rowsAfter key feed read cursor).take read.size

/- The key of the page's last row, if rows are left. -/
def pageNext
    (feed : List ι)
    (read : Read ι)
    (cursor : Option κ) : Option κ :=
  let rows := rowsAfter key feed read cursor
  if rows.length > read.size then
    (rows[read.size - 1]?).map key
  else none

/-
  Pages from a cursor, at most one more than `left`, while a
  cursor to the next is returned.
-/
def follow
    (feed : List ι)
    (reads : Nat → Read ι) :
    Nat → Nat → Option κ → Followed ι κ
  | 0, page, cursor =>
      { items := pageItems key feed (reads page) cursor
        next := pageNext key feed (reads page) cursor
        last := page }
  | left + 1, page, cursor =>
      match pageNext key feed (reads page) cursor with
      | none =>
          { items := pageItems key feed (reads page) cursor
            next := none
            last := page }
      | some next =>
          let later := follow feed reads left (page + 1)
            (some next)
          { later with
            items :=
              pageItems key feed (reads page) cursor ++
                later.items }

variable {key}

/- A prefix of a sorted list is what its last row bounds. -/
theorem take_eq_filter
    {rows : List ι}
    (hSorted : rows.Pairwise (fun a b => key a < key b))
    {n : Nat}
    {last : ι}
    (hLast : rows[n]? = some last) :
    rows.take (n + 1) =
      rows.filter (fun e => key e ≤ key last) := by
  induction rows generalizing n with
  | nil => simp at hLast
  | cons first rest ih =>
      rw [List.pairwise_cons] at hSorted
      rw [List.take_succ_cons, List.filter_cons]
      cases n with
      | zero =>
          rw [List.getElem?_cons_zero] at hLast
          rw [← Option.some.inj hLast,
            if_pos (decide_eq_true le_rfl), List.take_zero]
          symm
          rw [List.cons.injEq]
          refine ⟨rfl, ?_⟩
          rw [List.filter_eq_nil_iff]
          intro e he hLe
          exact
            absurd (hSorted.1 e he)
              (not_lt.mpr (of_decide_eq_true hLe))
      | succ n =>
          rw [List.getElem?_cons_succ] at hLast
          have hFirst :=
            hSorted.1 last (List.mem_of_getElem? hLast)
          rw [if_pos (decide_eq_true hFirst.le),
            ih hSorted.2 hLast]

/- A sorted list is cut in two by a key. -/
theorem filter_le_append_lt
    {rows : List ι}
    (hSorted : rows.Pairwise (fun a b => key a ≤ key b))
    (c : κ) :
    rows.filter (fun e => key e ≤ c) ++
        rows.filter (fun e => c < key e) =
      rows := by
  induction rows with
  | nil => rfl
  | cons first rest ih =>
      rw [List.pairwise_cons] at hSorted
      rw [List.filter_cons, List.filter_cons]
      by_cases hFirst : key first ≤ c
      · rw [if_pos (decide_eq_true hFirst),
          if_neg (by simpa using hFirst), List.cons_append,
          ih hSorted.2]
      · have hNone : rest.filter (fun e => key e ≤ c) = [] := by
          rw [List.filter_eq_nil_iff]
          intro e he hLe
          exact
            hFirst
              ((hSorted.1 e he).trans
                (of_decide_eq_true hLe))
        have hAll : rest.filter (fun e => c < key e) = rest := by
          rw [List.filter_eq_self]
          intro e he
          exact
            decide_eq_true
              ((not_le.mp hFirst).trans_le (hSorted.1 e he))
        rw [if_neg (by simpa using hFirst),
          if_pos (decide_eq_true (not_le.mp hFirst)), hNone,
          hAll, List.nil_append]

end

----
-- Every Row Once
----

variable {ι κ : Type} [LinearOrder κ] (key : ι → κ)

/- States that show a prefix of the feed, and ever more of it. -/
structure Advancing
    (feed : List ι)
    (reads : Nat → Read ι) : Prop where
  lower : ∀ n, ∀ a ∈ feed, ∀ b ∈ feed, key a ≤ key b →
    (reads n).visible b → (reads n).visible a
  mono : ∀ m n, m ≤ n → ∀ e ∈ feed,
    (reads m).visible e → (reads n).visible e
  size_pos : ∀ n, 0 < (reads n).size

/- The rows up to a cursor, or all that a state shows. -/
def reached
    (read : Read ι)
    (next : Option κ)
    (e : ι) : Bool :=
  match next with
  | none => read.visible e
  | some c => decide (key e ≤ c)

/- A cursor is the key of a row that was shown. -/
def Issued
    (feed : List ι)
    (read : Read ι)
    (cursor next : Option κ) : Prop :=
  ∀ c, next = some c →
    ∃ e ∈ feed, read.visible e = true ∧
      after key cursor e = true ∧ key e = c

variable {key} {feed : List ι} {reads : Nat → Read ι}

theorem page_spec
    (hSorted : feed.Pairwise (fun a b => key a < key b))
    (h : Advancing key feed reads)
    (page : Nat)
    (cursor : Option κ) :
    pageItems key feed (reads page) cursor =
        feed.filter
          (fun e =>
            after key cursor e &&
              reached key (reads page)
                (pageNext key feed (reads page) cursor) e) ∧
      Issued key feed (reads page) cursor
        (pageNext key feed (reads page) cursor) := by
  have hRows :
      (rowsAfter key feed (reads page) cursor).Pairwise
        (fun a b => key a < key b) :=
    hSorted.filter _
  have hSize := h.size_pos page
  unfold pageItems pageNext
  simp only
  by_cases hMore :
      (rowsAfter key feed (reads page) cursor).length >
        (reads page).size
  · rw [if_pos hMore]
    have hAt :
        (reads page).size - 1 <
          (rowsAfter key feed (reads page) cursor).length := by
      omega
    rcases List.getElem?_eq_some_iff.mpr ⟨hAt, rfl⟩ with hLast
    have hIn := List.getElem_mem hAt
    rcases List.mem_filter.mp hIn with ⟨hFeed, hShown⟩
    rw [Bool.and_eq_true] at hShown
    rw [hLast]
    constructor
    · have hTake := take_eq_filter hRows hLast
      rw [Nat.sub_add_cancel hSize] at hTake
      rw [hTake]
      unfold rowsAfter
      rw [List.filter_filter]
      apply List.filter_congr
      intro e he
      simp only [Option.map_some, reached]
      rw [Bool.eq_iff_iff, Bool.and_eq_true,
        Bool.and_eq_true, Bool.and_eq_true]
      constructor
      · rintro ⟨hLe, _, hAfter⟩
        exact ⟨hAfter, hLe⟩
      · rintro ⟨hAfter, hLe⟩
        exact
          ⟨hLe,
            h.lower page e he _ hFeed (of_decide_eq_true hLe)
              hShown.1,
            hAfter⟩
    · intro c hc
      rw [Option.map_some] at hc
      exact ⟨_, hFeed, hShown.1, hShown.2, Option.some.inj hc⟩
  · rw [if_neg hMore]
    constructor
    · rw [List.take_of_length_le (not_lt.mp hMore)]
      unfold rowsAfter
      apply List.filter_congr
      intro e _
      exact Bool.and_comm _ _
    · intro c hc
      cases hc

/-
  Following the cursors gives all the rows that were reached,
  in the feed's order.
-/
theorem follow_spec
    (hSorted : feed.Pairwise (fun a b => key a < key b))
    (h : Advancing key feed reads)
    (left page : Nat)
    (cursor : Option κ) :
    page ≤ (follow key feed reads left page cursor).last ∧
      (follow key feed reads left page cursor).items =
        feed.filter
          (fun e =>
            after key cursor e &&
              reached key
                (reads
                  (follow key feed reads left page
                    cursor).last)
                (follow key feed reads left page
                  cursor).next e) ∧
      Issued key feed
        (reads (follow key feed reads left page cursor).last)
        cursor
        (follow key feed reads left page cursor).next := by
  induction left generalizing page cursor with
  | zero =>
      exact ⟨le_rfl, page_spec hSorted h page cursor⟩
  | succ left ih =>
      rcases page_spec hSorted h page cursor with
        ⟨hItems, hIssued⟩
      simp only [follow]
      cases hNext : pageNext key feed (reads page) cursor with
      | none =>
          rw [hNext] at hItems hIssued
          exact ⟨le_rfl, hItems, hIssued⟩
      | some c =>
          rw [hNext] at hItems hIssued
          rcases ih (page + 1) (some c) with
            ⟨hPage, hLater, hLaterIssued⟩
          rcases hIssued c rfl with
            ⟨e, he, hShown, hAfter, hKey⟩
          simp only
          -- What is past the page's cursor is past its start.
          have hBeyond :
              ∀ other, c < key other →
                after key cursor other = true := by
            intro other hOther
            cases cursor with
            | none => rfl
            | some start =>
                apply decide_eq_true
                apply lt_trans _ hOther
                rw [← hKey]
                exact of_decide_eq_true hAfter
          have hStill :=
            h.mono page _ (Nat.le_of_succ_le hPage) e he hShown
          refine ⟨Nat.le_of_succ_le hPage, ?_, ?_⟩
          · have hReached :
                ∀ other ∈ feed, key other ≤ c →
                  reached key
                    (reads
                      (follow key feed reads left (page + 1)
                        (some c)).last)
                    (follow key feed reads left (page + 1)
                      (some c)).next other = true := by
              intro other hOther hLe
              cases hEnd :
                  (follow key feed reads left (page + 1)
                    (some c)).next with
              | none =>
                  rw [← hKey] at hLe
                  exact h.lower _ other hOther e he hLe hStill
              | some last =>
                  rcases hLaterIssued last hEnd with
                    ⟨bound, _, _, hPast, hSame⟩
                  rw [← hSame]
                  exact
                    decide_eq_true
                      (hLe.trans (of_decide_eq_true hPast).le)
            rw [← filter_le_append_lt
                ((hSorted.filter _).imp le_of_lt) c,
              hItems, hLater, List.filter_filter,
              List.filter_filter]
            congr 1
            · apply List.filter_congr
              intro other hOther
              rw [Bool.eq_iff_iff, Bool.and_eq_true,
                Bool.and_eq_true, Bool.and_eq_true]
              constructor
              · rintro ⟨hFrom, hLe⟩
                exact
                  ⟨hLe, hFrom,
                    hReached other hOther
                      (of_decide_eq_true hLe)⟩
              · rintro ⟨hLe, hFrom, _⟩
                exact ⟨hFrom, hLe⟩
            · apply List.filter_congr
              intro other _
              rw [Bool.eq_iff_iff, Bool.and_eq_true,
                Bool.and_eq_true, Bool.and_eq_true]
              constructor
              · rintro ⟨hPast, hEnd⟩
                exact
                  ⟨hPast,
                    hBeyond other (of_decide_eq_true hPast),
                    hEnd⟩
              · rintro ⟨hPast, _, hEnd⟩
                exact ⟨hPast, hEnd⟩
          · intro last hLast
            rcases hLaterIssued last hLast with
              ⟨other, hOther, hSeen, hPast, hSame⟩
            refine ⟨other, hOther, hSeen, ?_, hSame⟩
            exact hBeyond other (of_decide_eq_true hPast)

/- A page that is followed by another is not empty. -/
theorem pageItems_length
    {read : Read ι}
    (hSize : 0 < read.size)
    {cursor : Option κ}
    {next : κ}
    (hNext : pageNext key feed read cursor = some next) :
    1 ≤ (pageItems key feed read cursor).length := by
  unfold pageNext at hNext
  simp only at hNext
  split at hNext
  · next hMore =>
      unfold pageItems
      rw [List.length_take]
      omega
  · cases hNext

/- Following that is cut has returned a row for each page. -/
theorem follow_length
    (h : Advancing key feed reads)
    {left page : Nat}
    {cursor : Option κ}
    (hCut :
      (follow key feed reads left page cursor).next ≠ none) :
    left < (follow key feed reads left page cursor).items.length := by
  induction left generalizing page cursor with
  | zero =>
      simp only [follow] at hCut ⊢
      cases hNext : pageNext key feed (reads page) cursor with
      | none => exact absurd hNext hCut
      | some c =>
          exact pageItems_length (h.size_pos page) hNext
  | succ left ih =>
      simp only [follow] at hCut ⊢
      cases hNext : pageNext key feed (reads page) cursor with
      | none =>
          rw [hNext] at hCut
          exact absurd rfl hCut
      | some c =>
          rw [hNext] at hCut
          have hRest := ih hCut
          have hPage := pageItems_length (h.size_pos page) hNext
          simp only [List.length_append]
          omega

/- So following ends within the feed's length. -/
theorem follow_ends
    (hSorted : feed.Pairwise (fun a b => key a < key b))
    (h : Advancing key feed reads)
    {left : Nat}
    (hLeft : feed.length ≤ left)
    (page : Nat)
    (cursor : Option κ) :
    (follow key feed reads left page cursor).next = none := by
  by_contra hCut
  have hMany := follow_length h hCut
  rw [(follow_spec hSorted h left page cursor).2.1] at hMany
  have hFew :=
    List.length_filter_le
      (fun e =>
        after key cursor e &&
          reached key
            (reads
              (follow key feed reads left page cursor).last)
            (follow key feed reads left page cursor).next e)
      feed
  omega

end KeysetPage
