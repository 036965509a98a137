import Mathlib.Tactic

/-
  The proleptic Gregorian calendar over day numbers: day 0 is
  the Thursday 1970-01-01, and a year starts where the years
  before it end.

  Main declarations:
    * `Gregorian.yearStart`, `Gregorian.yearStart_succ`
    * `Gregorian.yearOf`, `Gregorian.yearOf_eq_iff`
    * `Gregorian.dayOf`
    * `Gregorian.weekday`, `Gregorian.week`
-/

----
-- Years
----

namespace Gregorian

def isLeap
    (year : Int) : Bool :=
  decide (year % 4 = 0) &&
    (decide (year % 100 ≠ 0) || decide (year % 400 = 0))

def yearLength
    (year : Int) : Int :=
  if isLeap year then 366 else 365

/- The day number of January 1. -/
def yearStart
    (year : Int) : Int :=
  365 * (year - 1970) + (year - 1969) / 4 -
    (year - 1901) / 100 + (year - 1601) / 400

/- The three corrections grow where a leap year begins. -/
theorem yearStart_succ
    (year : Int) :
    yearStart (year + 1) =
      yearStart year + yearLength year := by
  have hFour :
      (year + 1 - 1969) / 4 =
        (year - 1969) / 4 + (if year % 4 = 0 then 1 else 0) := by
    split <;> omega
  have hHundred :
      (year + 1 - 1901) / 100 =
        (year - 1901) / 100 +
          (if year % 100 = 0 then 1 else 0) := by
    split <;> omega
  have hFourHundred :
      (year + 1 - 1601) / 400 =
        (year - 1601) / 400 +
          (if year % 400 = 0 then 1 else 0) := by
    split <;> omega
  unfold yearStart yearLength isLeap
  rw [hFour, hHundred, hFourHundred]
  by_cases h4 : year % 4 = 0
  · by_cases h100 : year % 100 = 0
    · by_cases h400 : year % 400 = 0
      · simp only [h4, h100, h400]
        simp
        omega
      · simp only [h4, h100, h400]
        simp
        omega
    · have h400 : ¬ year % 400 = 0 := by omega
      simp only [h4, h100, h400]
      simp
      omega
  · have h100 : ¬ year % 100 = 0 := by omega
    have h400 : ¬ year % 400 = 0 := by omega
    simp only [h4, h100, h400]
    simp
    omega

example : yearStart 1970 = 0 := by
  decide

theorem yearLength_bounds
    (year : Int) :
    365 ≤ yearLength year ∧ yearLength year ≤ 366 := by
  unfold yearLength
  split <;> decide

theorem yearStart_strictMono :
    StrictMono yearStart := by
  apply strictMono_int_of_lt_succ
  intro year
  rw [yearStart_succ]
  have hLength := yearLength_bounds year
  omega

/- 400 years have 146097 days, and every year its share. -/
theorem yearStart_near
    (year : Int) :
    146097 * (year - 1970) - 800 ≤ 400 * yearStart year ∧
      400 * yearStart year ≤ 146097 * (year - 1970) + 800 := by
  unfold yearStart
  omega

/- The year a day is in: an estimate, corrected by one. -/
def yearOf
    (day : Int) : Int :=
  let year := 1970 + 400 * day / 146097
  if day < yearStart year then year - 1
  else if yearStart (year + 1) ≤ day then year + 1
  else year

theorem yearOf_spec
    (day : Int) :
    yearStart (yearOf day) ≤ day ∧
      day < yearStart (yearOf day + 1) := by
  unfold yearOf
  simp only
  generalize hYear : 1970 + 400 * day / 146097 = year
  have hBefore := yearStart_near (year - 1)
  have hAfter := yearStart_near (year + 1 + 1)
  split
  · next hLow =>
      rw [Int.sub_add_cancel]
      omega
  · next hFrom =>
      split
      · next hHigh => omega
      · next hTo => exact ⟨not_lt.mp hFrom, not_le.mp hTo⟩

/- No day is in two years. -/
theorem yearOf_eq_iff
    (day year : Int) :
    yearOf day = year ↔
      yearStart year ≤ day ∧ day < yearStart (year + 1) := by
  constructor
  · rintro rfl
    exact yearOf_spec day
  · rintro ⟨hFrom, hTo⟩
    rcases yearOf_spec day with ⟨hFrom', hTo'⟩
    have hLess : yearOf day < year + 1 :=
      yearStart_strictMono.lt_iff_lt.mp (hFrom'.trans_lt hTo)
    have hMore : year < yearOf day + 1 :=
      yearStart_strictMono.lt_iff_lt.mp (hFrom.trans_lt hTo')
    omega

----
-- Months
----

def monthLengths
    (year : Int) : List Int :=
  [31, if isLeap year then 29 else 28, 31, 30, 31, 30, 31, 31,
    30, 31, 30, 31]

/- Months count from 0, the days of a month from 1. -/
def dayOf
    (year : Int)
    (month : Nat)
    (date : Int) : Int :=
  yearStart year + ((monthLengths year).take month).sum +
    (date - 1)

----
-- Weeks
----

/- Monday is 0. -/
def weekday
    (day : Int) : Int :=
  (day + 3) % 7

/- Weeks run from Monday to Sunday. -/
def week
    (day : Int) : Int :=
  (day + 3) / 7

end Gregorian
