import Callhouse.Lib.Gregorian
import Callhouse.Lib.OrderedMap

/-
  indexer/lib/v2/calendar.ts: the mirror of the contract's
  New York close grid, and its integer year arithmetic.

  A number is an integer; Math.floor of a quotient is `/` and
  the remainder is `tmod`.  Date is the Gregorian calendar.

  Main declarations:
    * `closeOfDay`, `closeOfDay_strictMono`
    * `weeklyDay_iff`, `isWeeklyExpiry_iff`
    * `nextExpiry`, `nextExpiry_sound`
    * `yearOfDay`, `yearDays`, `yearOfDay_eq_iff`
    * `calendar_mirror_exact`
-/

----
-- The Close of a Day
----

namespace Callhouse.Indexer.Calendar

def calendarDayS : Int := 86400

def nextExpirySearchS : Int :=
  14 * calendarDayS

/- Date.UTC, in milliseconds. -/
def dateUTC
    (year : Int)
    (month : Nat)
    (date : Int) : Int :=
  Gregorian.dayOf year month date * (calendarDayS * 1000)

def getUTCFullYear
    (ms : Int) : Int :=
  Gregorian.yearOf (ms / (calendarDayS * 1000))

/-
  The first day of summer time in New York, and the first day
  after it.
-/
def dstDays
    (year : Int) : Int × Int :=
  let march1 := dateUTC year 2 1 / (calendarDayS * 1000)
  let start :=
    march1 + (7 - (march1 + 4).tmod 7).tmod 7 + 7
  let november1 := dateUTC year 10 1 / (calendarDayS * 1000)
  let finish := november1 + (7 - (november1 + 4).tmod 7).tmod 7
  (start, finish)

def closeOfDay
    (day : Int) : Int :=
  let year := getUTCFullYear (day * calendarDayS * 1000)
  let dst := dstDays year
  day * calendarDayS +
    (if day ≥ dst.1 ∧ day < dst.2 then 20 * 3600
    else 21 * 3600)

----
-- Expiries
----

abbrev Holidays : Type :=
  OrderedMap Int Bool

def sessionDay
    (day : Int)
    (holidays : Holidays) : Bool :=
  decide ((day + 3).tmod 7 < 5) &&
    decide (holidays.get? day ≠ some true)

theorem tmod_seven
    (n : Int) :
    n.tmod 7 = n % 7 - if 0 ≤ n ∨ 7 ∣ n then 0 else 7 := by
  rw [Int.tmod_eq_emod]
  split <;> rfl

/- Falls until a weekend comes, below day 0 as well. -/
def untilWeekend
    (day : Int) : Nat :=
  (-(day + 3)).toNat + (7 - max 0 ((day + 3).tmod 7)).toNat

theorem untilWeekend_succ
    {day : Int}
    (h : (day + 3).tmod 7 < 5) :
    untilWeekend (day + 1) < untilWeekend day := by
  unfold untilWeekend
  rw [tmod_seven] at h ⊢
  rw [tmod_seven]
  split at h <;> omega

/- The days from `later` to the weekend are all holidays. -/
def restClosed
    (holidays : Holidays)
    (later : Int) : Bool :=
  if hDay : (later + 3).tmod 7 < 5 then
    if holidays.get? later ≠ some true then false
    else restClosed holidays (later + 1)
  else true
termination_by untilWeekend later
decreasing_by exact untilWeekend_succ hDay

def weeklyDay
    (day : Int)
    (holidays : Holidays) : Bool :=
  sessionDay day holidays && restClosed holidays (day + 1)

def isWeeklyExpiry
    (expiry : Int)
    (holidays : Holidays) : Bool :=
  let day := expiry / calendarDayS
  decide (expiry = closeOfDay day) && weeklyDay day holidays

theorem closeOfDay_bounds
    (day : Int) :
    day * calendarDayS + 20 * 3600 ≤ closeOfDay day ∧
      closeOfDay day ≤ day * calendarDayS + 21 * 3600 := by
  unfold closeOfDay
  simp only
  split <;> omega

def qualifies
    (weekly : Bool)
    (day : Int)
    (holidays : Holidays) : Bool :=
  if weekly then weeklyDay day holidays
  else sessionDay day holidays

def noCloseAfter
    (afterTs : Int)
    (weekly : Bool) : String :=
  "ExpiryCalendar.nextExpiry found no " ++
    (if weekly then "weekly" else "daily") ++
    s!" close after {afterTs}"

theorem searchLeft_succ
    {afterTs day : Int}
    (h : ¬ closeOfDay day > afterTs + nextExpirySearchS) :
    (afterTs + nextExpirySearchS -
        (day + 1) * calendarDayS).toNat <
      (afterTs + nextExpirySearchS -
        day * calendarDayS).toNat := by
  have hClose := (closeOfDay_bounds day).1
  unfold calendarDayS at hClose ⊢
  omega

/- The search goes on until a close is past the limit. -/
def nextExpiryFrom
    (afterTs : Int)
    (weekly : Bool)
    (holidays : Holidays)
    (day : Int) : Except String Int :=
  if hLimit : closeOfDay day > afterTs + nextExpirySearchS then
    .error (noCloseAfter afterTs weekly)
  else if closeOfDay day > afterTs ∧
      qualifies weekly day holidays = true then
    .ok (closeOfDay day)
  else nextExpiryFrom afterTs weekly holidays (day + 1)
termination_by
  (afterTs + nextExpirySearchS - day * calendarDayS).toNat
decreasing_by exact searchLeft_succ hLimit

def nextExpiry
    (afterTs : Int)
    (weekly : Bool)
    (holidays : Holidays) : Except String Int :=
  nextExpiryFrom afterTs weekly holidays
    (afterTs / calendarDayS)

----
-- Years of Days
----

/- Hinnant's civil_from_days: years begin in March. -/
def yearOfDay
    (day : Int) : Int :=
  let z := day + 719468
  let era := z / 146097
  let doe := z - era * 146097
  let yoe :=
    (doe - doe / 1460 + doe / 36524 - doe / 146096) / 365
  let doy := doe - (365 * yoe + yoe / 4 - yoe / 100)
  let mp := (5 * doy + 2) / 153
  yoe + era * 400 + (if mp ≥ 10 then 1 else 0)

def januaryFirst
    (year : Int) : Int :=
  let y := year - 1
  let era := y / 400
  let yoe := y - era * 400
  let doe := yoe * 365 + yoe / 4 - yoe / 100 + 306
  era * 146097 + doe - 719468

def yearDays
    (year : Int) : Int × Int :=
  (januaryFirst year, januaryFirst (year + 1) - 1)

----
-- Summer Time and Closes
----

theorem closeOfDay_strictMono :
    StrictMono closeOfDay := by
  apply strictMono_int_of_lt_succ
  intro day
  have hClose := (closeOfDay_bounds day).2
  have hNext := (closeOfDay_bounds (day + 1)).1
  unfold calendarDayS at hClose hNext
  omega

/- A close names its day. -/
theorem closeOfDay_div
    (day : Int) :
    closeOfDay day / calendarDayS = day := by
  have hClose := closeOfDay_bounds day
  unfold calendarDayS at hClose ⊢
  omega

----
-- The Next Expiry
----

section

/- A weekday that is no holiday. -/
def IsSession
    (holidays : Holidays)
    (day : Int) : Prop :=
  Gregorian.weekday day < 5 ∧
    holidays.get? day ≠ some true

/- The last session of its week. -/
def IsWeekly
    (holidays : Holidays)
    (day : Int) : Prop :=
  IsSession holidays day ∧
    ∀ later, day < later →
      Gregorian.week later = Gregorian.week day →
        ¬ IsSession holidays later

def Qualifying
    (weekly : Bool)
    (holidays : Holidays)
    (day : Int) : Prop :=
  if weekly then IsWeekly holidays day
  else IsSession holidays day

/- Its close is strictly after the time. -/
def Candidate
    (afterTs : Int)
    (weekly : Bool)
    (holidays : Holidays)
    (day : Int) : Prop :=
  Qualifying weekly holidays day ∧ afterTs < closeOfDay day

def HasCandidate
    (afterTs : Int)
    (weekly : Bool)
    (holidays : Holidays) : Prop :=
  ∃ day, Candidate afterTs weekly holidays day ∧
    closeOfDay day ≤ afterTs + nextExpirySearchS

/- The least close of a candidate, if one is within reach. -/
structure NextExpirySound
    (afterTs : Int)
    (weekly : Bool)
    (holidays : Holidays)
    (result : Except String Int) : Prop where
  found :
    HasCandidate afterTs weekly holidays →
      ∃ close,
        result = .ok close ∧
          IsLeast
            { c | ∃ day,
                Candidate afterTs weekly holidays day ∧
                  closeOfDay day = c }
            close
  thrown :
    ¬ HasCandidate afterTs weekly holidays →
      result = .error (noCloseAfter afterTs weekly)

variable {afterTs : Int} {weekly : Bool} {holidays : Holidays}
variable {day : Int}

theorem sessionDay_iff
    (h : 0 ≤ day) :
    sessionDay day holidays = true ↔ IsSession holidays day := by
  unfold sessionDay IsSession Gregorian.weekday
  rw [Int.tmod_eq_emod_of_nonneg (by omega), Bool.and_eq_true,
    decide_eq_true_eq, decide_eq_true_eq]

theorem restClosed_iff
    (holidays : Holidays)
    {later : Int}
    (h : 0 ≤ later) :
    restClosed holidays later = true ↔
      ∀ day, later ≤ day →
        Gregorian.week day = Gregorian.week later →
          ¬ IsSession holidays day := by
  unfold IsSession Gregorian.weekday Gregorian.week
  fun_induction restClosed holidays later with
  | case1 later hDay hOpen =>
      rw [Int.tmod_eq_emod_of_nonneg (by omega)] at hDay
      constructor
      · intro hFalse
        cases hFalse
      · intro hAll
        exact absurd ⟨hDay, hOpen⟩ (hAll later le_rfl rfl)
  | case2 later hDay hClosed ih =>
      rw [Int.tmod_eq_emod_of_nonneg (by omega)] at hDay
      rw [ih (by omega)]
      have hWeek : (later + 1 + 3) / 7 = (later + 3) / 7 := by
        omega
      rw [hWeek]
      constructor
      · intro hRest day hFrom hSame
        rcases eq_or_lt_of_le hFrom with rfl | hLess
        · exact fun hSession => hSession.2 (not_not.mp hClosed)
        · exact hRest day (by omega) hSame
      · intro hAll day hFrom
        exact hAll day (by omega)
  | case3 later hWeekend =>
      rw [Int.tmod_eq_emod_of_nonneg (by omega)] at hWeekend
      constructor
      · rintro _ day hFrom hSame ⟨hDay, _⟩
        omega
      · intro _
        rfl

theorem weeklyDay_iff
    (h : 0 ≤ day) :
    weeklyDay day holidays = true ↔ IsWeekly holidays day := by
  unfold weeklyDay IsWeekly
  rw [Bool.and_eq_true, sessionDay_iff h,
    restClosed_iff holidays (by omega)]
  apply and_congr_right
  intro hSession
  have hWeek : Gregorian.week (day + 1) = Gregorian.week day := by
    have hDay := hSession.1
    unfold Gregorian.weekday at hDay
    unfold Gregorian.week
    omega
  rw [hWeek]
  rfl

theorem qualifies_iff
    (h : 0 ≤ day) :
    qualifies weekly day holidays = true ↔
      Qualifying weekly holidays day := by
  unfold qualifies Qualifying
  cases weekly with
  | true => exact weeklyDay_iff h
  | false => exact sessionDay_iff h

theorem isWeeklyExpiry_iff
    {expiry : Int}
    (h : 0 ≤ expiry) :
    isWeeklyExpiry expiry holidays = true ↔
      ∃ day, IsWeekly holidays day ∧ closeOfDay day = expiry := by
  have hDay : 0 ≤ expiry / calendarDayS := by
    unfold calendarDayS
    omega
  unfold isWeeklyExpiry
  simp only
  rw [Bool.and_eq_true, decide_eq_true_eq, weeklyDay_iff hDay]
  constructor
  · rintro ⟨hClose, hWeekly⟩
    exact ⟨_, hWeekly, hClose.symm⟩
  · rintro ⟨day, hWeekly, rfl⟩
    rw [closeOfDay_div]
    exact ⟨rfl, hWeekly⟩

/-
  Up from a day before which no candidate is; the search
  ends because closes grow.
-/
theorem nextExpiryFrom_sound
    (afterTs : Int)
    (weekly : Bool)
    (holidays : Holidays)
    (h : 0 ≤ day)
    (hBefore :
      ∀ earlier, earlier < day →
        ¬ Candidate afterTs weekly holidays earlier) :
    NextExpirySound afterTs weekly holidays
      (nextExpiryFrom afterTs weekly holidays day) := by
  fun_induction nextExpiryFrom afterTs weekly holidays day with
  | case1 day hLimit =>
      have hNone : ¬ HasCandidate afterTs weekly holidays := by
        rintro ⟨d, hCandidate, hReach⟩
        rcases lt_or_ge d day with hEarly | hLate
        · exact hBefore d hEarly hCandidate
        · have hMono := closeOfDay_strictMono.monotone hLate
          omega
      exact
        { found := fun hSome => absurd hSome hNone
          thrown := fun _ => rfl }
  | case2 day hLimit hFound =>
      have hCandidate : Candidate afterTs weekly holidays day :=
        ⟨(qualifies_iff h).mp hFound.2, hFound.1⟩
      have hSome : HasCandidate afterTs weekly holidays :=
        ⟨day, hCandidate, not_lt.mp hLimit⟩
      refine
        { found := fun _ => ⟨closeOfDay day, rfl, ?_, ?_⟩
          thrown := fun hNone => absurd hSome hNone }
      · exact ⟨day, hCandidate, rfl⟩
      · rintro _ ⟨d, hOther, rfl⟩
        rcases lt_or_ge d day with hEarly | hLate
        · exact absurd hOther (hBefore d hEarly)
        · exact closeOfDay_strictMono.monotone hLate
  | case3 day hLimit hNot ih =>
      apply ih (by omega)
      intro earlier hEarlier hCandidate
      rcases lt_or_eq_of_le (Int.lt_add_one_iff.mp hEarlier)
        with hLess | rfl
      · exact hBefore earlier hLess hCandidate
      · exact
          hNot
            ⟨hCandidate.2, (qualifies_iff h).mpr hCandidate.1⟩

theorem nextExpiry_sound
    {afterTs : Int}
    (h : 0 ≤ afterTs)
    (weekly : Bool)
    (holidays : Holidays) :
    NextExpirySound afterTs weekly holidays
      (nextExpiry afterTs weekly holidays) := by
  unfold nextExpiry
  apply nextExpiryFrom_sound
  · unfold calendarDayS
    omega
  · -- The days before close before midnight.
    rintro earlier hEarlier ⟨_, hAfter⟩
    have hClose := (closeOfDay_bounds earlier).2
    unfold calendarDayS at hEarlier hClose
    omega

end

----
-- The Years Tile the Days
----

theorem januaryFirst_eq
    (year : Int) :
    januaryFirst year = Gregorian.yearStart year := by
  unfold januaryFirst Gregorian.yearStart
  simp only
  omega

/-
  Within a century of an era, where only fourth years are
  leap years: the year and the day that are left of it.
-/
theorem dayOfCentury
    {century r y : Int}
    (hCentury : 0 ≤ century)
    (hCentury' : century ≤ 3)
    (hFrom : 0 ≤ r)
    (hTo : r ≤ 36523)
    (hYear :
      100 * century + y =
        (36524 * century + r - (36524 * century + r) / 1460 +
          century) / 365) :
    0 ≤ y ∧ y ≤ 99 ∧ 0 ≤ r - (365 * y + y / 4) ∧
      r - (365 * y + y / 4) ≤ 365 := by
  have hLow : 0 ≤ y := by omega
  have hHigh : y ≤ 99 := by omega
  have hDay : 365 * y + y / 4 ≤ r := by omega
  have hNext : r < 365 * (y + 1) + (y + 1) / 4 := by omega
  omega

/- The day of a year from March that Hinnant's yoe leaves. -/
theorem dayOfMarchYear
    {doe yoe : Int}
    (hFrom : 0 ≤ doe)
    (hTo : doe ≤ 146096)
    (hYear :
      yoe =
        (doe - doe / 1460 + doe / 36524 - doe / 146096) / 365) :
    0 ≤ yoe ∧ yoe ≤ 399 ∧
      0 ≤ doe - (365 * yoe + yoe / 4 - yoe / 100) ∧
        doe - (365 * yoe + yoe / 4 - yoe / 100) ≤ 365 := by
  rcases eq_or_lt_of_le hTo with rfl | hLess
  · -- February 29 of the era's last year.
    norm_num at hYear
    subst hYear
    decide
  · have hEra : doe / 146096 = 0 := by omega
    generalize hCentury : doe / 36524 = century at hYear
    generalize hRest : doe - 36524 * century = r
    have hDoe : doe = 36524 * century + r := by omega
    have hSplit :
        100 * century + (yoe - 100 * century) =
          (36524 * century + r - (36524 * century + r) / 1460 +
            century) / 365 := by
      rw [← hDoe]
      omega
    rcases dayOfCentury (by omega) (by omega) (by omega)
      (by omega) hSplit with ⟨hLow, hHigh, hDay, hLast⟩
    have hFour :
        yoe / 4 = 25 * century + (yoe - 100 * century) / 4 := by
      omega
    have hHundred : yoe / 100 = century := by omega
    rw [hFour, hHundred]
    omega

/- January 1 is day 306 of the year that began in March. -/
theorem yearStart_era
    {era yoe : Int}
    (hLow : 0 ≤ yoe)
    (hHigh : yoe ≤ 399) :
    Gregorian.yearStart (yoe + era * 400 + 1) =
      era * 146097 + (365 * yoe + yoe / 4 - yoe / 100) + 306 -
        719468 := by
  have hFour :
      (yoe + era * 400 + 1 - 1969) / 4 =
        yoe / 4 + 100 * era - 492 := by
    omega
  have hHundred :
      (yoe + era * 400 + 1 - 1901) / 100 =
        yoe / 100 + 4 * era - 19 := by
    omega
  have hFourHundred :
      (yoe + era * 400 + 1 - 1601) / 400 = era - 4 := by
    omega
  unfold Gregorian.yearStart
  rw [hFour, hHundred, hFourHundred]
  omega

theorem yearOfDay_eq
    (day : Int) :
    yearOfDay day = Gregorian.yearOf day := by
  symm
  unfold yearOfDay
  simp only
  generalize hEra : (day + 719468) / 146097 = era
  generalize hDoe : day + 719468 - era * 146097 = doe
  generalize hYear :
    (doe - doe / 1460 + doe / 36524 - doe / 146096) / 365 = yoe
  rcases dayOfMarchYear (by omega) (by omega) hYear.symm with
    ⟨hLow, hHigh, hDay, hLast⟩
  generalize hDoy :
    doe - (365 * yoe + yoe / 4 - yoe / 100) = doy at hDay hLast ⊢
  have hJanuary := @yearStart_era era yoe hLow hHigh
  have hLength := Gregorian.yearStart_succ (yoe + era * 400)
  have hLength' := Gregorian.yearStart_succ (yoe + era * 400 + 1)
  have hBounds := Gregorian.yearLength_bounds
  rw [Gregorian.yearOf_eq_iff]
  split
  · next hMonth =>
      have hNext := hBounds (yoe + era * 400 + 1)
      omega
  · next hMonth =>
      have hPrevious := hBounds (yoe + era * 400)
      rw [Int.add_zero]
      omega

/- The first day and the last day of a year are its ends. -/
theorem yearOfDay_eq_iff
    (day year : Int) :
    yearOfDay day = year ↔
      (yearDays year).1 ≤ day ∧ day ≤ (yearDays year).2 := by
  unfold yearDays
  rw [yearOfDay_eq, Gregorian.yearOf_eq_iff, januaryFirst_eq,
    januaryFirst_eq, Int.le_sub_one_iff]

----
-- The Mirror
----

theorem calendar_mirror_exact :
    (∀ day, 0 ≤ day →
      (yearDays (yearOfDay day)).1 ≤ day ∧
        day ≤ (yearDays (yearOfDay day)).2) ∧
      (∀ year, 1970 ≤ year →
        ∀ day, (yearDays year).1 ≤ day →
          day ≤ (yearDays year).2 → yearOfDay day = year) ∧
        StrictMono closeOfDay ∧
          ∀ afterTs weekly holidays, 0 ≤ afterTs →
            NextExpirySound afterTs weekly holidays
              (nextExpiry afterTs weekly holidays) := by
  refine ⟨?_, ?_, closeOfDay_strictMono, ?_⟩
  · intro day _
    exact (yearOfDay_eq_iff day _).mp rfl
  · intro year _ day hFirst hLast
    exact (yearOfDay_eq_iff day year).mpr ⟨hFirst, hLast⟩
  · intro afterTs weekly holidays h
    exact nextExpiry_sound h weekly holidays

/- A week whose Friday is a holiday ends on its Thursday. -/
def goodFriday : Holidays :=
  OrderedMap.empty.set 20546 true

theorem goodFriday_mirrored :
    ((yearDays (yearOfDay 20546)).1 ≤ 20546 ∧
        20546 ≤ (yearDays (yearOfDay 20546)).2) ∧
      yearOfDay 20453 = 2025 ∧
        closeOfDay 20519 < closeOfDay 20520 ∧
          NextExpirySound 1774861200 true goodFriday
            (nextExpiry 1774861200 true goodFriday) := by
  rcases calendar_mirror_exact with
    ⟨hDays, hYears, hCloses, hNext⟩
  refine ⟨hDays 20546 (by decide), ?_, ?_, ?_⟩
  · exact hYears 2025 (by decide) 20453 (by decide) (by decide)
  · exact hCloses (by decide)
  · exact hNext 1774861200 true goodFriday (by decide)

end Callhouse.Indexer.Calendar
