import HvVerified.Lib.Loop
import Mathlib.Order.Monotone.Basic
import Mathlib.Tactic.IntervalCases

/-!
# Dates (`base/htime.c`)

`datetime_past` and `datetime_future` go from month to month. They are compared with the Gregorian calendar,
in which the days are numbered from the first day of the year 1 on. The fields are not negative; a sum that
is no `int` has no result.
-/

namespace HvVerified.Base

open Lib

/-- The date of a `datetime_t`. -/
@[ext] structure Datetime where
  year : Nat
  month : Nat
  day : Nat
deriving DecidableEq

/-- `IS_LEAP_YEAR` -/
def isLeapYear (year : Nat) : Bool := year % 4 = 0 ∧ year % 100 ≠ 0 ∨ year % 400 = 0

/-- `s_days` -/
def sDays : List Nat := [31, 28, 31, 30, 31, 30, 31, 31, 30, 31, 30, 31]

/-- `days_of_month` -/
def daysOfMonth (month year : Nat) : Nat :=
  if month < 1 ∨ month > 12 then 0
  else if month = 2 ∧ isLeapYear year then sDays.getD (month - 1) 0 + 1
  else sDays.getD (month - 1) 0

/-- The first day of the next month, if its year is an `int`. -/
def Datetime.nextMonth (dt : Datetime) : Option Datetime :=
  if dt.month + 1 > 12 then
    if dt.year + 1 < 2 ^ 31 then some ⟨dt.year + 1, 1, 1⟩ else none
  else some ⟨dt.year, dt.month + 1, 1⟩

/-- The last day of the month before. -/
def Datetime.lastMonth (dt : Datetime) : Datetime :=
  if dt.month - 1 = 0 then ⟨dt.year - 1, 12, daysOfMonth 12 (dt.year - 1)⟩
  else ⟨dt.year, dt.month - 1, daysOfMonth (dt.month - 1) dt.year⟩

/-- The loop of `datetime_past`, with the days that are left. -/
def pastIter : Datetime × Nat → LoopStep (Datetime × Nat) Datetime
  | (dt, sub) =>
    if sub = 0 then .done dt
    else if dt.day > sub then .done { dt with day := dt.day - sub }
    else .next (dt.lastMonth, sub - dt.day)

/-- The loop of `datetime_future`, with the days that are left. -/
def futureIter : Datetime × Nat → LoopStep (Datetime × Nat) (Option Datetime)
  | (dt, sub) =>
    let mdays := daysOfMonth dt.month dt.year
    if sub = 0 then .done (some dt)
    else if dt.day + sub ≥ 2 ^ 31 then .done none
    else if dt.day + sub ≤ mdays then .done (some { dt with day := dt.day + sub })
    else
      match dt.nextMonth with
      | none => .done none
      | some next => .next (next, sub - (mdays - dt.day + 1))

/-- `datetime_past` -/
def datetimePast (dt : Datetime) (days : Nat) : Option Datetime := loopRun pastIter (days + 1) (dt, days)

/-- `datetime_future`; no result if the year overflows. -/
def datetimeFuture (dt : Datetime) (days : Nat) : Option Datetime :=
  (loopRun futureIter (days + 1) (dt, days)).join

/-! ## The calendar -/

/-- Every fourth year is a leap year, but of the centuries only every fourth one. -/
def IsLeap (year : Nat) : Prop := 4 ∣ year ∧ (100 ∣ year → 400 ∣ year)

instance (year : Nat) : Decidable (IsLeap year) := inferInstanceAs (Decidable (_ ∧ _))

/-- The length of a month in the Gregorian calendar. -/
def monthLength (year month : Nat) : Nat :=
  if month = 2 then if IsLeap year then 29 else 28
  else if month = 4 ∨ month = 6 ∨ month = 9 ∨ month = 11 then 30
  else 31

/-- The days of the years before: 365 days each, and the leap days. -/
def daysOfYears (year : Nat) : Nat := 365 * (year - 1) + (year - 1) / 4 - (year - 1) / 100 + (year - 1) / 400

/-- The days of the months of a year before one of them. -/
def daysOfMonths (year month : Nat) : Nat :=
  (367 * month - 362) / 12 - if month ≤ 2 then 0 else if IsLeap year then 1 else 2

namespace Datetime

/-- A date of the calendar, from the year 1 on, that fits into the fields. -/
structure Valid (dt : Datetime) : Prop where
  year : 1 ≤ dt.year ∧ dt.year < 2 ^ 31
  month : 1 ≤ dt.month ∧ dt.month ≤ 12
  day : 1 ≤ dt.day ∧ dt.day ≤ monthLength dt.year dt.month

/-- The number of a day. -/
def dayNumber (dt : Datetime) : Nat := daysOfYears dt.year + daysOfMonths dt.year dt.month + dt.day

/-- The last day that a `datetime_t` can hold. -/
def last : Datetime := ⟨2 ^ 31 - 1, 12, 31⟩

/-- The months from the first one of the year 1 to the one of the date. -/
def monthIndex (dt : Datetime) : Nat := 12 * (dt.year - 1) + (dt.month - 1)

end Datetime

/-- The days of the first `k` months. -/
def daysBefore (k : Nat) : Nat := daysOfYears (k / 12 + 1) + daysOfMonths (k / 12 + 1) (k % 12 + 1)

/-! ## The two loops -/

variable {dt dt' : Datetime}

theorem isLeapYear_iff (year : Nat) : isLeapYear year ↔ IsLeap year := by
  unfold isLeapYear IsLeap
  simp only [decide_eq_true_eq]
  omega

theorem daysOfMonth_eq {month : Nat} (h : 1 ≤ month ∧ month ≤ 12) (year : Nat) :
    daysOfMonth month year = monthLength year month := by
  obtain ⟨h1, h12⟩ := h
  unfold daysOfMonth monthLength
  simp only [← isLeapYear_iff]
  interval_cases month <;> cases isLeapYear year <;> rfl

theorem monthLength_pos (year month : Nat) : 0 < monthLength year month := by
  unfold monthLength
  split_ifs <;> decide

theorem daysOfMonths_succ {month : Nat} (h : 1 ≤ month ∧ month < 12) (year : Nat) :
    daysOfMonths year (month + 1) = daysOfMonths year month + monthLength year month := by
  obtain ⟨h1, h12⟩ := h
  unfold daysOfMonths monthLength
  by_cases hleap : IsLeap year <;> simp only [hleap] <;> interval_cases month <;> rfl

theorem daysOfYears_succ (year : Nat) :
    daysOfYears (year + 2) = daysOfYears (year + 1) + daysOfMonths (year + 1) 12 + monthLength (year + 1) 12 := by
  have hcenturies : year / 100 ≤ year / 4 := by omega
  have hlength : daysOfMonths (year + 1) 12 + monthLength (year + 1) 12 = if IsLeap (year + 1) then 366 else 365 := by
    unfold daysOfMonths monthLength
    by_cases hleap : IsLeap (year + 1) <;> simp only [hleap] <;> rfl
  have h100 : 100 ∣ year + 1 → 4 ∣ year + 1 := (show 4 ∣ 100 by decide).trans
  have h400 : 400 ∣ year + 1 → 100 ∣ year + 1 := (show 100 ∣ 400 by decide).trans
  rw [Nat.add_assoc, hlength]
  unfold daysOfYears IsLeap
  simp only [Nat.add_sub_cancel, show year + 2 - 1 = year + 1 from rfl, Nat.succ_div]
  split_ifs <;> grind

/-- The days are numbered without a gap from one month to the next. -/
theorem daysBefore_add_one (k : Nat) :
    daysBefore (k + 1) = daysBefore k + monthLength (k / 12 + 1) (k % 12 + 1) := by
  unfold daysBefore
  by_cases hlast : k % 12 = 11
  · have hyear : (k + 1) / 12 = k / 12 + 1 := by omega
    have hmonth : (k + 1) % 12 = 0 := by omega
    rw [hyear, hmonth, hlast, daysOfYears_succ]
    rfl
  · have hyear : (k + 1) / 12 = k / 12 := by omega
    have hmonth : (k + 1) % 12 = k % 12 + 1 := by omega
    rw [hyear, hmonth, daysOfMonths_succ (by omega), Nat.add_assoc]

section

variable (h : dt.Valid)

include h

theorem year_month_of_index : dt.monthIndex / 12 + 1 = dt.year ∧ dt.monthIndex % 12 + 1 = dt.month := by
  have hyear := h.year
  have hmonth := h.month
  unfold Datetime.monthIndex
  omega

theorem dayNumber_eq : dt.dayNumber = daysBefore dt.monthIndex + dt.day := by
  obtain ⟨hyear, hmonth⟩ := year_month_of_index h
  rw [daysBefore, hyear, hmonth, Datetime.dayNumber]

theorem daysBefore_succ :
    daysBefore (dt.monthIndex + 1) = daysBefore dt.monthIndex + monthLength dt.year dt.month := by
  obtain ⟨hyear, hmonth⟩ := year_month_of_index h
  rw [daysBefore_add_one, hyear, hmonth]

/-- The first day of the next month follows the last one of the month, unless it is too late. -/
theorem valid_nextMonth (hlast : dt.monthIndex < Datetime.last.monthIndex) : ∃ next, dt.nextMonth = some next ∧
    next.Valid ∧ next.dayNumber = daysBefore (dt.monthIndex + 1) + 1 := by
  obtain ⟨⟨hyear, hfits⟩, ⟨hjan, hdec⟩, -⟩ := h
  have hnext : ∀ next : Datetime, 1 ≤ next.year ∧ next.year < 2 ^ 31 → 1 ≤ next.month ∧ next.month ≤ 12 →
      next.day = 1 → next.monthIndex = dt.monthIndex + 1 →
      next.Valid ∧ next.dayNumber = daysBefore (dt.monthIndex + 1) + 1 := by
    intro next hyear hmonth hday hindex
    have hvalid : next.Valid := ⟨hyear, hmonth, hday.ge, hday ▸ monthLength_pos _ _⟩
    exact ⟨hvalid, by rw [dayNumber_eq hvalid, hindex, hday]⟩
  unfold Datetime.nextMonth
  unfold Datetime.monthIndex Datetime.last at hlast
  split_ifs with hend hroom
  · exact ⟨_, rfl, hnext _ ⟨Nat.le_add_left 1 _, hroom⟩ (by simp) rfl (by simp only [Datetime.monthIndex]; omega)⟩
  · dsimp only at hlast
    omega
  · exact ⟨_, rfl, hnext _ ⟨hyear, hfits⟩ ⟨Nat.le_add_left 1 _, Nat.not_lt.1 hend⟩ rfl
      (by simp only [Datetime.monthIndex]; omega)⟩

theorem valid_lastMonth (hindex : dt.monthIndex ≠ 0) :
    dt.lastMonth.Valid ∧ dt.lastMonth.dayNumber = daysBefore dt.monthIndex := by
  obtain ⟨hyear, hmonth, -⟩ := h
  have hlast : dt.lastMonth.monthIndex + 1 = dt.monthIndex ∧ (1 ≤ dt.lastMonth.year ∧ dt.lastMonth.year < 2 ^ 31) ∧
      (1 ≤ dt.lastMonth.month ∧ dt.lastMonth.month ≤ 12) ∧
      dt.lastMonth.day = daysOfMonth dt.lastMonth.month dt.lastMonth.year := by
    unfold Datetime.monthIndex at hindex ⊢
    unfold Datetime.lastMonth
    split_ifs with hend
    all_goals simp only [and_true]
    all_goals omega
  obtain ⟨hindex, hyear, hmonth, hday⟩ := hlast
  rw [daysOfMonth_eq hmonth] at hday
  have hvalid : dt.lastMonth.Valid := ⟨hyear, hmonth, hday ▸ monthLength_pos _ _, hday.le⟩
  exact ⟨hvalid, by rw [← hindex, daysBefore_succ hvalid, dayNumber_eq hvalid, hday]⟩

theorem dayNumber_injective (h' : dt'.Valid) (heq : dt.dayNumber = dt'.dayNumber) : dt = dt' := by
  have hmono : Monotone daysBefore := monotone_nat_of_le_succ fun k =>
    (Nat.le_add_right _ _).trans_eq (daysBefore_add_one k).symm
  have hnext := daysBefore_succ h
  have hnext' := daysBefore_succ h'
  rw [dayNumber_eq h, dayNumber_eq h'] at heq
  obtain ⟨hyear, hmonth, hday⟩ := h
  obtain ⟨hyear', hmonth', hday'⟩ := h'
  have hindex : dt.monthIndex = dt'.monthIndex := by
    by_contra hne
    rcases Nat.lt_or_gt_of_ne hne with hlt | hlt
    · have : daysBefore (dt.monthIndex + 1) ≤ daysBefore dt'.monthIndex := hmono hlt
      omega
    · have : daysBefore (dt'.monthIndex + 1) ≤ daysBefore dt.monthIndex := hmono hlt
      omega
  rw [hindex] at heq
  unfold Datetime.monthIndex at hindex
  ext <;> omega

theorem datetimeFuture_exact {days : Nat} (hdays : days ≤ 2 ^ 31 - 64)
    (hlast : dt.dayNumber + days ≤ Datetime.last.dayNumber) : ∃ dt', datetimeFuture dt days = some dt' ∧
      dt'.Valid ∧ dt'.dayNumber = dt.dayNumber + days := by
  have hrun : ∃ r, loopRun futureIter (days + 1) (dt, days) = some r ∧
      ∃ dt', r = some dt' ∧ dt'.Valid ∧ dt'.dayNumber = dt.dayNumber + days := by
    refine loopRun_rule (fun p => p.1.Valid ∧ p.2 ≤ days ∧ p.1.dayNumber + p.2 = dt.dayNumber + days) Prod.snd ?_ _ _
      ⟨h, le_rfl, rfl⟩ (Nat.lt_succ_self _)
    rintro ⟨date, sub⟩ ⟨hvalid, hsub, hsum⟩
    dsimp only at hvalid hsub hsum
    have hday := hvalid.day
    have hlength : monthLength date.year date.month ≤ 31 := by unfold monthLength; split_ifs <;> decide
    rw [futureIter, daysOfMonth_eq hvalid.month]
    dsimp only
    by_cases hzero : sub = 0
    · rw [if_pos hzero]
      exact ⟨date, rfl, hvalid, by omega⟩
    · rw [if_neg hzero, if_neg (by omega)]
      by_cases hfits : date.day + sub ≤ monthLength date.year date.month
      · rw [if_pos hfits]
        refine ⟨_, rfl, ⟨hvalid.year, hvalid.month, by dsimp only; omega, hfits⟩, ?_⟩
        rw [← hsum]
        exact (Nat.add_assoc _ _ _).symm
      · rw [if_neg hfits]
        -- in the last month the number of the date would be too large
        have hbefore : date.monthIndex < Datetime.last.monthIndex := by
          by_contra hge
          have hyear := hvalid.year
          have hmonth := hvalid.month
          obtain ⟨hyear, hmonth⟩ : date.year = 2 ^ 31 - 1 ∧ date.month = 12 := by
            unfold Datetime.monthIndex Datetime.last at hge
            dsimp only at hge
            omega
          rw [← hsum, Datetime.dayNumber, hyear, hmonth] at hlast
          rw [hyear, hmonth] at hfits
          unfold Datetime.last at hlast
          unfold Datetime.dayNumber at hlast
          dsimp only at hlast
          have : monthLength (2 ^ 31 - 1) 12 = 31 := rfl
          omega
        obtain ⟨next, hnext, hvalid', hnumber⟩ := valid_nextMonth hvalid hbefore
        rw [hnext]
        rw [dayNumber_eq hvalid] at hsum
        rw [daysBefore_succ hvalid] at hnumber
        refine ⟨⟨hvalid', ?_⟩, ?_⟩
        all_goals dsimp only
        all_goals omega
  obtain ⟨r, hloop, dt', rfl, hdt'⟩ := hrun
  exact ⟨dt', by rw [datetimeFuture, hloop]; rfl, hdt'⟩

theorem datetimePast_exact {days : Nat} (hdays : days < dt.dayNumber) :
    ∃ dt', datetimePast dt days = some dt' ∧ dt'.Valid ∧ dt'.dayNumber + days = dt.dayNumber := by
  refine loopRun_rule (fun p => p.1.Valid ∧ p.2 < p.1.dayNumber ∧ p.1.dayNumber + days = dt.dayNumber + p.2) Prod.snd
    ?_ _ _ ⟨h, hdays, rfl⟩ (Nat.lt_succ_self _)
  rintro ⟨date, sub⟩ ⟨hvalid, hroom, hsum⟩
  have hday := hvalid.day
  dsimp only at hvalid hroom hsum hday
  rw [pastIter]
  split_ifs with hzero hfits
  · exact ⟨hvalid, by omega⟩
  · refine ⟨⟨hvalid.year, hvalid.month, ?_⟩, ?_⟩
    · dsimp only
      omega
    · unfold Datetime.dayNumber at hsum ⊢
      dsimp only
      omega
  · rw [dayNumber_eq hvalid] at hroom hsum
    have hindex : date.monthIndex ≠ 0 := by
      intro hindex
      rw [hindex, show daysBefore 0 = 0 from rfl] at hroom
      omega
    obtain ⟨hlast, hnumber⟩ := valid_lastMonth hvalid hindex
    refine ⟨⟨hlast, ?_, ?_⟩, ?_⟩
    all_goals dsimp only
    all_goals omega

end

/-- For every date of the calendar and up to 2 ^ 31 - 64 days: `datetime_future` returns the date that is so many days
    later, if there is one with a year that is an `int`, and `datetime_past` leads back; `datetime_past` returns the
    date that is so many days earlier, if it is not before the year 1. -/
theorem date_arithmetic_exact (hvalid : dt.Valid) {days : Nat} (hdays : days ≤ 2 ^ 31 - 64) :
    (dt.dayNumber + days ≤ Datetime.last.dayNumber →
      ∃ dt', datetimeFuture dt days = some dt' ∧ dt'.Valid ∧ dt'.dayNumber = dt.dayNumber + days ∧
        datetimePast dt' days = some dt) ∧
    (days < dt.dayNumber →
      ∃ dt', datetimePast dt days = some dt' ∧ dt'.Valid ∧ dt'.dayNumber + days = dt.dayNumber) := by
  refine ⟨fun hlast => ?_, datetimePast_exact hvalid⟩
  obtain ⟨dt', hfuture, hvalid', hnumber'⟩ := datetimeFuture_exact hvalid hdays hlast
  have hpos : 0 < dt.dayNumber := Nat.add_pos_right _ hvalid.day.1
  obtain ⟨dt'', hpast, hvalid'', hnumber''⟩ := @datetimePast_exact _ hvalid' days (by omega)
  obtain rfl : dt'' = dt := dayNumber_injective hvalid'' hvalid (by omega)
  exact ⟨dt', hfuture, hvalid', hnumber', hpast⟩

theorem date_arithmetic_leap_day : ∃ dt, datetimeFuture ⟨2023, 12, 31⟩ 60 = some dt ∧ dt = ⟨2024, 2, 29⟩ ∧
    dt.dayNumber = 738945 ∧ datetimePast dt 60 = some ⟨2023, 12, 31⟩ := by
  obtain ⟨dt, hfuture, -, -, hpast⟩ := (@date_arithmetic_exact ⟨2023, 12, 31⟩
    ⟨by decide, by decide, by decide⟩ 60 (by decide)).1 (by decide)
  have hdate : datetimeFuture ⟨2023, 12, 31⟩ 60 = some ⟨2024, 2, 29⟩ := by decide +kernel
  obtain rfl : dt = ⟨2024, 2, 29⟩ := Option.some.inj (hfuture.symm.trans hdate)
  exact ⟨_, hfuture, rfl, rfl, hpast⟩

end HvVerified.Base
