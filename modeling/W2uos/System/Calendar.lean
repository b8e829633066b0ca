import Mathlib.Data.Nat.Find
import Mathlib.Order.Monotone.Basic

/-!
# The Gregorian calendar

Days are counted from the first of January of the year 0 of the proleptic Gregorian calendar, as
day 0.  A later day has a later date: its year, month and day of the month are lexicographically
greater.

* `yearOf`, `monthOf`, `dayOfMonth` : the date of a day;
* `daysBeforeYear_yearOf` : a day lies in its year;
* `date_lt` : later days have later dates.
-/

namespace Calendar

/-- A leap year has 366 days. -/
def isLeap (y : ℕ) : Bool := y % 4 = 0 ∧ (y % 100 ≠ 0 ∨ y % 400 = 0)

/-- The days before a year. -/
def daysBeforeYear (y : ℕ) : ℕ := 365 * y + ((y + 3) / 4 - (y + 99) / 100 + (y + 399) / 400)

theorem daysBeforeYear_succ (y : ℕ) :
    daysBeforeYear (y + 1) = daysBeforeYear y + if isLeap y then 366 else 365 := by
  -- how many multiples of 4, 100 and 400 there are before the next year
  have h4 : (y + 1 + 3) / 4 = (y + 3) / 4 + if y % 4 = 0 then 1 else 0 := by
    split_ifs <;> omega
  have h100 : (y + 1 + 99) / 100 = (y + 99) / 100 + if y % 100 = 0 then 1 else 0 := by
    split_ifs <;> omega
  have h400 : (y + 1 + 399) / 400 = (y + 399) / 400 + if y % 400 = 0 then 1 else 0 := by
    split_ifs <;> omega
  have hle : (y + 99) / 100 ≤ (y + 3) / 4 := by omega
  have h100' : y % 100 = 0 → y % 4 = 0 := by omega
  have h400' : y % 400 = 0 → y % 100 = 0 := by omega
  unfold daysBeforeYear isLeap
  rw [h4, h100, h400]
  generalize (y + 3) / 4 = p at *
  generalize (y + 99) / 100 = q at *
  generalize (y + 399) / 400 = r at *
  by_cases hy4 : y % 4 = 0
  · by_cases hy100 : y % 100 = 0
    · by_cases hy400 : y % 400 = 0
      · simp only [hy4, hy100, hy400, if_true, decide_true, or_true, and_true]
        omega
      · simp only [hy4, hy100, hy400, if_true, if_false, ne_eq, not_true, or_self, and_false,
          decide_false, Bool.false_eq_true]
        omega
    · simp only [hy4, hy100, mt h400' hy100, if_true, if_false, ne_eq, not_false_iff, true_or,
        and_true, decide_true]
      omega
  · simp only [hy4, mt h100' hy4, mt h400' (mt h100' hy4), if_false, false_and, decide_false,
      Bool.false_eq_true]
    omega

theorem daysBeforeYear_lt_succ (y : ℕ) : daysBeforeYear y < daysBeforeYear (y + 1) := by
  rw [daysBeforeYear_succ]
  split_ifs <;> omega

theorem daysBeforeYear_strictMono : StrictMono daysBeforeYear :=
  strictMono_nat_of_lt_succ daysBeforeYear_lt_succ

/-- The year of a day. -/
def yearOf (d : ℕ) : ℕ := Nat.findGreatest (fun y => daysBeforeYear y ≤ d) (d / 365)

/-- The day of the year, counted from 0. -/
def dayOfYear (d : ℕ) : ℕ := d - daysBeforeYear (yearOf d)

/-- **A day lies in its year.** -/
theorem daysBeforeYear_yearOf (d : ℕ) :
    daysBeforeYear (yearOf d) ≤ d ∧ d < daysBeforeYear (yearOf d + 1) := by
  constructor
  · exact Nat.findGreatest_spec (P := fun y => daysBeforeYear y ≤ d) (Nat.zero_le _)
      (Nat.zero_le d)
  · by_contra hle
    have hle : daysBeforeYear (yearOf d + 1) ≤ d := Nat.le_of_not_lt hle
    have hbound : yearOf d + 1 ≤ d / 365 := by
      unfold daysBeforeYear at hle
      omega
    exact Nat.findGreatest_is_greatest (P := fun y => daysBeforeYear y ≤ d)
      (Nat.lt_succ_self (yearOf d)) hbound hle

theorem yearOf_mono {d e : ℕ} (h : d ≤ e) : yearOf d ≤ yearOf e := by
  by_contra hlt
  have hyears : daysBeforeYear (yearOf e + 1) ≤ daysBeforeYear (yearOf d) :=
    daysBeforeYear_strictMono.monotone (Nat.succ_le_of_lt (Nat.lt_of_not_le hlt))
  have hd := (daysBeforeYear_yearOf d).1
  have he := (daysBeforeYear_yearOf e).2
  omega

theorem dayOfYear_lt (d : ℕ) : dayOfYear d < if isLeap (yearOf d) then 366 else 365 := by
  have hd := daysBeforeYear_yearOf d
  have hsucc := daysBeforeYear_succ (yearOf d)
  unfold dayOfYear
  omega

/-- The days of a year before a month (1 to 12). -/
def daysBeforeMonth (leap : Bool) (m : ℕ) : ℕ :=
  [0, 31, 59, 90, 120, 151, 181, 212, 243, 273, 304, 334].getD (m - 1) 0 +
    if leap ∧ 2 < m then 1 else 0

/-- The month of a day of the year. -/
def monthOf (leap : Bool) (n : ℕ) : ℕ := Nat.findGreatest (fun m => daysBeforeMonth leap m ≤ n) 12

/-- The day of the month of a day of the year. -/
def dayOfMonth (leap : Bool) (n : ℕ) : ℕ := n - daysBeforeMonth leap (monthOf leap n) + 1

theorem monthOf_le (leap : Bool) (n : ℕ) : monthOf leap n ≤ 12 := Nat.findGreatest_le 12

theorem daysBeforeMonth_monthOf (leap : Bool) (n : ℕ) :
    daysBeforeMonth leap (monthOf leap n) ≤ n :=
  Nat.findGreatest_spec (P := fun m => daysBeforeMonth leap m ≤ n) (Nat.zero_le 12) (by
    have hzero : daysBeforeMonth leap 0 = 0 := by cases leap <;> rfl
    rw [hzero]
    exact Nat.zero_le n)

theorem monthOf_mono (leap : Bool) {m n : ℕ} (h : m ≤ n) : monthOf leap m ≤ monthOf leap n :=
  Nat.findGreatest_mono_left (fun _ hk => Nat.le_trans hk h) 12

theorem dayOfMonth_le {leap : Bool} {n : ℕ} (hn : n < if leap then 366 else 365) :
    dayOfMonth leap n ≤ 31 := by
  have htable : ∀ leap : Bool, ∀ m < 12, daysBeforeMonth leap (m + 1) ≤
      daysBeforeMonth leap m + 31 := by decide
  have hlast : ∀ leap : Bool, (if leap then 366 else 365) ≤ daysBeforeMonth leap 12 + 31 := by
    decide
  unfold dayOfMonth
  rcases Nat.lt_or_eq_of_le (monthOf_le leap n) with hlt | heq
  · have hnot : ¬ daysBeforeMonth leap (monthOf leap n + 1) ≤ n :=
      Nat.findGreatest_is_greatest (P := fun m => daysBeforeMonth leap m ≤ n)
        (Nat.lt_succ_self (monthOf leap n)) hlt
    have hstep := htable leap _ hlt
    omega
  · rw [heq]
    have hlast := hlast leap
    omega

/-- **Later days have later dates.** -/
theorem date_lt {d e : ℕ} (h : d < e) :
    yearOf d < yearOf e ∨ yearOf d = yearOf e ∧
      (monthOf (isLeap (yearOf d)) (dayOfYear d) < monthOf (isLeap (yearOf e)) (dayOfYear e) ∨
        monthOf (isLeap (yearOf d)) (dayOfYear d) = monthOf (isLeap (yearOf e)) (dayOfYear e) ∧
          dayOfMonth (isLeap (yearOf d)) (dayOfYear d) <
            dayOfMonth (isLeap (yearOf e)) (dayOfYear e)) := by
  rcases Nat.lt_or_eq_of_le (yearOf_mono (Nat.le_of_lt h)) with hlt | hyear
  · exact Or.inl hlt
  · refine Or.inr ⟨hyear, ?_⟩
    have hday : dayOfYear d < dayOfYear e := by
      have hd := (daysBeforeYear_yearOf d).1
      unfold dayOfYear
      rw [← hyear]
      omega
    rw [← hyear]
    rcases Nat.lt_or_eq_of_le
      (monthOf_mono (isLeap (yearOf d)) (Nat.le_of_lt hday)) with hlt | hmonth
    · exact Or.inl hlt
    · refine Or.inr ⟨hmonth, ?_⟩
      have hle := daysBeforeMonth_monthOf (isLeap (yearOf d)) (dayOfYear d)
      unfold dayOfMonth
      rw [← hmonth]
      omega

/-- The first day of 1970, and the day after the 28th of February. -/
example : yearOf 719528 = 1970 ∧ dayOfYear 719528 = 0 ∧ monthOf true 59 = 2 ∧
    dayOfMonth true 59 = 29 ∧ monthOf false 59 = 3 ∧ dayOfMonth false 59 = 1 := by
  decide

end Calendar
