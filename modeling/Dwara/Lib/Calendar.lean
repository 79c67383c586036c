import Dwara.Lib.CivilDate
import Mathlib.Order.Monotone.Basic
import Mathlib.Data.Int.Order.Basic

/-! The Gregorian calendar itself: its valid dates, the day after each, and that the
day numbers of `CivilDate` count exactly these. -/

namespace Dwara.Lib.CivilDate

def IsLeap (y : ℤ) : Prop := y % 4 = 0 ∧ (y % 100 ≠ 0 ∨ y % 400 = 0)

instance (y : ℤ) : Decidable (IsLeap y) := inferInstanceAs (Decidable (_ ∧ _))

def daysInMonth (y m : ℤ) : ℤ :=
  if m = 2 then if IsLeap y then 29 else 28
  else if m = 4 ∨ m = 6 ∨ m = 9 ∨ m = 11 then 30 else 31

/-- A year, month and day that the calendar has. -/
def ValidDate (t : ℤ × ℤ × ℤ) : Prop :=
  (1 ≤ t.2.1 ∧ t.2.1 ≤ 12) ∧ 1 ≤ t.2.2 ∧ t.2.2 ≤ daysInMonth t.1 t.2.1

instance (t : ℤ × ℤ × ℤ) : Decidable (ValidDate t) := inferInstanceAs (Decidable (_ ∧ _))

/-- The month after a month of a year. -/
def nextMonth (y m : ℤ) : ℤ × ℤ := if m = 12 then (y + 1,1) else (y,m + 1)

/-- The date after a date. -/
def nextDate (t : ℤ × ℤ × ℤ) : ℤ × ℤ × ℤ :=
  if t.2.2 < daysInMonth t.1 t.2.1 then (t.1,t.2.1,t.2.2 + 1)
  else ((nextMonth t.1 t.2.1).1,(nextMonth t.1 t.2.1).2,1)

theorem nextMonth_month {y m : ℤ} (h₀ : 1 ≤ m) (h₁ : m ≤ 12) : 1 ≤ (nextMonth y m).2 ∧ (nextMonth y m).2 ≤ 12 := by
  rw [nextMonth]
  split <;> simp only <;> omega

theorem daysInMonth_pos (y m : ℤ) : 28 ≤ daysInMonth y m := by
  rw [daysInMonth]
  split
  · split <;> omega
  · split <;> omega

/-- Days of one month are numbered one after the other. -/
theorem daysFromCivil_day (y m d : ℤ) : daysFromCivil y m d = daysFromCivil y m 1 + (d - 1) := by
  simp only [daysFromCivil]
  omega

section Months
variable {y m : ℤ} (h₀ : 1 ≤ m) (h₁ : m ≤ 12)
include h₀ h₁

/-- A month is followed by the next one after as many days as it has. -/
theorem daysFromCivil_nextMonth :
    daysFromCivil (nextMonth y m).1 (nextMonth y m).2 1 = daysFromCivil y m 1 + daysInMonth y m := by
  have hmonth : m = 1 ∨ m = 2 ∨ m = 3 ∨ m = 4 ∨ m = 5 ∨ m = 6 ∨ m = 7 ∨ m = 8 ∨ m = 9 ∨ m = 10 ∨ m = 11 ∨ m = 12 := by
    omega
  rcases hmonth with rfl | rfl | rfl | rfl | rfl | rfl | rfl | rfl | rfl | rfl | rfl | rfl
  case inr.inl =>
    -- the year of an era that starts in March changes here, and with it sometimes the era
    by_cases hleap : IsLeap y
    · have hdays : daysInMonth y 2 = 29 := by simp [daysInMonth,hleap]
      rw [hdays]
      rw [IsLeap] at hleap
      simp [nextMonth,daysFromCivil,yearStart,monthStart]
      omega
    · have hdays : daysInMonth y 2 = 28 := by simp [daysInMonth,hleap]
      rw [hdays]
      rw [IsLeap] at hleap
      simp [nextMonth,daysFromCivil,yearStart,monthStart]
      omega
  all_goals
    simp [nextMonth,daysFromCivil,daysInMonth,monthStart]
    try omega

end Months

/-- A year that starts in March and has a 366th day ends in a leap February. -/
private theorem isLeap_of_last_day {doe : ℤ} (era : ℤ) (h₀ : 0 ≤ doe) (h₁ : doe < 146097)
    (hlast : 365 ≤ doe - yearStart (yearOfEra doe)) : IsLeap (yearOfEra doe + era * 400 + 1) := by
  have hyoe := yearOfEra_bounds h₀ h₁
  have hnext := lt_yearStart_succ h₀ h₁
  generalize yearOfEra doe = yoe at *
  rw [IsLeap]
  by_cases hend : yoe < 399
  · have hlt := hnext hend
    rw [yearStart] at hlt hlast
    have hfour : (yoe + 1) / 4 = yoe / 4 + 1 := by omega
    have hcentury : (yoe + 1) / 100 = yoe / 100 := by omega
    constructor
    · omega
    · left
      omega
  · omega

/-- The date of a day is one the calendar has. -/
theorem civilFromDays_valid (z : ℤ) : ValidDate (civilFromDays z) := by
  have hday := civilFromDays_day z
  refine ⟨civilFromDays_month z,hday.1,?_⟩
  have h₀ : 0 ≤ (z + 719468) % 146097 := by omega
  have h₁ : (z + 719468) % 146097 < 146097 := by omega
  have hdoy := dayOfYear_bounds h₀ h₁
  have hleap := isLeap_of_last_day ((z + 719468) / 146097) h₀ h₁
  simp only [civilFromDays]
  generalize (z + 719468) % 146097 = doe at *
  generalize (z + 719468) / 146097 = era at *
  generalize doe - yearStart (yearOfEra doe) = doy at *
  generalize yearOfEra doe = yoe at *
  generalize hmp : monthOfYear doy = mp
  rw [monthOfYear] at hmp
  rw [monthStart]
  have hmonth : mp = 0 ∨ mp = 1 ∨ mp = 2 ∨ mp = 3 ∨ mp = 4 ∨ mp = 5 ∨ mp = 6 ∨ mp = 7 ∨ mp = 8 ∨ mp = 9 ∨ mp = 10 ∨ mp = 11 := by
    omega
  rcases hmonth with rfl | rfl | rfl | rfl | rfl | rfl | rfl | rfl | rfl | rfl | rfl | rfl
  case inr.inr.inr.inr.inr.inr.inr.inr.inr.inr.inr =>
    change doy - (153 * 11 + 2) / 5 + 1 ≤ daysInMonth (yoe + era * 400 + 1) 2
    by_cases hlast : 365 ≤ doy
    · have hfeb : daysInMonth (yoe + era * 400 + 1) 2 = 29 := by simp [daysInMonth,hleap hlast]
      omega
    · have hfeb : 28 ≤ daysInMonth (yoe + era * 400 + 1) 2 := daysInMonth_pos _ _
      omega
  all_goals
    simp [daysInMonth]
    omega

/-- The first day of a month, the months counted through from year to year. -/
def firstOfMonth (n : ℤ) : ℤ := daysFromCivil (n / 12) (n % 12 + 1) 1

theorem firstOfMonth_succ (n : ℤ) : firstOfMonth (n + 1) = firstOfMonth n + daysInMonth (n / 12) (n % 12 + 1) := by
  have hyear : (n + 1) / 12 = (nextMonth (n / 12) (n % 12 + 1)).1 := by
    rw [nextMonth]
    split <;> simp only <;> omega
  have hmonth : (n + 1) % 12 + 1 = (nextMonth (n / 12) (n % 12 + 1)).2 := by
    rw [nextMonth]
    split <;> simp only <;> omega
  rw [firstOfMonth,hyear,hmonth,daysFromCivil_nextMonth (by omega) (by omega),firstOfMonth]

theorem firstOfMonth_le {i j : ℤ} (h : i ≤ j) : firstOfMonth i ≤ firstOfMonth j := by
  have hmono : Monotone firstOfMonth := by
    apply monotone_int_of_le_succ
    intro n
    have hstep := firstOfMonth_succ n
    have hdays := daysInMonth_pos (n / 12) (n % 12 + 1)
    omega
  exact hmono h

theorem firstOfMonth_index {y m : ℤ} (h₀ : 1 ≤ m) (h₁ : m ≤ 12) :
    firstOfMonth (12 * y + m - 1) = daysFromCivil y m 1 := by
  have hy : (12 * y + m - 1) / 12 = y := by omega
  have hm : (12 * y + m - 1) % 12 + 1 = m := by omega
  rw [firstOfMonth,hy,hm]

/-- A date of an earlier month has an earlier day. -/
private theorem daysFromCivil_lt {t u : ℤ × ℤ × ℤ} (ht : ValidDate t) (hu : ValidDate u)
    (h : 12 * t.1 + t.2.1 < 12 * u.1 + u.2.1) :
    daysFromCivil t.1 t.2.1 t.2.2 < daysFromCivil u.1 u.2.1 u.2.2 := by
  obtain ⟨⟨htm₀,htm₁⟩,-,htd⟩ := ht
  obtain ⟨⟨hum₀,hum₁⟩,hud,-⟩ := hu
  have hmono := firstOfMonth_le (show 12 * t.1 + t.2.1 - 1 + 1 ≤ 12 * u.1 + u.2.1 - 1 by omega)
  have hy : (12 * t.1 + t.2.1 - 1) / 12 = t.1 := by omega
  have hm : (12 * t.1 + t.2.1 - 1) % 12 + 1 = t.2.1 := by omega
  rw [firstOfMonth_succ,firstOfMonth_index htm₀ htm₁,firstOfMonth_index hum₀ hum₁,hy,hm] at hmono
  rw [daysFromCivil_day t.1,daysFromCivil_day u.1]
  omega

/-- Two dates with one day number are the same date. -/
theorem daysFromCivil_injective {t u : ℤ × ℤ × ℤ} (ht : ValidDate t) (hu : ValidDate u)
    (h : daysFromCivil t.1 t.2.1 t.2.2 = daysFromCivil u.1 u.2.1 u.2.2) : t = u := by
  obtain hlt | hmonth | hlt := Int.lt_trichotomy (12 * t.1 + t.2.1) (12 * u.1 + u.2.1)
  · have := daysFromCivil_lt ht hu hlt
    omega
  · obtain ⟨y,m,d⟩ := t
    obtain ⟨y',m',d'⟩ := u
    obtain ⟨htm,-⟩ := ht
    obtain ⟨hum,-⟩ := hu
    simp only at *
    obtain rfl : y = y' := by omega
    obtain rfl : m = m' := by omega
    rw [daysFromCivil_day y m d,daysFromCivil_day y m d'] at h
    obtain rfl : d = d' := by omega
    rfl
  · have := daysFromCivil_lt hu ht hlt
    omega

/-- The day determines the civil date, and every valid date comes from its day. -/
theorem civilFromDays_daysFromCivil {t : ℤ × ℤ × ℤ} (ht : ValidDate t) :
    civilFromDays (daysFromCivil t.1 t.2.1 t.2.2) = t :=
  daysFromCivil_injective (civilFromDays_valid _) ht (daysFromCivil_round_trip _)

/-- The days of a month, counted from its first. -/
theorem civilFromDays_of_month {y m z : ℤ} (h₀ : 1 ≤ m) (h₁ : m ≤ 12) (hlo : daysFromCivil y m 1 ≤ z)
    (hhi : z < daysFromCivil y m 1 + daysInMonth y m) : civilFromDays z = (y,m,z - daysFromCivil y m 1 + 1) := by
  have hvalid : ValidDate (y,m,z - daysFromCivil y m 1 + 1) := ⟨⟨h₀,h₁⟩,by simp only; omega,by simp only; omega⟩
  rw [← civilFromDays_daysFromCivil hvalid,daysFromCivil_day]
  congr 1
  simp only
  omega

theorem validDate_nextDate {t : ℤ × ℤ × ℤ} (ht : ValidDate t) : ValidDate (nextDate t) := by
  obtain ⟨hm,hd,hd'⟩ := ht
  rw [nextDate]
  split
  · exact ⟨hm,by simp only; omega,by simp only; omega⟩
  · have hdays := daysInMonth_pos (nextMonth t.1 t.2.1).1 (nextMonth t.1 t.2.1).2
    exact ⟨nextMonth_month hm.1 hm.2,by simp only; omega,by simp only; omega⟩

theorem daysFromCivil_nextDate {t : ℤ × ℤ × ℤ} (ht : ValidDate t) :
    daysFromCivil (nextDate t).1 (nextDate t).2.1 (nextDate t).2.2 = daysFromCivil t.1 t.2.1 t.2.2 + 1 := by
  obtain ⟨⟨hm₀,hm₁⟩,-,hd⟩ := ht
  rw [nextDate]
  split
  · simp only
    rw [daysFromCivil_day t.1 t.2.1 (t.2.2 + 1),daysFromCivil_day t.1 t.2.1 t.2.2]
    omega
  · simp only
    rw [daysFromCivil_nextMonth hm₀ hm₁,daysFromCivil_day t.1 t.2.1 t.2.2]
    omega

/-- The next day carries the next date: with 1970-01-01 for day zero this is the calendar. -/
theorem civilFromDays_succ (z : ℤ) : civilFromDays (z + 1) = nextDate (civilFromDays z) := by
  have hvalid := civilFromDays_valid z
  rw [← civilFromDays_daysFromCivil (validDate_nextDate hvalid),daysFromCivil_nextDate hvalid,daysFromCivil_round_trip]

theorem civilFromDays_zero : civilFromDays 0 = (1970,1,1) := by decide

end Dwara.Lib.CivilDate
