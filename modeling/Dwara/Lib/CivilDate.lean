import Mathlib.Data.Int.Notation

/-! Civil dates of the proleptic Gregorian calendar, counted in days from 1970-01-01.
Years start in March and are grouped into eras of 400 years. -/

namespace Dwara.Lib.CivilDate

/-- The year a day of an era falls in. -/
def yearOfEra (doe : ℤ) : ℤ := (doe - doe / 1460 + doe / 36524 - doe / 146096) / 365

/-- The first day of a year of an era. -/
def yearStart (yoe : ℤ) : ℤ := 365 * yoe + yoe / 4 - yoe / 100

/-- The first day of a month of a year that starts in March. -/
def monthStart (mp : ℤ) : ℤ := (153 * mp + 2) / 5

def monthOfYear (doy : ℤ) : ℤ := (5 * doy + 2) / 153

/-- Year, month and day of a day. -/
def civilFromDays (z : ℤ) : ℤ × ℤ × ℤ :=
  let z := z + 719468
  let era := z / 146097
  let doe := z % 146097
  let yoe := yearOfEra doe
  let y := yoe + era * 400
  let doy := doe - yearStart yoe
  let mp := monthOfYear doy
  let d := doy - monthStart mp + 1
  let m := if mp < 10 then mp + 3 else mp - 9
  (if m ≤ 2 then y + 1 else y,m,d)

/-- The day of a year, month and day. -/
def daysFromCivil (y m d : ℤ) : ℤ :=
  let y := if m ≤ 2 then y - 1 else y
  let era := y / 400
  let yoe := y % 400
  let mp := if m > 2 then m - 3 else m + 9
  let doy := monthStart mp + d - 1
  let doe := yearStart yoe + doy
  era * 146097 + doe - 719468

section Era
variable {doe : ℤ} (h₀ : 0 ≤ doe) (h₁ : doe < 146097)
include h₀ h₁

theorem yearOfEra_bounds : 0 ≤ yearOfEra doe ∧ yearOfEra doe < 400 := by
  rw [yearOfEra]
  omega

/-- A day falls within the year it is assigned to. -/
theorem dayOfYear_bounds : 0 ≤ doe - yearStart (yearOfEra doe) ∧ doe - yearStart (yearOfEra doe) ≤ 365 := by
  rw [yearStart]
  generalize hyear : yearOfEra doe = yoe
  rw [yearOfEra] at hyear
  have hcentury : doe / 36524 = 0 ∨ doe / 36524 = 1 ∨ doe / 36524 = 2 ∨ doe / 36524 = 3 ∨ doe / 36524 = 4 := by omega
  have hlast : doe / 146096 = 0 ∨ doe / 146096 = 1 := by omega
  have hyears : yoe / 100 = 0 ∨ yoe / 100 = 1 ∨ yoe / 100 = 2 ∨ yoe / 100 = 3 := by omega
  rcases hcentury with hc | hc | hc | hc | hc <;> rcases hlast with hl | hl <;> rw [hc,hl] at hyear <;>
    rcases hyears with hy | hy | hy | hy <;> omega

/-- A day comes before the year after its own, the last day of an era apart. -/
theorem lt_yearStart_succ : yearOfEra doe < 399 → doe < yearStart (yearOfEra doe + 1) := by
  rw [yearStart]
  generalize hyear : yearOfEra doe = yoe
  intro hlast
  rw [yearOfEra] at hyear
  have hcentury : doe / 36524 = 0 ∨ doe / 36524 = 1 ∨ doe / 36524 = 2 ∨ doe / 36524 = 3 ∨ doe / 36524 = 4 := by omega
  have hlast : doe / 146096 = 0 ∨ doe / 146096 = 1 := by omega
  have hyears : (yoe + 1) / 100 = 0 ∨ (yoe + 1) / 100 = 1 ∨ (yoe + 1) / 100 = 2 ∨ (yoe + 1) / 100 = 3 := by omega
  rcases hcentury with hc | hc | hc | hc | hc <;> rcases hlast with hl | hl <;> rw [hc,hl] at hyear <;>
    rcases hyears with hy | hy | hy | hy <;> omega

end Era

theorem dayOfMonth_bounds (doy : ℤ) : 0 ≤ doy - monthStart (monthOfYear doy) ∧ doy - monthStart (monthOfYear doy) ≤ 30 := by
  rw [monthStart,monthOfYear]
  omega

/-- A date assembled from an era, a year of it, a month and a day. -/
private theorem daysFromCivil_parts {era yoe mp : ℤ} (d : ℤ) (hyoe : 0 ≤ yoe ∧ yoe < 400) (hmp : 0 ≤ mp ∧ mp ≤ 11) :
    daysFromCivil (if (if mp < 10 then mp + 3 else mp - 9) ≤ 2 then yoe + era * 400 + 1 else yoe + era * 400)
      (if mp < 10 then mp + 3 else mp - 9) d = era * 146097 + (yearStart yoe + (monthStart mp + d - 1)) - 719468 := by
  have hera : (yoe + era * 400) / 400 = era := by omega
  have hyear : (yoe + era * 400) % 400 = yoe := by omega
  rw [daysFromCivil]
  by_cases hmonth : mp < 10
  · have hm : ¬ mp + 3 ≤ 2 := by omega
    have hm' : mp + 3 > 2 := by omega
    simp only [if_pos hmonth,if_neg hm,if_pos hm',hera,hyear,Int.add_sub_cancel]
  · have hm : mp - 9 ≤ 2 := by omega
    have hm' : ¬ mp - 9 > 2 := by omega
    simp only [if_neg hmonth,if_pos hm,if_neg hm',Int.add_sub_cancel,hera,hyear,Int.sub_add_cancel]

/-- Any day of the month of `z`, counted from `z`. -/
theorem daysFromCivil_civilFromDays (z d : ℤ) :
    daysFromCivil (civilFromDays z).1 (civilFromDays z).2.1 d = z - (civilFromDays z).2.2 + d := by
  have h₀ : 0 ≤ (z + 719468) % 146097 := by omega
  have h₁ : (z + 719468) % 146097 < 146097 := by omega
  have hyoe := yearOfEra_bounds h₀ h₁
  have hdoy := dayOfYear_bounds h₀ h₁
  have hz : (z + 719468) % 146097 + (z + 719468) / 146097 * 146097 = z + 719468 := by omega
  rw [civilFromDays]
  simp only
  generalize yearOfEra ((z + 719468) % 146097) = yoe at *
  generalize hmonth : monthOfYear ((z + 719468) % 146097 - yearStart yoe) = mp
  have hmp : 0 ≤ mp ∧ mp ≤ 11 := by
    rw [monthOfYear] at hmonth
    omega
  rw [daysFromCivil_parts d hyoe hmp]
  omega

theorem civilFromDays_day (z : ℤ) : 1 ≤ (civilFromDays z).2.2 ∧ (civilFromDays z).2.2 ≤ 31 := by
  have hday := dayOfMonth_bounds ((z + 719468) % 146097 - yearStart (yearOfEra ((z + 719468) % 146097)))
  rw [civilFromDays]
  simp only
  omega

/-- The civil date determines the day. -/
theorem daysFromCivil_round_trip (z : ℤ) :
    daysFromCivil (civilFromDays z).1 (civilFromDays z).2.1 (civilFromDays z).2.2 = z := by
  rw [daysFromCivil_civilFromDays]
  omega

theorem civilFromDays_month (z : ℤ) : 1 ≤ (civilFromDays z).2.1 ∧ (civilFromDays z).2.1 ≤ 12 := by
  have hdoy := @dayOfYear_bounds ((z + 719468) % 146097) (by omega) (by omega)
  have hmonth : 0 ≤ monthOfYear ((z + 719468) % 146097 - yearStart (yearOfEra ((z + 719468) % 146097))) ∧
      monthOfYear ((z + 719468) % 146097 - yearStart (yearOfEra ((z + 719468) % 146097))) ≤ 11 := by
    rw [monthOfYear]
    omega
  rw [civilFromDays]
  simp only
  split <;> omega

section Order

theorem yearStart_mono {a b : ℤ} (h : a ≤ b) : yearStart a ≤ yearStart b := by
  rw [yearStart,yearStart]
  omega

theorem monthOfYear_mono {a b : ℤ} (h : a ≤ b) : monthOfYear a ≤ monthOfYear b := by
  rw [monthOfYear,monthOfYear]
  omega

/-- One date comes before another. -/
def Before (a b : ℤ × ℤ × ℤ) : Prop :=
  a.1 < b.1 ∨ a.1 = b.1 ∧ (a.2.1 < b.2.1 ∨ a.2.1 = b.2.1 ∧ a.2.2 < b.2.2)

/-- Days of one era come in the order of their years. -/
theorem yearOfEra_mono {a b : ℤ} (h₀ : 0 ≤ a) (hab : a ≤ b) (h₁ : b < 146097) : yearOfEra a ≤ yearOfEra b := by
  rcases Int.lt_or_le (yearOfEra b) (yearOfEra a) with hlt | hle
  · have hyears := (yearOfEra_bounds h₀ (by omega)).2
    have hend := lt_yearStart_succ (by omega) h₁ (by omega)
    have hstart := (dayOfYear_bounds h₀ (by omega)).1
    have hmono := yearStart_mono (a := yearOfEra b + 1) (b := yearOfEra a) (by omega)
    omega
  · exact hle

/-- The date of a day of a month of a year that starts in March. -/
private def dateOf (y mp d : ℤ) : ℤ × ℤ × ℤ :=
  (if (if mp < 10 then mp + 3 else mp - 9) ≤ 2 then y + 1 else y,if mp < 10 then mp + 3 else mp - 9,d)

private theorem dateOf_before {y mp d y' mp' d' : ℤ} (hmp : 0 ≤ mp ∧ mp ≤ 11) (hmp' : 0 ≤ mp' ∧ mp' ≤ 11)
    (h : y < y' ∨ y = y' ∧ (mp < mp' ∨ mp = mp' ∧ d < d')) : Before (dateOf y mp d) (dateOf y' mp' d') := by
  rw [Before,dateOf,dateOf]
  simp only
  by_cases hm : mp < 10 <;> by_cases hm' : mp' < 10 <;> simp only [hm,hm',if_true,if_false] <;> omega

/-- A later day has a later date. -/
theorem civilFromDays_before {z w : ℤ} (h : z < w) : Before (civilFromDays z) (civilFromDays w) := by
  have hz₀ : 0 ≤ (z + 719468) % 146097 := by omega
  have hz₁ : (z + 719468) % 146097 < 146097 := by omega
  have hw₀ : 0 ≤ (w + 719468) % 146097 := by omega
  have hw₁ : (w + 719468) % 146097 < 146097 := by omega
  have hdoy := dayOfYear_bounds hz₀ hz₁
  have hdoy' := dayOfYear_bounds hw₀ hw₁
  apply dateOf_before
  · rw [monthOfYear]
    omega
  · rw [monthOfYear]
    omega
  · have hz := yearOfEra_bounds hz₀ hz₁
    have hw := yearOfEra_bounds hw₀ hw₁
    rcases Int.lt_or_le ((z + 719468) / 146097) ((w + 719468) / 146097) with hera | hera
    · omega
    · have hyear := yearOfEra_mono hz₀ (b := (w + 719468) % 146097) (by omega) hw₁
      rcases Int.lt_or_eq_of_le hyear with hlt | heq
      · omega
      · rw [heq]
        have hmonth := monthOfYear_mono (a := (z + 719468) % 146097 - yearStart (yearOfEra ((w + 719468) % 146097)))
          (b := (w + 719468) % 146097 - yearStart (yearOfEra ((w + 719468) % 146097))) (by omega)
        rcases Int.lt_or_eq_of_le hmonth with hlt | hmp
        · omega
        · rw [hmp]
          omega

end Order
end Dwara.Lib.CivilDate
