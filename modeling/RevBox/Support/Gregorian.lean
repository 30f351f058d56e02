import Mathlib.Data.Nat.Find
import Mathlib.Data.Int.Basic
import Mathlib.Tactic.IntervalCases
import Mathlib.Logic.Equiv.Defs

/-!
# Support — Gregorian

The proleptic Gregorian calendar.  Days are numbered from 1970-01-01; a year is counted from March,
so that the day that leap years add is the last one, and 400 years are an era.

* `Date.equiv`: dates and numbers are in bijection.
* `Date.number_next`: the next date has the next number.
-/

namespace Gregorian

/-! ### Dates -/

def isLeap (y : ℤ) : Bool := y % 4 = 0 && (y % 100 ≠ 0 || y % 400 = 0)

/-- The number of days of a month. -/
def monthLength (y : ℤ) (m : ℕ) : ℕ :=
  if m = 2 then if isLeap y then 29 else 28
  else if m = 4 ∨ m = 6 ∨ m = 9 ∨ m = 11 then 30 else 31

/-- A year, a month and a day that there is. -/
structure IsDate (y : ℤ) (m d : ℕ) : Prop where
  month_pos : 1 ≤ m
  month_le : m ≤ 12
  day_pos : 1 ≤ d
  day_le : d ≤ monthLength y m

instance (y : ℤ) (m d : ℕ) : Decidable (IsDate y m d) :=
  decidable_of_iff (1 ≤ m ∧ m ≤ 12 ∧ 1 ≤ d ∧ d ≤ monthLength y m)
    ⟨fun h => ⟨h.1, h.2.1, h.2.2.1, h.2.2.2⟩, fun h => ⟨h.1, h.2, h.3, h.4⟩⟩

structure Date where
  year : ℤ
  month : ℕ
  day : ℕ
  isDate : IsDate year month day

/-- The day after a date. -/
def next (y : ℤ) (m d : ℕ) : ℤ × ℕ × ℕ :=
  if d < monthLength y m then (y, m, d + 1)
  else if m < 12 then (y, m + 1, 1)
  else (y + 1, 1, 1)

theorem isDate_next {y : ℤ} {m d : ℕ} (h : IsDate y m d) :
    IsDate (next y m d).1 (next y m d).2.1 (next y m d).2.2 := by
  obtain ⟨h1, h2, h3, h4⟩ := h
  have hpos (y : ℤ) (m : ℕ) : 1 ≤ monthLength y m := by
    unfold monthLength
    split_ifs <;> decide
  rw [next]
  split_ifs with hd hm
  · exact ⟨h1, h2, Nat.le_add_left 1 d, hd⟩
  · exact ⟨Nat.le_add_left 1 m, hm, Nat.le_refl 1, hpos _ _⟩
  · exact ⟨Nat.le_refl 1, Nat.le_add_left 1 11, Nat.le_refl 1, hpos _ _⟩

/-! ### Years of an era -/

/-- The days of an era before a year of it, from March on. -/
def yearStart (yoe : ℕ) : ℕ := yoe * 365 + yoe / 4 - yoe / 100

/-- The days of a year of an era: the last one ends with the era. -/
def yearEnd (yoe : ℕ) : ℕ := if yoe = 399 then 146097 else yearStart (yoe + 1)

/-- The year of a day of an era. -/
def yearOfEra (doe : ℕ) : ℕ := (doe - doe / 1460 + doe / 36524 - doe / 146096) / 365

/-- Within an era, a later day is in no earlier year. -/
theorem yearOfEra_le {a b : ℕ} (hab : a ≤ b) (hb : b < 146097) : yearOfEra a ≤ yearOfEra b := by
  induction b, hab using Nat.le_induction with
  | base => exact Nat.le_refl _
  | succ b hab ih =>
      refine (ih (Nat.lt_of_succ_lt hb)).trans (Nat.div_le_div_right ?_)
      rcases Nat.lt_or_ge (b + 1) 146096 with h | h
      · have hlast : (b + 1) / 146096 = 0 := Nat.div_eq_of_lt h
        have hlast' : b / 146096 = 0 := Nat.div_eq_of_lt (Nat.lt_of_succ_lt h)
        omega
      · obtain rfl : b = 146095 := by omega
        decide

/-- The first and the last day of each year of an era are in it. -/
theorem yearOfEra_ends : ∀ yoe < 400, yearOfEra (yearStart yoe) = yoe ∧
    yearOfEra (yearEnd yoe - 1) = yoe ∧ yearStart yoe < yearEnd yoe := by
  decide +kernel

theorem yearEnd_le {yoe : ℕ} (h : yoe < 400) : yearEnd yoe ≤ 146097 := by
  rw [yearEnd, yearStart]
  split <;> omega

/-- The days of a year of an era are in it. -/
theorem yearOfEra_eq {yoe doe : ℕ} (hy : yoe < 400) (hstart : yearStart yoe ≤ doe)
    (hend : doe < yearEnd yoe) : yearOfEra doe = yoe := by
  obtain ⟨hfirst, hlast, -⟩ := yearOfEra_ends yoe hy
  have hle := yearEnd_le hy
  refine Nat.le_antisymm ?_ ?_
  · rw [← hlast]
    exact yearOfEra_le (by omega) (by omega)
  · calc yoe = yearOfEra (yearStart yoe) := hfirst.symm
      _ ≤ yearOfEra doe := yearOfEra_le hstart (by omega)

/-- Each day of an era is in a year of it. -/
theorem exists_year {doe : ℕ} (h : doe < 146097) :
    ∃ yoe < 400, yearStart yoe ≤ doe ∧ doe < yearEnd yoe := by
  let P : ℕ → Prop := fun yoe => yearStart yoe ≤ doe
  have hP : P (Nat.findGreatest P 399) := Nat.findGreatest_spec (Nat.zero_le 399) (Nat.zero_le doe)
  have hle : Nat.findGreatest P 399 ≤ 399 := Nat.findGreatest_le 399
  refine ⟨Nat.findGreatest P 399, Nat.lt_succ_of_le hle, hP, ?_⟩
  rw [yearEnd]
  split_ifs with hlast
  · exact h
  · have hlt : Nat.findGreatest P 399 + 1 ≤ 399 := Nat.lt_of_le_of_ne hle hlast
    exact Nat.lt_of_not_le (Nat.findGreatest_is_greatest (P := P) (Nat.lt_succ_self _) hlt)

/-- The length of a year of an era. -/
theorem yearEnd_sub {yoe : ℕ} (h : yoe < 400) : yearEnd yoe = yearStart yoe +
    (if (yoe + 1) % 4 = 0 ∧ ((yoe + 1) % 100 ≠ 0 ∨ (yoe + 1) % 400 = 0) then 366 else 365) := by
  unfold yearEnd yearStart
  split_ifs <;> omega

/-! ### Months, from March on -/

/-- March is 0. -/
def monthIndex (m : ℕ) : ℕ := if m > 2 then m - 3 else m + 9

/-- The days of a year before a month. -/
def monthStart (mp : ℕ) : ℕ := (153 * mp + 2) / 5

/-- The month of a day of a year. -/
def monthOfYear (doy : ℕ) : ℕ := (5 * doy + 2) / 153

/-- The month of an index. -/
def monthOf (mp : ℕ) : ℕ := if mp < 10 then mp + 3 else mp - 9

theorem monthOf_monthIndex {m : ℕ} (h1 : 1 ≤ m) (h2 : m ≤ 12) :
    monthOf (monthIndex m) = m ∧ monthIndex m < 12 := by
  unfold monthOf monthIndex
  split_ifs <;> omega

theorem monthIndex_monthOf {mp : ℕ} (h : mp < 12) :
    monthIndex (monthOf mp) = mp ∧ 1 ≤ monthOf mp ∧ monthOf mp ≤ 12 := by
  unfold monthOf monthIndex
  split_ifs <;> omega

/-- The days of a month, the last one but for what a leap year adds. -/
theorem monthOfYear_eq {mp day : ℕ} (hday : day < 31)
    (hend : monthStart mp + day < monthStart (mp + 1)) :
    monthOfYear (monthStart mp + day) = mp := by
  unfold monthOfYear monthStart at *
  omega

theorem monthOfYear_spec (doy : ℕ) : monthStart (monthOfYear doy) ≤ doy ∧
    doy < monthStart (monthOfYear doy + 1) := by
  unfold monthOfYear monthStart
  omega

/-! ### Numbers -/

/-- The year of a date, from March on. -/
def marchYear (y : ℤ) (m : ℕ) : ℤ := if m ≤ 2 then y - 1 else y

/-- The number of a date. -/
def toNumber (y : ℤ) (m d : ℕ) : ℤ :=
  marchYear y m / 400 * 146097 +
    (yearStart (marchYear y m % 400).toNat + (monthStart (monthIndex m) + d - 1) : ℕ) - 719468

/-- The date of a number. -/
def ofNumber (n : ℤ) : ℤ × ℕ × ℕ :=
  let doe := ((n + 719468) % 146097).toNat
  let doy := doe - yearStart (yearOfEra doe)
  let month := monthOf (monthOfYear doy)
  let y := (yearOfEra doe : ℤ) + (n + 719468) / 146097 * 400
  (if month ≤ 2 then y + 1 else y, month, doy - monthStart (monthOfYear doy) + 1)

/-- The days of a year, from March on. -/
def yearLength (yoe : ℕ) : ℕ :=
  if (yoe + 1) % 4 = 0 ∧ ((yoe + 1) % 100 ≠ 0 ∨ (yoe + 1) % 400 = 0) then 366 else 365

theorem yearLength_ge (yoe : ℕ) : 365 ≤ yearLength yoe ∧ yearLength yoe ≤ 366 := by
  unfold yearLength
  split_ifs <;> decide

theorem isLeap_succ (y : ℤ) : isLeap (y + 1) =
    decide (((y % 400).toNat + 1) % 4 = 0 ∧
      (((y % 400).toNat + 1) % 100 ≠ 0 ∨ ((y % 400).toNat + 1) % 400 = 0)) := by
  rw [isLeap, Bool.eq_iff_iff]
  simp only [Bool.and_eq_true, Bool.or_eq_true, decide_eq_true_eq]
  omega

/-- The length of a month, from where it starts: February is as long as the year leaves it. -/
theorem monthLength_eq {y : ℤ} {m : ℕ} (h1 : 1 ≤ m) (h2 : m ≤ 12) :
    monthStart (monthIndex m) + monthLength y m =
      min (monthStart (monthIndex m + 1)) (yearLength (marchYear y m % 400).toNat) := by
  have hyear : isLeap y = decide (yearLength ((y - 1) % 400).toNat = 366) := by
    have hsucc := isLeap_succ (y - 1)
    rw [Int.sub_add_cancel] at hsucc
    rw [hsucc, yearLength]
    split_ifs with h
    · simp [h]
    · simp [h]
  have hlength (yoe : ℕ) : yearLength yoe = 365 ∨ yearLength yoe = 366 := by
    have := yearLength_ge yoe
    omega
  interval_cases m
  case «2» =>
    rcases hlength ((y - 1) % 400).toNat with h | h <;>
      simp [monthStart, monthIndex, monthLength, marchYear, hyear, h]
  all_goals
    rcases hlength (marchYear y _ % 400).toNat with h | h <;>
      rw [h] <;> rfl

/-- The day of its year that a date is, and where the year and the month end. -/
theorem dayOfYear {y : ℤ} {m d : ℕ} (h : IsDate y m d) :
    monthStart (monthIndex m) + d - 1 < monthStart (monthIndex m + 1) ∧
      monthStart (monthIndex m) + d - 1 < yearLength (marchYear y m % 400).toNat ∧ d ≤ 31 := by
  have hlength := monthLength_eq (y := y) h.month_pos h.month_le
  have hle : monthLength y m ≤ 31 := by
    unfold monthLength
    split_ifs <;> decide
  have hpos := h.day_pos
  have hday := h.day_le
  omega

/-- **Back from the number of a date.** -/
theorem ofNumber_toNumber {y : ℤ} {m d : ℕ} (h : IsDate y m d) :
    ofNumber (toNumber y m d) = (y, m, d) := by
  obtain ⟨hmonth, hyear, hd⟩ := dayOfYear h
  have hpos := h.day_pos
  obtain ⟨hm, hmp⟩ := monthOf_monthIndex h.month_pos h.month_le
  have hyoe : (marchYear y m % 400).toNat < 400 := by omega
  have hend := yearEnd_sub hyoe
  have hle := yearEnd_le hyoe
  rw [← yearLength] at hend
  -- the day of the era
  have hdoe : ((toNumber y m d + 719468) % 146097).toNat =
      yearStart (marchYear y m % 400).toNat + (monthStart (monthIndex m) + d - 1) := by
    rw [toNumber]
    omega
  have hera : (toNumber y m d + 719468) / 146097 = marchYear y m / 400 := by
    rw [toNumber]
    omega
  have hyears : yearOfEra (yearStart (marchYear y m % 400).toNat +
      (monthStart (monthIndex m) + d - 1)) = (marchYear y m % 400).toNat :=
    yearOfEra_eq hyoe (Nat.le_add_right _ _) (by omega)
  have hmonths : monthOfYear (monthStart (monthIndex m) + d - 1) = monthIndex m := by
    rw [Nat.add_sub_assoc hpos] at hmonth ⊢
    exact monthOfYear_eq (by omega) hmonth
  rw [ofNumber, hdoe, hera, hyears, Nat.add_sub_cancel_left, hmonths, hm]
  have hy : ((marchYear y m % 400).toNat : ℤ) + marchYear y m / 400 * 400 = marchYear y m := by
    omega
  rw [hy, marchYear]
  refine Prod.ext ?_ (Prod.ext rfl ?_)
  · dsimp only
    split_ifs
    · exact Int.sub_add_cancel y 1
    · rfl
  · dsimp only
    omega

/-- What the day of an era is, in years and months. -/
theorem doe_spec {doe : ℕ} (h : doe < 146097) : yearOfEra doe < 400 ∧
    yearStart (yearOfEra doe) ≤ doe ∧
    doe - yearStart (yearOfEra doe) < yearLength (yearOfEra doe) := by
  obtain ⟨yoe, hyoe, hstart, hend⟩ := exists_year h
  rw [yearOfEra_eq hyoe hstart hend]
  rw [yearEnd_sub hyoe, ← yearLength] at hend
  omega

theorem monthOfYear_lt {doy yoe : ℕ} (h : doy < yearLength yoe) : monthOfYear doy < 12 := by
  have hlength := (yearLength_ge yoe).2
  unfold monthOfYear
  omega

/-- A number as an era, a year of it, a month of the year and a day of the month. -/
theorem ofNumber_parts (n : ℤ) : ∃ (era : ℤ) (yoe mp day : ℕ),
    n + 719468 = era * 146097 + (yearStart yoe + (monthStart mp + day) : ℕ) ∧ yoe < 400 ∧
      monthStart mp + day < yearLength yoe ∧ mp < 12 ∧
      monthStart mp + day < monthStart (mp + 1) ∧
      ofNumber n = (if monthOf mp ≤ 2 then yoe + era * 400 + 1 else yoe + era * 400,
        monthOf mp, day + 1) := by
  have hdoe : ((n + 719468) % 146097).toNat < 146097 := by omega
  obtain ⟨hyoe, hstart, hdoy⟩ := doe_spec hdoe
  obtain ⟨hlow, hhigh⟩ := monthOfYear_spec
    (((n + 719468) % 146097).toNat - yearStart (yearOfEra ((n + 719468) % 146097).toNat))
  refine ⟨(n + 719468) / 146097, yearOfEra ((n + 719468) % 146097).toNat, _, _ - _, ?_, hyoe, ?_,
    monthOfYear_lt hdoy, ?_, rfl⟩
  · rw [Nat.add_sub_cancel' hlow, Nat.add_sub_cancel' hstart]
    omega
  · rwa [Nat.add_sub_cancel' hlow]
  · rwa [Nat.add_sub_cancel' hlow]

/-- The year of the date of a number, from March on. -/
theorem marchYear_of (y : ℤ) (m : ℕ) : marchYear (if m ≤ 2 then y + 1 else y) m = y := by
  rw [marchYear]
  split_ifs
  · exact Int.add_sub_cancel y 1
  · rfl

/-- **The date of a number is one.** -/
theorem isDate_ofNumber (n : ℤ) :
    IsDate (ofNumber n).1 (ofNumber n).2.1 (ofNumber n).2.2 := by
  obtain ⟨era, yoe, mp, day, -, hyoe, hyear, hmp, hmonth, hn⟩ := ofNumber_parts n
  obtain ⟨hindex, h1, h2⟩ := monthIndex_monthOf hmp
  rw [hn]
  refine ⟨h1, h2, Nat.le_add_left 1 day, ?_⟩
  have hlength := monthLength_eq (y := if monthOf mp ≤ 2 then yoe + era * 400 + 1
    else yoe + era * 400) h1 h2
  have hmod : (((yoe : ℤ) + era * 400) % 400).toNat = yoe := by omega
  rw [marchYear_of, hindex, hmod] at hlength
  dsimp only
  omega

/-- **Back from the date of a number.** -/
theorem toNumber_ofNumber (n : ℤ) :
    toNumber (ofNumber n).1 (ofNumber n).2.1 (ofNumber n).2.2 = n := by
  obtain ⟨era, yoe, mp, day, hnumber, hyoe, -, hmp, -, hn⟩ := ofNumber_parts n
  obtain ⟨hindex, -, -⟩ := monthIndex_monthOf hmp
  have hmod : (((yoe : ℤ) + era * 400) % 400).toNat = yoe := by omega
  have hdiv : ((yoe : ℤ) + era * 400) / 400 = era := by omega
  rw [hn, toNumber]
  dsimp only
  rw [marchYear_of, hindex, hmod, hdiv]
  omega

/-- The next year starts where the year ends. -/
theorem yearStart_succ (y : ℤ) : (y + 1) / 400 * 146097 + (yearStart ((y + 1) % 400).toNat : ℤ) =
    y / 400 * 146097 + (yearStart (y % 400).toNat + yearLength (y % 400).toNat : ℕ) := by
  have hyoe : (y % 400).toNat < 400 := by omega
  have hend := yearEnd_sub hyoe
  rw [← yearLength] at hend
  rw [← hend, yearEnd]
  split_ifs with hlast
  · have hzero : ((y + 1) % 400).toNat = 0 := by omega
    rw [hzero, yearStart]
    omega
  · have hsucc : ((y + 1) % 400).toNat = (y % 400).toNat + 1 := by omega
    rw [hsucc]
    omega

/-- The month after a month that is not the last one of its year, from March on. -/
theorem month_succ {y : ℤ} {m : ℕ} (hm : m < 12) (h2 : m ≠ 2) :
    marchYear y (m + 1) = marchYear y m ∧ monthIndex (m + 1) = monthIndex m + 1 ∧
      monthIndex m ≤ 10 := by
  unfold marchYear monthIndex
  refine ⟨?_, ?_, ?_⟩ <;> split_ifs <;> omega

/-- **The next date has the next number.** -/
theorem toNumber_next {y : ℤ} {m d : ℕ} (h : IsDate y m d) :
    toNumber (next y m d).1 (next y m d).2.1 (next y m d).2.2 = toNumber y m d + 1 := by
  have hlength := monthLength_eq (y := y) h.month_pos h.month_le
  have hyear := yearLength_ge (marchYear y m % 400).toNat
  have hpos := h.day_pos
  have hle := h.day_le
  rw [next]
  split_ifs with hd hm
  · rw [toNumber, toNumber]
    dsimp only
    omega
  · have hday : d = monthLength y m := by omega
    rw [toNumber, toNumber]
    dsimp only
    by_cases h2 : m = 2
    · subst h2
      have hstart := yearStart_succ (y - 1)
      have hfeb : marchYear y 2 = y - 1 := rfl
      have hmarch : marchYear y (2 + 1) = y := rfl
      have hindex : monthStart (monthIndex (2 + 1)) = 0 := rfl
      have hlast : monthStart (monthIndex 2 + 1) = 367 := rfl
      rw [Int.sub_add_cancel] at hstart
      rw [hfeb] at hlength hyear ⊢
      rw [hmarch, hindex]
      omega
    · obtain ⟨hmarch, hindex, hmp⟩ := month_succ (y := y) hm h2
      have hstart : monthStart (monthIndex m + 1) ≤ 337 := by
        unfold monthStart
        omega
      rw [hmarch, hindex]
      omega
  · have hmonth : m = 12 := by
      have := h.month_le
      omega
    subst hmonth
    have h31 : d = 31 := by
      have hlast : monthLength y 12 = 31 := rfl
      omega
    have hjanuary : marchYear (y + 1) 1 = marchYear y 12 := Int.add_sub_cancel y 1
    rw [toNumber, toNumber, h31]
    dsimp only
    rw [hjanuary]
    have hstart : monthStart (monthIndex 1) = 306 := rfl
    have hstart' : monthStart (monthIndex 12) = 275 := rfl
    omega

namespace Date

theorem eq_of {a b : Date} (hy : a.year = b.year) (hm : a.month = b.month)
    (hd : a.day = b.day) : a = b := by
  cases a
  cases b
  cases hy
  cases hm
  cases hd
  rfl

def number (a : Date) : ℤ := toNumber a.year a.month a.day

/-- **Dates and numbers are in bijection.** -/
def equiv : Date ≃ ℤ where
  toFun := number
  invFun n := ⟨_, _, _, isDate_ofNumber n⟩
  left_inv a := by
    have h := ofNumber_toNumber a.isDate
    exact eq_of (congrArg Prod.fst h) (congrArg (fun r => r.2.1) h) (congrArg (fun r => r.2.2) h)
  right_inv := toNumber_ofNumber

/-- The day after. -/
def next (a : Date) : Date := ⟨_, _, _, isDate_next a.isDate⟩

theorem number_next (a : Date) : a.next.number = a.number + 1 := toNumber_next a.isDate

end Date

end Gregorian
