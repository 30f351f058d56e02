import RevBox.Support.Gregorian

/-!
# Chef — Calendar

`days_from_civil` and `civil_from_days` of `services/chef/ops/text.rs`, over integers of 64 bits.

* `daysFromCivil_eq`, `civilFromDays_eq`: they are the numbering of `Support/Gregorian`, where
  nothing overflows.
* `civil_bijection`.
-/

namespace RevBox.Chef

open Gregorian

/-! ### The code -/

/-- The integers of an `i64`. -/
def InI64 (n : Int) : Prop := -2 ^ 63 ≤ n ∧ n < 2 ^ 63

instance (n : Int) : Decidable (InI64 n) := inferInstanceAs (Decidable (_ ∧ _))

/-- What an operation of an `i64` comes to; `none` where it overflows. -/
def i64 (n : Int) : Option Int := if InI64 n then some n else none

/-- `as u64`. -/
def asU64 (n : Int) : Nat := (n % 2 ^ 64).toNat

/-- `days_from_civil`; `none` where an `i64` overflows. -/
def daysFromCivil (year : Int) (month day : Nat) : Option Int := do
  let y ← i64 (if month ≤ 2 then year - 1 else year)
  let era := (← i64 (if y ≥ 0 then y else y - 399)).tdiv 400
  let yoe := asU64 (← i64 (y - (← i64 (era * 400))))
  let mp := if month > 2 then month - 3 else month + 9
  let doy := (153 * mp + 2) / 5 + day - 1
  let doe := yoe * 365 + yoe / 4 - yoe / 100 + doy
  i64 ((← i64 ((← i64 (era * 146097)) + doe)) - 719468)

/-- `civil_from_days`; `none` where an `i64` overflows. -/
def civilFromDays (days : Int) : Option (Int × Nat × Nat) := do
  let z ← i64 (days + 719468)
  let era := (← i64 (if z ≥ 0 then z else z - 146096)).tdiv 146097
  let doe := asU64 (← i64 (z - (← i64 (era * 146097))))
  let yoe := (doe - doe / 1460 + doe / 36524 - doe / 146096) / 365
  let y ← i64 (yoe + (← i64 (era * 400)))
  let doy := doe - (365 * yoe + yoe / 4 - yoe / 100)
  let mp := (5 * doy + 2) / 153
  let day := doy - (153 * mp + 2) / 5 + 1
  let month := if mp < 10 then mp + 3 else mp - 9
  pure (← i64 (if month ≤ 2 then y + 1 else y), month, day)

/-! ### Without overflow -/

variable {n n' y : Int} {m d : Nat}

theorem i64_of_inI64 (h : InI64 n) : i64 n = some n := if_pos h

theorem i64_some (h : i64 n = some n') : InI64 n ∧ n = n' := by
  rw [i64] at h
  split_ifs at h with hn
  cases h
  exact ⟨hn, rfl⟩

theorem inI64_iff : InI64 n ↔ -9223372036854775808 ≤ n ∧ n < 9223372036854775808 := Iff.rfl

/-- Rounding down, by rounding toward zero. -/
theorem tdiv_shifted {k : Int} (hk : 0 < k) (y : Int) :
    (if y ≥ 0 then y else y - (k - 1)).tdiv k = y / k := by
  split_ifs with h
  · exact Int.tdiv_eq_ediv_of_nonneg h
  · have hlt := Int.emod_lt_of_pos y hk
    have hge := Int.emod_nonneg y hk.ne'
    have hy := Int.mul_ediv_add_emod y k
    have hneg : y - (k - 1) = -(k - 1 - y % k + k * -(y / k)) := by
      rw [Int.mul_neg]
      omega
    have hrest : (k - 1 - y % k) / k = 0 := Int.ediv_eq_zero_of_lt (by omega) (by omega)
    rw [hneg, Int.neg_tdiv, Int.tdiv_eq_ediv_of_nonneg (by omega),
      Int.add_mul_ediv_left _ _ hk.ne', hrest]
    omega

/-- What is left of a number after its multiple of `k`, as a `u64`. -/
theorem asU64_rest {k : Int} (hk : 0 < k) (hk' : k < 2 ^ 63) (y : Int) :
    asU64 (y - y / k * k) = (y % k).toNat := by
  have hlt := Int.emod_lt_of_pos y hk
  have hge := Int.emod_nonneg y hk.ne'
  have hrest : y - y / k * k = y % k := by
    rw [Int.mul_comm, Int.emod_def]
  rw [asU64, hrest, Int.emod_eq_of_lt hge (by omega)]

/-- **The number of a day of a month of 31 days**, where it and what it is computed from fit. -/
theorem daysFromCivil_some (hm : m ≤ 12) (hd : d ≤ 31) :
    daysFromCivil y m d = some n ↔ n = toNumber y m d ∧ InI64 n ∧ InI64 (n + 719468) := by
  have hshift := tdiv_shifted (k := 400) (by decide) (marchYear y m)
  have hrest := asU64_rest (k := 400) (by decide) (by decide) (marchYear y m)
  have hindex : monthStart (monthIndex m) ≤ 337 := by
    unfold monthStart monthIndex
    split_ifs <;> omega
  have hstart : yearStart (marchYear y m % 400).toNat ≤ 146097 := by
    unfold yearStart
    omega
  have hnumber : toNumber y m d = marchYear y m / 400 * 146097 +
      (yearStart (marchYear y m % 400).toNat + (monthStart (monthIndex m) + d - 1) : Nat)
        - 719468 := rfl
  constructor
  · intro h
    unfold daysFromCivil at h
    simp only [bind, Option.bind_eq_some_iff] at h
    obtain ⟨y', hy, s, hs, e, he, r, hr, a, ha, z, hz, hn⟩ := h
    obtain ⟨-, rfl⟩ := i64_some hy
    rw [← marchYear] at *
    obtain ⟨-, rfl⟩ := i64_some hs
    rw [show (399 : Int) = 400 - 1 from rfl, hshift] at he ha
    obtain ⟨-, rfl⟩ := i64_some he
    obtain ⟨-, rfl⟩ := i64_some hr
    obtain ⟨-, rfl⟩ := i64_some ha
    rw [hrest] at hz
    obtain ⟨hz', rfl⟩ := i64_some hz
    obtain ⟨hn', rfl⟩ := i64_some hn
    rw [Int.sub_add_cancel]
    exact ⟨rfl, hn', hz'⟩
  · rintro ⟨rfl, hn, hz⟩
    rw [inI64_iff] at hn hz
    unfold daysFromCivil
    simp only [bind, Option.bind_eq_some_iff]
    have hfits : ∀ v : Int, -10 ^ 18 < v → v < 10 ^ 18 → InI64 v := fun v _ _ =>
      inI64_iff.mpr (by omega)
    refine ⟨_, i64_of_inI64 (n := marchYear y m) (hfits _ (by omega) (by omega)), _,
      i64_of_inI64 (hfits _ (by split_ifs <;> omega) (by split_ifs <;> omega)), ?_⟩
    rw [show (399 : Int) = 400 - 1 from rfl, hshift]
    refine ⟨_, i64_of_inI64 (hfits _ (by omega) (by omega)), _,
      i64_of_inI64 (hfits _ (by omega) (by omega)), _,
      i64_of_inI64 (inI64_iff.mpr (by omega)), ?_⟩
    rw [hrest]
    refine ⟨toNumber y m d + 719468, ?_, ?_⟩
    · rw [hnumber, Int.sub_add_cancel] at hz ⊢
      exact i64_of_inI64 hz
    · rw [Int.add_sub_cancel]
      exact i64_of_inI64 hn

/-- **The date of a number**, where what it is computed from fits. -/
theorem civilFromDays_some {r : Int × Nat × Nat} (hn : InI64 n) :
    civilFromDays n = some r ↔ r = ofNumber n ∧ InI64 (n + 719468) := by
  have hshift := tdiv_shifted (k := 146097) (by decide) (n + 719468)
  have hrest := asU64_rest (k := 146097) (by decide) (by decide) (n + 719468)
  have hyear (yoe : Nat) : 365 * yoe + yoe / 4 - yoe / 100 = yearStart yoe := by
    rw [yearStart, Nat.mul_comm]
  constructor
  · intro h
    unfold civilFromDays at h
    simp only [bind, pure, Option.bind_eq_some_iff] at h
    obtain ⟨z, hz, s, hs, e, he, q, hq, k, hk, y, hy, v, hv, hr⟩ := h
    obtain ⟨hz', rfl⟩ := i64_some hz
    obtain ⟨-, rfl⟩ := i64_some hs
    rw [show (146096 : Int) = 146097 - 1 from rfl, hshift] at he hk
    obtain ⟨-, rfl⟩ := i64_some he
    obtain ⟨-, rfl⟩ := i64_some hq
    obtain ⟨-, rfl⟩ := i64_some hk
    obtain ⟨-, rfl⟩ := i64_some hy
    obtain ⟨-, rfl⟩ := i64_some hv
    rw [hrest] at hr
    simp only [hyear] at hr
    exact ⟨(Option.some.inj hr).symm, hz'⟩
  · rintro ⟨rfl, hz⟩
    rw [inI64_iff] at hn hz
    have hfits : ∀ v : Int, -10 ^ 18 < v → v < 10 ^ 18 → InI64 v := fun v _ _ =>
      inI64_iff.mpr (by omega)
    unfold civilFromDays
    simp only [bind, pure, Option.bind_eq_some_iff]
    refine ⟨_, i64_of_inI64 (inI64_iff.mpr hz), _,
      i64_of_inI64 (inI64_iff.mpr (by split_ifs <;> omega)), ?_⟩
    rw [show (146096 : Int) = 146097 - 1 from rfl, hshift]
    refine ⟨_, i64_of_inI64 (inI64_iff.mpr (by omega)), _,
      i64_of_inI64 (hfits _ (by omega) (by omega)), _,
      i64_of_inI64 (hfits _ (by omega) (by omega)), ?_⟩
    rw [hrest]
    simp only [hyear]
    refine ⟨_, i64_of_inI64 (hfits _ (by omega) (by omega)), _,
      i64_of_inI64 (hfits _ ?_ ?_), rfl⟩
    all_goals split_ifs <;> omega

/-! ### The bijection -/

/-- **Day numbers and dates of the calendar correspond.**  A number comes back from its date, which
is one; a date comes back from its number; the next date has the next number; and both are computed
wherever the number, and the number from year 0 on, fit. -/
theorem civil_bijection :
    (∀ n y m d, InI64 n → civilFromDays n = some (y, m, d) →
      IsDate y m d ∧ daysFromCivil y m d = some n) ∧
    (∀ y m d n, IsDate y m d → daysFromCivil y m d = some n →
      civilFromDays n = some (y, m, d)) ∧
    (∀ y m d n n', IsDate y m d → daysFromCivil y m d = some n →
      daysFromCivil (next y m d).1 (next y m d).2.1 (next y m d).2.2 = some n' → n' = n + 1) ∧
    (∀ n, InI64 n → ((civilFromDays n).isSome ↔ InI64 (n + 719468))) ∧
    (∀ y m d, IsDate y m d → ((daysFromCivil y m d).isSome ↔
      InI64 (toNumber y m d) ∧ InI64 (toNumber y m d + 719468))) ∧
    daysFromCivil 1970 1 1 = some 0 := by
  have hday {y : Int} {m d : Nat} (h : IsDate y m d) : d ≤ 31 := (dayOfYear h).2.2
  refine ⟨?_, ?_, ?_, ?_, ?_, by decide⟩
  · intro n y m d hn h
    obtain ⟨hr, hz⟩ := (civilFromDays_some hn).mp h
    have hdate := isDate_ofNumber n
    have hback := toNumber_ofNumber n
    rw [← hr] at hdate hback
    exact ⟨hdate, (daysFromCivil_some hdate.month_le (hday hdate)).mpr ⟨hback.symm, hn, hz⟩⟩
  · intro y m d n hdate h
    obtain ⟨hn, hfits, hz⟩ := (daysFromCivil_some hdate.month_le (hday hdate)).mp h
    refine (civilFromDays_some hfits).mpr ⟨?_, hz⟩
    rw [hn, ofNumber_toNumber hdate]
  · intro y m d n n' hdate h h'
    have hnext := isDate_next hdate
    obtain ⟨hn, -, -⟩ := (daysFromCivil_some hdate.month_le (hday hdate)).mp h
    obtain ⟨hn', -, -⟩ := (daysFromCivil_some hnext.month_le (hday hnext)).mp h'
    rw [hn', hn, toNumber_next hdate]
  · intro n hn
    rw [Option.isSome_iff_exists]
    simp only [civilFromDays_some hn, exists_and_right, exists_eq, true_and]
  · intro y m d hdate
    rw [Option.isSome_iff_exists]
    simp only [daysFromCivil_some hdate.month_le (hday hdate), exists_eq_left]

/-- The last day before the epoch, and the leap day of year 0. -/
theorem civil_bijection_example :
    (IsDate 1969 12 31 ∧ daysFromCivil 1969 12 31 = some (-1)) ∧
      civilFromDays (-719469) = some (0, 2, 29) ∧ (-719468 : Int) = -719469 + 1 ∧
      IsDate 0 3 1 :=
  ⟨civil_bijection.1 (-1) 1969 12 31 (by decide) (by decide),
    civil_bijection.2.1 0 2 29 (-719469) (by decide) (by decide),
    civil_bijection.2.2.1 0 2 29 (-719469) (-719468) (by decide) (by decide) (by decide),
    by decide⟩

end RevBox.Chef
