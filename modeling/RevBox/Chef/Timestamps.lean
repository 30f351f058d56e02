import RevBox.Chef.Calendar
import RevBox.Chef.Data

/-!
# Chef — Timestamps

The operations `unixToDate` and `dateToUnix` of `services/chef/ops/text.rs`.

* `formatUnix_eq`: `format_unix` writes the civil time of an instant.
-/

namespace RevBox.Chef

open Gregorian

/-! ### Numbers -/

/-- `str::parse` into a signed integer of so many bits. -/
def parseInt (bits : Nat) (s : List Char) : Option Int :=
  let (negative, ds) := match s with
    | '-' :: rest => (true, rest)
    | '+' :: rest => (false, rest)
    | s => (false, s)
  if ds = [] || !ds.all Text.isAsciiDigit then none
  else if negative then
    if Text.digits ds ≤ 2 ^ (bits - 1) then some (-(Text.digits ds : Int)) else none
  else if Text.digits ds < 2 ^ (bits - 1) then some (Text.digits ds)
  else none

/-- A signed integer, as `{}` writes it. -/
def decimalInt (n : Int) : List Char :=
  if n < 0 then '-' :: Text.decimal n.natAbs else Text.decimal n.natAbs

/-- A number, as `{:0width}` writes it. -/
def padded (width n : Nat) : List Char :=
  List.replicate (width - (Text.decimal n).length) '0' ++ Text.decimal n

/-- `as i64`. -/
def asI64 (n : Int) : Int := (n + 2 ^ 63) % 2 ^ 64 - 2 ^ 63

/-- `as u32`. -/
def asU32 (n : Int) : Nat := (n % 2 ^ 32).toNat

/-! ### Writing -/

/-- The zone at the end of a time, for so many minutes. -/
def zoneText (offsetMinutes : Int) : List Char :=
  if offsetMinutes = 0 then ['Z']
  else
    let absolute := offsetMinutes.natAbs
    (if offsetMinutes < 0 then '-' else '+') ::
      (padded 2 (absolute / 60) ++ ':' :: padded 2 (absolute % 60))

/-- A time of day. -/
def clockText (secondOfDay : Nat) : List Char :=
  padded 2 (secondOfDay / 3600) ++ ':' :: (padded 2 (secondOfDay % 3600 / 60) ++
    ':' :: padded 2 (secondOfDay % 60))

/-- A date. -/
def dateText (year : Int) (month day : Nat) : List Char :=
  padded 4 year.toNat ++ '-' :: (padded 2 month ++ '-' :: padded 2 day)

/-- `format_unix`.  What `civil_from_days` is given here does not overflow (`civil_local`). -/
def formatUnix (seconds offsetMinutes : Int) : Option (List Char) := do
  let shifted ← i64 (seconds + (← i64 (offsetMinutes * 60)))
  let (year, month, day) ← civilFromDays (shifted / 86400)
  let secondOfDay := (shifted % 86400).toNat
  if 0 ≤ year ∧ year ≤ 9999 then
    some (dateText year month day ++ 'T' :: (clockText secondOfDay ++ zoneText offsetMinutes))
  else none

/-- `TIME_UNITS`. -/
def timeUnits : List String := ["seconds", "milliseconds", "microseconds", "nanoseconds"]

/-- `DATE_TIME_UNITS`. -/
def dateTimeUnits : List String := ["seconds", "milliseconds"]

/-- `divisor_of`. -/
def divisorOf (unit : String) : ChefResult Int :=
  match unit with
  | "seconds" => .ok 1
  | "milliseconds" => .ok 1000
  | "microseconds" => .ok 1000000
  | "nanoseconds" => .ok 1000000000
  | other => .error (fail s!"未知的时间单位「{other}」")

/-- The four lines that `unix_to_date` writes. -/
def unixReport (shown utc : List Char) (seconds : Int) : List Char :=
  "本地 ".toList ++ (shown ++ ("\nUTC   ".toList ++ (utc ++ ("\n秒    ".toList ++
    (decimalInt seconds ++ ("\n毫秒  ".toList ++ decimalInt (seconds * 1000)))))))

/-- `unix_to_date`. -/
def unixToDate (data : ChefData) (args : Args) : ChefResult ChefData := do
  let unit ← args.choiceIn "unit" "milliseconds" timeUnits
  let divisor ← divisorOf unit
  let raw := (Text.trim (← data.text)).filter (· ≠ '_')
  match parseInt 128 raw with
  | none =>
      let shown := String.ofList raw
      .error (fail s!"「{shown}」不是整数时间戳（十进制；毫秒级 13 位、秒级 10 位）")
  | some number =>
      let seconds := asI64 (number.tdiv divisor)
      let offset := asI64 (← args.number "offsetMinutes" 0)
      match formatUnix seconds offset with
      | none => .error (fail "换算结果落在公元 0–9999 之外：先确认单位没选错")
      | some shown =>
          .ok (.fromText (unixReport shown ((formatUnix seconds 0).getD []) seconds))

/-! ### The civil time of an instant -/

/-- The date of an instant lies in the years from 0 to 9999. -/
def InYears (instant : Int) : Prop :=
  0 ≤ (ofNumber (instant / 86400)).1 ∧ (ofNumber (instant / 86400)).1 ≤ 9999

instance (instant : Int) : Decidable (InYears instant) := inferInstanceAs (Decidable (_ ∧ _))

/-- The civil time of an instant, shifted by an offset, where its year has four digits. -/
def civilTime (seconds offsetMinutes : Int) : Option (List Char) :=
  let shifted := seconds + offsetMinutes * 60
  let (year, month, day) := ofNumber (shifted / 86400)
  if InYears shifted then
    some (dateText year month day ++
      'T' :: (clockText (shifted % 86400).toNat ++ zoneText offsetMinutes))
  else none

variable {n seconds offset : Int} {data : ChefData} {args : Args}

/-- The days of the years from 0 to 9999. -/
theorem inYears_bounds (h : InYears n) : -10 ^ 6 < n / 86400 ∧ n / 86400 < 10 ^ 7 := by
  obtain ⟨hlow, hhigh⟩ := h
  have hdate := isDate_ofNumber (n / 86400)
  have hback := toNumber_ofNumber (n / 86400)
  have hd := (dayOfYear hdate).2.2
  have hm := hdate.month_le
  generalize ofNumber (n / 86400) = r at hlow hhigh hback hd hm
  obtain ⟨y, m, d⟩ := r
  dsimp only at hlow hhigh hback hd hm
  have hmarch : -1 ≤ marchYear y m ∧ marchYear y m ≤ 9999 := by
    unfold marchYear
    split_ifs <;> omega
  have hindex : monthStart (monthIndex m) ≤ 337 := by
    unfold monthStart monthIndex
    split_ifs <;> omega
  have hstart : yearStart (marchYear y m % 400).toNat ≤ 146097 := by
    unfold yearStart
    omega
  rw [toNumber] at hback
  omega

/-- What `format_unix` gives `civil_from_days` does not overflow. -/
theorem civil_local (h : InI64 n) : civilFromDays (n / 86400) = some (ofNumber (n / 86400)) := by
  rw [inI64_iff] at h
  exact (civilFromDays_some (inI64_iff.mpr (by omega))).mpr ⟨rfl, inI64_iff.mpr (by omega)⟩

/-- **`format_unix` writes the civil time**, where the offset in seconds fits. -/
theorem formatUnix_eq (seconds offset : Int) :
    formatUnix seconds offset = if InI64 (offset * 60) then civilTime seconds offset else none := by
  rw [formatUnix, civilTime]
  by_cases ho : InI64 (offset * 60)
  · rw [if_pos ho, i64_of_inI64 ho]
    simp only [bind, Option.bind_some]
    by_cases hs : InI64 (seconds + offset * 60)
    · rw [i64_of_inI64 hs, Option.bind_some, civil_local hs, Option.bind_some]
      rfl
    · rw [i64, if_neg hs, Option.bind_none, if_neg]
      intro hyears
      have := inYears_bounds hyears
      exact hs (inI64_iff.mpr (by omega))
  · rw [if_neg ho, i64, if_neg ho]
    rfl

/-! ### Digits -/

theorem digits_append (s t : List Char) :
    Text.digits (s ++ t) = t.foldl (fun n c => 10 * n + (c.toNat - 0x30)) (Text.digits s) :=
  List.foldl_append

theorem digits_decimal (n : Nat) : Text.digits (Text.decimal n) = n :=
  Nat.ofDigitChars_ten_toDigits

theorem digits_padded (width n : Nat) : Text.digits (padded width n) = n := by
  have hzeros (k : Nat) : Text.digits (List.replicate k '0') = 0 := by
    induction k with
    | zero => rfl
    | succ k ih => rw [List.replicate_succ', digits_append, ih]; rfl
  rw [padded, digits_append, hzeros]
  exact digits_decimal n

theorem length_padded {width n : Nat} (hw : 0 < width) (h : n < 10 ^ width) :
    (padded width n).length = width := by
  have hle : (Text.decimal n).length ≤ width :=
    (Nat.length_toDigits_le_iff (by decide) hw).mpr h
  rw [padded, List.length_append, List.length_replicate]
  omega

theorem isAsciiDigit_of_mem_padded {width n : Nat} {c : Char} (h : c ∈ padded width n) :
    Text.isAsciiDigit c = true := by
  rcases List.mem_append.mp h with h | h
  · rw [List.eq_of_mem_replicate h]
    rfl
  · exact Text.isAsciiDigit_of_mem_decimal h

/-- Texts of one length that start with numbers of one width. -/
theorem padded_append_inj {width m n : Nat} (hw : 0 < width) (hm : m < 10 ^ width)
    (hn : n < 10 ^ width) {s t : List Char} (h : padded width m ++ s = padded width n ++ t) :
    m = n ∧ s = t := by
  obtain ⟨hhead, htail⟩ := List.append_inj h (by rw [length_padded hw hm, length_padded hw hn])
  refine ⟨?_, htail⟩
  rw [← digits_padded width m, hhead, digits_padded]

/-- A date and a time of day are read off their text. -/
theorem stamp_inj {y y' : Int} {m m' d d' t t' : Nat} (hy : 0 ≤ y ∧ y ≤ 9999)
    (hy' : 0 ≤ y' ∧ y' ≤ 9999) (hm : m ≤ 12) (hm' : m' ≤ 12) (hd : d ≤ 31) (hd' : d' ≤ 31)
    (ht : t < 86400) (ht' : t' < 86400) {zone zone' : List Char}
    (h : dateText y m d ++ 'T' :: (clockText t ++ zone) =
      dateText y' m' d' ++ 'T' :: (clockText t' ++ zone')) :
    y = y' ∧ m = m' ∧ d = d' ∧ t = t' ∧ zone = zone' := by
  simp only [dateText, clockText, List.append_assoc, List.cons_append] at h
  obtain ⟨hyear, h⟩ := padded_append_inj (by decide) (by omega) (by omega) h
  obtain ⟨hmonth, h⟩ := padded_append_inj (by decide) (by omega) (by omega)
    (List.cons_inj_right _ |>.mp h)
  obtain ⟨hday, h⟩ := padded_append_inj (by decide) (by omega) (by omega)
    (List.cons_inj_right _ |>.mp h)
  obtain ⟨hhour, h⟩ := padded_append_inj (by decide) (by omega) (by omega)
    (List.cons_inj_right _ |>.mp h)
  obtain ⟨hminute, h⟩ := padded_append_inj (by decide) (by omega) (by omega)
    (List.cons_inj_right _ |>.mp h)
  obtain ⟨hsecond, h⟩ := padded_append_inj (by decide) (by omega) (by omega)
    (List.cons_inj_right _ |>.mp h)
  exact ⟨by omega, hmonth, hday, by omega, h⟩

/-! ### From a number -/

/-- What there is to answer for an instant and an offset. -/
def unixAnswer (seconds offsetMinutes : Int) : ChefResult ChefData :=
  match civilTime seconds offsetMinutes with
  | none => .error (fail "换算结果落在公元 0–9999 之外：先确认单位没选错")
  | some shown =>
      .ok (.fromText (unixReport shown ((civilTime seconds 0).getD []) seconds))

/-- Where the narrowings of `unix_to_date` do no harm, for a number, the divisor of its unit and an
offset.  Within the years the quotient is exact or rounded down and nothing leaves an `i64`; outside
of them what the narrowed values come to is outside as well. -/
def Unharmed (number divisor : Int) (offset : Nat) : Prop :=
  if InYears (number / divisor + offset * 60) then
    (divisor ∣ number ∨ 0 ≤ number) ∧ InI64 (number / divisor) ∧ InI64 (offset * 60)
  else ¬ (InI64 (asI64 offset * 60) ∧
    InYears (asI64 (number.tdiv divisor) + asI64 offset * 60))

instance (number divisor : Int) (offset : Nat) : Decidable (Unharmed number divisor offset) :=
  inferInstanceAs (Decidable (ite _ _ _))

theorem asI64_of_inI64 (h : InI64 n) : asI64 n = n := by
  rw [inI64_iff] at h
  rw [asI64]
  omega

theorem inI64_asI64 (n : Int) : InI64 (asI64 n) := by
  rw [inI64_iff, asI64]
  omega

theorem civilTime_eq_none :
    civilTime seconds offset = none ↔ ¬ InYears (seconds + offset * 60) := by
  rw [civilTime]
  split_ifs with h
  · simp [h]
  · simp [h]

/-- What `civil_time` wrote. -/
theorem civilTime_some {shown : List Char} (h : civilTime seconds offset = some shown) :
    InYears (seconds + offset * 60) ∧
      ∃ y m d, ofNumber ((seconds + offset * 60) / 86400) = (y, m, d) ∧ shown = dateText y m d ++
        'T' :: (clockText ((seconds + offset * 60) % 86400).toNat ++ zoneText offset) := by
  rw [civilTime] at h
  split_ifs at h with hyears
  exact ⟨hyears, _, _, _, rfl, (Option.some.inj h).symm⟩

/-- A shifted instant, and that its offset is not negative, are read off what is written for it. -/
theorem unixReport_inj {seconds' offset' : Int} {shown shown' utc utc' : List Char}
    (ho : 0 ≤ offset) (h : civilTime seconds offset = some shown)
    (h' : civilTime seconds' offset' = some shown')
    (heq : unixReport shown utc seconds = unixReport shown' utc' seconds') :
    seconds + offset * 60 = seconds' + offset' * 60 ∧ 0 ≤ offset' := by
  obtain ⟨hyears, y, m, d, hn, rfl⟩ := civilTime_some h
  obtain ⟨hyears', y', m', d', hn', rfl⟩ := civilTime_some h'
  have hdate := isDate_ofNumber ((seconds + offset * 60) / 86400)
  have hdate' := isDate_ofNumber ((seconds' + offset' * 60) / 86400)
  rw [InYears, hn] at hyears
  rw [InYears, hn'] at hyears'
  rw [hn] at hdate
  rw [hn'] at hdate'
  have hshown := List.append_cancel_left heq
  rw [List.append_assoc, List.append_assoc, List.cons_append, List.cons_append, List.append_assoc,
    List.append_assoc] at hshown
  obtain ⟨hy, hm, hd, ht, hzone⟩ := stamp_inj hyears hyears' hdate.month_le hdate'.month_le
    (dayOfYear hdate).2.2 (dayOfYear hdate').2.2 (by omega) (by omega) hshown
  have hdays : (seconds + offset * 60) / 86400 = (seconds' + offset' * 60) / 86400 := by
    rw [← toNumber_ofNumber ((seconds + offset * 60) / 86400), hn, hy, hm, hd,
      ← toNumber_ofNumber ((seconds' + offset' * 60) / 86400), hn']
  refine ⟨by omega, Int.not_lt.mp fun hneg => ?_⟩
  -- the zone of a negative offset starts with another sign
  have hhead := congrArg List.head? hzone
  rw [zoneText, zoneText, if_neg hneg.ne, if_pos hneg] at hhead
  split_ifs at hhead with h0 hneg'
  · cases hhead
  · omega
  · cases hhead

/-- The divisors. -/
theorem divisorOf_pos {unit : String} {d : Int} (h : divisorOf unit = .ok d) : 0 < d := by
  unfold divisorOf at h
  split at h <;> cases h <;> decide

/-- What a call reads before it computes. -/
structure Given (data : ChefData) (args : Args) (number divisor : Int) (offset : Nat) : Prop where
  unit : args.choiceIn "unit" "milliseconds" timeUnits >>= divisorOf = .ok divisor
  number : ∃ text, data.text = .ok text ∧
    parseInt 128 ((Text.trim text).filter (· ≠ '_')) = some number
  offset : args.number "offsetMinutes" 0 = .ok offset

theorem Given.divisor_pos {d : Int} {o : Nat} (h : Given data args n d o) : 0 < d := by
  have hunit := h.unit
  cases hc : args.choiceIn "unit" "milliseconds" timeUnits with
  | error e => rw [hc] at hunit; cases hunit
  | ok unit => rw [hc] at hunit; exact divisorOf_pos hunit

/-- What a call answers: the civil time of what the narrowings leave. -/
theorem unixToDate_eq {d : Int} {o : Nat} (h : Given data args n d o) :
    unixToDate data args =
      if InI64 (asI64 o * 60) then unixAnswer (asI64 (n.tdiv d)) (asI64 o)
      else .error (fail "换算结果落在公元 0–9999 之外：先确认单位没选错") := by
  obtain ⟨hunit, ⟨text, htext, hn⟩, ho⟩ := h
  have hzero : InI64 (0 * 60) := inI64_iff.mpr (by omega)
  cases hc : args.choiceIn "unit" "milliseconds" timeUnits with
  | error e => rw [hc] at hunit; cases hunit
  | ok unit =>
      rw [hc, ok_bind] at hunit
      unfold unixToDate
      rw [hc, ok_bind, hunit, ok_bind, htext, ok_bind]
      simp only [hn]
      rw [ho, ok_bind, formatUnix_eq, formatUnix_eq _ 0, if_pos hzero]
      split_ifs with hfits
      · rw [unixAnswer]
      · rfl

/-- The quotient rounded toward zero. -/
theorem tdiv_eq_iff {d : Int} (hd : 0 < d) : n.tdiv d = n / d ↔ d ∣ n ∨ 0 ≤ n := by
  rw [Int.tdiv_eq_ediv, Int.sign_eq_one_of_pos hd]
  split_ifs with h
  · simpa [or_comm] using h
  · have hne : ¬ (d ∣ n ∨ 0 ≤ n) := fun h' => h h'.symm
    simp only [hne, iff_false]
    omega

/-- What is answered is read off it. -/
theorem unixAnswer_inj {seconds' offset' : Int} (ho : 0 ≤ offset)
    (hyears : InYears (seconds + offset * 60))
    (h : unixAnswer seconds' offset' = unixAnswer seconds offset) :
    seconds + offset * 60 = seconds' + offset' * 60 ∧ 0 ≤ offset' := by
  have hsome : civilTime seconds offset ≠ none := fun hn => civilTime_eq_none.mp hn hyears
  obtain ⟨shown, hshown⟩ := Option.ne_none_iff_exists'.mp hsome
  rw [unixAnswer, unixAnswer, hshown] at h
  cases hshown' : civilTime seconds' offset' with
  | none => rw [hshown'] at h; cases h
  | some shown' =>
      rw [hshown'] at h
      exact unixReport_inj ho hshown hshown' (fromText_inj (Except.ok.inj h)).symm

theorem unixAnswer_error : unixAnswer seconds offset =
    .error (fail "换算结果落在公元 0–9999 之外：先确认单位没选错") ↔
      ¬ InYears (seconds + offset * 60) := by
  rw [← civilTime_eq_none, unixAnswer]
  cases civilTime seconds offset with
  | none => simp only
  | some shown => simp only [reduceCtorEq]

/-- **When `unixToDate` answers with the instant of the number**: exactly where its narrowings do no
harm. -/
theorem unixToDate_faithful_iff {d : Int} {o : Nat} (h : Given data args n d o) :
    unixToDate data args = unixAnswer (n / d) o ↔ Unharmed n d o := by
  have hd := h.divisor_pos
  have hlt : o < 2 ^ 64 := Args.number_lt (by decide) h.offset
  have hs' := inI64_iff.mp (inI64_asI64 (n.tdiv d))
  rw [unixToDate_eq h, Unharmed]
  by_cases hyears : InYears (n / d + o * 60)
  · rw [if_pos hyears]
    constructor
    · intro heq
      split_ifs at heq with hfits
      · obtain ⟨hinstant, hpos⟩ := unixAnswer_inj (Int.natCast_nonneg o) hyears heq
        have ho : asI64 o = o := by
          rw [asI64] at hpos ⊢
          omega
        rw [ho] at hinstant hfits
        have hq : asI64 (n.tdiv d) = n / d := by omega
        refine ⟨(tdiv_eq_iff hd).mp ?_, hq ▸ inI64_asI64 _, hfits⟩
        -- the quotient is the one rounded down or the next one
        have hnext : n.tdiv d = n / d ∨ n.tdiv d = n / d + 1 := by
          rw [Int.tdiv_eq_ediv, Int.sign_eq_one_of_pos hd]
          split_ifs <;> omega
        rw [asI64] at hq
        omega
      · exact absurd hyears (unixAnswer_error.mp heq.symm)
    · rintro ⟨hquot, hs, hfits⟩
      have ho : asI64 o = o := asI64_of_inI64 (by
        rw [inI64_iff] at hfits ⊢
        omega)
      rw [ho, if_pos hfits, (tdiv_eq_iff hd).mpr hquot, asI64_of_inI64 hs]
  · rw [if_neg hyears, unixAnswer_error.mpr hyears]
    split_ifs with hfits
    · rw [unixAnswer_error]
      simp only [hfits, true_and]
    · simp only [hfits, false_and, not_false_eq_true]

/-- A time of 2026, eight hours ahead. -/
theorem unixToDate_faithful_example :
    unixToDate (.fromText "1767225600000".toList) ⟨[("offsetMinutes", "480")]⟩ =
      unixAnswer (1767225600000 / 1000) 480 :=
  (unixToDate_faithful_iff ⟨rfl, ⟨_, text_fromText _, by decide⟩, by decide⟩).mpr (by decide)

/-- A millisecond before the epoch is answered with the epoch, not with the second before it. -/
theorem unixToDate_truncates :
    Given (.fromText ['-', '1']) ⟨[]⟩ (-1) 1000 0 ∧
      unixToDate (.fromText ['-', '1']) ⟨[]⟩ ≠ unixAnswer (-1 / 1000) 0 := by
  have hgiven : Given (.fromText ['-', '1']) ⟨[]⟩ (-1) 1000 0 :=
    ⟨rfl, ⟨_, text_fromText _, by decide⟩, rfl⟩
  refine ⟨hgiven, fun h => ?_⟩
  rw [unixToDate_eq hgiven, if_pos (by decide)] at h
  obtain ⟨hinstant, -⟩ := unixAnswer_inj (Int.le_refl 0) (by decide) h
  revert hinstant
  decide

end RevBox.Chef
