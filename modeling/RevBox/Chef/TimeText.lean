import RevBox.Chef.Timestamps

/-!
# Chef — TimeText

The operation `dateToUnix` of `services/chef/ops/text.rs`, which reads the texts that `format_unix`
writes, and others.

* `dateToUnix_formatUnix_iff`: when a text that `format_unix` wrote is read as its instant.
* `dateToUnix_rejects_iff`: when nothing but a date and a time is read.
-/

namespace RevBox.Chef

open Gregorian

/-! ### Reading -/

/-- A number of a date. -/
def dateNumber (text : List Char) (what : String) : ChefResult Int :=
  match parseInt 64 text with
  | some n => .ok n
  | none =>
      let shown := String.ofList text
      .error (fail s!"{what}「{shown}」不是数字")

/-- The date part of a text: `年-月-日`. -/
def readDate (datePart : List Char) : ChefResult (Int × Nat × Nat) :=
  match datePart.splitOn '-' with
  | [y, m, d] => do
      let year ← dateNumber y "年"
      let month := asU32 (← dateNumber m "月")
      let day := asU32 (← dateNumber d "日")
      if ¬ (1 ≤ month ∧ month ≤ 12) ∨ ¬ (1 ≤ day ∧ day ≤ 31) then
        .error (fail s!"月/日超出范围：{month}-{day}")
      else .ok (year, month, day)
  | _ =>
      let shown := String.ofList datePart
      .error (fail s!"日期部分「{shown}」不是一段 年-月-日")

/-- Where the zone starts, if one is written: the first sign, unless nothing stands before it. -/
def zoneIndex (rest : List Char) : Option Nat :=
  (rest.findIdx? fun c => c = '+' || c = '-').filter (0 < ·)

/-- `digits.get(from..to).unwrap_or("00")`, parsed. -/
def zoneField (ds : List Char) (first last : Nat) : Nat :=
  if last ≤ ds.length then Text.digits ((ds.take last).drop first) else 0

/-- The clock of a text and the minutes that its zone is ahead. -/
def readZone (rest : List Char) (args : Args) : ChefResult (List Char × Int) :=
  match zoneIndex rest with
  | some index =>
      let sign : Int := if rest[index]? = some '-' then -1 else 1
      let ds := (rest.drop (index + 1)).filter Text.isAsciiDigit
      .ok (rest.take index, sign * (zoneField ds 0 2 * 60 + zoneField ds 2 4 : Nat))
  | none => do
      let offset ← args.number "offsetMinutes" 0
      return (Text.trimEndMatches 'Z' rest, asI64 offset)

/-- A part of a clock; 0 where there is none or it is not a number. -/
def clockAt (parts : List (List Char)) (index : Nat) : Int :=
  ((parts[index]?).bind (parseInt 64)).getD 0

/-- The hour, the minute and the second of a clock. -/
def readClock (clock : List Char) : ChefResult (Int × Int × Int) :=
  let parts := clock.splitOn ':'
  let hour := clockAt parts 0
  let minute := clockAt parts 1
  let second := clockAt parts 2
  if ¬ (0 ≤ hour ∧ hour ≤ 23) ∨ ¬ (0 ≤ minute ∧ minute ≤ 59) ∨ ¬ (0 ≤ second ∧ second ≤ 60) then
    let shown := String.ofList clock
    .error (fail s!"时间部分「{shown}」超出范围（时 0–23，分秒 0–59）")
  else .ok (hour, minute, second)

/-- What a text is read as. -/
structure Reading where
  year : Int
  month : Nat
  day : Nat
  hour : Int
  minute : Int
  second : Int
  offset : Int
  deriving DecidableEq

/-- The separators of a text, as they are read. -/
def normalise (text : List Char) : List Char :=
  ((Text.trim text).map fun c => if c = 'T' then ' ' else c).map fun c => if c = '/' then '-' else c

/-- `split_once(' ')`. -/
def splitOnce (source : List Char) : Option (List Char × List Char) :=
  match source.dropWhile (· ≠ ' ') with
  | [] => none
  | _ :: rest => some (source.takeWhile (· ≠ ' '), rest)

/-- `date_to_unix`, up to the sum. -/
def readTime (data : ChefData) (args : Args) : ChefResult Reading := do
  let source := normalise (← data.text)
  match splitOnce source with
  | none => .error (fail
      "时间要写成 2026-09-30 12:34:56Z 或 2026-09-30T12:34:56+08:00（日期与时间之间要有分隔）")
  | some (datePart, rest) =>
      let (year, month, day) ← readDate datePart
      let (clock, offset) ← readZone rest args
      let (hour, minute, second) ← readClock clock
      return ⟨year, month, day, hour, minute, second, offset⟩

/-- The seconds of a reading; `none` where an `i64` overflows. -/
def Reading.seconds (r : Reading) : Option Int := do
  let days ← i64 ((← daysFromCivil r.year r.month r.day) * 86400)
  let time ← i64 ((← i64 ((← i64 (days + r.hour * 3600)) + r.minute * 60)) + r.second)
  i64 (time - (← i64 (r.offset * 60)))

/-- The value that is written for an instant, in a unit. -/
def inUnit (unit : String) (n : Int) : Option Int :=
  if unit = "milliseconds" then i64 (n * 1000) else some n

/-- `date_to_unix`; `none` where an `i64` overflows. -/
def dateToUnix (data : ChefData) (args : Args) : Option (ChefResult ChefData) :=
  match readTime data args with
  | .error e => some (.error e)
  | .ok reading => do
      let seconds ← reading.seconds
      match args.choiceIn "unit" "seconds" dateTimeUnits with
      | .error e => some (.error e)
      | .ok unit =>
          let value ← inUnit unit seconds
          some (.ok (.fromText (decimalInt value)))

/-! ### The sum -/

variable {args : Args} {data : ChefData}

/-- The instant of a reading. -/
def Reading.total (r : Reading) : Int :=
  toNumber r.year r.month r.day * 86400 + r.hour * 3600 + r.minute * 60 + r.second - r.offset * 60

/-- The numbers of a reading are what `date_to_unix` lets through. -/
structure Reading.InRange (r : Reading) : Prop where
  month : 1 ≤ r.month ∧ r.month ≤ 12
  day : 1 ≤ r.day ∧ r.day ≤ 31
  hour : 0 ≤ r.hour ∧ r.hour ≤ 23
  minute : 0 ≤ r.minute ∧ r.minute ≤ 59
  second : 0 ≤ r.second ∧ r.second ≤ 60

/-- What the sum of a reading comes through fits in an `i64`. -/
structure Reading.Fits (r : Reading) : Prop where
  days : InI64 (toNumber r.year r.month r.day * 86400)
  time : InI64 (toNumber r.year r.month r.day * 86400 + r.hour * 3600 + r.minute * 60 + r.second)
  offset : InI64 (r.offset * 60)
  total : InI64 r.total

/-- **The seconds of a reading**, where they fit. -/
theorem Reading.seconds_some {r : Reading} (hr : r.InRange) {n : Int} :
    r.seconds = some n ↔ n = r.total ∧ r.Fits := by
  obtain ⟨hm, hd, hh, hmi, hs⟩ := hr
  unfold Reading.seconds
  simp only [bind, Option.bind_eq_some_iff, daysFromCivil_some hm.2 hd.2]
  constructor
  · rintro ⟨days, ⟨rfl, -, -⟩, a, ha, b, hb, c, hc, e, he, z, hz, hn⟩
    obtain ⟨ha', rfl⟩ := i64_some ha
    obtain ⟨hb', rfl⟩ := i64_some hb
    obtain ⟨hc', rfl⟩ := i64_some hc
    obtain ⟨he', rfl⟩ := i64_some he
    obtain ⟨hz', rfl⟩ := i64_some hz
    obtain ⟨hn', rfl⟩ := i64_some hn
    exact ⟨rfl, ha', he', hz', hn'⟩
  · rintro ⟨rfl, hdays, htime, hoffset, htotal⟩
    rw [inI64_iff] at hdays htime
    refine ⟨_, ⟨rfl, inI64_iff.mpr (by omega), inI64_iff.mpr (by omega)⟩, _,
      i64_of_inI64 (inI64_iff.mpr hdays), _, i64_of_inI64 (inI64_iff.mpr (by omega)), _,
      i64_of_inI64 (inI64_iff.mpr (by omega)), _, i64_of_inI64 (inI64_iff.mpr htime), _,
      i64_of_inI64 hoffset, i64_of_inI64 htotal⟩

/-! ### Numbers read back -/

theorem parseInt_of_digits {bits : Nat} {s : List Char} (hne : s ≠ [])
    (hd : ∀ c ∈ s, Text.isAsciiDigit c = true) (hlt : Text.digits s < 2 ^ (bits - 1)) :
    parseInt bits s = some (Text.digits s : Int) := by
  have hall : s.all Text.isAsciiDigit = true := List.all_eq_true.mpr hd
  unfold parseInt
  split
  rename_i negative ds hsign
  split at hsign
  · exact absurd (hd '-' List.mem_cons_self) (by decide)
  · exact absurd (hd '+' List.mem_cons_self) (by decide)
  · obtain ⟨rfl, rfl⟩ := Prod.mk.inj hsign
    simp [hne, hall, hlt]

theorem padded_ne_nil (width n : Nat) : padded width n ≠ [] :=
  fun h => Text.decimal_ne_nil n (List.append_eq_nil_iff.mp h).2

theorem parseInt_padded {width n : Nat} (h : n < 2 ^ 63) :
    parseInt 64 (padded width n) = some (n : Int) := by
  have hd := digits_padded width n
  rw [parseInt_of_digits (padded_ne_nil width n) (fun c hc => isAsciiDigit_of_mem_padded hc)
    (by rw [hd]; exact h), hd]

theorem not_mem_padded {width n : Nat} {c : Char} (h : Text.isAsciiDigit c = false) :
    c ∉ padded width n := fun hc => by
  rw [isAsciiDigit_of_mem_padded hc] at h
  cases h

/-! ### What the readings accept -/

theorem dateNumber_ok {text : List Char} {what : String} {n : Int} :
    dateNumber text what = .ok n ↔ parseInt 64 text = some n := by
  unfold dateNumber
  split <;> simp [*]

/-- A date part that is read, with the month and the day as written. -/
structure ReadsDate (datePart : List Char) (year month day : Int) : Prop where
  parts : ∃ y m d, datePart.splitOn '-' = [y, m, d] ∧ parseInt 64 y = some year ∧
    parseInt 64 m = some month ∧ parseInt 64 d = some day
  month_range : 1 ≤ asU32 month ∧ asU32 month ≤ 12
  day_range : 1 ≤ asU32 day ∧ asU32 day ≤ 31

theorem readDate_ok {datePart : List Char} {r : Int × Nat × Nat} : readDate datePart = .ok r ↔
    ∃ year month day, ReadsDate datePart year month day ∧ r = (year, asU32 month, asU32 day) := by
  constructor
  · intro h
    unfold readDate at h
    split at h
    · rename_i y m d hsplit
      cases hy : dateNumber y "年" with
      | error e => rw [hy] at h; cases h
      | ok year =>
          rw [hy, ok_bind] at h
          cases hm : dateNumber m "月" with
          | error e => rw [hm] at h; cases h
          | ok month =>
              rw [hm, ok_bind] at h
              cases hd : dateNumber d "日" with
              | error e => rw [hd] at h; cases h
              | ok day =>
                  rw [hd, ok_bind] at h
                  dsimp only at h
                  split_ifs at h with hrange
                  cases h
                  rw [not_or, not_not, not_not] at hrange
                  exact ⟨year, month, day, ⟨⟨y, m, d, hsplit, dateNumber_ok.mp hy,
                    dateNumber_ok.mp hm, dateNumber_ok.mp hd⟩, hrange.1, hrange.2⟩, rfl⟩
    · cases h
  · rintro ⟨year, month, day, ⟨⟨y, m, d, hsplit, hy, hm, hd⟩, hmonth, hday⟩, rfl⟩
    unfold readDate
    rw [hsplit]
    dsimp only
    rw [dateNumber_ok.mpr hy, ok_bind, dateNumber_ok.mpr hm, ok_bind, dateNumber_ok.mpr hd, ok_bind,
      if_neg (by simp only [hmonth, hday, not_true_eq_false, or_self, not_false_eq_true, and_self])]

/-- The parts of a clock are in range, where one that is missing or not a number counts as 0. -/
structure ClockRead (parts : List (List Char)) : Prop where
  hour : 0 ≤ clockAt parts 0 ∧ clockAt parts 0 ≤ 23
  minute : 0 ≤ clockAt parts 1 ∧ clockAt parts 1 ≤ 59
  second : 0 ≤ clockAt parts 2 ∧ clockAt parts 2 ≤ 60

theorem readClock_ok {clock : List Char} {r : Int × Int × Int} : readClock clock = .ok r ↔
    ClockRead (clock.splitOn ':') ∧ r = (clockAt (clock.splitOn ':') 0,
      clockAt (clock.splitOn ':') 1, clockAt (clock.splitOn ':') 2) := by
  unfold readClock
  dsimp only
  constructor
  · intro h
    split_ifs at h with hrange
    cases h
    rw [not_or, not_or, not_not, not_not, not_not] at hrange
    exact ⟨⟨hrange.1, hrange.2.1, hrange.2.2⟩, rfl⟩
  · rintro ⟨⟨hh, hm, hs⟩, rfl⟩
    rw [if_neg (by simp only [hh, hm, hs, not_true_eq_false, or_self, not_false_eq_true,
      and_self])]

/-! ### The parts of a text that `format_unix` wrote -/

/-- A date is read as it was written. -/
theorem readDate_dateText {y : Int} {m d : Nat} (hy : 0 ≤ y ∧ y ≤ 9999) (hm : 1 ≤ m ∧ m ≤ 12)
    (hd : 1 ≤ d ∧ d ≤ 31) : readDate (dateText y m d) = .ok (y, m, d) := by
  have hdash (width n : Nat) : '-' ∉ padded width n := not_mem_padded rfl
  have hsplit : (dateText y m d).splitOn '-' = [padded 4 y.toNat, padded 2 m, padded 2 d] := by
    rw [dateText, List.splitOn_append_cons_self_of_not_mem (hdash _ _),
      List.splitOn_append_cons_self_of_not_mem (hdash _ _), List.splitOn_eq_singleton (hdash _ _)]
  have hu32 {n : Nat} (hn : n ≤ 31) : asU32 (n : Int) = n := by
    rw [asU32]
    omega
  have hyear : (y.toNat : Int) = y := Int.toNat_of_nonneg hy.1
  have hmonth : asU32 (m : Int) = m := hu32 (by omega)
  refine readDate_ok.mpr ⟨y, m, d, ⟨⟨_, _, _, hsplit, ?_, parseInt_padded (by omega),
    parseInt_padded (by omega)⟩, by rwa [hmonth], by rwa [hu32 hd.2]⟩, by rw [hmonth, hu32 hd.2]⟩
  rw [parseInt_padded (by omega), hyear]

/-- A clock is read as it was written. -/
theorem readClock_clockText {t : Nat} (ht : t < 86400) : readClock (clockText t) =
    .ok ((t / 3600 : Nat), (t % 3600 / 60 : Nat), (t % 60 : Nat)) := by
  have hcolon (width n : Nat) : ':' ∉ padded width n := not_mem_padded rfl
  have hsplit : (clockText t).splitOn ':' =
      [padded 2 (t / 3600), padded 2 (t % 3600 / 60), padded 2 (t % 60)] := by
    rw [clockText, List.splitOn_append_cons_self_of_not_mem (hcolon _ _),
      List.splitOn_append_cons_self_of_not_mem (hcolon _ _), List.splitOn_eq_singleton (hcolon _ _)]
  have hat (parts : List (List Char)) (index n : Nat) (hn : n < 2 ^ 63)
      (h : parts[index]? = some (padded 2 n)) : clockAt parts index = n := by
    rw [clockAt, h, Option.bind_some, parseInt_padded hn, Option.getD_some]
  have hour := hat [padded 2 (t / 3600), padded 2 (t % 3600 / 60), padded 2 (t % 60)] 0 _
    (by omega) rfl
  have minute := hat [padded 2 (t / 3600), padded 2 (t % 3600 / 60), padded 2 (t % 60)] 1 _
    (by omega) rfl
  have second := hat [padded 2 (t / 3600), padded 2 (t % 3600 / 60), padded 2 (t % 60)] 2 _
    (by omega) rfl
  rw [readClock_ok, hsplit, hour, minute, second]
  exact ⟨⟨by omega, by omega, by omega⟩, rfl⟩

/-- A clock is written with digits and colons. -/
theorem mem_clockText {t : Nat} {c : Char} (h : c ∈ clockText t) :
    Text.isAsciiDigit c = true ∨ c = ':' := by
  simp only [clockText, List.mem_append, List.mem_cons] at h
  rcases h with h | rfl | h | rfl | h
  · exact .inl (isAsciiDigit_of_mem_padded h)
  · exact .inr rfl
  · exact .inl (isAsciiDigit_of_mem_padded h)
  · exact .inr rfl
  · exact .inl (isAsciiDigit_of_mem_padded h)

theorem not_mem_clockText {t : Nat} {c : Char} (hd : Text.isAsciiDigit c = false) (hc : c ≠ ':') :
    c ∉ clockText t := fun h => by
  rcases mem_clockText h with h | h
  · rw [hd] at h
    cases h
  · exact hc h

theorem length_clockText_pos (t : Nat) : 0 < (clockText t).length := by
  rw [clockText, List.length_append, List.length_cons]
  omega

/-- The zone starts where the clock ends. -/
theorem zoneIndex_sign {t : Nat} {sign : Char} (hs : sign = '+' ∨ sign = '-') (tail : List Char) :
    zoneIndex (clockText t ++ sign :: tail) = some (clockText t).length := by
  have hnone : (clockText t).findIdx? (fun c => c = '+' || c = '-') = none := by
    rw [List.findIdx?_eq_none_iff]
    intro c hc
    have hplus : c ≠ '+' := fun h => not_mem_clockText rfl (by decide) (h ▸ hc)
    have hminus : c ≠ '-' := fun h => not_mem_clockText rfl (by decide) (h ▸ hc)
    simp [hplus, hminus]
  have hsign : (sign :: tail).findIdx? (fun c => c = '+' || c = '-') = some 0 := by
    rcases hs with rfl | rfl <;> rfl
  have hpos := length_clockText_pos t
  rw [zoneIndex, List.findIdx?_append, hnone, hsign]
  simp [Option.filter, hpos]

/-- The minutes of a zone are read as they were written. -/
theorem zoneField_written {a : Nat} (ha : a < 6000) :
    let ds := (padded 2 (a / 60) ++ ':' :: padded 2 (a % 60)).filter Text.isAsciiDigit
    zoneField ds 0 2 = a / 60 ∧ zoneField ds 2 4 = a % 60 := by
  intro ds
  have hfilter (n : Nat) : (padded 2 n).filter Text.isAsciiDigit = padded 2 n :=
    List.filter_eq_self.mpr fun c hc => isAsciiDigit_of_mem_padded hc
  have hds : ds = padded 2 (a / 60) ++ padded 2 (a % 60) := by
    rw [show ds = (padded 2 (a / 60) ++ ':' :: padded 2 (a % 60)).filter Text.isAsciiDigit from rfl,
      List.filter_append, List.filter_cons_of_neg (by decide), hfilter, hfilter]
  have hhour : (padded 2 (a / 60)).length = 2 := length_padded (by decide) (by omega)
  have hminute : (padded 2 (a % 60)).length = 2 := length_padded (by decide) (by omega)
  rw [hds, zoneField, zoneField, List.length_append, hhour, hminute]
  refine ⟨?_, ?_⟩
  · rw [if_pos (by decide), List.take_left' hhour, List.drop_zero, digits_padded]
  · rw [if_pos (by decide), List.take_of_length_le (by rw [List.length_append]; omega),
      List.drop_left' hhour, digits_padded]

/-- A zone is read as it was written. -/
theorem readZone_signed {t : Nat} {o : Int} (ho : o ≠ 0) (habs : o.natAbs < 6000) (args : Args) :
    readZone (clockText t ++ zoneText o) args = .ok (clockText t, o) := by
  obtain ⟨hour, minute⟩ := zoneField_written habs
  obtain ⟨sign, hsign, hzone⟩ : ∃ sign : Char, (sign = '+' ∨ sign = '-') ∧
      (if o < 0 then '-' else '+') = sign := by
    split_ifs
    · exact ⟨_, .inr rfl, rfl⟩
    · exact ⟨_, .inl rfl, rfl⟩
  have hdrop (tail : List Char) : (clockText t ++ sign :: tail).drop ((clockText t).length + 1) =
      tail := by
    rw [List.append_cons]
    exact List.drop_left' (by simp)
  rw [zoneText, if_neg ho, hzone, readZone, zoneIndex_sign hsign]
  dsimp only
  rw [hdrop, hour, minute, List.getElem?_append_right (Nat.le_refl _), Nat.sub_self,
    List.take_left' rfl, List.getElem?_cons_zero, ← hzone]
  by_cases hneg : o < 0
  · rw [if_pos hneg, if_pos rfl]
    congr 2
    omega
  · rw [if_neg hneg, if_neg (by decide)]
    congr 2
    omega

/-- Without a sign the zone is the one of the arguments. -/
theorem readZone_utc (t : Nat) (args : Args) : readZone (clockText t ++ zoneText 0) args =
    (args.number "offsetMinutes" 0).map fun offset => (clockText t, asI64 offset) := by
  have hnone : (clockText t ++ ['Z']).findIdx? (fun c => c = '+' || c = '-') = none := by
    rw [List.findIdx?_eq_none_iff]
    intro c hc
    rcases List.mem_append.mp hc with hc | hc
    · have hplus : c ≠ '+' := fun h => not_mem_clockText rfl (by decide) (h ▸ hc)
      have hminus : c ≠ '-' := fun h => not_mem_clockText rfl (by decide) (h ▸ hc)
      simp [hplus, hminus]
    · rw [List.mem_singleton.mp hc]
      rfl
  have htrim : Text.trimEndMatches 'Z' (clockText t ++ ['Z']) = clockText t :=
    Text.trimEndMatches_replicate (not_mem_clockText rfl (by decide)) 1
  rw [zoneText, if_pos rfl, readZone, zoneIndex, hnone]
  dsimp only [Option.filter]
  rw [htrim]
  cases args.number "offsetMinutes" 0 with
  | error e => rfl
  | ok offset => rfl

/-- The characters that `format_unix` writes around its `T`. -/
def Plain (c : Char) : Prop :=
  Text.isAsciiDigit c = true ∨ c = '-' ∨ c = '+' ∨ c = ':' ∨ c = 'Z'

theorem Plain.kept {c : Char} (h : Plain c) : Text.isWhitespace c = false ∧ c ≠ 'T' ∧ c ≠ '/' ∧
    c ≠ ' ' := by
  rcases h with h | rfl | rfl | rfl | rfl
  · refine ⟨Text.not_whitespace_of_isAsciiDigit h, ?_, ?_, ?_⟩
    · rintro rfl
      exact absurd h (by decide)
    · rintro rfl
      exact absurd h (by decide)
    · rintro rfl
      exact absurd h (by decide)
  all_goals decide

theorem plain_dateText {y : Int} {m d : Nat} {c : Char} (h : c ∈ dateText y m d) : Plain c := by
  simp only [dateText, List.mem_append, List.mem_cons] at h
  rcases h with h | rfl | h | rfl | h
  · exact .inl (isAsciiDigit_of_mem_padded h)
  · exact .inr (.inl rfl)
  · exact .inl (isAsciiDigit_of_mem_padded h)
  · exact .inr (.inl rfl)
  · exact .inl (isAsciiDigit_of_mem_padded h)

theorem plain_zoneText {o : Int} {c : Char} (h : c ∈ zoneText o) : Plain c := by
  rw [zoneText] at h
  split_ifs at h with h0 hneg
  · rw [List.mem_singleton.mp h]
    exact .inr (.inr (.inr (.inr rfl)))
  all_goals
    simp only [List.mem_append, List.mem_cons] at h
    rcases h with rfl | h | rfl | h
    · simp [Plain]
    · exact .inl (isAsciiDigit_of_mem_padded h)
    · simp [Plain]
    · exact .inl (isAsciiDigit_of_mem_padded h)

/-- The date and the rest of a text are found. -/
theorem splitOnce_normalise {date rest : List Char} (hdate : ∀ c ∈ date, Plain c)
    (hrest : ∀ c ∈ rest, Plain c) :
    splitOnce (normalise (date ++ 'T' :: rest)) = some (date, rest) := by
  have hmap {s : List Char} (hs : ∀ c ∈ s, Plain c) :
      ((s.map fun c => if c = 'T' then ' ' else c).map fun c => if c = '/' then '-' else c) =
        s := by
    rw [List.map_map]
    refine (List.map_congr_left fun c hc => ?_).trans (List.map_id s)
    simp [(hs c hc).kept.2.1, (hs c hc).kept.2.2.1]
  have htrim : Text.trim (date ++ 'T' :: rest) = date ++ 'T' :: rest := by
    refine Text.trim_of_no_blank fun c hc => ?_
    rcases List.mem_append.mp hc with hc | hc
    · exact (hdate c hc).kept.1
    · rcases List.mem_cons.mp hc with rfl | hc
      · rfl
      · exact (hrest c hc).kept.1
  have hall : ∀ c ∈ date, decide (c ≠ ' ') = true := fun c hc =>
    decide_eq_true (hdate c hc).kept.2.2.2
  rw [normalise, htrim, List.map_append, List.map_append, hmap hdate, List.map_cons, List.map_cons,
    hmap hrest, splitOnce]
  simp only [List.dropWhile_append_of_pos hall, List.takeWhile_append_of_pos hall]
  simp

/-! ### The round trip -/

theorem decimalInt_inj {m n : Int} (h : decimalInt m = decimalInt n) : m = n := by
  have hsign (a b : Nat) : '-' :: Text.decimal a ≠ Text.decimal b := fun heq => by
    have hdigit := Text.isAsciiDigit_of_mem_decimal (n := b) (c := '-')
      (heq ▸ List.mem_cons_self)
    exact absurd hdigit (by decide)
  have hinj {a b : Nat} (heq : Text.decimal a = Text.decimal b) : a = b := by
    rw [← digits_decimal a, heq, digits_decimal]
  rw [decimalInt, decimalInt] at h
  split_ifs at h with hm hn hn
  · have := hinj (List.cons_inj_right _ |>.mp h)
    omega
  · exact absurd h (hsign _ _)
  · exact absurd h.symm (hsign _ _)
  · have := hinj h
    omega

/-- What a text is read as. -/
theorem readTime_ok {r : Reading} : readTime data args = .ok r ↔
    ∃ text datePart rest date clock offset time, data.text = .ok text ∧
      splitOnce (normalise text) = some (datePart, rest) ∧ readDate datePart = .ok date ∧
      readZone rest args = .ok (clock, offset) ∧ readClock clock = .ok time ∧
      r = ⟨date.1, date.2.1, date.2.2, time.1, time.2.1, time.2.2, offset⟩ := by
  constructor
  · intro h
    unfold readTime at h
    cases htext : data.text with
    | error e => rw [htext] at h; cases h
    | ok text =>
        rw [htext, ok_bind] at h
        dsimp only at h
        split at h
        · cases h
        · rename_i datePart rest hsplit
          cases hdate : readDate datePart with
          | error e => rw [hdate] at h; cases h
          | ok date =>
              obtain ⟨year, month, day⟩ := date
              rw [hdate, ok_bind] at h
              dsimp only at h
              cases hzone : readZone rest args with
              | error e => rw [hzone] at h; cases h
              | ok zone =>
                  obtain ⟨clock, offset⟩ := zone
                  rw [hzone, ok_bind] at h
                  dsimp only at h
                  cases hclock : readClock clock with
                  | error e => rw [hclock] at h; cases h
                  | ok time =>
                      rw [hclock, ok_bind] at h
                      cases h
                      exact ⟨text, datePart, rest, _, clock, offset, time, rfl, hsplit, hdate,
                        hzone, hclock, rfl⟩
  · rintro ⟨text, datePart, rest, ⟨year, month, day⟩, clock, offset, ⟨hour, minute, second⟩, htext,
      hsplit, hdate, hzone, hclock, rfl⟩
    unfold readTime
    rw [htext, ok_bind]
    dsimp only
    rw [hsplit]
    dsimp only
    rw [hdate, ok_bind]
    dsimp only
    rw [hzone, ok_bind]
    dsimp only
    rw [hclock, ok_bind]
    rfl

theorem dateToUnix_error (h : ∀ r, readTime data args ≠ .ok r) :
    ∃ e, dateToUnix data args = some (.error e) := by
  unfold dateToUnix
  cases hr : readTime data args with
  | error e => exact ⟨e, rfl⟩
  | ok r => exact absurd hr (h r)

/-- What comes of a reading. -/
theorem dateToUnix_of_reading {r : Reading} (h : readTime data args = .ok r) :
    dateToUnix data args = r.seconds.bind fun n =>
      match args.choiceIn "unit" "seconds" dateTimeUnits with
      | .error e => some (.error e)
      | .ok unit => (inUnit unit n).map fun v => .ok (.fromText (decimalInt v)) := by
  unfold dateToUnix
  rw [h]
  dsimp only [bind]
  refine congrArg _ (funext fun n => ?_)
  cases args.choiceIn "unit" "seconds" dateTimeUnits with
  | error e => rfl
  | ok unit =>
      dsimp only
      cases inUnit unit n <;> rfl

/-- What is read from a text that `format_unix` wrote: the instant and what its zone comes to. -/
theorem readTime_formatUnix {s o : Int} {text : List Char} (habs : o.natAbs < 6000)
    (h : formatUnix s o = some text) :
    ∃ t < 86400, ∃ reading : Int → Reading,
      (∀ off, (reading off).InRange ∧ (reading off).total = s + o * 60 - off * 60 ∧
        (InI64 (off * 60) → InI64 ((reading off).total) → (reading off).Fits)) ∧
      ∀ args r, readTime (.fromText text) args = .ok r ↔
        ∃ off, readZone (clockText t ++ zoneText o) args = .ok (clockText t, off) ∧
          r = reading off := by
  rw [formatUnix_eq] at h
  split_ifs at h
  obtain ⟨hyears, y, m, d, hn, rfl⟩ := civilTime_some h
  have hbounds := inYears_bounds hyears
  have hdate := isDate_ofNumber ((s + o * 60) / 86400)
  have hback := toNumber_ofNumber ((s + o * 60) / 86400)
  rw [InYears, hn] at hyears
  rw [hn] at hdate hback
  dsimp only at hyears hdate hback
  have hday : d ≤ 31 := (dayOfYear hdate).2.2
  obtain ⟨t, ht⟩ : ∃ t, t = ((s + o * 60) % 86400).toNat := ⟨_, rfl⟩
  have hlt : t < 86400 := by omega
  rw [← ht]
  refine ⟨t, hlt,
    fun off => ⟨y, m, d, (t / 3600 : Nat), (t % 3600 / 60 : Nat), (t % 60 : Nat), off⟩,
    fun off => ?_, fun args r => ?_⟩
  · have htotal : Reading.total ⟨y, m, d, (t / 3600 : Nat), (t % 3600 / 60 : Nat), (t % 60 : Nat),
        off⟩ = s + o * 60 - off * 60 := by
      unfold Reading.total
      dsimp only
      rw [hback]
      omega
    refine ⟨⟨⟨hdate.month_pos, hdate.month_le⟩, ⟨hdate.day_pos, hday⟩, ?_, ?_, ?_⟩, htotal, ?_⟩
    · dsimp only
      omega
    · dsimp only
      omega
    · dsimp only
      omega
    · intro hoff hsum
      refine ⟨?_, ?_, hoff, hsum⟩
      · dsimp only
        rw [hback, inI64_iff]
        omega
      · dsimp only
        rw [hback, inI64_iff]
        omega
  · have hsplit : splitOnce (normalise (dateText y m d ++ 'T' :: (clockText t ++ zoneText o))) =
        some (dateText y m d, clockText t ++ zoneText o) := by
      refine splitOnce_normalise (fun c => plain_dateText) fun c hc => ?_
      rcases List.mem_append.mp hc with hc | hc
      · rcases mem_clockText hc with hc | rfl
        · exact .inl hc
        · exact .inr (.inr (.inr (.inl rfl)))
      · exact plain_zoneText hc
    have hread := readDate_dateText hyears ⟨hdate.month_pos, hdate.month_le⟩ ⟨hdate.day_pos, hday⟩
    have hclock := readClock_clockText hlt
    have hz {z : List Char × Int} (hz : readZone (clockText t ++ zoneText o) args = .ok z) :
        z.1 = clockText t := by
      by_cases ho : o = 0
      · rw [ho, readZone_utc] at hz
        cases hnumber : args.number "offsetMinutes" 0 with
        | error e => rw [hnumber] at hz; cases hz
        | ok off => rw [hnumber] at hz; cases hz; rfl
      · rw [readZone_signed ho habs] at hz
        cases hz
        rfl
    rw [readTime_ok]
    constructor
    · rintro ⟨text, datePart, rest, date, clock, off, time, htext, hs, hd, hzone, hc, rfl⟩
      rw [text_fromText] at htext
      cases htext
      rw [hsplit] at hs
      cases hs
      rw [hread] at hd
      cases hd
      obtain rfl : clock = clockText t := hz hzone
      rw [hclock] at hc
      cases hc
      exact ⟨off, hzone, rfl⟩
    · rintro ⟨off, hzone, rfl⟩
      exact ⟨_, _, _, _, _, _, _, text_fromText _, hsplit, hread, hzone, hclock, rfl⟩

/-- **When a text that `format_unix` wrote is read as its instant**: where it has a sign before the
zone, or no other zone is asked for. -/
theorem dateToUnix_formatUnix_iff {s o : Int} {text : List Char} {args : Args} (hs : InI64 s)
    (habs : o.natAbs < 6000) (hunit : args.choiceIn "unit" "seconds" dateTimeUnits = .ok "seconds")
    (h : formatUnix s o = some text) :
    dateToUnix (.fromText text) args = some (.ok (.fromText (decimalInt s))) ↔
      o ≠ 0 ∨ args.number "offsetMinutes" 0 = .ok 0 := by
  obtain ⟨t, -, reading, hreading, hread⟩ := readTime_formatUnix habs h
  -- a zone that is read decides what comes of it
  have hzone {off : Int} (hz : readZone (clockText t ++ zoneText o) args = .ok (clockText t, off)) :
      dateToUnix (.fromText text) args = some (.ok (.fromText (decimalInt s))) ↔ off = o := by
    obtain ⟨hrange, htotal, hfits⟩ := hreading off
    rw [dateToUnix_of_reading ((hread args _).mpr ⟨off, hz, rfl⟩), Option.bind_eq_some_iff]
    simp only [hunit, inUnit, Reading.seconds_some hrange]
    constructor
    · rintro ⟨n, ⟨rfl, -⟩, hn⟩
      have hsum := decimalInt_inj (fromText_inj (Except.ok.inj (Option.some.inj hn)))
      omega
    · rintro rfl
      have hsum : (reading off).total = s := by omega
      refine ⟨s, ⟨hsum.symm, hfits (inI64_iff.mpr (by omega)) (hsum.symm ▸ hs)⟩, rfl⟩
  by_cases ho : o = 0
  · subst ho
    rw [or_iff_right fun h => h rfl]
    have hutc := readZone_utc t args
    cases hnumber : args.number "offsetMinutes" 0 with
    | error e =>
        rw [hnumber] at hutc
        have hnone : ∀ r, readTime (.fromText text) args ≠ .ok r := fun r hr => by
          obtain ⟨off, hz, -⟩ := (hread args r).mp hr
          rw [hutc] at hz
          cases hz
        obtain ⟨e', he'⟩ := dateToUnix_error hnone
        rw [he']
        simp only [Option.some.injEq, reduceCtorEq]
    | ok off =>
        rw [hnumber] at hutc
        rw [hzone hutc, Except.ok.injEq]
        have hlt := Args.number_lt (by decide) hnumber
        rw [asI64]
        omega
  · exact iff_of_true ((hzone (readZone_signed ho habs args)).mpr rfl) (.inl ho)

/-- The first second of the epoch, eight hours ahead, with another zone asked for. -/
theorem dateToUnix_formatUnix_example :
    dateToUnix (.fromText "1970-01-01T08:00:00+08:00".toList) ⟨[("offsetMinutes", "60")]⟩ =
      some (.ok (.fromText (decimalInt 0))) :=
  (dateToUnix_formatUnix_iff (o := 480) (by decide) (by decide) rfl (by decide)).mpr
    (.inl (by decide))

/-- The zone that is asked for is taken from a time that ends in `Z`. -/
theorem dateToUnix_shifts_utc :
    formatUnix 0 0 = some "1970-01-01T00:00:00Z".toList ∧
      dateToUnix (.fromText "1970-01-01T00:00:00Z".toList) ⟨[("offsetMinutes", "480")]⟩ ≠
        some (.ok (.fromText (decimalInt 0))) := by
  refine ⟨by decide, ?_⟩
  decide

/-! ### What is a date and a time -/

/-- The greatest number of a part of a clock: of the hour, the minute, the second. -/
def clockBound (index : Nat) : Int := if index = 0 then 23 else if index = 1 then 59 else 60

/-- A clock of no more than three parts, each of them a number in its range. -/
structure ClockProper (parts : List (List Char)) : Prop where
  length : parts.length ≤ 3
  numbers : ∀ index part, parts[index]? = some part →
    ∃ v, parseInt 64 part = some v ∧ 0 ≤ v ∧ v ≤ clockBound index

/-- A text names a date that there is, as it is written, and a time of day. -/
def NamesTime (source : List Char) (args : Args) : Prop :=
  ∃ datePart rest y m d year clock offset, ∃ month day : Nat,
    splitOnce source = some (datePart, rest) ∧ datePart.splitOn '-' = [y, m, d] ∧
    parseInt 64 y = some year ∧ parseInt 64 m = some (month : Int) ∧
    parseInt 64 d = some (day : Int) ∧ IsDate year month day ∧
    readZone rest args = .ok (clock, offset) ∧ ClockProper (clock.splitOn ':')

/-- A text that is read, with its month and its day as they are written. -/
structure Reads (source : List Char) (args : Args) (year month day : Int)
    (parts : List (List Char)) (offset : Int) : Prop where
  split : ∃ datePart rest clock, splitOnce source = some (datePart, rest) ∧
    ReadsDate datePart year month day ∧ readZone rest args = .ok (clock, offset) ∧
    parts = clock.splitOn ':'
  clock : ClockRead parts

/-- The reading of numbers and parts of a clock. -/
def readingOf (year month day : Int) (parts : List (List Char)) (offset : Int) : Reading :=
  ⟨year, asU32 month, asU32 day, clockAt parts 0, clockAt parts 1, clockAt parts 2, offset⟩

/-- Where what is written is what is read: the month and the day are of 32 bits, the day is one of
its month, and nothing of the clock is passed by or taken for 0. -/
structure AsWritten (year month day : Int) (parts : List (List Char)) : Prop where
  month_kept : 0 ≤ month ∧ month < 2 ^ 32
  day_kept : 0 ≤ day ∧ day < 2 ^ 32 ∧ day ≤ monthLength year month.toNat
  length : parts.length ≤ 3
  numbers : ∀ part ∈ parts, (parseInt 64 part).isSome

/-- A text that is not read, or is read as it is written, without an overflow. -/
def ReadAsWritten (source : List Char) (args : Args) : Prop :=
  ∀ year month day parts offset, Reads source args year month day parts offset →
    (readingOf year month day parts offset).Fits ∧
    ∀ unit, args.choiceIn "unit" "seconds" dateTimeUnits = .ok unit →
      (unit = "milliseconds" → InI64 ((readingOf year month day parts offset).total * 1000)) ∧
      AsWritten year month day parts

variable {source : List Char} {year month day offset : Int} {parts : List (List Char)}

theorem readTime_reads {text : List Char} {r : Reading} :
    readTime (.fromText text) args = .ok r ↔ ∃ year month day parts offset,
      Reads (normalise text) args year month day parts offset ∧
        r = readingOf year month day parts offset := by
  rw [readTime_ok]
  constructor
  · rintro ⟨text', datePart, rest, date, clock, offset, time, htext, hs, hd, hzone, hc, rfl⟩
    rw [text_fromText] at htext
    cases htext
    obtain ⟨year, month, day, hdate, rfl⟩ := readDate_ok.mp hd
    obtain ⟨hclock, rfl⟩ := readClock_ok.mp hc
    exact ⟨year, month, day, _, offset, ⟨⟨_, _, _, hs, hdate, hzone, rfl⟩, hclock⟩, rfl⟩
  · rintro ⟨year, month, day, parts, offset,
      ⟨⟨datePart, rest, clock, hs, hdate, hzone, rfl⟩, hclock⟩, rfl⟩
    exact ⟨text, datePart, rest, _, clock, offset, _, text_fromText text, hs,
      readDate_ok.mpr ⟨year, month, day, hdate, rfl⟩, hzone, readClock_ok.mpr ⟨hclock, rfl⟩, rfl⟩

theorem Reads.inRange (h : Reads source args year month day parts offset) :
    (readingOf year month day parts offset).InRange := by
  obtain ⟨⟨_, _, _, _, hdate, _, _⟩, hclock⟩ := h
  exact ⟨hdate.month_range, hdate.day_range, hclock.hour, hclock.minute, hclock.second⟩

theorem asU32_eq {n : Int} (h : 0 ≤ n ∧ n < 2 ^ 32) : asU32 n = n.toNat := by
  rw [asU32]
  omega

/-- What is read as it is written names a time. -/
theorem Reads.namesTime (h : Reads source args year month day parts offset)
    (hw : AsWritten year month day parts) : NamesTime source args := by
  obtain ⟨⟨datePart, rest, clock, hs, ⟨⟨y, m, d, hsplit, hy, hm, hd⟩, hmonth, hday⟩, hzone, rfl⟩,
    hclock⟩ := h
  obtain ⟨hw1, hw2, hlength, hnumbers⟩ := hw
  rw [asU32_eq hw1] at hmonth
  rw [asU32_eq ⟨hw2.1, hw2.2.1⟩] at hday
  refine ⟨datePart, rest, y, m, d, year, clock, offset, month.toNat, day.toNat, hs, hsplit, hy,
    ?_, ?_, ⟨hmonth.1, hmonth.2, hday.1, by omega⟩, hzone, hlength, fun index part hpart => ?_⟩
  · rw [Int.toNat_of_nonneg hw1.1, hm]
  · rw [Int.toNat_of_nonneg hw2.1, hd]
  · obtain ⟨v, hv⟩ := Option.isSome_iff_exists.mp (hnumbers part (List.mem_of_getElem? hpart))
    have hat : clockAt (clock.splitOn ':') index = v := by
      rw [clockAt, hpart, Option.bind_some, hv, Option.getD_some]
    have hindex : index < 3 := by
      have := (List.getElem?_eq_some_iff.mp hpart).1
      omega
    refine ⟨v, hv, ?_⟩
    rw [← hat]
    obtain rfl | rfl | rfl : index = 0 ∨ index = 1 ∨ index = 2 := by omega
    · exact hclock.hour
    · exact hclock.minute
    · exact hclock.second

/-- What names a time is read as it is written. -/
theorem Reads.asWritten (h : Reads source args year month day parts offset)
    (hn : NamesTime source args) : AsWritten year month day parts := by
  obtain ⟨⟨datePart, rest, clock, hs, ⟨⟨y, m, d, hsplit, hy, hm, hd⟩, -, -⟩, hzone, rfl⟩, -⟩ := h
  obtain ⟨datePart', rest', y', m', d', year', clock', offset', month', day', hs', hsplit', hy',
    hm', hd', hdate, hzone', hlength, hnumbers⟩ := hn
  rw [hs] at hs'
  cases hs'
  rw [hsplit] at hsplit'
  cases hsplit'
  rw [hy] at hy'
  rw [hm] at hm'
  rw [hd] at hd'
  rw [hzone] at hzone'
  cases hy'
  cases hm'
  cases hd'
  cases hzone'
  have hle := hdate.day_le
  have h12 := hdate.month_le
  have h31 := (dayOfYear hdate).2.2
  refine ⟨by omega, ⟨by omega, by omega, ?_⟩, hlength, fun part hpart => ?_⟩
  · rw [Int.toNat_natCast]
    exact_mod_cast hle
  · obtain ⟨index, hindex, hget⟩ := List.getElem_of_mem hpart
    obtain ⟨v, hv, -⟩ := hnumbers index part (List.getElem?_eq_some_iff.mpr ⟨hindex, hget⟩)
    rw [hv]
    rfl

/-- **When nothing but a date and a time is read**: exactly where what is read is as it is
written. -/
theorem dateToUnix_rejects_iff (text : List Char) (args : Args) :
    (dateToUnix (.fromText text) args ≠ none ∧
      ∀ out, dateToUnix (.fromText text) args = some (.ok out) →
        NamesTime (normalise text) args) ↔
      ReadAsWritten (normalise text) args := by
  constructor
  · rintro ⟨hsome, hnames⟩ year month day parts offset hreads
    have hrange := hreads.inRange
    have hresult := dateToUnix_of_reading (readTime_reads.mpr ⟨_, _, _, _, _, hreads, rfl⟩)
    cases hn : (readingOf year month day parts offset).seconds with
    | none => exact absurd (by rw [hresult, hn]; rfl) hsome
    | some n =>
        obtain ⟨rfl, hfits⟩ := (Reading.seconds_some hrange).mp hn
        refine ⟨hfits, fun unit hunit => ?_⟩
        rw [hn, Option.bind_some, hunit] at hresult
        dsimp only at hresult
        cases hv : inUnit unit (readingOf year month day parts offset).total with
        | none => exact absurd (by rw [hresult, hv]; rfl) hsome
        | some v =>
            rw [hv] at hresult
            refine ⟨?_, hreads.asWritten (hnames _ hresult)⟩
            rintro rfl
            rw [inUnit, if_pos rfl] at hv
            exact (i64_some hv).1
  · intro h
    by_cases hread : ∃ r, readTime (.fromText text) args = .ok r
    · obtain ⟨r, hr⟩ := hread
      obtain ⟨year, month, day, parts, offset, hreads, rfl⟩ := readTime_reads.mp hr
      obtain ⟨hfits, hunits⟩ := h year month day parts offset hreads
      have hresult := dateToUnix_of_reading hr
      rw [(Reading.seconds_some hreads.inRange).mpr ⟨rfl, hfits⟩, Option.bind_some] at hresult
      cases hunit : args.choiceIn "unit" "seconds" dateTimeUnits with
      | error e =>
          rw [hunit] at hresult
          rw [hresult]
          simp
      | ok unit =>
          obtain ⟨hms, hwritten⟩ := hunits unit hunit
          refine ⟨?_, fun _ _ => hreads.namesTime hwritten⟩
          rw [hunit] at hresult
          dsimp only at hresult
          have hv : inUnit unit (readingOf year month day parts offset).total ≠ none := by
            rw [inUnit]
            split_ifs with h1
            · rw [i64_of_inI64 (hms h1)]
              simp
            · simp
          rw [hresult]
          simpa using hv
    · obtain ⟨e, he⟩ := dateToUnix_error fun r hr => hread ⟨r, hr⟩
      rw [he]
      simp

/-- The end of February is passed by. -/
theorem dateToUnix_reads_february :
    dateToUnix (.fromText "2026-02-31 00:00:00".toList) ⟨[]⟩ =
        some (.ok (.fromText (decimalInt 1772496000))) ∧
      ¬ NamesTime (normalise "2026-02-31 00:00:00".toList) ⟨[]⟩ := by
  refine ⟨by decide, ?_⟩
  rintro ⟨datePart, rest, y, m, d, year, clock, offset, month, day, hs, hsplit, hy, hm, hd, hdate,
    -⟩
  obtain ⟨hdatePart, -⟩ := Prod.mk.inj (Option.some.inj (hs.symm.trans
    (by decide : _ = some ("2026-02-31".toList, "00:00:00".toList))))
  rw [hdatePart] at hsplit
  have hparts := hsplit.symm.trans
    (by decide : _ = ["2026".toList, "02".toList, "31".toList])
  simp only [List.cons.injEq, and_true] at hparts
  obtain ⟨rfl, rfl, rfl⟩ := hparts
  have hyear := Option.some.inj (hy.symm.trans (by decide : parseInt 64 "2026".toList = some 2026))
  have hmonth := Option.some.inj (hm.symm.trans (by decide : parseInt 64 "02".toList = some 2))
  have hday := Option.some.inj (hd.symm.trans (by decide : parseInt 64 "31".toList = some 31))
  obtain rfl : month = 2 := by omega
  obtain rfl : day = 31 := by omega
  have hle := hdate.day_le
  rw [hyear] at hle
  revert hle
  decide

end RevBox.Chef
