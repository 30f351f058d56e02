import RevBox.Support.Text
import RevBox.Support.Utf8

/-!
# Device — Toybox

The text tools of the phone that the scripts of the Agent pipe files through: `head -c`, `sed -n`
and `awk`, on bytes.

* `awkRecords_eq`, `lines_sedHead`: what they make of a file, told by the lines of its text.
-/

namespace RevBox.Toybox

/-- The lines of a file, each with its line end, but for a last line that has none. -/
def records : List UInt8 → List (List UInt8)
  | [] => []
  | b :: bs =>
      if b = 10 then [b] :: records bs
      else
        match records bs with
        | [] => [[b]]
        | r :: rs => (b :: r) :: rs

/-- `head -c n`. -/
def headBytes (n : Nat) (bytes : List UInt8) : List UInt8 := bytes.take n

/-- `sed -n '1,np'`. -/
def sedHead (n : Nat) (bytes : List UInt8) : List UInt8 := ((records bytes).take n).flatten

/-- `awk 'END{print NR}'`, without the line end. -/
def awkRecords (bytes : List UInt8) : Nat := (records bytes).length

variable {bs rest : List UInt8}

theorem records_of_not_mem (h : 10 ∉ bs) (hne : bs ≠ []) : records bs = [bs] := by
  induction bs with
  | nil => exact absurd rfl hne
  | cons b bs ih =>
      have hb : b ≠ 10 := fun hb => h (hb ▸ List.mem_cons_self)
      rw [records, if_neg hb]
      by_cases hbs : bs = []
      · rw [hbs]
        rfl
      · rw [ih (fun h' => h (List.mem_cons_of_mem _ h')) hbs]

theorem records_append (h : 10 ∉ bs) : records (bs ++ 10 :: rest) = (bs ++ [10]) :: records rest := by
  induction bs with
  | nil => rfl
  | cons b bs ih =>
      have hb : b ≠ 10 := fun hb => h (hb ▸ List.mem_cons_self)
      rw [List.cons_append, records, if_neg hb, ih fun h' => h (List.mem_cons_of_mem _ h')]
      rfl

/-- The part of a file has no more lines than the file. -/
theorem length_records_le (bs rest : List UInt8) :
    (records bs).length ≤ (records (bs ++ rest)).length := by
  refine Text.cut_induction (P := fun bs => (records bs).length ≤ (records (bs ++ rest)).length) 10
    (fun bs h => ?_) (fun l s hl ih => ?_) bs
  · cases bs with
    | nil => exact Nat.zero_le _
    | cons b bs =>
        rw [records_of_not_mem h (List.cons_ne_nil b bs)]
        rw [List.cons_append, records]
        split
        · simp
        · split <;> simp
  · rw [List.append_assoc, List.cons_append, records_append hl, records_append hl]
    exact Nat.succ_le_succ ih

/-- The text of bytes without a line end is one line, if there is any. -/
theorem lines_of_not_mem (h : 10 ∉ bs) (hne : bs ≠ []) :
    Text.lines (Utf8.fromUtf8Lossy bs) = [Utf8.fromUtf8Lossy bs] := by
  refine Text.lines_of_not_mem (Utf8.no_newline_fromUtf8Lossy h) fun hnil => hne ?_
  have hle := Utf8.length_le_fromUtf8Lossy bs
  rw [hnil] at hle
  exact List.length_eq_zero_iff.mp (Nat.le_zero.mp hle)

theorem lines_append (h : 10 ∉ bs) (rest : List UInt8) :
    Text.lines (Utf8.fromUtf8Lossy (bs ++ 10 :: rest)) =
      Text.chomp (Utf8.fromUtf8Lossy bs).reverse :: Text.lines (Utf8.fromUtf8Lossy rest) := by
  rw [Utf8.fromUtf8Lossy_append, Text.lines_append _ (Utf8.no_newline_fromUtf8Lossy h)]

/-- **`awk` counts the lines of the text.** -/
theorem awkRecords_eq (bs : List UInt8) :
    awkRecords bs = (Text.lines (Utf8.fromUtf8Lossy bs)).length := by
  refine Text.cut_induction (P := fun bs => awkRecords bs =
    (Text.lines (Utf8.fromUtf8Lossy bs)).length) 10 (fun bs h => ?_) (fun l s hl ih => ?_) bs
  · cases bs with
    | nil => rfl
    | cons b bs =>
        rw [awkRecords, records_of_not_mem h (List.cons_ne_nil b bs),
          lines_of_not_mem h (List.cons_ne_nil b bs)]
        rfl
  · rw [awkRecords, records_append hl, lines_append hl]
    exact congrArg Nat.succ ih

/-- **`sed` gives the first lines of the text.** -/
theorem lines_sedHead (n : Nat) (bs : List UInt8) :
    Text.lines (Utf8.fromUtf8Lossy (sedHead n bs)) =
      (Text.lines (Utf8.fromUtf8Lossy bs)).take n := by
  induction n generalizing bs with
  | zero => rfl
  | succ n ih =>
      by_cases h : 10 ∈ bs
      · obtain ⟨l, rest, rfl, hl⟩ := List.eq_append_cons_of_mem h
        have hsed : sedHead (n + 1) (l ++ 10 :: rest) = l ++ 10 :: sedHead n rest := by
          simp [sedHead, records_append hl]
        rw [hsed, lines_append hl, lines_append hl, List.take_succ_cons, ih]
      · cases bs with
        | nil => rfl
        | cons b bs =>
            have hsed : sedHead (n + 1) (b :: bs) = b :: bs := by
              simp [sedHead, records_of_not_mem h (List.cons_ne_nil b bs)]
            rw [hsed, lines_of_not_mem h (List.cons_ne_nil b bs), List.take_of_length_le (by simp)]

end RevBox.Toybox
