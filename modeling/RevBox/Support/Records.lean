import Mathlib.Algebra.GroupWithZero.Nat
import Mathlib.Data.List.Basic
import Mathlib.Data.List.Infix

/-!
# Support — Records

Records of bytes: numbers of given widths written little-endian one after the other, the number
that stands at an offset, and the last place where a pattern stands.
-/

namespace Records

/-- The low `w` bytes of a number, the lowest first. -/
def toLeBytes : Nat → Nat → List UInt8
  | 0, _ => []
  | w + 1, n => .ofNat n :: toLeBytes w (n / 256)

/-- `from_le_bytes`. -/
def fromLeBytes (bytes : List UInt8) : Nat := bytes.foldr (fun b n => b.toNat + 256 * n) 0

/-- Numbers, each with its width, one after the other. -/
def fields (fs : List (Nat × Nat)) : List UInt8 := fs.flatMap fun f => toLeBytes f.1 f.2

/-- The bytes that `fields` makes. -/
def width (fs : List (Nat × Nat)) : Nat := (fs.map Prod.fst).sum

/-- The number of `w` bytes at an offset; none where the bytes end before. -/
def numberAt (w pos : Nat) (bytes : List UInt8) : Option Nat :=
  if pos + w ≤ bytes.length then some (fromLeBytes ((bytes.drop pos).take w)) else none

/-- The last place where a pattern stands (`windows(n).rposition(..)`). -/
def rposition {α : Type} [DecidableEq α] (pattern : List α) : List α → Option Nat
  | [] => none
  | a :: rest =>
      match rposition pattern rest with
      | some i => some (i + 1)
      | none => if pattern <+: a :: rest then some 0 else none

/-! ### Numbers -/

@[simp] theorem length_toLeBytes (w n : Nat) : (toLeBytes w n).length = w := by
  induction w generalizing n with
  | zero => rfl
  | succ w ih => rw [toLeBytes, List.length_cons, ih]

/-- A number that fits its width is read back. -/
theorem fromLeBytes_toLeBytes {w n : Nat} (h : n < 256 ^ w) : fromLeBytes (toLeBytes w n) = n := by
  induction w generalizing n with
  | zero =>
      rw [Nat.pow_zero, Nat.lt_one_iff] at h
      rw [h]
      rfl
  | succ w ih =>
      have hrest : n / 256 < 256 ^ w := Nat.div_lt_of_lt_mul (by rwa [Nat.pow_succ'] at h)
      have hlow : (UInt8.ofNat n).toNat = n % 256 := UInt8.toNat_ofNat
      calc fromLeBytes (toLeBytes (w + 1) n)
          = (UInt8.ofNat n).toNat + 256 * fromLeBytes (toLeBytes w (n / 256)) := rfl
        _ = n % 256 + 256 * (n / 256) := by rw [hlow, ih hrest]
        _ = n := Nat.mod_add_div n 256

@[simp] theorem length_fields (fs : List (Nat × Nat)) : (fields fs).length = width fs := by
  induction fs with
  | nil => rfl
  | cons f fs ih =>
      rw [fields, List.flatMap_cons, List.length_append, length_toLeBytes]
      exact congrArg (f.1 + ·) ih

theorem fields_append (fs gs : List (Nat × Nat)) : fields (fs ++ gs) = fields fs ++ fields gs :=
  List.flatMap_append

theorem numberAt_eq_none_iff {w pos : Nat} {bytes : List UInt8} :
    numberAt w pos bytes = none ↔ bytes.length < pos + w := by
  rw [numberAt]
  split
  · next h => exact iff_of_false (Option.some_ne_none _) (Nat.not_lt.mpr h)
  · next h => exact iff_of_true rfl (Nat.not_le.mp h)

theorem numberAt_of_le {w pos : Nat} {bytes : List UInt8} (h : pos + w ≤ bytes.length) :
    numberAt w pos bytes = some (fromLeBytes ((bytes.drop pos).take w)) := if_pos h

/-- What stands before is skipped. -/
theorem numberAt_append_left (w pos : Nat) (before bytes : List UInt8) :
    numberAt w (before.length + pos) (before ++ bytes) = numberAt w pos bytes := by
  have hle : before.length + pos + w ≤ (before ++ bytes).length ↔ pos + w ≤ bytes.length := by
    rw [List.length_append, Nat.add_assoc, Nat.add_le_add_iff_left]
  rw [numberAt, numberAt, List.drop_length_add_append]
  simp only [hle]

/-- What follows does not matter. -/
theorem numberAt_append_right {w pos n : Nat} {bytes : List UInt8} (rest : List UInt8)
    (h : numberAt w pos bytes = some n) : numberAt w pos (bytes ++ rest) = some n := by
  have hle : pos + w ≤ bytes.length := by
    by_contra hlt
    rw [numberAt_eq_none_iff.mpr (Nat.not_le.mp hlt)] at h
    cases h
  rw [numberAt_of_le hle] at h
  rw [numberAt_of_le (by rw [List.length_append]; omega),
    List.drop_append_of_le_length (by omega),
    List.take_append_of_le_length (by rw [List.length_drop]; omega), h]

/-- The number that was written at an offset stands there. -/
theorem numberAt_fields (before after : List (Nat × Nat)) {w n : Nat} (h : n < 256 ^ w) :
    numberAt w (width before) (fields (before ++ (w, n) :: after)) = some n := by
  have hmine : numberAt w 0 (toLeBytes w n) = some n := by
    rw [numberAt_of_le (by rw [length_toLeBytes, Nat.zero_add]), List.drop_zero,
      List.take_of_length_le (length_toLeBytes w n).le, fromLeBytes_toLeBytes h]
  have hskip := numberAt_append_left w 0 (fields before) (toLeBytes w n ++ fields after)
  rw [length_fields, Nat.add_zero, numberAt_append_right _ hmine] at hskip
  rw [fields_append]
  exact hskip

/-- The number that was written as the `k`th field. -/
theorem numberAt_field (fs : List (Nat × Nat)) (k : Nat) {w n pos : Nat}
    (hk : fs[k]? = some (w, n)) (hpos : width (fs.take k) = pos) (h : n < 256 ^ w) :
    numberAt w pos (fields fs) = some n := by
  obtain ⟨hlt, hget⟩ := List.getElem?_eq_some_iff.mp hk
  have hsplit : fs = fs.take k ++ (w, n) :: fs.drop (k + 1) := by
    rw [← hget, ← List.drop_eq_getElem_cons hlt, List.take_append_drop]
  rw [← hpos]
  conv_lhs => rw [hsplit]
  rw [List.take_left' (List.length_take_of_le hlt.le)]
  exact numberAt_fields _ _ h

/-- Reading a number is reading its bytes. -/
theorem fromLeBytes_of_numberAt {w pos n : Nat} {bytes : List UInt8}
    (h : numberAt w pos bytes = some n) : fromLeBytes ((bytes.drop pos).take w) = n := by
  rw [numberAt] at h
  split at h
  · exact Option.some.inj h
  · cases h

/-! ### The last place of a pattern -/

section Rposition

variable {α : Type} [DecidableEq α] {pattern : List α}

/-- The last place in a list is the last place in its end, if there is one there. -/
theorem rposition_append {l : List α} {i : Nat} (before : List α)
    (h : rposition pattern l = some i) :
    rposition pattern (before ++ l) = some (before.length + i) := by
  induction before with
  | nil => rw [List.nil_append, h, List.length_nil, Nat.zero_add]
  | cons a before ih =>
      rw [List.cons_append, rposition, ih, List.length_cons]
      simp only [Option.some.injEq]
      omega

theorem rposition_cons_none {a : α} {rest : List α} (h : rposition pattern rest = none) :
    rposition pattern (a :: rest) = if pattern <+: a :: rest then some 0 else none := by
  rw [rposition, h]

theorem rposition_cons_some {a : α} {rest : List α} {i : Nat}
    (h : rposition pattern rest = some i) : rposition pattern (a :: rest) = some (i + 1) := by
  rw [rposition, h]

/-- Where the pattern stands. -/
theorem rposition_lt {i : Nat} : ∀ {l : List α}, rposition pattern l = some i → i < l.length
  | a :: rest, h => by
      cases hrest : rposition pattern rest with
      | none =>
          rw [rposition_cons_none hrest] at h
          split at h
          · cases h
            exact Nat.zero_lt_succ _
          · cases h
      | some j =>
          rw [rposition_cons_some hrest] at h
          cases h
          exact Nat.succ_lt_succ (rposition_lt hrest)

end Rposition

end Records
