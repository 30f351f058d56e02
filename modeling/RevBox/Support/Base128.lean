import RevBox.Support.Numeral

/-!
# Support — Base128

Numbers in bytes of seven bits, the most significant first: every byte of a number but its last one
has its high bit set.

* `cut_encode`: the first number of a text of them is cut off as it was written.
* `value_encode`: a number is read back.
-/

namespace Base128

/-- The seven bits of a byte. -/
def payload (b : UInt8) : Nat := b.toNat % 128

/-- The number that bytes spell. -/
def value (bs : List UInt8) : Nat := Numeral.value 128 (bs.map payload)

/-- A number in as few bytes as it takes. -/
def encode (n : Nat) : List UInt8 :=
  ((Nat.digits 128 (n / 128)).reverse.map fun d => UInt8.ofNat (128 + d)) ++ [UInt8.ofNat (n % 128)]

/-- Bytes cut after each last one: the numbers, and what is left of one that is not finished. -/
def cut : (seen : List UInt8) → List UInt8 → List (List UInt8) × List UInt8
  | seen, [] => ([], seen)
  | seen, b :: bs =>
      if b.toNat < 128 then ((seen ++ [b]) :: (cut [] bs).1, (cut [] bs).2)
      else cut (seen ++ [b]) bs

@[simp] theorem value_nil : value [] = 0 := rfl

theorem value_concat (bs : List UInt8) (b : UInt8) :
    value (bs ++ [b]) = 128 * value bs + payload b := by
  rw [value, List.map_append, List.map_singleton, Numeral.value_concat, value]

/-- **A number is read back.** -/
theorem value_encode (n : Nat) : value (encode n) = n := by
  have hhigh : value ((Nat.digits 128 (n / 128)).reverse.map fun d => UInt8.ofNat (128 + d)) =
      n / 128 := by
    have hmap :
        ((Nat.digits 128 (n / 128)).reverse.map fun d => UInt8.ofNat (128 + d)).map payload =
        (Nat.digits 128 (n / 128)).reverse := by
      rw [List.map_map]
      refine (List.map_congr_left fun d hd => ?_).trans (List.map_id _)
      have hlt : d < 128 := Nat.digits_lt_base (by decide) (List.mem_reverse.mp hd)
      rw [Function.comp_apply, payload, UInt8.toNat_ofNat']
      simp only [id_eq]
      omega
    rw [value, hmap, Numeral.value_digits]
  rw [encode, value_concat, hhigh, payload, UInt8.toNat_ofNat']
  omega

/-- A number below 128 is one byte. -/
theorem encode_of_lt {n : Nat} (h : n < 128) : encode n = [UInt8.ofNat n] := by
  rw [encode, Nat.div_eq_of_lt h, Nat.digits_zero, Nat.mod_eq_of_lt h]
  rfl

/-- A number from 128 on begins with a byte that has its high bit set. -/
theorem encode_of_ge {n : Nat} (h : 128 ≤ n) : ∃ b bs, encode n = b :: bs ∧ 128 < b.toNat := by
  have hpos : 0 < n / 128 := by omega
  have hne : Nat.digits 128 (n / 128) ≠ [] := Nat.digits_ne_nil_iff_ne_zero.mpr (by omega)
  obtain ⟨d, ds, hds⟩ := List.exists_cons_of_ne_nil (List.reverse_eq_nil_iff.not.mpr hne)
  have htrim := Numeral.trimmed_digits 128 (n / 128)
  rw [hds, Numeral.trimmed_cons] at htrim
  have hlt : d < 128 :=
    Nat.digits_lt_base (by decide) (List.mem_reverse.mp (hds ▸ List.mem_cons_self))
  refine ⟨_, _, by rw [encode, hds]; rfl, ?_⟩
  rw [UInt8.toNat_ofNat']
  omega

theorem cut_high {seen hi : List UInt8} (h : ∀ b ∈ hi, 128 ≤ b.toNat) (bs : List UInt8) :
    cut seen (hi ++ bs) = cut (seen ++ hi) bs := by
  induction hi generalizing seen with
  | nil => rw [List.nil_append, List.append_nil]
  | cons b hi ih =>
      have hb := h b List.mem_cons_self
      rw [List.cons_append, cut, if_neg (by omega), ih fun c hc => h c (List.mem_cons_of_mem b hc),
        List.append_assoc, List.singleton_append]

/-- **A number is cut off as it was written.** -/
theorem cut_encode (n : Nat) (bs : List UInt8) :
    cut [] (encode n ++ bs) = (encode n :: (cut [] bs).1, (cut [] bs).2) := by
  have hhigh : ∀ b ∈ (Nat.digits 128 (n / 128)).reverse.map fun d => UInt8.ofNat (128 + d),
      128 ≤ b.toNat := by
    intro b hb
    obtain ⟨d, hd, rfl⟩ := List.mem_map.mp hb
    have hlt : d < 128 := Nat.digits_lt_base (by decide) (List.mem_reverse.mp hd)
    rw [UInt8.toNat_ofNat']
    omega
  have hlast : (UInt8.ofNat (n % 128)).toNat < 128 := by
    rw [UInt8.toNat_ofNat']
    omega
  rw [encode, List.append_assoc, cut_high hhigh, List.nil_append, List.singleton_append, cut,
    if_pos hlast]

/-- Numbers that were written one after the other. -/
theorem cut_flatMap (ns : List Nat) : cut [] (ns.flatMap encode) = (ns.map encode, []) := by
  induction ns with
  | nil => rfl
  | cons n ns ih => rw [List.flatMap_cons, cut_encode, ih, List.map_cons]

end Base128
