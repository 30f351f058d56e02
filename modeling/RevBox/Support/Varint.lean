import RevBox.Support.Base128

/-!
# Support — Varint

Numbers to the base 128 with the lowest digit first: each byte but the last has its top bit set.

* `value_encode`, `isVarint_encode`: a number is read back.
* `IsVarint.append_inj`: no number starts another.
-/

namespace Varint

open Base128 (payload)

/-- The number of bytes. -/
def value (bs : List UInt8) : Nat := Nat.ofDigits 128 (bs.map payload)

/-- The bytes of one number. -/
inductive IsVarint : List UInt8 → Prop where
  | last {b : UInt8} (h : b.toNat < 128) : IsVarint [b]
  | more {b : UInt8} {bs : List UInt8} (h : 128 ≤ b.toNat) (rest : IsVarint bs) :
      IsVarint (b :: bs)

/-- A number in its shortest form. -/
def encode (n : Nat) : List UInt8 :=
  if n < 128 then [.ofNat n] else .ofNat (128 + n % 128) :: encode (n / 128)

variable {b : UInt8} {bs bs' : List UInt8}

theorem value_cons (b : UInt8) (bs : List UInt8) : value (b :: bs) = payload b + 128 * value bs :=
  Nat.ofDigits_cons

theorem value_singleton (b : UInt8) : value [b] = payload b := by
  rw [value_cons]
  rfl

theorem payload_lt (b : UInt8) : payload b < 128 := Nat.mod_lt _ (by decide)

theorem IsVarint.length_pos (h : IsVarint bs) : 0 < bs.length := by
  cases h <;> exact Nat.succ_pos _

/-- **No number starts another.** -/
theorem IsVarint.append_inj {rest rest' : List UInt8} (h : IsVarint bs) (h' : IsVarint bs')
    (heq : bs ++ rest = bs' ++ rest') : bs = bs' ∧ rest = rest' := by
  induction h generalizing bs' with
  | last hb =>
      cases h' with
      | last _ =>
          obtain ⟨rfl, rfl⟩ := List.cons.inj heq
          exact ⟨rfl, rfl⟩
      | more hb' _ =>
          obtain ⟨rfl, -⟩ := List.cons.inj heq
          omega
  | more hb _ ih =>
      cases h' with
      | last hb' =>
          obtain ⟨rfl, -⟩ := List.cons.inj heq
          omega
      | more _ hbs' =>
          obtain ⟨rfl, htail⟩ := List.cons.inj heq
          obtain ⟨rfl, rfl⟩ := ih hbs' htail
          exact ⟨rfl, rfl⟩

/-- Bytes that no number starts have all their top bits set. -/
theorem starts_or_high : ∀ bytes : List UInt8,
    (∃ bs rest, bytes = bs ++ rest ∧ IsVarint bs) ∨ ∀ b ∈ bytes, 128 ≤ b.toNat
  | [] => .inr nofun
  | b :: bytes => by
      by_cases hb : b.toNat < 128
      · exact .inl ⟨[b], bytes, rfl, .last hb⟩
      · have hb := Nat.le_of_not_lt hb
        rcases starts_or_high bytes with ⟨bs, rest, rfl, hbs⟩ | hall
        · exact .inl ⟨b :: bs, rest, rfl, .more hb hbs⟩
        · exact .inr fun b' hb' => by
            rcases List.mem_cons.mp hb' with rfl | hb'
            · exact hb
            · exact hall b' hb'

theorem value_lt (bs : List UInt8) : value bs < 128 ^ bs.length := by
  have h := Nat.ofDigits_lt_base_pow_length (b := 128) (l := bs.map payload) (by decide)
    fun d hd => by
      obtain ⟨b, -, rfl⟩ := List.mem_map.mp hd
      exact payload_lt b
  rwa [List.length_map] at h

theorem value_concat (bs : List UInt8) (b : UInt8) :
    value (bs ++ [b]) = value bs + 128 ^ bs.length * payload b := by
  rw [value, List.map_append, Nat.ofDigits_append, List.length_map]
  exact congrArg (_ + _ * ·) (value_singleton b)

/-- The last byte ends the number, and no other. -/
theorem isVarint_concat_iff : ∀ (bs : List UInt8) {b : UInt8},
    IsVarint (bs ++ [b]) ↔ (∀ b' ∈ bs, 128 ≤ b'.toNat) ∧ b.toNat < 128
  | [], b => by
      constructor
      · intro h
        cases h with
        | last h => exact ⟨nofun, h⟩
        | more _ rest => cases rest
      · exact fun h => .last h.2
  | b' :: bs, b => by
      have ih := isVarint_concat_iff bs (b := b)
      rw [List.forall_mem_cons, and_assoc, ← ih, List.cons_append]
      constructor
      · intro h
        generalize hrest : bs ++ [b] = rest at h
        cases h with
        | last _ => exact absurd hrest (List.append_ne_nil_of_right_ne_nil bs nofun)
        | more h rest => exact ⟨h, rest⟩
      · exact fun h => .more h.1 h.2

theorem toNat_low {n : Nat} (h : n < 128) : (UInt8.ofNat n).toNat = n := by
  rw [UInt8.toNat_ofNat']
  exact Nat.mod_eq_of_lt (by omega)

theorem toNat_high (n : Nat) : (UInt8.ofNat (128 + n % 128)).toNat = 128 + n % 128 := by
  rw [UInt8.toNat_ofNat']
  exact Nat.mod_eq_of_lt (by omega)

theorem isVarint_encode (n : Nat) : IsVarint (encode n) := by
  induction n using encode.induct with
  | case1 n h =>
      rw [encode, if_pos h]
      exact .last (by rwa [toNat_low h])
  | case2 n h ih =>
      rw [encode, if_neg h]
      exact .more (by rw [toNat_high]; omega) ih

/-- **A number is read back.** -/
theorem value_encode (n : Nat) : value (encode n) = n := by
  induction n using encode.induct with
  | case1 n h =>
      rw [encode, if_pos h, value_singleton, payload, toNat_low h, Nat.mod_eq_of_lt h]
  | case2 n h ih =>
      rw [encode, if_neg h, value_cons, ih, payload, toNat_high]
      omega

/-- A number has no more bytes than its bound has digits. -/
theorem length_encode_le {n : Nat} : ∀ {k : Nat}, n < 128 ^ (k + 1) → (encode n).length ≤ k + 1
  | 0, h => by
      rw [encode, if_pos (by simpa using h)]
      exact Nat.le_refl 1
  | k + 1, h => by
      by_cases hn : n < 128
      · rw [encode, if_pos hn]
        exact Nat.le_add_left 1 (k + 1)
      · have hdiv : n / 128 < 128 ^ (k + 1) := by
          rw [Nat.div_lt_iff_lt_mul (by decide), ← Nat.pow_succ]
          exact h
        rw [encode, if_neg hn, List.length_cons]
        exact Nat.succ_le_succ (length_encode_le hdiv)

end Varint
