import RevBox.Chef.Data
import RevBox.Support.Base128

/-!
# Chef — Der

The operation `derDecode` of `services/chef/ops/format.rs`.

* `dottedOid_iff`: which contents `dotted_oid` reads as the object identifiers they are.
-/

namespace RevBox.Chef

/-! ### Object identifiers -/

/-- The loop of `dotted_oid`: the numbers it pushes, and the value it is left with.  The seven bits
of a byte meet none of the bits that are shifted. -/
def oidLoop (value : Nat) : List UInt8 → List Nat × Nat
  | [] => ([], value)
  | byte :: bytes =>
      let value := value * 128 % 2 ^ 64 + byte.toNat % 128
      if byte.toNat < 128 then (value :: (oidLoop 0 bytes).1, (oidLoop 0 bytes).2)
      else oidLoop value bytes

/-- `dotted_oid`. -/
def dottedOid : List UInt8 → Option (List Char)
  | [] => none
  | first :: bytes =>
      let (out, value) := oidLoop 0 bytes
      if value ≠ 0 then none
      else some (Text.join '.'
        ((first.toNat / 40 :: first.toNat % 40 :: out).map Text.decimal))

/-! ### What X.690 writes -/

/-- An object identifier whose numbers are of 64 bits. -/
structure Identifier where
  first : Nat
  second : Nat
  arcs : List Nat
  first_le : first ≤ 2
  second_lt : first < 2 → second < 40
  second_bound : second < 2 ^ 64
  arcs_bound : ∀ n ∈ arcs, n < 2 ^ 64

namespace Identifier

/-- The content of an identifier: the first two numbers make one. -/
def content (o : Identifier) : List UInt8 :=
  ((40 * o.first + o.second) :: o.arcs).flatMap Base128.encode

/-- The dotted form. -/
def dotted (o : Identifier) : List Char :=
  Text.join '.' ((o.first :: o.second :: o.arcs).map Text.decimal)

end Identifier

/-- The numbers of a content, the first two taken apart. -/
def arcsOf (bytes : List UInt8) : List Nat :=
  match (Base128.cut [] bytes).1.map Base128.value with
  | [] => []
  | n :: arcs => min (n / 40) 2 :: (n - 40 * min (n / 40) 2) :: arcs

/-- A content that ends within a number, or has a number of more than 64 bits. -/
def Malformed (bytes : List UInt8) : Prop :=
  (∃ b ∈ bytes.getLast?, 128 ≤ b.toNat) ∨ ∃ n ∈ arcsOf bytes, 2 ^ 64 ≤ n

/-- A content is read as the identifier that it is, and not at all if it is malformed. -/
def ReadsIdentifier (bytes : List UInt8) : Prop :=
  (∀ o : Identifier, o.content = bytes → dottedOid bytes = some o.dotted) ∧
    (Malformed bytes → dottedOid bytes = none)

variable {bytes seen : List UInt8}

/-- **The loop follows the numbers**, modulo 2^64. -/
theorem oidLoop_cut (seen bytes : List UInt8) : oidLoop (Base128.value seen % 2 ^ 64) bytes =
    ((Base128.cut seen bytes).1.map fun g => Base128.value g % 2 ^ 64,
      Base128.value (Base128.cut seen bytes).2 % 2 ^ 64) := by
  induction bytes generalizing seen with
  | nil => rfl
  | cons b bytes ih =>
      have hstep : Base128.value seen % 2 ^ 64 * 128 % 2 ^ 64 + b.toNat % 128 =
          Base128.value (seen ++ [b]) % 2 ^ 64 := by
        rw [Base128.value_concat, Base128.payload]
        omega
      have hnil := ih []
      rw [Base128.value_nil, Nat.zero_mod] at hnil
      rw [oidLoop, Base128.cut, hstep]
      split_ifs with hlast
      · rw [hnil, List.map_cons]
      · exact ih (seen ++ [b])

/-- What `dotted_oid` gives, by the numbers after the first byte. -/
theorem dottedOid_cons (b : UInt8) (bytes : List UInt8) : dottedOid (b :: bytes) =
    if Base128.value (Base128.cut [] bytes).2 % 2 ^ 64 ≠ 0 then none
    else some (Text.join '.' ((b.toNat / 40 :: b.toNat % 40 ::
      (Base128.cut [] bytes).1.map fun g => Base128.value g % 2 ^ 64).map Text.decimal)) := by
  have hloop := oidLoop_cut [] bytes
  rw [Base128.value_nil, Nat.zero_mod] at hloop
  rw [dottedOid, hloop]

theorem decimal_no_dot (n : Nat) : '.' ∉ Text.decimal n := fun h =>
  absurd (Text.isAsciiDigit_of_mem_decimal h) (by decide)

/-- Two dotted forms that agree begin with the same number. -/
theorem join_decimal_head {m n : Nat} {ms ns : List Nat}
    (h : Text.join '.' ((m :: ms).map Text.decimal) = Text.join '.' ((n :: ns).map Text.decimal)) :
    m = n := by
  have hno (ks : List Nat) : ∀ l ∈ ks.map Text.decimal, '.' ∉ l := by
    intro l hl
    obtain ⟨k, -, rfl⟩ := List.mem_map.mp hl
    exact decimal_no_dot k
  have hhead (k l : Nat) (ks ls : List Nat) (heq : (k :: ks).map Text.decimal =
      (l :: ls).map Text.decimal) : k = l := by
    have hk : Text.digits (Text.decimal k) = k := Nat.ofDigitChars_ten_toDigits
    have hl : Text.digits (Text.decimal l) = l := Nat.ofDigitChars_ten_toDigits
    rw [← hk, (List.cons.inj heq).1, hl]
  rcases Text.join_inj (hno _) (hno _) h with heq | ⟨hnil, -⟩ | ⟨-, hnil⟩
  · exact hhead m n ms ns heq
  · cases hnil
  · cases hnil

/-- What is read from the content of an identifier. -/
theorem dottedOid_content (o : Identifier) :
    dottedOid o.content = some o.dotted ↔ o.first < 2 ∨ o.second < 40 := by
  have hmod : (o.arcs.map Base128.encode).map (fun g => Base128.value g % 2 ^ 64) = o.arcs := by
    rw [List.map_map]
    refine (List.map_congr_left fun n hn => ?_).trans (List.map_id _)
    rw [Function.comp_apply, Base128.value_encode, Nat.mod_eq_of_lt (o.arcs_bound n hn)]
    rfl
  have hfirst := o.first_le
  have hsecond := o.second_lt
  rw [Identifier.content, List.flatMap_cons]
  by_cases hshort : 40 * o.first + o.second < 128
  · -- the first two numbers are one byte
    have hbyte : (UInt8.ofNat (40 * o.first + o.second)).toNat = 40 * o.first + o.second := by
      rw [UInt8.toNat_ofNat']
      omega
    rw [Base128.encode_of_lt hshort, List.singleton_append, dottedOid_cons, Base128.cut_flatMap,
      Base128.value_nil, Nat.zero_mod, if_neg (fun h => h rfl), hmod, hbyte, Identifier.dotted]
    constructor
    · intro h
      have hhead := join_decimal_head (Option.some.inj h)
      omega
    · intro h
      have h1 : (40 * o.first + o.second) / 40 = o.first := by omega
      have h2 : (40 * o.first + o.second) % 40 = o.second := by omega
      rw [h1, h2]
  · obtain ⟨b, bs, henc, hb⟩ := Base128.encode_of_ge (Nat.le_of_not_lt hshort)
    rw [henc, List.cons_append, dottedOid_cons]
    refine iff_of_false (fun h => ?_) (by omega)
    split_ifs at h with hrest
    have hhead := join_decimal_head (Option.some.inj h)
    omega

/-- Nothing is read only where a number is not finished, and then unless 2^64 divides it. -/
theorem dottedOid_eq_none : dottedOid bytes = none ↔
    bytes = [] ∨ Base128.value (Base128.cut [] bytes.tail).2 % 2 ^ 64 ≠ 0 := by
  cases bytes with
  | nil => simp [dottedOid]
  | cons b bytes =>
      rw [dottedOid_cons, List.tail_cons]
      rw [or_iff_right (List.cons_ne_nil b bytes)]
      split_ifs with h
      · exact iff_of_true rfl h
      · exact iff_of_false id h

/-- **When a content is read as X.690 has it**: where the first number of an identifier is not 2 or
the second one is below 40, and where what a malformed content leaves unfinished after its first
byte is not a multiple of 2^64. -/
theorem dottedOid_iff (bytes : List UInt8) : ReadsIdentifier bytes ↔
    (∀ o : Identifier, o.content = bytes → o.first < 2 ∨ o.second < 40) ∧
      (Malformed bytes → Base128.value (Base128.cut [] bytes.tail).2 % 2 ^ 64 ≠ 0) := by
  refine and_congr (forall_congr' fun o => forall_congr' fun ho => ?_)
    (forall_congr' fun hbad => ?_)
  · rw [← ho]
    exact dottedOid_content o
  · have hne : bytes ≠ [] := by
      rintro rfl
      rcases hbad with ⟨b, hb, -⟩ | ⟨n, hn, -⟩
      · cases hb
      · cases hn
    rw [dottedOid_eq_none, or_iff_right hne]

/-- The identifier 2.999. -/
def jointIdentifier : Identifier := ⟨2, 999, [], by decide, by decide, by decide, by decide⟩

/-- Its first two numbers are one of two bytes, of which the first alone is taken for both. -/
theorem dottedOid_joint : jointIdentifier.content = [0x88, 0x37] ∧
    dottedOid [0x88, 0x37] = some "3.16.55".toList ∧ ¬ ReadsIdentifier [0x88, 0x37] := by
  have hcontent : jointIdentifier.content = [0x88, 0x37] := by
    simp [Identifier.content, jointIdentifier, Base128.encode]
  have hread : dottedOid [0x88, 0x37] = some "3.16.55".toList := by decide
  refine ⟨hcontent, hread, fun h => ?_⟩
  have hdotted := h.1 jointIdentifier hcontent
  rw [hread] at hdotted
  revert hdotted
  decide

end RevBox.Chef
