import RevBox.Chef.Data
import RevBox.Support.Numeral

/-!
# Chef — Radix

Bytes as one big number in any radix (`radix_encode`, `radix_decode` of `data.rs`).  Zero bytes at
the front, which the number does not show, stand as as many zero symbols.

* `decode_encode_iff`: bytes come back iff none of their digits has a symbol that an earlier digit
  has too.
* `radix_round_trips`: with distinct symbols, bytes come back from their text, and text over the
  alphabet from its bytes.

The loops are described by the number they work on: `divide_spec`, `divisions_eq`, `mulAdd_spec`,
`accumulate_spec`.
-/

namespace RevBox.Chef

open Numeral

/-- A byte as the character of its number. -/
def asChar (a : UInt8) : Char := Char.ofNat a.toNat

/-- The symbol of a digit. -/
def symbol (alphabet : List UInt8) (d : Nat) : Char := asChar (alphabet.getD d 0)

/-- The digit of a symbol: the first place where it stands. -/
def position (alphabet : List UInt8) (c : Char) : Option Nat :=
  alphabet.findIdx? fun a => asChar a = c

/-! ### The code -/

/-- One division of a number by the radix, after `next` and `remainder`: the quotient does not
begin with zero. -/
def divide (radix : Nat) : Nat → List UInt8 → List UInt8 → Nat × List UInt8
  | remainder, next, [] => (remainder, next)
  | remainder, next, byte :: number =>
      let acc := remainder * 256 + byte.toNat
      let q := acc / radix
      divide radix (acc % radix) (if next ≠ [] ∨ q ≠ 0 then next ++ [.ofNat q] else next) number

/-- The remainders of one division after the other, until the number is empty; `none` where it is
not after so many of them. -/
def divisions (radix : Nat) : Nat → List UInt8 → Option (List Nat)
  | _, [] => some []
  | 0, _ :: _ => none
  | fuel + 1, number =>
      let r := divide radix 0 [] number
      (divisions radix fuel r.2).map (r.1 :: ·)

/-- `radix_encode`, with a division for each bit. -/
def radixEncode (bytes alphabet : List UInt8) : Option (List Char) :=
  let leading := (bytes.takeWhile fun b => b = 0).length
  let number := bytes.drop leading
  (divisions alphabet.length (8 * number.length) number).map fun digits =>
    List.replicate leading (symbol alphabet 0) ++ (digits.map (symbol alphabet)).reverse

/-- `slot * radix + carry`, from the last byte to the first: the bytes, and what is carried out. -/
def mulAdd (radix carry : Nat) : List UInt8 → List UInt8 × Nat
  | [] => ([], carry)
  | slot :: bytes =>
      let r := mulAdd radix carry bytes
      let acc := slot.toNat * radix + r.2
      (.ofNat acc :: r.1, acc / 256)

/-- What is carried out, byte by byte in front; a `u64` has eight of them. -/
def insertCarry : Nat → Nat → List UInt8 → List UInt8
  | 0, _, bytes => bytes
  | fuel + 1, carry, bytes =>
      if 0 < carry then insertCarry fuel (carry / 256) (.ofNat carry :: bytes) else bytes

/-- The loop of `radix_decode`. -/
def accumulate (alphabet : List UInt8) : List UInt8 → List Char → ChefResult (List UInt8)
  | bytes, [] => .ok bytes
  | bytes, c :: cs =>
      match position alphabet c with
      | none => .error (fail s!"字母表里没有字符「{c}」，这不是该进制的编码")
      | some value =>
          let r := mulAdd alphabet.length value bytes
          accumulate alphabet (insertCarry 8 r.2 r.1) cs

/-- `radix_decode`. -/
def radixDecode (input : List Char) (alphabet : List UInt8) : ChefResult (List UInt8) :=
  let leading := (input.takeWhile fun c => c = symbol alphabet 0).length
  match accumulate alphabet [] (input.drop leading) with
  | .error e => .error e
  | .ok bytes => .ok (List.replicate leading 0 ++ bytes)

/-! ### Bytes as numbers -/

/-- The digits of bytes, in base 256. -/
def byteDigits (bytes : List UInt8) : List Nat := bytes.map UInt8.toNat

/-- The number that bytes spell. -/
def number (bytes : List UInt8) : Nat := value 256 (byteDigits bytes)

variable {radix carry fuel d : Nat} {alphabet bytes next : List UInt8} {c : Char} {cs : List Char}

theorem byteDigits_lt : ∀ d ∈ byteDigits bytes, d < 256 := by
  intro d hd
  obtain ⟨b, -, rfl⟩ := List.mem_map.mp hd
  exact b.toNat_lt

theorem number_lt (bytes : List UInt8) : number bytes < 256 ^ bytes.length := by
  have h : number bytes < 256 ^ (byteDigits bytes).length := value_lt (by decide) byteDigits_lt
  rwa [byteDigits, List.length_map] at h

theorem number_cons (b : UInt8) (bytes : List UInt8) :
    number (b :: bytes) = b.toNat * 256 ^ bytes.length + number bytes := by
  rw [number, byteDigits, List.map_cons, value_cons, List.length_map]
  rfl

theorem number_concat (bytes : List UInt8) (b : UInt8) :
    number (bytes ++ [b]) = 256 * number bytes + b.toNat := by
  rw [number, byteDigits, List.map_append, List.map_singleton, value_concat]
  rfl

/-- Bytes that do not begin with zero. -/
def NoLead (bytes : List UInt8) : Prop := Trimmed (byteDigits bytes)

theorem noLead_nil : NoLead [] := trimmed_nil

theorem noLead_cons {b : UInt8} : NoLead (b :: bytes) ↔ b ≠ 0 := by
  rw [NoLead, byteDigits, List.map_cons, trimmed_cons]
  exact not_congr (UInt8.toNat_inj (b := 0))

theorem noLead_append {more : List UInt8} (h : NoLead bytes) (hne : bytes ≠ []) :
    NoLead (bytes ++ more) := by
  obtain ⟨b, bytes, rfl⟩ := List.exists_cons_of_ne_nil hne
  exact noLead_cons.mpr (noLead_cons.mp h)

/-- Bytes that do not begin with zero are settled by their number. -/
theorem number_inj {bytes' : List UInt8} (h : NoLead bytes) (h' : NoLead bytes') :
    number bytes = number bytes' ↔ bytes = bytes' := by
  rw [number, number, value_inj (by decide) byteDigits_lt byteDigits_lt h h']
  exact List.map_inj_right fun _ _ => UInt8.toNat_inj.mp

/-! ### Encoding -/

/-- **One division**: quotient and remainder are those of the number. -/
theorem divide_spec (hradix : radix ≤ 256) : ∀ (bytes : List UInt8) {next : List UInt8}
    {remainder : Nat}, remainder < radix → NoLead next →
      (divide radix remainder next bytes).1 < radix ∧ NoLead (divide radix remainder next bytes).2 ∧
      radix * number (divide radix remainder next bytes).2 + (divide radix remainder next bytes).1 =
        (radix * number next + remainder) * 256 ^ bytes.length + number bytes
  | [], next, remainder, hlt, hlead => by
      refine ⟨hlt, hlead, ?_⟩
      rw [divide, List.length_nil, Nat.pow_zero, Nat.mul_one]
      rfl
  | byte :: bytes, next, remainder, hlt, hlead => by
      have hpos : 0 < radix := Nat.lt_of_le_of_lt (Nat.zero_le _) hlt
      have hbyte := byte.toNat_lt
      have hq : (remainder * 256 + byte.toNat) / radix < 256 := by
        rw [Nat.div_lt_iff_lt_mul hpos]
        omega
      have htoNat : (UInt8.ofNat ((remainder * 256 + byte.toNat) / radix)).toNat =
          (remainder * 256 + byte.toNat) / radix := by
        rw [UInt8.toNat_ofNat', Nat.mod_eq_of_lt hq]
      have hdiv := Nat.div_add_mod (remainder * 256 + byte.toNat) radix
      rw [divide]
      generalize hq' : (remainder * 256 + byte.toNat) / radix = q at *
      have hnext : NoLead (if next ≠ [] ∨ q ≠ 0 then next ++ [.ofNat q] else next) ∧
          number (if next ≠ [] ∨ q ≠ 0 then next ++ [.ofNat q] else next) =
            256 * number next + q := by
        split
        · rename_i hpush
          refine ⟨?_, by rw [number_concat, htoNat]⟩
          by_cases hnil : next = []
          · subst hnil
            refine noLead_cons.mpr fun hz => (hpush.resolve_left fun h => h rfl) ?_
            rw [← htoNat, hz]
            rfl
          · exact noLead_append hlead hnil
        · rename_i hpush
          simp only [not_or, not_not] at hpush
          obtain ⟨rfl, rfl⟩ := hpush
          exact ⟨hlead, rfl⟩
      have ih := divide_spec hradix bytes (Nat.mod_lt (remainder * 256 + byte.toNat) hpos) hnext.1
      refine ⟨ih.1, ih.2.1, ih.2.2.trans ?_⟩
      rw [hnext.2, List.length_cons, Nat.pow_succ, number_cons]
      have hsum : radix * (256 * number next + q) + (remainder * 256 + byte.toNat) % radix =
          (radix * number next + remainder) * 256 + byte.toNat := by
        rw [Nat.mul_add, Nat.add_assoc, hdiv]
        ring
      rw [hsum]
      ring

/-- **The divisions** give the digits of the number, and end. -/
theorem divisions_eq (hone : 1 < radix) (hradix : radix ≤ 256) : ∀ {fuel : Nat}
    {bytes : List UInt8}, NoLead bytes → number bytes < 2 ^ fuel →
      divisions radix fuel bytes = some (Nat.digits radix (number bytes))
  | fuel, [], _, _ => by
      cases fuel <;> simp [divisions, number, byteDigits]
  | 0, byte :: bytes, hlead, hlt => by
      have hb := Nat.pos_of_ne_zero fun hz => noLead_cons.mp hlead (UInt8.toNat_inj.mp hz)
      have := Nat.mul_le_mul hb (Nat.one_le_pow bytes.length 256 (by decide))
      rw [number_cons] at hlt
      omega
  | fuel + 1, byte :: bytes, hlead, hlt => by
      have hb := Nat.pos_of_ne_zero fun hz => noLead_cons.mp hlead (UInt8.toNat_inj.mp hz)
      have hmul := Nat.mul_le_mul hb (Nat.one_le_pow bytes.length 256 (by decide))
      have hpos : 0 < number (byte :: bytes) := by
        rw [number_cons]
        omega
      obtain ⟨hrem, hnext, hsum⟩ :=
        divide_spec hradix (byte :: bytes) (Nat.zero_lt_of_lt hone) noLead_nil
      rw [show number [] = 0 from rfl, Nat.mul_zero, Nat.zero_add, Nat.zero_mul,
        Nat.zero_add] at hsum
      have hquot : number (byte :: bytes) / radix =
          number (divide radix 0 [] (byte :: bytes)).2 := by
        rw [← hsum, Nat.mul_add_div (Nat.zero_lt_of_lt hone), Nat.div_eq_of_lt hrem, Nat.add_zero]
      have hmod : number (byte :: bytes) % radix = (divide radix 0 [] (byte :: bytes)).1 := by
        rw [← hsum, Nat.mul_add_mod, Nat.mod_eq_of_lt hrem]
      have hless : number (divide radix 0 [] (byte :: bytes)).2 < 2 ^ fuel := by
        rw [← hquot, Nat.div_lt_iff_lt_mul (Nat.zero_lt_of_lt hone)]
        calc number (byte :: bytes) < 2 ^ fuel * 2 := hlt
          _ ≤ 2 ^ fuel * radix := Nat.mul_le_mul_left _ hone
      rw [divisions, divisions_eq hone hradix hnext hless, Nat.digits_def' hone hpos, hmod, hquot]
      · rfl
      · exact List.cons_ne_nil byte bytes

/-- A list is a run of one element and what does not begin with it. -/
theorem leading_split {α : Type} [DecidableEq α] (a : α) (l : List α) :
    ∃ n rest, rest.head? ≠ some a ∧ l = List.replicate n a ++ rest := by
  induction l with
  | nil => exact ⟨0, [], nofun, rfl⟩
  | cons b l ih =>
      by_cases hb : b = a
      · obtain ⟨n, rest, hrest, rfl⟩ := ih
        exact ⟨n + 1, rest, hrest, by rw [hb]; rfl⟩
      · exact ⟨0, b :: l, fun h => hb (Option.some.inj h), rfl⟩

theorem noLead_iff : NoLead bytes ↔ bytes.head? ≠ some 0 := by
  cases bytes with
  | nil => exact ⟨fun _ => nofun, fun _ => noLead_nil⟩
  | cons b bytes => exact noLead_cons.trans (not_congr Option.some_inj).symm

theorem takeWhile_leading {α : Type} [DecidableEq α] {a : α} {rest : List α} (n : Nat)
    (h : rest.head? ≠ some a) : (List.replicate n a ++ rest).takeWhile (fun b => b = a) =
      List.replicate n a := by
  rw [List.takeWhile_append_of_pos fun b hb => decide_eq_true (List.eq_of_mem_replicate hb)]
  cases rest with
  | nil => exact List.append_nil _
  | cons b rest =>
      have hb : b ≠ a := fun heq => h (congrArg some heq)
      rw [List.takeWhile_cons_of_neg (by simp [hb]), List.append_nil]

theorem number_zeros (zeros : Nat) (rest : List UInt8) :
    number (List.replicate zeros 0 ++ rest) = number rest := by
  rw [number, byteDigits, List.map_append, List.map_replicate, value_append]
  have hz : value 256 (List.replicate zeros (UInt8.toNat 0)) = 0 := value_zeros zeros
  rw [hz, Nat.zero_mul, Nat.zero_add]
  rfl

/-- **The text of bytes**: a zero symbol for each zero byte, and the digits of the number. -/
theorem radixEncode_eq (hone : 1 < alphabet.length) (hradix : alphabet.length ≤ 256)
    (zeros : Nat) {rest : List UInt8} (h : NoLead rest) :
    radixEncode (List.replicate zeros 0 ++ rest) alphabet =
      some (List.replicate zeros (symbol alphabet 0) ++
        (Nat.digits alphabet.length (number rest)).reverse.map (symbol alphabet)) := by
  have hlt : number rest < 2 ^ (8 * rest.length) := by
    rw [Nat.pow_mul]
    exact number_lt rest
  have hdrop : (List.replicate zeros (0 : UInt8) ++ rest).drop zeros = rest :=
    List.drop_left' List.length_replicate
  rw [radixEncode, takeWhile_leading zeros (noLead_iff.mp h), List.length_replicate]
  simp only [hdrop, divisions_eq hone hradix h hlt, Option.map_some, List.map_reverse]

/-! ### Decoding -/

/-- **Multiply and add**, over all bytes. -/
theorem mulAdd_spec (hcarry : carry < radix) : ∀ bytes : List UInt8,
    (mulAdd radix carry bytes).1.length = bytes.length ∧ (mulAdd radix carry bytes).2 < radix ∧
    (mulAdd radix carry bytes).2 * 256 ^ bytes.length + number (mulAdd radix carry bytes).1 =
      number bytes * radix + carry
  | [] => ⟨rfl, hcarry, by simp [mulAdd, number, byteDigits]⟩
  | slot :: bytes => by
      obtain ⟨hlen, hlt, hsum⟩ := mulAdd_spec hcarry bytes
      have hslot := slot.toNat_lt
      rw [mulAdd]
      generalize mulAdd radix carry bytes = r at hlen hlt hsum
      refine ⟨congrArg Nat.succ hlen, ?_, ?_⟩
      · rw [Nat.div_lt_iff_lt_mul (by decide)]
        have hle : slot.toNat * radix ≤ 255 * radix := Nat.mul_le_mul_right radix (by omega)
        omega
      · have hdiv := Nat.div_add_mod (slot.toNat * radix + r.2) 256
        dsimp only
        rw [List.length_cons, number_cons, number_cons, hlen, UInt8.toNat_ofNat', Nat.pow_succ]
        have hfactor : (slot.toNat * radix + r.2) / 256 * (256 ^ bytes.length * 256) +
            (slot.toNat * radix + r.2) % 256 * 256 ^ bytes.length =
            (slot.toNat * radix + r.2) * 256 ^ bytes.length := by
          conv_rhs => rw [← hdiv]
          ring
        have hmod : 2 ^ 8 = 256 := rfl
        rw [hmod, ← Nat.add_assoc, hfactor, Nat.add_mul, Nat.add_assoc, hsum]
        ring

/-- **What is carried out** goes in front, without zeros. -/
theorem insertCarry_spec : ∀ {fuel carry : Nat} {bytes : List UInt8}, carry < 256 ^ fuel →
    number (insertCarry fuel carry bytes) = carry * 256 ^ bytes.length + number bytes ∧
      (0 < carry → NoLead (insertCarry fuel carry bytes)) ∧
      (carry = 0 → insertCarry fuel carry bytes = bytes)
  | 0, carry, bytes, hlt => by
      have hz : carry = 0 := Nat.lt_one_iff.mp hlt
      subst hz
      exact ⟨by simp [insertCarry], fun h => absurd h (Nat.lt_irrefl 0), fun _ => rfl⟩
  | fuel + 1, carry, bytes, hlt => by
      rw [insertCarry]
      split
      · rename_i hpos
        have hdiv := Nat.div_add_mod carry 256
        have hless : carry / 256 < 256 ^ fuel := by
          rw [Nat.div_lt_iff_lt_mul (by decide)]
          exact hlt
        obtain ⟨hnum, hlead, hsame⟩ :
            number (insertCarry fuel (carry / 256) (.ofNat carry :: bytes)) = _ ∧ _ ∧ _ :=
          insertCarry_spec hless
        refine ⟨?_, fun _ => ?_, fun hz => absurd hz (Nat.ne_of_gt hpos)⟩
        · rw [hnum, List.length_cons, number_cons, UInt8.toNat_ofNat', Nat.pow_succ,
            ← Nat.add_assoc]
          have hmod : 2 ^ 8 = 256 := rfl
          rw [hmod]
          conv_rhs => rw [← hdiv]
          ring
        · rcases Nat.eq_zero_or_pos (carry / 256) with hz | hz
          · rw [hsame hz]
            have hsmall : carry < 256 := (Nat.div_eq_zero_iff_lt (by decide)).mp hz
            refine noLead_cons.mpr fun hzero => ?_
            have := congrArg UInt8.toNat hzero
            rw [UInt8.toNat_ofNat', Nat.mod_eq_of_lt hsmall] at this
            exact absurd this (Nat.ne_of_gt hpos)
          · exact hlead hz
      · rename_i hpos
        have hz := Nat.eq_zero_of_not_pos hpos
        subst hz
        exact ⟨by simp, fun h => absurd h hpos, fun _ => rfl⟩

/-- One symbol more: the number is multiplied, and the digit is added. -/
theorem turn_spec (hradix : alphabet.length ≤ 256) (hd : d < alphabet.length) (h : NoLead bytes) :
    number (insertCarry 8 (mulAdd alphabet.length d bytes).2 (mulAdd alphabet.length d bytes).1) =
        number bytes * alphabet.length + d ∧
      NoLead (insertCarry 8 (mulAdd alphabet.length d bytes).2
        (mulAdd alphabet.length d bytes).1) := by
  obtain ⟨hlen, hlt, hsum⟩ := mulAdd_spec hd bytes
  have hfuel : (mulAdd alphabet.length d bytes).2 < 256 ^ 8 :=
    Nat.lt_of_lt_of_le hlt (Nat.le_trans hradix (by decide))
  obtain ⟨hnum, hpos, hzero⟩ :
      number (insertCarry 8 (mulAdd alphabet.length d bytes).2
        (mulAdd alphabet.length d bytes).1) = _ ∧ _ ∧ _ := insertCarry_spec hfuel
  refine ⟨by rw [hnum, hlen, hsum], ?_⟩
  rcases Nat.eq_zero_or_pos (mulAdd alphabet.length d bytes).2 with hcarry | hcarry
  · rw [hzero hcarry]
    cases bytes with
    | nil => exact noLead_nil
    | cons slot bytes =>
        -- nothing is carried out, so the first byte is at least what it was
        rw [mulAdd] at hcarry ⊢
        have hslot : 0 < slot.toNat :=
          Nat.pos_of_ne_zero fun hz => noLead_cons.mp h (UInt8.toNat_inj.mp hz)
        have hsmall := (Nat.div_eq_zero_iff_lt (by decide)).mp hcarry
        have hmul := Nat.mul_le_mul hslot (Nat.zero_lt_of_lt hd)
        refine noLead_cons.mpr fun hz => ?_
        have := congrArg UInt8.toNat hz
        rw [UInt8.toNat_ofNat', Nat.mod_eq_of_lt hsmall] at this
        have h0 : (0 : UInt8).toNat = 0 := rfl
        omega
  · exact hpos hcarry

theorem position_lt (h : position alphabet c = some d) : d < alphabet.length := by
  obtain ⟨hd, -, -⟩ := List.findIdx?_eq_some_iff_getElem.mp h
  exact hd

theorem symbol_eq (hd : d < alphabet.length) : symbol alphabet d = asChar alphabet[d] := by
  rw [symbol, List.getD_eq_getElem?_getD, List.getElem?_eq_getElem hd, Option.getD_some]

theorem symbol_position (h : position alphabet c = some d) : symbol alphabet d = c := by
  obtain ⟨hd, hc, -⟩ := List.findIdx?_eq_some_iff_getElem.mp h
  rw [symbol_eq hd]
  exact of_decide_eq_true hc

/-- **All symbols**: the number is that of their digits. -/
theorem accumulate_spec (hradix : alphabet.length ≤ 256) : ∀ {cs : List Char} {ds : List Nat}
    {bytes : List UInt8}, cs.map (position alphabet) = ds.map some → NoLead bytes →
      ∃ bytes', accumulate alphabet bytes cs = .ok bytes' ∧ NoLead bytes' ∧
        number bytes' = number bytes * alphabet.length ^ ds.length + value alphabet.length ds
  | [], [], bytes, _, h => ⟨bytes, rfl, h, by simp⟩
  | c :: cs, d :: ds, bytes, hmap, h => by
      obtain ⟨hc, hcs⟩ := List.cons_eq_cons.mp hmap
      obtain ⟨hturn, hlead⟩ := turn_spec hradix (position_lt hc) h
      obtain ⟨bytes', hacc, hlead', hnum⟩ := accumulate_spec hradix hcs hlead
      refine ⟨bytes', ?_, hlead', ?_⟩
      · rw [accumulate, hc]
        exact hacc
      · rw [hnum, hturn, value_cons, List.length_cons]
        ring

/-- **The bytes of a text**: a zero byte for each zero symbol, and those of the number. -/
theorem radixDecode_eq (hradix : alphabet.length ≤ 256) (zeros : Nat) {ds : List Nat}
    (hhead : cs.head? ≠ some (symbol alphabet 0))
    (hmap : cs.map (position alphabet) = ds.map some) : ∃ rest,
      radixDecode (List.replicate zeros (symbol alphabet 0) ++ cs) alphabet =
        .ok (List.replicate zeros 0 ++ rest) ∧ NoLead rest ∧
          number rest = value alphabet.length ds := by
  obtain ⟨rest, hacc, hlead, hnum⟩ := accumulate_spec hradix hmap noLead_nil
  have hdrop : (List.replicate zeros (symbol alphabet 0) ++ cs).drop zeros = cs :=
    List.drop_left' List.length_replicate
  refine ⟨rest, ?_, hlead, ?_⟩
  · rw [radixDecode, takeWhile_leading zeros hhead, List.length_replicate]
    simp only [hdrop, hacc]
  · rw [hnum, show number [] = 0 from rfl, Nat.zero_mul, Nat.zero_add]

/-! ### Round trips -/

/-- The first digit with the symbol of a digit. -/
def firstDigit (alphabet : List UInt8) (d : Nat) : Nat :=
  (position alphabet (symbol alphabet d)).getD d

theorem position_symbol (hd : d < alphabet.length) :
    position alphabet (symbol alphabet d) = some (firstDigit alphabet d) := by
  rw [firstDigit]
  cases h : position alphabet (symbol alphabet d) with
  | none =>
      have hnone := List.findIdx?_eq_none_iff.mp h (alphabet[d]) (List.getElem_mem hd)
      rw [symbol_eq hd] at hnone
      simp at hnone
  | some i => rfl

theorem firstDigit_le (alphabet : List UInt8) (d : Nat) : firstDigit alphabet d ≤ d := by
  rw [firstDigit]
  cases h : position alphabet (symbol alphabet d) with
  | none => exact Nat.le_refl d
  | some i =>
      refine Nat.le_of_not_lt fun hlt => ?_
      obtain ⟨hi, -, hfirst⟩ := List.findIdx?_eq_some_iff_getElem.mp h
      refine hfirst d hlt ?_
      rw [symbol_eq (Nat.lt_trans hlt hi)]
      exact decide_eq_true rfl

theorem toNat_asChar (a : UInt8) : (asChar a).toNat = a.toNat := by
  have ha : a.toNat.isValidChar := Or.inl (Nat.lt_trans a.toNat_lt (by decide))
  rw [asChar, Char.ofNat, dif_pos ha]
  rfl

theorem asChar_inj {a b : UInt8} (h : asChar a = asChar b) : a = b :=
  UInt8.toNat_inj.mp
    ((toNat_asChar a).symm.trans ((congrArg Char.toNat h).trans (toNat_asChar b)))

/-- Where no symbol stands twice, a digit is the first with its symbol. -/
theorem firstDigit_of_nodup (hnodup : alphabet.Nodup) (hd : d < alphabet.length) :
    firstDigit alphabet d = d := by
  have hle := firstDigit_le alphabet d
  have hsame := symbol_position (position_symbol hd)
  rw [symbol_eq hd, symbol_eq (Nat.lt_of_le_of_lt hle hd)] at hsame
  exact (List.Nodup.getElem_inj_iff hnodup).mp (asChar_inj hsame)

/-- **Bytes come back** from their text iff each of their digits is the first with its symbol. -/
theorem decode_encode_iff (hone : 1 < alphabet.length) (hradix : alphabet.length ≤ 256)
    (hzero : ∀ d < alphabet.length, firstDigit alphabet d = 0 → d = 0) (bytes : List UInt8) :
    (∃ text, radixEncode bytes alphabet = some text ∧ radixDecode text alphabet = .ok bytes) ↔
      ∀ d ∈ Nat.digits alphabet.length (number bytes), firstDigit alphabet d = d := by
  obtain ⟨zeros, rest, hhead, rfl⟩ := leading_split 0 bytes
  have hlead := noLead_iff.mpr hhead
  rw [number_zeros]
  generalize hds : (Nat.digits alphabet.length (number rest)).reverse = ds
  have hmem : ∀ d, d ∈ Nat.digits alphabet.length (number rest) ↔ d ∈ ds := fun d => by
    rw [← hds, List.mem_reverse]
  have hlt : ∀ d ∈ ds, d < alphabet.length := fun d hd =>
    Nat.digits_lt_base hone ((hmem d).mpr hd)
  have htext := radixEncode_eq hone hradix zeros hlead
  rw [hds] at htext
  -- the text of the number does not begin with the zero symbol
  have htrim : Trimmed ds := hds ▸ trimmed_digits alphabet.length (number rest)
  have hfirst : (ds.map (symbol alphabet)).head? ≠ some (symbol alphabet 0) := by
    cases ds with
    | nil => exact nofun
    | cons d ds =>
        intro h
        have hsym : symbol alphabet d = symbol alphabet 0 := Option.some.inj h
        refine trimmed_cons.mp htrim (hzero d (hlt d List.mem_cons_self) ?_)
        rw [firstDigit, hsym, position_symbol (Nat.zero_lt_of_lt hone)]
        exact Nat.le_zero.mp (firstDigit_le alphabet 0)
  have hpos : (ds.map (symbol alphabet)).map (position alphabet) =
      (ds.map (firstDigit alphabet)).map some := by
    rw [List.map_map, List.map_map]
    exact List.map_congr_left fun d hd => position_symbol (hlt d hd)
  obtain ⟨rest', hdecode, hlead', hnum⟩ := radixDecode_eq hradix zeros hfirst hpos
  have hvalue : number rest = value alphabet.length ds := by
    rw [← hds, value_digits]
  calc (∃ text, radixEncode (List.replicate zeros 0 ++ rest) alphabet = some text ∧
        radixDecode text alphabet = .ok (List.replicate zeros 0 ++ rest))
      ↔ rest' = rest := by
        constructor
        · rintro ⟨text, henc, hdec⟩
          cases htext.symm.trans henc
          exact List.append_cancel_left (Except.ok.inj (hdecode.symm.trans hdec))
        · rintro rfl
          exact ⟨_, htext, hdecode⟩
    _ ↔ value alphabet.length (ds.map (firstDigit alphabet)) = value alphabet.length ds := by
        rw [← number_inj hlead' hlead, hnum, hvalue]
    _ ↔ ∀ d ∈ Nat.digits alphabet.length (number rest), firstDigit alphabet d = d := by
        rw [value_map_eq_iff (Nat.zero_lt_of_lt hone) (firstDigit_le alphabet)]
        exact forall_congr' fun d => by rw [hmem]

/-- Symbols of the alphabet are those of their digits. -/
theorem exists_digits : ∀ {cs : List Char}, (∀ c ∈ cs, ∃ a ∈ alphabet, asChar a = c) →
    ∃ ds : List Nat, cs.map (position alphabet) = ds.map some ∧ ds.map (symbol alphabet) = cs
  | [], _ => ⟨[], rfl, rfl⟩
  | c :: cs, h => by
      obtain ⟨ds, hmap, hback⟩ := exists_digits fun c hc => h c (List.mem_cons_of_mem _ hc)
      obtain ⟨a, ha, hac⟩ := h c List.mem_cons_self
      cases hc : position alphabet c with
      | none => exact absurd hac (of_decide_eq_false (List.findIdx?_eq_none_iff.mp hc a ha))
      | some d =>
          refine ⟨d :: ds, ?_, ?_⟩
          · rw [List.map_cons, List.map_cons, hc, hmap]
          · rw [List.map_cons, symbol_position hc, hback]

/-- Text over an alphabet comes back from its bytes. -/
theorem encode_decode (hone : 1 < alphabet.length) (hradix : alphabet.length ≤ 256)
    {text : List Char} (htext : ∀ c ∈ text, ∃ a ∈ alphabet, asChar a = c) :
    ∃ bytes, radixDecode text alphabet = .ok bytes ∧ radixEncode bytes alphabet = some text := by
  obtain ⟨zeros, cs, hhead, rfl⟩ := leading_split (symbol alphabet 0) text
  obtain ⟨ds, hmap, hback⟩ := exists_digits fun c hc => htext c (List.mem_append_right _ hc)
  obtain ⟨rest, hdecode, hlead, hnum⟩ := radixDecode_eq hradix zeros hhead hmap
  refine ⟨_, hdecode, ?_⟩
  have hlt : ∀ d ∈ ds, d < alphabet.length := by
    intro d hd
    obtain ⟨c, -, hc⟩ := List.mem_map.mp (hmap ▸ List.mem_map_of_mem hd : some d ∈ cs.map _)
    exact position_lt hc
  have htrim : Trimmed ds := by
    cases ds with
    | nil => exact trimmed_nil
    | cons d ds =>
        refine trimmed_cons.mpr fun hz => hhead ?_
        rw [← hback, hz]
        rfl
  rw [radixEncode_eq hone hradix zeros hlead, hnum, digits_value hone hlt htrim,
    List.reverse_reverse, hback]

/-- **The radix codec** over distinct symbols loses nothing, in either direction. -/
theorem radix_round_trips (alphabet : List UInt8) (hnodup : alphabet.Nodup)
    (hone : 2 ≤ alphabet.length) (hsize : alphabet.length ≤ 128) :
    (∀ bytes, ∃ text, radixEncode bytes alphabet = some text ∧
      radixDecode text alphabet = .ok bytes) ∧
    ∀ text, (∀ c ∈ text, ∃ a ∈ alphabet, asChar a = c) →
      ∃ bytes, radixDecode text alphabet = .ok bytes ∧ radixEncode bytes alphabet = some text := by
  have hradix : alphabet.length ≤ 256 := Nat.le_trans hsize (by decide)
  refine ⟨fun bytes => (decode_encode_iff hone hradix (fun d hd h => ?_) bytes).mpr fun d hd => ?_,
    fun text htext => encode_decode hone hradix htext⟩
  · rwa [firstDigit_of_nodup hnodup hd] at h
  · exact firstDigit_of_nodup hnodup (Nat.digits_lt_base hone hd)

/-- Bytes as binary text. -/
theorem binary_round_trips : (∀ bytes, ∃ text, radixEncode bytes [48, 49] = some text ∧
      radixDecode text [48, 49] = .ok bytes) ∧
    ∀ text, (∀ c ∈ text, ∃ a ∈ ([48, 49] : List UInt8), asChar a = c) →
      ∃ bytes, radixDecode text [48, 49] = .ok bytes ∧ radixEncode bytes [48, 49] = some text :=
  radix_round_trips [48, 49] (by decide) (by decide) (by decide)

end RevBox.Chef
