import RevBox.Chef.Data
import RevBox.Support.Crc

/-!
# Chef — Crc

`reflect` and `crc_compute` of `services/chef/ops/digest.rs`, in a register of 64 bits.

* `crcCompute_eq_iff`: when the code computes the check that its parameters name.
-/

namespace RevBox.Chef

/-! ### The code -/

/-- `reflect`. -/
def reflect (value : BitVec 64) (width : Nat) : BitVec 64 :=
  (List.range width).foldl
    (fun out bit =>
      if (value >>> bit) &&& 1#64 = 1#64 then out ||| (1#64 <<< (width - 1 - bit)) else out) 0#64

/-- The mask of a width. -/
def crcMask (width : Nat) : BitVec 64 :=
  if 64 ≤ width then BitVec.allOnes 64 else (1#64 <<< width) - 1#64

/-- One of the eight turns for a byte. -/
def crcShift (width : Nat) (poly crc : BitVec 64) : BitVec 64 :=
  let top := 1#64 <<< (width - 1)
  if crc &&& top ≠ 0#64 then ((crc <<< 1) ^^^ poly) &&& crcMask width
  else (crc <<< 1) &&& crcMask width

/-- A byte, added to the register. -/
def crcFeed (width : Nat) (refin : Bool) (crc : BitVec 64) (byte : UInt8) : BitVec 64 :=
  let value := byte.toBitVec.setWidth 64
  if width = 8 then crc ^^^ value
  else crc ^^^ ((if refin then reflect value 8 else value) <<< (width - 8))

/-- A byte of the message. -/
def crcByte (width : Nat) (poly : BitVec 64) (refin : Bool) (crc : BitVec 64) (byte : UInt8) :
    BitVec 64 :=
  (crcShift width poly)^[8] (crcFeed width refin crc byte &&& crcMask width)

/-- `crc_compute`. -/
def crcCompute (bytes : List UInt8) (width : Nat) (poly init : BitVec 64) (refin refout : Bool)
    (xorout : BitVec 64) : BitVec 64 :=
  let crc := bytes.foldl (crcByte width poly refin) (init &&& crcMask width)
  let crc := if refout then reflect crc width else crc
  (crc ^^^ xorout) &&& crcMask width

/-! ### The register in 64 bits -/

variable {w : Nat} {poly init xorout : BitVec 64} {refin refout : Bool}

theorem crcMask_eq (h : w ≤ 64) : crcMask w = (BitVec.allOnes w).setWidth 64 := by
  rw [crcMask]
  split_ifs with h64
  · obtain rfl : w = 64 := Nat.le_antisymm h h64
    rfl
  · have hlt : 2 ^ w < 2 ^ 64 := Nat.pow_lt_pow_right (by decide) (by omega)
    refine BitVec.eq_of_toNat_eq ?_
    rw [BitVec.toNat_setWidth, BitVec.toNat_allOnes, BitVec.toNat_sub, BitVec.toNat_shiftLeft,
      BitVec.toNat_ofNat, Nat.shiftLeft_eq]
    have hpos : 0 < 2 ^ w := Nat.two_pow_pos w
    omega

/-- What the mask leaves of a register. -/
theorem and_crcMask (h : w ≤ 64) (x : BitVec 64) :
    x &&& crcMask w = (x.setWidth w).setWidth 64 := by
  rw [crcMask_eq h]
  refine BitVec.eq_of_getLsbD_eq fun i hi => ?_
  simp only [BitVec.getLsbD_and, BitVec.getLsbD_setWidth, BitVec.getLsbD_allOnes, hi, decide_true,
    Bool.true_and]
  exact Bool.and_comm _ _

theorem setWidth_setWidth_le (h : w ≤ 64) (c : BitVec w) : (c.setWidth 64).setWidth w = c :=
  (BitVec.setWidth_setWidth_of_le c h).trans (BitVec.setWidth_eq c)

theorem setWidth_inj (h : w ≤ 64) {c d : BitVec w} :
    c.setWidth 64 = d.setWidth 64 ↔ c = d := by
  refine ⟨fun heq => ?_, congrArg _⟩
  rw [← setWidth_setWidth_le h c, heq, setWidth_setWidth_le h]

theorem setWidth_shiftLeft (h : w ≤ 64) (x : BitVec 64) (k : Nat) :
    (x <<< k).setWidth w = x.setWidth w <<< k := by
  refine BitVec.eq_of_getLsbD_eq fun i hi => ?_
  simp only [BitVec.getLsbD_setWidth, BitVec.getLsbD_shiftLeft, hi, decide_true, Bool.true_and]
  rw [decide_eq_true (by omega : i < 64), decide_eq_true (by omega : i - k < w), Bool.true_and,
    Bool.true_and]

/-- **One turn** is a shift of the register. -/
theorem crcShift_eq (h1 : 1 ≤ w) (h : w ≤ 64) (c : BitVec w) :
    crcShift w poly (c.setWidth 64) = (Crc.shift (poly.setWidth w) c).setWidth 64 := by
  have htop : (c.setWidth 64 &&& (1#64 <<< (w - 1)) ≠ 0#64) ↔ c.msb = true := by
    have hbit : (c.setWidth 64).getLsbD (w - 1) = c.msb := by
      rw [BitVec.getLsbD_setWidth, BitVec.msb_eq_getLsbD_last, decide_eq_true (by omega),
        Bool.true_and]
    have hpow : BitVec.twoPow 64 (w - 1) ≠ 0#64 := fun hzero => by
      have hget := congrArg (fun x => x.getLsbD (w - 1)) hzero
      simp only [BitVec.getLsbD_twoPow, BitVec.getLsbD_zero] at hget
      rw [decide_eq_true (by omega : w - 1 < 64)] at hget
      simp at hget
    rw [← BitVec.twoPow_eq, BitVec.and_twoPow, hbit]
    cases c.msb with
    | true => simpa using hpow
    | false => simp
  have hshift : ((c.setWidth 64) <<< 1).setWidth w = c <<< 1 := by
    rw [setWidth_shiftLeft h, setWidth_setWidth_le h]
  rw [crcShift, Crc.shift]
  by_cases hmsb : c.msb = true
  · rw [if_pos (htop.mpr hmsb), if_pos hmsb, and_crcMask h, BitVec.setWidth_xor, hshift]
  · rw [if_neg (fun hne => hmsb (htop.mp hne)), if_neg hmsb, and_crcMask h, hshift]
    congr 1
    exact BitVec.xor_zero.symm

/-- **Reflection** turns the register around. -/
theorem reflect_eq (h : w ≤ 64) (c : BitVec w) :
    reflect (c.setWidth 64) w = c.reverse.setWidth 64 := by
  have hfold (n : Nat) (hn : n ≤ w) (i : Nat) (hi : i < 64) :
      ((List.range n).foldl (fun out bit =>
        if (c.setWidth 64 >>> bit) &&& 1#64 = 1#64 then out ||| (1#64 <<< (w - 1 - bit)) else out)
        0#64).getLsbD i = (decide (w - n ≤ i ∧ i < w) && c.getLsbD (w - 1 - i)) := by
    induction n with
    | zero =>
        rw [List.range_zero, List.foldl_nil, BitVec.getLsbD_zero, decide_eq_false (by omega),
          Bool.false_and]
    | succ n ih =>
        have hbit : ((c.setWidth 64 >>> n) &&& 1#64 = 1#64) ↔ c.getLsbD n = true := by
          rw [BitVec.and_one_eq_setWidth_ofBool_getLsbD, BitVec.getLsbD_ushiftRight, Nat.add_zero,
            BitVec.getLsbD_setWidth, decide_eq_true (by omega), Bool.true_and]
          cases c.getLsbD n <;> decide
        have hpow : (1#64 <<< (w - 1 - n)).getLsbD i = decide (w - 1 - n = i) := by
          rw [← BitVec.twoPow_eq, BitVec.getLsbD_twoPow, decide_eq_true (by omega), Bool.true_and]
        have hprev := ih (Nat.le_of_succ_le hn)
        rw [List.range_succ, List.foldl_append, List.foldl_cons, List.foldl_nil]
        by_cases hi' : w - 1 - n = i
        · -- the place that this turn decides
          have hn' : w - 1 - i = n := by omega
          rw [decide_eq_false (by omega), Bool.false_and] at hprev
          rw [decide_eq_true (by omega), Bool.true_and, hn']
          split_ifs with hc
          · rw [BitVec.getLsbD_or, hpow, decide_eq_true hi', Bool.or_true, hbit.mp hc]
          · rw [hprev, eq_comm, Bool.eq_false_iff]
            exact fun h => hc (hbit.mpr h)
        · have hrange : (w - (n + 1) ≤ i ∧ i < w) ↔ (w - n ≤ i ∧ i < w) := by omega
          rw [decide_eq_decide.mpr hrange, ← hprev]
          split_ifs
          · rw [BitVec.getLsbD_or, hpow, decide_eq_false hi', Bool.or_false]
          · rfl
  refine BitVec.eq_of_getLsbD_eq fun i hi => ?_
  rw [reflect, hfold w (Nat.le_refl w) i hi, BitVec.getLsbD_setWidth, BitVec.getLsbD_reverse,
    BitVec.getMsbD]
  simp [hi]

/-! ### Bytes and messages -/

/-- The byte whose bits the code feeds in, the most significant first. -/
def fedByte (width : Nat) (refin : Bool) (b : BitVec 8) : BitVec 8 :=
  if refin ∧ width ≠ 8 then b.reverse else b

/-- **A byte** is fed into the register bit by bit. -/
theorem crcByte_eq (h8 : 8 ≤ w) (h : w ≤ 64) (c : BitVec w) (byte : UInt8) :
    crcByte w poly refin (c.setWidth 64) byte =
      (Crc.run (poly.setWidth w) c (Crc.bitsOf (fedByte w refin byte.toBitVec))).setWidth 64 := by
  obtain ⟨b, hb⟩ : ∃ b, b = fedByte w refin byte.toBitVec := ⟨_, rfl⟩
  have hfeed : crcFeed w refin (c.setWidth 64) byte =
      c.setWidth 64 ^^^ (b.setWidth 64 <<< (w - 8)) := by
    rw [crcFeed, hb, fedByte]
    by_cases hw : w = 8
    · rw [if_pos hw, if_neg (fun hand => hand.2 hw), Nat.sub_eq_zero_of_le hw.le,
        BitVec.shiftLeft_zero]
    · cases refin with
      | true => rw [if_neg hw, if_pos rfl, if_pos ⟨rfl, hw⟩, reflect_eq (by decide)]
      | false => rw [if_neg hw, if_neg nofun, if_neg (fun hand => nomatch hand.1)]
  have hplace : (c.setWidth 64 ^^^ (b.setWidth 64 <<< (w - 8))) &&& crcMask w =
      (c ^^^ (b.setWidth w <<< (w - 8))).setWidth 64 := by
    rw [and_crcMask h, BitVec.setWidth_xor, setWidth_setWidth_le h, setWidth_shiftLeft h,
      BitVec.setWidth_setWidth_of_le b h]
  have hbits : (List.range 8).map (b.setWidth w <<< (w - 8)).getMsbD = Crc.bitsOf b := by
    refine List.map_congr_left fun i hi => ?_
    rw [BitVec.getMsbD_shiftLeft, BitVec.getMsbD_setWidth, decide_eq_true (by omega),
      Bool.true_and]
    congr 1
    omega
  have hlow (i : Nat) (hi : 8 ≤ i) : (b.setWidth w <<< (w - 8)).getMsbD i = false := by
    rw [BitVec.getMsbD_shiftLeft]
    exact BitVec.getMsbD_of_ge _ _ (by omega)
  have hshifts (k : Nat) (c : BitVec w) : (crcShift w poly)^[k] (c.setWidth 64) =
      ((Crc.shift (poly.setWidth w))^[k] c).setWidth 64 := by
    induction k generalizing c with
    | zero => rfl
    | succ k ih =>
        rw [Function.iterate_succ_apply, Function.iterate_succ_apply, crcShift_eq (by omega) h, ih]
  rw [crcByte, hfeed, hplace, hshifts, Crc.shift_iterate 8 hlow, hbits, hb]

/-- The register after a message. -/
theorem foldl_crcByte (h8 : 8 ≤ w) (h : w ≤ 64) (bytes : List UInt8) (c : BitVec w) :
    bytes.foldl (crcByte w poly refin) (c.setWidth 64) =
      (Crc.run (poly.setWidth w) c
        (bytes.flatMap fun b => Crc.bitsOf (fedByte w refin b.toBitVec))).setWidth 64 := by
  induction bytes generalizing c with
  | nil => rfl
  | cons b bytes ih =>
      rw [List.foldl_cons, crcByte_eq h8 h, ih, List.flatMap_cons, Crc.run, Crc.run, Crc.run,
        List.foldl_append]

/-- The parameters, in the width of the check. -/
def crcParams (w : Nat) (poly init : BitVec 64) (refin refout : Bool) (xorout : BitVec 64) :
    Crc.Params w :=
  ⟨poly.setWidth w, init.setWidth w, refin, refout, xorout.setWidth w⟩

/-- What the code computes. -/
theorem crcCompute_eq (h8 : 8 ≤ w) (h : w ≤ 64) (bytes : List UInt8) :
    crcCompute bytes w poly init refin refout xorout =
      ((crcParams w poly init refin refout xorout).finish
        (Crc.run (poly.setWidth w) (init.setWidth w)
          (bytes.flatMap fun b => Crc.bitsOf (fedByte w refin b.toBitVec)))).setWidth 64 := by
  rw [crcCompute, and_crcMask h init, foldl_crcByte h8 h]
  rw [and_crcMask h, BitVec.setWidth_xor, Crc.Params.finish]
  cases refout with
  | true => rw [if_pos rfl, reflect_eq h, setWidth_setWidth_le h]; rfl
  | false => rw [if_neg nofun, setWidth_setWidth_le h]; rfl

/-- **When the code computes the check of its parameters**: unless the width is 8 and the bytes are
to be fed in from their least significant bit, and then exactly where the bytes and their mirror
images differ by a multiple of the polynomial. -/
theorem crcCompute_eq_iff (h8 : 8 ≤ w) (h : w ≤ 64) (bytes : List UInt8) :
    crcCompute bytes w poly init refin refout xorout =
        ((crcParams w poly init refin refout xorout).check
          (bytes.map UInt8.toBitVec)).setWidth 64 ↔
      w ≠ 8 ∨ refin = false ∨
        Crc.run (poly.setWidth w) 0#w
          (bytes.flatMap fun b => Crc.bitsOf (b.toBitVec ^^^ b.toBitVec.reverse)) = 0#w := by
  rw [crcCompute_eq h8 h, setWidth_inj h, Crc.Params.check, Crc.Params.finish_inj, List.flatMap_map]
  by_cases hgood : w ≠ 8 ∨ refin = false
  · have hfed (b : BitVec 8) : fedByte w refin b =
        (crcParams w poly init refin refout xorout).fed b := by
      rw [fedByte, Crc.Params.fed, crcParams]
      rcases hgood with hw | rfl
      · simp only [hw, ne_eq, not_false_eq_true, and_true]
      · rfl
    refine iff_of_true ?_ (by tauto)
    simp only [hfed]
    rfl
  · obtain ⟨hw, hrefin⟩ := not_or.mp hgood
    obtain rfl : w = 8 := not_not.mp hw
    obtain rfl : refin = true := by simpa using hrefin
    have hsame (b : UInt8) : fedByte 8 true b.toBitVec = b.toBitVec := if_neg fun hand => hand.2 rfl
    have hother (b : BitVec 8) : (crcParams 8 poly init true refout xorout).fed b = b.reverse := rfl
    obtain ⟨hlen, hzip⟩ := Crc.flatMap_bitsOf_xor (fun b : UInt8 => b.toBitVec)
      (fun b => b.toBitVec.reverse) bytes
    have hlinear := Crc.run_xor hlen (poly.setWidth 8) (init.setWidth 8) (init.setWidth 8)
    rw [BitVec.xor_self, hzip] at hlinear
    simp only [hsame, hother]
    rw [or_iff_right (fun hne => hne rfl), or_iff_right nofun, hlinear, BitVec.xor_eq_zero_iff]
    rfl

/-- The check of a message of two bytes, in 16 bits, reflected. -/
theorem crcCompute_eq_example :
    crcCompute [0x61, 0x62] 16 0x8005 0 true true 0 =
      ((crcParams 16 0x8005 0 true true 0).check ([0x61, 0x62].map UInt8.toBitVec)).setWidth 64 :=
  (crcCompute_eq_iff (by decide) (by decide) _).mpr (.inl (by decide))

/-- A check of 8 bits takes the byte as it is, where it is to be turned around. -/
theorem crcCompute_eight :
    crcCompute [1] 8 7 0 true true 0 = 0xE0#64 ∧
      ((crcParams 8 7 0 true true 0).check ([1].map UInt8.toBitVec)).setWidth 64 = 0x91#64 := by
  refine ⟨?_, ?_⟩ <;> decide

end RevBox.Chef
