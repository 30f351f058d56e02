import Mathlib.Algebra.CharP.Two
import Mathlib.Algebra.Field.ZMod
import Mathlib.Algebra.Polynomial.Div
import Mathlib.Data.BitVec
import Mathlib.Data.ZMod.Basic
import Mathlib.Logic.Function.Iterate

/-!
# Support — Crc

The parametrised cyclic redundancy check: a message is divided, bit by bit, by a polynomial over
the field of two elements.

* `shift_iterate`: a register takes in several bits at once, if they are added to its top first.
* `run_xor`: the register is linear in what it is fed.
* `toPoly_run`: the register is the remainder of the message.
-/

namespace Crc

variable {w : Nat}

/-- The register moves up by a place, and the polynomial is taken off what leaves it. -/
def shift (poly r : BitVec w) : BitVec w := (r <<< 1) ^^^ (if r.msb then poly else 0)

/-- A bit of the message comes in at the top. -/
def feed (poly r : BitVec w) (bit : Bool) : BitVec w :=
  (r <<< 1) ^^^ (if r.msb ^^ bit then poly else 0)

/-- The bits of a message, one after the other. -/
def run (poly r : BitVec w) (bits : List Bool) : BitVec w := bits.foldl (feed poly) r

/-- The bits of a byte, the most significant first. -/
def bitsOf (b : BitVec 8) : List Bool := (List.range 8).map b.getMsbD

/-- The parameters of a check. -/
structure Params (w : Nat) where
  poly : BitVec w
  init : BitVec w
  refin : Bool
  refout : Bool
  xorout : BitVec w

namespace Params

/-- A byte in the order its bits are fed in. -/
def fed (c : Params w) (b : BitVec 8) : BitVec 8 := if c.refin then b.reverse else b

/-- What is read off the register. -/
def finish (c : Params w) (r : BitVec w) : BitVec w :=
  (if c.refout then r.reverse else r) ^^^ c.xorout

/-- The check of a message. -/
def check (c : Params w) (message : List (BitVec 8)) : BitVec w :=
  c.finish (run c.poly c.init (message.flatMap fun b => bitsOf (c.fed b)))

theorem finish_inj {c : Params w} {r s : BitVec w} : c.finish r = c.finish s ↔ r = s := by
  refine ⟨fun h => ?_, congrArg c.finish⟩
  have hxor : (if c.refout then r.reverse else r) = if c.refout then s.reverse else s :=
    (BitVec.xor_left_inj c.xorout).mp h
  split_ifs at hxor
  · rw [← BitVec.reverse_reverse_eq (x := r), hxor, BitVec.reverse_reverse_eq]
  · exact hxor

end Params

variable {poly r s t : BitVec w} {as bs : List Bool}

/-! ### Linearity -/

theorem feed_xor (poly r s : BitVec w) (a b : Bool) :
    feed poly (r ^^^ s) (a ^^ b) = feed poly r a ^^^ feed poly s b := by
  have hbit : ((r ^^^ s).msb ^^ (a ^^ b)) = ((r.msb ^^ a) ^^ (s.msb ^^ b)) := by
    rw [BitVec.msb_xor]
    cases r.msb <;> cases s.msb <;> cases a <;> cases b <;> rfl
  have hpoly (a b : Bool) : (if a ^^ b then poly else 0) =
      (if a then poly else 0) ^^^ (if b then poly else 0) := by
    cases a <;> cases b <;> simp
  rw [feed, feed, feed, hbit, hpoly, BitVec.shiftLeft_xor_distrib]
  ac_rfl

/-- **The register is linear** in what it starts with and what it is fed. -/
theorem run_xor (h : as.length = bs.length) (poly r s : BitVec w) :
    run poly (r ^^^ s) (List.zipWith xor as bs) = run poly r as ^^^ run poly s bs := by
  induction as generalizing bs r s with
  | nil =>
      cases bs with
      | nil => rfl
      | cons b bs => cases h
  | cons a as ih =>
      cases bs with
      | nil => cases h
      | cons b bs =>
          simp only [run, List.zipWith_cons_cons, List.foldl_cons, feed_xor]
          exact ih (Nat.succ.inj h) _ _

theorem length_bitsOf (b : BitVec 8) : (bitsOf b).length = 8 := List.length_map _

theorem bitsOf_xor (a b : BitVec 8) :
    List.zipWith xor (bitsOf a) (bitsOf b) = bitsOf (a ^^^ b) := by
  rw [bitsOf, bitsOf, List.zipWith_map, List.zipWith_self]
  exact List.map_congr_left fun i _ => BitVec.getMsbD_xor.symm

/-- The bits of two messages, byte by byte. -/
theorem flatMap_bitsOf_xor {α : Type} (f g : α → BitVec 8) (l : List α) :
    (l.flatMap fun a => bitsOf (f a)).length = (l.flatMap fun a => bitsOf (g a)).length ∧
      List.zipWith xor (l.flatMap fun a => bitsOf (f a)) (l.flatMap fun a => bitsOf (g a)) =
        l.flatMap fun a => bitsOf (f a ^^^ g a) := by
  induction l with
  | nil => exact ⟨rfl, rfl⟩
  | cons a l ih =>
      have hlen : (bitsOf (f a)).length = (bitsOf (g a)).length := by
        rw [length_bitsOf, length_bitsOf]
      simp only [List.flatMap_cons, List.length_append, hlen, ih.1,
        List.zipWith_append hlen, bitsOf_xor, ih.2, and_self]

/-! ### Several bits at once -/

theorem shift_xor (poly r t : BitVec w) :
    shift poly (r ^^^ t) = feed poly r t.msb ^^^ (t <<< 1) := by
  rw [shift, feed, BitVec.msb_xor, BitVec.shiftLeft_xor_distrib]
  ac_rfl

/-- **Bits that are added to the top of the register first** are fed in by as many shifts. -/
theorem shift_iterate (k : Nat) (h : ∀ i, k ≤ i → t.getMsbD i = false) (poly r : BitVec w) :
    (shift poly)^[k] (r ^^^ t) = run poly r ((List.range k).map t.getMsbD) := by
  induction k generalizing r t with
  | zero =>
      have ht : t = 0#w := BitVec.eq_of_getMsbD_eq fun i _ => by rw [h i (Nat.zero_le i)]; simp
      rw [ht, BitVec.xor_zero]
      rfl
  | succ k ih =>
      have htail : ∀ i, k ≤ i → (t <<< 1).getMsbD i = false := fun i hi => by
        rw [BitVec.getMsbD_shiftLeft]
        exact h _ (by omega)
      have hbits : (List.range k).map (t <<< 1).getMsbD =
          (List.range k).map fun i => t.getMsbD (i + 1) :=
        List.map_congr_left fun i _ => BitVec.getMsbD_shiftLeft t 1
      rw [Function.iterate_succ_apply, shift_xor, ih htail, hbits, List.range_succ_eq_map,
        List.map_cons, List.map_map, run, run, List.foldl_cons]
      rfl

/-! ### Division -/

open Polynomial

/-- The polynomial that a register holds. -/
noncomputable def toPoly (r : BitVec w) : (ZMod 2)[X] :=
  ∑ i ∈ Finset.range w, if r.getLsbD i then X ^ i else 0

/-- The polynomial that is divided by. -/
noncomputable def generator (poly : BitVec w) : (ZMod 2)[X] := X ^ w + toPoly poly

/-- The polynomial of a message: its first bit is the coefficient of the highest power. -/
noncomputable def ofBits : List Bool → (ZMod 2)[X]
  | [] => 0
  | b :: bs => (if b then X ^ bs.length else 0) + ofBits bs

theorem toPoly_xor (r s : BitVec w) : toPoly (r ^^^ s) = toPoly r + toPoly s := by
  rw [toPoly, toPoly, toPoly, ← Finset.sum_add_distrib]
  refine Finset.sum_congr rfl fun i _ => ?_
  rw [BitVec.getLsbD_xor]
  cases r.getLsbD i <;> cases s.getLsbD i <;> simp [CharTwo.add_self_eq_zero]

theorem degree_toPoly_lt (r : BitVec w) : (toPoly r).degree < w := by
  refine (degree_sum_le _ _).trans_lt ?_
  refine (Finset.sup_lt_iff (WithBot.bot_lt_coe w)).mpr fun i hi => ?_
  split_ifs
  · rw [degree_X_pow]
    exact WithBot.coe_lt_coe.mpr (Finset.mem_range.mp hi)
  · rw [degree_zero]
    exact WithBot.bot_lt_coe w

theorem monic_generator (poly : BitVec w) : (generator poly).Monic :=
  monic_X_pow_add (degree_toPoly_lt poly)

theorem toPoly_zero : toPoly (0#w) = 0 := by
  rw [toPoly]
  exact Finset.sum_eq_zero fun i _ => by rw [BitVec.getLsbD_zero, if_neg nofun]

/-- A place up is a factor of `X`, but for what leaves the register. -/
theorem toPoly_shiftLeft (r : BitVec w) :
    X * toPoly r = toPoly (r <<< 1) + if r.msb then X ^ w else 0 := by
  cases w with
  | zero =>
      rw [BitVec.of_length_zero (x := r)]
      simp [toPoly]
  | succ n =>
      have hlow : (r <<< 1).getLsbD 0 = false := by simp
      have hnext (i : Nat) (hi : i ∈ Finset.range n) :
          (if (r <<< 1).getLsbD (i + 1) then X ^ (i + 1) else 0 : (ZMod 2)[X]) =
            X * if r.getLsbD i then X ^ i else 0 := by
        have hlt := Finset.mem_range.mp hi
        rw [BitVec.getLsbD_shiftLeft, decide_eq_true (by omega : i + 1 < n + 1),
          decide_eq_false (by omega : ¬ i + 1 < 1), Nat.add_sub_cancel]
        cases r.getLsbD i <;> simp [pow_succ']
      rw [toPoly, toPoly, Finset.sum_range_succ, Finset.sum_range_succ', hlow,
        Finset.sum_congr rfl hnext, mul_add, Finset.mul_sum, BitVec.msb_eq_getLsbD_last,
        Nat.add_sub_cancel]
      cases r.getLsbD n <;> simp [pow_succ']

/-- A bit that is fed in leaves the remainder of the message so far. -/
theorem dvd_feed (poly r : BitVec w) (b : Bool) : generator poly ∣
    X * toPoly r + (if b then X ^ w else 0) - toPoly (feed poly r b) := by
  have hdiff : X * toPoly r + (if b then X ^ w else 0) - toPoly (feed poly r b) =
      if r.msb ^^ b then generator poly else 0 := by
    rw [feed, toPoly_xor, toPoly_shiftLeft, generator]
    have hadd (a b : Bool) : (if a then X ^ w else 0) + (if b then X ^ w else 0) =
        if a ^^ b then X ^ w else (0 : (ZMod 2)[X]) := by
      cases a <;> cases b <;> simp [CharTwo.add_self_eq_zero]
    rw [add_assoc, hadd, add_sub_add_left_eq_sub]
    cases r.msb ^^ b with
    | false => simp [toPoly_zero]
    | true => simp [CharTwo.sub_eq_add]
  rw [hdiff]
  split_ifs
  · exact dvd_rfl
  · exact dvd_zero _

/-- The register and the message leave the same remainder. -/
theorem dvd_run (poly r : BitVec w) (bits : List Bool) : generator poly ∣
    X ^ bits.length * toPoly r + X ^ w * ofBits bits - toPoly (run poly r bits) := by
  induction bits generalizing r with
  | nil => simp [run, ofBits]
  | cons b bits ih =>
      have hstep := (dvd_feed poly r b).mul_left (X ^ bits.length)
      have hsum := dvd_add hstep (ih (feed poly r b))
      have heq : X ^ (b :: bits).length * toPoly r + X ^ w * ofBits (b :: bits) -
          toPoly (run poly r (b :: bits)) =
          X ^ bits.length * (X * toPoly r + (if b then X ^ w else 0) - toPoly (feed poly r b)) +
          (X ^ bits.length * toPoly (feed poly r b) + X ^ w * ofBits bits -
            toPoly (run poly (feed poly r b) bits)) := by
        rw [run, List.foldl_cons, ← run, ofBits, List.length_cons]
        cases b <;> simp <;> ring
      rwa [heq]

/-- **The register is the remainder** of what it started with and the message. -/
theorem toPoly_run (poly r : BitVec w) (bits : List Bool) : toPoly (run poly r bits) =
    (X ^ bits.length * toPoly r + X ^ w * ofBits bits) %ₘ generator poly := by
  have hdegree : (toPoly (run poly r bits)).degree < (generator poly).degree := by
    rw [generator, degree_add_eq_left_of_degree_lt] <;> rw [degree_X_pow]
    · exact degree_toPoly_lt _
    · exact degree_toPoly_lt _
  rw [modByMonic_eq_of_dvd_sub (monic_generator poly) (dvd_run poly r bits)]
  exact ((modByMonic_eq_self_iff (monic_generator poly)).mpr hdegree).symm

theorem toPoly_eq_zero : toPoly r = 0 ↔ r = 0#w := by
  refine ⟨fun h => BitVec.eq_of_getLsbD_eq fun i hi => ?_, fun h => h ▸ toPoly_zero⟩
  have hcoeff := congrArg (fun q => q.coeff i) h
  rw [toPoly] at hcoeff
  simp only [finsetSum_coeff, coeff_zero] at hcoeff
  rw [Finset.sum_eq_single_of_mem i (Finset.mem_range.mpr hi) fun j _ hj => by
    split_ifs
    · rw [coeff_X_pow, if_neg hj.symm]
    · exact coeff_zero i] at hcoeff
  rw [BitVec.getLsbD_zero, Bool.eq_false_iff]
  intro hbit
  rw [if_pos hbit, coeff_X_pow, if_pos rfl] at hcoeff
  exact one_ne_zero hcoeff

/-- **What leaves no remainder is a multiple.** -/
theorem run_eq_zero_iff (poly : BitVec w) (bits : List Bool) :
    run poly 0#w bits = 0#w ↔ generator poly ∣ X ^ w * ofBits bits := by
  rw [← toPoly_eq_zero, toPoly_run, toPoly_zero, mul_zero, zero_add,
    modByMonic_eq_zero_iff_dvd (monic_generator poly)]

end Crc
