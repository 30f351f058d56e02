import Mathlib.Data.Nat.Digits.Lemmas

/-!
# Support — Numeral

Numbers written with the most significant digit first, in any base.

* `digits_value`: digits that do not begin with zero are those of the number they spell.
* `value_map_eq_iff`: where each digit is replaced by one that is not greater, the number stays only
  if all digits do.
-/

namespace Numeral

/-- The number that digits spell. -/
def value (B : Nat) (ds : List Nat) : Nat := Nat.ofDigits B ds.reverse

/-- Digits that do not begin with zero. -/
def Trimmed (ds : List Nat) : Prop := ds.head? ≠ some 0

variable {B d : Nat} {ds es : List Nat}

@[simp] theorem value_nil : value B [] = 0 := rfl

theorem value_concat (ds : List Nat) (d : Nat) : value B (ds ++ [d]) = B * value B ds + d := by
  rw [value, List.reverse_append, List.reverse_singleton, List.singleton_append, Nat.ofDigits_cons,
    value, Nat.add_comm]

theorem value_cons (d : Nat) (ds : List Nat) :
    value B (d :: ds) = d * B ^ ds.length + value B ds := by
  rw [value, List.reverse_cons, Nat.ofDigits_append, Nat.ofDigits_singleton, List.length_reverse,
    value, Nat.mul_comm d, Nat.add_comm]

theorem value_append (ds es : List Nat) :
    value B (ds ++ es) = value B ds * B ^ es.length + value B es := by
  rw [value, List.reverse_append, Nat.ofDigits_append, List.length_reverse, value, value,
    Nat.mul_comm (Nat.ofDigits B ds.reverse), Nat.add_comm]

theorem value_zeros (n : Nat) : value B (List.replicate n 0) = 0 := by
  rw [value, List.reverse_replicate, Nat.ofDigits_replicate_zero]

theorem value_lt (hB : 1 < B) (hlt : ∀ d ∈ ds, d < B) : value B ds < B ^ ds.length := by
  have h := Nat.ofDigits_lt_base_pow_length hB fun d hd => hlt d (List.mem_reverse.mp hd)
  rwa [List.length_reverse] at h

theorem value_digits (B n : Nat) : value B (Nat.digits B n).reverse = n := by
  rw [value, List.reverse_reverse, Nat.ofDigits_digits]

theorem trimmed_nil : Trimmed [] := fun h => by cases h

theorem trimmed_cons : Trimmed (d :: ds) ↔ d ≠ 0 := by
  rw [Trimmed, List.head?_cons]
  exact not_congr Option.some_inj

/-- **Trimmed digits are the digits of their number.** -/
theorem digits_value (hB : 1 < B) (hlt : ∀ d ∈ ds, d < B) (ht : Trimmed ds) :
    Nat.digits B (value B ds) = ds.reverse := by
  refine Nat.digits_ofDigits B hB ds.reverse (fun d hd => hlt d (List.mem_reverse.mp hd)) ?_
  intro hne
  rw [List.getLast_reverse]
  intro hzero
  refine ht ?_
  rw [← hzero]
  exact List.head?_eq_some_head _

theorem trimmed_digits (B n : Nat) : Trimmed (Nat.digits B n).reverse := by
  intro h
  rw [List.head?_reverse] at h
  by_cases hn : n = 0
  · rw [hn, Nat.digits_zero] at h
    cases h
  · have hne : Nat.digits B n ≠ [] := Nat.digits_ne_nil_iff_ne_zero.mpr hn
    rw [List.getLast?_eq_some_getLast hne] at h
    exact Nat.getLast_digit_ne_zero B hn (Option.some.inj h)

/-- Trimmed digits are settled by their number. -/
theorem value_inj (hB : 1 < B) (hds : ∀ d ∈ ds, d < B) (hes : ∀ d ∈ es, d < B) (htd : Trimmed ds)
    (hte : Trimmed es) : value B ds = value B es ↔ ds = es := by
  constructor
  · intro h
    have hrev := (digits_value hB hds htd).symm.trans ((congrArg (Nat.digits B) h).trans
      (digits_value hB hes hte))
    exact List.reverse_inj.mp hrev
  · rintro rfl
    rfl

theorem value_map_le {f : Nat → Nat} (hf : ∀ d, f d ≤ d) (ds : List Nat) :
    value B (ds.map f) ≤ value B ds := by
  induction ds with
  | nil => exact Nat.le_refl 0
  | cons d ds ih =>
      rw [List.map_cons, value_cons, value_cons, List.length_map]
      exact Nat.add_le_add (Nat.mul_le_mul_right _ (hf d)) ih

/-- **Digits that only get smaller** spell the same number only if they stay. -/
theorem value_map_eq_iff (hB : 0 < B) {f : Nat → Nat} (hf : ∀ d, f d ≤ d) (ds : List Nat) :
    value B (ds.map f) = value B ds ↔ ∀ d ∈ ds, f d = d := by
  induction ds with
  | nil => simp
  | cons d ds ih =>
      rw [List.map_cons, value_cons, value_cons, List.length_map, List.forall_mem_cons, ← ih]
      have hhead : f d * B ^ ds.length ≤ d * B ^ ds.length := Nat.mul_le_mul_right _ (hf d)
      have htail : value B (ds.map f) ≤ value B ds := value_map_le hf ds
      constructor
      · intro h
        have hpow : 0 < B ^ ds.length := Nat.pow_pos hB
        have heq : f d * B ^ ds.length = d * B ^ ds.length := by omega
        exact ⟨Nat.eq_of_mul_eq_mul_right hpow heq, by omega⟩
      · rintro ⟨hd, hds⟩
        rw [hd, hds]

end Numeral
