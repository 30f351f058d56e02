import Mathlib.Order.Compare

/-!
# Support — Padded

Lists compared from left to right, where an element that is missing counts as a given one.

* `transCmp`: comparing so is an order, up to what is missing, when comparing elements is one.
* `compare_append`: what lists begin with alike does not count.
* `compare_of_head`: the first elements decide, when they differ.
* `compare_append_ne_gt`: a list is not above one that goes on behind it, when what is missing is
  least.
-/

namespace Padded

open Std

variable {α : Type} (cmp : α → α → Ordering) (z : α)

/-- The comparison of nothing with a list. -/
def compareNil : List α → Ordering
  | [] => .eq
  | y :: ys => (cmp z y).then (compareNil ys)

/-- The comparison of lists, with `z` for what is missing. -/
def compare : List α → List α → Ordering
  | [], ys => compareNil cmp z ys
  | x :: xs, ys => (cmp x (ys.headD z)).then (compare xs ys.tail)

/-- A list filled up, or cut off, to a length. -/
def pad : Nat → List α → List α
  | 0, _ => []
  | n + 1, [] => z :: pad n []
  | n + 1, x :: xs => x :: pad n xs

variable {cmp z}

/-- What is compared first, and what then. -/
theorem compare_eq_then [ReflCmp cmp] (xs ys : List α) :
    compare cmp z xs ys =
      (cmp (xs.headD z) (ys.headD z)).then (compare cmp z xs.tail ys.tail) := by
  have hself : cmp z z = .eq := ReflCmp.compare_self
  cases xs with
  | cons x xs => rfl
  | nil =>
      cases ys with
      | nil => simp [compare, compareNil, hself]
      | cons y ys => rfl

theorem pad_succ (n : Nat) (xs : List α) : pad z (n + 1) xs = xs.headD z :: pad z n xs.tail := by
  cases xs <;> rfl

/-- The comparison is that of the lists filled up to one length. -/
theorem compare_eq_pad [ReflCmp cmp] (n : Nat) {xs ys : List α} (hx : xs.length ≤ n)
    (hy : ys.length ≤ n) :
    compare cmp z xs ys = List.compareLex cmp (pad z n xs) (pad z n ys) := by
  induction n generalizing xs ys with
  | zero =>
      rw [List.eq_nil_of_length_eq_zero (Nat.le_zero.mp hx),
        List.eq_nil_of_length_eq_zero (Nat.le_zero.mp hy)]
      rfl
  | succ n ih =>
      have hx' : xs.tail.length ≤ n := by simpa using hx
      have hy' : ys.tail.length ≤ n := by simpa using hy
      rw [compare_eq_then, pad_succ, pad_succ, List.compareLex_cons_cons, ih hx' hy']

/-- **Comparing so is an order**, up to what is missing. -/
theorem transCmp [TransCmp cmp] : TransCmp (compare cmp z) where
  eq_swap {xs ys} := by
    have hx : xs.length ≤ xs.length + ys.length := Nat.le_add_right _ _
    have hy : ys.length ≤ xs.length + ys.length := Nat.le_add_left _ _
    rw [compare_eq_pad _ hx hy, compare_eq_pad _ hy hx]
    exact OrientedCmp.eq_swap
  isLE_trans {xs ys zs} hxy hyz := by
    have hx : xs.length ≤ xs.length + ys.length + zs.length := by omega
    have hy : ys.length ≤ xs.length + ys.length + zs.length := by omega
    have hz : zs.length ≤ xs.length + ys.length + zs.length := by omega
    rw [compare_eq_pad _ hx hy] at hxy
    rw [compare_eq_pad _ hy hz] at hyz
    rw [compare_eq_pad _ hx hz]
    exact TransCmp.isLE_trans hxy hyz

/-- What both begin with does not count. -/
theorem compare_append [ReflCmp cmp] (common xs ys : List α) :
    compare cmp z (common ++ xs) (common ++ ys) = compare cmp z xs ys := by
  induction common with
  | nil => rfl
  | cons x common ih =>
      have hself : cmp x x = .eq := ReflCmp.compare_self
      rw [List.cons_append, List.cons_append, compare, List.headD_cons, List.tail_cons, hself, ih]
      rfl

/-- The first elements decide, when they differ. -/
theorem compare_of_head [ReflCmp cmp] {xs ys : List α} (h : cmp (xs.headD z) (ys.headD z) ≠ .eq) :
    compare cmp z xs ys = cmp (xs.headD z) (ys.headD z) := by
  rw [compare_eq_then]
  cases hcmp : cmp (xs.headD z) (ys.headD z) with
  | eq => exact absurd hcmp h
  | lt | gt => rfl

/-- Nothing is not above something, when what is missing is least. -/
theorem compareNil_ne_gt (hz : ∀ x, cmp z x ≠ .gt) (ys : List α) : compareNil cmp z ys ≠ .gt := by
  induction ys with
  | nil => nofun
  | cons y ys ih =>
      rw [compareNil]
      cases h : cmp z y with
      | lt => nofun
      | eq => exact ih
      | gt => exact absurd h (hz y)

theorem compare_append_ne_gt [ReflCmp cmp] (hz : ∀ x, cmp z x ≠ .gt) (xs rest : List α) :
    compare cmp z xs (xs ++ rest) ≠ .gt := by
  have h : compare cmp z xs (xs ++ rest) = compare cmp z [] rest := by
    simpa using compare_append xs [] rest
  rw [h]
  exact compareNil_ne_gt hz rest

end Padded
