import Mathlib.Logic.Basic

/-!
# Agent — Presence

When an Agent that nobody uses leaves (`IdleExit` of `presence.rs`).  It is told every now and then
how many clients are there, and remembers since when there have been none.

* `observe_iff`: it leaves exactly when the last observations, over the whole grace, had no client.

The invariant (`Marks`) says what it remembers: the time of the first observation of the quiet that
reaches up to now, if there is a quiet.
-/

namespace RevBox.Presence

/-- `IdleExit`. -/
structure IdleExit where
  zeroSince : Option Nat

/-- `IdleExit::default`. -/
def IdleExit.fresh : IdleExit := ⟨none⟩

/-- `IdleExit::observe`: the answer, and what is remembered. -/
def IdleExit.observe (machine : IdleExit) (live grace now : Nat) : Bool × IdleExit :=
  if 0 < live then (false, ⟨none⟩)
  else
    let since := machine.zeroSince.getD now
    (decide (grace ≤ now - since), ⟨some since⟩)

section Runs

variable (grace : Nat) (live time : Nat → Nat)

/-- A fresh machine after the first `n` observations. -/
def after : Nat → IdleExit
  | 0 => .fresh
  | n + 1 => ((after n).observe (live n) grace (time n)).2

/-- What the observation `n` answers. -/
def answer (n : Nat) : Bool := ((after grace live time n).observe (live n) grace (time n)).1

/-- From the observation `k` up to `n`, without it, there is no client. -/
def Quiet (k n : Nat) : Prop := ∀ j, k ≤ j → j < n → live j = 0

/-- **What is remembered** after `n` observations: when the quiet up to now began. -/
def Marks (machine : IdleExit) (n : Nat) : Prop :=
  match machine.zeroSince with
  | none => ∀ k < n, ¬ Quiet live k n
  | some since => ∃ k < n, time k = since ∧ Quiet live k n ∧ ∀ i < k, ¬ Quiet live i n

variable {grace live time} {k n : Nat} {machine : IdleExit}

theorem quiet_self : Quiet live n n := fun _ h h' => absurd h' (Nat.not_lt.mpr h)

theorem quiet_succ (hn : live n = 0) : Quiet live k (n + 1) ↔ Quiet live k n := by
  constructor
  · intro h j hk hj
    exact h j hk (Nat.lt_succ_of_lt hj)
  · intro h j hk hj
    rcases Nat.lt_succ_iff_lt_or_eq.mp hj with hj | rfl
    · exact h j hk hj
    · exact hn

theorem not_quiet (hk : k ≤ n) (hn : 0 < live n) : ¬ Quiet live k (n + 1) := fun h => by
  rw [h n hk (Nat.lt_succ_self n)] at hn
  exact Nat.lt_irrefl 0 hn

/-- An observation without a client keeps the mark, or sets it. -/
theorem marks_quiet (h : Marks live time machine n) (hn : live n = 0) :
    ∃ k ≤ n, machine.zeroSince.getD (time n) = time k ∧ Quiet live k (n + 1) ∧
      ∀ i < k, ¬ Quiet live i (n + 1) := by
  unfold Marks at h
  cases hsince : machine.zeroSince with
  | none =>
      rw [hsince] at h
      refine ⟨n, Nat.le_refl n, rfl, (quiet_succ hn).mpr quiet_self, fun i hi hq => ?_⟩
      exact h i hi ((quiet_succ hn).mp hq)
  | some since =>
      rw [hsince] at h
      obtain ⟨k, hk, htime, hquiet, hfirst⟩ := h
      refine ⟨k, Nat.le_of_lt hk, htime.symm, (quiet_succ hn).mpr hquiet, fun i hi hq => ?_⟩
      exact hfirst i hi ((quiet_succ hn).mp hq)

theorem marks_observe (h : Marks live time machine n) :
    Marks live time (machine.observe (live n) grace (time n)).2 (n + 1) := by
  rw [IdleExit.observe]
  split
  · rename_i hn
    intro k hk
    exact not_quiet (Nat.le_of_lt_succ hk) hn
  · rename_i hn
    obtain ⟨k, hk, htime, hquiet, hfirst⟩ := marks_quiet h (Nat.eq_zero_of_not_pos hn)
    exact ⟨k, Nat.lt_succ_of_le hk, htime.symm, hquiet, hfirst⟩

theorem marks_after (n : Nat) : Marks live time (after grace live time n) n := by
  induction n with
  | zero =>
      intro k hk
      exact absurd hk (Nat.not_lt_zero k)
  | succ n ih => exact marks_observe ih

theorem answer_of_busy (hn : 0 < live n) : answer grace live time n = false := by
  rw [answer, IdleExit.observe, if_pos hn]

end Runs

/-- **An Agent leaves after a whole grace without a client**, and only then; so a client restarts
the grace. -/
theorem observe_iff (grace : Nat) (live time : Nat → Nat) (n : Nat)
    (hmono : ∀ i j, i ≤ j → j ≤ n → time i ≤ time j) :
    (answer grace live time n = true ↔
      ∃ k ≤ n, (∀ j, k ≤ j → j ≤ n → live j = 0) ∧ grace ≤ time n - time k) ∧
    ∀ m ≤ n, 0 < live m → answer grace live time n = true →
      m < n ∧ grace ≤ time n - time (m + 1) := by
  have hiff : answer grace live time n = true ↔
      ∃ k ≤ n, (∀ j, k ≤ j → j ≤ n → live j = 0) ∧ grace ≤ time n - time k := by
    by_cases hn : 0 < live n
    · rw [answer_of_busy hn]
      refine ⟨fun h => absurd h Bool.false_ne_true, ?_⟩
      rintro ⟨k, hk, hquiet, -⟩
      rw [hquiet n hk (Nat.le_refl n)] at hn
      exact absurd hn (Nat.lt_irrefl 0)
    · have hmarks : Marks live time (after grace live time n) n := marks_after n
      obtain ⟨k, hk, htime, hquiet, hfirst⟩ := marks_quiet hmarks (Nat.eq_zero_of_not_pos hn)
      rw [answer, IdleExit.observe, if_neg hn, decide_eq_true_iff, htime]
      constructor
      · intro hgrace
        exact ⟨k, hk, fun j hkj hj => hquiet j hkj (Nat.lt_succ_of_le hj), hgrace⟩
      · rintro ⟨i, hi, hall, hgrace⟩
        -- the mark is not behind the start of any other quiet
        have hki : k ≤ i := Nat.le_of_not_lt fun hik =>
          hfirst i hik fun j hij hj => hall j hij (Nat.le_of_lt_succ hj)
        exact Nat.le_trans hgrace (Nat.sub_le_sub_left (hmono k i hki hi) (time n))
  refine ⟨hiff, fun m hm hlive hanswer => ?_⟩
  obtain ⟨k, hk, hall, hgrace⟩ := hiff.mp hanswer
  have hmk : m < k := Nat.lt_of_not_le fun hkm => by
    rw [hall m hkm hm] at hlive
    exact Nat.lt_irrefl 0 hlive
  refine ⟨Nat.lt_of_lt_of_le hmk hk, Nat.le_trans hgrace ?_⟩
  exact Nat.sub_le_sub_left (hmono (m + 1) k hmk hk) (time n)

/-- Nobody is there at 0, 70 and 140 ms, with a grace of 100 ms. -/
theorem observe_empty : ∃ k ≤ 2, (∀ j, k ≤ j → j ≤ 2 → (fun _ => 0 : Nat → Nat) j = 0) ∧
    100 ≤ 70 * 2 - 70 * k :=
  (observe_iff 100 (fun _ => 0) (fun i => 70 * i) 2
    fun _ _ h _ => Nat.mul_le_mul_left 70 h).1.mp rfl

end RevBox.Presence
