import Mathlib.Data.List.Basic

/-!
# Support — Chaining

Loops that carry a register over the pieces of an input, and what undoes them.

* `run_run`: a loop whose every turn is undone by a turn of another is undone by the other.
* `chunks_flatten`: the pieces of a text are found again after each was replaced by one as long.
-/

namespace Chaining

variable {α β σ τ : Type}

/-- The outputs of a loop: every turn takes the register and a piece, and leaves an output and the
next register. -/
def run (turn : σ → α → β × σ) (register : σ) : List α → List β
  | [] => []
  | a :: as => (turn register a).1 :: run turn (turn register a).2 as

/-- Every turn of one loop is undone by a turn of the other, while their registers are related. -/
def Undoes (R : σ → τ → Prop) (P : α → Prop) (turn : σ → α → β × σ) (back : τ → β → α × τ) : Prop :=
  ∀ s t a, R s t → P a → (back t (turn s a).1).1 = a ∧ R (turn s a).2 (back t (turn s a).1).2

/-- **A loop is undone by the loop that undoes its turns.** -/
theorem run_run {R : σ → τ → Prop} {P : α → Prop} {turn : σ → α → β × σ} {back : τ → β → α × τ}
    (h : Undoes R P turn back) {s : σ} {t : τ} (hr : R s t) {as : List α} (has : ∀ a ∈ as, P a) :
    run back t (run turn s as) = as := by
  induction as generalizing s t with
  | nil => rfl
  | cons a as ih =>
      obtain ⟨ha, hnext⟩ := h s t a hr (has a List.mem_cons_self)
      rw [run, run, ha, ih hnext fun b hb => has b (List.mem_cons_of_mem _ hb)]

/-- An invariant of the register, and what it makes of every output. -/
theorem forall_run {I : σ → Prop} {R : α → β → Prop} {P : α → Prop} {turn : σ → α → β × σ}
    (h : ∀ s a, I s → P a → R a (turn s a).1 ∧ I (turn s a).2) {s : σ} (hs : I s) {as : List α}
    (has : ∀ a ∈ as, P a) : List.Forall₂ R as (run turn s as) := by
  induction as generalizing s with
  | nil => exact .nil
  | cons a as ih =>
      obtain ⟨ha, hnext⟩ := h s a hs (has a List.mem_cons_self)
      exact .cons ha (ih hnext fun b hb => has b (List.mem_cons_of_mem _ hb))

/-! ### Pieces -/

/-- `chunks`: pieces of `n`, the last with what is left. -/
def chunks (n : Nat) (as : List α) : List (List α) :=
  if _ : as = [] ∨ n = 0 then [] else as.take n :: chunks n (as.drop n)
termination_by as.length
decreasing_by
  rename_i h
  obtain ⟨hne, hn⟩ := not_or.mp h
  have := List.length_pos_iff.mpr hne
  rw [List.length_drop]
  omega

@[simp] theorem chunks_nil (n : Nat) : chunks n ([] : List α) = [] := by
  rw [chunks, dif_pos (.inl rfl)]

theorem chunks_of_ne_nil {n : Nat} (hn : 0 < n) {as : List α} (h : as ≠ []) :
    chunks n as = as.take n :: chunks n (as.drop n) := by
  rw [chunks, dif_neg (not_or.mpr ⟨h, Nat.ne_of_gt hn⟩)]

/-- Induction along the pieces. -/
theorem chunks_induction {n : Nat} (hn : 0 < n) {P : List α → Prop} (nil : P [])
    (piece : ∀ as, as ≠ [] → P (as.drop n) → P as) (as : List α) : P as := by
  induction hl : as.length using Nat.strongRecOn generalizing as with
  | ind k ih =>
      by_cases h : as = []
      · rw [h]
        exact nil
      · refine piece as h (ih _ ?_ (as.drop n) rfl)
        have := List.length_pos_iff.mpr h
        rw [List.length_drop]
        omega

theorem flatten_chunks {n : Nat} (hn : 0 < n) (as : List α) : (chunks n as).flatten = as := by
  refine chunks_induction hn (P := fun as => (chunks n as).flatten = as) ?_ (fun as h ih => ?_) as
  · rw [chunks_nil]
    rfl
  · rw [chunks_of_ne_nil hn h, List.flatten_cons, ih, List.take_append_drop]

/-- No piece is empty or longer than `n`. -/
theorem length_of_mem_chunks {n : Nat} (hn : 0 < n) (as : List α) :
    ∀ c ∈ chunks n as, 0 < c.length ∧ c.length ≤ n := by
  refine chunks_induction hn (P := fun as => ∀ c ∈ chunks n as, 0 < c.length ∧ c.length ≤ n) ?_
    (fun as h ih => ?_) as
  · rw [chunks_nil]
    exact fun _ hc => by cases hc
  · rw [chunks_of_ne_nil hn h]
    intro c hc
    rcases List.mem_cons.mp hc with rfl | hc
    · have := List.length_pos_iff.mpr h
      rw [List.length_take]
      omega
    · exact ih c hc

/-- The pieces of what is made of whole pieces are whole. -/
theorem length_of_dvd {n : Nat} (hn : 0 < n) (as : List α) :
    n ∣ as.length → ∀ c ∈ chunks n as, c.length = n := by
  refine chunks_induction hn (P := fun as => n ∣ as.length → ∀ c ∈ chunks n as, c.length = n) ?_
    (fun as h ih hdvd => ?_) as
  · rw [chunks_nil]
    exact fun _ _ hc => by cases hc
  · have hpos := List.length_pos_iff.mpr h
    have hle := Nat.le_of_dvd hpos hdvd
    rw [chunks_of_ne_nil hn h]
    intro c hc
    rcases List.mem_cons.mp hc with rfl | hc
    · rw [List.length_take]
      omega
    · refine ih ?_ c hc
      rw [List.length_drop]
      exact Nat.dvd_sub hdvd (Nat.dvd_refl n)

/-- **The pieces are found again** after each was replaced by one as long. -/
theorem chunks_flatten {n : Nat} (hn : 0 < n) (as : List α) : ∀ {cs : List (List β)},
    List.Forall₂ (fun c c' => c'.length = c.length) (chunks n as) cs → chunks n cs.flatten = cs := by
  refine chunks_induction hn (P := fun as => ∀ {cs : List (List β)},
    List.Forall₂ (fun c c' => c'.length = c.length) (chunks n as) cs → chunks n cs.flatten = cs)
    ?_ (fun as h ih cs hcs => ?_) as
  · intro cs hcs
    rw [chunks_nil] at hcs
    cases hcs
    exact chunks_nil n
  · have hpos := List.length_pos_iff.mpr h
    rw [chunks_of_ne_nil hn h] at hcs
    cases hcs with
    | @cons _ c _ cs hlen hrest =>
      rw [List.length_take] at hlen
      have hne : (c :: cs).flatten ≠ [] := by
        refine List.length_pos_iff.mp ?_
        rw [List.flatten_cons, List.length_append]
        omega
      have htail : (c :: cs).flatten.take n = c ∧ (c :: cs).flatten.drop n = cs.flatten := by
        rw [List.flatten_cons]
        by_cases hlong : n ≤ as.length
        · have hc : c.length = n := by omega
          rw [← hc]
          exact ⟨List.take_left, List.drop_left⟩
        · -- the last piece
          have hnil : as.drop n = [] := List.drop_eq_nil_of_le (by omega)
          rw [hnil, chunks_nil] at hrest
          cases hrest
          rw [List.flatten_nil, List.append_nil]
          exact ⟨List.take_of_length_le (by omega), List.drop_eq_nil_of_le (by omega)⟩
      rw [chunks_of_ne_nil hn hne, htail.1, htail.2, ih hrest]

end Chaining
