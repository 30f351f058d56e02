import RevBox.Support.Machine
import Mathlib.Order.Basic
import Mathlib.Data.Nat.Init
import Mathlib.Data.Nat.Find

/-!
# Support — Fairness

Infinite executions of a machine, idle moments included, and what happens in them eventually.

* `Execution.eventually`: where a weakly fair party brings a measure down with each of its moves,
  and nobody else brings it up, the goal is reached.
* `Execution.ofRun`: a finite run, idling for ever after.
-/

universe u v

namespace Machine

variable {σ : Type u} {ℓ : Type v}

/-- An infinite execution: at each moment a labelled step, or none. -/
structure Execution (M : Machine σ ℓ) where
  state : Nat → σ
  label : Nat → Option ℓ
  init : M.init (state 0)
  next : ∀ n, match label n with
    | none => state (n + 1) = state n
    | some l => M.step (state n) l = some (state (n + 1))

namespace Execution

variable {M : Machine σ ℓ} (e : M.Execution)

theorem idle {n : Nat} (h : e.label n = none) : e.state (n + 1) = e.state n := by
  have := e.next n
  rwa [h] at this

theorem moves {n : Nat} {l : ℓ} (h : e.label n = some l) :
    M.step (e.state n) l = some (e.state (n + 1)) := by
  have := e.next n
  rwa [h] at this

/-- What every step taken from `n` on keeps holds from `n` on. -/
theorem stable {P : σ → Prop} {n : Nat} (hn : P (e.state n))
    (h : ∀ m ≥ n, ∀ l, e.label m = some l → P (e.state m) → P (e.state (m + 1))) :
    ∀ m ≥ n, P (e.state m) := by
  intro m hm
  induction m, hm using Nat.le_induction with
  | base => exact hn
  | succ m hm ih =>
      cases hl : e.label m with
      | none => rwa [e.idle hl]
      | some l => exact h m hm l hl ih

/-- What holds initially and is kept by every step holds at every moment. -/
theorem invariant {I : σ → Prop} (h₀ : ∀ s, M.init s → I s)
    (hI : ∀ s l s', I s → M.step s l = some s' → I s') (n : Nat) : I (e.state n) :=
  e.stable (h₀ _ e.init) (fun _ _ _ hl hi => hI _ _ _ hi (e.moves hl)) n (Nat.zero_le n)

theorem reach (n : Nat) : M.Reach (e.state n) :=
  e.invariant (I := M.Reach) (fun s hs => ⟨s, [], hs, .refl s⟩) (fun _ _ _ h hs => h.step hs) n

/-- Weak fairness: a party that can move from some moment on moves again. -/
def WeaklyFair (enabled : σ → Prop) (own : ℓ → Prop) : Prop :=
  ∀ n, (∀ m ≥ n, enabled (e.state m)) → ∃ m ≥ n, ∃ l, e.label m = some l ∧ own l

/-- **Progress under weak fairness.** -/
theorem eventually {enabled goal : σ → Prop} {own : ℓ → Prop} (hfair : e.WeaklyFair enabled own)
    (μ : σ → Nat) {n : Nat} (henabled : ∀ m ≥ n, ¬ goal (e.state m) → enabled (e.state m))
    (hown : ∀ m ≥ n, ∀ l, e.label m = some l → own l → ¬ goal (e.state m) →
      μ (e.state (m + 1)) < μ (e.state m))
    (hother : ∀ m ≥ n, ∀ l, e.label m = some l → ¬ own l → μ (e.state (m + 1)) ≤ μ (e.state m)) :
    ∃ m ≥ n, goal (e.state m) := by
  classical
  by_contra hnever
  have hnot : ∀ m ≥ n, ¬ goal (e.state m) := fun m hm hg => hnever ⟨m, hm, hg⟩
  have hstep : ∀ m ≥ n, μ (e.state (m + 1)) ≤ μ (e.state m) := by
    intro m hm
    cases hl : e.label m with
    | none => exact (congrArg μ (e.idle hl)).le
    | some l =>
        by_cases ho : own l
        · exact Nat.le_of_lt (hown m hm l hl ho (hnot m hm))
        · exact hother m hm l hl ho
  have hmono : ∀ m ≥ n, ∀ j ≥ m, μ (e.state j) ≤ μ (e.state m) := by
    intro m hm j hj
    induction j, hj using Nat.le_induction with
    | base => exact Nat.le_refl _
    | succ j hj ih => exact Nat.le_trans (hstep j (Nat.le_trans hm hj)) ih
  -- at the moment where the measure is least the party has one more move to make
  have hex : ∃ k, ∃ m ≥ n, μ (e.state m) = k := ⟨_, n, Nat.le_refl n, rfl⟩
  obtain ⟨m, hm, hk⟩ := Nat.find_spec hex
  have hen : ∀ j ≥ m, enabled (e.state j) := fun j hj =>
    henabled j (Nat.le_trans hm hj) (hnot j (Nat.le_trans hm hj))
  obtain ⟨j, hj, l, hl, ho⟩ := hfair m hen
  have hjn : n ≤ j := Nat.le_trans hm hj
  have hlt : μ (e.state (j + 1)) < Nat.find hex :=
    hk ▸ Nat.lt_of_lt_of_le (hown j hjn l hl ho (hnot j hjn)) (hmono m hm j hj)
  exact Nat.find_min hex hlt ⟨j + 1, Nat.le_succ_of_le hjn, rfl⟩

end Execution

/-! ### Finite runs as executions -/

/-- The states of a run by `ls` from `s`, the last one for ever. -/
def visited (M : Machine σ ℓ) (s : σ) : List ℓ → Nat → σ
  | [], _ => s
  | _ :: _, 0 => s
  | l :: ls, n + 1 => match M.step s l with
      | some s' => visited M s' ls n
      | none => s

variable {M : Machine σ ℓ} {s s' : σ} {ls : List ℓ}

theorem visited_zero : M.visited s ls 0 = s := by cases ls <;> rfl

theorem visited_next : ∀ {ls : List ℓ} {s : σ}, M.exec s ls = some s' → ∀ n, match ls[n]? with
    | none => M.visited s ls (n + 1) = M.visited s ls n
    | some l => M.step (M.visited s ls n) l = some (M.visited s ls (n + 1))
  | [], _, _, _ => rfl
  | l :: ls, s, h, n => by
      obtain ⟨s₁, h₁, h₂⟩ := Option.bind_eq_some_iff.mp h
      cases n with
      | zero => simp [visited, h₁, visited_zero]
      | succ n => simpa [visited, h₁] using visited_next h₂ n

/-- A run from an initial state, idling once it is over. -/
def Execution.ofRun (M : Machine σ ℓ) (s : σ) (ls : List ℓ) (h₀ : M.init s)
    (h : ∃ s', M.exec s ls = some s') : M.Execution where
  state := M.visited s ls
  label n := ls[n]?
  init := by rw [visited_zero]; exact h₀
  next := by
    obtain ⟨s', h⟩ := h
    exact visited_next h

/-- Once the run is over its last state stands. -/
theorem visited_last : ∀ {ls : List ℓ} {s : σ}, M.exec s ls = some s' → ∀ {n}, ls.length ≤ n →
    M.visited s ls n = s'
  | [], _, h, _, _ => by cases h; rfl
  | l :: ls, s, h, n, hn => by
      obtain ⟨s₁, h₁, h₂⟩ := Option.bind_eq_some_iff.mp h
      obtain ⟨n, rfl⟩ : ∃ k, n = k + 1 := ⟨n - 1, by simp at hn; omega⟩
      simpa [visited, h₁] using visited_last h₂ (Nat.le_of_succ_le_succ hn)

end Machine
