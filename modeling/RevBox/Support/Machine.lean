import Mathlib.Logic.Relation
import Mathlib.Data.List.Basic

/-!
# Support — Machine

Labelled machines, executable: a label says which party moves and what its surroundings answer,
and `step` says where the move leads, if it can be made.  `Run C` is a run whose every step
meets the guard `C` in the state it is taken from; the guard of an unrestricted run is `Any`.

* `Run.invariant`: what holds at the start and is kept by every step holds at the end.
* `run_of_exec`: a list of labels that executes within a guard is a run.
-/

universe u v

/-- A machine: its initial states, and the state a labelled step leads to, if it can be made. -/
structure Machine (σ : Type u) (ℓ : Type v) where
  init : σ → Prop
  step : σ → ℓ → Option σ

namespace Machine

variable {σ : Type u} {ℓ : Type v} (M : Machine σ ℓ)

/-- The guard every step meets. -/
def Any : σ → ℓ → Prop := fun _ _ => True

/-- A run from `s` to `s'` by the labels `ls`, every step of which meets `C`. -/
inductive Run (C : σ → ℓ → Prop) : σ → List ℓ → σ → Prop where
  | refl (s : σ) : Run C s [] s
  | more {s s₁ s' : σ} {l : ℓ} {ls : List ℓ} (hc : C s l) (h : M.step s l = some s₁)
      (t : Run C s₁ ls s') : Run C s (l :: ls) s'

/-- `s` is reached by a run from an initial state. -/
def Reach (s : σ) : Prop := ∃ s₀ ls, M.init s₀ ∧ M.Run Any s₀ ls s

/-- The state a list of labels leads to. -/
def exec (s : σ) : List ℓ → Option σ
  | [] => some s
  | l :: ls => (M.step s l).bind fun s' => exec s' ls

/-- Each label meets the guard where the labels before it lead. -/
def Guarded (C : σ → ℓ → Prop) (s : σ) : List ℓ → Prop
  | [] => True
  | l :: ls => C s l ∧ ∀ s', M.step s l = some s' → Guarded C s' ls

instance decidableGuarded (C : σ → ℓ → Prop) [∀ s l, Decidable (C s l)] :
    ∀ (s : σ) (ls : List ℓ), Decidable (M.Guarded C s ls)
  | _, [] => .isTrue trivial
  | s, l :: ls =>
      have : Decidable (∀ s', M.step s l = some s' → M.Guarded C s' ls) :=
        match h : M.step s l with
        | none => .isTrue (by simp)
        | some s₁ =>
            match decidableGuarded C s₁ ls with
            | .isTrue hg => .isTrue (by simpa using hg)
            | .isFalse hg => .isFalse (by simpa using hg)
      inferInstanceAs (Decidable (_ ∧ _))

variable {M} {C : σ → ℓ → Prop} {s s₁ s' : σ} {l : ℓ} {ls ls' : List ℓ}

namespace Run

theorem one (hc : C s l) (h : M.step s l = some s') : M.Run C s [l] s' :=
  .more hc h (.refl _)

theorem trans (h₁ : M.Run C s ls s₁) (h₂ : M.Run C s₁ ls' s') : M.Run C s (ls ++ ls') s' := by
  induction h₁ with
  | refl => exact h₂
  | more hc h _ ih => exact .more hc h (ih h₂)

theorem mono {D : σ → ℓ → Prop} (hCD : ∀ s l, C s l → D s l) (h : M.Run C s ls s') :
    M.Run D s ls s' := by
  induction h with
  | refl => exact .refl _
  | more hc h _ ih => exact .more (hCD _ _ hc) h ih

/-- The labels of a run meet what the guard says of labels alone. -/
theorem labels {P : ℓ → Prop} (hP : ∀ s l, C s l → P l) (h : M.Run C s ls s') :
    ∀ l ∈ ls, P l := by
  induction h with
  | refl => simp
  | more hc _ _ ih =>
      intro l hl
      rcases List.mem_cons.mp hl with rfl | hl
      · exact hP _ _ hc
      · exact ih l hl

/-- **The invariant rule.** -/
theorem invariant {I : σ → Prop} (hI : ∀ s l s', I s → C s l → M.step s l = some s' → I s')
    (h : M.Run C s ls s') (hs : I s) : I s' := by
  induction h with
  | refl => exact hs
  | more hc h _ ih => exact ih (hI _ _ _ hs hc h)

/-- **The invariant rule, for what is said of the labels too.** -/
theorem history {P : List ℓ → σ → Prop}
    (hP : ∀ ls s₁ l s₂, M.Run C s ls s₁ → P ls s₁ → C s₁ l → M.step s₁ l = some s₂ →
      P (ls ++ [l]) s₂) (h : M.Run C s ls s') (h₀ : P [] s) : P ls s' := by
  have key : ∀ {s₁ s₂ before after}, M.Run C s before s₁ → P before s₁ →
      M.Run C s₁ after s₂ → P (before ++ after) s₂ := by
    intro s₁ s₂ before after hr hp t
    induction t generalizing before with
    | refl => rwa [List.append_nil]
    | more hc hs _ ih =>
        rw [List.append_cons]
        exact ih (hr.trans (.one hc hs)) (hP _ _ _ _ hr hp hc hs)
  exact key (.refl s) h₀ h

/-- **The invariant rule, for what holds while a bound is kept.**  `B` can only be lost along a
run, so a run that ends within it has been within it all along. -/
theorem invariant_within {I B : σ → Prop}
    (hB : ∀ s l s', M.step s l = some s' → B s' → B s)
    (hI : ∀ s l s', I s → B s' → C s l → M.step s l = some s' → I s')
    (h : M.Run C s ls s') (hs : I s) (hb : B s') : I s' := by
  have key : B s ∧ (I s → I s') := by
    clear hs
    induction h with
    | refl => exact ⟨hb, id⟩
    | more hc h _ ih =>
        obtain ⟨hb₁, hi₁⟩ := ih hb
        exact ⟨hB _ _ _ h hb₁, fun hi => hi₁ (hI _ _ _ hi hb₁ hc h)⟩
  exact key.2 hs

end Run

/-- What holds initially and is kept by every step holds of every reachable state. -/
theorem Reach.invariant {I : σ → Prop} (h₀ : ∀ s, M.init s → I s)
    (hI : ∀ s l s', I s → M.step s l = some s' → I s') (h : M.Reach s) : I s := by
  obtain ⟨s₀, ls, hs₀, hr⟩ := h
  exact hr.invariant (fun s l s' hi _ hs => hI s l s' hi hs) (h₀ s₀ hs₀)

theorem Reach.step (h : M.Reach s) (hs : M.step s l = some s') : M.Reach s' := by
  obtain ⟨s₀, ls, hs₀, hr⟩ := h
  exact ⟨s₀, ls ++ [l], hs₀, hr.trans (.one trivial hs)⟩

theorem Reach.run (h : M.Reach s) (hr : M.Run C s ls s') : M.Reach s' := by
  obtain ⟨s₀, ls₀, hs₀, hr₀⟩ := h
  exact ⟨s₀, ls₀ ++ ls, hs₀, hr₀.trans (hr.mono fun _ _ _ => trivial)⟩

/-- A list of labels that executes, within a guard, is a run. -/
theorem run_of_exec : ∀ {ls : List ℓ} {s : σ}, M.Guarded C s ls → M.exec s ls = some s' →
    M.Run C s ls s'
  | [], s, _, h => by cases h; exact .refl _
  | l :: ls, s, ⟨hc, hg⟩, h => by
      obtain ⟨s₁, h₁, h₂⟩ := Option.bind_eq_some_iff.mp h
      exact .more hc h₁ (run_of_exec (hg s₁ h₁) h₂)

/-- A list of labels that executes, within a guard, to a state that passes a test, is a run to
such a state. -/
theorem run_of_exec_any {P : σ → Bool} (hg : M.Guarded C s ls)
    (h : (M.exec s ls).any P = true) : ∃ s', M.Run C s ls s' ∧ P s' = true := by
  obtain ⟨s', hs', hp⟩ := (Option.any_eq_true _ _).mp h
  exact ⟨s', run_of_exec hg hs', hp⟩

theorem guarded_any : ∀ {ls : List ℓ} {s : σ}, M.Guarded Any s ls
  | [], _ => trivial
  | _ :: _, _ => ⟨trivial, fun _ _ => guarded_any⟩

end Machine
