import Mathlib.Init

/-!
# Support — Results

Fallible calls one after the other: what a success, and a failure, of the whole says of its calls.
-/

namespace Results

variable {ε α β : Type}

theorem ok_bind (a : α) (f : α → Except ε β) : .ok a >>= f = f a := rfl

/-- A sequence succeeds if both of its calls do. -/
theorem bind_eq_ok_iff {x : Except ε α} {f : α → Except ε β} {b : β} :
    x >>= f = .ok b ↔ ∃ a, x = .ok a ∧ f a = .ok b := by
  cases x with
  | error e => exact iff_of_false (fun h => nomatch h) (fun ⟨_, h, _⟩ => nomatch h)
  | ok a => exact ⟨fun h => ⟨a, rfl, h⟩, fun ⟨_, h, hf⟩ => by cases h; exact hf⟩

/-- A sequence fails if the first of its calls does, or the second after it. -/
theorem bind_eq_error_iff {x : Except ε α} {f : α → Except ε β} {e : ε} :
    x >>= f = .error e ↔ x = .error e ∨ ∃ a, x = .ok a ∧ f a = .error e := by
  cases x with
  | error e' =>
      constructor
      · intro h
        cases h
        exact .inl rfl
      · rintro (h | ⟨_, h, _⟩)
        · cases h
          rfl
        · cases h
  | ok a =>
      constructor
      · exact fun h => .inr ⟨a, rfl, h⟩
      · rintro (h | ⟨_, h, hf⟩)
        · cases h
        · cases h
          exact hf

/-- A check that is passed. -/
theorem guard_eq_ok_iff {c : Prop} [Decidable c] {e : ε} {x : Except ε α} {a : α} :
    (if c then .error e else x) = .ok a ↔ ¬ c ∧ x = .ok a := by
  by_cases hc : c
  · rw [if_pos hc]
    exact iff_of_false (fun h => nomatch h) fun h => h.1 hc
  · rw [if_neg hc]
    exact ⟨fun h => ⟨hc, h⟩, And.right⟩

/-- A check that must hold. -/
theorem require_eq_ok_iff {c : Prop} [Decidable c] {e : ε} {x : Except ε α} {a : α} :
    (if c then x else .error e) = .ok a ↔ c ∧ x = .ok a := by
  by_cases hc : c
  · rw [if_pos hc]
    exact ⟨fun h => ⟨hc, h⟩, And.right⟩
  · rw [if_neg hc]
    exact iff_of_false (fun h => nomatch h) fun h => hc h.1

/-! ### One call for each -/

theorem mapM_eq_ok_iff {f : α → Except ε β} {xs : List α} : ∀ {ys : List β},
    xs.mapM f = .ok ys ↔ xs.map f = ys.map .ok := by
  induction xs with
  | nil =>
      intro ys
      rw [List.mapM_nil, List.map_nil, @eq_comm _ [], List.map_eq_nil_iff]
      exact ⟨fun h => by cases h; rfl, fun h => by rw [h]; rfl⟩
  | cons x xs ih =>
      intro ys
      rw [List.mapM_cons, bind_eq_ok_iff, List.map_cons]
      constructor
      · rintro ⟨y, hy, h⟩
        obtain ⟨ys', hys, h⟩ := bind_eq_ok_iff.mp h
        cases h
        rw [List.map_cons, hy, ih.mp hys]
      · intro h
        cases ys with
        | nil => cases h
        | cons y ys =>
            obtain ⟨hy, hys⟩ := List.cons.inj h
            exact ⟨y, hy, bind_eq_ok_iff.mpr ⟨ys, ih.mpr hys, rfl⟩⟩

theorem mapM_map {γ : Type} (f : α → Except ε β) (g : β → γ) (xs : List α) :
    (xs.mapM fun x => do return g (← f x)) = (do return (← xs.mapM f).map g) := by
  induction xs with
  | nil => rfl
  | cons x xs ih =>
      rw [List.mapM_cons, List.mapM_cons, ih]
      cases f x with
      | error e => rfl
      | ok y => cases xs.mapM f <;> rfl

/-- Results that are taken in one after the other. -/
theorem foldlM_eq {σ : Type} (f : α → Except ε β) (g : σ → β → σ) (xs : List α) : ∀ s : σ,
    xs.foldlM (fun s x => do return g s (← f x)) s = (do return (← xs.mapM f).foldl g s) := by
  induction xs with
  | nil => exact fun s => rfl
  | cons x xs ih =>
      intro s
      rw [List.foldlM_cons, List.mapM_cons]
      cases f x with
      | error e => rfl
      | ok y =>
          refine (ih (g s y)).trans ?_
          cases xs.mapM f <;> rfl

end Results
