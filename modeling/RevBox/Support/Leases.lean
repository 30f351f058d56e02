import Mathlib.Data.List.Basic
import Mathlib.Logic.Function.Basic

/-!
# Support — Leases

Handles of a surrounding that owners take, use and let go of, told by what has happened to them:
a handle is taken by an owner, used by it, closed by it, or gone by itself.

* `Leases.Sound`: of the handles the owners hold and of what has happened, that nothing happens
  to a handle before it is taken and after it has ended, and that a handle that has been taken is
  held until it has ended.
* `Sound.take`, `Sound.use`, `Sound.finish`: it is kept by an owner that takes a new handle, uses
  the one it holds, and lets go of it.
-/

namespace Leases

/-- What happens to a handle: `closed` is the owner's deed, `gone` is not. -/
inductive Event (ι π ω : Type*) where
  | taken (i : ι) (p : π)
  | used (p : π) (w : ω)
  | closed (p : π)
  | gone (p : π)
  deriving DecidableEq

variable {ι π ω : Type*}

/-- The handle it happens to. -/
def Event.handle : Event ι π ω → π
  | .taken _ p | .used p _ | .closed p | .gone p => p

/-- It ends the handle. -/
def Event.Ends (p : π) (a : Event ι π ω) : Prop := a = .closed p ∨ a = .gone p

/-- `held` is what the owners hold, and `trace` what has happened. -/
structure Sound (held : ι → Option π) (trace : List (Event ι π ω)) : Prop where
  /-- nothing happens to a handle that has ended -/
  ended : trace.Pairwise fun a b => ¬ a.Ends b.handle
  /-- nothing has happened to a handle before it is taken -/
  fresh : trace.Pairwise fun a b => ∀ i p, b = .taken i p → a.handle ≠ p
  /-- a handle something happens to has been taken -/
  known : ∀ a ∈ trace, ∃ i, .taken i a.handle ∈ trace
  owner : ∀ i j p, .taken i p ∈ trace → .taken j p ∈ trace → i = j
  /-- a handle that is held has been taken by the one who holds it, and has not ended -/
  held_taken : ∀ i p, held i = some p → .taken i p ∈ trace ∧ ∀ a ∈ trace, ¬ a.Ends p
  /-- a handle that has been taken is held until it has ended -/
  taken_held : ∀ i p, .taken i p ∈ trace → held i = some p ∨ ∃ a ∈ trace, a.Ends p

variable {held held' : ι → Option π} {trace : List (Event ι π ω)} {i j : ι} {p : π}

theorem Event.Ends.handle_eq {a : Event ι π ω} (h : a.Ends p) : a.handle = p := by
  rcases h with rfl | rfl <;> rfl

/-- Before anything has happened nobody holds a handle. -/
theorem sound_nil : Sound (fun _ : ι => (none : Option π)) ([] : List (Event ι π ω)) :=
  ⟨.nil, .nil, nofun, nofun, nofun, nofun⟩

namespace Sound

/-- A handle is held by one owner. -/
theorem holder_unique (h : Sound held trace) (hi : held i = some p) (hj : held j = some p) :
    i = j :=
  h.owner i j p (h.held_taken i p hi).1 (h.held_taken j p hj).1

/-- What comes after the end of a handle is not about it. -/
theorem after_end (h : Sound held trace) {before after : List (Event ι π ω)} {a b : Event ι π ω}
    (ht : trace = before ++ a :: after) (ha : a.Ends p) (hb : b ∈ after) : b.handle ≠ p := by
  rintro rfl
  have hpair := h.ended
  rw [ht] at hpair
  exact List.rel_of_pairwise_cons (List.pairwise_append.mp hpair).2.1 hb ha

variable {a : Event ι π ω}

/-- What an owner does with the handle it holds, or what happens to it, keeps the order. -/
theorem append (h : Sound held trace) (hi : held i = some p) (ha : a.handle = p)
    (hnot : ∀ j q, a ≠ .taken j q) :
    (trace ++ [a]).Pairwise (fun a b => ¬ a.Ends b.handle) ∧
      (trace ++ [a]).Pairwise (fun a b => ∀ i p, b = .taken i p → a.handle ≠ p) ∧
      (∀ b ∈ trace ++ [a], ∃ i, .taken i b.handle ∈ trace ++ [a]) ∧
      ∀ i j p, .taken i p ∈ trace ++ [a] → .taken j p ∈ trace ++ [a] → i = j := by
  obtain ⟨htaken, hlive⟩ := h.held_taken i p hi
  have hold : ∀ {j q}, (.taken j q : Event ι π ω) ∈ trace ++ [a] → .taken j q ∈ trace := by
    intro j q hm
    rcases List.mem_append.mp hm with hm | hm
    · exact hm
    · exact absurd (List.mem_singleton.mp hm).symm (hnot j q)
  refine ⟨?_, ?_, ?_, fun j k q hj hk => h.owner j k q (hold hj) (hold hk)⟩
  · refine List.pairwise_append.mpr ⟨h.ended, List.pairwise_singleton _ _, ?_⟩
    intro x hx y hy
    rw [List.mem_singleton.mp hy, ha]
    exact hlive x hx
  · refine List.pairwise_append.mpr ⟨h.fresh, List.pairwise_singleton _ _, ?_⟩
    intro x _ y hy j q hq
    exact absurd ((List.mem_singleton.mp hy).symm.trans hq) (hnot j q)
  · intro b hb
    rcases List.mem_append.mp hb with hb | hb
    · obtain ⟨j, hj⟩ := h.known b hb
      exact ⟨j, List.mem_append_left _ hj⟩
    · rw [List.mem_singleton.mp hb, ha]
      exact ⟨i, List.mem_append_left _ htaken⟩

/-- An owner uses the handle it holds. -/
theorem use (h : Sound held trace) (hi : held i = some p) (w : ω) :
    Sound held (trace ++ [.used p w]) := by
  obtain ⟨hended, hfresh, hknown, howner⟩ := h.append (a := .used p w) hi rfl nofun
  refine ⟨hended, hfresh, hknown, howner, ?_, ?_⟩
  · intro j q hj
    obtain ⟨htaken, hlive⟩ := h.held_taken j q hj
    refine ⟨List.mem_append_left _ htaken, ?_⟩
    intro b hb
    rcases List.mem_append.mp hb with hb | hb
    · exact hlive b hb
    · rw [List.mem_singleton.mp hb]
      rintro (hq | hq) <;> cases hq
  · intro j q hj
    rcases List.mem_append.mp hj with hj | hj
    · rcases h.taken_held j q hj with hheld | ⟨b, hb, hends⟩
      · exact .inl hheld
      · exact .inr ⟨b, List.mem_append_left _ hb, hends⟩
    · cases List.mem_singleton.mp hj

variable [DecidableEq ι]

/-- An owner lets go of the handle it holds, whose end is the last thing that happened. -/
theorem finish (h : Sound held trace) (hi : held i = some p) (ha : a.Ends p) :
    Sound (Function.update held i none) (trace ++ [a]) := by
  have hnot : ∀ j q, a ≠ .taken j q := by
    rintro j q rfl
    rcases ha with ha | ha <;> cases ha
  obtain ⟨hended, hfresh, hknown, howner⟩ := h.append hi ha.handle_eq hnot
  refine ⟨hended, hfresh, hknown, howner, ?_, ?_⟩
  · intro j q hj
    have hne : j ≠ i := by
      rintro rfl
      rw [Function.update_self] at hj
      cases hj
    rw [Function.update_of_ne hne] at hj
    obtain ⟨htaken, hlive⟩ := h.held_taken j q hj
    refine ⟨List.mem_append_left _ htaken, ?_⟩
    intro b hb hends
    rcases List.mem_append.mp hb with hb | hb
    · exact hlive b hb hends
    · -- the handle that ends is another one, as one owner holds it
      rw [List.mem_singleton.mp hb] at hends
      have hq : q = p := hends.handle_eq.symm.trans ha.handle_eq
      exact hne (h.holder_unique (hq ▸ hj) hi)
  · intro j q hj
    rcases List.mem_append.mp hj with hj | hj
    · rcases h.taken_held j q hj with hheld | ⟨b, hb, hends⟩
      · by_cases hji : j = i
        · subst hji
          have hqp : q = p := Option.some.inj (hheld.symm.trans hi)
          exact .inr ⟨a, List.mem_append_right _ (List.mem_singleton.mpr rfl), hqp ▸ ha⟩
        · exact .inl (by rw [Function.update_of_ne hji]; exact hheld)
      · exact .inr ⟨b, List.mem_append_left _ hb, hends⟩
    · exact absurd (List.mem_singleton.mp hj).symm (hnot j q)

/-- An owner that holds nothing takes a new handle. -/
theorem take (h : Sound held trace) (hi : held i = none) (hp : ∀ a ∈ trace, a.handle ≠ p) :
    Sound (Function.update held i (some p)) (trace ++ [.taken i p]) := by
  have hnew : ∀ {j q}, (.taken j q : Event ι π ω) ∈ trace ++ [.taken i p] →
      .taken j q ∈ trace ∧ q ≠ p ∨ j = i ∧ q = p := by
    intro j q hm
    rcases List.mem_append.mp hm with hm | hm
    · exact .inl ⟨hm, hp _ hm⟩
    · cases List.mem_singleton.mp hm
      exact .inr ⟨rfl, rfl⟩
  refine ⟨?_, ?_, ?_, ?_, ?_, ?_⟩
  · refine List.pairwise_append.mpr ⟨h.ended, List.pairwise_singleton _ _, ?_⟩
    intro x hx y hy hends
    rw [List.mem_singleton.mp hy] at hends
    exact hp x hx hends.handle_eq
  · refine List.pairwise_append.mpr ⟨h.fresh, List.pairwise_singleton _ _, ?_⟩
    intro x hx y hy j q hq
    rw [List.mem_singleton.mp hy] at hq
    cases hq
    exact hp x hx
  · intro b hb
    rcases List.mem_append.mp hb with hb | hb
    · obtain ⟨j, hj⟩ := h.known b hb
      exact ⟨j, List.mem_append_left _ hj⟩
    · rw [List.mem_singleton.mp hb]
      exact ⟨i, List.mem_append_right _ (List.mem_singleton.mpr rfl)⟩
  · intro j k q hj hk
    rcases hnew hj with ⟨hj, hqp⟩ | ⟨rfl, rfl⟩ <;> rcases hnew hk with ⟨hk, hqp'⟩ | ⟨rfl, hq⟩
    · exact h.owner j k q hj hk
    · exact absurd hq hqp
    · exact absurd rfl hqp'
    · rfl
  · intro j q hj
    by_cases hji : j = i
    · subst hji
      rw [Function.update_self] at hj
      cases hj
      refine ⟨List.mem_append_right _ (List.mem_singleton.mpr rfl), ?_⟩
      intro b hb hends
      rcases List.mem_append.mp hb with hb | hb
      · exact hp b hb hends.handle_eq
      · rw [List.mem_singleton.mp hb] at hends
        rcases hends with hq | hq <;> cases hq
    · rw [Function.update_of_ne hji] at hj
      obtain ⟨htaken, hlive⟩ := h.held_taken j q hj
      refine ⟨List.mem_append_left _ htaken, ?_⟩
      intro b hb hends
      rcases List.mem_append.mp hb with hb | hb
      · exact hlive b hb hends
      · rw [List.mem_singleton.mp hb] at hends
        rcases hends with hq | hq <;> cases hq
  · intro j q hj
    rcases hnew hj with ⟨hj, -⟩ | ⟨rfl, rfl⟩
    · rcases h.taken_held j q hj with hheld | ⟨b, hb, hends⟩
      · have hji : j ≠ i := by
          rintro rfl
          rw [hi] at hheld
          cases hheld
        exact .inl (by rw [Function.update_of_ne hji]; exact hheld)
      · exact .inr ⟨b, List.mem_append_left _ hb, hends⟩
    · exact .inl (Function.update_self ..)

end Sound

end Leases
