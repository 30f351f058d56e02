import Mathlib.Init

/-!
# Support — Waiting

Parties that wait for locks other parties hold.  A party is *stuck* if it waits for something
that is no lock and that need not come; it is stalled if it is stuck itself or waits for a lock
that a stalled party holds.

* `Locks.Stalled.exists_stuck`: where nobody is stuck, nobody is stalled.
* `Locks.Stalled.direct`: where who waits for a stuck party holds nothing, a stall does not spread.
-/

universe u v

namespace Waiting

/-- Who is stuck, who waits for which lock, and who holds it. -/
structure Locks (ι : Type u) (κ : Type v) where
  stuck : ι → Prop
  waits : ι → κ → Prop
  holds : ι → κ → Prop

variable {ι : Type u} {κ : Type v} {L : Locks ι κ} {i : ι}

/-- `i` cannot go on because of a stuck party. -/
inductive Locks.Stalled (L : Locks ι κ) : ι → Prop where
  | stuck {i : ι} (h : L.stuck i) : Stalled L i
  | behind {i j : ι} {k : κ} (hw : L.waits i k) (hh : L.holds j k) (h : Stalled L j) : Stalled L i

/-- `i` waits for a lock that a stuck party holds. -/
def Locks.Behind (L : Locks ι κ) (i : ι) : Prop := ∃ k j, L.waits i k ∧ L.holds j k ∧ L.stuck j

theorem Locks.Stalled.exists_stuck (h : L.Stalled i) : ∃ j, L.stuck j := by
  induction h with
  | stuck h => exact ⟨_, h⟩
  | behind _ _ _ ih => exact ih

/-- **A stall does not spread** where who waits behind a stuck party holds no lock. -/
theorem Locks.Stalled.direct (hL : ∀ i, L.Behind i → ∀ k, ¬ L.holds i k) (h : L.Stalled i) :
    L.stuck i ∨ L.Behind i := by
  induction h with
  | stuck h => exact .inl h
  | behind hw hh _ ih =>
      rcases ih with hs | hb
      · exact .inr ⟨_, _, hw, hh, hs⟩
      · exact absurd hh (hL _ hb _)

end Waiting
