import Mathlib.Data.List.Basic
import Mathlib.Data.List.Induction
import Mathlib.Data.List.TakeWhile

/-!
# Support — Breaker

A circuit breaker: failures in a row are counted up to a limit, and each failure that finds the
limit reached keeps the breaker open for a while.  A success starts the count again, but does not
close the breaker.

* `lt_openUntil_run`: what was noted, in the order of time, says when the breaker is open.
-/

namespace RevBox.Breaker

/-- What a breaker is told. -/
inductive Note where
  | failed (time : Nat)
  | succeeded

/-- What a breaker keeps. -/
structure State where
  fails : Nat
  openUntil : Nat

/-- Nothing was noted. -/
def fresh : State := ⟨0, 0⟩

variable (limit cooldown : Nat)

/-- A failure. -/
def fail (now : Nat) (st : State) : State :=
  let fails := if st.fails < limit then st.fails + 1 else st.fails
  ⟨fails, if limit ≤ fails then now + cooldown else st.openUntil⟩

/-- A success. -/
def succeed (st : State) : State := { st with fails := 0 }

/-- One note. -/
def apply (st : State) : Note → State
  | .failed time => fail limit cooldown time st
  | .succeeded => succeed st

/-- The notes, in turn. -/
def run (st : State) (notes : List Note) : State := notes.foldl (apply limit cooldown) st

theorem run_append (st : State) (before notes : List Note) :
    run limit cooldown st (before ++ notes) =
      run limit cooldown (run limit cooldown st before) notes := List.foldl_append

theorem run_concat (st : State) (notes : List Note) (n : Note) :
    run limit cooldown st (notes ++ [n]) = apply limit cooldown (run limit cooldown st notes) n :=
  run_append limit cooldown st notes [n]

/-! ### What was noted -/

/-- The note is a failure. -/
def Note.isFailed : Note → Bool
  | .failed _ => true
  | .succeeded => false

/-- The time of a failure. -/
def Note.time : Note → Option Nat
  | .failed time => some time
  | .succeeded => none

/-- How many failures there are at the end, with no success between them. -/
def streak (notes : List Note) : Nat := (notes.reverse.takeWhile Note.isFailed).length

/-- A failure at this time ended a run of at least `limit` failures. -/
def Trips (notes : List Note) (time : Nat) : Prop :=
  ∃ before, before ++ [.failed time] <+: notes ∧ limit ≤ streak (before ++ [.failed time])

/-- The failures are in the order of time. -/
def Ordered (notes : List Note) : Prop := (notes.filterMap Note.time).Pairwise (· ≤ ·)

theorem streak_failed (notes : List Note) (time : Nat) :
    streak (notes ++ [.failed time]) = streak notes + 1 := by
  rw [streak, List.reverse_concat]
  rfl

theorem streak_succeeded (notes : List Note) : streak (notes ++ [.succeeded]) = 0 := by
  rw [streak, List.reverse_concat]
  rfl

variable {limit cooldown} {notes : List Note} {n : Note} {time : Nat}

theorem not_trips_nil : ¬ Trips limit [] time := by
  rintro ⟨before, hprefix, -⟩
  exact List.append_ne_nil_of_right_ne_nil before (List.cons_ne_nil _ _)
    (List.prefix_nil.mp hprefix)

/-- The runs that end at the last note, and those that ended before. -/
theorem trips_concat : Trips limit (notes ++ [n]) time ↔
    (n = .failed time ∧ limit ≤ streak (notes ++ [n])) ∨ Trips limit notes time := by
  constructor
  · rintro ⟨before, hprefix, hlimit⟩
    rcases List.prefix_concat_iff.mp hprefix with heq | hprefix
    · obtain ⟨-, hlast⟩ := List.append_inj' heq rfl
      rw [← heq]
      exact .inl ⟨(List.singleton_inj.mp hlast).symm, hlimit⟩
    · exact .inr ⟨before, hprefix, hlimit⟩
  · rintro (⟨rfl, hlimit⟩ | ⟨before, hprefix, hlimit⟩)
    · exact ⟨notes, List.prefix_rfl, hlimit⟩
    · exact ⟨before, hprefix.trans (List.prefix_append _ _), hlimit⟩

theorem Trips.mem (h : Trips limit notes time) : time ∈ notes.filterMap Note.time := by
  obtain ⟨before, hprefix, -⟩ := h
  have hmem : Note.failed time ∈ notes :=
    hprefix.subset (List.mem_append_right before List.mem_cons_self)
  exact List.mem_filterMap.mpr ⟨_, hmem, rfl⟩

/-- A failure at the end of an ordered list is the latest. -/
theorem Ordered.of_concat (h : Ordered (notes ++ [.failed time])) :
    Ordered notes ∧ ∀ t ∈ notes.filterMap Note.time, t ≤ time := by
  rw [Ordered, List.filterMap_append, List.pairwise_append] at h
  exact ⟨h.1, fun t ht => h.2.2 t ht time List.mem_cons_self⟩

theorem Ordered.of_succeeded (h : Ordered (notes ++ [.succeeded])) : Ordered notes := by
  rw [Ordered, List.filterMap_append, List.pairwise_append] at h
  exact h.1

/-! ### What the state says of it -/

/-- The count is the length of the last run, up to the limit. -/
theorem fails_run (notes : List Note) :
    (run limit cooldown fresh notes).fails = min limit (streak notes) := by
  induction notes using List.reverseRecOn with
  | nil => exact (Nat.min_zero limit).symm
  | append_singleton notes n ih =>
      rw [run_concat]
      cases n with
      | succeeded =>
          rw [streak_succeeded, Nat.min_zero]
          rfl
      | failed time =>
          rw [streak_failed]
          change (if (run limit cooldown fresh notes).fails < limit then
            (run limit cooldown fresh notes).fails + 1 else
              (run limit cooldown fresh notes).fails) = _
          rw [ih]
          split <;> omega

/-- What a failure makes of the time until which the breaker is open. -/
theorem openUntil_failed (notes : List Note) (time : Nat) :
    (run limit cooldown fresh (notes ++ [.failed time])).openUntil =
      if limit ≤ streak (notes ++ [.failed time]) then time + cooldown
      else (run limit cooldown fresh notes).openUntil := by
  have hfails : (run limit cooldown fresh (notes ++ [.failed time])).fails =
      min limit (streak (notes ++ [.failed time])) := fails_run _
  rw [run_concat] at hfails ⊢
  change (if limit ≤ (apply limit cooldown _ (.failed time)).fails then _ else _) = _
  rw [hfails]
  exact if_congr (by rw [Nat.le_min, and_iff_right le_rfl]) rfl rfl

/-- **When the breaker is open**: for a while from each failure on that ended a run long enough. -/
theorem lt_openUntil_run {t : Nat} (h : Ordered notes) :
    t < (run limit cooldown fresh notes).openUntil ↔
      ∃ time, Trips limit notes time ∧ t < time + cooldown := by
  induction notes using List.reverseRecOn with
  | nil =>
      refine iff_of_false (Nat.not_lt_zero t) ?_
      rintro ⟨time, htrips, -⟩
      exact not_trips_nil htrips
  | append_singleton notes n ih =>
      cases n with
      | succeeded =>
          rw [run_concat]
          change t < (run limit cooldown fresh notes).openUntil ↔ _
          rw [ih h.of_succeeded]
          refine exists_congr fun time => and_congr_left fun _ => ?_
          rw [trips_concat]
          exact (or_iff_right fun hlast => nomatch hlast.1).symm
      | failed last =>
          obtain ⟨hordered, hlatest⟩ := h.of_concat
          rw [openUntil_failed]
          split
          · rename_i hlimit
            refine ⟨fun ht => ⟨last, trips_concat.mpr (.inl ⟨rfl, hlimit⟩), ht⟩, ?_⟩
            rintro ⟨time, htrips, ht⟩
            rcases trips_concat.mp htrips with ⟨heq, -⟩ | htrips
            · cases heq
              exact ht
            · exact Nat.lt_of_lt_of_le ht (Nat.add_le_add_right (hlatest time htrips.mem) cooldown)
          · rename_i hlimit
            rw [ih hordered]
            refine exists_congr fun time => and_congr_left fun _ => ?_
            rw [trips_concat]
            exact (or_iff_right fun hlast => hlimit hlast.2).symm

end RevBox.Breaker
