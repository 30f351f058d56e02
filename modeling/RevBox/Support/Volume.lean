import Mathlib.Data.List.Basic
import Mathlib.Data.List.Infix

/-!
# Support — Volume

Directories and files by their paths, without links, and what the calls that make, move, copy and
remove them do to everything below a path.

* `Volume`: whatever is there is in a directory.
* `Moved.view_to`, `Moved.view_apart`, `Lessened.view_apart`, and so on: what a call leaves below
  a path that is not on its way.
-/

/-- A directory, or a file with what is in it. -/
inductive Stored (β : Type) where
  | dir
  | file (content : β)

/-- It is a directory. -/
def Stored.isDir {β : Type} : Stored β → Bool
  | .dir => true
  | .file _ => false

/-- What is at each path: whatever is there is in a directory. -/
structure Volume (ν β : Type) where
  node : List ν → Option (Stored β)
  within : ∀ p n, node (p ++ [n]) ≠ none → node p = some .dir

namespace Volume

variable {ν β : Type} {d d' : Volume ν β} {p q a : List ν}

/-- What is below a path. -/
def view (d : Volume ν β) (p : List ν) : List ν → Option (Stored β) := fun r => d.node (p ++ r)

/-- Neither path is on the way to the other. -/
def Apart (p q : List ν) : Prop := ¬ p <+: q ∧ ¬ q <+: p

theorem Apart.symm (h : Apart p q) : Apart q p := ⟨h.2, h.1⟩

/-- Paths that part after a common beginning. -/
theorem apart_of_ne {m n : ν} (h : m ≠ n) (c r s : List ν) :
    Apart (c ++ m :: r) (c ++ n :: s) := by
  refine ⟨fun hpre => h ?_, fun hpre => h ?_⟩
  · exact (List.cons_prefix_cons.mp ((List.prefix_append_right_inj c).mp hpre)).1
  · exact (List.cons_prefix_cons.mp ((List.prefix_append_right_inj c).mp hpre)).1.symm

/-- What is below paths that are apart is apart. -/
theorem Apart.append (h : Apart p q) (r s : List ν) : Apart (p ++ r) (q ++ s) := by
  refine ⟨fun hpre => ?_, fun hpre => ?_⟩
  · rcases List.prefix_or_prefix_of_prefix ((List.prefix_append p r).trans hpre)
      (List.prefix_append q s) with hpq | hqp
    · exact h.1 hpq
    · exact h.2 hqp
  · rcases List.prefix_or_prefix_of_prefix ((List.prefix_append q s).trans hpre)
      (List.prefix_append p r) with hqp | hpq
    · exact h.2 hqp
    · exact h.1 hpq

/-- Nothing is below what is not there. -/
theorem view_eq_none (h : d.node p = none) : d.view p = fun _ => none := by
  funext r
  induction r using List.reverseRecOn with
  | nil => exact (congrArg d.node (List.append_nil p)).trans h
  | append_singleton r n ih =>
      by_contra hne
      have hthere : d.node ((p ++ r) ++ [n]) ≠ none := by
        rw [List.append_assoc]
        exact hne
      have hdir := d.within _ _ hthere
      rw [view] at ih
      rw [ih] at hdir
      cases hdir

/-! ### The calls -/

/-- What was at `p` and below is now at `q` and below. -/
def Moved (p q : List ν) (d d' : Volume ν β) : Prop :=
  Apart p q ∧ (∀ r, d'.node (q ++ r) = d.node (p ++ r)) ∧ (∀ r, d'.node (p ++ r) = none) ∧
    ∀ x, ¬ p <+: x → ¬ q <+: x → d'.node x = d.node x

/-- Nothing is at `p` and below. -/
def Removed (p : List ν) (d d' : Volume ν β) : Prop :=
  (∀ r, d'.node (p ++ r) = none) ∧ ∀ x, ¬ p <+: x → d'.node x = d.node x

/-- Some of what was at `p` and below is gone. -/
def Lessened (p : List ν) (d d' : Volume ν β) : Prop :=
  (∀ r, d'.node (p ++ r) = none ∨ d'.node (p ++ r) = d.node (p ++ r)) ∧
    ∀ x, ¬ p <+: x → d'.node x = d.node x

/-- Directories may have been made on the way to `p`. -/
def Made (p : List ν) (d d' : Volume ν β) : Prop :=
  (∀ x, d.node x ≠ none → d'.node x = d.node x) ∧ (∀ x, d'.node x ≠ none → d.node x = none →
    d'.node x = some .dir) ∧ ∀ x, ¬ x <+: p → d'.node x = d.node x

/-- What is at `q` may have changed. -/
def Written (q : List ν) (d d' : Volume ν β) : Prop := ∀ x, x ≠ q → d'.node x = d.node x

theorem Moved.view_to (h : Moved p q d d') : d'.view q = d.view p := funext h.2.1

theorem Moved.view_apart (h : Moved p q d d') (hp : Apart a p) (hq : Apart a q) :
    d'.view a = d.view a := by
  funext r
  have hp' : ¬ p <+: a ++ r := fun hpre =>
    (List.prefix_or_prefix_of_prefix hpre (List.prefix_append a r)).elim hp.2 hp.1
  have hq' : ¬ q <+: a ++ r := fun hpre =>
    (List.prefix_or_prefix_of_prefix hpre (List.prefix_append a r)).elim hq.2 hq.1
  exact h.2.2.2 _ hp' hq'

theorem Lessened.view_apart (h : Lessened p d d') (hp : Apart a p) : d'.view a = d.view a := by
  funext r
  exact h.2 _ fun hpre =>
    (List.prefix_or_prefix_of_prefix hpre (List.prefix_append a r)).elim hp.2 hp.1

theorem Made.view_apart (h : Made p d d') (ha : ¬ a <+: p) : d'.view a = d.view a := by
  funext r
  exact h.2.2 _ fun hpre => ha ((List.prefix_append a r).trans hpre)

theorem Written.view_apart (h : Written q d d') (hq : ¬ a <+: q) : d'.view a = d.view a := by
  funext r
  exact h _ fun heq => hq (heq ▸ List.prefix_append a r)

end Volume
