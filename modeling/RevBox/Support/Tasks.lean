import RevBox.Support.Machine
import RevBox.Support.Prog
import Mathlib.Logic.Function.Basic

/-!
# Support — Tasks

A pool of tasks that run their programs interleaved over one shared state.  Each operation is
one step; between two steps of a task any other task may move, a task may be dropped at any of
its awaits, and the surroundings may move the shared state.  The pool keeps a log of the
operations performed and their replies.

* `step_cases`: everything one step can do.
* `stage`: where a task stands in its discipline, told from the log.
* `conforms_step`: when every handler follows its discipline, every task keeps following it.
-/

namespace Tasks

open Prog

variable {Op : Type} {Reply : Op → Type} {ι α σ χ η : Type}

/-- A task: what was requested, what is left to do, and whether anyone still polls it. -/
structure Task (Op : Type) (Reply : Op → Type) (ι α : Type) where
  request : ι
  prog : Prog Op Reply α
  live : Bool := true

/-- An operation performed by a task, with its reply. -/
abbrev Event (Op : Type) (Reply : Op → Type) := Nat × (o : Op) × Reply o

/-- The shared state, the tasks begun so far, and the log, oldest first. -/
structure Pool (Op : Type) (Reply : Op → Type) (ι α σ : Type) where
  shared : σ
  tasks : Nat → Option (Task Op Reply ι α)
  log : List (Event Op Reply)

/-- A move: task `i` begins a request, performs its next operation, or is dropped; or the
surroundings move. -/
inductive Label (ι χ η : Type) where
  | begin (i : Nat) (q : ι)
  | act (i : Nat) (x : χ)
  | drop (i : Nat)
  | env (e : η)

/-- What the tasks run and what their operations do. -/
structure System (Op : Type) (Reply : Op → Type) (ι α σ χ η : Type) where
  handler : ι → Prog Op Reply α
  exec : σ → (o : Op) → χ → Option (Reply o × σ)
  env : σ → η → Option σ

/-- The result of a task that has returned. -/
def Task.answer (t : Task Op Reply ι α) : Option α :=
  match t.prog with
  | .ret a => if t.live then some a else none
  | .op _ _ => none

/-- The operation a task that is still polled performs next. -/
def Task.next (t : Task Op Reply ι α) : Option Op :=
  match t.prog with
  | .ret _ => none
  | .op o _ => if t.live then some o else none

/-- A task that will perform no further operation. -/
def Task.Ended (t : Task Op Reply ι α) : Prop :=
  t.live = false ∨ ∃ a, t.prog = .ret a

instance (t : Task Op Reply ι α) : Decidable t.Ended :=
  match t with
  | ⟨_, _, false⟩ => .isTrue (.inl rfl)
  | ⟨_, .ret a, true⟩ => .isTrue (.inr ⟨a, rfl⟩)
  | ⟨_, .op _ _, true⟩ => .isFalse (by rintro (h | ⟨a, h⟩) <;> cases h)

namespace Pool

/-- The pool with task `i` replaced. -/
def set (p : Pool Op Reply ι α σ) (i : Nat) (t : Task Op Reply ι α) : Pool Op Reply ι α σ :=
  { p with tasks := Function.update p.tasks i (some t) }

/-- The answer of task `i`. -/
def answer (p : Pool Op Reply ι α σ) (i : Nat) : Option α := (p.tasks i).bind Task.answer

@[simp] theorem set_shared (p : Pool Op Reply ι α σ) (i : Nat) (t : Task Op Reply ι α) :
    (p.set i t).shared = p.shared := rfl

@[simp] theorem set_log (p : Pool Op Reply ι α σ) (i : Nat) (t : Task Op Reply ι α) :
    (p.set i t).log = p.log := rfl

@[simp] theorem set_tasks_same (p : Pool Op Reply ι α σ) (i : Nat) (t : Task Op Reply ι α) :
    (p.set i t).tasks i = some t := Function.update_self ..

theorem set_tasks_ne (p : Pool Op Reply ι α σ) {i j : Nat} (h : j ≠ i) (t : Task Op Reply ι α) :
    (p.set i t).tasks j = p.tasks j := Function.update_of_ne h ..

end Pool

namespace System

variable (Y : System Op Reply ι α σ χ η)

/-- One move of the pool. -/
def step (p : Pool Op Reply ι α σ) : Label ι χ η → Option (Pool Op Reply ι α σ)
  | .begin i q =>
      match p.tasks i with
      | none => some (p.set i ⟨q, Y.handler q, true⟩)
      | some _ => none
  | .act i x =>
      match p.tasks i with
      | some ⟨q, .op o k, true⟩ =>
          (Y.exec p.shared o x).map fun (r, sh) =>
            { (p.set i ⟨q, k r, true⟩) with shared := sh, log := p.log ++ [(i, ⟨o, r⟩)] }
      | _ => none
  | .drop i =>
      match p.tasks i with
      | some ⟨q, .op o k, true⟩ => some (p.set i ⟨q, .op o k, false⟩)
      | _ => none
  | .env e => (Y.env p.shared e).map fun sh => { p with shared := sh }

/-- No task begun, nothing performed, and a shared state in `init`. -/
def machine (init : σ → Prop) : Machine (Pool Op Reply ι α σ) (Label ι χ η) where
  init p := init p.shared ∧ p.tasks = (fun _ => none) ∧ p.log = []
  step := Y.step

variable {Y} {p p' : Pool Op Reply ι α σ} {l : Label ι χ η}

/-- **Everything one move can do.** -/
theorem step_cases (h : Y.step p l = some p') :
    (∃ i q, l = .begin i q ∧ p.tasks i = none ∧ p' = p.set i ⟨q, Y.handler q, true⟩) ∨
    (∃ i x q o k r sh, l = .act i x ∧ p.tasks i = some ⟨q, .op o k, true⟩ ∧
      Y.exec p.shared o x = some (r, sh) ∧
      p' = { (p.set i ⟨q, k r, true⟩) with shared := sh, log := p.log ++ [(i, ⟨o, r⟩)] }) ∨
    (∃ i q o k, l = .drop i ∧ p.tasks i = some ⟨q, .op o k, true⟩ ∧
      p' = p.set i ⟨q, .op o k, false⟩) ∨
    (∃ e sh, l = .env e ∧ Y.env p.shared e = some sh ∧ p' = { p with shared := sh }) := by
  cases l with
  | begin i q =>
      simp only [step] at h
      split at h
      · exact .inl ⟨i, q, rfl, ‹_›, (Option.some.inj h).symm⟩
      · cases h
  | act i x =>
      simp only [step] at h
      split at h
      · rename_i q o k ht
        obtain ⟨⟨r, sh⟩, hx, hp⟩ := Option.map_eq_some_iff.mp h
        exact .inr (.inl ⟨i, x, q, o, k, r, sh, rfl, ht, hx, hp.symm⟩)
      · cases h
  | drop i =>
      simp only [step] at h
      split at h
      · rename_i q o k ht
        exact .inr (.inr (.inl ⟨i, q, o, k, rfl, ht, (Option.some.inj h).symm⟩))
      · cases h
  | env e =>
      obtain ⟨sh, he, hp⟩ := Option.map_eq_some_iff.mp h
      exact .inr (.inr (.inr ⟨e, sh, rfl, he, hp.symm⟩))

end System

/-! ### Disciplines -/

variable {S : Type}

/-- What task `i` has performed, oldest first. -/
def performed (log : List (Event Op Reply)) (i : Nat) : List ((o : Op) × Reply o) :=
  log.filterMap fun e => if e.1 = i then some e.2 else none

/-- The stage task `i` has reached from `s₀`. -/
def stage (next : S → (o : Op) → Reply o → S) (s₀ : S) (log : List (Event Op Reply)) (i : Nat) :
    S :=
  (performed log i).foldl (fun s e => next s e.1 e.2) s₀

variable (next : S → (o : Op) → Reply o → S) (s₀ : S) (log : List (Event Op Reply))

@[simp] theorem stage_nil (i : Nat) : stage next s₀ [] i = s₀ := rfl

/-- A task that has performed nothing is at the first stage. -/
theorem stage_of_not_mem {i : Nat} (h : ∀ e ∈ log, e.1 ≠ i) : stage next s₀ log i = s₀ := by
  have : performed log i = [] := List.filterMap_eq_nil_iff.mpr fun e he => by simp [h e he]
  simp [stage, this]

theorem stage_snoc_same (i : Nat) (e : (o : Op) × Reply o) :
    stage next s₀ (log ++ [(i, e)]) i = next (stage next s₀ log i) e.1 e.2 := by
  simp [stage, performed]

theorem stage_snoc_ne {i j : Nat} (h : j ≠ i) (e : (o : Op) × Reply o) :
    stage next s₀ (log ++ [(i, e)]) j = stage next s₀ log j := by
  simp [stage, performed, Ne.symm h]

/-- Every task follows its discipline from the stage it has reached, and only tasks that have
begun have performed anything. -/
def Conforms (D : ι → Discipline Op Reply S) (s₀ : S) (Q : ι → S → α → Prop)
    (p : Pool Op Reply ι α σ) : Prop :=
  (∀ i t, p.tasks i = some t →
    Follows (D t.request) (Q t.request) (stage (D t.request).next s₀ p.log i) t.prog) ∧
  ∀ e ∈ p.log, p.tasks e.1 ≠ none

variable {Y : System Op Reply ι α σ χ η} {D : ι → Discipline Op Reply S} {s₀ : S}
  {Q : ι → S → α → Prop} {p p' : Pool Op Reply ι α σ} {l : Label ι χ η}

/-- A task that has not begun is at the first stage. -/
theorem Conforms.stage_of_none (h : Conforms D s₀ Q p) {i : Nat} (hi : p.tasks i = none) (q : ι) :
    stage (D q).next s₀ p.log i = s₀ :=
  stage_of_not_mem _ _ _ fun e he hei => h.2 e he (hei ▸ hi)

/-- **One step keeps every task to its discipline.** -/
theorem conforms_step (hY : ∀ q, Follows (D q) (Q q) s₀ (Y.handler q)) (hp : Conforms D s₀ Q p)
    (h : Y.step p l = some p') : Conforms D s₀ Q p' := by
  obtain ⟨i, q, -, hi, rfl⟩ | ⟨i, x, q, o, k, r, sh, -, hi, -, rfl⟩ | ⟨i, q, o, k, -, hi, rfl⟩ |
    ⟨e, sh, -, -, rfl⟩ := System.step_cases h
  · refine ⟨fun j t ht => ?_, fun e he => ?_⟩
    · by_cases hj : j = i
      · subst hj
        rw [Pool.set_tasks_same] at ht
        cases ht
        rw [Pool.set_log, hp.stage_of_none hi]
        exact hY q
      · rw [Pool.set_tasks_ne _ hj] at ht
        exact hp.1 j t ht
    · by_cases hj : e.1 = i
      · rw [hj]; simp
      · rw [Pool.set_tasks_ne _ hj]; exact hp.2 e he
  · refine ⟨fun j t ht => ?_, fun e he => ?_⟩
    · by_cases hj : j = i
      · subst hj
        obtain rfl : (⟨q, k r, true⟩ : Task Op Reply ι α) = t := by simpa [Pool.set] using ht
        rw [stage_snoc_same]
        exact (hp.1 j _ hi).2 r
      · rw [stage_snoc_ne _ _ _ hj]
        exact hp.1 j t (by simpa [Pool.set, Function.update_of_ne hj] using ht)
    · by_cases hj : e.1 = i
      · simp [hj, Pool.set]
      · rcases List.mem_append.mp he with he | he
        · simpa [Pool.set, Function.update_of_ne hj] using hp.2 e he
        · exact absurd (by rw [List.mem_singleton.mp he]) hj
  · refine ⟨fun j t ht => ?_, fun e he => ?_⟩
    · by_cases hj : j = i
      · subst hj
        rw [Pool.set_tasks_same] at ht
        cases ht
        have h := hp.1 j _ hi
        exact h
      · rw [Pool.set_tasks_ne _ hj] at ht
        exact hp.1 j t ht
    · by_cases hj : e.1 = i
      · rw [hj]; simp
      · rw [Pool.set_tasks_ne _ hj]; exact hp.2 e he
  · exact hp

/-- What holds at the first stage and is kept by every operation that a stage allows, holds wherever
a task stands. -/
theorem staged_step {G : ι → S → Prop} (h₀ : ∀ q, G q s₀)
    (hG : ∀ q s o r, G q s → (D q).allowed s o → G q ((D q).next s o r))
    (hp : Conforms D s₀ Q p)
    (hg : ∀ i t, p.tasks i = some t → G t.request (stage (D t.request).next s₀ p.log i))
    (h : Y.step p l = some p') :
    ∀ i t, p'.tasks i = some t → G t.request (stage (D t.request).next s₀ p'.log i) := by
  intro j t ht
  obtain ⟨i, q, -, hi, rfl⟩ | ⟨i, x, q, o, k, r, sh, -, hi, -, rfl⟩ | ⟨i, q, o, k, -, hi, rfl⟩ |
    ⟨e, sh, -, -, rfl⟩ := System.step_cases h
  · by_cases hj : j = i
    · subst hj
      rw [Pool.set_tasks_same] at ht
      cases ht
      rw [Pool.set_log, hp.stage_of_none hi]
      exact h₀ q
    · rw [Pool.set_tasks_ne _ hj] at ht
      exact hg j t ht
  · by_cases hj : j = i
    · subst hj
      obtain rfl : (⟨q, k r, true⟩ : Task Op Reply ι α) = t := by simpa [Pool.set] using ht
      rw [stage_snoc_same]
      exact hG q _ o r (hg j _ hi) (hp.1 j _ hi).1
    · rw [stage_snoc_ne _ _ _ hj]
      exact hg j t (by simpa [Pool.set, Function.update_of_ne hj] using ht)
  · by_cases hj : j = i
    · subst hj
      rw [Pool.set_tasks_same] at ht
      cases ht
      have := hg j _ hi
      exact this
    · rw [Pool.set_tasks_ne _ hj] at ht
      exact hg j t ht
  · exact hg j t ht

end Tasks
