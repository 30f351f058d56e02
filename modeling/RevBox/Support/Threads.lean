import RevBox.Support.Machine
import RevBox.Support.Prog
import Mathlib.Logic.Function.Basic

/-!
# Support — Threads

Threads that run their programs interleaved over one shared state, take locks, several at once
if they like, try for a lock without waiting, and start further threads.

A discipline says what a program may do at each stage, and a `Staging` gives every thread the
stage it has come to.  `staged_run` is the rule: what holds of the pool and its stages at first
and is kept by every act a discipline allows holds in every run.

* `step_cases`: everything one step can do.
* `staged_run`: the invariant rule for pools whose programs keep a discipline.
-/

namespace Threads

open Prog

variable {κ Op : Type} {Reply : Op → Type} {ι α σ χ S : Type}

/-- What a thread does: it takes a lock, waiting for it or not, gives one back, starts a thread,
or performs an operation. -/
inductive Act (κ ι Op : Type) where
  | lock (k : κ)
  | tryLock (k : κ)
  | unlock (k : κ)
  | fork (q : ι)
  | op (o : Op)

/-- The replies; a thread that is started is known by its number. -/
@[reducible] def Answer (Reply : Op → Type) : Act κ ι Op → Type
  | .lock _ => Unit
  | .tryLock _ => Bool
  | .unlock _ => Unit
  | .fork _ => Nat
  | .op o => Reply o

/-- What a thread runs. -/
abbrev Body (κ ι Op : Type) (Reply : Op → Type) (α : Type) : Type :=
  Prog (Act κ ι Op) (Answer (κ := κ) (ι := ι) Reply) α

/-- Wait for a lock. -/
def lock (k : κ) : Body κ ι Op Reply Unit := perform (Act.lock k)

/-- Take a lock if it is free. -/
def tryLock (k : κ) : Body κ ι Op Reply Bool := perform (Act.tryLock k)

/-- Give a lock back. -/
def unlock (k : κ) : Body κ ι Op Reply Unit := perform (Act.unlock k)

/-- Start a thread. -/
def fork (q : ι) : Body κ ι Op Reply Nat := perform (Act.fork q)

/-- Perform one operation. -/
def op (o : Op) : Body κ ι Op Reply (Reply o) := perform (Act.op o)

section Rules

variable {D : Discipline (Act κ ι Op) (Answer (κ := κ) (ι := ι) Reply) S} {s : S}

@[simp] theorem follows_lock {k : κ} {Q : S → Unit → Prop} :
    Follows D Q s (lock k) ↔ D.allowed s (.lock k) ∧ Q (D.next s (.lock k) ()) () :=
  and_congr_right fun _ => ⟨fun h => h (), fun h _ => h⟩

@[simp] theorem follows_tryLock {k : κ} {Q : S → Bool → Prop} :
    Follows D Q s (tryLock k) ↔
      D.allowed s (.tryLock k) ∧ ∀ r : Bool, Q (D.next s (.tryLock k) r) r := Iff.rfl

@[simp] theorem follows_unlock {k : κ} {Q : S → Unit → Prop} :
    Follows D Q s (unlock k) ↔ D.allowed s (.unlock k) ∧ Q (D.next s (.unlock k) ()) () :=
  and_congr_right fun _ => ⟨fun h => h (), fun h _ => h⟩

@[simp] theorem follows_fork {q : ι} {Q : S → Nat → Prop} :
    Follows D Q s (fork q) ↔
      D.allowed s (.fork q) ∧ ∀ r : Nat, Q (D.next s (.fork q) r) r := Iff.rfl

@[simp] theorem follows_act {o : Op} {Q : S → Reply o → Prop} :
    Follows D Q s (op o) ↔ D.allowed s (.op o) ∧ ∀ r, Q (D.next s (.op o) r) r := Iff.rfl

end Rules

/-- A thread: what it was started for, and what is left to do. -/
structure Thread (κ ι Op : Type) (Reply : Op → Type) (α : Type) where
  request : ι
  rest : Body κ ι Op Reply α

/-- The shared state, the threads started so far, and who holds each lock. -/
structure Pool (κ ι Op : Type) (Reply : Op → Type) (α σ : Type) where
  shared : σ
  threads : List (Thread κ ι Op Reply α)
  holder : κ → Option Nat

/-- A move: a thread is started from outside, or thread `i` does what it does next. -/
inductive Label (ι χ : Type) where
  | begin (q : ι)
  | act (i : Nat) (x : χ)

/-- What the threads run and what their operations do. -/
structure System (κ ι Op : Type) (Reply : Op → Type) (α σ χ : Type) where
  body : ι → Body κ ι Op Reply α
  exec : σ → Nat → (o : Op) → χ → Option (Reply o × σ)

namespace System

variable [DecidableEq κ] (Y : System κ ι Op Reply α σ χ)

/-- A thread more. -/
def start (p : Pool κ ι Op Reply α σ) (q : ι) : Pool κ ι Op Reply α σ :=
  { p with threads := p.threads ++ [⟨q, Y.body q⟩] }

/-- What an act of thread `i` does, with its reply. -/
def effect (p : Pool κ ι Op Reply α σ) (i : Nat) :
    (a : Act κ ι Op) → χ → Option (Answer Reply a × Pool κ ι Op Reply α σ)
  | .lock k, _ =>
      if p.holder k = none then some ((), { p with holder := Function.update p.holder k (some i) })
      else none
  | .tryLock k, _ =>
      if p.holder k = none then
        some (true, { p with holder := Function.update p.holder k (some i) })
      else some (false, p)
  | .unlock k, _ =>
      if p.holder k = some i then some ((), { p with holder := Function.update p.holder k none })
      else none
  | .fork q, _ => some (p.threads.length, Y.start p q)
  | .op o, x => (Y.exec p.shared i o x).map fun (r, w) => (r, { p with shared := w })

/-- One move of the pool. -/
def step (p : Pool κ ι Op Reply α σ) : Label ι χ → Option (Pool κ ι Op Reply α σ)
  | .begin q => some (Y.start p q)
  | .act i x =>
      match p.threads[i]? with
      | some ⟨q, .op a c⟩ =>
          (Y.effect p i a x).map fun (r, p₁) =>
            { p₁ with threads := p₁.threads.set i ⟨q, c r⟩ }
      | _ => none

/-- No thread, and a shared state in `init`. -/
def machine (init : σ → Prop) : Machine (Pool κ ι Op Reply α σ) (Label ι χ) where
  init p := init p.shared ∧ p.threads = [] ∧ p.holder = fun _ => none
  step := Y.step

variable {Y} {p p' : Pool κ ι Op Reply α σ} {l : Label ι χ}

/-- **Everything one move can do.** -/
theorem step_cases (h : Y.step p l = some p') :
    (∃ q, l = .begin q ∧ p' = Y.start p q) ∨
    (∃ i x q a c r p₁, l = .act i x ∧ p.threads[i]? = some ⟨q, .op a c⟩ ∧
      Y.effect p i a x = some (r, p₁) ∧
      p' = { p₁ with threads := p₁.threads.set i ⟨q, c r⟩ }) := by
  cases l with
  | begin q => exact .inl ⟨q, rfl, (Option.some.inj h).symm⟩
  | act i x =>
      simp only [step] at h
      split at h
      · rename_i q a c ht
        obtain ⟨⟨r, p₁⟩, he, hp⟩ := Option.map_eq_some_iff.mp h
        exact .inr ⟨i, x, q, a, c, r, p₁, rfl, ht, he, hp.symm⟩
      · cases h

end System

/-! ### Stages -/

/-- The stage a thread is started in, and the discipline all programs keep. -/
structure Plan (κ ι Op : Type) (Reply : Op → Type) (α S : Type) where
  rules : Discipline (Act κ ι Op) (Answer (κ := κ) (ι := ι) Reply) S
  first : ι → S
  last : S → α → Prop

variable [DecidableEq κ] (P : Plan κ ι Op Reply α S) (Y : System κ ι Op Reply α σ χ)

/-- Every thread's program keeps the discipline from the stage it has come to. -/
def Staged (p : Pool κ ι Op Reply α σ) (st : Nat → S) : Prop :=
  ∀ i t, p.threads[i]? = some t → Follows P.rules P.last (st i) t.rest

/-- The stages after an act of thread `i`, where `n` is the number of the next thread. -/
def after (st : Nat → S) (n i : Nat) : (a : Act κ ι Op) → Answer Reply a → Nat → S
  | .fork q, r =>
      Function.update (Function.update st i (P.rules.next (st i) (.fork q) r)) n (P.first q)
  | a, r => Function.update st i (P.rules.next (st i) a r)

variable {P Y} {p p' : Pool κ ι Op Reply α σ} {st : Nat → S} {i : Nat}

omit [DecidableEq κ] in
theorem staged_start (hst : Staged P p st) {q : ι}
    (hq : Follows P.rules P.last (P.first q) (Y.body q)) :
    Staged P (Y.start p q) (Function.update st p.threads.length (P.first q)) := by
  intro j t hj
  by_cases hji : j = p.threads.length
  · subst hji
    rw [System.start, List.getElem?_concat_length] at hj
    obtain rfl := Option.some.inj hj
    rwa [Function.update_self]
  · rw [Function.update_of_ne hji]
    refine hst j t ?_
    rw [System.start, List.getElem?_append] at hj
    split at hj
    · exact hj
    · rename_i hlt
      rw [List.getElem?_eq_none (by simp only [List.length_singleton]; omega)] at hj
      cases hj

omit [DecidableEq κ] in
theorem staged_set {t : Thread κ ι Op Reply α} (hst : Staged P p st) {s : S}
    (ht : Follows P.rules P.last s t.rest) :
    Staged P { p with threads := p.threads.set i t } (Function.update st i s) := by
  intro j u hj
  by_cases hji : j = i
  · subst hji
    rw [List.getElem?_set] at hj
    split at hj
    · split at hj
      · obtain rfl := Option.some.inj hj
        rwa [Function.update_self]
      · cases hj
    · exact absurd rfl ‹_›
  · rw [List.getElem?_set_ne (Ne.symm hji)] at hj
    rw [Function.update_of_ne hji]
    exact hst j u hj

theorem threads_effect {a : Act κ ι Op} {x : χ} {r : Answer Reply a}
    {p₁ : Pool κ ι Op Reply α σ} (h : Y.effect p i a x = some (r, p₁)) :
    p₁.threads = p.threads ∨ ∃ q, a = .fork q ∧ p₁ = Y.start p q := by
  cases a with
  | lock k =>
      simp only [System.effect] at h
      split at h
      · cases h; exact .inl rfl
      · cases h
  | tryLock k =>
      simp only [System.effect] at h
      split at h <;> (cases h; exact .inl rfl)
  | unlock k =>
      simp only [System.effect] at h
      split at h
      · cases h; exact .inl rfl
      · cases h
  | fork q =>
      cases h
      exact .inr ⟨q, rfl, rfl⟩
  | op o =>
      obtain ⟨⟨r', w⟩, -, hr⟩ := Option.map_eq_some_iff.mp h
      cases hr
      exact .inl rfl

theorem staged_act (hY : ∀ q, Follows P.rules P.last (P.first q) (Y.body q))
    (hst : Staged P p st) {q : ι} {a : Act κ ι Op} {c : Answer Reply a → Body κ ι Op Reply α}
    {x : χ} {r : Answer Reply a} {p₁ : Pool κ ι Op Reply α σ}
    (ht : p.threads[i]? = some ⟨q, .op a c⟩) (he : Y.effect p i a x = some (r, p₁)) :
    Staged P { p₁ with threads := p₁.threads.set i ⟨q, c r⟩ }
      (after P st p.threads.length i a r) := by
  have hrest : Follows P.rules P.last (P.rules.next (st i) a r) (c r) := (hst i _ ht).2 r
  rcases threads_effect he with heq | ⟨q', rfl, rfl⟩
  · have hstay : Staged P p₁ st := fun j t hj => hst j t (heq ▸ hj)
    cases a with
    | fork q' =>
        cases he
        exact absurd (congrArg List.length heq) (by simp [System.start])
    | lock k => exact staged_set hstay hrest
    | tryLock k => exact staged_set hstay hrest
    | unlock k => exact staged_set hstay hrest
    | op o => exact staged_set hstay hrest
  · have hi : i ≠ p.threads.length := by
      rintro rfl
      rw [List.getElem?_eq_none (Nat.le_refl _)] at ht
      cases ht
    have h := staged_set (i := i) (t := ⟨q, c r⟩) (staged_start hst (hY q')) hrest
    rwa [Function.update_comm hi.symm] at h

variable {C : Pool κ ι Op Reply α σ → Label ι χ → Prop} {init : σ → Prop}
  {p₀ : Pool κ ι Op Reply α σ} {ls : List (Label ι χ)}

/-- **The invariant rule for staged pools.**  `R` may assume of an act that the discipline allows
it at the stage of its thread. -/
theorem staged_run {R : Pool κ ι Op Reply α σ → (Nat → S) → Prop} {st₀ : Nat → S}
    (hY : ∀ q, Follows P.rules P.last (P.first q) (Y.body q)) (h₀ : R p₀ st₀)
    (hbegin : ∀ p st q, R p st → C p (.begin q) →
      R (Y.start p q) (Function.update st p.threads.length (P.first q)))
    (hact : ∀ p st i x q a c r p₁, R p st → Staged P p st → C p (.act i x) →
      p.threads[i]? = some ⟨q, .op a c⟩ → P.rules.allowed (st i) a →
      Y.effect p i a x = some (r, p₁) →
      R { p₁ with threads := p₁.threads.set i ⟨q, c r⟩ } (after P st p.threads.length i a r))
    (hp : (Y.machine init).init p₀) (hr : (Y.machine init).Run C p₀ ls p) :
    ∃ st, Staged P p st ∧ R p st := by
  refine hr.invariant (I := fun p => ∃ st, Staged P p st ∧ R p st) ?_
    ⟨st₀, fun i t hi => (by rw [hp.2.1] at hi; cases hi), h₀⟩
  rintro p l p' ⟨st, hst, hR⟩ hC hs
  rcases System.step_cases hs with ⟨q, rfl, rfl⟩ | ⟨i, x, q, a, c, r, p₁, rfl, ht, he, rfl⟩
  · exact ⟨_, staged_start hst (hY q), hbegin p st q hR hC⟩
  · exact ⟨_, staged_act hY hst ht he,
      hact p st i x q a c r p₁ hR hst hC ht (hst i _ ht).1 he⟩

end Threads
