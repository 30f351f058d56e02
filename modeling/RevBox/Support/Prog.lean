import Mathlib.Logic.Basic

/-!
# Support — Prog

Programs that perform operations and wait for the replies: what an `async fn` is between its
awaits.  A `Discipline` says which operations a program may perform at each stage and which
stage a reply leads to; `Follows` is the program logic that checks a program against it, one
rule for each way programs are built.  `Only` is what of a program needs no stages: every
operation it can perform is of one kind.
-/

/-- A program over the operations `Op`: it returns, or performs an operation and goes on with
the reply. -/
inductive Prog (Op : Type) (Reply : Op → Type) (α : Type) : Type where
  | ret (a : α)
  | op (o : Op) (k : Reply o → Prog Op Reply α)

namespace Prog

variable {Op : Type} {Reply : Op → Type} {α β : Type}

/-- Sequencing. -/
def bind : Prog Op Reply α → (α → Prog Op Reply β) → Prog Op Reply β
  | ret a, f => f a
  | op o k, f => op o fun r => (k r).bind f

instance : Monad (Prog Op Reply) where
  pure := ret
  bind := bind

/-- Perform one operation. -/
def perform (o : Op) : Prog Op Reply (Reply o) := op o ret

/-- What programs may do: the operations allowed at a stage, and the stage a reply leads to. -/
structure Discipline (Op : Type) (Reply : Op → Type) (S : Type) where
  allowed : S → Op → Prop
  next : S → (o : Op) → Reply o → S

variable {S : Type} (D : Discipline Op Reply S)

/-- From the stage `s` the program keeps the discipline whatever the replies, and where it
returns, stage and result satisfy `Q`. -/
def Follows (Q : S → α → Prop) : S → Prog Op Reply α → Prop
  | s, ret a => Q s a
  | s, op o k => D.allowed s o ∧ ∀ r, Follows Q (D.next s o r) (k r)

variable {D} {Q : S → β → Prop} {s : S}

@[simp] theorem follows_ret {Q : S → α → Prop} {a : α} : Follows D Q s (ret a) ↔ Q s a := Iff.rfl

@[simp] theorem follows_pure {Q : S → α → Prop} {a : α} :
    Follows D Q s (pure a : Prog Op Reply α) ↔ Q s a := Iff.rfl

@[simp] theorem follows_op {Q : S → α → Prop} {o : Op} {k : Reply o → Prog Op Reply α} :
    Follows D Q s (op o k) ↔ D.allowed s o ∧ ∀ r, Follows D Q (D.next s o r) (k r) := Iff.rfl

@[simp] theorem follows_perform {o : Op} {Q : S → Reply o → Prop} :
    Follows D Q s (perform o) ↔ D.allowed s o ∧ ∀ r, Q (D.next s o r) r := Iff.rfl

/-- **The rule of sequencing.** -/
@[simp] theorem follows_bind (f : α → Prog Op Reply β) :
    ∀ {s : S} (p : Prog Op Reply α),
      Follows D Q s (p >>= f) ↔ Follows D (fun s' a => Follows D Q s' (f a)) s p
  | s, ret a => Iff.rfl
  | s, op o k => and_congr_right fun _ => forall_congr' fun r => follows_bind f (k r)

/-- The rule of consequence. -/
theorem Follows.mono {Q' : S → α → Prop} {Q : S → α → Prop} (h : ∀ s a, Q s a → Q' s a) :
    ∀ {s : S} {p : Prog Op Reply α}, Follows D Q s p → Follows D Q' s p
  | _, ret _, hp => h _ _ hp
  | _, op _ _, ⟨ha, hk⟩ => ⟨ha, fun r => (hk r).mono h⟩

/-- Sequencing and consequence together. -/
theorem Follows.andThen {P : S → α → Prop} {f : α → Prog Op Reply β} {p : Prog Op Reply α}
    (hp : Follows D P s p) (hf : ∀ s a, P s a → Follows D Q s (f a)) :
    Follows D Q s (p >>= f) :=
  (follows_bind f p).mpr (hp.mono hf)

/-- An operation whose reply is used. -/
theorem follows_perform_bind {o : Op} {f : Reply o → Prog Op Reply β} :
    Follows D Q s (perform o >>= f) ↔
      D.allowed s o ∧ ∀ r, Follows D Q (D.next s o r) (f r) := Iff.rfl

/-! ### Programs of one kind of operation -/

/-- The program performs only operations in `A`, whatever the replies. -/
def Only (A : Op → Prop) : Prog Op Reply α → Prop
  | ret _ => True
  | op o k => A o ∧ ∀ r, Only A (k r)

variable {A : Op → Prop}

theorem only_pure {a : α} : Only A (pure a : Prog Op Reply α) := trivial

theorem only_perform {o : Op} (h : A o) : Only A (perform o : Prog Op Reply _) :=
  ⟨h, fun _ => trivial⟩

theorem Only.bind {f : α → Prog Op Reply β} : ∀ {p : Prog Op Reply α}, Only A p →
    (∀ a, Only A (f a)) → Only A (p >>= f)
  | ret a, _, hf => hf a
  | op _ _, hp, hf => ⟨hp.1, fun r => (hp.2 r).bind hf⟩

theorem Only.mono {B : Op → Prop} (hAB : ∀ o, A o → B o) :
    ∀ {p : Prog Op Reply α}, Only A p → Only B p
  | ret _, _ => trivial
  | op _ _, h => ⟨hAB _ h.1, fun r => (h.2 r).mono hAB⟩

/-- A program whose operations a stage allows and survives ends in that stage. -/
theorem Only.follows (h : ∀ o, A o → D.allowed s o ∧ ∀ r, D.next s o r = s) :
    ∀ {p : Prog Op Reply α}, Only A p → Follows D (fun s' _ => s' = s) s p
  | ret _, _ => rfl
  | op o _, ⟨ho, hk⟩ => ⟨(h o ho).1, fun r => by
      rw [(h o ho).2 r]
      exact (hk r).follows h⟩

end Prog
