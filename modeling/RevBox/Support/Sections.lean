import RevBox.Support.Machine
import RevBox.Support.Prog
import Mathlib.Logic.Function.Basic

/-!
# Support — Sections

Calls that run interleaved over one shared state and exclude one another by locks, one for each
key: what an `async fn` does that awaits a mutex it keeps to its end.  The pool remembers for each
key who entered and left, and for each call what it has performed.

A `Terms` says what holds of a key while its lock is free and what holds of it always, and which
moves of others leave a key alone.  `Sound` is the program logic that checks one call against the
terms, alone.

* `step_cases`: everything one step can do.
* `sound_bind`, `Sound.mono`: the rules of sequencing and consequence.
* `kept_step`: what is sound of each call holds of the pool.
-/

namespace Sections

open Prog

variable {κ Op : Type} {Reply : Op → Type} {ι α β σ χ η : Type}

/-- What a call does: it takes the lock of a key, gives it back, or performs an operation. -/
inductive Act (κ Op : Type) where
  | lock (k : κ)
  | unlock (k : κ)
  | op (o : Op)

/-- The replies. -/
@[reducible] def Answer (Reply : Op → Type) : Act κ Op → Type
  | .lock _ => Unit
  | .unlock _ => Unit
  | .op o => Reply o

/-- A call. -/
abbrev Call (κ : Type) (Op : Type) (Reply : Op → Type) (α : Type) : Type :=
  Prog (Act κ Op) (Answer (κ := κ) Reply) α

/-- Perform one operation. -/
def op (o : Op) : Call κ Op Reply (Reply o) := perform (Act.op o)

/-- Wait for the lock of a key. -/
def lock (k : κ) : Call κ Op Reply Unit := perform (Act.lock k)

/-- Give the lock of a key back. -/
def unlock (k : κ) : Call κ Op Reply Unit := perform (Act.unlock k)

/-- A call that has begun: what was requested, and what is left to do. -/
structure Task (κ Op : Type) (Reply : Op → Type) (ι α : Type) where
  request : ι
  rest : Call κ Op Reply α

/-- Call `i` has taken the lock of a key, or given it back. -/
inductive Mark (ι : Type) where
  | entered (i : Nat) (q : ι)
  | left (i : Nat) (q : ι)

/-- The shared state, the calls begun so far, who holds the lock of each key, who has entered and
left it, newest first, and what has been performed, oldest first. -/
structure Pool (κ Op : Type) (Reply : Op → Type) (ι α σ : Type) where
  shared : σ
  tasks : List (Task κ Op Reply ι α)
  holder : κ → Option Nat
  past : κ → List (Mark ι)
  log : List (Nat × (o : Op) × Reply o)

/-- A move: a request begins, call `i` does what it does next, or the surroundings move. -/
inductive Label (ι χ η : Type) where
  | begin (q : ι)
  | act (i : Nat) (x : χ)
  | env (e : η)

/-- What the calls run and what their operations do. -/
structure System (κ Op : Type) (Reply : Op → Type) (ι α σ χ η : Type) where
  handler : ι → Call κ Op Reply α
  exec : σ → (o : Op) → χ → Option (Reply o × σ)
  env : σ → η → Option σ

/-- The result of a call that has returned. -/
def Task.answer (t : Task κ Op Reply ι α) : Option α :=
  match t.rest with
  | .ret a => some a
  | .op _ _ => none

/-- The answer of call `i`. -/
def Pool.answer (p : Pool κ Op Reply ι α σ) (i : Nat) : Option α :=
  p.tasks[i]?.bind Task.answer

namespace System

variable [DecidableEq κ] (Y : System κ Op Reply ι α σ χ η)

/-- One move of the pool. -/
def step (p : Pool κ Op Reply ι α σ) : Label ι χ η → Option (Pool κ Op Reply ι α σ)
  | .begin q => some { p with tasks := p.tasks ++ [⟨q, Y.handler q⟩] }
  | .act i x =>
      match p.tasks[i]? with
      | some ⟨q, .op (.lock k) c⟩ =>
          if p.holder k = none then
            some { p with
              tasks := p.tasks.set i ⟨q, c ()⟩
              holder := Function.update p.holder k (some i)
              past := Function.update p.past k (.entered i q :: p.past k) }
          else none
      | some ⟨q, .op (.unlock k) c⟩ =>
          if p.holder k = some i then
            some { p with
              tasks := p.tasks.set i ⟨q, c ()⟩
              holder := Function.update p.holder k none
              past := Function.update p.past k (.left i q :: p.past k) }
          else none
      | some ⟨q, .op (.op o) c⟩ =>
          (Y.exec p.shared o x).map fun (r, w) =>
            { p with
              shared := w
              tasks := p.tasks.set i ⟨q, c r⟩
              log := p.log ++ [(i, ⟨o, r⟩)] }
      | _ => none
  | .env e => (Y.env p.shared e).map fun w => { p with shared := w }

/-- No call begun, and a shared state in `init`. -/
def machine (init : σ → Prop) : Machine (Pool κ Op Reply ι α σ) (Label ι χ η) where
  init p := init p.shared ∧ p.tasks = [] ∧ p.holder = (fun _ => none) ∧ p.past = (fun _ => []) ∧
    p.log = []
  step := Y.step

variable {Y} {p p' : Pool κ Op Reply ι α σ} {l : Label ι χ η}

/-- **Everything one move can do.** -/
theorem step_cases (h : Y.step p l = some p') :
    (∃ q, l = .begin q ∧ p' = { p with tasks := p.tasks ++ [⟨q, Y.handler q⟩] }) ∨
    (∃ i x q k c, l = .act i x ∧ p.tasks[i]? = some ⟨q, .op (.lock k) c⟩ ∧ p.holder k = none ∧
      p' = { p with
        tasks := p.tasks.set i ⟨q, c ()⟩
        holder := Function.update p.holder k (some i)
        past := Function.update p.past k (.entered i q :: p.past k) }) ∨
    (∃ i x q k c, l = .act i x ∧ p.tasks[i]? = some ⟨q, .op (.unlock k) c⟩ ∧
      p.holder k = some i ∧
      p' = { p with
        tasks := p.tasks.set i ⟨q, c ()⟩
        holder := Function.update p.holder k none
        past := Function.update p.past k (.left i q :: p.past k) }) ∨
    (∃ i x q o c r w, l = .act i x ∧ p.tasks[i]? = some ⟨q, .op (.op o) c⟩ ∧
      Y.exec p.shared o x = some (r, w) ∧
      p' = { p with
        shared := w
        tasks := p.tasks.set i ⟨q, c r⟩
        log := p.log ++ [(i, ⟨o, r⟩)] }) ∨
    (∃ e w, l = .env e ∧ Y.env p.shared e = some w ∧ p' = { p with shared := w }) := by
  cases l with
  | begin q => exact .inl ⟨q, rfl, (Option.some.inj h).symm⟩
  | act i x =>
      simp only [step] at h
      split at h
      · rename_i q k c ht
        split at h
        · exact .inr (.inl ⟨i, x, q, k, c, rfl, ht, ‹_›, (Option.some.inj h).symm⟩)
        · cases h
      · rename_i q k c ht
        split at h
        · exact .inr (.inr (.inl ⟨i, x, q, k, c, rfl, ht, ‹_›, (Option.some.inj h).symm⟩))
        · cases h
      · rename_i q o c ht
        obtain ⟨⟨r, w⟩, hx, hp⟩ := Option.map_eq_some_iff.mp h
        exact .inr (.inr (.inr (.inl ⟨i, x, q, o, c, r, w, rfl, ht, hx, hp.symm⟩)))
      · cases h
  | env e =>
      obtain ⟨w, he, hp⟩ := Option.map_eq_some_iff.mp h
      exact .inr (.inr (.inr (.inr ⟨e, w, rfl, he, hp.symm⟩)))

end System

/-! ### Terms -/

/-- What is promised of each key, told from its past and the shared state. -/
structure Terms (κ Op ι σ χ : Type) where
  /-- a move of another leaves the key alone -/
  keeps : κ → σ → σ → Prop
  /-- while nobody holds the lock -/
  between : κ → List (Mark ι) → σ → Prop
  /-- always -/
  during : κ → List (Mark ι) → σ → Prop
  /-- which entries are looked at -/
  enter : Nat → ι → κ → List (Mark ι) → σ → Prop
  /-- which operations are looked at -/
  grants : ι → σ → Op → χ → Prop
  refl : ∀ k w, keeps k w w
  trans : ∀ k w w₁ w₂, keeps k w w₁ → keeps k w₁ w₂ → keeps k w w₂
  between_keeps : ∀ k h w w', keeps k w w' → between k h w → between k h w'
  during_keeps : ∀ k h w w', keeps k w w' → during k h w → during k h w'
  during_between : ∀ k h w, between k h w → during k h w

variable (A : Terms κ Op ι σ χ) (Y : System κ Op Reply ι α σ χ η)

/-- The key whose lock a call holds, with the key's past. -/
abbrev Held (κ ι : Type) : Type := Option (κ × List (Mark ι))

/-- Call `i` for `q`, holding a lock or none, keeps the terms whatever the others do meanwhile and
whatever its operations reply, and ends with `Q`. -/
def Sound (i : Nat) (q : ι) (Q : Held κ ι → σ → β → Prop) : Held κ ι → σ → Call κ Op Reply β → Prop
  | held, w, .ret a => Q held w a
  | none, _, .op (.lock k) c => ∀ h w, A.between k h w → A.enter i q k h w →
      A.during k (.entered i q :: h) w ∧ Sound i q Q (some (k, .entered i q :: h)) w (c ())
  | some (k, h), w, .op (.unlock k') c => k' = k ∧ A.between k (.left i q :: h) w ∧
      ∀ w', Sound i q Q none w' (c ())
  | none, _, .op (.op o) c => ∀ w x r w', A.grants q w o x → Y.exec w o x = some (r, w') →
      (∀ k, A.keeps k w w') ∧ Sound i q Q none w' (c r)
  | some (k, h), w, .op (.op o) c => ∀ w₁, A.keeps k w w₁ → ∀ x r w₂, A.grants q w₁ o x →
      Y.exec w₁ o x = some (r, w₂) →
        (∀ k', k' ≠ k → A.keeps k' w₁ w₂) ∧ A.during k h w₂ ∧
          Sound i q Q (some (k, h)) w₂ (c r)
  | some _, _, .op (.lock _) _ => False
  | none, _, .op (.unlock _) _ => False

variable {A Y} {i : Nat} {q : ι}

/-- **The rule of sequencing.** -/
theorem sound_bind {γ : Type} (f : β → Call κ Op Reply γ) {Q : Held κ ι → σ → γ → Prop} :
    ∀ {held : Held κ ι} {w : σ} (p : Call κ Op Reply β),
      Sound A Y i q Q held w (p >>= f) ↔
        Sound A Y i q (fun held w a => Sound A Y i q Q held w (f a)) held w p
  | none, _, .ret _ | some _, _, .ret _ => Iff.rfl
  | none, _, .op (.lock _) c => forall_congr' fun _ => forall_congr' fun _ =>
      imp_congr_right fun _ => imp_congr_right fun _ => and_congr_right fun _ =>
        sound_bind f (c ())
  | some _, _, .op (.unlock _) c => and_congr_right fun _ => and_congr_right fun _ =>
      forall_congr' fun _ => sound_bind f (c ())
  | none, _, .op (.op _) c => forall_congr' fun _ => forall_congr' fun _ => forall_congr' fun r =>
      forall_congr' fun _ => imp_congr_right fun _ => imp_congr_right fun _ =>
        and_congr_right fun _ => sound_bind f (c r)
  | some _, _, .op (.op _) c => forall_congr' fun _ => imp_congr_right fun _ =>
      forall_congr' fun _ => forall_congr' fun r => forall_congr' fun _ =>
        imp_congr_right fun _ => imp_congr_right fun _ => and_congr_right fun _ =>
          and_congr_right fun _ => sound_bind f (c r)
  | some _, _, .op (.lock _) _ => Iff.rfl
  | none, _, .op (.unlock _) _ => Iff.rfl

/-- The rule of consequence. -/
theorem Sound.mono {Q Q' : Held κ ι → σ → β → Prop} (h : ∀ held w a, Q held w a → Q' held w a) :
    ∀ {held : Held κ ι} {w : σ} {p : Call κ Op Reply β}, Sound A Y i q Q held w p →
      Sound A Y i q Q' held w p
  | none, _, .ret _, hp | some _, _, .ret _, hp => h _ _ _ hp
  | none, _, .op (.lock _) _, hp => fun past w hb he =>
      ⟨(hp past w hb he).1, (hp past w hb he).2.mono h⟩
  | some _, _, .op (.unlock _) _, hp => ⟨hp.1, hp.2.1, fun w' => (hp.2.2 w').mono h⟩
  | none, _, .op (.op _) _, hp => fun w x r w' ha hx =>
      ⟨(hp w x r w' ha hx).1, (hp w x r w' ha hx).2.mono h⟩
  | some _, _, .op (.op _) _, hp => fun w₁ hk x r w₂ ha hx =>
      ⟨(hp w₁ hk x r w₂ ha hx).1, (hp w₁ hk x r w₂ ha hx).2.1, (hp w₁ hk x r w₂ ha hx).2.2.mono h⟩

/-- A call ends without a lock. -/
def Done : Held κ ι → σ → β → Prop := fun held _ _ => held = none

/-- What others do in between does not matter to a call that holds a lock. -/
theorem Sound.keeps {k : κ} {h : List (Mark ι)} {w w' : σ} {p : Call κ Op Reply β}
    (hp : Sound A Y i q Done (some (k, h)) w p) (hk : A.keeps k w w') :
    Sound A Y i q Done (some (k, h)) w' p := by
  cases p with
  | ret a => exact hp
  | op a c =>
      cases a with
      | lock => exact hp
      | unlock => exact ⟨hp.1, A.between_keeps _ _ _ _ hk hp.2.1, hp.2.2⟩
      | op o => exact fun w₁ hk₁ => hp w₁ (A.trans _ _ _ _ hk hk₁)

/-- Nor to one that holds none. -/
theorem Sound.free {w w' : σ} {p : Call κ Op Reply β} (hp : Sound A Y i q Done none w p) :
    Sound A Y i q Done none w' p := by
  cases p with
  | ret a => exact hp
  | op a c => cases a <;> exact hp

/-! ### Triples -/

/-- What others do leaves `P` alone. -/
def Stable (A : Terms κ Op ι σ χ) (k : κ) (P : σ → Prop) : Prop :=
  ∀ w w', A.keeps k w w' → P w → P w'

/-- Call `i` for `q`, holding the lock of `k` with the past `h`: from `P` the program keeps the
terms and its lock, and ends with `Q`. -/
def Triple (A : Terms κ Op ι σ χ) (Y : System κ Op Reply ι α σ χ η) (i : Nat) (q : ι) (k : κ)
    (h : List (Mark ι)) (P : σ → Prop) (p : Call κ Op Reply β) (Q : β → σ → Prop) : Prop :=
  ∀ w, P w → Sound A Y i q (fun held w' b => held = some (k, h) ∧ Q b w') (some (k, h)) w p

section Triples

variable {γ : Type} {k : κ} {h : List (Mark ι)} {P P' : σ → Prop} {p : Call κ Op Reply β}
  {Q Q' : β → σ → Prop} {R : γ → σ → Prop}

theorem triple_pure {b : β} : Triple A Y i q k h (Q b) (pure b) Q := fun _ hw => ⟨rfl, hw⟩

/-- **The rule of sequencing.** -/
theorem Triple.bind {f : β → Call κ Op Reply γ} (hp : Triple A Y i q k h P p Q)
    (hf : ∀ b, Triple A Y i q k h (Q b) (f b) R) : Triple A Y i q k h P (p >>= f) R := by
  intro w hw
  rw [sound_bind]
  refine (hp w hw).mono fun held w' b hb => ?_
  obtain ⟨rfl, hb⟩ := hb
  exact hf b w' hb

/-- The rule of consequence. -/
theorem Triple.mono (hp : Triple A Y i q k h P p Q) (hP : ∀ w, P' w → P w)
    (hQ : ∀ b w, Q b w → Q' b w) : Triple A Y i q k h P' p Q' := fun w hw =>
  (hp w (hP w hw)).mono fun _ _ _ hb => ⟨hb.1, hQ _ _ hb.2⟩

/-- **The rule of operations.** -/
theorem triple_op {o : Op} {Q : Reply o → σ → Prop} (hP : Stable A k P)
    (ho : ∀ w x r w', P w → A.grants q w o x → Y.exec w o x = some (r, w') →
      (∀ k', k' ≠ k → A.keeps k' w w') ∧ A.during k h w' ∧ Q r w') :
    Triple A Y i q k h P (Sections.op o) Q := fun w hw w₁ hk x r w₂ ha hx => by
  obtain ⟨hothers, hduring, hq⟩ := ho w₁ x r w₂ (hP _ _ hk hw) ha hx
  exact ⟨hothers, hduring, rfl, hq⟩

/-- The call performs operations in `B`, and nothing else. -/
def Performs (B : Op → Prop) (p : Call κ Op Reply β) : Prop :=
  Only (fun a => match a with
    | .op o => B o
    | .lock _ | .unlock _ => False) p

theorem performs_op {B : Op → Prop} {o : Op} (ho : B o) :
    Performs B (Sections.op o : Call κ Op Reply (Reply o)) := only_perform ho

/-- **The rule of operations that keep `P`.** -/
theorem triple_of_performs {B : Op → Prop} (hP : Stable A k P)
    (hB : ∀ o, B o → ∀ w x r w', P w → A.grants q w o x → Y.exec w o x = some (r, w') →
      (∀ k', k' ≠ k → A.keeps k' w w') ∧ A.during k h w' ∧ P w') :
    ∀ {p : Call κ Op Reply β}, Performs B p → Triple A Y i q k h P p fun _ => P
  | .ret _, _ => fun _ hw => ⟨rfl, hw⟩
  | .op (.op o) c, ⟨ho, hc⟩ => fun w hw w₁ hk x r w₂ ha hx => by
      obtain ⟨hothers, hduring, hp⟩ := hB o ho w₁ x r w₂ (hP _ _ hk hw) ha hx
      exact ⟨hothers, hduring, triple_of_performs hP hB (hc r) w₂ hp⟩
  | .op (.lock _) _, ⟨ho, _⟩ | .op (.unlock _) _, ⟨ho, _⟩ => ho.elim

/-- **The rule of sections**: the body is checked from what holds between sections, and must leave
what holds between them. -/
theorem sound_section {b : Call κ Op Reply β} {f : β → Call κ Op Reply γ}
    {Q : Held κ ι → σ → γ → Prop} {w : σ}
    (hin : ∀ h w, A.between k h w → A.enter i q k h w → A.during k (.entered i q :: h) w)
    (hb : ∀ h, Triple A Y i q k (.entered i q :: h)
      (fun w => A.between k h w ∧ A.enter i q k h w) b
      fun _ w => A.between k (.left i q :: .entered i q :: h) w)
    (hf : ∀ b w, Sound A Y i q Q none w (f b)) :
    Sound A Y i q Q none w (Sections.lock k >>= fun _ => b >>= fun a =>
      Sections.unlock k >>= fun _ => f a) := by
  intro h w₁ hbetween henter
  refine ⟨hin h w₁ hbetween henter, ?_⟩
  change Sound A Y i q Q _ w₁ (b >>= fun a => Sections.unlock k >>= fun _ => f a)
  rw [sound_bind]
  refine (hb h w₁ ⟨hbetween, henter⟩).mono fun held w₂ a ha => ?_
  obtain ⟨rfl, ha⟩ := ha
  exact ⟨rfl, ha, fun w₃ => hf a w₃⟩

/-- A call that takes no lock and performs operations that leave every key alone. -/
theorem sound_of_performs {B : Op → Prop}
    (hB : ∀ o, B o → ∀ w x r w', A.grants q w o x → Y.exec w o x = some (r, w') →
      ∀ k, A.keeps k w w') {Q : Held κ ι → σ → β → Prop} (hQ : ∀ w b, Q none w b) :
    ∀ {p : Call κ Op Reply β} {w : σ}, Performs B p → Sound A Y i q Q none w p
  | .ret b, w, _ => hQ w b
  | .op (.op o) _, _, ⟨ho, hc⟩ => fun w x r w' ha hx =>
      ⟨hB o ho w x r w' ha hx, sound_of_performs hB hQ (hc r)⟩
  | .op (.lock _) _, _, ⟨ho, _⟩ | .op (.unlock _) _, _, ⟨ho, _⟩ => ho.elim

end Triples

/-! ### Pools -/

/-- The entries and operations the terms look at. -/
def Admits (A : Terms κ Op ι σ χ) (p : Pool κ Op Reply ι α σ) : Label ι χ η → Prop
  | .act i x =>
      match p.tasks[i]? with
      | some ⟨q, .op (.lock k) _⟩ => A.enter i q k (p.past k) p.shared
      | some ⟨q, .op (.op o) _⟩ => A.grants q p.shared o x
      | _ => True
  | _ => True

/-- The terms are kept so far, and every call keeps them from where it stands. -/
structure Kept (A : Terms κ Op ι σ χ) (Y : System κ Op Reply ι α σ χ η)
    (p : Pool κ Op Reply ι α σ) : Prop where
  free : ∀ k, p.holder k = none → A.between k (p.past k) p.shared
  always : ∀ k, A.during k (p.past k) p.shared
  inside : ∀ k i, p.holder k = some i → ∃ t, p.tasks[i]? = some t ∧
    Sound A Y i t.request Done (some (k, p.past k)) p.shared t.rest
  outside : ∀ i t, p.tasks[i]? = some t → (∀ k, p.holder k ≠ some i) →
    Sound A Y i t.request Done none p.shared t.rest
  one : ∀ k k' i, p.holder k = some i → p.holder k' = some i → k = k'

variable {p p' : Pool κ Op Reply ι α σ} {l : Label ι χ η}

/-- What call `i` holds. -/
theorem Kept.held (h : Kept A Y p) {i : Nat} {t : Task κ Op Reply ι α}
    (ht : p.tasks[i]? = some t) :
    (∃ k, p.holder k = some i ∧ Sound A Y i t.request Done (some (k, p.past k)) p.shared t.rest) ∨
      ((∀ k, p.holder k ≠ some i) ∧ Sound A Y i t.request Done none p.shared t.rest) := by
  by_cases hk : ∃ k, p.holder k = some i
  · obtain ⟨k, hk⟩ := hk
    obtain ⟨t', ht', hs⟩ := h.inside k i hk
    obtain rfl : t' = t := Option.some.inj (ht'.symm.trans ht)
    exact .inl ⟨k, hk, hs⟩
  · have hk : ∀ k, p.holder k ≠ some i := fun k hki => hk ⟨k, hki⟩
    exact .inr ⟨hk, h.outside i t ht hk⟩

/-- A move of the shared state alone that leaves every key alone. -/
theorem Kept.shared (h : Kept A Y p) {w : σ} (hk : ∀ k, A.keeps k p.shared w) :
    Kept A Y { p with shared := w } where
  free k hf := A.between_keeps _ _ _ _ (hk k) (h.free k hf)
  always k := A.during_keeps _ _ _ _ (hk k) (h.always k)
  inside k i hi := by
    obtain ⟨t, ht, hs⟩ := h.inside k i hi
    exact ⟨t, ht, hs.keeps (hk k)⟩
  outside i t ht hn := (h.outside i t ht hn).free
  one := h.one

variable [DecidableEq κ]

/-- **Every move keeps the terms**, if each call keeps them alone. -/
theorem kept_step (hY : ∀ i q w, Sound A Y i q Done none w (Y.handler q))
    (henv : ∀ w e w', Y.env w e = some w' → ∀ k, A.keeps k w w') (h : Kept A Y p)
    (ha : Admits A p l) (hs : Y.step p l = some p') : Kept A Y p' := by
  obtain ⟨q, -, rfl⟩ | ⟨i, x, q, k, c, rfl, ht, hfree, rfl⟩ | ⟨i, x, q, k, c, rfl, ht, hi, rfl⟩ |
    ⟨i, x, q, o, c, r, w, rfl, ht, hx, rfl⟩ | ⟨e, w, -, he, rfl⟩ := System.step_cases hs
  · -- a request begins
    have hold : ∀ {i t}, p.tasks[i]? = some t →
        (p.tasks ++ [⟨q, Y.handler q⟩])[i]? = some t := fun {i t} ht => by
      rw [List.getElem?_append_left (List.getElem?_eq_some_iff.mp ht).1, ht]
    refine ⟨h.free, h.always, fun k i hi => ?_, fun i t ht hn => ?_, h.one⟩
    · obtain ⟨t, ht, hsound⟩ := h.inside k i hi
      exact ⟨t, hold ht, hsound⟩
    · by_cases hlt : i < p.tasks.length
      · rw [List.getElem?_append_left hlt] at ht
        exact h.outside i t ht hn
      · rw [List.getElem?_append_right (by omega), List.getElem?_singleton] at ht
        split at ht
        · cases ht
          exact hY i q p.shared
        · cases ht
  · -- a call takes a lock that is free
    have henter : A.enter i q k (p.past k) p.shared := by
      simp only [Admits, ht] at ha
      exact ha
    obtain ⟨hnone, hsound⟩ : (∀ k, p.holder k ≠ some i) ∧
        Sound A Y i q Done none p.shared (.op (.lock k) c) := by
      rcases h.held ht with ⟨k', -, hbad⟩ | hnone
      · exact hbad.elim
      · exact hnone
    obtain ⟨hduring, hrest⟩ := hsound (p.past k) p.shared (h.free k hfree) henter
    have hset : (p.tasks.set i ⟨q, c ()⟩)[i]? = some ⟨q, c ()⟩ :=
      List.getElem?_set_self (List.getElem?_eq_some_iff.mp ht).1
    refine ⟨fun k' hk' => ?_, fun k' => ?_, fun k' j hj => ?_, fun j t hj hn => ?_,
      fun k₁ k₂ j h₁ h₂ => ?_⟩
    · have hne : k' ≠ k := by rintro rfl; simp at hk'
      simp only [Function.update_of_ne hne] at hk' ⊢
      exact h.free k' hk'
    · by_cases hkk : k' = k
      · subst hkk
        simpa using hduring
      · simpa [Function.update_of_ne hkk] using h.always k'
    · by_cases hkk : k' = k
      · subst hkk
        obtain rfl : i = j := by simpa using hj
        exact ⟨_, hset, by simpa using hrest⟩
      · simp only [Function.update_of_ne hkk] at hj ⊢
        obtain ⟨t, ht', hs'⟩ := h.inside k' j hj
        have hji : i ≠ j := by rintro rfl; exact hnone k' hj
        exact ⟨t, by rw [List.getElem?_set_ne hji, ht'], hs'⟩
    · have hji : i ≠ j := by
        rintro rfl
        exact hn k (by simp)
      rw [List.getElem?_set_ne hji] at hj
      refine h.outside j t hj fun k' hk' => ?_
      have hne : k' ≠ k := by rintro rfl; rw [hfree] at hk'; cases hk'
      exact hn k' (by simpa [Function.update_of_ne hne] using hk')
    · have hinj : ∀ k', Function.update p.holder k (some i) k' = some j → k' = k ∨
          p.holder k' = some j := fun k' hk' => by
        by_cases hkk : k' = k
        · exact .inl hkk
        · exact .inr (by simpa [Function.update_of_ne hkk] using hk')
      rcases hinj k₁ h₁ with rfl | h₁' <;> rcases hinj k₂ h₂ with rfl | h₂'
      · rfl
      · obtain rfl : i = j := by simpa using h₁
        exact absurd h₂' (hnone k₂)
      · obtain rfl : i = j := by simpa using h₂
        exact absurd h₁' (hnone k₁)
      · exact h.one k₁ k₂ j h₁' h₂'
  · -- a call gives its lock back
    obtain ⟨t, ht', hsound⟩ := h.inside k i hi
    obtain rfl : (⟨q, .op (.unlock k) c⟩ : Task κ Op Reply ι α) = t :=
      Option.some.inj (ht.symm.trans ht')
    obtain ⟨-, hbetween, hrest⟩ := hsound
    have hset : (p.tasks.set i ⟨q, c ()⟩)[i]? = some ⟨q, c ()⟩ :=
      List.getElem?_set_self (List.getElem?_eq_some_iff.mp ht).1
    refine ⟨fun k' hk' => ?_, fun k' => ?_, fun k' j hj => ?_, fun j t hj hn => ?_,
      fun k₁ k₂ j h₁ h₂ => ?_⟩
    · by_cases hkk : k' = k
      · subst hkk
        simpa using hbetween
      · simp only [Function.update_of_ne hkk] at hk' ⊢
        exact h.free k' hk'
    · by_cases hkk : k' = k
      · subst hkk
        simpa using A.during_between _ _ _ hbetween
      · simpa [Function.update_of_ne hkk] using h.always k'
    · have hkk : k' ≠ k := by rintro rfl; simp at hj
      simp only [Function.update_of_ne hkk] at hj ⊢
      obtain ⟨t, ht', hs'⟩ := h.inside k' j hj
      have hji : i ≠ j := by
        rintro rfl
        exact hkk (h.one k' k i hj hi)
      exact ⟨t, by rw [List.getElem?_set_ne hji, ht'], hs'⟩
    · by_cases hji : i = j
      · subst hji
        rw [hset] at hj
        cases hj
        exact hrest p.shared
      · rw [List.getElem?_set_ne hji] at hj
        refine h.outside j t hj fun k' hk' => ?_
        have hne : k' ≠ k := by
          rintro rfl
          rw [hi] at hk'
          exact hji (Option.some.inj hk')
        exact hn k' (by simpa [Function.update_of_ne hne] using hk')
    · have hinj : ∀ k', Function.update p.holder k none k' = some j → p.holder k' = some j :=
        fun k' hk' => by
          by_cases hkk : k' = k
          · subst hkk; simp at hk'
          · simpa [Function.update_of_ne hkk] using hk'
      exact h.one k₁ k₂ j (hinj k₁ h₁) (hinj k₂ h₂)
  · -- a call performs an operation
    have hadmit : A.grants q p.shared o x := by
      simp only [Admits, ht] at ha
      exact ha
    have hset : (p.tasks.set i ⟨q, c r⟩)[i]? = some ⟨q, c r⟩ :=
      List.getElem?_set_self (List.getElem?_eq_some_iff.mp ht).1
    rcases h.held ht with ⟨k, hk, hsound⟩ | ⟨hn, hsound⟩
    · obtain ⟨hothers, hduring, hrest⟩ := hsound p.shared (A.refl _ _) x r w hadmit hx
      refine ⟨fun k' hk' => ?_, fun k' => ?_, fun k' j hj => ?_, fun j t hj hn => ?_, h.one⟩
      · have hne : k' ≠ k := by rintro rfl; rw [hk] at hk'; cases hk'
        exact A.between_keeps _ _ _ _ (hothers k' hne) (h.free k' hk')
      · by_cases hkk : k' = k
        · subst hkk
          exact hduring
        · exact A.during_keeps _ _ _ _ (hothers k' hkk) (h.always k')
      · by_cases hkk : k' = k
        · subst hkk
          obtain rfl : i = j := Option.some.inj (hk.symm.trans hj)
          exact ⟨_, hset, hrest⟩
        · obtain ⟨t, ht', hs'⟩ := h.inside k' j hj
          have hji : i ≠ j := by
            rintro rfl
            exact hkk (h.one k' k i hj hk)
          exact ⟨t, by rw [List.getElem?_set_ne hji, ht'], hs'.keeps (hothers k' hkk)⟩
      · have hji : i ≠ j := by
          rintro rfl
          exact hn k hk
        rw [List.getElem?_set_ne hji] at hj
        exact (h.outside j t hj hn).free
    · obtain ⟨hothers, hrest⟩ := hsound p.shared x r w hadmit hx
      refine ⟨fun k' hk' => A.between_keeps _ _ _ _ (hothers k') (h.free k' hk'),
        fun k' => A.during_keeps _ _ _ _ (hothers k') (h.always k'), fun k' j hj => ?_,
        fun j t hj hn' => ?_, h.one⟩
      · obtain ⟨t, ht', hs'⟩ := h.inside k' j hj
        have hji : i ≠ j := by
          rintro rfl
          exact hn k' hj
        exact ⟨t, by rw [List.getElem?_set_ne hji, ht'], hs'.keeps (hothers k')⟩
      · by_cases hji : i = j
        · subst hji
          rw [hset] at hj
          cases hj
          exact hrest
        · rw [List.getElem?_set_ne hji] at hj
          exact (h.outside j t hj hn').free
  · exact h.shared (henv _ _ _ he)

/-- The terms are kept where every run starts. -/
theorem kept_init {init : σ → Prop} (h₀ : ∀ w, init w → ∀ k, A.between k [] w)
    (h : (Y.machine init).init p) : Kept A Y p := by
  obtain ⟨hw, htasks, hholder, hpast, -⟩ := h
  have hfree : ∀ k, A.between k (p.past k) p.shared := fun k => by
    rw [hpast]
    exact h₀ _ hw k
  have hnobody : ∀ k i, p.holder k ≠ some i := fun k i => by
    rw [hholder]
    exact nofun
  refine ⟨fun k _ => hfree k, fun k => A.during_between _ _ _ (hfree k), fun k i hi => ?_,
    fun i t ht => ?_, fun k k' i hi => ?_⟩
  · exact absurd hi (hnobody k i)
  · rw [htasks] at ht
    cases ht
  · exact absurd hi (hnobody k i)

end Sections
