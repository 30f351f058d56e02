import RevBox.Support.Prog
import Mathlib.Data.List.Basic

/-!
# Support — Surroundings

Programs run to their end in a world that also moves on its own.  A script says, for each
operation the program performs, which moves the world makes before it and how the world answers
it; `Safe` is partial correctness over all scripts, with the rules by which programs are checked.

* `Safe.run`: what is safe of a program holds of every run of it.
* `safe_bind`: sequencing.
* `Ties.during`, `Ties.run`: what ties the stages of a program's discipline to the world holds in
  every state its runs reach, and where they end.
-/

/-- A world programs act on: its answers to their operations, and the moves it makes itself. -/
structure Surroundings (Op : Type) (Reply : Op → Type) (σ χ η : Type) where
  perform : σ → (o : Op) → χ → Option (Reply o × σ)
  move : σ → η → Option σ

namespace Surroundings

open Prog

variable {Op : Type} {Reply : Op → Type} {α β σ χ η : Type} (Y : Surroundings Op Reply σ χ η)

/-- Some moves of the world. -/
def moves (w : σ) : List η → Option σ
  | [] => some w
  | e :: es => (Y.move w e).bind fun w' => moves w' es

/-- A run of a program by a script. -/
def run : Prog Op Reply α → σ → List (List η × χ) → Option (α × σ)
  | .ret a, w, [] => some (a, w)
  | .ret _, _, _ :: _ => none
  | .op _ _, _, [] => none
  | .op o k, w, (es, x) :: script =>
      (Y.moves w es).bind fun w₁ => (Y.perform w₁ o x).bind fun (r, w₂) => run (k r) w₂ script

/-- Whatever the moves in between, which `later` bounds, and whatever answers within `ok`, the
program ends with `Q`. -/
def Safe (later : σ → σ → Prop) (ok : χ → Prop) (Q : α → σ → Prop) : σ → Prog Op Reply α → Prop
  | w, .ret a => Q a w
  | w, .op o k => ∀ w₁, later w w₁ → ∀ x, ok x → ∀ r w₂, Y.perform w₁ o x = some (r, w₂) →
      Safe later ok Q w₂ (k r)

variable {Y} {later : σ → σ → Prop} {ok : χ → Prop}

@[simp] theorem safe_ret {Q : α → σ → Prop} {w : σ} {a : α} :
    Y.Safe later ok Q w (.ret a) ↔ Q a w := Iff.rfl

@[simp] theorem safe_pure {Q : α → σ → Prop} {w : σ} {a : α} :
    Y.Safe later ok Q w (pure a : Prog Op Reply α) ↔ Q a w := Iff.rfl

/-- **The rule of sequencing.** -/
theorem safe_bind (f : α → Prog Op Reply β) {Q : β → σ → Prop} :
    ∀ {w : σ} (p : Prog Op Reply α), Y.Safe later ok Q w (p >>= f) ↔
      Y.Safe later ok (fun a w' => Y.Safe later ok Q w' (f a)) w p
  | _, .ret _ => Iff.rfl
  | _, .op _ k => forall_congr' fun _ => imp_congr_right fun _ => forall_congr' fun _ =>
      imp_congr_right fun _ => forall_congr' fun r => forall_congr' fun _ =>
        imp_congr_right fun _ => safe_bind f (k r)

/-- The rule of consequence. -/
theorem Safe.mono {Q Q' : α → σ → Prop} (h : ∀ a w, Q a w → Q' a w) :
    ∀ {w : σ} {p : Prog Op Reply α}, Y.Safe later ok Q w p → Y.Safe later ok Q' w p
  | _, .ret _, hp => h _ _ hp
  | _, .op _ _, hp => fun w₁ hl x hx r w₂ hr => (hp w₁ hl x hx r w₂ hr).mono h

/-- **What is safe holds of every run.** -/
theorem Safe.run {Q : α → σ → Prop} (hlater : ∀ w es w', Y.moves w es = some w' → later w w') :
    ∀ {p : Prog Op Reply α} {w w' : σ} {script : List (List η × χ)} {a : α},
      Y.Safe later ok Q w p → (∀ e ∈ script, ok e.2) → Y.run p w script = some (a, w') → Q a w'
  | .ret _, _, _, [], _, hp, _, h => by
      cases h
      exact hp
  | .op o k, w, w', (es, x) :: script, a, hp, hok, h => by
      obtain ⟨w₁, h₁, h⟩ := Option.bind_eq_some_iff.mp h
      obtain ⟨⟨r, w₂⟩, h₂, h⟩ := Option.bind_eq_some_iff.mp h
      exact (hp w₁ (hlater _ _ _ h₁) x (hok _ List.mem_cons_self) r w₂ h₂).run hlater
        (fun e he => hok e (List.mem_cons_of_mem _ he)) h

/-- What a program returns by its discipline, it returns in every run. -/
theorem returned {S : Type} {D : Discipline Op Reply S} {Q : S → α → Prop} :
    ∀ {p : Prog Op Reply α} {s : S} {w w' : σ} {script : List (List η × χ)} {a : α},
      Follows D Q s p → Y.run p w script = some (a, w') → ∃ s', Q s' a
  | .ret _, s, _, _, [], _, hp, h => by
      cases h
      exact ⟨s, hp⟩
  | .op o k, s, w, w', (es, x) :: script, a, hp, h => by
      obtain ⟨w₁, -, h⟩ := Option.bind_eq_some_iff.mp h
      obtain ⟨⟨r, w₂⟩, -, h⟩ := Option.bind_eq_some_iff.mp h
      exact returned (hp.2 r) h

/-! ### Runs broken off, and runs under a condition -/

variable (Y) in
/-- The state a run has reached by the end of a script, the program done or not. -/
def during : Prog Op Reply α → σ → List (List η × χ) → Option σ
  | .ret _, w, [] => some w
  | .ret _, _, _ :: _ => none
  | .op _ _, w, [] => some w
  | .op o k, w, (es, x) :: script =>
      (Y.moves w es).bind fun w₁ => (Y.perform w₁ o x).bind fun (r, w₂) => during (k r) w₂ script

variable (Y) in
/-- The world in which nothing happens but what meets a condition. -/
def guard (moving : σ → η → Bool) (performing : σ → Op → Bool) : Surroundings Op Reply σ χ η where
  perform w o x := if performing w o then Y.perform w o x else none
  move w e := if moving w e then Y.move w e else none

/-- A relation between worlds and the stages of a discipline that moves of the kind `C` and
operations keep. -/
structure Ties {S : Type} (D : Discipline Op Reply S) (Y : Surroundings Op Reply σ χ η)
    (C : η → Prop) (R : S → σ → Prop) : Prop where
  move : ∀ {s w e w'}, C e → R s w → Y.move w e = some w' → R s w'
  perform : ∀ {s w o x r w'}, R s w → D.allowed s o → Y.perform w o x = some (r, w') →
    R (D.next s o r) w'

section

variable {S : Type} {D : Discipline Op Reply S} {C : η → Prop} {R : S → σ → Prop} {s : S}

theorem Ties.moves (T : Ties D Y C R) : ∀ {es : List η} {w w' : σ}, (∀ e ∈ es, C e) → R s w →
    Y.moves w es = some w' → R s w'
  | [], w, w', _, hR, h => by
      cases h
      exact hR
  | e :: es, w, w', hC, hR, h => by
      obtain ⟨w₁, h₁, h⟩ := Option.bind_eq_some_iff.mp h
      exact T.moves (fun e he => hC e (List.mem_cons_of_mem _ he))
        (T.move (hC e List.mem_cons_self) hR h₁) h

/-- In every state a run reaches, the relation holds at some stage. -/
theorem Ties.during (T : Ties D Y C R) {Q : S → α → Prop} :
    ∀ {p : Prog Op Reply α} {s : S} {w w' : σ} {script : List (List η × χ)},
      Follows D Q s p → (∀ l ∈ script, ∀ e ∈ l.1, C e) → R s w →
      Y.during p w script = some w' → ∃ s', R s' w'
  | .ret _, s, _, _, [], _, _, hR, h => by
      cases h
      exact ⟨s, hR⟩
  | .op _ _, s, _, _, [], _, _, hR, h => by
      cases h
      exact ⟨s, hR⟩
  | .op o k, s, w, w', (es, x) :: script, hp, hC, hR, h => by
      obtain ⟨w₁, h₁, h⟩ := Option.bind_eq_some_iff.mp h
      obtain ⟨⟨r, w₂⟩, h₂, h⟩ := Option.bind_eq_some_iff.mp h
      exact T.during (hp.2 r) (fun l hl => hC l (List.mem_cons_of_mem _ hl))
        (T.perform (T.moves (hC _ List.mem_cons_self) hR h₁) hp.1 h₂) h

/-- Where a run ends, it holds at a stage the discipline lets the program end in. -/
theorem Ties.run (T : Ties D Y C R) {Q : S → α → Prop} :
    ∀ {p : Prog Op Reply α} {s : S} {w w' : σ} {script : List (List η × χ)} {a : α},
      Follows D Q s p → (∀ l ∈ script, ∀ e ∈ l.1, C e) → R s w →
      Y.run p w script = some (a, w') → ∃ s', Q s' a ∧ R s' w'
  | .ret _, s, _, _, [], _, hp, _, hR, h => by
      cases h
      exact ⟨s, hp, hR⟩
  | .op o k, s, w, w', (es, x) :: script, a, hp, hC, hR, h => by
      obtain ⟨w₁, h₁, h⟩ := Option.bind_eq_some_iff.mp h
      obtain ⟨⟨r, w₂⟩, h₂, h⟩ := Option.bind_eq_some_iff.mp h
      exact T.run (hp.2 r) (fun l hl => hC l (List.mem_cons_of_mem _ hl))
        (T.perform (T.moves (hC _ List.mem_cons_self) hR h₁) hp.1 h₂) h

end

end Surroundings
