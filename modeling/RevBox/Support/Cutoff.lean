import RevBox.Support.Trace

/-!
# Support — Cutoff

Programs on states that each operation may change in more than one way, and that may be cut off
between any two of their operations.

* `Leads`: what has become of a state and a program after some of its operations.
* `Always.leads`: what every operation keeps holds wherever a run is cut off.
* `always_bind`, `always_perform`: the rules by which programs are checked.
* `Only.always`, `Meets.always`: programs whose operations all keep a property.
-/

namespace Prog

variable {Op : Type} {Reply : Op → Type} {α β σ : Type}

/-- What an operation may be answered, and what may become of the state. -/
abbrev Effect (Op : Type) (Reply : Op → Type) (σ : Type) := σ → (o : Op) → Reply o → σ → Prop

/-- Some operations of a program, and what is left of it. -/
inductive Leads (did : Effect Op Reply σ) : σ → Prog Op Reply α → σ → Prog Op Reply α → Prop where
  | refl (w : σ) (p : Prog Op Reply α) : Leads did w p w p
  | step {w w₁ w' : σ} {o : Op} {r : Reply o} {k : Reply o → Prog Op Reply α}
      {p' : Prog Op Reply α} (h : did w o r w₁) (t : Leads did w₁ (k r) w' p') :
      Leads did w (op o k) w' p'

/-- Every operation leaves `I`, and where the program returns there is `Q`. -/
def Always (did : Effect Op Reply σ) (I : σ → Prop) (Q : α → σ → Prop) :
    σ → Prog Op Reply α → Prop
  | w, ret a => Q a w
  | w, op o k => ∀ r w', did w o r w' → I w' ∧ Always did I Q w' (k r)

variable {did : Effect Op Reply σ} {I : σ → Prop} {w : σ}

@[simp] theorem always_pure {Q : α → σ → Prop} {a : α} :
    Always did I Q w (pure a : Prog Op Reply α) ↔ Q a w := Iff.rfl

/-- **The rule of sequencing.** -/
theorem always_bind (f : α → Prog Op Reply β) {Q : β → σ → Prop} :
    ∀ {w : σ} (p : Prog Op Reply α), Always did I Q w (p >>= f) ↔
      Always did I (fun a w' => Always did I Q w' (f a)) w p
  | _, ret _ => Iff.rfl
  | _, op _ k => forall_congr' fun r => forall_congr' fun _ => imp_congr_right fun _ =>
      and_congr_right fun _ => always_bind f (k r)

/-- An operation, and what comes after it. -/
theorem always_perform {o : Op} {f : Reply o → Prog Op Reply β} {Q : β → σ → Prop}
    (h : ∀ r w', did w o r w' → I w' ∧ Always did I Q w' (f r)) :
    Always did I Q w (perform o >>= f) := h

/-- The rule of consequence. -/
theorem Always.mono {I' : σ → Prop} {Q Q' : α → σ → Prop} (hI : ∀ w, I w → I' w)
    (hQ : ∀ a w, Q a w → Q' a w) :
    ∀ {w : σ} {p : Prog Op Reply α}, Always did I Q w p → Always did I' Q' w p
  | _, ret _, hp => hQ _ _ hp
  | _, op _ _, hp => fun r w' hd => ⟨hI _ (hp r w' hd).1, (hp r w' hd).2.mono hI hQ⟩

/-- Sequencing and consequence together. -/
theorem Always.andThen {Q : α → σ → Prop} {Q' : β → σ → Prop} {f : α → Prog Op Reply β}
    {p : Prog Op Reply α} (hp : Always did I Q w p)
    (hf : ∀ a w', Q a w' → Always did I Q' w' (f a)) : Always did I Q' w (p >>= f) :=
  (always_bind f p).mpr (hp.mono (fun _ h => h) hf)

/-- Two properties that are kept are kept together. -/
theorem Always.and {J : σ → Prop} {Q Q' : α → σ → Prop} :
    ∀ {w : σ} {p : Prog Op Reply α}, Always did I Q w p → Always did J Q' w p →
      Always did (fun w => I w ∧ J w) (fun a w => Q a w ∧ Q' a w) w p
  | _, ret _, hp, hq => ⟨hp, hq⟩
  | _, op _ _, hp, hq => fun r w' hd =>
      ⟨⟨(hp r w' hd).1, (hq r w' hd).1⟩, (hp r w' hd).2.and (hq r w' hd).2⟩

/-- **Wherever it is cut off**, what every operation keeps still holds. -/
theorem Always.leads {Q : α → σ → Prop} {w' : σ} {p p' : Prog Op Reply α}
    (h : Always did I Q w p) (hw : I w) (hrun : Leads did w p w' p') :
    I w' ∧ Always did I Q w' p' := by
  induction hrun with
  | refl => exact ⟨hw, h⟩
  | step hd _ ih =>
      obtain ⟨hI, hrest⟩ := h _ _ hd
      exact ih hrest hI

/-- **Programs whose operations keep a property**, answered as the effect answers them. -/
theorem Meets.always {G P : (o : Op) → Reply o → Prop} {Q : α → Prop}
    (hG : ∀ w o r w', did w o r w' → G o r)
    (hP : ∀ w o r w', P o r → I w → did w o r w' → I w') :
    ∀ {w : σ} {p : Prog Op Reply α}, Meets G P Q p → I w →
      Always did I (fun a w' => Q a ∧ I w') w p
  | _, ret _, hp, hw => ⟨hp, hw⟩
  | _, op _ _, hp, hw => fun r _ hd => by
      obtain ⟨ho, hk⟩ := hp r (hG _ _ _ _ hd)
      have hw' := hP _ _ _ _ ho hw hd
      exact ⟨hw', hk.always hG hP hw'⟩

/-- **Programs of operations that keep a property.** -/
theorem Only.always {A : Op → Prop} (hA : ∀ w o r w', A o → I w → did w o r w' → I w') :
    ∀ {w : σ} {p : Prog Op Reply α}, Only A p → I w → Always did I (fun _ w' => I w') w p
  | _, ret _, _, hw => hw
  | _, op _ _, hp, hw => fun r _ hd =>
      have hw' := hA _ _ _ _ hp.1 hw hd
      ⟨hw', (hp.2 r).always hA hw'⟩

end Prog
