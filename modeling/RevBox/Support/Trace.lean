import RevBox.Support.Prog

/-!
# Support — Trace

What a program has performed when it returns: the operations with their replies, oldest first.

* `trace_bind`: the trace of a sequence is cut where the first program returns.
* `Only.trace`: a program that only performs certain operations shows no others.
* `Follows.trace`: the trace of a program under a discipline leads to a stage the result fits.
* `Meets.trace`: what a program meets as long as its replies do, its trace shows.
-/

namespace Prog

variable {Op : Type} {Reply : Op → Type} {α β : Type}

/-- The program performs these operations, is replied to like this, and returns `b`. -/
def Trace : Prog Op Reply α → List ((o : Op) × Reply o) → α → Prop
  | ret a, [], b => a = b
  | op o k, e :: es, b => ∃ r, e = ⟨o, r⟩ ∧ Trace (k r) es b
  | ret _, _ :: _, _ => False
  | op _ _, [], _ => False

variable {A : Op → Prop} {es : List ((o : Op) × Reply o)} {a b : α} {c : β}

theorem trace_pure : Trace (pure a : Prog Op Reply α) es b ↔ es = [] ∧ a = b := by
  cases es with
  | nil => exact ⟨fun h => ⟨rfl, h⟩, fun h => h.2⟩
  | cons e es => exact ⟨False.elim, fun h => by cases h.1⟩

theorem trace_perform {o : Op} {r : Reply o} :
    Trace (perform o) es r ↔ es = [⟨o, r⟩] := by
  cases es with
  | nil => exact ⟨False.elim, fun h => by cases h⟩
  | cons e es =>
      constructor
      · rintro ⟨r', rfl, h⟩
        obtain ⟨rfl, rfl⟩ := trace_pure.mp h
        rfl
      · intro h
        cases h
        exact ⟨r, rfl, rfl⟩

/-- **The trace of a sequence.** -/
theorem trace_bind {f : α → Prog Op Reply β} : ∀ {p : Prog Op Reply α}
    {es : List ((o : Op) × Reply o)}, Trace (p >>= f) es c ↔
      ∃ es₁ a es₂, es = es₁ ++ es₂ ∧ Trace p es₁ a ∧ Trace (f a) es₂ c
  | ret a, es => by
      constructor
      · exact fun h => ⟨[], a, es, rfl, rfl, h⟩
      · rintro ⟨es₁, b, es₂, rfl, h₁, h₂⟩
        obtain ⟨rfl, rfl⟩ := trace_pure.mp h₁
        exact h₂
  | op o k, [] => by
      constructor
      · exact False.elim
      · rintro ⟨es₁, b, es₂, he, h₁, -⟩
        rw [(List.append_eq_nil_iff.mp he.symm).1] at h₁
        exact h₁.elim
  | op o k, e :: es => by
      constructor
      · rintro ⟨r, rfl, h⟩
        obtain ⟨es₁, b, es₂, rfl, h₁, h₂⟩ := trace_bind.mp h
        exact ⟨⟨o, r⟩ :: es₁, b, es₂, rfl, ⟨r, rfl, h₁⟩, h₂⟩
      · rintro ⟨es₁, b, es₂, he, h₁, h₂⟩
        cases es₁ with
        | nil => exact h₁.elim
        | cons e' es₁ =>
            obtain ⟨r, rfl, h₁⟩ := h₁
            obtain ⟨rfl, rfl⟩ := List.cons_eq_cons.mp he
            exact ⟨r, rfl, trace_bind.mpr ⟨es₁, b, es₂, rfl, h₁, h₂⟩⟩

theorem trace_perform_bind {o : Op} {f : Reply o → Prog Op Reply β} :
    Trace (perform o >>= f) es c ↔ ∃ r es', es = ⟨o, r⟩ :: es' ∧ Trace (f r) es' c := by
  rw [trace_bind]
  constructor
  · rintro ⟨es₁, r, es₂, rfl, h₁, h₂⟩
    rw [trace_perform.mp h₁]
    exact ⟨r, es₂, rfl, h₂⟩
  · rintro ⟨r, es', rfl, h⟩
    exact ⟨[⟨o, r⟩], r, es', rfl, trace_perform.mpr rfl, h⟩

/-- **The trace shows only such operations.** -/
theorem Only.trace : ∀ {p : Prog Op Reply α} {es : List ((o : Op) × Reply o)}, Only A p →
    Trace p es a → ∀ e ∈ es, A e.1
  | ret _, [], _, _ => by simp
  | op _ _, _ :: _, hp, ⟨r, he, h⟩ => by
      intro e' he'
      rcases List.mem_cons.mp he' with rfl | he'
      · rw [he]
        exact hp.1
      · exact (hp.2 r).trace h e' he'

/-- **What follows a discipline ends, with its trace, where the trace leads.** -/
theorem Follows.trace {S : Type} {D : Discipline Op Reply S} {Q : S → α → Prop} :
    ∀ {p : Prog Op Reply α} {s : S} {es : List ((o : Op) × Reply o)}, Follows D Q s p →
      Trace p es a → Q (es.foldl (fun s e => D.next s e.1 e.2) s) a
  | ret _, _, [], hp, h => h ▸ hp
  | op _ _, _, _ :: _, hp, ⟨r, he, h⟩ => by
      subst he
      exact (hp.2 r).trace h

/-! ### Programs whose replies are asked something -/

/-- As long as the replies are in `G`, each operation and its reply are in `P`, and the result is
in `Q`. -/
def Meets (G P : (o : Op) → Reply o → Prop) (Q : α → Prop) : Prog Op Reply α → Prop
  | ret a => Q a
  | op o k => ∀ r, G o r → P o r ∧ Meets G P Q (k r)

variable {G P : (o : Op) → Reply o → Prop}

/-- **The rule of sequencing.** -/
theorem meets_bind {f : α → Prog Op Reply β} {Q : β → Prop} : ∀ {p : Prog Op Reply α},
    Meets G P Q (p >>= f) ↔ Meets G P (fun a => Meets G P Q (f a)) p
  | ret _ => Iff.rfl
  | op _ _ => forall_congr' fun _ => imp_congr_right fun _ => and_congr_right fun _ => meets_bind

theorem Meets.mono {Q Q' : α → Prop} (h : ∀ a, Q a → Q' a) : ∀ {p : Prog Op Reply α},
    Meets G P Q p → Meets G P Q' p
  | ret _, hp => h _ hp
  | op _ _, hp => fun r hr => ⟨(hp r hr).1, (hp r hr).2.mono h⟩

/-- **The trace shows what the program meets.** -/
theorem Meets.trace {Q : α → Prop} : ∀ {p : Prog Op Reply α} {es : List ((o : Op) × Reply o)},
    Meets G P Q p → Trace p es a → (∀ e ∈ es, G e.1 e.2) → (∀ e ∈ es, P e.1 e.2) ∧ Q a
  | ret _, [], hp, h, _ => ⟨by simp, h ▸ hp⟩
  | op _ _, _ :: _, hp, ⟨r, he, h⟩, hG => by
      subst he
      obtain ⟨hP, hk⟩ := hp r (hG _ List.mem_cons_self)
      obtain ⟨hes, hQ⟩ := hk.trace h fun e he => hG e (List.mem_cons_of_mem _ he)
      refine ⟨fun e he => ?_, hQ⟩
      rcases List.mem_cons.mp he with rfl | he
      · exact hP
      · exact hes e he

end Prog
