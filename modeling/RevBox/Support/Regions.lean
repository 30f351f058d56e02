import RevBox.Support.Tasks

/-!
# Support — Regions

Tasks that share a state but keep to regions of it.  A `Regions` says when two states are the
same on the region of a request, and which requests have regions apart.  `Alone` is the program
logic that checks one task on its own: before each of its operations the state may have changed in
any way outside its region.

* `alone_bind`, `Alone.mono`: the rules of sequencing and consequence.
* `kept_step`: tasks with regions apart are what each of them is alone.
-/

namespace Tasks

open Prog

variable {Op : Type} {Reply : Op → Type} {ι α β σ χ η : Type}

/-- The region of each request, by when two states are the same on it. -/
structure Regions (ι σ : Type) where
  same : ι → σ → σ → Prop
  apart : ι → ι → Prop
  refl : ∀ q s, same q s s
  trans : ∀ {q s₁ s₂ s₃}, same q s₁ s₂ → same q s₂ s₃ → same q s₁ s₃
  symm : ∀ {q q'}, apart q q' → apart q' q

section Alone

variable (exec : σ → (o : Op) → χ → Option (Reply o × σ)) (R : Regions ι σ) (I : σ → Prop)
  (ok : (o : Op) → χ → Prop)

/-- Whatever happens outside the region of `q`, and whatever answers within `ok`, the program keeps
`I` and the regions apart from it, and ends with `Q`. -/
def Alone (q : ι) (Q : α → σ → Prop) : σ → Prog Op Reply α → Prop
  | s, .ret a => Q a s
  | s, .op o k => ∀ s₁, R.same q s s₁ → I s₁ → ∀ x, ok o x → ∀ r s₂, exec s₁ o x = some (r, s₂) →
      I s₂ ∧ (∀ q', R.apart q q' → R.same q' s₁ s₂) ∧ Alone q Q s₂ (k r)

variable {exec R I ok} {q : ι} {Q : β → σ → Prop} {s s' : σ}

/-- **The rule of sequencing.** -/
theorem alone_bind {f : α → Prog Op Reply β} : ∀ {p : Prog Op Reply α} {s : σ},
    Alone exec R I ok q Q s (p >>= f) ↔
      Alone exec R I ok q (fun a s' => Alone exec R I ok q Q s' (f a)) s p
  | .ret _, _ => Iff.rfl
  | .op _ _, _ => forall_congr' fun _ => imp_congr_right fun _ => imp_congr_right fun _ =>
      forall_congr' fun _ => imp_congr_right fun _ => forall_congr' fun _ => forall_congr' fun _ =>
        imp_congr_right fun _ => and_congr_right fun _ => and_congr_right fun _ => alone_bind

/-- The rule of consequence. -/
theorem Alone.mono {Q Q' : α → σ → Prop} (h : ∀ a s, Q a s → Q' a s) :
    ∀ {p : Prog Op Reply α} {s : σ}, Alone exec R I ok q Q s p → Alone exec R I ok q Q' s p
  | .ret _, _, hp => h _ _ hp
  | .op _ _, _, hp => fun s₁ hs hI x hx r s₂ hr =>
      ⟨(hp s₁ hs hI x hx r s₂ hr).1, (hp s₁ hs hI x hx r s₂ hr).2.1,
        (hp s₁ hs hI x hx r s₂ hr).2.2.mono h⟩

/-- What happens outside its region is nothing to a program. -/
theorem Alone.elsewhere (h : R.same q s s') : ∀ {p : Prog Op Reply β},
    Alone exec R I ok q (fun _ _ => True) s p → Alone exec R I ok q (fun _ _ => True) s' p
  | .ret _, _ => trivial
  | .op _ _, hp => fun s₁ hs => hp s₁ (R.trans h hs)

end Alone

/-! ### The pool -/

variable (Y : System Op Reply ι α σ χ η) (R : Regions ι σ) (I : σ → Prop)
  (ok : (o : Op) → χ → Prop)

/-- A request begins when no task at work has a region that is not apart from its own, answers are
within `ok`, and the surroundings move outside the regions of the tasks at work. -/
def Orderly (p : Pool Op Reply ι α σ) : Label ι χ η → Prop
  | .begin _ q => ∀ j t, p.tasks j = some t → ¬ t.Ended → R.apart q t.request
  | .act i x => ∀ q o k, p.tasks i = some ⟨q, .op o k, true⟩ → ok o x
  | .drop _ => True
  | .env e => ∀ s, Y.env p.shared e = some s →
      I s ∧ ∀ j t, p.tasks j = some t → ¬ t.Ended → R.same t.request p.shared s

/-- What holds of the pool: the invariant, of each task at work what holds of it alone, and that
their regions are apart. -/
structure Kept (p : Pool Op Reply ι α σ) : Prop where
  shared : I p.shared
  alone : ∀ i t, p.tasks i = some t → ¬ t.Ended →
    Alone Y.exec R I ok t.request (fun _ _ => True) p.shared t.prog
  apart : ∀ i j t t', p.tasks i = some t → p.tasks j = some t' → i ≠ j → ¬ t.Ended → ¬ t'.Ended →
    R.apart t.request t'.request

variable {Y R I ok} {p p' : Pool Op Reply ι α σ} {l : Label ι χ η}

/-- The other tasks are where they were, and task `i` is the new one. -/
theorem tasks_set {i j : Nat} {t u : Task Op Reply ι α} (h : (p.set i t).tasks j = some u) :
    (j = i ∧ u = t) ∨ (j ≠ i ∧ p.tasks j = some u) := by
  by_cases hj : j = i
  · subst hj
    rw [Pool.set_tasks_same] at h
    exact .inl ⟨rfl, (Option.some.inj h).symm⟩
  · rw [Pool.set_tasks_ne _ hj] at h
    exact .inr ⟨hj, h⟩

/-- **One step keeps the tasks to themselves.** -/
theorem kept_step (hY : ∀ q s, I s → Alone Y.exec R I ok q (fun _ _ => True) s (Y.handler q))
    (hp : Kept Y R I ok p) (hl : Orderly Y R I ok p l) (h : Y.step p l = some p') :
    Kept Y R I ok p' := by
  obtain ⟨i, q, rfl, hi, rfl⟩ | ⟨i, x, q, o, k, r, sh, rfl, hi, hx, rfl⟩ |
    ⟨i, q, o, k, rfl, hi, rfl⟩ | ⟨e, sh, rfl, he, rfl⟩ := System.step_cases h
  · refine ⟨hp.shared, fun j u hu hend => ?_, fun j m u v hu hv hne hju hmv => ?_⟩
    · rcases tasks_set hu with ⟨-, rfl⟩ | ⟨-, hu'⟩
      · exact hY q _ hp.shared
      · exact hp.alone j u hu' hend
    · rcases tasks_set hu with ⟨hj, hu'⟩ | ⟨-, hu'⟩
      · rcases tasks_set hv with ⟨hm, -⟩ | ⟨-, hv'⟩
        · exact absurd (hj.trans hm.symm) hne
        · rw [hu']
          exact hl m v hv' hmv
      · rcases tasks_set hv with ⟨-, hv'⟩ | ⟨-, hv'⟩
        · rw [hv']
          exact R.symm (hl j u hu' hju)
        · exact hp.apart j m u v hu' hv' hne hju hmv
  · have hlive : ¬ Task.Ended (⟨q, .op o k, true⟩ : Task Op Reply ι α) := by
      rintro (h | ⟨a, h⟩) <;> cases h
    obtain ⟨hI, hsame, hrest⟩ := hp.alone i _ hi hlive p.shared (R.refl _ _) hp.shared x
      (hl q o k hi) r sh hx
    refine ⟨hI, fun j u hu hend => ?_, fun j m u v hu hv hne hju hmv => ?_⟩
    · rcases tasks_set hu with ⟨-, rfl⟩ | ⟨hj, hu'⟩
      · exact hrest
      · have hapart := hp.apart i j _ u hi hu' (Ne.symm hj) hlive hend
        exact (hp.alone j u hu' hend).elsewhere (hsame _ hapart)
    · rcases tasks_set hu with ⟨hj, hu'⟩ | ⟨hj, hu'⟩
      · rcases tasks_set hv with ⟨hm, -⟩ | ⟨hm, hv'⟩
        · exact absurd (hj.trans hm.symm) hne
        · rw [hu']
          exact hp.apart i m ⟨q, .op o k, true⟩ v hi hv' (Ne.symm hm) hlive hmv
      · rcases tasks_set hv with ⟨-, hv'⟩ | ⟨-, hv'⟩
        · rw [hv']
          exact hp.apart j i u ⟨q, .op o k, true⟩ hu' hi hj hju hlive
        · exact hp.apart j m u v hu' hv' hne hju hmv
  · have hdropped : Task.Ended (⟨q, .op o k, false⟩ : Task Op Reply ι α) := .inl rfl
    refine ⟨hp.shared, fun j u hu hend => ?_, fun j m u v hu hv hne hju hmv => ?_⟩
    · rcases tasks_set hu with ⟨-, hu'⟩ | ⟨-, hu'⟩
      · exact absurd (hu' ▸ hdropped) hend
      · exact hp.alone j u hu' hend
    · rcases tasks_set hu with ⟨-, hu'⟩ | ⟨-, hu'⟩
      · exact absurd (hu' ▸ hdropped) hju
      · rcases tasks_set hv with ⟨-, hv'⟩ | ⟨-, hv'⟩
        · exact absurd (hv' ▸ hdropped) hmv
        · exact hp.apart j m u v hu' hv' hne hju hmv
  · obtain ⟨hI, hsame⟩ := hl sh he
    exact ⟨hI, fun j u hu hend => (hp.alone j u hu hend).elsewhere (hsame j u hu hend), hp.apart⟩

/-- **What is kept in every orderly run.** -/
theorem kept_run (hY : ∀ q s, I s → Alone Y.exec R I ok q (fun _ _ => True) s (Y.handler q))
    {init : σ → Prop} (hinit : ∀ s, init s → I s) {ls : List (Label ι χ η)}
    (h₀ : (Y.machine init).init p) (hr : (Y.machine init).Run (Orderly Y R I ok) p ls p') :
    Kept Y R I ok p' := by
  obtain ⟨hs, htasks, -⟩ := h₀
  have hnone : ∀ i t, p.tasks i ≠ some t := fun i t h => by
    rw [htasks] at h
    cases h
  have hstart : Kept Y R I ok p :=
    ⟨hinit _ hs, fun i t h => absurd h (hnone i t), fun i _ t _ h => absurd h (hnone i t)⟩
  exact hr.invariant (fun s l s' hk hl h => kept_step hY hk hl h) hstart

end Tasks
