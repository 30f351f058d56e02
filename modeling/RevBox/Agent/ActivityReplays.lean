import RevBox.Agent.ActivityOnce

/-!
# Agent — Activity, replays

Where replayed answers come from.

* `replay_sound`: in every run, a replayed answer is the result an earlier request with the same
  id recorded; where all requests of an id agree in method and package, that request had the
  same method and package.
* `replays_another_write`: where they do not agree, it can have had others.
-/

namespace RevBox.Activity

open Operations Tasks

variable {p p' : Pool} {i : Nat} {l : Label}

/-- The Agent process from its start, when the ledger is empty. -/
def agent : Machine Pool Label := system.machine fun sh => sh.ledger = .empty

/-- Where replayed results come from. -/
structure Replays (p : Pool) : Prop where
  conforms : Conforms discipline .fresh (fun _ => Final) p
  /-- what is remembered under an id was recorded by a request of that id -/
  own : ∀ j o v u, (j, (⟨.remember o v, u⟩ : (e : Effect) × Reply e)) ∈ p.log →
    Carries o p j ∧ Original v
  ledger : ∀ e ∈ p.shared.ledger.entries, ∃ j u,
    (j, (⟨.remember e.operationId e.value, u⟩ : (e : Effect) × Reply e)) ∈ p.log
  /-- what a lookup found was remembered before it -/
  found : ∀ l₁ i o v l₂,
    p.log = l₁ ++ (i, (⟨.lookup o, some v⟩ : (e : Effect) × Reply e)) :: l₂ →
    ∃ j u, (j, (⟨.remember o v, u⟩ : (e : Effect) × Reply e)) ∈ l₁
  hit : ∀ i v, progress p.log i = .hit v → ∃ t, p.tasks i = some t ∧
    (i, (⟨.lookup t.request.operationId, some v⟩ : (e : Effect) × Reply e)) ∈ p.log
  original : ∀ i b v, progress p.log i = .recorded b v → Original v

/-- What an operation can leave in the ledger. -/
theorem mem_ledger_exec {sh sh' : Shared} {e : Effect} {x : Turn} {r : Reply e}
    (h : exec sh e x = some (r, sh')) {a : Entry} (ha : a ∈ sh'.ledger.entries) :
    a ∈ sh.ledger.entries ∨ e = .remember a.operationId a.value := by
  cases e with
  | lookup o => cases h; exact .inl (mem_of_mem_prune ha).1
  | remember o v =>
      cases h
      rcases List.mem_cons.mp (mem_of_mem_prune ha).1 with rfl | hm
      · exact .inr rfl
      · exact .inl (List.mem_of_mem_filter hm)
  | spawn | output | windowOver | sleep | prepare | body | bodyDone => cases h; exact .inl ha

/-- What a lookup finds is in the ledger. -/
theorem mem_ledger_of_lookup {sh sh' : Shared} {o : String} {x : Turn} {v : Value}
    (h : exec sh (.lookup o) x = some (some v, sh')) :
    ∃ a ∈ sh.ledger.entries, a.operationId = o ∧ a.value = v := by
  obtain ⟨h, -⟩ := Prod.mk.inj (Option.some.inj h)
  obtain ⟨a, ha, ho, -, hv⟩ := lookupAt_eq_some.mp h
  exact ⟨a, ha, ho, hv⟩

/-- A move that performs nothing. -/
theorem Replays.frame (h : Replays p) (hc : Conforms discipline .fresh (fun _ => Final) p')
    (hlog : p'.log = p.log) (hl : p'.shared.ledger = p.shared.ledger)
    (ht : ∀ i t, p.tasks i = some t → ∃ t', p'.tasks i = some t' ∧ t'.request = t.request) :
    Replays p' := by
  have hcarry : ∀ o i, Carries o p i → Carries o p' i := fun o i ⟨t, h, ho⟩ => by
    obtain ⟨t', h', hr⟩ := ht i t h
    exact ⟨t', h', by rw [hr, ho]⟩
  refine ⟨hc, ?_, ?_, ?_, ?_, ?_⟩
  · rw [hlog]
    exact fun j o v u hm => (h.own j o v u hm).imp_left (hcarry o j)
  · rw [hlog, hl]
    exact h.ledger
  · rw [hlog]
    exact h.found
  · rw [hlog]
    intro i v hv
    obtain ⟨t, hi, hm⟩ := h.hit i v hv
    obtain ⟨t', hi', hr⟩ := ht i t hi
    exact ⟨t', hi', hr ▸ hm⟩
  · rw [hlog]
    exact h.original

/-- An operation. -/
theorem Replays.act {q : WriteRequest} {e : Effect} {r : Reply e} {x : Turn} {sh : Shared}
    {k : Reply e → Write (Except AgentError Value)} (h : Replays p)
    (hi : p.tasks i = some ⟨q, .op e k, true⟩) (hx : exec p.shared e x = some (r, sh))
    (hc : Conforms discipline .fresh (fun _ => Final) (after p i q e r k sh)) :
    Replays (after p i q e r k sh) := by
  have hallow := allowed_of_conforms h.conforms hi
  have hlog : (after p i q e r k sh).log = p.log ++ [(i, ⟨e, r⟩)] := rfl
  have htask : ∀ j t, p.tasks j = some t →
      ∃ t', (after p i q e r k sh).tasks j = some t' ∧ t'.request = t.request := by
    intro j t ht
    by_cases hji : j = i
    · subst hji
      rw [hi] at ht
      cases ht
      exact ⟨_, Pool.set_tasks_same .., rfl⟩
    · exact ⟨t, (tasks_after_ne hji).trans ht, rfl⟩
  -- what a write remembers, it is allowed to
  have hown : ∀ o v, e = .remember o v → q.operationId = o ∧ Original v := by
    rintro o v rfl
    cases hs : progress p.log i <;> rw [hs] at hallow
    · exact hallow.elim
    · exact hallow.elim
    · exact ⟨hallow.1.symm, hallow.2⟩
    · exact ⟨hallow.1.1.symm, hallow.1.2⟩
    · exact hallow.elim
  refine ⟨hc, ?_, ?_, ?_, ?_, ?_⟩
  · intro j o v u hm
    rw [hlog] at hm
    rcases List.mem_append.mp hm with hm | hm
    · exact (h.own j o v u hm).imp_left (carries_after hi).mpr
    · obtain ⟨rfl, he⟩ := Prod.mk.inj (List.mem_singleton.mp hm)
      cases he
      obtain ⟨hq, ho⟩ := hown o v rfl
      exact ⟨(carries_after hi).mpr ⟨_, hi, hq⟩, ho⟩
  · intro a ha
    rcases mem_ledger_exec hx ha with ha | he
    · obtain ⟨j, u, hm⟩ := h.ledger a ha
      exact ⟨j, u, by rw [hlog]; exact List.mem_append_left _ hm⟩
    · subst he
      exact ⟨i, r, by rw [hlog]; simp⟩
  · intro l₁ j o v l₂ hsplit
    rw [hlog] at hsplit
    rcases List.eq_nil_or_concat l₂ with rfl | ⟨l₂', b, rfl⟩
    · obtain ⟨rfl, hb⟩ := List.append_inj' hsplit rfl
      cases hb
      obtain ⟨a, ha, rfl, rfl⟩ := mem_ledger_of_lookup hx
      exact h.ledger a ha
    · rw [List.concat_eq_append, ← List.cons_append, ← List.append_assoc] at hsplit
      exact h.found l₁ j o v l₂' (List.append_inj' hsplit rfl).1
  · intro j v hv
    by_cases hji : j = i
    · subst hji
      refine ⟨_, Pool.set_tasks_same .., ?_⟩
      rw [progress_after_same] at hv
      have : (j, (⟨.lookup q.operationId, some v⟩ : (e : Effect) × Reply e)) ∈
          p.log ++ [(j, ⟨e, r⟩)] := by
        cases hs : progress p.log j with
        | fresh =>
            rw [hs] at hallow hv
            cases e with
            | lookup o =>
                obtain rfl : o = q.operationId := hallow
                cases (r : Option Value) with
                | none => cases hv
                | some w => cases hv; simp
            | prepare => cases hv
            | remember | spawn | output | windowOver | sleep | body | bodyDone => exact hallow.elim
        | missed =>
            rw [hs] at hv
            cases e <;> simp only [Stage.next] at hv <;> first | cases hv | (split at hv <;> cases hv)
        | commanded => rw [hs] at hv; cases e <;> cases hv
        | hit w => rw [hs] at hallow; cases e <;> exact hallow.elim
        | recorded b w => rw [hs] at hallow; cases e <;> exact hallow.elim
      exact this
    · rw [progress_after_ne hji] at hv
      obtain ⟨t, ht, hm⟩ := h.hit j v hv
      obtain ⟨t', ht', hr⟩ := htask j t ht
      exact ⟨t', ht', by rw [hlog, hr]; exact List.mem_append_left _ hm⟩
  · intro j b v hv
    by_cases hji : j = i
    · subst hji
      rw [progress_after_same] at hv
      cases hs : progress p.log j with
      | fresh =>
          rw [hs] at hv
          cases e with
          | lookup o => cases (r : Option Value) <;> cases hv
          | remember | spawn | output | windowOver | sleep | prepare | body | bodyDone => cases hv
      | missed =>
          rw [hs] at hv
          cases e with
          | remember o w => cases hv; exact (hown o v rfl).2
          | lookup | spawn | output | windowOver | sleep | prepare | body | bodyDone =>
              simp only [Stage.next] at hv
              split at hv <;> cases hv
      | commanded =>
          rw [hs] at hv
          cases e with
          | remember o w => cases hv; exact (hown o v rfl).2
          | lookup | spawn | output | windowOver | sleep | prepare | body | bodyDone => cases hv
      | hit w => rw [hs] at hallow; cases e <;> exact hallow.elim
      | recorded b' w => rw [hs] at hallow; cases e <;> exact hallow.elim
    · rw [progress_after_ne hji] at hv
      exact h.original j b v hv

/-- **Every move keeps the origin of replayed results.** -/
theorem Replays.step (h : Replays p) (hs : system.step p l = some p') : Replays p' := by
  have hc : Conforms discipline .fresh (fun _ => Final) p' :=
    conforms_step handler_follows h.conforms hs
  obtain ⟨i, q, -, hi, rfl⟩ | ⟨i, x, q, e, k, r, sh, -, hi, hx, rfl⟩ | ⟨i, q, e, k, -, hi, rfl⟩ |
    ⟨d, sh, -, he, rfl⟩ := System.step_cases hs
  · refine h.frame hc rfl rfl fun j t ht => ?_
    have hji : j ≠ i := by rintro rfl; rw [hi] at ht; cases ht
    exact ⟨t, (Pool.set_tasks_ne _ hji _).trans ht, rfl⟩
  · exact h.act hi hx hc
  · refine h.frame hc rfl rfl fun j t ht => ?_
    by_cases hji : j = i
    · subst hji
      rw [hi] at ht
      cases ht
      exact ⟨_, Pool.set_tasks_same .., rfl⟩
    · exact ⟨t, (Pool.set_tasks_ne _ hji _).trans ht, rfl⟩
  · cases he
    exact h.frame hc rfl rfl fun j t ht => ⟨t, ht, rfl⟩

theorem replays_init (h : agent.init p) : Replays p := by
  obtain ⟨hl, htasks, hlog⟩ := h
  have hprog : ∀ i, progress p.log i = .fresh := fun i => by rw [hlog]; rfl
  refine ⟨⟨fun i t ht => ?_, by rw [hlog]; simp⟩, by rw [hlog]; simp, by rw [hl]; simp [Ledger.empty],
    by rw [hlog]; simp, fun i v hv => ?_, fun i b v hv => ?_⟩
  · rw [htasks] at ht; cases ht
  · rw [hprog] at hv; cases hv
  · rw [hprog] at hv; cases hv

/-- `t` and `t'` ask for one method on one package. -/
def SameTarget (q q' : WriteRequest) : Prop := q'.method = q.method ∧ q'.package = q.package

/-- **What a replayed answer replays.**  In every state the process can reach, an answer with the
outcome `replayed` is the result that a request with the same id recorded before the lookup that
found it; where every request of the id asks for one method on one package, that request did. -/
theorem replay_sound {p : Pool} (h : agent.Reach p) {i : Nat} {t : Task Effect Reply WriteRequest _}
    (ht : p.tasks i = some t) {v : Value} (ha : p.answer i = some (.ok v))
    (hv : v.get? "outcome" = some (.string WriteOutcome.replayed.asStr)) :
    ∃ l₁ l₂ w j u t', v = markReplayed w ∧
      p.log = l₁ ++ (i, ⟨.lookup t.request.operationId, some w⟩) :: l₂ ∧
      (j, (⟨.remember t.request.operationId w, u⟩ : (e : Effect) × Reply e)) ∈ l₁ ∧
      p.tasks j = some t' ∧ t'.request.operationId = t.request.operationId ∧ Original w ∧
      ((∀ k tk, p.tasks k = some tk → tk.request.operationId = t.request.operationId →
        SameTarget t.request tk.request) → SameTarget t.request t'.request) := by
  have hp : Replays p := h.invariant (fun _ => replays_init) fun _ _ _ hi hs => hi.step hs
  have hf := final_of_answer hp.conforms ha
  cases hs : progress p.log i with
  | hit w =>
      rw [hs] at hf
      obtain ⟨t₀, ht₀, hm⟩ := hp.hit i w hs
      obtain rfl : t₀ = t := Option.some.inj (ht₀.symm.trans ht)
      obtain ⟨l₁, l₂, hsplit⟩ := List.append_of_mem hm
      obtain ⟨j, u, hj⟩ := hp.found l₁ i _ w l₂ hsplit
      obtain ⟨⟨t', ht', ho⟩, horig⟩ := hp.own j _ w u (by rw [hsplit]; simp [hj])
      exact ⟨l₁, l₂, w, j, u, t', Except.ok.inj hf, hsplit, hj, ht', ho, horig,
        fun hall => hall j t' ht' ho⟩
  | recorded b w =>
      rw [hs] at hf
      obtain rfl : v = w := hf
      exact absurd hv (hp.original i b v hs)
  | fresh | missed | commanded => rw [hs] at hf; exact hf.elim

/-! ### A retry, and another write -/

/-- What a decoded answer says of its outcome. -/
def outcomeOf : Option (Except AgentError Value) → Option String
  | some (.ok v) => (v.get? "outcome").bind Value.asStr
  | _ => none

theorem outcomeOf_eq_some {a : Option (Except AgentError Value)} {s : String}
    (h : outcomeOf a = some s) : ∃ v, a = some (.ok v) ∧ v.get? "outcome" = some (.string s) := by
  match a with
  | some (.ok v) =>
      obtain ⟨x, hx, hs⟩ := Option.bind_eq_some_iff.mp h
      cases x <;> cases hs
      exact ⟨v, rfl, hx⟩
  | some (.error _) | none => cases h

/-- The retry is answered with what the first request recorded. -/
theorem retry_replays : ∃ v w j u, retried.answer 1 = some (.ok v) ∧ v = markReplayed w ∧
    (j, (⟨.remember "op-1" w, u⟩ : (e : Effect) × Reply e)) ∈ retried.log := by
  have htask : ((retried.tasks 1).map Task.request) = some (.launch "com.a" "op-1") := by
    decide +kernel
  obtain ⟨t, ht, hq⟩ := Option.map_eq_some_iff.mp htask
  obtain ⟨v, ha, hv⟩ := outcomeOf_eq_some
    (show outcomeOf (retried.answer 1) = some "replayed" by decide +kernel)
  obtain ⟨l₁, l₂, w, j, u, t', hw, hlog, hm, -⟩ := replay_sound (p := retried)
    ⟨boot, retry, ⟨rfl, rfl, rfl⟩, Machine.run_of_exec Machine.guarded_any
      (Option.some_get retry_runs.1).symm⟩ ht ha hv
  rw [hq] at hm
  exact ⟨v, w, j, u, ha, hw, by rw [hlog]; exact List.mem_append_left _ hm⟩

/-- A launch of one package, and a forced stop of another under the same id. -/
def sharedId : List Label := launches 0 ++ [.begin 1 (.forceStop "com.b" "op-1"), .act 1 {}]

/-- **A replayed answer can be another write's result**: the ledger tells writes apart by their
ids alone. -/
theorem replays_another_write :
    ¬ ∀ (p : Pool), agent.Reach p → ∀ i t v, p.tasks i = some t → p.answer i = some (.ok v) →
      v.get? "outcome" = some (.string WriteOutcome.replayed.asStr) →
      ∃ w j u t', v = markReplayed w ∧
        (j, (⟨.remember t.request.operationId w, u⟩ : (e : Effect) × Reply e)) ∈ p.log ∧
        p.tasks j = some t' ∧ SameTarget t.request t'.request := by
  intro h
  have hrun : ((agent.exec boot sharedId).any fun p =>
      decide ((p.tasks 0).map Task.request = some (.launch "com.a" "op-1") ∧
        (p.tasks 1).map Task.request = some (.forceStop "com.b" "op-1") ∧
        outcomeOf (p.answer 1) = some "replayed" ∧
        ∀ e ∈ p.log, e.2.1.remembers.isSome = true → e.1 = 0)) = true := by decide +kernel
  obtain ⟨p, hp, hbad⟩ := (Option.any_eq_true _ _).mp hrun
  obtain ⟨h₀, h₁, hout, hall⟩ := of_decide_eq_true hbad
  obtain ⟨t, ht, hq⟩ := Option.map_eq_some_iff.mp h₁
  obtain ⟨v, ha, hv⟩ := outcomeOf_eq_some hout
  obtain ⟨w, j, u, t', -, hm, ht', -, hpkg⟩ :=
    h p ⟨boot, sharedId, ⟨rfl, rfl, rfl⟩, Machine.run_of_exec Machine.guarded_any hp⟩ 1 t v ht ha hv
  obtain rfl : j = 0 := hall _ hm rfl
  obtain ⟨t₀, ht₀, hq₀⟩ := Option.map_eq_some_iff.mp h₀
  obtain rfl : t₀ = t' := Option.some.inj (ht₀.symm.trans ht')
  rw [hq, hq₀] at hpkg
  exact absurd hpkg (by decide)

end RevBox.Activity
