import RevBox.Agent.ActivityStages
import RevBox.Agent.LedgerRetention

/-!
# Agent — Activity, at most once

Any number of writes interleaved at their awaits over the one ledger, and what they do under one
id.

* `executed_at_most_once`: while no request of the id looks it up before every other request of
  the id that found nothing has finished what it began, the id's device command runs at most once
  and every other success is the recorded result, replayed.
* `executed_twice`: without that condition it does not.
-/

namespace RevBox.Activity

open Operations Tasks

/-! ### What the log tells of one id -/

/-- Who recorded what under `o`. -/
def records (o : String) (log : List Event) : List (Nat × Value) :=
  log.filterMap fun e => e.2.1.remembers.bind fun (x, v) => if x = o then some (e.1, v) else none

/-- The other ids remembered. -/
def others (o : String) (log : List Event) : Finset String :=
  (log.filterMap fun e => e.2.1.remembers.bind fun (x, _) =>
    if x = o then none else some x).toFinset

/-- The device commands of the requests that carry `o`. -/
def commands (o : String) (p : Pool) : List Event :=
  p.log.filter fun e => moves e.2.1 e.2.2 &&
    (p.tasks e.1).any fun t => decide (t.request.operationId = o)

/-- Request `i` of the id `o` found nothing in the ledger and may still run its device command,
or has run it and recorded no result. -/
def Open (o : String) (p : Pool) (i : Nat) : Prop :=
  ∃ t, p.tasks i = some t ∧ t.request.operationId = o ∧
    (progress p.log i = .missed ∧ ¬ t.Ended ∨ progress p.log i = .commanded)

/-- The move is a lookup of `o`. -/
def LooksUp (o : String) (p : Pool) : Label → Prop
  | .act i _ => ∃ q k, p.tasks i = some ⟨q, .op (.lookup o) k, true⟩
  | _ => False

/-- Lookups of `o` wait until no request of `o` is open. -/
def InTurn (o : String) (p : Pool) (l : Label) : Prop := LooksUp o p l → ∀ i, ¬ Open o p i

instance (o : String) (p : Pool) (i : Nat) : Decidable (Open o p i) :=
  match h : p.tasks i with
  | none => .isFalse (by rintro ⟨t, ht, -⟩; rw [h] at ht; cases ht)
  | some t =>
      have : Decidable (progress p.log i = .missed ∧ ¬ t.Ended ∨ progress p.log i = .commanded) :=
        match hs : progress p.log i with
        | .missed => decidable_of_iff (¬ t.Ended) (by simp)
        | .commanded => .isTrue (.inr rfl)
        | .fresh | .hit _ | .recorded .. => .isFalse (by simp)
      decidable_of_iff (t.request.operationId = o ∧
        (progress p.log i = .missed ∧ ¬ t.Ended ∨ progress p.log i = .commanded)) (by simp [Open, h])

/-- Only writes in the log are open. -/
theorem forall_not_open {o : String} {p : Pool} :
    (∀ e ∈ p.log, ¬ Open o p e.1) ↔ ∀ i, ¬ Open o p i := by
  refine ⟨fun h i hi => ?_, fun h e _ => h e.1⟩
  by_cases hm : ∃ e ∈ p.log, e.1 = i
  · obtain ⟨e, he, rfl⟩ := hm
    exact h e he hi
  · obtain ⟨t, -, -, hs⟩ := hi
    rw [show progress p.log i = .fresh from stage_of_not_mem _ _ _ fun e he hei => hm ⟨e, he, hei⟩]
      at hs
    rcases hs with ⟨hs, -⟩ | hs <;> cases hs

instance (o : String) (p : Pool) (l : Label) : Decidable (LooksUp o p l) :=
  match l with
  | .begin .. | .drop _ | .env _ => .isFalse id
  | .act i x =>
      match h : p.tasks i with
      | some ⟨q, .op (.lookup a) k, true⟩ =>
          decidable_of_iff (a = o) ⟨fun ha => ⟨q, k, by rw [h, ha]⟩, fun ⟨q', k', h'⟩ => by
            rw [h] at h'; cases h'; rfl⟩
      | none => .isFalse (by rintro ⟨q, k, h'⟩; rw [h] at h'; cases h')
      | some ⟨_, .ret _, _⟩ | some ⟨_, .op _ _, false⟩ | some ⟨_, .op (.remember ..) _, true⟩
      | some ⟨_, .op (.spawn ..) _, true⟩ | some ⟨_, .op .output _, true⟩
      | some ⟨_, .op .windowOver _, true⟩
      | some ⟨_, .op .sleep _, true⟩ | some ⟨_, .op .prepare _, true⟩
      | some ⟨_, .op .body _, true⟩ | some ⟨_, .op .bodyDone _, true⟩ =>
          .isFalse (by rintro ⟨q, k, h'⟩; rw [h] at h'; cases h')

instance (o : String) (p : Pool) (l : Label) : Decidable (InTurn o p l) :=
  have : Decidable (∀ i, ¬ Open o p i) := decidable_of_iff _ forall_not_open
  inferInstanceAs (Decidable (_ → _))

/-- Request `i` of the id `o` is open, or has recorded the id's result. -/
def Holds (o : String) (p : Pool) (i : Nat) : Prop :=
  Open o p i ∨ Carries o p i ∧ ∃ b v, progress p.log i = .recorded b v

/-- A write that has run its device command. -/
def Stage.Spent : Stage → Prop
  | commanded => True
  | recorded b _ => b = true
  | _ => False

/-- What holds of one id in every run in which its lookups wait their turn. -/
structure Once (o : String) (start : Nat) (p : Pool) : Prop where
  conforms : Conforms discipline .fresh (fun _ => Final) p
  alone : ∀ i j, Holds o p i → Holds o p j → i = j
  spent : commands o p = [] ∨
    ∃ i, Carries o p i ∧ (progress p.log i).Spent ∧ (commands o p).length = 1
  written : records o p.log = [] ∨ ∃ i b v, Carries o p i ∧ progress p.log i = .recorded b v ∧
    records o p.log = [(i, v)]
  recorded : ∀ i b v, Carries o p i → progress p.log i = .recorded b v →
    records o p.log = [(i, v)]
  hits : ∀ i v, Carries o p i → progress p.log i = .hit v → ∃ j, records o p.log = [(j, v)]
  ledger : Retains o start (others o p.log) ((records o p.log).head?.map Prod.snd) p.shared.now
    p.shared.ledger

/-! ### Moves that perform nothing -/

variable {o : String} {start : Nat} {p p' : Pool} {i j : Nat} {l : Label}

theorem commands_congr (hp : Conforms discipline .fresh (fun _ => Final) p)
    (hlog : p'.log = p.log)
    (ht : ∀ i t, p.tasks i = some t → ∃ t', p'.tasks i = some t' ∧ t'.request = t.request) :
    commands o p' = commands o p := by
  unfold commands
  rw [hlog]
  refine List.filter_congr fun e he => ?_
  obtain ⟨t, h⟩ := Option.ne_none_iff_exists'.mp (hp.2 e he)
  obtain ⟨t', h', hr⟩ := ht _ _ h
  rw [h, h']
  simp [hr]

/-- A move that performs nothing and opens nothing. -/
theorem Once.frame (h : Once o start p)
    (hc : Conforms discipline .fresh (fun _ => Final) p') (hlog : p'.log = p.log)
    (ht : ∀ i t, p.tasks i = some t → ∃ t', p'.tasks i = some t' ∧ t'.request = t.request)
    (hnew : ∀ i, Carries o p' i → Carries o p i ∨ progress p.log i = .fresh)
    (hopen : ∀ i, Open o p' i → Open o p i)
    (hl : Retains o start (others o p.log) ((records o p.log).head?.map Prod.snd) p'.shared.now
      p'.shared.ledger) : Once o start p' := by
  have hcarry : ∀ i, Carries o p i → Carries o p' i := fun i ⟨t, h, ho⟩ => by
    obtain ⟨t', h', hr⟩ := ht i t h
    exact ⟨t', h', by rw [hr, ho]⟩
  have hback : ∀ i, Carries o p' i → progress p.log i ≠ .fresh → Carries o p i := fun i h hf =>
    (hnew i h).resolve_right hf
  have hcmd := commands_congr (o := o) h.conforms hlog ht
  have hholds : ∀ i, Holds o p' i → Holds o p i := by
    rintro i (hi | ⟨hi, b, v, hs⟩)
    · exact .inl (hopen i hi)
    · rw [hlog] at hs
      exact .inr ⟨hback i hi (by rw [hs]; simp), b, v, hs⟩
  refine ⟨hc, fun i j hi hj => h.alone i j (hholds i hi) (hholds j hj), ?_, ?_, ?_, ?_, ?_⟩
  · rw [hcmd, hlog]
    exact h.spent.imp_right fun ⟨i, hi, hs⟩ => ⟨i, hcarry i hi, hs⟩
  · rw [hlog]
    exact h.written.imp_right fun ⟨i, b, v, hi, hs⟩ => ⟨i, b, v, hcarry i hi, hs⟩
  · rw [hlog]
    exact fun i b v hi hs => h.recorded i b v (hback i hi (by rw [hs]; simp)) hs
  · rw [hlog]
    exact fun i v hi hs => h.hits i v (hback i hi (by rw [hs]; simp)) hs
  · rw [hlog]
    exact hl

/-! ### Operations -/

section Act

variable {q : WriteRequest} {e : Effect} {r : Reply e}
  {k : Reply e → Write (Except AgentError Value)} {sh : Shared}

theorem open_after_ne (h : j ≠ i) : Open o (after p i q e r k sh) j ↔ Open o p j := by
  simp only [Open, tasks_after_ne h, progress_after_ne h]

/-- A write about to perform an operation has not ended. -/
theorem open_of_stage (hi : p.tasks i = some ⟨q, .op e k, true⟩) (hq : q.operationId = o)
    (hs : progress p.log i = .missed ∨ progress p.log i = .commanded) : Open o p i :=
  ⟨_, hi, hq, hs.imp_left fun h => ⟨h, by rintro (h | ⟨a, h⟩) <;> cases h⟩⟩

theorem records_snoc (o : String) (log : List Event) (i : Nat) (e : Effect) (r : Reply e) :
    records o (log ++ [(i, ⟨e, r⟩)]) = records o log ++
      ((e.remembers.bind fun (x, v) => if x = o then some (i, v) else none).toList) := by
  rw [records, records, List.filterMap_append, List.filterMap_cons]
  cases e.remembers.bind fun (x, v) => if x = o then some (i, v) else none <;> rfl

theorem records_snoc_of_ne {log : List Event} (h : ∀ v, e ≠ .remember o v) :
    records o (log ++ [(i, ⟨e, r⟩)]) = records o log := by
  rw [records_snoc]
  cases e <;> simp_all [Effect.remembers]

theorem commands_after (hi : p.tasks i = some ⟨q, .op e k, true⟩) :
    commands o (after p i q e r k sh) = commands o p ++
      if moves e r = true ∧ q.operationId = o then [(i, ⟨e, r⟩)] else [] := by
  have hold : (p.log.filter fun e' => moves e'.2.1 e'.2.2 &&
      ((after p i q e r k sh).tasks e'.1).any fun t => decide (t.request.operationId = o)) =
      commands o p := by
    refine List.filter_congr fun e' _ => ?_
    by_cases hj : e'.1 = i
    · rw [hj, hi]
      simp [after]
    · rw [tasks_after_ne hj]
  rw [← hold]
  change List.filter _ (p.log ++ [(i, ⟨e, r⟩)]) = _
  rw [List.filter_append]
  congr 1
  by_cases hd : moves e r <;> by_cases hq : q.operationId = o <;> simp [after, hd, hq]

/-- What a remembered id does to the set of the others. -/
theorem others_snoc (o : String) (log : List Event) (i : Nat) (e : Effect) (r : Reply e) :
    others o (log ++ [(i, ⟨e, r⟩)]) =
      match e.remembers with
      | some (x, _) => if x = o then others o log else insert x (others o log)
      | none => others o log := by
  rw [others, List.filterMap_append, List.toFinset_append]
  cases h : e.remembers with
  | none => simp [others, h]
  | some y =>
      by_cases hx : y.1 = o
      · simp [others, h, hx]
      · ext a
        simp [others, h, hx]

/-- The run has kept within the ledger's bounds. -/
def Within (o : String) (start : Nat) (p : Pool) : Prop :=
  (others o p.log).card < ledgerCap ∧ p.shared.now - start < ledgerTtl

instance (o : String) (start : Nat) (p : Pool) : Decidable (Within o start p) :=
  inferInstanceAs (Decidable (_ ∧ _))

/-- **The ledger keeps up with the log.** -/
theorem retains_after {x : Turn} (h : Retains o start (others o p.log)
      ((records o p.log).head?.map Prod.snd) p.shared.now p.shared.ledger)
    (hx : exec p.shared e x = some (r, sh)) (hw : Within o start (after p i q e r k sh))
    (hfirst : ∀ v, e = .remember o v → records o p.log = []) :
    Retains o start (others o (after p i q e r k sh).log)
      ((records o (after p i q e r k sh).log).head?.map Prod.snd) sh.now sh.ledger := by
  obtain ⟨hcap, hage⟩ := hw
  have hr := records_snoc o p.log i e r
  have ho := others_snoc o p.log i e r
  change Retains o start (others o (p.log ++ [(i, ⟨e, r⟩)]))
    ((records o (p.log ++ [(i, ⟨e, r⟩)])).head?.map Prod.snd) sh.now sh.ledger
  change (others o (p.log ++ [(i, ⟨e, r⟩)])).card < ledgerCap at hcap
  change sh.now - start < ledgerTtl at hage
  rw [hr, ho]
  rw [ho] at hcap
  clear hr ho
  cases e with
  | lookup a =>
      cases hx
      simpa [Effect.remembers] using h.prune x.hash
        (Nat.add_assoc p.shared.now x.elapsed x.pruned ▸ Nat.le_add_right _ _) hcap hage
  | remember a v =>
      cases hx
      by_cases ha : a = o
      · subst ha
        simp only [Effect.remembers, if_true] at hcap
        simpa [Effect.remembers, Operations.remember, hfirst v rfl] using
          (h.insert_self (Nat.le_add_right _ _) v).prune x.hash le_rfl hcap hage
      · simp only [Effect.remembers, if_neg ha] at hcap
        simpa [Effect.remembers, Operations.remember, ha] using
          (h.insert_other (Nat.le_add_right _ _) ha v).prune x.hash le_rfl hcap hage
  | spawn | output | windowOver | prepare | body | bodyDone =>
      cases hx
      simpa [Effect.remembers] using h.later (Nat.le_add_right _ _)
  | sleep =>
      cases hx
      simpa [Effect.remembers] using
        h.later (Nat.add_assoc p.shared.now 100000000 x.elapsed ▸ Nat.le_add_right _ _)

/-- What a lookup of the id answers. -/
theorem lookup_answers {x : Turn} {r : Option Value} (h : Retains o start (others o p.log)
      ((records o p.log).head?.map Prod.snd) p.shared.now p.shared.ledger)
    (hx : exec p.shared (.lookup o) x = some (r, sh)) (hage : sh.now - start < ledgerTtl) :
    r = (records o p.log).head?.map Prod.snd := by
  cases hx
  exact h.lookupAt (Nat.le_add_right _ _) (by simp only [] at hage; omega)

/-- An operation that leaves the id's records, its commands and the stages of its writes as they
were. -/
theorem Once.still (h : Once o start p) (hi : p.tasks i = some ⟨q, .op e k, true⟩)
    (hc : Conforms discipline .fresh (fun _ => Final) (after p i q e r k sh))
    (hstage : q.operationId = o → (progress p.log i).next e r = progress p.log i)
    (hrec : ∀ v, e ≠ .remember o v) (hcmd : moves e r = true → q.operationId ≠ o)
    (hl : Retains o start (others o (after p i q e r k sh).log)
      ((records o (after p i q e r k sh).log).head?.map Prod.snd) sh.now sh.ledger) :
    Once o start (after p i q e r k sh) := by
  have hprog : ∀ j, Carries o p j →
      progress (after p i q e r k sh).log j = progress p.log j := fun j ⟨t, ht, ho⟩ => by
    by_cases hj : j = i
    · subst hj
      rw [hi] at ht
      cases ht
      rw [progress_after_same, hstage ho]
    · rw [progress_after_ne hj]
  have hrecords : records o (after p i q e r k sh).log = records o p.log := records_snoc_of_ne hrec
  have hcommands : commands o (after p i q e r k sh) = commands o p := by
    rw [commands_after hi, if_neg fun h => hcmd h.1 h.2, List.append_nil]
  have hholds : ∀ j, Holds o (after p i q e r k sh) j → Holds o p j := by
    intro j hj
    by_cases hji : j = i
    · subst hji
      have hcar : Carries o p j := by
        rcases hj with ⟨t, ht, ho, -⟩ | ⟨hj, -⟩
        · exact (carries_after hi).mp ⟨t, ht, ho⟩
        · exact (carries_after hi).mp hj
      have hq : q.operationId = o := by
        obtain ⟨t, ht, ho⟩ := hcar
        rw [hi] at ht
        cases ht
        exact ho
      rcases hj with ⟨t, ht, ho, hs⟩ | ⟨-, b, v, hs⟩
      · rw [hprog j hcar] at hs
        exact .inl (open_of_stage hi hq (hs.imp_left And.left))
      · rw [hprog j hcar] at hs
        exact .inr ⟨hcar, b, v, hs⟩
    · rcases hj with hj | ⟨hj, b, v, hs⟩
      · exact .inl ((open_after_ne hji).mp hj)
      · rw [progress_after_ne hji] at hs
        exact .inr ⟨(carries_after hi).mp hj, b, v, hs⟩
  refine ⟨hc, fun j j' hj hj' => h.alone j j' (hholds j hj) (hholds j' hj'), ?_, ?_, ?_, ?_, hl⟩
  · rw [hcommands]
    exact h.spent.imp_right fun ⟨j, hj, hs⟩ => ⟨j, (carries_after hi).mpr hj, hprog j hj ▸ hs⟩
  · rw [hrecords]
    exact h.written.imp_right fun ⟨j, b, v, hj, hs, hr⟩ =>
      ⟨j, b, v, (carries_after hi).mpr hj, (hprog j hj).trans hs, hr⟩
  · intro j b v hj hs
    have hj := (carries_after hi).mp hj
    exact hrecords.trans (h.recorded j b v hj (hprog j hj ▸ hs))
  · intro j v hj hs
    have hj := (carries_after hi).mp hj
    rw [hrecords]
    exact h.hits j v hj (hprog j hj ▸ hs)

theorem holds_after_ne (hi : p.tasks i = some ⟨q, .op e k, true⟩) (h : j ≠ i) :
    Holds o (after p i q e r k sh) j ↔ Holds o p j := by
  simp only [Holds, open_after_ne h, carries_after hi, progress_after_ne h]

theorem holds_of_spent {s : Stage} (hj : Carries o p j) (hs : progress p.log j = s)
    (h : s.Spent) : Holds o p j := by
  obtain ⟨t, ht, ho⟩ := hj
  cases s with
  | commanded => exact .inl ⟨t, ht, ho, .inr hs⟩
  | recorded b v => exact .inr ⟨⟨t, ht, ho⟩, b, v, hs⟩
  | fresh | hit | missed => exact h.elim

/-- The operations of an open write keep it the only one that holds the id. -/
theorem Once.alone_after (h : Once o start p) (hi : p.tasks i = some ⟨q, .op e k, true⟩)
    (ho : Open o p i) {j j' : Nat} (hj : Holds o (after p i q e r k sh) j)
    (hj' : Holds o (after p i q e r k sh) j') : j = j' := by
  have hback : ∀ j, Holds o (after p i q e r k sh) j → Holds o p j := fun j hj => by
    by_cases hji : j = i
    · exact hji ▸ .inl ho
    · exact (holds_after_ne hi hji).mp hj
  exact h.alone j j' (hback j hj) (hback j' hj')

/-- A device command. -/
theorem Once.device (h : Once o start p) (hi : p.tasks i = some ⟨q, .op e k, true⟩)
    (hc : Conforms discipline .fresh (fun _ => Final) (after p i q e r k sh))
    (hq : q.operationId = o) (hs : progress p.log i = .missed) (hd : moves e r = true)
    (hl : Retains o start (others o (after p i q e r k sh).log)
      ((records o (after p i q e r k sh).log).head?.map Prod.snd) sh.now sh.ledger) :
    Once o start (after p i q e r k sh) := by
  have hopen := open_of_stage hi hq (.inl hs)
  have hnext : progress (after p i q e r k sh).log i = .commanded := by
    rw [progress_after_same, hs]
    cases e <;> simp_all [Stage.next, moves, isDeviceCommand]
  have hrecords : records o (after p i q e r k sh).log = records o p.log :=
    records_snoc_of_ne fun v he => by subst he; cases hd
  have hnone : commands o p = [] := by
    refine h.spent.resolve_right fun hspent => ?_
    obtain ⟨j, hj, hsp, -⟩ := hspent
    rw [h.alone j i (holds_of_spent hj rfl hsp) (.inl hopen), hs] at hsp
    exact hsp
  refine ⟨hc, fun j j' hj hj' => h.alone_after hi hopen hj hj', .inr ⟨i, ?_, ?_, ?_⟩, ?_, ?_, ?_, hl⟩
  · exact (carries_after hi).mpr ⟨_, hi, hq⟩
  · rw [hnext]; trivial
  · rw [commands_after hi, hnone, if_pos ⟨hd, hq⟩]; rfl
  · rw [hrecords]
    refine h.written.imp_right fun hwritten => ?_
    obtain ⟨j, b, v, hj, hjs, hr⟩ := hwritten
    have hji : j ≠ i := by rintro rfl; rw [hs] at hjs; cases hjs
    exact ⟨j, b, v, (carries_after hi).mpr hj, (progress_after_ne hji).trans hjs, hr⟩
  · intro j b v hj hjs
    have hji : j ≠ i := by rintro rfl; rw [hnext] at hjs; cases hjs
    rw [progress_after_ne hji] at hjs
    exact hrecords.trans (h.recorded j b v ((carries_after hi).mp hj) hjs)
  · intro j v hj hjs
    have hji : j ≠ i := by rintro rfl; rw [hnext] at hjs; cases hjs
    rw [progress_after_ne hji] at hjs
    exact hrecords ▸ h.hits j v ((carries_after hi).mp hj) hjs

/-- Nothing is recorded while a write is open. -/
theorem Once.records_of_open (h : Once o start p) (ho : Open o p i) : records o p.log = [] :=
  h.written.resolve_right fun ⟨j, b, v, hj, hjs, _⟩ => by
    rw [h.alone j i (.inr ⟨hj, b, v, hjs⟩) (.inl ho)] at hjs
    obtain ⟨t, -, -, hs⟩ := ho
    rcases hs with ⟨hs, -⟩ | hs <;> · rw [hs] at hjs; cases hjs

/-- A result recorded. -/
theorem Once.remember {v : Value} {r : Reply (.remember o v)}
    {k : Reply (.remember o v) → Write (Except AgentError Value)} (h : Once o start p)
    (hi : p.tasks i = some ⟨q, .op (.remember o v) k, true⟩)
    (hc : Conforms discipline .fresh (fun _ => Final) (after p i q (.remember o v) r k sh))
    (hq : q.operationId = o) (hs : progress p.log i = .missed ∨ progress p.log i = .commanded)
    (hl : Retains o start (others o (after p i q (.remember o v) r k sh).log)
      ((records o (after p i q (.remember o v) r k sh).log).head?.map Prod.snd) sh.now sh.ledger) :
    Once o start (after p i q (.remember o v) r k sh) := by
  have hopen := open_of_stage hi hq hs
  have hnone := h.records_of_open hopen
  have hnext : ∃ b, progress (after p i q (.remember o v) r k sh).log i = .recorded b v ∧
      (progress p.log i = .commanded → b = true) := by
    rw [progress_after_same]
    rcases hs with hs | hs
    · refine ⟨false, by rw [hs]; rfl, fun hcommanded => ?_⟩
      cases hs.symm.trans hcommanded
    · exact ⟨true, by rw [hs]; rfl, fun _ => rfl⟩
  obtain ⟨b, hnext, hb⟩ := hnext
  have hrecords : records o (after p i q (.remember o v) r k sh).log = [(i, v)] := by
    change records o (p.log ++ _) = _
    rw [records_snoc, hnone]
    simp [Effect.remembers]
  have hcommands : commands o (after p i q (.remember o v) r k sh) = commands o p := by
    rw [commands_after hi, if_neg (by simp [moves, isDeviceCommand]), List.append_nil]
  have hcar : Carries o (after p i q (.remember o v) r k sh) i := (carries_after hi).mpr ⟨_, hi, hq⟩
  refine ⟨hc, fun j j' hj hj' => h.alone_after hi hopen hj hj', ?_, .inr ⟨i, b, v, hcar, hnext,
    hrecords⟩, ?_, ?_, hl⟩
  · rw [hcommands]
    refine h.spent.imp_right fun hspent => ?_
    obtain ⟨j, hj, hsp, hlen⟩ := hspent
    refine ⟨i, hcar, ?_, hlen⟩
    rw [h.alone j i (holds_of_spent hj rfl hsp) (.inl hopen)] at hsp
    rw [hnext]
    refine hb (hs.resolve_left fun hm => ?_)
    rw [hm] at hsp
    exact hsp
  · intro j b' v' hj hjs
    by_cases hji : j = i
    · subst hji
      rw [hnext] at hjs
      cases hjs
      exact hrecords
    · rw [progress_after_ne hji] at hjs
      rw [h.recorded j b' v' ((carries_after hi).mp hj) hjs] at hnone
      cases hnone
  · intro j v' hj hjs
    by_cases hji : j = i
    · subst hji
      rw [hnext] at hjs
      cases hjs
    · rw [progress_after_ne hji] at hjs
      obtain ⟨j', hr⟩ := h.hits j v' ((carries_after hi).mp hj) hjs
      rw [hr] at hnone
      cases hnone

/-- A lookup, in its turn. -/
theorem Once.lookup {r : Option Value}
    {k : Reply (.lookup o) → Write (Except AgentError Value)} (h : Once o start p)
    (hi : p.tasks i = some ⟨q, .op (.lookup o) k, true⟩)
    (hc : Conforms discipline .fresh (fun _ => Final) (after p i q (.lookup o) r k sh))
    (hs : progress p.log i = .fresh) (hturn : ∀ i, ¬ Open o p i)
    (hr : r = (records o p.log).head?.map Prod.snd)
    (hl : Retains o start (others o (after p i q (.lookup o) r k sh).log)
      ((records o (after p i q (.lookup o) r k sh).log).head?.map Prod.snd) sh.now sh.ledger) :
    Once o start (after p i q (.lookup o) r k sh) := by
  have hnext : progress (after p i q (.lookup o) r k sh).log i =
      Stage.next .fresh (.lookup o) r := by rw [progress_after_same, hs]
  have hrecords : records o (after p i q (.lookup o) r k sh).log = records o p.log :=
    records_snoc_of_ne (by simp)
  have hcommands : commands o (after p i q (.lookup o) r k sh) = commands o p := by
    rw [commands_after hi, if_neg (by simp [moves, isDeviceCommand]), List.append_nil]
  -- another holder has recorded, so the lookup has found its result
  have hholds : ∀ j, Holds o (after p i q (.lookup o) r k sh) j →
      (j = i ∧ r = none) ∨ (Holds o p j ∧ ∃ v, records o p.log = [(j, v)]) := by
    intro j hj
    by_cases hji : j = i
    · refine .inl ⟨hji, ?_⟩
      subst hji
      cases hr' : r with
      | none => rfl
      | some v =>
          rw [hr'] at hnext
          rcases hj with ⟨-, -, -, ⟨hj, -⟩ | hj⟩ | ⟨-, b, w, hj⟩ <;>
            · rw [hr', hnext] at hj; cases hj
    · have hj := (holds_after_ne hi hji).mp hj
      rcases hj with hj | ⟨hj, b, v, hjs⟩
      · exact absurd hj (hturn j)
      · exact .inr ⟨.inr ⟨hj, b, v, hjs⟩, v, h.recorded j b v hj hjs⟩
  have hclash : ∀ j v, records o p.log = [(j, v)] → r ≠ none := by
    rintro j v hv rfl
    rw [hv] at hr
    cases hr
  refine ⟨hc, fun j j' hj hj' => ?_, ?_, ?_, ?_, ?_, hl⟩
  · rcases hholds j hj with ⟨rfl, hn⟩ | ⟨hj, v, hv⟩ <;>
      rcases hholds j' hj' with ⟨rfl, hn'⟩ | ⟨hj', v', hv'⟩
    · rfl
    · exact absurd hn (hclash _ _ hv')
    · exact absurd hn' (hclash _ _ hv)
    · exact h.alone j j' hj hj'
  · rw [hcommands]
    refine h.spent.imp_right fun hspent => ?_
    obtain ⟨j, hj, hsp, hlen⟩ := hspent
    refine ⟨j, (carries_after hi).mpr hj, ?_, hlen⟩
    have hji : j ≠ i := by rintro rfl; rw [hs] at hsp; exact hsp
    rwa [progress_after_ne hji]
  · rw [hrecords]
    refine h.written.imp_right fun hwritten => ?_
    obtain ⟨j, b, v, hj, hjs, hv⟩ := hwritten
    have hji : j ≠ i := by rintro rfl; rw [hs] at hjs; cases hjs
    exact ⟨j, b, v, (carries_after hi).mpr hj, (progress_after_ne hji).trans hjs, hv⟩
  · intro j b v hj hjs
    by_cases hji : j = i
    · subst hji
      rw [hnext] at hjs
      cases r <;> cases hjs
    · rw [progress_after_ne hji] at hjs
      exact hrecords.trans (h.recorded j b v ((carries_after hi).mp hj) hjs)
  · intro j v hj hjs
    rw [hrecords]
    by_cases hji : j = i
    · subst hji
      rw [hnext] at hjs
      rcases h.written with hn | ⟨j', -, v', -, -, hv⟩
      · rw [hn] at hr
        rw [hr] at hjs
        cases hjs
      · rw [hv] at hr
        rw [hr] at hjs
        cases hjs
        exact ⟨j', hv⟩
    · rw [progress_after_ne hji] at hjs
      exact h.hits j v ((carries_after hi).mp hj) hjs

end Act

/-! ### Runs -/

/-- **One move keeps what is known of the id**, if lookups wait their turn and the ledger's bounds
are kept. -/
theorem Once.step (h : Once o start p) (hw : Within o start p') (hturn : InTurn o p l)
    (hs : system.step p l = some p') : Once o start p' := by
  have hc : Conforms discipline .fresh (fun _ => Final) p' :=
    conforms_step handler_follows h.conforms hs
  obtain ⟨i, q, -, hi, rfl⟩ | ⟨i, x, q, e, k, r, sh, rfl, hi, hx, rfl⟩ |
    ⟨i, q, e, k, -, hi, rfl⟩ | ⟨d, sh, -, he, rfl⟩ := System.step_cases hs
  · -- a request begins
    have hfresh : progress p.log i = .fresh := h.conforms.stage_of_none hi q
    refine h.frame hc rfl (fun j t ht => ?_) (fun j hj => ?_) (fun j hj => ?_) h.ledger
    · have hji : j ≠ i := by rintro rfl; rw [hi] at ht; cases ht
      exact ⟨t, (Pool.set_tasks_ne _ hji _).trans ht, rfl⟩
    · by_cases hji : j = i
      · exact .inr (hji ▸ hfresh)
      · obtain ⟨t, ht, ho⟩ := hj
        exact .inl ⟨t, (Pool.set_tasks_ne _ hji _).symm.trans ht, ho⟩
    · obtain ⟨t, ht, ho, hstage⟩ := hj
      by_cases hji : j = i
      · subst hji
        rw [Pool.set_log, hfresh] at hstage
        rcases hstage with ⟨hstage, -⟩ | hstage <;> cases hstage
      · exact ⟨t, (Pool.set_tasks_ne _ hji _).symm.trans ht, ho, hstage⟩
  · -- an operation is performed
    have hallow := allowed_of_conforms h.conforms hi
    change Once o start (after p i q e r k sh)
    change Within o start (after p i q e r k sh) at hw
    have hretains := fun hf => retains_after h.ledger hx hw hf
    by_cases hq : q.operationId = o
    · cases hstage : progress p.log i with
      | fresh =>
          rw [hstage] at hallow
          cases e with
          | lookup a =>
              obtain rfl : a = o := hallow.trans hq
              refine h.lookup hi hc hstage (hturn ⟨q, k, hi⟩) ?_ (hretains (by simp))
              exact lookup_answers h.ledger hx hw.2
          | prepare =>
              exact h.still hi hc (fun _ => by rw [hstage]; rfl) (by simp) (by simp [moves, isDeviceCommand])
                (hretains (by simp))
          | remember | spawn | output | windowOver | sleep | body | bodyDone => exact hallow.elim
      | hit v => rw [hstage] at hallow; cases e <;> exact hallow.elim
      | recorded b v => rw [hstage] at hallow; cases e <;> exact hallow.elim
      | missed =>
          rw [hstage] at hallow
          by_cases hd : moves e r = true
          · exact h.device hi hc hq hstage hd (hretains fun v he => by subst he; cases hd)
          · cases e with
            | lookup => exact hallow.elim
            | remember a v =>
                obtain rfl : a = o := hallow.1.trans hq
                exact h.remember hi hc hq (.inl hstage)
                  (hretains fun _ _ => h.records_of_open (open_of_stage hi hq (.inl hstage)))
            | body => exact absurd rfl hd
            | spawn | output | windowOver | sleep | prepare | bodyDone =>
                refine h.still hi hc (fun _ => ?_) (by simp) (fun hd' => absurd hd' hd)
                  (hretains (by simp))
                rw [hstage]
                simp [Stage.next, hd]
      | commanded =>
          rw [hstage] at hallow
          obtain ⟨hallow, hd⟩ := hallow
          cases e with
          | lookup => exact hallow.elim
          | remember a v =>
              obtain rfl : a = o := hallow.1.trans hq
              exact h.remember hi hc hq (.inr hstage)
                (hretains fun _ _ => h.records_of_open (open_of_stage hi hq (.inr hstage)))
          | spawn | output | windowOver | sleep | prepare | body | bodyDone =>
              exact h.still hi hc (fun _ => by rw [hstage]; rfl) (by simp)
                (fun hd' => absurd hd' (by simp [moves_of_not_deviceCommand hd])) (hretains (by simp))
    · have hne : ∀ v, e ≠ .remember o v := by
        rintro v rfl
        cases hstage : progress p.log i <;> rw [hstage] at hallow
        · exact hallow
        · exact hallow
        · exact hq hallow.1.symm
        · exact hq hallow.1.1.symm
        · exact hallow
      exact h.still hi hc (fun h => absurd h hq) hne (fun _ => hq)
        (hretains fun v he => absurd he (hne v))
  · -- a request is dropped
    have hsame : ∀ j t, (p.set i ⟨q, .op e k, false⟩).tasks j = some t →
        ∃ t', p.tasks j = some t' ∧ t'.request = t.request ∧ (¬ t.Ended → t' = t) := by
      intro j t ht
      by_cases hji : j = i
      · subst hji
        rw [Pool.set_tasks_same] at ht
        cases ht
        exact ⟨_, hi, rfl, fun hl => absurd (.inl rfl) hl⟩
      · exact ⟨t, (Pool.set_tasks_ne _ hji _).symm.trans ht, rfl, fun _ => rfl⟩
    refine h.frame hc rfl (fun j t ht => ?_) (fun j hj => ?_) (fun j hj => ?_) h.ledger
    · by_cases hji : j = i
      · subst hji
        rw [hi] at ht
        cases ht
        exact ⟨_, Pool.set_tasks_same .., rfl⟩
      · exact ⟨t, (Pool.set_tasks_ne _ hji _).trans ht, rfl⟩
    · obtain ⟨t, ht, ho⟩ := hj
      obtain ⟨t', ht', hr, -⟩ := hsame j t ht
      exact .inl ⟨t', ht', hr ▸ ho⟩
    · obtain ⟨t, ht, ho, hstage⟩ := hj
      obtain ⟨t', ht', hr, hl⟩ := hsame j t ht
      exact ⟨t', ht', hr ▸ ho, hstage.imp_left (And.imp_right fun hend => hl hend ▸ hend)⟩
  · -- time passes
    cases he
    exact h.frame hc rfl (fun j t ht => ⟨t, ht, rfl⟩) (fun j hj => .inl hj) (fun j hj => hj)
      (h.ledger.later (Nat.le_add_right _ _))

theorem exec_now_le {sh sh' : Shared} {e : Effect} {x : Turn} {r : Reply e}
    (h : exec sh e x = some (r, sh')) : sh.now ≤ sh'.now := by
  cases e <;> cases h <;> simp only [] <;> omega

/-- The bounds can only be lost along a run. -/
theorem within_of_step (hs : system.step p l = some p') (hw : Within o start p') :
    Within o start p := by
  obtain ⟨i, q, -, -, rfl⟩ | ⟨i, x, q, e, k, r, sh, -, -, hx, rfl⟩ | ⟨i, q, e, k, -, -, rfl⟩ |
    ⟨d, sh, -, he, rfl⟩ := System.step_cases hs
  · exact hw
  · obtain ⟨hcap, hage⟩ := hw
    have hnow := exec_now_le hx
    refine ⟨?_, by simp only [] at hage; omega⟩
    simp only [others_snoc] at hcap
    refine lt_of_le_of_lt (Finset.card_le_card ?_) hcap
    split
    · split
      · exact Finset.Subset.refl _
      · exact Finset.subset_insert _ _
    · exact Finset.Subset.refl _
  · exact hw
  · cases he
    exact ⟨hw.1, by have := hw.2; simp only [] at this; omega⟩

/-- Where a run may begin: the ledger's entries are past, and a lookup of `o` finds nothing. -/
def Ready (o : String) (sh : Shared) : Prop :=
  (∀ e ∈ sh.ledger.entries, e.stamp < sh.now) ∧ lookupAt sh.ledger sh.now o = none

theorem once_init (h : (system.machine (Ready o)).init p) : Once o p.shared.now p := by
  obtain ⟨⟨hpast, hnone⟩, htasks, hlog⟩ := h
  have hno : ∀ i t, p.tasks i ≠ some t := fun i t ht => by rw [htasks] at ht; cases ht
  have hrec : records o p.log = [] := by rw [hlog]; rfl
  refine ⟨⟨fun i t ht => absurd ht (hno i t), by rw [hlog]; simp⟩, fun i j hi => ?_,
    .inl (by rw [commands, hlog]; rfl), .inl hrec, fun i b v ⟨t, ht, _⟩ => absurd ht (hno i t),
    fun i v ⟨t, ht, _⟩ => absurd ht (hno i t), ?_⟩
  · rcases hi with ⟨t, ht, -⟩ | ⟨⟨t, ht, -⟩, -⟩ <;> exact absurd ht (hno i t)
  · rw [hrec]
    refine ⟨nofun, fun e he ho => .inr ?_, fun e he => .inl (hpast e he),
      le_rfl, fun e he => (hpast e he).le⟩
    by_contra hyoung
    rw [lookupAt_eq_some.mpr ⟨e, he, ho, by omega, rfl⟩] at hnone
    cases hnone

/-- The device command of the id has run at most once, at most one result has been recorded
under it, and every success is that result, as recorded for the request that recorded it and
replayed for the others. -/
def ExecutedOnce (o : String) (p : Pool) : Prop :=
  (commands o p).length ≤ 1 ∧ (records o p.log).length ≤ 1 ∧
    ∀ i v, Carries o p i → p.answer i = some (.ok v) →
      (i, v) ∈ records o p.log ∨ ∃ j w, (j, w) ∈ records o p.log ∧ v = markReplayed w

/-- **A write is executed at most once**, in every run in which the id's lookups wait until no
request of the id is open, fewer than `LEDGER_CAP` other ids are remembered and less than
`LEDGER_TTL` passes. -/
theorem executed_at_most_once {o : String} {p₀ p : Pool} {ls : List Label}
    (h₀ : (system.machine (Ready o)).init p₀)
    (hr : (system.machine (Ready o)).Run (InTurn o) p₀ ls p) (hw : Within o p₀.shared.now p) :
    ExecutedOnce o p := by
  have h : Once o p₀.shared.now p :=
    hr.invariant_within (fun s l s' hs => within_of_step hs)
      (fun s l s' hi hb hc hs => hi.step hb hc hs) (once_init h₀) hw
  refine ⟨?_, ?_, fun i v hi ha => ?_⟩
  · rcases h.spent with hn | ⟨i, -, -, hlen⟩
    · simp [hn]
    · exact hlen.le
  · rcases h.written with hn | ⟨i, b, v, -, -, hv⟩
    · simp [hn]
    · simp [hv]
  · have hf := final_of_answer h.conforms ha
    cases hstage : progress p.log i with
    | hit w =>
        rw [hstage] at hf
        obtain ⟨j, hj⟩ := h.hits i w hi hstage
        exact .inr ⟨j, w, by simp [hj], Except.ok.inj hf⟩
    | recorded b w =>
        rw [hstage] at hf
        obtain rfl : v = w := hf
        exact .inl (by simp [h.recorded i b v hi hstage])
    | fresh | missed | commanded => rw [hstage] at hf; exact hf.elim

/-! ### A retry, and two clicks -/

/-- A pool of a process just started. -/
def boot : Pool := ⟨⟨0, .empty⟩, fun _ => none, []⟩

theorem boot_ready (o : String) : (system.machine (Ready o)).init boot :=
  ⟨⟨by simp [boot, Ledger.empty], rfl⟩, rfl, rfl⟩

/-- A command that succeeds with this output. -/
def prints (stdout : String) : Turn := { outcome := .exited (some 0) stdout "" }

/-- The moves by which a write spawns a command and reads what it prints. -/
def runs (i : Nat) (stdout : String) : List Label := [.act i {}, .act i (prints stdout)]

/-- A request to launch a package, from its beginning to its answer. -/
def launches (i : Nat) : List Label :=
  [.begin i (.launch "com.a" "op-1"), .act i {}] ++ runs i "package:/data/app/base.apk\n" ++
    runs i "package:com.a\n" ++ runs i "" ++ runs i "42\n" ++ [.act i {}]

/-- A launch, and a retry after it has answered. -/
def retry : List Label := launches 0 ++ [.begin 1 (.launch "com.a" "op-1"), .act 1 {}]

theorem retry_runs : ((system.machine (Ready "op-1")).exec boot retry).isSome = true ∧
    (system.machine (Ready "op-1")).Guarded (InTurn "op-1") boot retry := by decide

/-- The pool a retry leaves. -/
def retried : Pool := ((system.machine (Ready "op-1")).exec boot retry).get retry_runs.1

/-- The retry of a launch runs no second command. -/
theorem retry_executed_once : ExecutedOnce "op-1" retried :=
  executed_at_most_once (boot_ready "op-1")
    (Machine.run_of_exec retry_runs.2 (Option.some_get retry_runs.1).symm) (by decide)

/-- Two requests to launch one package under one id: both look the ledger up before either has
run its command. -/
def twoClicks : List Label :=
  [.begin 0 (.launch "com.a" "op-1"), .begin 1 (.launch "com.a" "op-1"), .act 0 {}, .act 1 {}] ++
    runs 0 "package:/data/app/base.apk\n" ++ runs 1 "package:/data/app/base.apk\n" ++
    runs 0 "package:com.a\n" ++ runs 1 "package:com.a\n" ++ [.act 0 {}, .act 1 {}]

/-- **A write can be executed twice**: the run of `twoClicks`, whose requests all carry one valid
id, one method and one package. -/
theorem executed_twice :
    ¬ ∀ (q : WriteRequest) (p₀ p : Pool) (ls : List Label),
      (∃ package o, q = .launch package o ∨ q = .forceStop package o) →
      isValidOperationId q.operationId = true →
      (system.machine (Ready q.operationId)).init p₀ →
      (system.machine (Ready q.operationId)).Run Machine.Any p₀ ls p →
      (∀ i q', .begin i q' ∈ ls → q'.operationId = q.operationId → q' = q) →
      Within q.operationId p₀.shared.now p → ExecutedOnce q.operationId p := by
  intro h
  have hrun : (((system.machine (Ready "op-1")).exec boot twoClicks).any fun p =>
      decide ((commands "op-1" p).length = 2 ∧ Within "op-1" 0 p)) = true := rfl
  obtain ⟨p, hp, hbad⟩ := (Option.any_eq_true _ _).mp hrun
  obtain ⟨htwo, hw⟩ := of_decide_eq_true hbad
  have honce := (h (.launch "com.a" "op-1") boot p twoClicks ⟨_, _, .inl rfl⟩ (by decide)
    (boot_ready _) (Machine.run_of_exec Machine.guarded_any hp)
    (fun i q' hm => by simp [twoClicks, runs] at hm; rcases hm with ⟨-, rfl⟩ | ⟨-, rfl⟩ <;> exact fun _ => rfl)
    hw).1
  change (commands "op-1" p).length ≤ 1 at honce
  omega

end RevBox.Activity
