import Mathlib.Data.List.Basic

/-!
# Support — Pipeline

Stages run one after the other, each on what the one before it produced, up to the first that
stops.  Every stage leaves a record.

* `run_append`: two pipelines, one after the other.
* `run_stopped`: what is known of a run that stopped at a stage.
* `run_shift`: a pipeline run from a later place.
-/

namespace Pipeline

variable {σ α ρ : Type}

/-- What a stage comes to: the state it leaves to the next one, or the end. -/
inductive Outcome (σ ρ : Type) where
  | passed (next : σ) (record : ρ)
  | stopped (record : ρ)

/-- A run: the records, the place of the stage that stopped, and the state reached. -/
structure Run (σ ρ : Type) where
  records : List ρ
  failedAt : Option Nat
  current : σ

/-- The run of stages from a place on. -/
def run (stage : Nat → σ → α → Outcome σ ρ) (index : Nat) (current : σ) : List α → Run σ ρ
  | [] => ⟨[], none, current⟩
  | a :: as =>
      match stage index current a with
      | .stopped record => ⟨[record], some index, current⟩
      | .passed next record =>
          let rest := run stage (index + 1) next as
          ⟨record :: rest.records, rest.failedAt, rest.current⟩

/-- A run followed by another. -/
def Run.andThen (first rest : Run σ ρ) : Run σ ρ :=
  ⟨first.records ++ rest.records, rest.failedAt, rest.current⟩

variable {stage : Nat → σ → α → Outcome σ ρ} {index : Nat} {current : σ}

@[simp] theorem run_nil : run stage index current ([] : List α) = ⟨[], none, current⟩ := rfl

theorem run_cons_passed {a : α} {next : σ} {record : ρ}
    (h : stage index current a = .passed next record) (as : List α) :
    run stage index current (a :: as) =
      (Run.mk [record] none next).andThen (run stage (index + 1) next as) := by
  rw [run, h]
  rfl

theorem run_cons_stopped {a : α} {record : ρ} (h : stage index current a = .stopped record)
    (as : List α) : run stage index current (a :: as) = ⟨[record], some index, current⟩ := by
  rw [run, h]

/-- **Two pipelines, one after the other.** -/
theorem run_append {as : List α} (bs : List α) (h : (run stage index current as).failedAt = none) :
    run stage index current (as ++ bs) = (run stage index current as).andThen
      (run stage (index + as.length) (run stage index current as).current bs) := by
  induction as generalizing index current with
  | nil => rfl
  | cons a as ih =>
      cases hstage : stage index current a with
      | stopped record =>
          rw [run_cons_stopped hstage] at h
          cases h
      | passed next record =>
          rw [run_cons_passed hstage] at h
          have hplace : index + (a :: as).length = index + 1 + as.length := by
            rw [List.length_cons]
            omega
          rw [List.cons_append, run_cons_passed hstage, run_cons_passed hstage, ih h, hplace]
          rfl

/-- What is known of the records of a stage, by how it comes out. -/
def Records (stage : Nat → σ → α → Outcome σ ρ) (passed stopped : ρ → Prop) : Prop :=
  ∀ index current a, (∀ next record, stage index current a = .passed next record → passed record) ∧
    ∀ record, stage index current a = .stopped record → stopped record

/-- A run that stopped at the stage `failed`: the stages before it passed and brought it to the
state it stopped in, and one more record was left. -/
structure Stopped (stage : Nat → σ → α → Outcome σ ρ) (index : Nat) (current : σ) (as : List α)
    (failed : Nat) (passed stopped : ρ → Prop) : Prop where
  place : failed < as.length
  before : (run stage index current (as.take failed)).failedAt = none
  reached : (run stage index current as).current =
    (run stage index current (as.take failed)).current
  records : ∃ records last, (run stage index current as).records = records ++ [last] ∧
    records.length = failed ∧ (∀ record ∈ records, passed record) ∧ stopped last
  alone : ∀ later, run stage index current (as.take (failed + 1) ++ later) =
    run stage index current as

/-- **A run that stopped.** -/
theorem run_stopped {passed stopped : ρ → Prop} (hr : Records stage passed stopped) {as : List α}
    {failed : Nat} (h : (run stage index current as).failedAt = some failed) :
    ∃ k, failed = index + k ∧ Stopped stage index current as k passed stopped := by
  induction as generalizing index current with
  | nil => cases h
  | cons a as ih =>
      cases hstage : stage index current a with
      | stopped record =>
          rw [run_cons_stopped hstage, Option.some.injEq] at h
          refine ⟨0, h.symm, Nat.succ_pos _, rfl, ?_, ⟨[], record, ?_, rfl, ?_, ?_⟩, fun later => ?_⟩
          · rw [run_cons_stopped hstage]
            rfl
          · rw [run_cons_stopped hstage]
            rfl
          · exact fun _ hmem => by cases hmem
          · exact (hr index current a).2 record hstage
          · rw [List.take_succ_cons, List.cons_append, run_cons_stopped hstage,
              run_cons_stopped hstage]
      | passed next record =>
          rw [run_cons_passed hstage] at h
          obtain ⟨k, hk, hplace, hbefore, hcurrent, ⟨records, last, hrun, hlen, hall, hlast⟩,
            halone⟩ := ih h
          refine ⟨k + 1, by omega, Nat.succ_lt_succ hplace, ?_, ?_,
            ⟨record :: records, last, ?_, congrArg Nat.succ hlen, ?_, hlast⟩, fun later => ?_⟩
          · rw [List.take_succ_cons, run_cons_passed hstage]
            exact hbefore
          · rw [List.take_succ_cons, run_cons_passed hstage, run_cons_passed hstage]
            exact hcurrent
          · rw [run_cons_passed hstage]
            exact congrArg (record :: ·) hrun
          · intro r hmem
            rcases List.mem_cons.mp hmem with rfl | hmem
            · exact (hr index current a).1 next r hstage
            · exact hall r hmem
          · rw [List.take_succ_cons, List.cons_append, run_cons_passed hstage,
              run_cons_passed hstage, halone later]

/-- Outcomes that differ in their records only. -/
inductive Similar (R : ρ → ρ → Prop) : Outcome σ ρ → Outcome σ ρ → Prop where
  | passed (next : σ) {r r' : ρ} (h : R r r') : Similar R (.passed next r) (.passed next r')
  | stopped {r r' : ρ} (h : R r r') : Similar R (.stopped r) (.stopped r')

/-- **A pipeline run from a later place** passes and stops alike. -/
theorem run_shift {R : ρ → ρ → Prop} {n : Nat}
    (h : ∀ index current a, Similar R (stage index current a) (stage (n + index) current a))
    (index : Nat) (current : σ) (as : List α) : List.Forall₂ R (run stage index current as).records
        (run stage (n + index) current as).records ∧
      (run stage (n + index) current as).failedAt =
        (run stage index current as).failedAt.map (n + ·) ∧
      (run stage (n + index) current as).current = (run stage index current as).current := by
  induction as generalizing index current with
  | nil => exact ⟨.nil, rfl, rfl⟩
  | cons a as ih =>
      have hsimilar := h index current a
      cases hstage : stage index current a with
      | stopped record =>
          rw [hstage] at hsimilar
          obtain ⟨record', hstage', hr⟩ : ∃ record', stage (n + index) current a = .stopped record' ∧
              R record record' := by
            cases hs : stage (n + index) current a with
            | passed => rw [hs] at hsimilar; cases hsimilar
            | stopped record' =>
                rw [hs] at hsimilar
                cases hsimilar with
                | stopped hr => exact ⟨record', rfl, hr⟩
          rw [run_cons_stopped hstage, run_cons_stopped hstage']
          exact ⟨.cons hr .nil, rfl, rfl⟩
      | passed next record =>
          rw [hstage] at hsimilar
          obtain ⟨record', hstage', hr⟩ : ∃ record',
              stage (n + index) current a = .passed next record' ∧ R record record' := by
            cases hs : stage (n + index) current a with
            | stopped => rw [hs] at hsimilar; cases hsimilar
            | passed next' record' =>
                rw [hs] at hsimilar
                cases hsimilar with
                | passed _ hr => exact ⟨record', rfl, hr⟩
          obtain ⟨hrecords, hfailed, hcurrent⟩ := ih (index + 1) next
          rw [run_cons_passed hstage, run_cons_passed hstage', Nat.add_assoc n index 1]
          exact ⟨.cons hr hrecords, hfailed, hcurrent⟩

end Pipeline
