import RevBox.Agent.Operations
import Mathlib.Data.Finset.Card
import Mathlib.Data.Finset.Dedup

/-!
# Agent — Ledger retention

One id's entry over a stretch of ledger calls, from the moment a lookup of the id finds nothing:
while fewer than `LEDGER_CAP` other ids are remembered and less than `LEDGER_TTL` passes, pruning
loses nothing, and a lookup of the id finds what was remembered under it since.
-/

namespace RevBox.Operations

/-- What is known of a ledger that began to be watched at `start`, when it had no young entry of
`o`: `recorded` is what was remembered under `o` since, `others` are the other ids remembered
since. -/
structure Retains (o : String) (start : Nat) (others : Finset String) (recorded : Option Value)
    (now : Nat) (ledger : Ledger) : Prop where
  kept : ∀ v, recorded = some v → ∃ e ∈ ledger.entries, e.operationId = o ∧ e.value = v ∧
    start ≤ e.stamp
  source : ∀ e ∈ ledger.entries, e.operationId = o →
    recorded = some e.value ∨ ledgerTtl < now - e.stamp
  aged : ∀ e ∈ ledger.entries, e.stamp < start ∨ e.operationId = o ∨ e.operationId ∈ others
  started : start ≤ now
  past : ∀ e ∈ ledger.entries, e.stamp ≤ now

namespace Retains

variable {o : String} {start now now' : Nat} {others : Finset String} {recorded : Option Value}
  {ledger : Ledger}

/-- Time passes. -/
theorem later (h : Retains o start others recorded now ledger) (ht : now ≤ now') :
    Retains o start others recorded now' ledger :=
  { h with
    source := fun e he ho => (h.source e he ho).imp_right fun hold => by omega
    started := h.started.trans ht
    past := fun e he => (h.past e he).trans ht }

/-- An entry written since `start` has fewer than `LEDGER_CAP` rivals. -/
theorem rivals (h : Retains o start others recorded now ledger) (hc : others.card < ledgerCap)
    {e : Entry} (he : start ≤ e.stamp) :
    (ledger.entries.filter fun a => decide (e.stamp ≤ a.stamp)).length ≤ ledgerCap := by
  have hn : ((ledger.entries.filter fun a => decide (e.stamp ≤ a.stamp)).map
      Entry.operationId).Nodup := ledger.nodup.sublist (List.filter_sublist.map _)
  have hsub : ((ledger.entries.filter fun a => decide (e.stamp ≤ a.stamp)).map
      Entry.operationId).toFinset ⊆ insert o others := fun x hx => by
    obtain ⟨a, ha, rfl⟩ := List.mem_map.mp (List.mem_toFinset.mp hx)
    obtain ⟨ha, hle⟩ := List.mem_filter.mp ha
    have hle : e.stamp ≤ a.stamp := by simpa using hle
    rcases h.aged a ha with hlt | rfl | hm
    · omega
    · exact Finset.mem_insert_self _ _
    · exact Finset.mem_insert_of_mem hm
  have hcard := (Finset.card_le_card hsub).trans (Finset.card_insert_le _ _)
  rw [List.toFinset_card_of_nodup hn, List.length_map] at hcard
  omega

/-- **Pruning loses nothing that is known.** -/
theorem prune (h : Retains o start others recorded now ledger) (hash : String → Nat)
    (ht : now ≤ now') (hc : others.card < ledgerCap) (hage : now' - start < ledgerTtl) :
    Retains o start others recorded now' (Operations.prune hash ledger now') where
  kept v hv := by
    obtain ⟨e, he, ho, hval, hs⟩ := h.kept v hv
    exact ⟨e, mem_prune he (by omega) (h.rivals hc hs), ho, hval, hs⟩
  source e he := (h.later ht).source e (mem_of_mem_prune he).1
  aged e he := h.aged e (mem_of_mem_prune he).1
  started := h.started.trans ht
  past e he := (h.past e (mem_of_mem_prune he).1).trans ht

/-- The first result remembered under the id. -/
theorem insert_self (h : Retains o start others recorded now ledger) (ht : now ≤ now')
    (v : Value) : Retains o start others (some v) now' (ledger.insert ⟨o, now', v⟩) where
  kept w hw := ⟨⟨o, now', v⟩, List.mem_cons_self, rfl, Option.some.inj hw, h.started.trans ht⟩
  source e he ho := by
    rcases List.mem_cons.mp he with rfl | he
    · exact .inl rfl
    · exact absurd ho (by simpa using (List.mem_filter.mp he).2)
  aged e he := by
    rcases List.mem_cons.mp he with rfl | he
    · exact .inr (.inl rfl)
    · exact h.aged e (List.mem_of_mem_filter he)
  started := h.started.trans ht
  past e he := by
    rcases List.mem_cons.mp he with rfl | he
    · exact le_refl _
    · exact (h.past e (List.mem_of_mem_filter he)).trans ht

/-- A result remembered under another id. -/
theorem insert_other (h : Retains o start others recorded now ledger) (ht : now ≤ now')
    {x : String} (hx : x ≠ o) (v : Value) :
    Retains o start (insert x others) recorded now' (ledger.insert ⟨x, now', v⟩) where
  kept w hw := by
    obtain ⟨e, he, ho, hval, hs⟩ := h.kept w hw
    exact ⟨e, List.mem_cons_of_mem _ (List.mem_filter.mpr ⟨he, by simpa [ho] using hx.symm⟩),
      ho, hval, hs⟩
  source e he ho := by
    rcases List.mem_cons.mp he with rfl | he
    · exact absurd ho hx
    · exact (h.later ht).source e (List.mem_of_mem_filter he) ho
  aged e he := by
    rcases List.mem_cons.mp he with rfl | he
    · exact .inr (.inr (Finset.mem_insert_self _ _))
    · exact (h.aged e (List.mem_of_mem_filter he)).imp_right
        (Or.imp_right Finset.mem_insert_of_mem)
  started := h.started.trans ht
  past e he := by
    rcases List.mem_cons.mp he with rfl | he
    · exact le_refl _
    · exact (h.past e (List.mem_of_mem_filter he)).trans ht

/-- What a lookup of the id finds. -/
theorem lookupAt (h : Retains o start others recorded now ledger) (ht : now ≤ now')
    (hage : now' - start < ledgerTtl) : Operations.lookupAt ledger now' o = recorded := by
  cases hr : recorded with
  | some v =>
      obtain ⟨e, he, ho, hv, hs⟩ := h.kept v hr
      exact lookupAt_eq_some.mpr ⟨e, he, ho, by omega, hv⟩
  | none =>
      cases hl : Operations.lookupAt ledger now' o with
      | none => rfl
      | some v =>
          obtain ⟨e, he, ho, hyoung, -⟩ := lookupAt_eq_some.mp hl
          rcases (h.later ht).source e he ho with hs | hold
          · rw [hs] at hr
            cases hr
          · omega

end Retains

end RevBox.Operations
