import RevBox.Protocol.Value
import RevBox.Support.Recency

/-!
# Agent — Operations

The idempotency ledger of `provider/operations.rs`: one process-wide map from `operation_id` to
the instant and the result of a finished write, shared by every write method.

An `Instant` is a reading of the monotonic clock in nanoseconds, a `Nat`.  The ledger is a hash map: its
entries carry distinct ids, and `hash` is the order it enumerates them in at one call, which
nothing fixes from one call to the next.
-/

namespace RevBox.Operations

open Recency

/-- `LEDGER_TTL`. -/
def ledgerTtl : Nat := 10 * 60 * 1000000000

/-- `LEDGER_CAP`. -/
def ledgerCap : Nat := 256

/-- One entry of `Ledger::entries`. -/
structure Entry where
  operationId : String
  stamp : Nat
  value : Value

/-- `Ledger`: a map, so no id twice. -/
structure Ledger where
  entries : List Entry
  nodup : (entries.map Entry.operationId).Nodup

namespace Ledger

/-- `Ledger::default`. -/
def empty : Ledger := ⟨[], List.nodup_nil⟩

/-- `HashMap::get`. -/
def get (ledger : Ledger) (operationId : String) : Option Entry :=
  ledger.entries.find? fun e => e.operationId = operationId

/-- `HashMap::insert`. -/
def insert (ledger : Ledger) (e : Entry) : Ledger where
  entries := touch Entry.operationId e ledger.entries
  nodup := by
    refine List.nodup_cons.mpr ⟨fun h => ?_, ledger.nodup.sublist (List.filter_sublist.map _)⟩
    obtain ⟨a, ha, he⟩ := List.mem_map.mp h
    simpa [he] using List.of_mem_filter ha

/-- `HashMap::retain`. -/
def retain (ledger : Ledger) (p : Entry → Bool) : Ledger where
  entries := ledger.entries.filter p
  nodup := ledger.nodup.sublist (List.filter_sublist.map _)

/-- `HashMap::iter`, in the order the hashes give. -/
def iter (ledger : Ledger) (hash : String → Nat) : List Entry :=
  ledger.entries.mergeSort fun a b => decide (hash a.operationId ≤ hash b.operationId)

end Ledger

/-- `is_valid_operation_id`. -/
def isValidOperationId (raw : String) : Bool :=
  raw ≠ "" && decide (raw.utf8ByteSize ≤ 64) &&
    raw.toList.all fun c =>
      c.isAlphanum || c = '-' || c = '_' || c = '.' || c = ':'

/-- `lookup_at`. -/
def lookupAt (ledger : Ledger) (now : Nat) (operationId : String) : Option Value :=
  match ledger.get operationId with
  | none => none
  | some e => if now - e.stamp > ledgerTtl then none else some e.value

/-- `prune`. -/
def prune (hash : String → Nat) (ledger : Ledger) (now : Nat) : Ledger :=
  let kept := ledger.retain fun e => decide (now - e.stamp ≤ ledgerTtl)
  if kept.entries.length ≤ ledgerCap then kept
  else
    let ordered := sortNewest Entry.stamp (kept.iter hash)
    let evicted := (ordered.drop ledgerCap).map Entry.operationId
    kept.retain fun e => decide (e.operationId ∉ evicted)

/-- `lookup`: the clock is read once for the answer and once more for the pruning. -/
def lookup (hash : String → Nat) (ledger : Ledger) (now pruneNow : Nat)
    (operationId : String) : Option Value × Ledger :=
  (lookupAt ledger now operationId, prune hash ledger pruneNow)

/-- `remember`. -/
def remember (hash : String → Nat) (ledger : Ledger) (now : Nat) (operationId : String)
    (value : Value) : Ledger :=
  prune hash (ledger.insert ⟨operationId, now, value⟩) now

/-- `mark_replayed`. -/
def markReplayed : Value → Value
  | .object fields => .object (Value.insertField "outcome" (.string "replayed") fields)
  | value => value

/-! ### Reading the ledger -/

/-- In a map an id has one entry. -/
theorem Ledger.eq_of_mem {ledger : Ledger} {a b : Entry} (ha : a ∈ ledger.entries)
    (hb : b ∈ ledger.entries) (h : a.operationId = b.operationId) : a = b :=
  List.inj_on_of_nodup_map ledger.nodup ha hb h

theorem Ledger.get_eq_some {ledger : Ledger} {operationId : String} {e : Entry} :
    ledger.get operationId = some e ↔ e ∈ ledger.entries ∧ e.operationId = operationId := by
  constructor
  · exact fun h => ⟨List.mem_of_find?_eq_some h, by simpa using List.find?_some h⟩
  · rintro ⟨he, rfl⟩
    cases h : ledger.get e.operationId with
    | none => simpa using List.find?_eq_none.mp h e he
    | some a =>
        have ha : a.operationId = e.operationId := by simpa using List.find?_some h
        rw [Ledger.eq_of_mem (List.mem_of_find?_eq_some h) he ha]

/-- What `lookup_at` answers: the value of the id's entry, if it is at most `LEDGER_TTL` old. -/
theorem lookupAt_eq_some {ledger : Ledger} {now : Nat} {operationId : String} {v : Value} :
    lookupAt ledger now operationId = some v ↔
      ∃ e ∈ ledger.entries, e.operationId = operationId ∧ now - e.stamp ≤ ledgerTtl ∧
        e.value = v := by
  constructor
  · intro h
    unfold lookupAt at h
    split at h
    · cases h
    · rename_i e he
      obtain ⟨hm, hid⟩ := Ledger.get_eq_some.mp he
      split at h
      · cases h
      · rename_i hle
        exact ⟨e, hm, hid, Nat.not_lt.mp hle, Option.some.inj h⟩
  · rintro ⟨e, hm, hid, hle, rfl⟩
    simp [lookupAt, Ledger.get_eq_some.mpr ⟨hm, hid⟩, Nat.not_lt.mpr hle]

/-! ### What pruning keeps -/

/-- **Pruning keeps the newest `LEDGER_CAP` entries of the window**, whichever order equal
instants are enumerated in. -/
theorem prune_perm (hash : String → Nat) (ledger : Ledger) (now : Nat) :
    ∃ a, a.Perm (window Entry.stamp ledgerTtl now ledger.entries) ∧
      (prune hash ledger now).entries.Perm ((sortNewest Entry.stamp a).take ledgerCap) := by
  have hiter : ∀ l : Ledger, (l.iter hash).Perm l.entries := fun l => List.mergeSort_perm _ _
  refine ⟨_, hiter (ledger.retain fun e => decide (now - e.stamp ≤ ledgerTtl)), ?_⟩
  unfold prune
  simp only []
  generalize ledger.retain (fun e => decide (now - e.stamp ≤ ledgerTtl)) = kept
  have hp : (sortNewest Entry.stamp (kept.iter hash)).Perm kept.entries :=
    (sortNewest_perm _).trans (hiter kept)
  split
  · rename_i hle
    rw [List.take_of_length_le (by rw [hp.length_eq]; exact hle)]
    exact hp.symm
  · have hn : ((sortNewest Entry.stamp (kept.iter hash)).map Entry.operationId).Nodup :=
      ((hp.map _).nodup_iff).mpr kept.nodup
    rw [← filter_not_mem_drop ledgerCap hn]
    exact (hp.filter _).symm

theorem mem_of_mem_prune {hash : String → Nat} {ledger : Ledger} {now : Nat} {e : Entry}
    (h : e ∈ (prune hash ledger now).entries) :
    e ∈ ledger.entries ∧ now - e.stamp ≤ ledgerTtl := by
  obtain ⟨a, ha, hp⟩ := prune_perm hash ledger now
  have hm := (ha.mem_iff.mp ((sortNewest_perm a).mem_iff.mp
    (List.mem_of_mem_take (hp.mem_iff.mp h))))
  exact ⟨List.mem_of_mem_filter hm, by simpa using List.of_mem_filter hm⟩

theorem length_prune_le (hash : String → Nat) (ledger : Ledger) (now : Nat) :
    (prune hash ledger now).entries.length ≤ ledgerCap := by
  obtain ⟨a, -, hp⟩ := prune_perm hash ledger now
  rw [hp.length_eq]
  exact List.length_take_le _ _

/-- An entry young enough, with at most `LEDGER_CAP` entries as new as itself, survives. -/
theorem mem_prune {hash : String → Nat} {ledger : Ledger} {now : Nat} {e : Entry}
    (he : e ∈ ledger.entries) (hold : now - e.stamp ≤ ledgerTtl)
    (hn : (ledger.entries.filter fun a => decide (e.stamp ≤ a.stamp)).length ≤ ledgerCap) :
    e ∈ (prune hash ledger now).entries := by
  obtain ⟨a, ha, hp⟩ := prune_perm hash ledger now
  refine hp.mem_iff.mpr (mem_take_sortNewest (ha.mem_iff.mpr ?_) ?_)
  · exact List.mem_filter.mpr ⟨he, by simpa using hold⟩
  · rw [(ha.filter _).length_eq]
    exact Nat.le_trans (List.filter_sublist.filter _).length_le hn

end RevBox.Operations
