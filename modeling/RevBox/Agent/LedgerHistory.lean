import RevBox.Agent.Operations
import Mathlib.Data.Finset.Card

/-!
# Agent — Ledger history

What the ledger answers, told from the calls it has served.

`order h` is the abstract ledger: every id ever remembered, once, newest first.  The table the
code keeps is the newest `LEDGER_CAP` entries of the `LEDGER_TTL` window of `order h`
(`table_perm`), so an id is found exactly when its last `remember` is young enough and fewer
than `LEDGER_CAP` other ids have been remembered since (`ledger_semantics`).
-/

namespace RevBox.Operations

open Recency

/-- A call on the ledger with the instants it reads and the enumeration order it meets. -/
inductive Call where
  | remember (operationId : String) (value : Value) (now : Nat) (hash : String → Nat)
  | lookup (operationId : String) (now pruneNow : Nat) (hash : String → Nat)

namespace Call

/-- The first instant a call reads. -/
def start : Call → Nat
  | remember _ _ now _ => now
  | lookup _ now _ _ => now

/-- The last instant a call reads. -/
def finish : Call → Nat
  | remember _ _ now _ => now
  | lookup _ _ pruneNow _ => pruneNow

/-- The id a call remembers. -/
def remembers : Call → Option String
  | remember operationId _ _ _ => some operationId
  | lookup .. => none

/-- The ledger after a call. -/
def apply (ledger : Ledger) : Call → Ledger
  | remember operationId value now hash => Operations.remember hash ledger now operationId value
  | lookup operationId now pruneNow hash =>
      (Operations.lookup hash ledger now pruneNow operationId).2

end Call

/-- The ledger a history leaves. -/
def table (h : List Call) : Ledger := h.foldl Call.apply Ledger.empty

/-- Calls at strictly increasing instants. -/
def Timed (h : List Call) : Prop :=
  (∀ c ∈ h, c.start ≤ c.finish) ∧ h.Pairwise fun c d => c.finish < d.start

/-- The ids a history remembers. -/
def remembered (h : List Call) : List String := h.filterMap Call.remembers

/-! ### The abstract ledger -/

/-- One call on the abstract ledger. -/
def note (l : List Entry) : Call → List Entry
  | .remember operationId value now _ => touch Entry.operationId ⟨operationId, now, value⟩ l
  | .lookup .. => l

/-- The abstract ledger: every id remembered, newest first. -/
def order (h : List Call) : List Entry := h.foldl note []

/-- The last instant a history reads. -/
def clock (h : List Call) : Nat := (h.getLast?.map Call.finish).getD 0

@[simp] theorem order_snoc (h : List Call) (c : Call) : order (h ++ [c]) = note (order h) c := by
  simp [order]

@[simp] theorem table_snoc (h : List Call) (c : Call) :
    table (h ++ [c]) = Call.apply (table h) c := by
  simp [table]

@[simp] theorem clock_snoc (h : List Call) (c : Call) : clock (h ++ [c]) = c.finish := by
  simp [clock]

theorem Timed.init {h : List Call} {c : Call} (ht : Timed (h ++ [c])) :
    Timed h ∧ c.start ≤ c.finish ∧ ∀ d ∈ h, d.finish < c.start := by
  obtain ⟨hm, hp⟩ := ht
  obtain ⟨hp₁, -, hp₂⟩ := List.pairwise_append.mp hp
  exact ⟨⟨fun d hd => hm d (by simp [hd]), hp₁⟩, hm c (by simp), fun d hd => hp₂ d hd c (by simp)⟩

/-- The clock has not passed the next call. -/
theorem Timed.clock_le {h : List Call} {c : Call} (ht : Timed (h ++ [c])) : clock h ≤ c.start := by
  cases hl : h.getLast? with
  | none => simp [clock, hl]
  | some d =>
      simpa [clock, hl] using Nat.le_of_lt (ht.init.2.2 d (List.mem_of_getLast? hl))

/-- The abstract ledger is newest first, has each id once, and nothing from the future. -/
theorem order_wf {h : List Call} (ht : Timed h) :
    Newest Entry.stamp (order h) ∧ ((order h).map Entry.operationId).Nodup ∧
      ∀ e ∈ order h, ∃ c ∈ h, e.stamp = c.finish := by
  induction h using List.reverseRecOn with
  | nil => exact ⟨List.Pairwise.nil, List.nodup_nil, by simp [order]⟩
  | append_singleton h c ih =>
      obtain ⟨ht', hc, hlt⟩ := ht.init
      obtain ⟨hn, hk, hs⟩ := ih ht'
      have hold : ∀ e ∈ order h, ∃ d ∈ h ++ [c], e.stamp = d.finish := fun e he =>
        (hs e he).imp fun d hd => ⟨by simp [hd.1], hd.2⟩
      cases c with
      | lookup => rw [order_snoc]; exact ⟨hn, hk, hold⟩
      | remember operationId value now hash =>
          rw [order_snoc]
          refine ⟨List.pairwise_cons.mpr ⟨fun e he => ?_, hn.filter _⟩,
            (Ledger.insert ⟨order h, hk⟩ _).nodup, fun e he => ?_⟩
          · obtain ⟨d, hd, hds⟩ := hs e (List.mem_of_mem_filter he)
            exact hds ▸ hlt d hd
          · rcases List.mem_cons.mp he with rfl | he
            · exact ⟨.remember operationId value now hash, by simp, rfl⟩
            · exact hold e (List.mem_of_mem_filter he)

/-- **The table refines the abstract ledger**: it is the newest `LEDGER_CAP` entries of the
window at the last instant read. -/
theorem table_perm {h : List Call} (ht : Timed h) :
    (table h).entries.Perm
      ((window Entry.stamp ledgerTtl (clock h) (order h)).take ledgerCap) := by
  induction h using List.reverseRecOn with
  | nil => exact List.Perm.refl _
  | append_singleton h c ih =>
      obtain ⟨ht', hc, hlt⟩ := ht.init
      obtain ⟨hn, hk, hs⟩ := order_wf ht'
      have hclock := ht.clock_le
      rw [table_snoc, order_snoc, clock_snoc]
      cases c with
      | lookup operationId now pruneNow hash =>
          obtain ⟨a, ha, hp⟩ := prune_perm hash (table h) pruneNow
          exact (keep_window hn (hclock.trans hc) (ih ht') ha) ▸ hp
      | remember operationId value now hash =>
          obtain ⟨a, ha, hp⟩ := prune_perm hash ((table h).insert ⟨operationId, now, value⟩) now
          refine (keep_touch (e := ⟨operationId, now, value⟩) (n := 255) hn hk hclock
            (fun b hb => ?_) (ih ht') ha) ▸ hp
          obtain ⟨d, hd, hds⟩ := hs b hb
          exact hds ▸ hlt d hd

/-! ### An id's rank is the number of ids remembered after it -/

/-- The abstract ledger around the last `remember` of an id: in front of it stand the ids
remembered later, each once. -/
theorem order_split (h₁ : List Call) (operationId : String) (v : Value) (t : Nat)
    (hash : String → Nat) {h₂ : List Call} (hid : operationId ∉ remembered h₂) :
    ∃ front back, order (h₁ ++ .remember operationId v t hash :: h₂) =
        front ++ ⟨operationId, t, v⟩ :: back ∧
      ∀ x, x ∈ front.map Entry.operationId ↔ x ∈ remembered h₂ := by
  induction h₂ using List.reverseRecOn with
  | nil => exact ⟨[], (order h₁).filter fun a => decide (a.operationId ≠ operationId),
      by simp [note, touch], by simp [remembered]⟩
  | append_singleton h₂ c ih =>
      have hc : c.remembers ≠ some operationId := fun e => hid (by simp [remembered, e])
      obtain ⟨front, back, ho, hf⟩ := ih fun hm => hid (by
        simp only [remembered, List.filterMap_append, List.mem_append] at hm ⊢
        exact .inl hm)
      rw [← List.cons_append, ← List.append_assoc, order_snoc, ho]
      cases c with
      | lookup => exact ⟨front, back, rfl, fun x => (hf x).trans (by simp [remembered, Call.remembers])⟩
      | remember x w u hash' =>
          have hx : operationId ≠ x := fun e => hc (by simp [Call.remembers, e])
          refine ⟨touch Entry.operationId ⟨x, u, w⟩ front,
            back.filter fun a => decide (a.operationId ≠ x), ?_, fun y => ?_⟩
          · simp [note, touch, hx]
          · simp only [touch, List.map_cons, List.mem_cons, List.mem_map, List.mem_filter,
              remembered, List.filterMap_append, List.mem_append]
            rw [show (y ∈ List.filterMap Call.remembers h₂) = (y ∈ remembered h₂) from rfl, ← hf y]
            by_cases hy : y = x
            · simp [hy, Call.remembers]
            · simp only [hy, false_or, decide_eq_true_eq, List.mem_map, List.filterMap_cons,
                Call.remembers, List.filterMap_nil, List.mem_singleton, or_false]
              constructor
              · rintro ⟨a, ⟨ha, -⟩, rfl⟩; exact ⟨a, ha, rfl⟩
              · rintro ⟨a, ha, rfl⟩; exact ⟨a, ⟨ha, hy⟩, rfl⟩

/-- Every entry of the abstract ledger comes from the last `remember` of its id. -/
theorem mem_order {h : List Call} {e : Entry} (he : e ∈ order h) :
    ∃ h₁ hash h₂, h = h₁ ++ .remember e.operationId e.value e.stamp hash :: h₂ ∧
      e.operationId ∉ remembered h₂ := by
  induction h using List.reverseRecOn with
  | nil => simp [order] at he
  | append_singleton h c ih =>
      have later : ∀ {e}, e ∈ order h → c.remembers ≠ some e.operationId →
          (e ∈ order h → ∃ h₁ hash h₂, h = h₁ ++ .remember e.operationId e.value e.stamp hash :: h₂ ∧
            e.operationId ∉ remembered h₂) →
          ∃ h₁ hash h₂, h ++ [c] = h₁ ++ .remember e.operationId e.value e.stamp hash :: h₂ ∧
            e.operationId ∉ remembered h₂ := by
        intro e he hc ih
        obtain ⟨h₁, hash, h₂, hh, hid⟩ := ih he
        refine ⟨h₁, hash, h₂ ++ [c], by simp [hh], fun hm => ?_⟩
        simp only [remembered, List.filterMap_append, List.mem_append] at hm
        rcases hm with hm | hm
        · exact hid hm
        · simp at hm; exact hc hm
      rw [order_snoc] at he
      cases c with
      | lookup => exact later he (by simp [Call.remembers]) ih
      | remember x w u hash =>
          rcases List.mem_cons.mp he with rfl | hm
          · exact ⟨h, hash, [], by simp, by simp [remembered]⟩
          · obtain ⟨hm, hne⟩ := List.mem_filter.mp hm
            exact later hm (by simpa [Call.remembers] using fun e => by simp [e] at hne) ih

/-- An entry whose front holds `k` others is among the first `n` exactly when `k < n`. -/
theorem mem_take_iff {front back : List Entry} {e : Entry} (he : e ∉ front) (n : Nat) :
    e ∈ (front ++ e :: back).take n ↔ front.length < n := by
  constructor
  · intro hm
    by_contra hle
    rw [List.take_append_of_le_length (Nat.not_lt.mp hle)] at hm
    exact he (List.mem_of_mem_take hm)
  · intro hlt
    obtain ⟨k, rfl⟩ := Nat.exists_eq_add_of_lt hlt
    rw [show front.length + k + 1 = front.length + (k + 1) by omega, List.take_length_add_append]
    simp

/-! ### The ledger's semantics -/

/-- `v` was the last value remembered under the id, at `t`, and `others` are the ids remembered
after it. -/
def LastRemembered (h : List Call) (operationId : String) (v : Value) (t : Nat)
    (others : Finset String) : Prop :=
  ∃ h₁ hash h₂, h = h₁ ++ .remember operationId v t hash :: h₂ ∧
    operationId ∉ remembered h₂ ∧ others = (remembered h₂).toFinset

/-- An entry is kept while fewer than `LEDGER_CAP` other ids have been remembered after it. -/
theorem mem_take_order {h : List Call} (ht : Timed h) {operationId : String} {v : Value}
    {t : Nat} :
    (⟨operationId, t, v⟩ : Entry) ∈ (order h).take ledgerCap ↔
      ∃ others, LastRemembered h operationId v t others ∧ others.card < ledgerCap := by
  have rank : ∀ h₁ hash h₂, h = h₁ ++ .remember operationId v t hash :: h₂ →
      operationId ∉ remembered h₂ →
      ((⟨operationId, t, v⟩ : Entry) ∈ (order h).take ledgerCap ↔
        (remembered h₂).toFinset.card < ledgerCap) := by
    rintro h₁ hash h₂ rfl hid
    obtain ⟨front, back, ho, hf⟩ := order_split h₁ operationId v t hash hid
    have hk := (order_wf ht).2.1
    rw [ho, List.map_append, List.nodup_append] at hk
    have hfront : (⟨operationId, t, v⟩ : Entry) ∉ front := fun hm =>
      hid ((hf operationId).mp (List.mem_map_of_mem (f := Entry.operationId) hm))
    have hset : (remembered h₂).toFinset = (front.map Entry.operationId).toFinset := by
      ext x; simp only [List.mem_toFinset]; exact (hf x).symm
    rw [ho, mem_take_iff hfront, hset, List.toFinset_card_of_nodup hk.1, List.length_map]
  constructor
  · intro hm
    obtain ⟨h₁, hash, h₂, hh, hid⟩ := mem_order (List.mem_of_mem_take hm)
    exact ⟨_, ⟨h₁, hash, h₂, hh, hid, rfl⟩, (rank h₁ hash h₂ hh hid).mp hm⟩
  · rintro ⟨_, ⟨h₁, hash, h₂, hh, hid, rfl⟩, hc⟩
    exact (rank h₁ hash h₂ hh hid).mpr hc

/-- **The ledger over whole histories.**  A lookup finds `v` exactly when the last `remember` of
the id stored `v`, at most `LEDGER_TTL` before, and fewer than `LEDGER_CAP` other ids have been
remembered since; and after every call the table has at most `LEDGER_CAP` entries, none of them
older than `LEDGER_TTL`. -/
theorem ledger_semantics {h : List Call} (ht : Timed h) :
    (∀ operationId now pruneNow hash v, Timed (h ++ [.lookup operationId now pruneNow hash]) →
      ((lookup hash (table h) now pruneNow operationId).1 = some v ↔
        ∃ t others, LastRemembered h operationId v t others ∧ now - t ≤ ledgerTtl ∧
          others.card < ledgerCap)) ∧
    (table h).entries.length ≤ ledgerCap ∧
      ∀ e ∈ (table h).entries, clock h - e.stamp ≤ ledgerTtl := by
  have hp := table_perm ht
  obtain ⟨hn, -, -⟩ := order_wf ht
  refine ⟨fun operationId now pruneNow hash v ht' => ?_, ?_, fun e he => ?_⟩
  · have hclock : clock h ≤ now := ht'.clock_le
    -- what is young enough now was young enough when the table was last pruned
    have hmem : ∀ e : Entry, now - e.stamp ≤ ledgerTtl →
        (e ∈ (table h).entries ↔ e ∈ (order h).take ledgerCap) := fun e he => by
      rw [hp.mem_iff, ← filter_take hn, window, List.mem_filter]
      simp only [decide_eq_true_eq, and_iff_left_iff_imp]
      omega
    rw [lookup, lookupAt_eq_some]
    constructor
    · rintro ⟨e, he, rfl, hage, rfl⟩
      obtain ⟨others, hl, hc⟩ := (mem_take_order ht).mp ((hmem e hage).mp he)
      exact ⟨e.stamp, others, hl, hage, hc⟩
    · rintro ⟨t, others, hl, hage, hc⟩
      exact ⟨⟨operationId, t, v⟩, (hmem _ hage).mpr ((mem_take_order ht).mpr ⟨others, hl, hc⟩),
        rfl, hage, rfl⟩
  · rw [hp.length_eq]
    exact List.length_take_le _ _
  · have := List.mem_of_mem_take (hp.mem_iff.mp he)
    simpa [window] using (List.mem_filter.mp this).2

/-- A retry two nanoseconds after its operation finished finds the result. -/
theorem lookup_after_remember :
    (lookup (fun _ => 0) (table [.remember "op-1" (.bool true) 5 fun _ => 0]) 7 7 "op-1").1 =
      some (.bool true) :=
  ((ledger_semantics (h := [.remember "op-1" (.bool true) 5 fun _ => 0])
    ⟨by simp [Call.start, Call.finish], List.pairwise_singleton _ _⟩).1 "op-1" 7 7 (fun _ => 0)
      (.bool true) ⟨by simp [Call.start, Call.finish], by simp [Call.start, Call.finish]⟩).mpr
    ⟨5, ∅, ⟨[], fun _ => 0, [], rfl, by simp [remembered], rfl⟩, by decide, by decide⟩

end RevBox.Operations
