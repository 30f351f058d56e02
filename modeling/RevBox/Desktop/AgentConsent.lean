import RevBox.Desktop.ConfigService
import RevBox.Support.Machine
import RevBox.Support.Trim

/-!
# Desktop — AgentConsent

The table of the devices an Agent may be put on (`services/agent_auto.rs`): all serial numbers in
one setting, joined with commas, read, edited and written back without a lock.

* `hasConsent_iff`: what the table says when it can be read.
* `consent_follows_answers`: in every run whose writes grant no comma, and put back of the other
  devices what the table says of them, a device has consent when the last call for it that
  succeeded granted it; and a call that fails changes nothing.
-/

namespace RevBox.AgentConsent

open Text Config

/-! ### The code -/

/-- The serial numbers in a value. -/
def items (value : List Char) : List (List Char) :=
  ((value.splitOn ',').map trim).filter fun item => item ≠ []

variable (fate : Fate)

/-- `consent_list`. -/
def consentList : Access (List (List Char)) := do
  let value ← tryCatch (Config.get fate keyAgentConsentSerials []) fun _ => pure []
  return items value

/-- `has_consent`. -/
def hasConsent (serial : List Char) : Access Bool := do
  let serial := trim serial
  if serial = [] then return false
  return (← consentList fate).contains serial

/-- The list as `set_consent` edits it. -/
def edit (serial : List Char) (granted : Bool) (list : List (List Char)) : List (List Char) :=
  let list := list.filter fun item => item ≠ serial
  if granted then list ++ [serial] else list

/-- `set_consent`, behind its read. -/
def writeBack (serial : List Char) (granted : Bool) (list : List (List Char)) : Access Unit :=
  Config.set fate keyAgentConsentSerials (join ',' (edit serial granted list))

/-- `set_consent`. -/
def setConsent (serial : List Char) (granted : Bool) : Access Unit := do
  let serial := trim serial
  if serial = [] then throw (.internal "设备序列号为空，不能记授权")
  let list ← consentList fate
  writeBack fate serial granted list

/-! ### Calls that overlap -/

/-- A call of `set_consent` that is under way, and what it has read. -/
structure Call where
  serial : List Char
  granted : Bool
  list : Option (List (List Char))

/-- A call that has answered. -/
structure Answer where
  serial : List Char
  granted : Bool
  result : Except CoreError Unit

/-- The settings, the calls under way, and the answers, the last one first. -/
structure World where
  db : Db
  calls : Nat → Option Call
  answers : List Answer

/-- A call begins, reads the table, or writes it; and how the database fares. -/
inductive Label where
  | begin (i : Nat) (serial : List Char) (granted : Bool)
  | read (i : Nat) (fate : Fate)
  | write (i : Nat) (fate : Fate)

/-- A call answers. -/
def World.answer (w : World) (i : Nat) (call : Call) (result : Except CoreError Unit) (db : Db) :
    World :=
  ⟨db, Function.update w.calls i none, ⟨call.serial, call.granted, result⟩ :: w.answers⟩

/-- `set_consent`, cut at its read and its write. -/
def step (w : World) : Label → Option World
  | .begin i serial granted =>
      if w.calls i ≠ none then none
      else if trim serial = [] then
        some (w.answer i ⟨serial, granted, none⟩
          (.error (.internal "设备序列号为空，不能记授权")) w.db)
      else some { w with calls := Function.update w.calls i (some ⟨serial, granted, none⟩) }
  | .read i fate =>
      match w.calls i with
      | some ⟨serial, granted, none⟩ =>
          match run (consentList fate) w.db with
          | (.ok list, db) =>
              some { w with db, calls := Function.update w.calls i (some ⟨serial, granted, some list⟩) }
          | (.error error, db) => some (w.answer i ⟨serial, granted, none⟩ (.error error) db)
      | _ => none
  | .write i fate =>
      match w.calls i with
      | some ⟨serial, granted, some list⟩ =>
          let (result, db) := run (writeBack fate (trim serial) granted list) w.db
          some (w.answer i ⟨serial, granted, some list⟩ result db)
      | _ => none

/-- Calls of `set_consent`, from a table that is empty. -/
def machine : Machine World Label where
  init w := items ((w.db keyAgentConsentSerials).getD []) = [] ∧ w.calls = (fun _ => none) ∧
    w.answers = []
  step := step

/-! ### What is promised -/

/-- What the last call for a device that succeeded said. -/
def lastOk (serial : List Char) : List Answer → Option Bool
  | [] => none
  | a :: answers =>
      match a.result with
      | .ok () => if trim a.serial = serial then some a.granted else lastOk serial answers
      | .error _ => lastOk serial answers

/-- A device has consent when the last call for it that succeeded granted it. -/
def Granted (w : World) (serial : List Char) : Prop := lastOk (trim serial) w.answers = some true

instance (w : World) (serial : List Char) : Decidable (Granted w serial) :=
  inferInstanceAs (Decidable (_ = _))

/-- `has_consent` says so. -/
def Says (fate : Fate) (w : World) (serial : List Char) : Prop :=
  run (hasConsent fate serial) w.db = (.ok (decide (Granted w serial)), w.db)

/-- The serial numbers that have consent by the table. -/
def World.table (w : World) : List (List Char) := items ((w.db keyAgentConsentSerials).getD [])

/-- The condition on a step: what is written grants no serial number with a comma, and what the
call read of the other devices the table still says. -/
def Undisturbed (w : World) : Label → Prop
  | .begin _ _ _ => True
  | .read _ _ => True
  | .write i fate =>
      match w.calls i with
      | some ⟨serial, granted, some list⟩ =>
          Accepts fate keyAgentConsentSerials (join ',' (edit (trim serial) granted list)) →
            (granted = true → ',' ∉ trim serial) ∧
            ∀ other, other ≠ trim serial → (other ∈ list ↔ other ∈ w.table)
      | _ => True

/-! ### The list and its value -/

/-- A serial number that stands for itself in the value: it is not empty, has no white space
around it and no comma. -/
def Plain (item : List Char) : Prop := item ≠ [] ∧ trim item = item ∧ ',' ∉ item

theorem plain_of_mem_items {value item : List Char} (h : item ∈ items value) : Plain item := by
  obtain ⟨hmem, hne⟩ := List.mem_filter.mp h
  obtain ⟨part, hpart, rfl⟩ := List.mem_map.mp hmem
  exact ⟨of_decide_eq_true hne, trim_trim part, fun hc =>
    not_mem_of_mem_splitOn ',' value part hpart (trim_subset part hc)⟩

/-- A list is read back from its value. -/
theorem items_join {list : List (List Char)} (h : ∀ item ∈ list, Plain item) :
    items (join ',' list) = list := by
  cases list with
  | nil => rfl
  | cons item list =>
      have hsplit : (join ',' (item :: list)).splitOn ',' = item :: list :=
        List.splitOn_intercalate _ (fun x hx => (h x hx).2.2) (List.cons_ne_nil _ _)
      have htrim : (item :: list).map trim = item :: list :=
        (List.map_congr_left fun x hx => (h x hx).2.1).trans (List.map_id _)
      rw [items, hsplit, htrim]
      exact List.filter_eq_self.mpr fun x hx => decide_eq_true (h x hx).1

theorem mem_edit_iff {serial item : List Char} {granted : Bool} {list : List (List Char)} :
    item ∈ edit serial granted list ↔
      if item = serial then granted = true else item ∈ list := by
  unfold edit
  by_cases hitem : item = serial <;> cases granted <;> simp [hitem]

variable {fate} {db : Db}

/-- What a call reads: nothing if the database fails. -/
theorem run_consentList :
    run (consentList fate) db =
      (.ok (if fate.reading keyAgentConsentSerials = none
        then items ((db keyAgentConsentSerials).getD []) else []), db) := by
  have hallowed : (allowedKeys.any fun entry => entry.1 == keyAgentConsentSerials) = true := by
    decide
  unfold consentList
  cases hfate : fate.reading keyAgentConsentSerials with
  | none =>
      rw [run_bind_ok (run_caught_ok (run_get hallowed hfate)), run_pure, if_pos rfl]
  | some error =>
      have hcaught : run (tryCatch (Config.get fate keyAgentConsentSerials [])
          fun _ => pure []) db = (.ok [], db) :=
        (run_caught_error (run_get_error hallowed hfate)).trans (run_pure [])
      rw [run_bind_ok hcaught, run_pure, if_neg nofun]
      rfl

/-- **What the table says.** -/
theorem hasConsent_iff (serial : List Char) :
    run (hasConsent fate serial) db =
      (.ok (decide (fate.reading keyAgentConsentSerials = none ∧
        trim serial ∈ items ((db keyAgentConsentSerials).getD []))), db) := by
  unfold hasConsent
  by_cases hempty : trim serial = []
  · have hnot : trim serial ∉ items ((db keyAgentConsentSerials).getD []) := fun h =>
      (plain_of_mem_items h).1 hempty
    have hdecide : decide (fate.reading keyAgentConsentSerials = none ∧
        trim serial ∈ items ((db keyAgentConsentSerials).getD [])) = false :=
      decide_eq_false fun h => hnot h.2
    rw [hdecide, if_pos hempty, run_pure]
  · simp only [hempty, if_false]
    rw [run_bind_ok run_consentList, run_pure]
    split_ifs with hfate <;> simp [hfate]

/-! ### Overlapping calls -/

/-- What holds in between. -/
structure Inv (w : World) : Prop where
  table : ∀ serial, serial ∈ w.table ↔ lastOk serial w.answers = some true
  calls : ∀ i call, w.calls i = some call → trim call.serial ≠ [] ∧
    ∀ list, call.list = some list → ∀ item ∈ list, Plain item

variable {w w' : World} {l : Label}

/-- Everything a step can do: a call is refused or begun, reads, stores, or fails to. -/
theorem step_cases (h : step w l = some w') :
    (∃ i serial granted error, l = .begin i serial granted ∧ trim serial = [] ∧
      w' = w.answer i ⟨serial, granted, none⟩ (.error error) w.db) ∨
    (∃ i serial granted, l = .begin i serial granted ∧ trim serial ≠ [] ∧
      w' = { w with calls := Function.update w.calls i (some ⟨serial, granted, none⟩) }) ∨
    (∃ i fate serial granted, l = .read i fate ∧ w.calls i = some ⟨serial, granted, none⟩ ∧
      w' = { w with calls := Function.update w.calls i (some ⟨serial, granted,
        some (if fate.reading keyAgentConsentSerials = none then w.table else [])⟩) }) ∨
    (∃ i fate serial granted list, l = .write i fate ∧
      w.calls i = some ⟨serial, granted, some list⟩ ∧
      ((Accepts fate keyAgentConsentSerials (join ',' (edit (trim serial) granted list)) ∧
        w' = w.answer i ⟨serial, granted, some list⟩ (.ok ()) (Function.update w.db
          keyAgentConsentSerials (some (join ',' (edit (trim serial) granted list))))) ∨
      ∃ error, w' = w.answer i ⟨serial, granted, some list⟩ (.error error) w.db)) := by
  cases l with
  | begin i serial granted =>
      rw [step] at h
      split_ifs at h with hcall hempty
      · exact .inl ⟨i, serial, granted, _, rfl, hempty, (Option.some.inj h).symm⟩
      · exact .inr (.inl ⟨i, serial, granted, rfl, hempty, (Option.some.inj h).symm⟩)
  | read i fate =>
      rw [step] at h
      split at h
      case h_1 serial granted hcall =>
        rw [run_consentList] at h
        exact .inr (.inr (.inl ⟨i, fate, serial, granted, rfl, hcall, (Option.some.inj h).symm⟩))
      case h_2 => cases h
  | write i fate =>
      rw [step] at h
      split at h
      case h_1 serial granted list hcall =>
        refine .inr (.inr (.inr ⟨i, fate, serial, granted, list, rfl, hcall, ?_⟩))
        unfold writeBack at h
        by_cases haccepts :
            Accepts fate keyAgentConsentSerials (join ',' (edit (trim serial) granted list))
        · rw [run_set haccepts] at h
          exact .inl ⟨haccepts, (Option.some.inj h).symm⟩
        · obtain ⟨error, herror⟩ := run_set_error haccepts w.db
          rw [herror] at h
          exact .inr ⟨error, (Option.some.inj h).symm⟩
      case h_2 => cases h

/-- A call that answers is no longer under way. -/
theorem calls_answer {i : Nat} {call : Call} {result : Except CoreError Unit} {db : Db}
    (hinv : Inv w) : ∀ j call', (w.answer i call result db).calls j = some call' →
      trim call'.serial ≠ [] ∧ ∀ list, call'.list = some list → ∀ item ∈ list, Plain item := by
  intro j call' hcall
  by_cases hj : j = i
  · subst hj
    simp [World.answer] at hcall
  · simp only [World.answer, Function.update_of_ne hj] at hcall
    exact hinv.calls j call' hcall

/-- A call that goes on. -/
theorem calls_update {i : Nat} {call : Call} (hinv : Inv w) (hserial : trim call.serial ≠ [])
    (hlist : ∀ list, call.list = some list → ∀ item ∈ list, Plain item) :
    Inv { w with calls := Function.update w.calls i (some call) } where
  table := hinv.table
  calls j call' hcall := by
    by_cases hj : j = i
    · subst hj
      simp only [Function.update_self] at hcall
      cases hcall
      exact ⟨hserial, hlist⟩
    · simp only [Function.update_of_ne hj] at hcall
      exact hinv.calls j call' hcall

/-- **A step keeps the table in step with the answers.** -/
theorem inv_step (hinv : Inv w) (hguard : Undisturbed w l) (h : step w l = some w') : Inv w' := by
  obtain ⟨i, serial, granted, error, rfl, -, rfl⟩ | ⟨i, serial, granted, rfl, hne, rfl⟩ |
    ⟨i, fate, serial, granted, rfl, hcall, rfl⟩ |
    ⟨i, fate, serial, granted, list, rfl, hcall, ⟨haccepts, rfl⟩ | ⟨error, rfl⟩⟩ := step_cases h
  · exact ⟨hinv.table, calls_answer hinv⟩
  · exact calls_update hinv hne nofun
  · refine calls_update hinv (hinv.calls i _ hcall).1 fun list hlist item hitem => ?_
    cases hlist
    split_ifs at hitem
    · exact plain_of_mem_items hitem
    · cases hitem
  · refine ⟨fun other => ?_, calls_answer hinv⟩
    obtain ⟨hne, hplain⟩ := hinv.calls i _ hcall
    simp only [Undisturbed, hcall] at hguard
    obtain ⟨hcomma, hothers⟩ := hguard haccepts
    have hedit : ∀ item ∈ edit (trim serial) granted list, Plain item := by
      intro item hitem
      rw [mem_edit_iff] at hitem
      split_ifs at hitem with hself
      · rw [hself]
        exact ⟨hne, trim_trim serial, hcomma hitem⟩
      · exact hplain list rfl item hitem
    simp only [World.table, World.answer, Function.update_self, Option.getD_some, items_join hedit,
      mem_edit_iff, lastOk]
    by_cases hself : other = trim serial
    · rw [if_pos hself, if_pos hself.symm, Option.some.injEq]
    · rw [if_neg hself, if_neg (Ne.symm hself), hothers other hself]
      exact hinv.table other
  · exact ⟨hinv.table, calls_answer hinv⟩

theorem inv_init (h : machine.init w) : Inv w where
  table serial := by simp [World.table, h.1, h.2.2, lastOk]
  calls i call hcall := by simp [h.2.1] at hcall

/-- `has_consent` says what the last answer was, where the table does, as far as it is read. -/
theorem says_iff (hinv : Inv w) (fate : Fate) (serial : List Char) :
    Says fate w serial ↔ fate.reading keyAgentConsentSerials = none ∨ ¬ Granted w serial := by
  have htable := hinv.table (trim serial)
  rw [World.table] at htable
  rw [Says, hasConsent_iff, Prod.mk.injEq, Except.ok.injEq, decide_eq_decide, htable]
  unfold Granted
  tauto

/-- **Consent follows the answers.**  In a run whose writes grant no serial number with a comma
and put back of the other devices what the table says of them, `has_consent` says of every device
whether the last call for it that succeeded granted it, when and only when it can read the table or
need not.  A step changes the settings only when it ends a call that succeeds. -/
theorem consent_follows_answers {ls : List Label} (hinit : machine.init w)
    (hrun : machine.Run Undisturbed w ls w') :
    (∀ fate serial, Says fate w' serial ↔
      fate.reading keyAgentConsentSerials = none ∨ ¬ Granted w' serial) ∧
    ∀ l w'', step w' l = some w'' → w''.db = w'.db ∨
      ∃ a, w''.answers = a :: w'.answers ∧ a.result = .ok () := by
  have hinv : Inv w' := hrun.invariant (fun _ _ _ hi hc hs => inv_step hi hc hs) (inv_init hinit)
  refine ⟨says_iff hinv, fun l w'' h => ?_⟩
  obtain ⟨i, serial, granted, error, -, -, rfl⟩ | ⟨i, serial, granted, -, -, rfl⟩ |
    ⟨i, fate, serial, granted, -, -, rfl⟩ |
    ⟨i, fate, serial, granted, list, -, -, ⟨-, rfl⟩ | ⟨error, rfl⟩⟩ := step_cases h
  · exact .inl rfl
  · exact .inl rfl
  · exact .inl rfl
  · exact .inr ⟨_, rfl, rfl⟩
  · exact .inl rfl

/-! ### Runs -/

/-- A call that nothing comes between is `set_consent`. -/
theorem exec_alone {i : Nat} {serial : List Char} {granted : Bool} (hfree : w.calls i = none)
    (hne : trim serial ≠ []) :
    machine.exec w [.begin i serial granted, .read i fate, .write i fate] =
      some ⟨(run (setConsent fate serial granted) w.db).2, w.calls,
        ⟨serial, granted, (run (setConsent fate serial granted) w.db).1⟩ :: w.answers⟩ := by
  have hset : ∀ db, run (setConsent fate serial granted) db =
      run (writeBack fate (trim serial) granted
        (if fate.reading keyAgentConsentSerials = none
          then items ((db keyAgentConsentSerials).getD []) else [])) db := by
    intro db
    rw [setConsent, if_neg hne]
    exact run_bind_ok run_consentList _
  have hcalls : Function.update w.calls i none = w.calls := by
    rw [← hfree, Function.update_eq_self]
  simp [Machine.exec, machine, step, hfree, hne, run_consentList, hset, World.answer, hcalls]

/-- Nobody has consent and nobody asks. -/
def nobody : World := ⟨fun _ => none, fun _ => none, []⟩

theorem nobody_init : machine.init nobody := ⟨by decide, rfl, rfl⟩

/-- A call, from its beginning to its answer. -/
def callOf (serial : List Char) (granted : Bool) : List Label :=
  [.begin 0 serial granted, .read 0 .fine, .write 0 .fine]

theorem consent_follows_answers_granted :
    ∃ w', machine.Run Undisturbed nobody (callOf ['a'] true) w' ∧ Granted w' ['a'] ∧
      (∀ fate serial, Says fate w' serial ↔
        fate.reading keyAgentConsentSerials = none ∨ ¬ Granted w' serial) ∧
      ∀ l w'', step w' l = some w'' → w''.db = w'.db ∨
        ∃ a, w''.answers = a :: w'.answers ∧ a.result = .ok () := by
  have hrun : ∃ w', machine.Run Undisturbed nobody (callOf ['a'] true) w' ∧ Granted w' ['a'] :=
    ⟨_, .more trivial rfl (.more trivial rfl (.more
      (fun _ => ⟨fun _ => by decide, fun _ _ => Iff.rfl⟩) rfl (.refl _))), by decide⟩
  obtain ⟨w', hrun, hgranted⟩ := hrun
  exact ⟨w', hrun, hgranted, consent_follows_answers nobody_init hrun⟩

/-- Granting `a,b` gives `a` consent. -/
theorem comma_grants_others :
    ¬ ∀ w ls w', machine.init w → machine.Run Machine.Any w ls w' →
      ∀ serial, Says .fine w' serial := by
  intro h
  have hrun : ∃ w', machine.Run Machine.Any nobody (callOf "a,b".toList true) w' ∧
      ¬ Says .fine w' ['a'] :=
    ⟨_, .more trivial rfl (.more trivial rfl (.more trivial rfl (.refl _))), fun hsays =>
      absurd (congrArg (fun r => r.1.toOption) hsays) (by decide)⟩
  obtain ⟨w', hrun, hnot⟩ := hrun
  exact hnot (h _ _ _ nobody_init hrun _)

end RevBox.AgentConsent
