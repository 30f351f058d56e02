import RevBox.Desktop.ConfigService
import Mathlib.Data.List.Nodup

/-!
# Desktop — AiService

Saving the settings of the translation, `AiService::save` (`services/ai_service.rs`): the checks,
then up to four writes one after the other.

* `run_putAll`: writes up to the first that fails.
* `saves_whole_iff`: a save stores everything or nothing, and leaves an enabled translation with
  an address and a key, when and only when what it writes before a failing write is stored already,
  and a key is given or stored already.
-/

namespace RevBox.AiSettings

open Text Config

/-! ### The code -/

/-- `AiConfigView`. -/
structure AiConfigView where
  baseUrl : List Char
  model : List Char
  enabled : Bool
  hasApiKey : Bool
  keyTail : List Char

/-- `tail`. -/
def tail (value : List Char) (n : Nat) : List Char := (value.reverse.take n).reverse

variable (fate : Fate)

/-- `AiService::get`. -/
def get (key : String) : Access (List Char) := do
  let raw ← tryCatch (if key = keyAiApiKey then getSecret fate key [] else Config.get fate key [])
    fun _ => return []
  return trim raw

/-- `AiService::view`. -/
def view : Access AiConfigView := do
  let key ← get fate keyAiApiKey
  let baseUrl ← get fate keyAiBaseUrl
  let model ← get fate keyAiModel
  let enabled ← get fate keyAiEnabled
  return ⟨baseUrl, model, enabled = "true".toList, key ≠ [], tail key 4⟩

/-- The checks of `save`, of the address without the white space around it. -/
def check (baseUrl : List Char) (enabled : Bool) (apiKey : Option (List Char)) :
    Except CoreError Unit := do
  if baseUrl ≠ [] then Ai.validateEndpoint baseUrl
  if enabled && (baseUrl = [] || apiKey.map trim = some []) then
    throw (.invalidInput "开启翻译需要接口地址与 API key；只想看原文就关掉翻译")

/-- `true` or `false`, as it is stored. -/
def flag (enabled : Bool) : List Char := if enabled then "true".toList else "false".toList

/-- `AiService::save`. -/
def save (baseUrl model : List Char) (enabled : Bool) (apiKey : Option (List Char)) :
    Access AiConfigView := do
  let baseUrl := trim baseUrl
  ExceptT.mk (pure (check baseUrl enabled apiKey))
  set fate keyAiBaseUrl baseUrl
  set fate keyAiModel (trim model)
  set fate keyAiEnabled (flag enabled)
  if let some key := apiKey then
    setSecret fate keyAiApiKey (trim key)
  view fate

/-! ### What is promised -/

/-- The values a save is given, by their keys, in the order they are written. -/
def given (baseUrl model : List Char) (enabled : Bool) (apiKey : Option (List Char)) :
    List (String × List Char) :=
  [(keyAiBaseUrl, trim baseUrl), (keyAiModel, trim model), (keyAiEnabled, flag enabled)] ++
    (apiKey.map fun key => (keyAiApiKey, trim key)).toList

/-- There is an address and a key. -/
def Usable (db : Db) : Prop :=
  (∃ baseUrl, db keyAiBaseUrl = some baseUrl ∧ trim baseUrl ≠ []) ∧
    ∃ key, db keyAiApiKey = some key ∧ trim key ≠ []

/-- **A save is atomic and leaves a usable state.** -/
structure SavesWhole (fate : Fate) (db : Db) (baseUrl model : List Char) (enabled : Bool)
    (apiKey : Option (List Char)) : Prop where
  stored : ∀ v db', run (save fate baseUrl model enabled apiKey) db = (.ok v, db') →
    (∀ w ∈ given baseUrl model enabled apiKey, db' w.1 = some w.2) ∧
      ∀ key, (∀ w ∈ given baseUrl model enabled apiKey, w.1 ≠ key) → db' key = db key
  unchanged : ∀ error db', run (save fate baseUrl model enabled apiKey) db = (.error error, db') →
    db' = db
  usable : ∀ v db', run (save fate baseUrl model enabled apiKey) db = (.ok v, db') →
    enabled = true → Usable db'

/-- A write passes: the database is well, and all but the API key pass their validators. -/
def Passes (fate : Fate) (w : String × List Char) : Prop :=
  if w.1 = keyAiApiKey then fate.writing w.1 = none else Accepts fate w.1 w.2

/-- What is written before the first write that fails is stored already. -/
def Harmless (fate : Fate) (db : Db) (ws : List (String × List Char)) : Prop :=
  ∀ before w after, ws = before ++ w :: after → (∀ x ∈ before, Passes fate x) → ¬ Passes fate w →
    ∀ x ∈ before, db x.1 = some x.2

/-- The condition on a save that passes its checks: what it writes before a failing write is
stored already, and if it enables the translation without giving a key, there is one. -/
def Sound (fate : Fate) (db : Db) (baseUrl model : List Char) (enabled : Bool)
    (apiKey : Option (List Char)) : Prop :=
  check (trim baseUrl) enabled apiKey = .ok () →
    Harmless fate db (given baseUrl model enabled apiKey) ∧
      ((∀ w ∈ given baseUrl model enabled apiKey, Passes fate w) → enabled = true →
        apiKey = none → ∃ key, db keyAiApiKey = some key ∧ trim key ≠ [])

/-! ### One write after the other -/

/-- One write. -/
def put (w : String × List Char) : Access Unit :=
  if w.1 = keyAiApiKey then setSecret fate w.1 w.2 else set fate w.1 w.2

/-- Writes, one after the other. -/
def putAll : List (String × List Char) → Access Unit
  | [] => pure ()
  | w :: ws => do
      put fate w
      putAll ws

/-- The table with some values stored. -/
def store (ws : List (String × List Char)) (db : Db) : Db :=
  ws.foldl (fun db w => Function.update db w.1 (some w.2)) db

variable {fate} {db db' : Db} {ws : List (String × List Char)}

theorem run_put {w : String × List Char} (h : Passes fate w) :
    run (put fate w) db = (.ok (), Function.update db w.1 (some w.2)) := by
  unfold put
  unfold Passes at h
  by_cases hkey : w.1 = keyAiApiKey
  · rw [if_pos hkey] at h ⊢
    exact run_setSecret (by rw [hkey]; decide) h
  · rw [if_neg hkey] at h ⊢
    exact run_set h

theorem run_put_error {w : String × List Char} (h : ¬ Passes fate w) :
    ∃ error, run (put fate w) db = (.error error, db) := by
  unfold put
  unfold Passes at h
  by_cases hkey : w.1 = keyAiApiKey
  · rw [if_pos hkey] at h ⊢
    obtain ⟨error, herror⟩ := Option.ne_none_iff_exists'.mp h
    exact ⟨error, run_setSecret_error (by rw [hkey]; decide) herror⟩
  · rw [if_neg hkey] at h ⊢
    exact run_set_error h db

/-- Writes that all pass. -/
theorem run_putAll (h : ∀ w ∈ ws, Passes fate w) :
    run (putAll fate ws) db = (.ok (), store ws db) := by
  induction ws generalizing db with
  | nil => rfl
  | cons w ws ih =>
      rw [putAll, run_bind_ok (run_put (h w (List.mem_cons_self ..))),
        ih fun x hx => h x (List.mem_cons_of_mem _ hx)]
      rfl

/-- Writes up to the first that fails. -/
theorem run_putAll_error {before : List (String × List Char)} {w : String × List Char}
    (hbefore : ∀ x ∈ before, Passes fate x) (hw : ¬ Passes fate w)
    (after : List (String × List Char)) (db : Db) :
    ∃ error, run (putAll fate (before ++ w :: after)) db = (.error error, store before db) := by
  induction before generalizing db with
  | nil =>
      obtain ⟨error, herror⟩ := run_put_error hw
      exact ⟨error, by rw [List.nil_append, putAll, run_bind_error herror]; rfl⟩
  | cons x before ih =>
      obtain ⟨error, herror⟩ := ih (fun y hy => hbefore y (List.mem_cons_of_mem _ hy))
        (Function.update db x.1 (some x.2))
      refine ⟨error, ?_⟩
      rw [List.cons_append, putAll, run_bind_ok (run_put (hbefore x (List.mem_cons_self ..))),
        herror]
      rfl

/-- Either all writes pass, or there is a first that fails. -/
theorem passes_or_fails (fate : Fate) (ws : List (String × List Char)) :
    (∀ w ∈ ws, Passes fate w) ∨ ∃ before w after, ws = before ++ w :: after ∧
      (∀ x ∈ before, Passes fate x) ∧ ¬ Passes fate w := by
  induction ws with
  | nil => exact .inl (by simp)
  | cons w ws ih =>
      by_cases hw : Passes fate w
      · rcases ih with hall | ⟨before, x, after, rfl, hbefore, hx⟩
        · exact .inl (List.forall_mem_cons.mpr ⟨hw, hall⟩)
        · exact .inr ⟨w :: before, x, after, rfl, List.forall_mem_cons.mpr ⟨hw, hbefore⟩, hx⟩
      · exact .inr ⟨[], w, ws, rfl, by simp, hw⟩

theorem store_of_not_mem {key : String} (h : ∀ w ∈ ws, w.1 ≠ key) : store ws db key = db key := by
  induction ws generalizing db with
  | nil => rfl
  | cons w ws ih =>
      rw [List.forall_mem_cons] at h
      rw [store, List.foldl_cons, ← store, ih h.2, Function.update_of_ne h.1.symm]

theorem store_of_mem (hnodup : (ws.map Prod.fst).Nodup) {w : String × List Char} (h : w ∈ ws)
    (db : Db) : store ws db w.1 = some w.2 := by
  induction ws generalizing db with
  | nil => cases h
  | cons x ws ih =>
      rw [List.map_cons, List.nodup_cons] at hnodup
      rw [store, List.foldl_cons, ← store]
      rcases List.mem_cons.mp h with rfl | h
      · have hfresh : ∀ y ∈ ws, y.1 ≠ w.1 := fun y hy he =>
          hnodup.1 (by rw [← he]; exact List.mem_map_of_mem hy)
        rw [store_of_not_mem hfresh, Function.update_self]
      · exact ih hnodup.2 h _

/-- Storing changes nothing when the values are stored already. -/
theorem store_eq_self_iff (hnodup : (ws.map Prod.fst).Nodup) :
    store ws db = db ↔ ∀ w ∈ ws, db w.1 = some w.2 := by
  constructor
  · intro h w hw
    have hstored := store_of_mem hnodup hw db
    rwa [h] at hstored
  · intro h
    funext key
    by_cases hkey : ∃ w ∈ ws, w.1 = key
    · obtain ⟨w, hw, rfl⟩ := hkey
      rw [store_of_mem hnodup hw db, h w hw]
    · exact store_of_not_mem fun w hw he => hkey ⟨w, hw, he⟩

/-! ### The whole save -/

theorem nodup_given (baseUrl model : List Char) (enabled : Bool) (apiKey : Option (List Char)) :
    ((given baseUrl model enabled apiKey).map Prod.fst).Nodup := by
  cases apiKey with
  | none => exact (by decide : [keyAiBaseUrl, keyAiModel, keyAiEnabled].Nodup)
  | some key => exact (by decide : [keyAiBaseUrl, keyAiModel, keyAiEnabled, keyAiApiKey].Nodup)

/-- A setting that cannot be read counts as empty. -/
theorem run_get (fate : Fate) (db : Db) (key : String) : ∃ raw, run (get fate key) db = (.ok raw, db) := by
  obtain ⟨raw, hraw⟩ : ∃ raw, run (tryCatch
      (if key = keyAiApiKey then getSecret fate key [] else Config.get fate key [])
      fun _ => return []) db = (.ok raw, db) := by
    apply run_caught
    split_ifs
    · exact run_getSecret_state
    · exact run_get_state
  exact ⟨trim raw, by rw [get, run_bind_ok hraw, run_pure]⟩

theorem run_view (fate : Fate) (db : Db) : ∃ v, run (view fate) db = (.ok v, db) := by
  obtain ⟨key, hkey⟩ := run_get fate db keyAiApiKey
  obtain ⟨baseUrl, hbase⟩ := run_get fate db keyAiBaseUrl
  obtain ⟨model, hmodel⟩ := run_get fate db keyAiModel
  obtain ⟨enabled, henabled⟩ := run_get fate db keyAiEnabled
  exact ⟨_, by
    rw [view, run_bind_ok hkey, run_bind_ok hbase, run_bind_ok hmodel, run_bind_ok henabled,
      run_pure]⟩

/-- A save that passes its checks writes what it is given. -/
theorem save_eq {baseUrl model : List Char} {enabled : Bool} {apiKey : Option (List Char)}
    (h : check (trim baseUrl) enabled apiKey = .ok ()) :
    save fate baseUrl model enabled apiKey =
      putAll fate (given baseUrl model enabled apiKey) >>= fun _ => view fate := by
  have hchecked : (ExceptT.mk (pure (Except.ok ())) : Access Unit) = pure () := rfl
  have hsettings : keyAiBaseUrl ≠ keyAiApiKey ∧ keyAiModel ≠ keyAiApiKey ∧
      keyAiEnabled ≠ keyAiApiKey := by decide
  cases apiKey with
  | none => simp [save, h, hchecked, given, putAll, put, hsettings]
  | some key => simp [save, h, hchecked, given, putAll, put, hsettings]

variable {baseUrl model : List Char} {enabled : Bool} {apiKey : Option (List Char)}

theorem run_save_refused (fate : Fate) (db : Db) (model : List Char) {error : CoreError}
    (h : check (trim baseUrl) enabled apiKey = .error error) :
    run (save fate baseUrl model enabled apiKey) db = (.error error, db) := by
  have hrefused : run (ExceptT.mk (pure (Except.error error)) : Access Unit) db =
      (.error error, db) := rfl
  rw [save, h, run_bind_error hrefused]

theorem run_save_ok (h : check (trim baseUrl) enabled apiKey = .ok ())
    (hall : ∀ w ∈ given baseUrl model enabled apiKey, Passes fate w) (db : Db) :
    ∃ v, run (save fate baseUrl model enabled apiKey) db =
      (.ok v, store (given baseUrl model enabled apiKey) db) := by
  obtain ⟨v, hv⟩ := run_view fate (store (given baseUrl model enabled apiKey) db)
  exact ⟨v, by rw [save_eq h, run_bind_ok (run_putAll hall), hv]⟩

theorem run_save_error (h : check (trim baseUrl) enabled apiKey = .ok ())
    {before after : List (String × List Char)} {w : String × List Char}
    (hws : given baseUrl model enabled apiKey = before ++ w :: after)
    (hbefore : ∀ x ∈ before, Passes fate x) (hw : ¬ Passes fate w) (db : Db) :
    ∃ error, run (save fate baseUrl model enabled apiKey) db = (.error error, store before db) := by
  obtain ⟨error, herror⟩ := run_putAll_error hbefore hw after db
  exact ⟨error, by rw [save_eq h, hws, run_bind_error herror]⟩

/-- An enabled translation passes the checks with an address, and with no key but a blank one
missing. -/
theorem check_enabled (h : check (trim baseUrl) true apiKey = .ok ()) :
    trim baseUrl ≠ [] ∧ apiKey.map trim ≠ some [] := by
  rw [check, Bool.true_and] at h
  by_cases hrefused : (decide (trim baseUrl = []) || decide (apiKey.map trim = some [])) = true
  · rw [if_pos hrefused] at h
    by_cases hne : trim baseUrl ≠ []
    · rw [if_pos hne] at h
      cases hv : Ai.validateEndpoint (trim baseUrl) <;> rw [hv] at h <;> cases h
    · rw [if_neg hne] at h
      cases h
  · simpa using hrefused

theorem given_ne_key (h : apiKey = none) :
    ∀ w ∈ given baseUrl model enabled apiKey, w.1 ≠ keyAiApiKey := by
  have hsettings : keyAiBaseUrl ≠ keyAiApiKey ∧ keyAiModel ≠ keyAiApiKey ∧
      keyAiEnabled ≠ keyAiApiKey := by decide
  subst h
  simp [given, hsettings]

/-- What an enabled translation is given is usable, with the key it is given or one stored. -/
theorem usable_store (henabled : enabled = true)
    (hcheck : check (trim baseUrl) enabled apiKey = .ok ())
    (hkeyed : apiKey = none → ∃ key, db keyAiApiKey = some key ∧ trim key ≠ []) :
    Usable (store (given baseUrl model enabled apiKey) db) := by
  have hnodup := nodup_given baseUrl model enabled apiKey
  rw [henabled] at hcheck
  obtain ⟨hbase, hkey⟩ := check_enabled hcheck
  have haddress : (keyAiBaseUrl, trim baseUrl) ∈ given baseUrl model enabled apiKey := by
    simp [given]
  refine ⟨⟨_, store_of_mem hnodup haddress db, by rwa [trim_trim]⟩, ?_⟩
  cases apiKey with
  | none =>
      obtain ⟨key, hstored, hne⟩ := hkeyed rfl
      exact ⟨key, by rw [store_of_not_mem (given_ne_key rfl), hstored], hne⟩
  | some key =>
      have hmem : (keyAiApiKey, trim key) ∈ given baseUrl model enabled (some key) := by
        simp [given]
      exact ⟨_, store_of_mem hnodup hmem db, by rw [trim_trim]; simpa using hkey⟩

/-- **A save stores everything or nothing**, and leaves an enabled translation usable, when and
only when what it writes before a failing write is stored already, and a key is given or stored
already. -/
theorem saves_whole_iff (fate : Fate) (db : Db) (baseUrl model : List Char) (enabled : Bool)
    (apiKey : Option (List Char)) :
    SavesWhole fate db baseUrl model enabled apiKey ↔
      Sound fate db baseUrl model enabled apiKey := by
  cases hcheck : check (trim baseUrl) enabled apiKey with
  | error error =>
      have hrun := run_save_refused fate db model hcheck
      constructor
      · intro _ hok
        rw [hcheck] at hok
        cases hok
      · intro _
        refine ⟨?_, ?_, ?_⟩ <;> intro x db' hx <;> rw [hrun] at hx <;> cases hx
        rfl
  | ok =>
      have hnodup := nodup_given baseUrl model enabled apiKey
      constructor
      · intro h _
        refine ⟨fun before w after hws hbefore hw => ?_, fun hall henabled hkey => ?_⟩
        · obtain ⟨error, hrun⟩ := run_save_error hcheck hws hbefore hw db
          rw [hws, List.map_append] at hnodup
          exact (store_eq_self_iff hnodup.of_append_left).mp (h.unchanged error _ hrun)
        · obtain ⟨v, hrun⟩ := run_save_ok hcheck hall db
          obtain ⟨-, key, hstored, hne⟩ := h.usable v _ hrun henabled
          refine ⟨key, ?_, hne⟩
          rw [← hstored, store_of_not_mem (given_ne_key hkey)]
      · intro h
        obtain ⟨hharmless, hkeyed⟩ := h hcheck
        rcases passes_or_fails fate (given baseUrl model enabled apiKey) with
          hall | ⟨before, w, after, hws, hbefore, hw⟩
        · obtain ⟨v, hrun⟩ := run_save_ok hcheck hall db
          refine ⟨fun v db' hx => ?_, fun error db' hx => ?_, fun v db' hx henabled => ?_⟩ <;>
            rw [hrun] at hx <;> cases hx
          · exact ⟨fun w hw => store_of_mem hnodup hw db, fun key hkey => store_of_not_mem hkey⟩
          · exact usable_store henabled hcheck (hkeyed hall henabled)
        · obtain ⟨error, hrun⟩ := run_save_error hcheck hws hbefore hw db
          refine ⟨?_, ?_, ?_⟩ <;> intro x db' hx <;> rw [hrun] at hx <;> cases hx
          rw [hws, List.map_append] at hnodup
          exact (store_eq_self_iff hnodup.of_append_left).mpr
            (hharmless before w after hws hbefore hw)

/-- A model with a blank in its name is refused after the address is stored. -/
theorem address_stored_before_error :
    ¬ ∀ (fate : Fate) (db : Db) (baseUrl model : List Char) (enabled : Bool)
      (apiKey : Option (List Char)), SavesWhole fate db baseUrl model enabled apiKey := by
  intro h
  have hsame := (h .fine (fun _ => none) "https://a".toList "a b".toList false none).unchanged
    _ _ rfl
  exact absurd (congrFun hsame keyAiBaseUrl) (by decide)

end RevBox.AiSettings
