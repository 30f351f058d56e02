import RevBox.Desktop.AiEndpoint
import RevBox.Support.Split
import RevBox.Support.Text
import Mathlib.Logic.Function.Basic

/-!
# Desktop — ConfigService

The settings of the desktop (`services/config_service.rs`): which keys there are, which values each
may have, and the reads and writes of the table they are stored in (`db/config_repo.rs`).  The
database may fail at any of them, and changes nothing then.

* `run_set`, `run_setSecret`, `run_get`, `run_getSecret`: what each does.
-/

namespace RevBox.Config

open Text

/-! ### The keys -/

def keyTheme := "app.settings.theme"
def keyLogLevel := "app.settings.log_level"
def keyAdbPath := "app.adb.path"
def keyAgentPath := "app.agent.path"
def keyAgentAutoConnect := "app.agent.auto_connect"
def keyAgentConsentSerials := "app.agent.consent_serials"
def keyPluginCallTimeoutMs := "app.plugins.call_timeout_ms"
def keyPluginMaxPayloadKb := "app.plugins.max_payload_kb"
def keyPythonPath := "app.python.path"
def keyNodePath := "app.node.path"
def keyIdaMcpPort := "app.tools.ida_mcp_port"
def keyJadxMcpPort := "app.tools.jadx_mcp_port"
def keyLocale := "app.settings.locale"
def keyHookWorkdir := "app.hook.workdir"
def keyFridaTypesDir := "app.hook.frida_types_dir"
def keyAiBaseUrl := "app.ai.base_url"
def keyAiApiKey := "app.ai.api_key"
def keyAiModel := "app.ai.model"
def keyAiEnabled := "app.ai.enabled"
def keyNetProxy := "app.net.proxy"

/-! ### The validators -/

/-- `str::len`. -/
def byteLen (s : List Char) : Nat := (String.ofList s).utf8ByteSize

/-- `char::is_control`. -/
def isControl (c : Char) : Bool := c.toNat < 0x20 || (0x7F ≤ c.toNat && c.toNat ≤ 0x9F)

/-- The value is one of a few words. -/
def isOneOf (words : List String) (v : List Char) : Bool := (words.map String.toList).contains v

/-- `is_valid_locale`. -/
def isValidLocale : List Char → Bool := isOneOf ["zh-CN", "en", "ru", "pt-BR", "ja"]

/-- `is_valid_theme`. -/
def isValidTheme : List Char → Bool := isOneOf ["light", "dark", "system"]

/-- `is_valid_ai_model`. -/
def isValidAiModel (value : List Char) : Bool :=
  let value := trim value
  value = [] || (byteLen value ≤ 120 && !value.any Ai.isAsciiWhitespace)

/-- `is_valid_bool`. -/
def isValidBool : List Char → Bool := isOneOf ["true", "false"]

/-- `is_valid_proxy`. -/
def isValidProxy (v : List Char) : Bool :=
  let value := trim v
  if value = [] then true
  else if 512 < byteLen value || value.any (fun c => isWhitespace c || isControl c) then false
  else
    let withScheme := if contains "://".toList value then value else "http://".toList ++ value
    match Split.splitOnce "://".toList withScheme with
    | none => false
    | some (scheme, rest) =>
        isOneOf ["http", "https", "socks5", "socks5h"] (Ai.toAsciiLowercase scheme) &&
          (rest ≠ [] && !rest.contains '/' && !rest.contains '?' && !rest.contains '#')

/-- A character of a serial number. -/
def isSerialChar (c : Char) : Bool := isAsciiAlphanumeric c || ['-', '_', '.', ':'].contains c

/-- One serial number of a list. -/
def isValidSerialItem (item : List Char) : Bool :=
  let item := trim item
  item ≠ [] && byteLen item ≤ 128 && item.all isSerialChar

/-- `is_valid_serial_list`. -/
def isValidSerialList (value : List Char) : Bool :=
  if 2000 ≤ byteLen value || value.contains '\n' || value.contains '\x00' then false
  else if value = [] then true
  else (value.splitOn ',').all isValidSerialItem

/-- `is_valid_log_level`. -/
def isValidLogLevel : List Char → Bool := isOneOf ["trace", "debug", "info", "warn", "error"]

/-- `is_valid_path`. -/
def isValidPath (v : List Char) : Bool := byteLen v < 1000 && !v.any fun c => c = '\n' || c = '\x00'

/-- A number in a range. -/
def isNumberIn (least most : Nat) (v : List Char) : Bool :=
  match parseUnsigned (2 ^ 64) v with
  | some n => least ≤ n && n ≤ most
  | none => false

/-- `is_valid_timeout_ms`. -/
def isValidTimeoutMs : List Char → Bool := isNumberIn 100 600000

/-- `is_valid_payload_kb`. -/
def isValidPayloadKb : List Char → Bool := isNumberIn 1 65536

/-- `is_valid_port`. -/
def isValidPort (v : List Char) : Bool := (parseUnsigned (2 ^ 16) v).isSome

/-- `ALLOWED_KEYS`. -/
def allowedKeys : List (String × (List Char → Bool)) :=
  [(keyTheme, isValidTheme), (keyLogLevel, isValidLogLevel), (keyAdbPath, isValidPath),
    (keyAgentPath, isValidPath), (keyAgentAutoConnect, isValidBool),
    (keyAgentConsentSerials, isValidSerialList), (keyPluginCallTimeoutMs, isValidTimeoutMs),
    (keyPluginMaxPayloadKb, isValidPayloadKb), (keyPythonPath, isValidPath),
    (keyNodePath, isValidPath), (keyIdaMcpPort, isValidPort), (keyJadxMcpPort, isValidPort),
    (keyLocale, isValidLocale), (keyHookWorkdir, isValidPath), (keyFridaTypesDir, isValidPath),
    (keyNetProxy, isValidProxy), (keyAiBaseUrl, Ai.isValidAiBaseUrl),
    (keyAiModel, isValidAiModel), (keyAiEnabled, isValidBool)]

/-! ### The table -/

/-- `app_settings`. -/
abbrev Db := String → Option (List Char)

/-- Which operations of the database fail, and with what. -/
structure Fate where
  reading : String → Option CoreError
  writing : String → Option CoreError

/-- The database is well. -/
def Fate.fine : Fate := ⟨fun _ => none, fun _ => none⟩

/-- What a service does with the table. -/
abbrev Access := ExceptT CoreError (StateM Db)

variable (fate : Fate)

/-- `config_repo::get`. -/
def repoGet (key : String) : Access (Option (List Char)) :=
  match fate.reading key with
  | some error => throw error
  | none => do return (← getThe Db) key

/-- `config_repo::set`. -/
def repoSet (key : String) (value : List Char) : Access Unit :=
  match fate.writing key with
  | some error => throw error
  | none => modifyThe Db fun db => Function.update db key (some value)

/-- `check_key_allowed`. -/
def checkKeyAllowed (key : String) : Access Unit :=
  if allowedKeys.any fun entry => entry.1 == key then return
  else throw (.internal s!"未注册的配置键: {key}")

/-- The value passes the validator of its key. -/
def isValid (key : String) (value : List Char) : Bool :=
  match allowedKeys.find? fun entry => entry.1 == key with
  | some entry => entry.2 value
  | none => false

/-- `ConfigService::get`. -/
def get (key : String) (default : List Char) : Access (List Char) := do
  checkKeyAllowed key
  return (← repoGet fate key).getD default

/-- `ConfigService::set`. -/
def set (key : String) (value : List Char) : Access Unit := do
  checkKeyAllowed key
  if isValid key value then repoSet fate key value
  else throw (.internal s!"非法的配置值: {key}={String.ofList value}")

/-- `ConfigService::get_secret`. -/
def getSecret (key : String) (default : List Char) : Access (List Char) := do
  return (← repoGet fate key).getD default

/-- `ConfigService::set_secret`. -/
def setSecret (key : String) (value : List Char) : Access Unit := do
  if trim key.toList = [] then throw (.internal "敏感键名不能为空")
  repoSet fate key value

/-! ### What they do -/

variable {α β : Type} {db db' : Db} {key : String} {value : List Char} {fate}

/-- What is returned, and the table that is left. -/
def run (p : Access α) (db : Db) : Except CoreError α × Db := StateT.run (ExceptT.run p) db

@[simp] theorem run_pure (a : α) : run (pure a) db = (.ok a, db) := rfl

@[simp] theorem run_throw (error : CoreError) :
    run (throw error : Access α) db = (.error error, db) := rfl

theorem run_bind_ok {p : Access α} {a : α} (h : run p db = (.ok a, db')) (f : α → Access β) :
    run (p >>= f) db = run (f a) db' := by
  simp only [run, ExceptT.run_bind, StateT.run_bind] at h ⊢
  rw [h]
  rfl

theorem run_bind_error {p : Access α} {error : CoreError} (h : run p db = (.error error, db'))
    (f : α → Access β) : run (p >>= f) db = (.error error, db') := by
  simp only [run, ExceptT.run_bind, StateT.run_bind] at h ⊢
  rw [h]
  rfl

/-- The value is written: it is valid and the database is well. -/
def Accepts (fate : Fate) (key : String) (value : List Char) : Prop :=
  isValid key value = true ∧ fate.writing key = none

theorem run_repoGet (h : fate.reading key = none) : run (repoGet fate key) db = (.ok (db key), db) := by
  simp only [repoGet, h]
  rfl

theorem run_repoGet_error {error : CoreError} (h : fate.reading key = some error) :
    run (repoGet fate key) db = (.error error, db) := by
  simp only [repoGet, h]
  rfl

theorem run_repoSet (h : fate.writing key = none) :
    run (repoSet fate key value) db = (.ok (), Function.update db key (some value)) := by
  simp only [repoSet, h]
  rfl

theorem run_repoSet_error {error : CoreError} (h : fate.writing key = some error) :
    run (repoSet fate key value) db = (.error error, db) := by
  simp only [repoSet, h]
  rfl

theorem run_checkKeyAllowed (h : (allowedKeys.any fun entry => entry.1 == key) = true) :
    run (checkKeyAllowed key) db = (.ok (), db) := by
  simp only [checkKeyAllowed, h, if_true]
  rfl

theorem isValid_allowed (h : isValid key value = true) :
    (allowedKeys.any fun entry => entry.1 == key) = true := by
  unfold isValid at h
  split at h
  · rename_i entry hfind
    exact List.any_eq_true.mpr
      ⟨entry, List.mem_of_find?_eq_some hfind, by simpa using List.find?_some hfind⟩
  · cases h

/-- What is accepted is stored. -/
theorem run_set (h : Accepts fate key value) :
    run (set fate key value) db = (.ok (), Function.update db key (some value)) := by
  rw [set, run_bind_ok (run_checkKeyAllowed (isValid_allowed h.1)), if_pos h.1, run_repoSet h.2]

/-- What is not accepted changes nothing. -/
theorem run_set_error (h : ¬ Accepts fate key value) (db : Db) :
    ∃ error, run (set fate key value) db = (.error error, db) := by
  by_cases hallowed : (allowedKeys.any fun entry => entry.1 == key) = true
  · rw [set, run_bind_ok (run_checkKeyAllowed hallowed)]
    by_cases hvalid : isValid key value = true
    · rw [if_pos hvalid]
      obtain ⟨error, herror⟩ := Option.ne_none_iff_exists'.mp fun hw => h ⟨hvalid, hw⟩
      exact ⟨error, run_repoSet_error herror⟩
    · exact ⟨_, by rw [if_neg hvalid, run_throw]⟩
  · have hrefused : run (checkKeyAllowed key) db =
        (.error (.internal s!"未注册的配置键: {key}"), db) := by
      rw [checkKeyAllowed, if_neg hallowed, run_throw]
    exact ⟨_, by rw [set, run_bind_error hrefused]⟩

theorem run_setSecret (hkey : trim key.toList ≠ []) (h : fate.writing key = none) :
    run (setSecret fate key value) db = (.ok (), Function.update db key (some value)) := by
  simp only [setSecret, hkey, if_false]
  exact run_repoSet h

theorem run_setSecret_error {error : CoreError} (hkey : trim key.toList ≠ [])
    (h : fate.writing key = some error) :
    run (setSecret fate key value) db = (.error error, db) := by
  simp only [setSecret, hkey, if_false]
  exact run_repoSet_error h

/-- Reading changes nothing. -/
theorem run_repoGet_state : (run (repoGet fate key) db).2 = db := by
  cases h : fate.reading key with
  | none => rw [run_repoGet h]
  | some error => rw [run_repoGet_error h]

theorem run_bind_state {p : Access α} {f : α → Access β} (hp : (run p db).2 = db)
    (hf : ∀ a, (run (f a) db).2 = db) : (run (p >>= f) db).2 = db := by
  obtain ⟨result, db', hrun⟩ : ∃ result db', run p db = (result, db') := ⟨_, _, rfl⟩
  rw [hrun] at hp
  cases hp
  cases result with
  | error error => rw [run_bind_error hrun]
  | ok a => rw [run_bind_ok hrun, hf]

theorem run_getSecret_state {default : List Char} :
    (run (getSecret fate key default) db).2 = db :=
  run_bind_state run_repoGet_state fun _ => rfl

theorem run_get_state {default : List Char} : (run (get fate key default) db).2 = db := by
  refine run_bind_state ?_ fun _ => run_bind_state run_repoGet_state fun _ => rfl
  unfold checkKeyAllowed
  split_ifs <;> rfl

theorem run_get (hkey : (allowedKeys.any fun entry => entry.1 == key) = true)
    (h : fate.reading key = none) {default : List Char} :
    run (get fate key default) db = (.ok ((db key).getD default), db) := by
  rw [get, run_bind_ok (run_checkKeyAllowed hkey), run_bind_ok (run_repoGet h), run_pure]

theorem run_get_error (hkey : (allowedKeys.any fun entry => entry.1 == key) = true)
    {error : CoreError} (h : fate.reading key = some error) {default : List Char} :
    run (get fate key default) db = (.error error, db) := by
  rw [get, run_bind_ok (run_checkKeyAllowed hkey), run_bind_error (run_repoGet_error h)]

theorem run_caught_ok {p handled : Access α} {a : α} (h : run p db = (.ok a, db')) :
    run (tryCatch p fun _ => handled) db = (.ok a, db') := by
  simp only [run, tryCatch, tryCatchThe, MonadExceptOf.tryCatch, ExceptT.tryCatch, ExceptT.run_mk,
    StateT.run_bind] at h ⊢
  rw [show StateT.run p db = (.ok a, db') from h]
  rfl

theorem run_caught_error {p handled : Access α} {error : CoreError}
    (h : run p db = (.error error, db')) :
    run (tryCatch p fun _ => handled) db = run handled db' := by
  simp only [run, tryCatch, tryCatchThe, MonadExceptOf.tryCatch, ExceptT.tryCatch, ExceptT.run_mk,
    StateT.run_bind] at h ⊢
  rw [show StateT.run p db = (.error error, db') from h]
  rfl

/-- A reading whose error is caught. -/
theorem run_caught {p : Access α} {a : α} (h : (run p db).2 = db) :
    ∃ b, run (tryCatch p fun _ => pure a) db = (.ok b, db) := by
  obtain ⟨result, db', hrun⟩ : ∃ result db', run p db = (result, db') := ⟨_, _, rfl⟩
  rw [hrun] at h
  obtain rfl : db = db' := h.symm
  cases result with
  | error error => exact ⟨a, run_caught_error hrun⟩
  | ok b => exact ⟨b, run_caught_ok hrun⟩

end RevBox.Config
