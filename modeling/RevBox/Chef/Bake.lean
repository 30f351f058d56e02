import RevBox.Chef.Formats
import RevBox.Support.Pipeline

/-!
# Chef — Bake

`services/chef/mod.rs` and `services/chef/spec.rs`: the registry of operations and
`ChefService::bake`, which runs a recipe step by step.

* `bake_composes`: a baked recipe is its parts baked one after the other, and fails cleanly.
-/

namespace RevBox.Chef

/-- `ArgKind`, with the default as the text `fill_defaults` makes of it. -/
inductive ArgKind where
  | text (default : String)
  | bool (default : Bool)
  | number (default : Nat)
  | choice (default : String) (options : List String)

/-- The default of an argument. -/
def ArgKind.default : ArgKind → String
  | .text default => default
  | .bool default => if default then "true" else "false"
  | .number default => toString default
  | .choice default _ => default

/-- `ArgSpec`. -/
structure ArgSpec where
  name : String
  kind : ArgKind

/-- What comes of calling an operation inside `catch_unwind`. -/
inductive Called where
  | returned (result : ChefResult ChefData)
  | panicked

/-- `OpEntry`. -/
structure OpEntry where
  id : String
  args : List ArgSpec
  run : ChefData → Args → Called

/-- `find`. -/
def find (registry : List OpEntry) (id : String) : Option OpEntry :=
  registry.find? fun entry => entry.id = id

/-- `fill_defaults`. -/
def fillDefaults (entry : OpEntry) (given : Args) : Args :=
  entry.args.foldl
    (fun out arg => out.insert arg.name ((given.get arg.name).getD arg.kind.default)) ⟨[]⟩

/-- `unknown_operation`. -/
def unknownOperation (id : String) : ChefError :=
  ⟨s!"没有这个算法：{id}（清单可能在两侧不同步，重新加载页面试试）"⟩

/-- `MAX_INPUT_BYTES`. -/
def maxInputBytes : Nat := 8 * 1024 * 1024

/-- `MAX_STEP_BYTES`. -/
def maxStepBytes : Nat := 64 * 1024 * 1024

/-- `MAX_STEPS`. -/
def maxSteps : Nat := 128

/-- `INPUT_ENCODINGS`. -/
def inputEncodings : List String := ["utf8", "hex", "base64", "base64url", "decimal"]

/-- `ChefStepInput`. -/
structure ChefStepInput where
  id : String
  args : Args

/-- `ChefBakeRequest`. -/
structure ChefBakeRequest where
  input : List Char
  inputEncoding : Option String
  recipe : List ChefStepInput

/-- `ChefStepResult`. -/
structure ChefStepResult where
  id : String
  ok : Bool
  bytes : Nat
  utf8 : Bool
  preview : List Char
  error : Option String
  deriving DecidableEq

/-- `ChefBakeResult`. -/
structure ChefBakeResult where
  ok : Bool
  output : List Char
  outputBytes : Nat
  outputUtf8 : Bool
  outputHex : List Char
  outputBase64 : List Char
  steps : List ChefStepResult
  failedAt : Option Nat
  inputBytes : Nat

/-- `seed_input`. -/
def seedInput (base64 : Engines) (text : List Char) (encoding : String) : ChefResult ChefData :=
  match encoding with
  | "utf8" => .ok (.fromText text)
  | "hex" => (hexDecode text).map ChefData.mk
  | "base64" => (b64Decode base64 text false false).map ChefData.mk
  | "base64url" => (b64Decode base64 text true false).map ChefData.mk
  | "decimal" => (readByFormat base64 (.fromText text) "decimal").map ChefData.mk
  | other => .error (fail s!"未知的输入格式「{other}」")

/-- `preview`. -/
def preview (data : ChefData) : List Char :=
  let text := data.textLossy
  let out := text.take 160
  if text.length > 160 then out ++ ['…'] else out

/-- The record of a step that fails on the bytes it was given. -/
def failedRecord (id : String) (current : ChefData) (message : String) : ChefStepResult :=
  ⟨id, false, current.len, current.isUtf8, preview current, some message⟩

/-- The text of the error of a step that produced too much. -/
def oversized (index bytes : Nat) : String :=
  s!"第 {index + 1} 步产出 {bytes} 字节，超过上限 {maxStepBytes} 字节（可能是压缩炸弹）"

/-- One turn of the loop of `bake`. -/
def bakeStep (registry : List OpEntry) (index : Nat) (current : ChefData) (step : ChefStepInput) :
    Pipeline.Outcome ChefData ChefStepResult :=
  match find registry step.id with
  | none => .stopped (failedRecord step.id current (unknownOperation step.id).message)
  | some entry =>
      match entry.run current (fillDefaults entry step.args) with
      | .returned (.ok next) =>
          if next.len > maxStepBytes then
            .stopped ⟨step.id, false, next.len, false, [], some (oversized index next.len)⟩
          else .passed next ⟨step.id, true, next.len, next.isUtf8, preview next, none⟩
      | .returned (.error error) => .stopped (failedRecord step.id current error.message)
      | .panicked => .stopped (failedRecord step.id current
          "算法内部异常（已按这一步的失败处理，请报告这个配方）")

/-- The loop of `bake`: a recipe run from these bytes. -/
def runSteps (registry : List OpEntry) (seeded : ChefData) (recipe : List ChefStepInput) :
    Pipeline.Run ChefData ChefStepResult :=
  Pipeline.run (bakeStep registry) 0 seeded recipe

/-- What `bake` returns of a run. -/
def resultOf (base64 : Engines) (inputBytes : Nat)
    (run : Pipeline.Run ChefData ChefStepResult) : ChefBakeResult where
  ok := run.failedAt.isNone
  output := run.current.textLossy
  outputBytes := run.current.len
  outputUtf8 := run.current.isUtf8
  outputHex := hexEncode run.current.bytes false []
  outputBase64 := b64Encode base64 run.current.bytes false true
  steps := run.records
  failedAt := run.failedAt
  inputBytes := inputBytes

/-- `ChefService::bake`. -/
def bake (base64 : Engines) (registry : List OpEntry) (request : ChefBakeRequest) :
    ChefResult ChefBakeResult := do
  if request.recipe.length > maxSteps then
    throw (fail s!"配方最多 {maxSteps} 步，当前 {request.recipe.length} 步")
  let encoding := request.inputEncoding.getD "utf8"
  if encoding ∉ inputEncodings then throw (fail s!"未知的输入格式「{encoding}」")
  let seeded ← seedInput base64 request.input encoding
  let inputBytes := seeded.len
  if inputBytes > maxInputBytes then
    throw (fail
      s!"输入 {inputBytes} 字节，超过上限 {maxInputBytes} 字节。把要处理的内容切一段进来")
  pure (resultOf base64 inputBytes (runSteps registry seeded request.recipe))

/-! ### What one step leaves -/

variable {base64 : Engines} {registry : List OpEntry} {request : ChefBakeRequest} {seeded : ChefData}

/-- A step that passes is recorded as done, one that stops as failed. -/
theorem bakeStep_records : Pipeline.Records (bakeStep registry)
    (fun record => record.ok = true) fun record => record.ok = false := by
  intro index current step
  unfold bakeStep
  split
  · exact ⟨fun _ _ h => (by cases h), fun _ h => by cases h; rfl⟩
  · split
    · split
      · exact ⟨fun _ _ h => (by cases h), fun _ h => by cases h; rfl⟩
      · exact ⟨fun _ _ h => by cases h; rfl, fun _ h => (by cases h)⟩
    · exact ⟨fun _ _ h => (by cases h), fun _ h => by cases h; rfl⟩
    · exact ⟨fun _ _ h => (by cases h), fun _ h => by cases h; rfl⟩

/-- The same record, but for the place that the error of a step too large names: it is counted from
the start of the recipe. -/
def Renumbered (n : Nat) (record whole : ChefStepResult) : Prop :=
  whole = record ∨ ∃ index bytes, record.error = some (oversized index bytes) ∧
    whole = { record with error := some (oversized (n + index) bytes) }

theorem bakeStep_similar (n index : Nat) (current : ChefData) (step : ChefStepInput) :
    Pipeline.Similar (Renumbered n) (bakeStep registry index current step)
      (bakeStep registry (n + index) current step) := by
  unfold bakeStep
  split
  · exact .stopped (.inl rfl)
  · split
    · split
      · exact .stopped (.inr ⟨index, _, rfl, rfl⟩)
      · exact .passed _ (.inl rfl)
    · exact .stopped (.inl rfl)
    · exact .stopped (.inl rfl)

/-! ### Whole recipes -/

/-- The request of another recipe on the same input. -/
def ChefBakeRequest.withRecipe (request : ChefBakeRequest) (recipe : List ChefStepInput) :
    ChefBakeRequest :=
  { request with recipe := recipe }

/-- The input of a request is within the limit, and becomes these bytes. -/
structure Seeded (base64 : Engines) (request : ChefBakeRequest) (seeded : ChefData) : Prop where
  encoding : request.inputEncoding.getD "utf8" ∈ inputEncodings
  read : seedInput base64 request.input (request.inputEncoding.getD "utf8") = .ok seeded
  small : seeded.len ≤ maxInputBytes

theorem bake_eq (h : Seeded base64 request seeded) (hlen : request.recipe.length ≤ maxSteps) :
    bake base64 registry request =
      .ok (resultOf base64 seeded.len (runSteps registry seeded request.recipe)) := by
  have hencoding := h.encoding
  simp only [bake, if_neg (Nat.not_lt.mpr hlen), hencoding, not_true_eq_false, if_false, h.read,
    if_neg (Nat.not_lt.mpr h.small), bind, Except.bind, pure, Except.pure]

/-- The outputs of a result are these bytes, in every notation. -/
structure Encodes (base64 : Engines) (result : ChefBakeResult) (data : ChefData) : Prop where
  output : result.output = data.textLossy
  outputBytes : result.outputBytes = data.len
  outputUtf8 : result.outputUtf8 = data.isUtf8
  outputHex : result.outputHex = hexEncode data.bytes false []
  outputBase64 : result.outputBase64 = b64Encode base64 data.bytes false true

theorem encodes_resultOf (n : Nat) (run : Pipeline.Run ChefData ChefStepResult) :
    Encodes base64 (resultOf base64 n run) run.current := ⟨rfl, rfl, rfl, rfl, rfl⟩

/-- A result is that of a recipe followed by that of a second one on the bytes of the first. -/
structure Composed (base64 : Engines) (registry : List OpEntry) (first : ChefBakeResult)
    (reached : ChefData) (count : Nat) (rest : List ChefStepInput) (whole : ChefBakeResult) :
    Prop where
  steps : ∃ records, whole.steps = first.steps ++ records ∧
    List.Forall₂ (Renumbered count) (runSteps registry reached rest).records records
  failedAt : whole.failedAt = (runSteps registry reached rest).failedAt.map (count + ·)
  output : Encodes base64 whole (runSteps registry reached rest).current

/-- A result is that of a recipe that failed at a step. -/
structure Failed (base64 : Engines) (registry : List OpEntry) (request : ChefBakeRequest)
    (seeded : ChefData) (failed : Nat) (result : ChefBakeResult) : Prop where
  /-- The steps before it were run, all of them well, and it was run after them. -/
  place : failed < request.recipe.length
  steps : ∃ records last, result.steps = records ++ [last] ∧ records.length = failed ∧
    (∀ record ∈ records, record.ok = true) ∧ last.ok = false
  /-- The output is what the step before it produced. -/
  before : (runSteps registry seeded (request.recipe.take failed)).failedAt = none
  output : Encodes base64 result (runSteps registry seeded (request.recipe.take failed)).current
  /-- No later step has any part in it. -/
  alone : ∀ later, ((request.recipe.take (failed + 1)) ++ later).length ≤ maxSteps →
    bake base64 registry (request.withRecipe (request.recipe.take (failed + 1) ++ later)) = .ok result

theorem bake_append {first rest : List ChefStepInput}
    (hsplit : request.recipe = first ++ rest)
    (hpassed : (runSteps registry seeded first).failedAt = none) :
    Composed base64 registry (resultOf base64 seeded.len (runSteps registry seeded first))
      (runSteps registry seeded first).current first.length rest
      (resultOf base64 seeded.len (runSteps registry seeded request.recipe)) := by
  have happend := Pipeline.run_append rest hpassed
  obtain ⟨hrecords, hfailed, hcurrent⟩ := Pipeline.run_shift (bakeStep_similar first.length) 0
    (runSteps registry seeded first).current rest
  have hplace : first.length + 0 = 0 + first.length := Nat.add_comm _ _
  rw [hplace] at hrecords hfailed hcurrent
  have hrun : runSteps registry seeded request.recipe = (runSteps registry seeded first).andThen
      (Pipeline.run (bakeStep registry) (0 + first.length) (runSteps registry seeded first).current
        rest) := by
    rw [hsplit]
    exact happend
  refine ⟨⟨_, by rw [hrun]; rfl, hrecords⟩, by rw [hrun]; exact hfailed, ?_⟩
  have hcur : (runSteps registry seeded request.recipe).current =
      (runSteps registry (runSteps registry seeded first).current rest).current := by
    rw [hrun]
    exact hcurrent
  rw [← hcur]
  exact encodes_resultOf _ _

theorem bake_failed (hseed : Seeded base64 request seeded) {failed : Nat}
    (hfailed : (runSteps registry seeded request.recipe).failedAt = some failed) :
    Failed base64 registry request seeded failed
      (resultOf base64 seeded.len (runSteps registry seeded request.recipe)) := by
  obtain ⟨k, hk, hplace, hbefore, hreached, hrecords, halone⟩ :=
    Pipeline.run_stopped bakeStep_records hfailed
  obtain rfl : failed = k := hk.trans (Nat.zero_add k)
  refine ⟨hplace, hrecords, hbefore, ?_, fun later hlater => ?_⟩
  · have hcur : (runSteps registry seeded request.recipe).current =
        (runSteps registry seeded (request.recipe.take failed)).current := hreached
    rw [← hcur]
    exact encodes_resultOf _ _
  · have hlater' := @bake_eq base64 registry (request.withRecipe
      (request.recipe.take (failed + 1) ++ later)) seeded ⟨hseed.1, hseed.2, hseed.3⟩ hlater
    refine hlater'.trans (congrArg (fun run => Except.ok (resultOf base64 seeded.len run)) ?_)
    exact halone later

/-- **A baked recipe is its parts baked one after the other, and fails cleanly.** -/
theorem bake_composes (hseed : Seeded base64 request seeded)
    (hlen : request.recipe.length ≤ maxSteps) : ∃ result,
      bake base64 registry request = .ok result ∧ (result.ok = true ↔ result.failedAt = none) ∧
      (∀ first rest, request.recipe = first ++ rest → ∀ alone,
        bake base64 registry (request.withRecipe first) = .ok alone → alone.failedAt = none →
          ∃ reached, Encodes base64 alone reached ∧
            Composed base64 registry alone reached first.length rest result) ∧
      ∀ failed, result.failedAt = some failed →
        Failed base64 registry request seeded failed result := by
  refine ⟨_, bake_eq hseed hlen, Option.isNone_iff_eq_none, fun first rest hsplit alone halone hpassed => ?_,
    fun failed hfailed => bake_failed hseed hfailed⟩
  have hfirst : first.length ≤ maxSteps := by
    refine Nat.le_trans ?_ hlen
    rw [hsplit, List.length_append]
    exact Nat.le_add_right _ _
  have heq := @bake_eq base64 registry (request.withRecipe first) seeded
    ⟨hseed.1, hseed.2, hseed.3⟩ hfirst
  obtain rfl := Except.ok.inj (halone.symm.trans heq)
  exact ⟨_, encodes_resultOf _ _, bake_append hsplit hpassed⟩

/-- An operation that hands its bytes on. -/
def keep : OpEntry := ⟨"keep", [], fun data _ => .returned (.ok data)⟩

/-- An operation that produces too much. -/
def inflate : OpEntry :=
  ⟨"inflate", [], fun _ _ => .returned (.ok ⟨List.replicate (maxStepBytes + 1) 0⟩)⟩

/-- A request of a recipe of operations without arguments, on the text `hi`. -/
def hiRequest (ids : List String) : ChefBakeRequest :=
  ⟨['h', 'i'], some "utf8", ids.map fun id => ⟨id, ⟨[]⟩⟩⟩

theorem hiRequest_seeded (ids : List String) :
    Seeded rfc4648 (hiRequest ids) (.fromText ['h', 'i']) :=
  ⟨List.mem_cons_self, rfl, by decide⟩

/-- A recipe that fails at its second step. -/
theorem bake_hi_composes : ∃ result, bake rfc4648 [keep] (hiRequest ["keep", "gone"]) = .ok result ∧
    (result.ok = true ↔ result.failedAt = none) :=
  let ⟨result, hbake, hok, _⟩ := bake_composes (hiRequest_seeded ["keep", "gone"]) (by decide)
  ⟨result, hbake, hok⟩

theorem bakeStep_inflate (index : Nat) (current : ChefData) :
    bakeStep [keep, inflate] index current ⟨"inflate", ⟨[]⟩⟩ = .stopped ⟨"inflate", false,
      maxStepBytes + 1, false, [], some (oversized index (maxStepBytes + 1))⟩ := by
  have hlen : (ChefData.mk (List.replicate (maxStepBytes + 1) 0)).len = maxStepBytes + 1 :=
    List.length_replicate
  have hfind : find [keep, inflate] "inflate" = some inflate := rfl
  have hcall : ∀ data args, inflate.run data args =
      .returned (.ok ⟨List.replicate (maxStepBytes + 1) 0⟩) := fun _ _ => rfl
  simp only [bakeStep, hfind, hcall, hlen, gt_iff_lt, Nat.lt_succ_self maxStepBytes, if_true]

/-- A step that produces too much is recorded under its place in the whole recipe. -/
theorem oversized_names_place : ∃ result alone,
    bake rfc4648 [keep, inflate] (hiRequest ["keep", "inflate"]) = .ok result ∧
    bake rfc4648 [keep, inflate] (hiRequest ["keep"]) = .ok alone ∧ alone.failedAt = none ∧
    Encodes rfc4648 alone (.fromText ['h', 'i']) ∧
    result.steps ≠ alone.steps ++ (runSteps [keep, inflate] (.fromText ['h', 'i'])
      [⟨"inflate", ⟨[]⟩⟩]).records := by
  refine ⟨_, _, bake_eq (hiRequest_seeded ["keep", "inflate"]) (by decide),
    bake_eq (hiRequest_seeded ["keep"]) (by decide), rfl, ⟨rfl, rfl, rfl, rfl, rfl⟩, ?_⟩
  have hkeep : bakeStep [keep, inflate] 0 (.fromText ['h', 'i']) ⟨"keep", ⟨[]⟩⟩ =
      .passed (.fromText ['h', 'i']) ⟨"keep", true, 2, (ChefData.fromText ['h', 'i']).isUtf8,
        preview (.fromText ['h', 'i']), none⟩ := rfl
  have hwhole : runSteps [keep, inflate] (.fromText ['h', 'i']) (hiRequest ["keep", "inflate"]).recipe =
      (Pipeline.Run.mk [_] none _).andThen _ :=
    Pipeline.run_cons_passed hkeep [⟨"inflate", ⟨[]⟩⟩]
  have hfirst : runSteps [keep, inflate] (.fromText ['h', 'i']) (hiRequest ["keep"]).recipe =
      (Pipeline.Run.mk [_] none _).andThen _ :=
    Pipeline.run_cons_passed hkeep []
  have hrest : ∀ index current, Pipeline.run (bakeStep [keep, inflate]) index current
      [⟨"inflate", ⟨[]⟩⟩] = _ :=
    fun index current => Pipeline.run_cons_stopped (bakeStep_inflate index current) []
  intro h
  have hsteps : ∀ n run, (resultOf rfc4648 n run).steps = run.records := fun _ _ => rfl
  rw [hsteps, hsteps, hwhole, hfirst, hrest, runSteps, hrest] at h
  have herror := congrArg (fun records => (records.getLast?.bind ChefStepResult.error)) h
  have hdiffer : oversized 1 (maxStepBytes + 1) ≠ oversized 0 (maxStepBytes + 1) := by decide
  exact hdiffer (Option.some.inj herror)

end RevBox.Chef
