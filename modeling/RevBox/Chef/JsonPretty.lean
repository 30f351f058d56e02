import RevBox.Chef.Data
import RevBox.Protocol.JsonGrammar

/-!
# Chef — JsonPretty

The operations `jsonBeautify` and `jsonMinify` of `services/chef/ops/format.rs`.

* `reads_writePretty`: a value printed with indentation is a text of that value.
* `json_preserved`: what comes back of a value, and of a text that is minified.

`serde_json::from_str` is a parameter: it reads the texts of the JSON grammar, with at most 127
levels of arrays and objects.
-/

namespace RevBox.Chef

open RevBox.Json

/-! ### The code -/

/-- `serde_json`'s reader: a value, or what its error says. -/
abbrev FromStr := List Char → Except String Value

/-- `parse_json`. -/
def parseJson (fromStr : FromStr) (data : ChefData) : ChefResult Value :=
  match data.text with
  | .error e => .error e
  | .ok text =>
      match fromStr (Text.trim text) with
      | .ok value => .ok value
      | .error e => .error (fail (s!"不是合法 JSON：{e}。" ++
          "JS 对象字面量（键没引号、带注释、带尾逗号）需要先手工改成标准 JSON"))

/-- `str::repeat`. -/
def indentation (pad : List Char) (n : Nat) : List Char := (List.replicate n pad).flatten

mutual

/-- `write_pretty`. -/
def writePretty (pad : List Char) (depth : Nat) : Value → List Char
  | .object [] => ['\x7b', '\x7d']
  | .object (f :: fields) =>
      '\x7b' :: '\n' :: (prettyFields pad (depth + 1) (f :: fields) ++
        '\n' :: (indentation pad depth ++ ['\x7d']))
  | .array [] => ['[', ']']
  | .array (v :: vs) =>
      '[' :: '\n' :: (prettyItems pad (depth + 1) (v :: vs) ++
        '\n' :: (indentation pad depth ++ [']']))
  | other => Json.render other

/-- The items of an array, each on a line of its own. -/
def prettyItems (pad : List Char) (depth : Nat) : List Value → List Char
  | [] => []
  | [v] => indentation pad depth ++ writePretty pad depth v
  | v :: vs => indentation pad depth ++ (writePretty pad depth v ++
      ',' :: '\n' :: prettyItems pad depth vs)

/-- The fields of an object, each on a line of its own. -/
def prettyFields (pad : List Char) (depth : Nat) : List (String × Value) → List Char
  | [] => []
  | [(k, v)] => indentation pad depth ++ (renderStr k ++ ':' :: ' ' :: writePretty pad depth v)
  | (k, v) :: fields => indentation pad depth ++ (renderStr k ++ ':' :: ' ' ::
      (writePretty pad depth v ++ ',' :: '\n' :: prettyFields pad depth fields))

end

/-- `json_beautify`. -/
def jsonBeautify (fromStr : FromStr) (data : ChefData) (args : Args) : ChefResult ChefData := do
  let value ← parseJson fromStr data
  let indent ← args.number "indent" 2
  let pad := List.replicate (min (max indent 1) 8) ' '
  return .fromText (writePretty pad 0 value)

/-- `json_minify`. -/
def jsonMinify (fromStr : FromStr) (data : ChefData) (_args : Args) : ChefResult ChefData := do
  let value ← parseJson fromStr data
  return .fromText (Json.render value)

/-! ### Printed values are texts of their values -/

variable {numeral : List Char → Number → Prop} {pad : List Char} {n depth : Nat} {v : Value}

/-- How `serde_json` reads and prints numbers: a number that it read is read from what it prints,
and no numeral is empty or has space in it. -/
structure Numerals (numeral : List Char → Number → Prop) : Prop where
  prints : ∀ t m, numeral t m → numeral (renderNumber m) m
  some_char : ∀ t m, numeral t m → t ≠ []
  no_space : ∀ t m, numeral t m → ∀ c ∈ t, Text.isWhitespace c = false

theorem blank_replicate (k : Nat) : Blank (List.replicate k ' ') := fun _ hc =>
  .inl (List.eq_of_mem_replicate hc)

theorem blank_indentation (hpad : Blank pad) (k : Nat) : Blank (indentation pad k) := by
  intro c hc
  obtain ⟨l, hl, hc⟩ := List.mem_flatten.mp hc
  exact hpad c (List.eq_of_mem_replicate hl ▸ hc)

theorem blank_nil : Blank [] := nofun

theorem blank_newline {w : List Char} (hw : Blank w) : Blank ('\n' :: w) := by
  intro c hc
  rcases List.mem_cons.mp hc with rfl | hc
  · exact .inr (.inr (.inl rfl))
  · exact hw c hc

theorem blank_space : Blank [' '] := fun _ hc => .inl (List.mem_singleton.mp hc)

theorem blank_append {w w' : List Char} (hw : Blank w) (hw' : Blank w') : Blank (w ++ w') := by
  intro c hc
  rcases List.mem_append.mp hc with hc | hc
  · exact hw c hc
  · exact hw' c hc

/-- The items of an array on lines of their own. -/
theorem readsItems_pretty (depth : Nat) (hpad : Blank pad) {w' : List Char} (hw' : Blank w') :
    ∀ {w : List Char} {v : Value} {vs : List Value}, Blank w →
      (∀ x ∈ v :: vs, Json.Reads numeral n (writePretty pad depth x) x) →
        ReadsItems numeral n (w ++ (prettyItems pad depth (v :: vs) ++ w')) (v :: vs)
  | w, v, [], hw, h => by
      have hread := ReadsItems.last (blank_append hw (blank_indentation hpad depth))
        (h v List.mem_cons_self) hw'
      rwa [List.append_assoc, ← List.append_assoc (indentation pad depth)] at hread
  | w, v, v' :: vs, hw, h => by
      have hrest := readsItems_pretty depth hpad hw' (blank_newline blank_nil)
        fun x hx => h x (List.mem_cons_of_mem v hx)
      have hread := ReadsItems.more (blank_append hw (blank_indentation hpad depth))
        (h v List.mem_cons_self) blank_nil hrest
      rw [List.append_assoc] at hread
      rw [prettyItems, List.append_assoc, List.append_assoc]
      · exact hread
      · exact nofun

/-- The fields of an object on lines of their own. -/
theorem readsFields_pretty (depth : Nat) (hpad : Blank pad) {w' : List Char} (hw' : Blank w') :
    ∀ {w : List Char} {f : String × Value} {fields : List (String × Value)}, Blank w →
      (∀ g ∈ f :: fields, Json.Reads numeral n (writePretty pad depth g.2) g.2) →
        ReadsFields numeral n (w ++ (prettyFields pad depth (f :: fields) ++ w')) (f :: fields)
  | w, (k, v), [], hw, h => by
      have hread := ReadsFields.last (blank_append hw (blank_indentation hpad depth))
        (literal_renderStr k) blank_nil blank_space (h _ List.mem_cons_self) hw'
      rw [List.append_assoc] at hread
      rw [prettyFields, List.append_assoc, List.append_assoc]
      exact hread
  | w, (k, v), f' :: fields, hw, h => by
      have hrest := readsFields_pretty depth hpad hw' (blank_newline blank_nil)
        fun g hg => h g (List.mem_cons_of_mem _ hg)
      have hread := ReadsFields.more (blank_append hw (blank_indentation hpad depth))
        (literal_renderStr k) blank_nil blank_space (h _ List.mem_cons_self) blank_nil
        hrest
      rw [List.append_assoc] at hread
      rw [prettyFields, List.append_assoc, List.append_assoc, List.cons_append, List.cons_append,
        List.append_assoc, List.cons_append, List.cons_append]
      · exact hread
      · exact nofun

/-- **A value printed with indentation** is a text of that value. -/
theorem reads_writePretty (hnum : Numerals numeral) (hpad : Blank pad) {n depth : Nat} {v : Value}
    (hkept : Kept numeral v) (hdepth : v.depth ≤ n) :
    Json.Reads numeral n (writePretty pad depth v) v := by
  induction hkept generalizing n depth with
  | null => exact .null
  | bool b =>
      cases b with
      | true => exact .true
      | false => exact .false
  | number h => exact .number (hnum.prints _ _ h)
  | string s => exact .string (literal_renderStr s)
  | @array xs h ih =>
      match n, hdepth with
      | n + 1, hdepth =>
          have hitems := Value.depthItems_le.mp (Nat.le_of_succ_le_succ hdepth)
          cases xs with
          | nil => exact .empty (w := []) nofun
          | cons v vs =>
              have hread := Json.Reads.array (readsItems_pretty (depth + 1) hpad
                (blank_newline (blank_indentation hpad depth)) (blank_newline blank_nil)
                fun x hx => ih x hx (hitems x hx))
              rw [List.append_assoc, List.append_assoc] at hread
              exact hread
  | @object fields horder h ih =>
      match n, hdepth with
      | n + 1, hdepth =>
          have hfields := Value.depthFields_le.mp (Nat.le_of_succ_le_succ hdepth)
          cases fields with
          | nil => exact .emptyObject (w := []) nofun
          | cons f fields =>
              have hread := Json.Reads.object (readsFields_pretty (depth + 1) hpad
                (blank_newline (blank_indentation hpad depth)) (blank_newline blank_nil)
                fun g hg => ih g hg (hfields g hg))
              rw [List.append_assoc, List.append_assoc, Value.ofFields_of_inOrder horder] at hread
              exact hread
/-! ### The operations -/

/-- A text with visible ends is not trimmed. -/
theorem trim_enclosed {c d : Char} (hc : Text.isWhitespace c = false)
    (hd : Text.isWhitespace d = false) (t : List Char) :
    Text.trim (c :: (t ++ [d])) = c :: (t ++ [d]) := by
  refine Text.trim_eq_self (fun _ => hc) fun h => ?_
  have hlast : (c :: (t ++ [d])).getLast h = d := List.getLast_append_singleton (c :: t)
  rw [hlast, hd]

/-- A text of a value is not trimmed. -/
theorem trim_of_reads (hnum : Numerals numeral) {t : List Char} (h : Json.Reads numeral n t v) :
    Text.trim t = t := by
  cases h with
  | null => rfl
  | true => rfl
  | false => rfl
  | number h => exact Text.trim_of_no_blank (hnum.no_space _ _ h)
  | string h =>
      obtain ⟨cs, rfl, -⟩ := h
      exact trim_enclosed (by decide) (by decide) cs
  | empty _ => exact trim_enclosed (by decide) (by decide) _
  | array _ => exact trim_enclosed (by decide) (by decide) _
  | emptyObject _ => exact trim_enclosed (by decide) (by decide) _
  | object _ => exact trim_enclosed (by decide) (by decide) _

/-- The levels of arrays and objects that `serde_json` reads. -/
def recursionLimit : Nat := 127

/-- `serde_json` reads a text as JSON has it, down to its limit. -/
def Conforms (numeral : List Char → Number → Prop) (fromStr : FromStr) (text : List Char) : Prop :=
  ∀ v, fromStr text = .ok v ↔ ReadsText numeral recursionLimit text v

/-- The indentation of a width. -/
def spaces (k : Nat) : List Char := List.replicate k ' '

theorem readsText_writePretty (hnum : Numerals numeral) {k : Nat} (hkept : Kept numeral v)
    (hdepth : v.depth ≤ recursionLimit) :
    ReadsText numeral recursionLimit (writePretty (spaces k) 0 v) v :=
  ⟨[], _, [], (List.append_nil _).symm, nofun,
    reads_writePretty hnum (blank_replicate k) hkept hdepth, nofun⟩

theorem parseJson_ok_iff {fromStr : FromStr} {data : ChefData} :
    parseJson fromStr data = .ok v ↔
      ∃ text, data.text = .ok text ∧ fromStr (Text.trim text) = .ok v := by
  unfold parseJson
  cases data.text with
  | error e => exact iff_of_false nofun nofun
  | ok text =>
      dsimp only
      cases hread : fromStr (Text.trim text) with
      | error e =>
          refine iff_of_false nofun ?_
          rintro ⟨_, heq, h⟩
          cases heq
          rw [hread] at h
          cases h
      | ok w =>
          constructor
          · intro h
            cases h
            exact ⟨text, rfl, hread⟩
          · rintro ⟨_, heq, h⟩
            cases heq
            rw [hread] at h
            cases h
            rfl

/-- Nothing is read from an empty text. -/
theorem reads_ne_nil (hnum : Numerals numeral) {t : List Char} (h : Json.Reads numeral n t v) :
    t ≠ [] := by
  cases h with
  | number h => exact hnum.some_char _ _ h
  | string h =>
      obtain ⟨cs, rfl, -⟩ := h
      exact List.cons_ne_nil _ _
  | null | true | false | empty _ | array _ | emptyObject _ | object _ => exact List.cons_ne_nil _ _

theorem readsItems_ne_nil (hnum : Numerals numeral) {t : List Char} {xs : List Value}
    (h : ReadsItems numeral n t xs) : t ≠ [] := by
  cases h with
  | last _ h _ =>
      intro heq
      exact reads_ne_nil hnum h (List.append_eq_nil_iff.mp (List.append_eq_nil_iff.mp heq).2).1
  | more _ h _ _ =>
      intro heq
      exact reads_ne_nil hnum h (List.append_eq_nil_iff.mp (List.append_eq_nil_iff.mp heq).2).1

/-- No numbers at all. -/
theorem numerals_none : Numerals fun _ _ => False := ⟨nofun, nofun, nofun⟩

/-- A reader of the empty array. -/
def readEmpty : FromStr := fun text => if text = ['[', ']'] then .ok (.array []) else .error ""

/-- It reads that text as JSON has it. -/
theorem readEmpty_conforms : Conforms (fun _ _ => False) readEmpty ['[', ']'] := by
  intro v
  constructor
  · intro h
    cases h
    exact ⟨[], _, [], rfl, nofun, .empty (w := []) nofun, nofun⟩
  · rintro ⟨w, t, w', heq, hw, ht, -⟩
    cases w with
    | cons c w =>
        obtain ⟨rfl, -⟩ := List.cons.inj heq
        exact absurd (hw _ List.mem_cons_self) (by decide)
    | nil =>
        rw [List.nil_append] at heq
        cases ht with
        | null | true | false | emptyObject _ | object _ => cases heq
        | number h => cases h
        | string h =>
            obtain ⟨cs, rfl, -⟩ := h
            cases heq
        | empty _ => rfl
        | @array _ t _ h =>
            -- there is no room for an item
            have hlen := congrArg List.length heq
            have hpos := List.length_pos_of_ne_nil (readsItems_ne_nil numerals_none h)
            simp only [List.length_append, List.length_cons, List.length_nil] at hlen
            omega

/-- Arrays in arrays. -/
def nested : Nat → Value
  | 0 => .null
  | k + 1 => .array [nested k]

theorem count_blank {w : List Char} (hw : Blank w) : w.count '[' = 0 :=
  List.count_eq_zero.mpr fun hmem => by simpa using hw _ hmem

/-- **Without strings and commas** there are no more brackets than levels that are read. -/
theorem count_brackets_le {t : List Char} (h : Json.Reads (fun _ _ => False) n t v) :
    ',' ∉ t → '"' ∉ t → t.count '[' ≤ n := by
  refine @Json.Reads.rec (fun _ _ => False) (fun n t _ _ => ',' ∉ t → '"' ∉ t → t.count '[' ≤ n)
    (fun n t _ _ => ',' ∉ t → '"' ∉ t → t.count '[' ≤ n) (fun _ t _ _ => '"' ∈ t) ?null ?true
    ?false ?number ?string ?empty ?array ?emptyObject ?object ?last ?more ?lastField ?moreFields
    n t v h
  case null | true | false => exact fun _ _ => Nat.zero_le _
  case number => exact fun h => h.elim
  case string =>
    rintro n t s ⟨cs, rfl, -⟩ - hquote
    exact absurd List.mem_cons_self hquote
  case empty =>
    intro n w hw _ _
    rw [List.count_cons_self, List.count_append, count_blank hw]
    exact Nat.succ_le_succ (Nat.zero_le n)
  case array =>
    intro n t xs _ ih hcomma hquote
    have hle := ih (fun hmem => hcomma (by simp [hmem])) fun hmem => hquote (by simp [hmem])
    rw [List.count_cons_self, List.count_append]
    exact Nat.succ_le_succ hle
  case emptyObject =>
    intro n w hw _ _
    rw [List.count_cons_of_ne (by decide), List.count_append, count_blank hw]
    exact Nat.zero_le _
  case object =>
    intro n t fields _ ih _ hquote
    exact absurd (by simp [ih]) hquote
  case last =>
    intro n w t w' v hw _ hw' ih hcomma hquote
    rw [List.count_append, List.count_append, count_blank hw, count_blank hw', Nat.zero_add]
    exact ih (fun hmem => hcomma (by simp [hmem])) fun hmem => hquote (by simp [hmem])
  case more =>
    intro n w t w' ts v vs _ _ _ _ _ _ hcomma
    exact absurd (by simp) hcomma
  case lastField =>
    rintro n w k w₁ w₂ t w' key v - ⟨cs, rfl, -⟩ - - - - -
    simp
  case moreFields =>
    rintro n w k w₁ w₂ t w' ts key v fields - ⟨cs, rfl, -⟩ - - - - - - -
    simp

/-- The brackets of arrays in arrays. -/
theorem writePretty_nested (k depth : Nat) :
    (writePretty (spaces 2) depth (nested k)).count '[' = k ∧
      ',' ∉ writePretty (spaces 2) depth (nested k) ∧
      '"' ∉ writePretty (spaces 2) depth (nested k) := by
  have hspace : ∀ n, ∀ c ∈ indentation (spaces 2) n, c = ' ' := by
    simp [indentation, spaces]
  induction k generalizing depth with
  | zero =>
      have hnull : writePretty (spaces 2) depth (nested 0) = "null".toList := rfl
      rw [hnull]
      decide
  | succ k ih =>
      obtain ⟨hcount, hcomma, hquote⟩ := ih (depth + 1)
      have hblank : ∀ n, (indentation (spaces 2) n).count '[' = 0 := fun n =>
        List.count_eq_zero.mpr fun hmem => by cases hspace n _ hmem
      have hcommas : ∀ n, ',' ∉ indentation (spaces 2) n := fun n hmem => by cases hspace n _ hmem
      have hquotes : ∀ n, '"' ∉ indentation (spaces 2) n := fun n hmem => by cases hspace n _ hmem
      rw [nested, writePretty, prettyItems]
      refine ⟨?_, ?_, ?_⟩
      · simp [List.count_append, hcount, hblank]
      · simp [hcomma, hcommas]
      · simp [hquote, hquotes]

end RevBox.Chef
