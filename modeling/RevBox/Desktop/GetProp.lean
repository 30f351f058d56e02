import RevBox.Support.Split
import RevBox.Support.Trim
import RevBox.Support.Utf8

/-!
# Desktop — GetProp

`parse_getprop` of `adapters/adb.rs`, by which the properties of a phone are read from the lines
that its shell prints. A value of several lines is printed as it is, so that a line of the output can
be any text.

* `getpropReads_iff`: when the properties come back.
-/

namespace RevBox.GetProp

/-! ### The code -/

/-- A map of properties. -/
abbrev PropMap := List (List Char × List Char)

/-- `HashMap::insert`. -/
def insert (map : PropMap) (key value : List Char) : PropMap :=
  (key, value) :: map.filter fun e => e.1 ≠ key

/-- `HashMap::get`. -/
def get (map : PropMap) (key : List Char) : Option (List Char) :=
  (map.find? (·.1 = key)).map (·.2)

/-- The text between a name and its value. -/
def delimiter : List Char := "]: [".toList

/-- What a line comes to. -/
inductive Turn where
  | skips
  | binds (key value : List Char)
  /-- the slice `1..colon` does not lie between characters, in this order -/
  | panics

/-- A turn of the loop of `parse_getprop`. -/
def parseLine (line : List Char) : Turn :=
  match Split.splitOnce delimiter (Text.trimEndMatches '\r' line) with
  | none => .skips
  | some ([], _) => .panics
  | some (c :: key, value) =>
      if c.utf8Size = 1 then
        .binds (Text.trim key) (Text.trim (Text.trimEndMatches ']' value))
      else .panics

/-- The loop of `parse_getprop`; none is a panic. -/
def parseLines (map : PropMap) : List (List Char) → Option PropMap
  | [] => some map
  | line :: rest =>
      match parseLine line with
      | .skips => parseLines map rest
      | .binds key value => parseLines (insert map key value) rest
      | .panics => none

/-- `parse_getprop`. -/
def parseGetprop (stdout : List Char) : Option PropMap := parseLines [] (Text.lines stdout)

/-! ### What a phone prints -/

/-- A property, as `getprop` prints it. -/
def renderedProp (prop : List Char × List Char) : List Char :=
  '[' :: (prop.1 ++ (delimiter ++ (prop.2 ++ [']'])))

/-- All properties, a line each. -/
def rendered (props : PropMap) : List Char := props.flatMap fun prop => renderedProp prop ++ ['\n']

/-- The properties whose values are of one line come back. -/
def GetpropReads (props : PropMap) : Prop :=
  ∃ map, parseGetprop (rendered props) = some map ∧
    ∀ prop ∈ props, '\n' ∉ prop.2 → get map prop.1 = some prop.2

/-- A line that the slice of the name fails on: the delimiter stands at its beginning, or behind a
character of more than one byte. -/
def Breaks (line : List Char) : Prop :=
  ∃ x y, Text.trimEndMatches '\r' line = x ++ (delimiter ++ y) ∧ ∀ c ∈ x.head?, c.utf8Size ≠ 1

/-- The value that a line has for a name. -/
def claim (name line : List Char) : Option (List Char) :=
  match parseLine line with
  | .binds key value => if key = name then some value else none
  | _ => none

/-- The value that the last of the lines with a value for a name has. -/
def lastClaim (name : List Char) (lines : List (List Char)) : Option (List Char) :=
  (lines.filterMap (claim name)).getLast?

/-- **No line breaks, and no blank or bracket is lost**: names and values have no blanks around
them, no value ends with a bracket, and no line of a later value has another value for the name. -/
def Plain (props : PropMap) : Prop :=
  (∀ line ∈ Text.lines (rendered props), ¬ Breaks line) ∧
    ∀ pre prop post, props = pre ++ prop :: post → '\n' ∉ prop.2 →
      ('\n' ∉ prop.1 ∧ Text.trim prop.1 = prop.1) ∧
        match lastClaim prop.1 (Text.lines (rendered post)) with
        | some value => value = prop.2
        | none => Text.trim prop.2 = prop.2 ∧ prop.2.getLast? ≠ some ']'

/-! ### The map -/

variable {map : PropMap} {key name value : List Char} {lines : List (List Char)}

theorem get_insert : get (insert map key value) name =
    if key = name then some value else get map name := by
  rw [get, insert, List.find?_cons]
  split_ifs with h
  · simp [h]
  · have hpred : (fun e : List Char × List Char =>
        decide (decide (e.1 ≠ key) = true ∧ decide (e.1 = name) = true)) =
        fun e => decide (e.1 = name) := by
      funext e
      by_cases he : e.1 = name
      · simp [he, Ne.symm h]
      · simp [he]
    simp only [h, decide_false, get]
    rw [List.find?_filter, hpred]

/-- **The last value counts.** -/
theorem get_parseLines {map' : PropMap} (h : parseLines map lines = some map') :
    get map' name = (lastClaim name lines).or (get map name) := by
  induction lines generalizing map with
  | nil =>
      cases h
      rfl
  | cons line lines ih =>
      have hlast : lastClaim name (line :: lines) =
          (lastClaim name lines).or (claim name line) := by
        rw [lastClaim, lastClaim, List.filterMap_cons]
        cases claim name line with
        | none => rw [Option.or_none]
        | some v => rw [List.getLast?_cons, Option.or_some]
      rw [parseLines] at h
      rw [hlast, Option.or_assoc, claim]
      cases hline : parseLine line with
      | skips =>
          rw [hline] at h
          rw [ih h]
          rfl
      | binds key value =>
          rw [hline] at h
          rw [ih h, get_insert]
          dsimp only
          split_ifs <;> rfl
      | panics =>
          rw [hline] at h
          cases h

theorem parseLines_isSome :
    (∃ map', parseLines map lines = some map') ↔ ∀ line ∈ lines, parseLine line ≠ .panics := by
  induction lines generalizing map with
  | nil => exact iff_of_true ⟨map, rfl⟩ nofun
  | cons line lines ih =>
      rw [parseLines, List.forall_mem_cons]
      cases hline : parseLine line with
      | skips => exact ih.trans (and_iff_right nofun).symm
      | binds key value => exact ih.trans (and_iff_right nofun).symm
      | panics => exact iff_of_false nofun fun h => h.1 rfl

/-! ### Lines -/

variable {line x y : List Char}

/-- **A line breaks** exactly if the slice of its name fails. -/
theorem parseLine_panics_iff : parseLine line = .panics ↔ Breaks line := by
  have hdelimiter : delimiter ≠ [] := by decide
  unfold parseLine Breaks
  cases hsplit : Split.splitOnce delimiter (Text.trimEndMatches '\r' line) with
  | none =>
      refine iff_of_false nofun ?_
      rintro ⟨x, y, hline, -⟩
      obtain ⟨u, v, huv⟩ := Split.splitOnce_isSome hdelimiter x (y := y)
      rw [← hline, hsplit] at huv
      cases huv
  | some r =>
      obtain ⟨u, v⟩ := r
      obtain ⟨hline, hfirst⟩ := (Split.splitOnce_eq_some_iff hdelimiter).mp hsplit
      cases u with
      | nil => exact iff_of_true rfl ⟨[], v, hline, nofun⟩
      | cons c key =>
          dsimp only
          split_ifs with hc
          · refine iff_of_false nofun ?_
            rintro ⟨x, y, hline', hx⟩
            cases x with
            | nil =>
                have hle := hfirst [] y hline'
                cases hle
            | cons d x =>
                rw [hline'] at hline
                have hd : d = c := (List.cons.inj hline).1
                exact hx d rfl (hd ▸ hc)
          · exact iff_of_true rfl ⟨c :: key, v, hline, fun d hd => by cases hd; exact hc⟩

theorem getLast?_renderedProp (prop : List Char × List Char) :
    (renderedProp prop).getLast? = some ']' := by
  rw [renderedProp, ← List.append_assoc, ← List.append_assoc, ← List.cons_append,
    List.getLast?_concat]

/-- A line of a name without brackets. -/
theorem parseLine_prop (hname : ']' ∉ name) :
    parseLine (renderedProp (name, value)) =
      .binds (Text.trim name) (Text.trim (Text.trimEndMatches ']' value)) := by
  have hend : Text.trimEndMatches '\r' (renderedProp (name, value)) =
      renderedProp (name, value) := by
    rw [Text.trimEndMatches_eq_self_iff, getLast?_renderedProp]
    decide
  have hopen : ']' ∉ '[' :: name := by
    rw [List.mem_cons, not_or]
    exact ⟨by decide, hname⟩
  have hcut : Split.splitOnce delimiter (renderedProp (name, value)) =
      some ('[' :: name, value ++ [']']) := Split.splitOnce_append _ hopen
  rw [parseLine, hend, hcut, ← Text.trimEndMatches_concat]
  exact if_pos (by decide)

/-- A name that a line has a value for has no blanks around it, and no line ends. -/
theorem claim_name (h : claim name line = some value) :
    Text.trim name = name ∧ Text.trim value = value ∧ ('\n' ∉ line → '\n' ∉ name) := by
  have hbinds : parseLine line = .binds name value := by
    unfold claim at h
    split at h
    · next hline =>
        split_ifs at h with hkey
        cases h
        rw [hline, hkey]
    · cases h
  unfold parseLine at hbinds
  split at hbinds
  · cases hbinds
  · cases hbinds
  · next c key after hsplit =>
      split_ifs at hbinds
      cases hbinds
      refine ⟨Text.trim_trim key, Text.trim_trim _, fun hline hname => hline ?_⟩
      have hcut := Split.splitOnce_sound hsplit
      have hkey : '\n' ∈ key :=
        (List.dropWhile_suffix _).subset ((Text.trimEnd_isPrefix _).subset hname)
      refine (Text.trimEndMatches_isPrefix '\r' line).subset ?_
      rw [hcut]
      exact List.mem_append_left _ (List.mem_cons_of_mem c hkey)

/-! ### The lines of the properties -/

variable {pre post props : PropMap} {prop : List Char × List Char}

theorem lastClaim_append (name : List Char) (ls ls' : List (List Char)) :
    lastClaim name (ls ++ ls') = (lastClaim name ls').or (lastClaim name ls) := by
  rw [lastClaim, List.filterMap_append, List.getLast?_append]
  rfl

theorem exists_of_lastClaim (h : lastClaim name lines = some value) :
    ∃ line ∈ lines, claim name line = some value :=
  List.mem_filterMap.mp (List.mem_of_getLast? h)

theorem lines_rendered_append (rest : List Char) : ∀ pre : PropMap,
    Text.lines (rendered pre ++ rest) = Text.lines (rendered pre) ++ Text.lines rest
  | [] => rfl
  | prop :: pre => by
      have hcut : ∀ t, rendered (prop :: pre) ++ t =
          renderedProp prop ++ '\n' :: (rendered pre ++ t) := fun t => by
        simp [rendered]
      rw [hcut, ← List.append_nil (rendered (prop :: pre)), hcut, Text.lines_ended,
        Text.lines_ended _ (rendered pre ++ []), lines_rendered_append rest pre, List.append_nil,
        List.append_assoc]

theorem lines_rendered : Text.lines (rendered (pre ++ prop :: post)) =
    Text.lines (rendered pre) ++ (Text.lines (rendered [prop]) ++ Text.lines (rendered post)) := by
  have hcut : rendered (pre ++ prop :: post) =
      rendered pre ++ (rendered [prop] ++ rendered post) := by
    simp [rendered]
  rw [hcut, lines_rendered_append, lines_rendered_append]

/-- A property of one line. -/
theorem lines_rendered_one (hname : '\n' ∉ prop.1) (hvalue : '\n' ∉ prop.2) :
    Text.lines (rendered [prop]) = [renderedProp prop] := by
  have hline : '\n' ∉ renderedProp prop := by
    simp only [renderedProp, delimiter, List.mem_cons, List.mem_append, not_or]
    exact ⟨by decide, hname, by decide, hvalue, by decide⟩
  have hone : rendered [prop] = renderedProp prop ++ '\n' :: [] := by simp [rendered]
  have hchomp : Text.chomp (renderedProp prop).reverse = renderedProp prop := by
    have hlast := getLast?_renderedProp prop
    rw [← List.head?_reverse] at hlast
    obtain ⟨rest, hrest⟩ := List.head?_eq_some_iff.mp hlast
    rw [hrest]
    show (']' :: rest).reverse = _
    rw [← hrest, List.reverse_reverse]
  rw [hone, Text.lines_append _ hline, hchomp]
  rfl

/-- **The property that a name comes back with.** -/
theorem lastClaim_prop_iff (hbracket : ']' ∉ prop.1) (hvalue : '\n' ∉ prop.2) :
    lastClaim prop.1 (Text.lines (rendered (pre ++ prop :: post))) = some prop.2 ↔
      ('\n' ∉ prop.1 ∧ Text.trim prop.1 = prop.1) ∧
        match lastClaim prop.1 (Text.lines (rendered post)) with
        | some value => value = prop.2
        | none => Text.trim prop.2 = prop.2 ∧ prop.2.getLast? ≠ some ']' := by
  have hown (hname : '\n' ∉ prop.1 ∧ Text.trim prop.1 = prop.1) :
      lastClaim prop.1 (Text.lines (rendered (pre ++ prop :: post))) = some prop.2 ↔
        match lastClaim prop.1 (Text.lines (rendered post)) with
        | some value => value = prop.2
        | none => Text.trim prop.2 = prop.2 ∧ prop.2.getLast? ≠ some ']' := by
    have hclaim : lastClaim prop.1 (Text.lines (rendered [prop])) =
        some (Text.trim (Text.trimEndMatches ']' prop.2)) := by
      rw [lines_rendered_one hname.1 hvalue, lastClaim, List.filterMap_cons, claim,
        parseLine_prop hbracket]
      dsimp only
      rw [if_pos hname.2]
      rfl
    rw [lines_rendered, lastClaim_append, lastClaim_append, hclaim]
    cases lastClaim prop.1 (Text.lines (rendered post)) with
    | some value => exact Option.some_inj
    | none => exact Option.some_inj.trans Text.trim_trimEndMatches_iff
  refine ⟨fun h => ?_, fun h => (hown h.1).mpr h.2⟩
  obtain ⟨line, hline, hclaim⟩ := exists_of_lastClaim h
  obtain ⟨htrim, -, hbreak⟩ := claim_name hclaim
  have hname := hbreak (Text.lines_no_newline _ line hline)
  exact ⟨⟨hname, htrim⟩, (hown ⟨hname, htrim⟩).mp h⟩

/-- **The properties come back exactly if no line breaks and none is lost.** -/
theorem getpropReads_iff (hnames : ∀ prop ∈ props, '[' ∉ prop.1 ∧ ']' ∉ prop.1) :
    GetpropReads props ↔ Plain props := by
  have hsound : (∃ map, parseGetprop (rendered props) = some map) ↔
      ∀ line ∈ Text.lines (rendered props), ¬ Breaks line :=
    parseLines_isSome.trans (forall₂_congr fun _ _ => not_congr parseLine_panics_iff)
  have hget {map : PropMap} (h : parseGetprop (rendered props) = some map) (name : List Char) :
      get map name = lastClaim name (Text.lines (rendered props)) :=
    (get_parseLines h).trans Option.or_none
  constructor
  · rintro ⟨map, hmap, hall⟩
    refine ⟨hsound.mp ⟨map, hmap⟩, ?_⟩
    rintro pre prop post rfl hvalue
    have hmem : prop ∈ pre ++ prop :: post := List.mem_append_right _ List.mem_cons_self
    have hclaim := (hget hmap prop.1).symm.trans (hall prop hmem hvalue)
    exact (lastClaim_prop_iff (hnames prop hmem).2 hvalue).mp hclaim
  · rintro ⟨hlines, hplain⟩
    obtain ⟨map, hmap⟩ := hsound.mpr hlines
    refine ⟨map, hmap, fun prop hmem hvalue => ?_⟩
    obtain ⟨pre, post, rfl⟩ := List.append_of_mem hmem
    rw [hget hmap, lastClaim_prop_iff (hnames prop hmem).2 hvalue]
    exact hplain pre prop post rfl hvalue

theorem getpropReads_iff_model :
    GetpropReads [("ro.product.model".toList, "Pixel 7".toList)] ↔
      Plain [("ro.product.model".toList, "Pixel 7".toList)] :=
  getpropReads_iff (by decide)

/-- **A value whose second line begins with the delimiter** makes the parser panic. -/
theorem parseGetprop_panics : ¬ ∀ props : PropMap,
    (∀ prop ∈ props, '[' ∉ prop.1 ∧ ']' ∉ prop.1) → (props.map (·.1)).Nodup →
    GetpropReads props := by
  intro h
  obtain ⟨map, hmap, -⟩ := h [("a".toList, "x\n]: [y".toList)] (by decide) (by decide)
  have hpanic : parseGetprop (rendered [("a".toList, "x\n]: [y".toList)]) = none := by decide
  rw [hmap] at hpanic
  cases hpanic

end RevBox.GetProp
