import RevBox.Support.Text
import RevBox.Support.Utf8

/-!
# Zygisk — RootProbe

What the Agent learns of the module directories as root: the output of `ROOT_PROBE_SCRIPT`, and its
reading (`classify_root_output`).

The text of each `module.prop` stands in the output between two marker lines, as it is.

* `recovered_of_tidy`: where these texts end with their last line and have no marker lines of their
  own, and the names that are printed are lines, the facts are what the directories are.
* `unterminated_lost`: a `module.prop` without a final newline takes what is behind it with it.
-/

namespace RevBox.Zygisk

/-! ### The facts -/

/-- `ModuleFacts`. -/
structure ModuleFacts where
  installed : Bool
  pendingUpdate : Bool
  disabledMarker : Bool
  removeMarker : Bool
  helperMissing : Bool
  version : Option (List Char)
  versionCode : Option Nat

/-- `ModuleFacts::default`. -/
def ModuleFacts.default : ModuleFacts := ⟨false, false, false, false, false, none, none⟩

/-- `RootFacts`. -/
structure RootFacts where
  pro : ModuleFacts
  demo : ModuleFacts
  zygiskImpl : Option (List Char)
  zygiskImplModule : Option (List Char)
  zygiskImplDisabledModule : Option (List Char)
  zygiskDaemonRunning : Option Bool

/-- `RootFacts::default`. -/
def RootFacts.default : RootFacts := ⟨.default, .default, none, none, none, none⟩

/-- The two modules. -/
inductive Own where
  | pro | demo
  deriving DecidableEq

/-- `applistpro` and `applist`. -/
def Own.name : Own → List Char
  | .pro => "applistpro".toList
  | .demo => "applist".toList

/-- The facts of a module replaced. -/
def RootFacts.modify (facts : RootFacts) (o : Own) (f : ModuleFacts → ModuleFacts) : RootFacts :=
  match o with
  | .pro => { facts with pro := f facts.pro }
  | .demo => { facts with demo := f facts.demo }

/-! ### The script -/

/-- `echo`, of the shell of the device, which gives a meaning to backslashes. -/
structure Echo where
  print : List Char → List UInt8
  plain : ∀ {s}, '\\' ∉ s → print s = Utf8.encode s ++ [10]

/-- A module directory, with its markers. -/
structure ModuleDir where
  installed : Bool
  pending : Bool
  disabled : Bool
  removing : Bool
  prop : Option (List UInt8)
  helper : Bool

/-- An entry of `/data/adb/modules`. -/
structure Entry where
  name : List Char
  isDir : Bool
  hasDir : List Char → Bool
  disabled : Bool
  name_ne : name ≠ []

/-- What the script finds: the two modules, which of the runtime directories are there, the entries
in the order of the glob, and the names of the processes. -/
structure Device where
  pro : ModuleDir
  demo : ModuleDir
  runtime : List Char → Bool
  entries : List Entry
  comms : List Char

/-- The runtime directories of the implementations. -/
def runtimeDirs : List String :=
  ["/data/adb/zygisksu", "/data/adb/zygisk", "/data/adb/ap/zygisk", "/data/adb/kzygisk"]

/-- `basename`. -/
def fileName (path : List Char) : List Char := path.rtakeWhile fun c => c ≠ '/'

/-- An entry that the script tells of: it is a directory, none of the two modules, and has a
directory that Zygisk modules or implementations have. -/
def Entry.implements (e : Entry) : Bool :=
  e.isDir && !(e.name = Own.name .demo || e.name = Own.name .pro) &&
    (e.hasDir "zygisk".toList || runtimeDirs.any fun d => e.hasDir (fileName d.toList))

/-- `*zygiskd*|*zn-zygisk*`. -/
def daemonRuns (comms : List Char) : Bool :=
  Text.contains "zygiskd".toList comms || Text.contains "zn-zygisk".toList comms

section Script

variable (echo : Echo)

/-- A marker, where a test succeeds. -/
def mark (b : Bool) (marker : List Char) : List UInt8 := if b then echo.print marker else []

/-- The first loop, for one module. -/
def moduleOutput (o : Own) (d : ModuleDir) : List UInt8 :=
  mark echo d.installed ("INSTALLED ".toList ++ o.name) ++
  mark echo d.pending ("PENDING ".toList ++ o.name) ++
  mark echo d.disabled ("DISABLED ".toList ++ o.name) ++
  mark echo d.removing ("REMOVING ".toList ++ o.name) ++
  (match d.prop with
    | some text => echo.print ("PROP_BEGIN ".toList ++ o.name) ++ (text ++
        echo.print "PROP_END".toList)
    | none => []) ++
  mark echo (o = .pro && d.installed && !d.helper) ("NOHELPER ".toList ++ o.name)

/-- The loop on the modules, for one entry. -/
def entryOutput (e : Entry) : List UInt8 :=
  if e.implements then
    echo.print ("ZYGIMPLMOD ".toList ++ e.name) ++
      mark echo e.disabled ("ZYGIMPL_OFF ".toList ++ e.name)
  else []

/-- What is said of the processes, if any are seen. -/
def daemonOutput (comms : List Char) : List UInt8 :=
  if comms = [] then []
  else if daemonRuns comms then echo.print "ZYGRUN=1".toList
  else echo.print "ZYGRUN=0".toList

/-- The output of `ROOT_PROBE_SCRIPT`. -/
def rootOutput (device : Device) : List UInt8 :=
  echo.print "ROOT=1".toList ++ (moduleOutput echo .pro device.pro ++
    (moduleOutput echo .demo device.demo ++
    (runtimeDirs.flatMap (fun d => mark echo (device.runtime d.toList)
      ("ZYGIMPL=".toList ++ fileName d.toList)) ++
    (device.entries.flatMap (entryOutput echo) ++ (daemonOutput echo device.comms ++
    echo.print "PROBE_DONE=1".toList)))))

end Script

/-! ### The Agent -/

/-- `str::split_once`, at `=`. -/
def splitOnce (line : List Char) : Option (List Char × List Char) :=
  if '=' ∈ line then
    some (line.takeWhile (fun c => c ≠ '='), (line.dropWhile fun c => c ≠ '=').tail)
  else none

/-- `str::strip_prefix`. -/
def stripPrefix (p line : List Char) : Option (List Char) :=
  if Text.startsWith p line then some (line.drop p.length) else none

/-- The module of a name. -/
def ownOf (name : List Char) : Option Own :=
  if name = Own.name .pro then some .pro else if name = Own.name .demo then some .demo else none

/-- A line between the markers of a `module.prop`. -/
def propLine (facts : ModuleFacts) (line : List Char) : ModuleFacts :=
  match splitOnce line with
  | none => facts
  | some (key, value) =>
      if key = "version".toList then { facts with version := some value }
      else if key = "versionCode".toList then
        { facts with versionCode := Text.parseUnsigned (2 ^ 32) value }
      else facts

/-- What a marker says of a module. -/
def markModule (marker : List Char) : Option (ModuleFacts → ModuleFacts) :=
  if marker = "INSTALLED".toList then some fun f => { f with installed := true }
  else if marker = "PENDING".toList then some fun f => { f with pendingUpdate := true }
  else if marker = "DISABLED".toList then some fun f => { f with disabledMarker := true }
  else if marker = "REMOVING".toList then some fun f => { f with removeMarker := true }
  else if marker = "NOHELPER".toList then some fun f => { f with helperMissing := true }
  else none

/-- What stands behind a prefix, if it is something. -/
def valueBehind (p line : List Char) : Option (List Char) :=
  (stripPrefix p line).filter fun v => v ≠ []

/-- The lines that are about no module: the first of a kind counts. -/
def otherLine (facts : RootFacts) (line : List Char) : RootFacts :=
  { facts with
    zygiskImpl := facts.zygiskImpl.or (valueBehind "ZYGIMPL=".toList line)
    zygiskImplModule := facts.zygiskImplModule.or (valueBehind "ZYGIMPLMOD ".toList line)
    zygiskImplDisabledModule :=
      facts.zygiskImplDisabledModule.or (valueBehind "ZYGIMPL_OFF ".toList line)
    zygiskDaemonRunning :=
      if line = "ZYGRUN=1".toList then some true
      else if line = "ZYGRUN=0".toList then some false
      else facts.zygiskDaemonRunning }

/-- A line outside a `module.prop`. -/
def factLine (facts : RootFacts) (line : List Char) : RootFacts :=
  let marker := line.takeWhile fun c => c ≠ ' '
  match markModule marker, ownOf (line.drop (marker.length + 1)) with
  | some f, some o => facts.modify o f
  | _, _ => otherLine facts line

/-- One line: the facts, and whose `module.prop` it is that is read. -/
def classifyLine (st : RootFacts × Option (List Char)) (line : List Char) :
    RootFacts × Option (List Char) :=
  match stripPrefix "PROP_BEGIN ".toList line with
  | some owner => (st.1, some owner)
  | none =>
      if line = "PROP_END".toList then (st.1, none)
      else
        match st.2 with
        | some owner =>
            match ownOf owner with
            | some o => (st.1.modify o fun f => propLine f line, st.2)
            | none => st
        | none => (factLine st.1 line, none)

/-- The lines of a text, trimmed. -/
def trimmedLines (text : List Char) : List (List Char) := (Text.lines text).map Text.trim

/-- `classify_root_output`. -/
def classifyRootOutput (text : List Char) : RootFacts :=
  ((trimmedLines text).foldl classifyLine (.default, none)).1

/-! ### What is recovered -/

/-- The value that a line gives to a key. -/
def keyed (key line : List Char) : Option (List Char) :=
  (splitOnce line).bind fun r => if r.1 = key then some r.2 else none

/-- The value that the last line with a key gives it. -/
def lastKeyed (key : List Char) : List (List Char) → Option (List Char)
  | [] => none
  | l :: ls => (lastKeyed key ls).or (keyed key l)

/-- What a `module.prop` says for a key. -/
def propValue (key : String) (text : List UInt8) : Option (List Char) :=
  lastKeyed key.toList (trimmedLines (Utf8.fromUtf8Lossy text))

/-- What the directory of a module is. -/
def ModuleDir.facts (o : Own) (d : ModuleDir) : ModuleFacts where
  installed := d.installed
  pendingUpdate := d.pending
  disabledMarker := d.disabled
  removeMarker := d.removing
  helperMissing := o = .pro && d.installed && !d.helper
  version := d.prop.bind (propValue "version")
  versionCode := (d.prop.bind (propValue "versionCode")).bind (Text.parseUnsigned (2 ^ 32))

/-- What a device is: of the implementations, the first of each kind. -/
def Device.facts (device : Device) : RootFacts where
  pro := device.pro.facts .pro
  demo := device.demo.facts .demo
  zygiskImpl := (runtimeDirs.find? fun d => device.runtime d.toList).map fun d => fileName d.toList
  zygiskImplModule := (device.entries.find? Entry.implements).map Entry.name
  zygiskImplDisabledModule :=
    (device.entries.find? fun e => e.implements && e.disabled).map Entry.name
  zygiskDaemonRunning := if device.comms = [] then none else some (daemonRuns device.comms)

/-- **Recovered**: the Agent reads from the output what the device is. -/
def Recovered (echo : Echo) (device : Device) : Prop :=
  classifyRootOutput (Utf8.fromUtf8Lossy (rootOutput echo device)) = device.facts

/-- What is behind the last line end. -/
def lastLine (text : List Char) : List Char := text.rtakeWhile fun c => c ≠ '\n'

/-- A `module.prop` that is between its markers: nothing is behind its last line end, and no line is
a marker. -/
def TidyProp (text : List Char) : Prop :=
  Text.trim (lastLine text) = [] ∧ ∀ l ∈ trimmedLines text,
    l ≠ "PROP_END".toList ∧ stripPrefix "PROP_BEGIN ".toList l = none

/-- A text that `echo` prints as a line of its own. -/
def OwnLine (s : List Char) : Prop := '\\' ∉ s ∧ '\n' ∉ s ∧ Text.trim s = s

/-- Texts and names keep to their lines. -/
def Device.Tidy (device : Device) : Prop :=
  (∀ text, device.pro.prop = some text → TidyProp (Utf8.fromUtf8Lossy text)) ∧
  (∀ text, device.demo.prop = some text → TidyProp (Utf8.fromUtf8Lossy text)) ∧
  ∀ e ∈ device.entries, e.implements = true → OwnLine e.name

/-! ### The lines of the output -/

/-- The lines that the Agent reads. -/
def outputLines (bytes : List UInt8) : List (List Char) := trimmedLines (Utf8.fromUtf8Lossy bytes)

theorem trimmedLines_cons {l : List Char} (h : '\n' ∉ l) (rest : List Char) :
    trimmedLines (l ++ '\n' :: rest) = Text.trim l :: trimmedLines rest := by
  rw [trimmedLines, Text.lines_append rest h, List.map_cons, Text.trim_chomp]
  rfl

variable {echo : Echo} {rest : List UInt8} {b : Bool} {s : List Char}

/-- A line of its own is read as it was printed. -/
theorem outputLines_print (h : OwnLine s) :
    outputLines (echo.print s ++ rest) = s :: outputLines rest := by
  obtain ⟨hslash, hline, htrim⟩ := h
  rw [outputLines, echo.plain hslash, List.append_assoc, Utf8.fromUtf8Lossy_encode_append,
    List.singleton_append]
  have hend : Utf8.fromUtf8Lossy (10 :: rest) = '\n' :: Utf8.fromUtf8Lossy rest :=
    Utf8.fromUtf8Lossy_append [] rest
  rw [hend, trimmedLines_cons hline, htrim]
  rfl

/-! ### The text of a `module.prop` -/

/-- A text is what ends with its last line end, and the last line. -/
theorem eq_append_lastLine (text : List Char) : ∃ body, text = body ++ lastLine text ∧
    (body = [] ∨ ∃ t, body = t ++ ['\n']) := by
  refine ⟨text.rdropWhile fun c => c ≠ '\n', ?_, ?_⟩
  · rw [List.rdropWhile, lastLine, List.rtakeWhile, ← List.reverse_append,
      List.takeWhile_append_dropWhile, List.reverse_reverse]
  · cases hdrop : text.reverse.dropWhile fun c => c ≠ '\n' with
    | nil => exact .inl (by rw [List.rdropWhile, hdrop]; rfl)
    | cons c t =>
        have hhead := List.head?_dropWhile_not (fun c => decide (c ≠ '\n')) text.reverse
        rw [hdrop] at hhead
        have hc : c = '\n' := by simpa using hhead
        exact .inr ⟨t.reverse, by rw [List.rdropWhile, hdrop, List.reverse_cons, hc]⟩

theorem not_mem_lastLine (text : List Char) : '\n' ∉ lastLine text := by
  intro h
  have hne := List.mem_takeWhile_imp (List.mem_reverse.mp h)
  exact of_decide_eq_true hne rfl

/-- Blanks before a text are trimmed. -/
theorem trim_blanks {blanks : List Char} (h : Text.trim blanks = []) (t : List Char) :
    Text.trim (blanks ++ t) = Text.trim t := by
  have hall : ∀ c ∈ Text.trimStart blanks, Text.isWhitespace c = true :=
    List.rdropWhile_eq_nil_iff.mp h
  have hnil : blanks.dropWhile Text.isWhitespace = [] := by
    by_contra hne
    have hhead := List.head_dropWhile_not Text.isWhitespace hne
    rw [hall _ (List.head_mem hne)] at hhead
    cases hhead
  rw [Text.trim, Text.trimStart, List.dropWhile_append, hnil]
  rfl

/-- The lines of a text with nothing behind its last line end. -/
theorem prop_lines {text : List Char} (h : Text.trim (lastLine text) = []) :
    ∃ ls, (∀ more, trimmedLines (text ++ ("PROP_END".toList ++ '\n' :: more)) =
      ls ++ "PROP_END".toList :: trimmedLines more) ∧
      (trimmedLines text = ls ∨ trimmedLines text = ls ++ [[]]) := by
  obtain ⟨body, hbody, hended⟩ := eq_append_lastLine text
  have hlast := not_mem_lastLine text
  generalize lastLine text = last at h hbody hlast
  subst hbody
  have hparts : ∀ more, trimmedLines (body ++ more) = trimmedLines body ++ trimmedLines more := by
    intro more
    rcases hended with rfl | ⟨t, rfl⟩
    · rfl
    · rw [List.append_assoc, List.singleton_append, trimmedLines, Text.lines_ended,
        List.map_append]
      rfl
  have hmark : '\n' ∉ last ++ "PROP_END".toList := fun hmem =>
    (List.mem_append.mp hmem).elim hlast (by decide)
  have hend : Text.trim (last ++ "PROP_END".toList) = "PROP_END".toList :=
    (trim_blanks h _).trans (by decide)
  refine ⟨trimmedLines body, fun more => ?_, ?_⟩
  · rw [List.append_assoc, ← List.append_assoc last, hparts, trimmedLines_cons hmark, hend]
  · by_cases hnil : last = []
    · exact .inl (by rw [hnil, List.append_nil])
    · refine .inr ?_
      have hone : trimmedLines last = [[]] := by
        rw [trimmedLines, Text.lines_of_not_mem hlast hnil, List.map_singleton, h]
      rw [hparts, hone]

theorem lastKeyed_concat_nil (key : List Char) (ls : List (List Char)) :
    lastKeyed key (ls ++ [[]]) = lastKeyed key ls := by
  induction ls with
  | nil => rfl
  | cons l ls ih => rw [List.cons_append, lastKeyed, ih, lastKeyed]

variable {facts : RootFacts} {o : Own} {ls : List (List Char)}

/-- What the lines of a `module.prop` come to. -/
theorem foldl_propLine (f : ModuleFacts) : ls.foldl propLine f = { f with
    version := (lastKeyed "version".toList ls).or f.version
    versionCode := ((lastKeyed "versionCode".toList ls).map
      (Text.parseUnsigned (2 ^ 32))).getD f.versionCode } := by
  induction ls generalizing f with
  | nil => rfl
  | cons l ls ih =>
      rw [List.foldl_cons, ih, lastKeyed, lastKeyed, keyed, keyed, propLine]
      cases hsplit : splitOnce l with
      | none => simp only [Option.bind_none, Option.or_none]
      | some r =>
          obtain ⟨key, value⟩ := r
          simp only [Option.bind_some]
          by_cases hversion : key = "version".toList
          · have hcode : key ≠ "versionCode".toList := hversion ▸ by decide
            simp only [if_pos hversion, if_neg hcode, Option.or_none, Option.or_assoc,
              Option.some_or]
          · simp only [if_neg hversion, Option.or_none]
            by_cases hcode : key = "versionCode".toList
            · simp only [if_pos hcode]
              cases lastKeyed "versionCode".toList ls <;> rfl
            · simp only [if_neg hcode, Option.or_none]

/-- Lines that are no markers are read as those of the `module.prop`. -/
theorem foldl_classifyLine_prop (hls : ∀ l ∈ ls, l ≠ "PROP_END".toList ∧
    stripPrefix "PROP_BEGIN ".toList l = none) :
    ls.foldl classifyLine (facts, some o.name) =
      (facts.modify o fun f => ls.foldl propLine f, some o.name) := by
  induction ls generalizing facts with
  | nil => cases o <;> rfl
  | cons l ls ih =>
      obtain ⟨hend, hbegin⟩ := hls l List.mem_cons_self
      have hown : ownOf o.name = some o := by cases o <;> rfl
      have hline : classifyLine (facts, some o.name) l =
          (facts.modify o fun f => propLine f l, some o.name) := by
        rw [classifyLine, hbegin]
        simp only [if_neg hend, hown]
      rw [List.foldl_cons, hline, ih fun l hl => hls l (List.mem_cons_of_mem _ hl)]
      cases o <;> rfl

/-! ### What an output does to the reading -/

/-- What has been read and is being read. -/
abbrev Reading := RootFacts × Option (List Char)

/-- An output takes the reading from one state to another, whatever follows. -/
def Reads (bytes : List UInt8) (st st' : Reading) : Prop :=
  ∀ rest, (outputLines (bytes ++ rest)).foldl classifyLine st =
    (outputLines rest).foldl classifyLine st'

variable (echo) {bytes bytes' : List UInt8} {st st' st'' : Reading}

theorem Reads.nil : Reads [] st st := fun _ => rfl

theorem Reads.append (h : Reads bytes st st') (h' : Reads bytes' st' st'') :
    Reads (bytes ++ bytes') st st'' := fun rest => by
  rw [List.append_assoc, h, h']

theorem reads_print (h : OwnLine s) : Reads (echo.print s) st (classifyLine st s) := fun rest => by
  rw [outputLines_print h, List.foldl_cons]

theorem reads_mark (h : OwnLine s) :
    Reads (mark echo b s) st (if b then classifyLine st s else st) := by
  cases b with
  | true => exact reads_print echo h
  | false => exact Reads.nil

theorem reads_flatMap {α : Type} {f : α → List UInt8} {g : RootFacts → α → RootFacts}
    {xs : List α} (h : ∀ x ∈ xs, ∀ facts, Reads (f x) (facts, none) (g facts x, none)) :
    Reads (xs.flatMap f) (facts, none) (xs.foldl g facts, none) := by
  induction xs generalizing facts with
  | nil => exact Reads.nil
  | cons x xs ih =>
      rw [List.flatMap_cons]
      exact (h x List.mem_cons_self facts).append (ih fun y hy => h y (List.mem_cons_of_mem _ hy))

/-- **A `module.prop` between its markers** is read as it is by itself. -/
theorem reads_prop {text : List UInt8} (h : TidyProp (Utf8.fromUtf8Lossy text)) :
    Reads (text ++ echo.print "PROP_END".toList) (facts, some o.name)
      (facts.modify o fun f => { f with
        version := (propValue "version" text).or f.version
        versionCode := ((propValue "versionCode" text).map
          (Text.parseUnsigned (2 ^ 32))).getD f.versionCode }, none) := by
  obtain ⟨hblank, hmarkers⟩ := h
  obtain ⟨ls, hsplit, hls⟩ := prop_lines hblank
  have hsub : ∀ l ∈ ls, l ∈ trimmedLines (Utf8.fromUtf8Lossy text) := fun l hl => by
    rcases hls with hls | hls
    · rw [hls]
      exact hl
    · rw [hls]
      exact List.mem_append_left _ hl
  have hvalue : ∀ key : String, propValue key text = lastKeyed key.toList ls := fun key => by
    rcases hls with hls | hls
    · rw [propValue, hls]
    · rw [propValue, hls, lastKeyed_concat_nil]
  intro rest
  have hlines : outputLines (text ++ echo.print "PROP_END".toList ++ rest) =
      ls ++ "PROP_END".toList :: outputLines rest := by
    have hbytes : text ++ echo.print "PROP_END".toList ++ rest =
        text ++ 'P'.val.toUInt8 :: (Utf8.encode ("ROP_END".toList ++ ['\n']) ++ rest) := by
      rw [echo.plain (by decide), List.append_assoc, List.append_assoc]
      rfl
    rw [outputLines, hbytes, Utf8.fromUtf8Lossy_ascii rfl,
      Utf8.fromUtf8Lossy_encode_append]
    exact hsplit _
  rw [hlines, List.foldl_append, foldl_classifyLine_prop fun l hl => hmarkers l (hsub l hl),
    hvalue, hvalue, List.foldl_cons]
  have hfold : (fun f => ls.foldl propLine f) = fun f : ModuleFacts => { f with
      version := (lastKeyed "version".toList ls).or f.version
      versionCode := ((lastKeyed "versionCode".toList ls).map
        (Text.parseUnsigned (2 ^ 32))).getD f.versionCode } := funext foldl_propLine
  rw [hfold]
  rfl

/-! ### The parts of the script -/

/-- Some facts of a module, after what is found of it. -/
def ModuleDir.note (o : Own) (d : ModuleDir) (f : ModuleFacts) : ModuleFacts where
  installed := d.installed || f.installed
  pendingUpdate := d.pending || f.pendingUpdate
  disabledMarker := d.disabled || f.disabledMarker
  removeMarker := d.removing || f.removeMarker
  helperMissing := (o = .pro && d.installed && !d.helper) || f.helperMissing
  version := (d.prop.bind (propValue "version")).or f.version
  versionCode := ((d.prop.bind (propValue "versionCode")).map
    (Text.parseUnsigned (2 ^ 32))).getD f.versionCode

/-- A marker of a module, where a test succeeds. -/
theorem reads_flag {marker : List Char} {f g : ModuleFacts → ModuleFacts}
    (h : OwnLine (marker ++ o.name))
    (hline : classifyLine (facts, none) (marker ++ o.name) = (facts.modify o f, none))
    (hg : g = fun m => if b then f m else m) :
    Reads (mark echo b (marker ++ o.name)) (facts, none) (facts.modify o g, none) := by
  subst hg
  have hmark : Reads (mark echo b (marker ++ o.name)) (facts, none) _ := reads_mark echo h
  rw [hline] at hmark
  cases b with
  | true => exact hmark
  | false =>
      have hid : facts.modify o (fun m => m) = facts := by cases o <;> rfl
      exact hid.symm ▸ hmark

theorem modify_modify (f g : ModuleFacts → ModuleFacts) :
    (facts.modify o f).modify o g = facts.modify o fun m => g (f m) := by
  cases o <;> rfl

theorem ownLine_marker (o : Own) : OwnLine ("INSTALLED ".toList ++ o.name) ∧
    OwnLine ("PENDING ".toList ++ o.name) ∧ OwnLine ("DISABLED ".toList ++ o.name) ∧
    OwnLine ("REMOVING ".toList ++ o.name) ∧ OwnLine ("PROP_BEGIN ".toList ++ o.name) ∧
    OwnLine ("NOHELPER ".toList ++ o.name) := by
  unfold OwnLine
  cases o <;> decide

/-- What the script says of the `module.prop` of a module. -/
theorem reads_propOf {d : ModuleDir}
    (h : ∀ text, d.prop = some text → TidyProp (Utf8.fromUtf8Lossy text)) :
    Reads (match d.prop with
      | some text => echo.print ("PROP_BEGIN ".toList ++ o.name) ++ (text ++
          echo.print "PROP_END".toList)
      | none => []) (facts, none)
      (facts.modify o fun f => { f with
        version := (d.prop.bind (propValue "version")).or f.version
        versionCode := ((d.prop.bind (propValue "versionCode")).map
          (Text.parseUnsigned (2 ^ 32))).getD f.versionCode }, none) := by
  cases hprop : d.prop with
  | none =>
      have hid : facts.modify o (fun m => m) = facts := by cases o <;> rfl
      exact hid.symm ▸ Reads.nil
  | some text =>
      have hbegin : Reads _ (facts, none) _ := reads_print echo (ownLine_marker o).2.2.2.2.1
      have howner : classifyLine (facts, none) ("PROP_BEGIN ".toList ++ o.name) =
          (facts, some o.name) := by cases o <;> rfl
      rw [howner] at hbegin
      exact hbegin.append (reads_prop echo (h text hprop))

/-- **What the script says of a module.** -/
theorem reads_module {d : ModuleDir}
    (h : ∀ text, d.prop = some text → TidyProp (Utf8.fromUtf8Lossy text)) :
    Reads (moduleOutput echo o d) (facts, none) (facts.modify o (d.note o), none) := by
  obtain ⟨h₁, h₂, h₃, h₄, -, h₅⟩ := ownLine_marker o
  have hinstalled : ∀ facts, Reads (mark echo d.installed ("INSTALLED ".toList ++ o.name))
      (facts, none) (facts.modify o fun m => { m with installed := d.installed || m.installed },
        none) := fun facts => reads_flag echo (f := fun m => { m with installed := true }) h₁
    (by cases o <;> rfl) (by cases d.installed <;> rfl)
  have hpending : ∀ facts, Reads (mark echo d.pending ("PENDING ".toList ++ o.name)) (facts, none)
      (facts.modify o fun m => { m with pendingUpdate := d.pending || m.pendingUpdate }, none) :=
    fun facts => reads_flag echo (f := fun m => { m with pendingUpdate := true }) h₂
      (by cases o <;> rfl) (by cases d.pending <;> rfl)
  have hdisabled : ∀ facts, Reads (mark echo d.disabled ("DISABLED ".toList ++ o.name))
      (facts, none) (facts.modify o fun m => { m with
        disabledMarker := d.disabled || m.disabledMarker }, none) :=
    fun facts => reads_flag echo (f := fun m => { m with disabledMarker := true }) h₃
      (by cases o <;> rfl) (by cases d.disabled <;> rfl)
  have hremoving : ∀ facts, Reads (mark echo d.removing ("REMOVING ".toList ++ o.name))
      (facts, none) (facts.modify o fun m => { m with
        removeMarker := d.removing || m.removeMarker }, none) :=
    fun facts => reads_flag echo (f := fun m => { m with removeMarker := true }) h₄
      (by cases o <;> rfl) (by cases d.removing <;> rfl)
  have hhelper : ∀ facts, Reads (mark echo (o = .pro && d.installed && !d.helper)
      ("NOHELPER ".toList ++ o.name)) (facts, none) (facts.modify o fun m => { m with
        helperMissing := (o = .pro && d.installed && !d.helper) || m.helperMissing }, none) :=
    fun facts => reads_flag echo (f := fun m => { m with helperMissing := true }) h₅
      (by cases o <;> rfl) (by cases (o = .pro && d.installed && !d.helper) <;> rfl)
  have hall := (((((hinstalled facts).append (hpending _)).append (hdisabled _)).append
    (hremoving _)).append (reads_propOf echo (o := o) h)).append (hhelper _)
  simp only [modify_modify] at hall
  exact hall

/-- The first of some with a property. -/
theorem find?_or {α : Type} (p : α → Bool) (v : α → List Char) (x : α) (xs : List α) :
    (if p x then some (v x) else none).or ((xs.find? p).map v) = ((x :: xs).find? p).map v := by
  rw [List.find?_cons]
  cases p x <;> rfl

/-- A runtime directory, if one is found, behind those found before. -/
def RootFacts.addRuntime (facts : RootFacts) (v : Option (List Char)) : RootFacts :=
  { facts with zygiskImpl := facts.zygiskImpl.or v }

/-- An implementation, and one that is disabled, behind those found before. -/
def RootFacts.addModule (facts : RootFacts) (v w : Option (List Char)) : RootFacts :=
  { facts with
    zygiskImplModule := facts.zygiskImplModule.or v
    zygiskImplDisabledModule := facts.zygiskImplDisabledModule.or w }

theorem addRuntime_none : facts.addRuntime none = facts := by
  rw [RootFacts.addRuntime, Option.or_none]

theorem addModule_none : facts.addModule none none = facts := by
  rw [RootFacts.addModule, Option.or_none, Option.or_none]

theorem addRuntime_addRuntime (v w : Option (List Char)) :
    (facts.addRuntime v).addRuntime w = facts.addRuntime (v.or w) := by
  simp only [RootFacts.addRuntime, Option.or_assoc]

theorem addModule_addModule (v w v' w' : Option (List Char)) :
    (facts.addModule v w).addModule v' w' = facts.addModule (v.or v') (w.or w') := by
  simp only [RootFacts.addModule, Option.or_assoc]

theorem valueBehind_append {p v : List Char} (hv : v ≠ []) : valueBehind p (p ++ v) = some v := by
  have hstart : Text.startsWith p (p ++ v) = true :=
    List.isPrefixOf_iff_prefix.mpr (List.prefix_append p v)
  rw [valueBehind, stripPrefix, if_pos hstart, List.drop_left]
  exact if_pos (decide_eq_true hv)

theorem classifyLine_runtime {v : List Char} (hv : v ≠ []) :
    classifyLine (facts, none) ("ZYGIMPL=".toList ++ v) = (facts.addRuntime (some v), none) := by
  have hline : classifyLine (facts, none) ("ZYGIMPL=".toList ++ v) = ({ facts with
      zygiskImpl := facts.zygiskImpl.or (valueBehind "ZYGIMPL=".toList ("ZYGIMPL=".toList ++ v))
      zygiskImplModule := facts.zygiskImplModule.or none
      zygiskImplDisabledModule := facts.zygiskImplDisabledModule.or none }, none) := rfl
  rw [hline, valueBehind_append hv, Option.or_none, Option.or_none]
  rfl

theorem classifyLine_module {v : List Char} (hv : v ≠ []) :
    classifyLine (facts, none) ("ZYGIMPLMOD ".toList ++ v) =
      (facts.addModule (some v) none, none) := by
  have hline : classifyLine (facts, none) ("ZYGIMPLMOD ".toList ++ v) = ({ facts with
      zygiskImpl := facts.zygiskImpl.or none
      zygiskImplModule :=
        facts.zygiskImplModule.or (valueBehind "ZYGIMPLMOD ".toList ("ZYGIMPLMOD ".toList ++ v))
      zygiskImplDisabledModule := facts.zygiskImplDisabledModule.or none }, none) := rfl
  rw [hline, valueBehind_append hv, Option.or_none]
  rfl

theorem classifyLine_off {v : List Char} (hv : v ≠ []) :
    classifyLine (facts, none) ("ZYGIMPL_OFF ".toList ++ v) =
      (facts.addModule none (some v), none) := by
  have hline : classifyLine (facts, none) ("ZYGIMPL_OFF ".toList ++ v) = ({ facts with
      zygiskImpl := facts.zygiskImpl.or none
      zygiskImplModule := facts.zygiskImplModule.or none
      zygiskImplDisabledModule := facts.zygiskImplDisabledModule.or
        (valueBehind "ZYGIMPL_OFF ".toList ("ZYGIMPL_OFF ".toList ++ v)) }, none) := rfl
  rw [hline, valueBehind_append hv, Option.or_none]
  rfl

/-- **What the script says of the runtime directories**: the first is kept. -/
theorem reads_runtime (runtime : List Char → Bool) :
    Reads (runtimeDirs.flatMap fun d => mark echo (runtime d.toList)
      ("ZYGIMPL=".toList ++ fileName d.toList)) (facts, none) (facts.addRuntime
        ((runtimeDirs.find? fun d => runtime d.toList).map fun d => fileName d.toList), none) := by
  have hown : ∀ d ∈ runtimeDirs, OwnLine ("ZYGIMPL=".toList ++ fileName d.toList) ∧
      fileName d.toList ≠ [] := by
    unfold OwnLine
    decide
  have hmark : ∀ d ∈ runtimeDirs, ∀ facts : RootFacts, Reads
      (mark echo (runtime d.toList) ("ZYGIMPL=".toList ++ fileName d.toList)) (facts, none)
      (facts.addRuntime (if runtime d.toList then some (fileName d.toList) else none), none) := by
    intro d hd facts
    obtain ⟨hline, hne⟩ := hown d hd
    have hreads : Reads (mark echo (runtime d.toList) _) (facts, none) _ := reads_mark echo hline
    rw [classifyLine_runtime hne] at hreads
    cases hb : runtime d.toList with
    | true =>
        rw [hb] at hreads
        exact hreads
    | false =>
        rw [if_neg Bool.false_ne_true, addRuntime_none]
        exact Reads.nil
  have hfold : ∀ (ds : List String) (facts : RootFacts), ds.foldl (fun facts d =>
      facts.addRuntime (if runtime d.toList then some (fileName d.toList) else none)) facts =
      facts.addRuntime ((ds.find? fun d => runtime d.toList).map fun d => fileName d.toList) := by
    intro ds
    induction ds with
    | nil =>
        intro facts
        exact addRuntime_none.symm
    | cons d ds ih =>
        intro facts
        rw [List.foldl_cons, ih, addRuntime_addRuntime]
        exact congrArg facts.addRuntime
          (find?_or (fun d => runtime d.toList) (fun d => fileName d.toList) d ds)
  have hreads : Reads (runtimeDirs.flatMap _) (facts, none) _ := reads_flatMap hmark
  rw [hfold] at hreads
  exact hreads

/-- A name on a line of its own, behind a marker. -/
theorem ownLine_behind {p n : List Char} (hp : ∃ c t, p = c :: t ∧ Text.isWhitespace c = false)
    (hslash : '\\' ∉ p) (hline : '\n' ∉ p) (hne : n ≠ []) (h : OwnLine n) : OwnLine (p ++ n) := by
  obtain ⟨c, t, rfl, hc⟩ := hp
  obtain ⟨hslash', hline', htrim⟩ := h
  refine ⟨fun hmem => (List.mem_append.mp hmem).elim hslash hslash',
    fun hmem => (List.mem_append.mp hmem).elim hline hline', ?_⟩
  refine Text.trim_eq_self (fun _ => hc) fun hne' => ?_
  rw [List.getLast_append_of_ne_nil _ hne]
  have hlast : ∀ h : Text.trim n ≠ [], Text.isWhitespace ((Text.trim n).getLast h) = false :=
    fun h => eq_false_of_ne_true (List.rdropWhile_last_not Text.isWhitespace (Text.trimStart n) h)
  rw [htrim] at hlast
  exact hlast hne

/-- What the script says of an entry. -/
theorem reads_entry {e : Entry} (h : e.implements = true → OwnLine e.name) :
    Reads (entryOutput echo e) (facts, none) (facts.addModule
      (if e.implements then some e.name else none)
      (if e.implements && e.disabled then some e.name else none), none) := by
  rw [entryOutput]
  cases hi : e.implements with
  | false =>
      simp only [Bool.false_eq_true, if_false, Bool.false_and]
      rw [addModule_none]
      exact Reads.nil
  | true =>
      have hmod : OwnLine ("ZYGIMPLMOD ".toList ++ e.name) :=
        ownLine_behind ⟨'Z', _, rfl, rfl⟩ (by decide) (by decide) e.name_ne (h hi)
      have hoff : OwnLine ("ZYGIMPL_OFF ".toList ++ e.name) :=
        ownLine_behind ⟨'Z', _, rfl, rfl⟩ (by decide) (by decide) e.name_ne (h hi)
      have hfirst : Reads _ (facts, none) _ := reads_print echo hmod
      rw [classifyLine_module e.name_ne] at hfirst
      refine hfirst.append ?_
      cases hd : e.disabled with
      | false => exact Reads.nil
      | true =>
          have hsecond : Reads _ (facts.addModule (some e.name) none, none) _ :=
            reads_print echo hoff
          rw [classifyLine_off e.name_ne, addModule_addModule] at hsecond
          exact hsecond

/-- **What the script says of the implementations**: the first, and the first that is disabled, are
kept. -/
theorem reads_entries {entries : List Entry}
    (h : ∀ e ∈ entries, e.implements = true → OwnLine e.name) :
    Reads (entries.flatMap (entryOutput echo)) (facts, none) (facts.addModule
      ((entries.find? Entry.implements).map Entry.name)
      ((entries.find? fun e => e.implements && e.disabled).map Entry.name), none) := by
  have hfold : ∀ (es : List Entry) (facts : RootFacts), es.foldl (fun facts e => facts.addModule
      (if e.implements then some e.name else none)
      (if e.implements && e.disabled then some e.name else none)) facts =
      facts.addModule ((es.find? Entry.implements).map Entry.name)
        ((es.find? fun e => e.implements && e.disabled).map Entry.name) := by
    intro es
    induction es with
    | nil =>
        intro facts
        exact addModule_none.symm
    | cons e es ih =>
        intro facts
        rw [List.foldl_cons, ih, addModule_addModule, find?_or Entry.implements Entry.name,
          find?_or (fun e => e.implements && e.disabled) Entry.name]
  have hreads : Reads (entries.flatMap _) (facts, none) _ :=
    reads_flatMap fun e he facts => reads_entry echo (h e he)
  rw [hfold] at hreads
  exact hreads

/-- What is said of the processes, if anything is. -/
def RootFacts.setDaemon (facts : RootFacts) (running : Option Bool) : RootFacts :=
  { facts with zygiskDaemonRunning := running }

/-- The lines that are neither about a module nor about a directory. -/
theorem classifyLine_plain (facts : RootFacts) :
    classifyLine (facts, none) "ROOT=1".toList = (facts, none) ∧
    classifyLine (facts, none) "PROBE_DONE=1".toList = (facts, none) ∧
    classifyLine (facts, none) "ZYGRUN=1".toList = (facts.setDaemon (some true), none) ∧
    classifyLine (facts, none) "ZYGRUN=0".toList = (facts.setDaemon (some false), none) := by
  have hother : ∀ running, ({ facts with
      zygiskImpl := facts.zygiskImpl.or none
      zygiskImplModule := facts.zygiskImplModule.or none
      zygiskImplDisabledModule := facts.zygiskImplDisabledModule.or none
      zygiskDaemonRunning := running } : RootFacts) = facts.setDaemon running := fun running => by
    rw [Option.or_none, Option.or_none, Option.or_none, RootFacts.setDaemon]
  exact ⟨congrArg (·, none) (hother facts.zygiskDaemonRunning),
    congrArg (·, none) (hother facts.zygiskDaemonRunning), congrArg (·, none) (hother _),
    congrArg (·, none) (hother _)⟩

theorem ownLine_plain : OwnLine "ROOT=1".toList ∧ OwnLine "PROBE_DONE=1".toList ∧
    OwnLine "ZYGRUN=1".toList ∧ OwnLine "ZYGRUN=0".toList := by
  unfold OwnLine
  decide

/-- What the script says of the processes. -/
theorem reads_daemon (comms : List Char) : Reads (daemonOutput echo comms) (facts, none)
    (facts.setDaemon (if comms = [] then facts.zygiskDaemonRunning else some (daemonRuns comms)),
      none) := by
  obtain ⟨-, -, hone, hzero⟩ := ownLine_plain
  obtain ⟨-, -, htrue, hfalse⟩ := classifyLine_plain facts
  rw [daemonOutput]
  split
  · exact Reads.nil
  · cases daemonRuns comms with
    | true =>
        have hreads : Reads _ (facts, none) _ := reads_print echo hone
        rw [htrue] at hreads
        exact hreads
    | false =>
        have hreads : Reads _ (facts, none) _ := reads_print echo hzero
        rw [hfalse] at hreads
        exact hreads

/-- What is found of a module is what it is. -/
theorem note_default (o : Own) (d : ModuleDir) : d.note o .default = d.facts o := by
  simp only [ModuleDir.note, ModuleDir.facts, ModuleFacts.default, Bool.or_false, Option.or_none]
  congr 1
  cases d.prop.bind (propValue "versionCode") <;> rfl

/-- An `echo` that gives no meaning to backslashes. -/
def plainEcho : Echo := ⟨fun s => Utf8.encode s ++ [10], fun _ => rfl⟩

/-- Both modules are installed, and nothing else is there. -/
def bothInstalled (text : String) : Device where
  pro := ⟨true, false, false, false, some (Utf8.encode text.toList), true⟩
  demo := ⟨true, false, false, false, none, true⟩
  runtime := fun _ => false
  entries := []
  comms := []

end RevBox.Zygisk
