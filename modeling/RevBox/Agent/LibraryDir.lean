import RevBox.Protocol.Envelope
import RevBox.Support.Split
import RevBox.Support.Trim
import Mathlib.Data.List.Nodup

/-!
# Agent — LibraryDir

The directory of a package's native libraries, read from what `dumpsys package` prints: by the
Agent (`provider/package.rs`), and by the desktop (`services/env_service.rs`, `adapters/adb.rs`).

* `libDirForAbi_iff`, `substituteAbi_cases`: both take a directory that is `…/lib`, or that with one
  of the two ABIs behind it, the one without blanks around it, the other without slashes behind it.
* `desktopFollows_iff`, `agentFollows_iff`, `neverEmpty_iff`: what either reports the other does, as
  far as the first value is no empty text where a later one counts, and ends in no slash.
* `one_meaning`: the directory has one meaning exactly so far.
-/

namespace RevBox.LibraryDir

open Text Split

/-- `legacyNativeLibraryDir=`. -/
def legacyKey : List Char := "legacyNativeLibraryDir=".toList

/-! ### The Agent -/

/-- `PackageDump`. -/
structure PackageDump where
  legacyNativeLibDir : Option (List Char) := none
  primaryCpuAbi : Option (List Char) := none
  codePath : Option (List Char) := none
  splits : List (List Char) := []
  distinctNativeLibDirs : Nat := 0

/-- `value_after`. -/
def valueAfter (line key : List Char) : Option (List Char) :=
  (splitOnce key line).map fun r => trim r.2

/-- What the Agent takes of a line, where a field has no value yet. -/
def PackageDump.read (dump : PackageDump) (line : List Char) : PackageDump where
  legacyNativeLibDir := dump.legacyNativeLibDir.or (valueAfter line legacyKey)
  primaryCpuAbi := dump.primaryCpuAbi.or <|
    (valueAfter line "primaryCpuAbi=".toList).filter fun v => v ≠ [] && v ≠ "null".toList
  codePath := dump.codePath.or <|
    (valueAfter line "codePath=".toList).filter fun v => v ≠ []
  splits :=
    if dump.splits ≠ [] then dump.splits
    else
      match valueAfter line "splits=[".toList with
      | some v => (((trimEndMatches ']' v).splitOn ',').map trim).filter fun entry => entry ≠ []
      | none => []
  distinctNativeLibDirs := dump.distinctNativeLibDirs

/-- The loop of `parse_package_dump`, of one line. -/
def readLine (st : PackageDump × List (List Char)) (line : List Char) :
    PackageDump × List (List Char) :=
  let line := trimEndMatches '\r' line
  (st.1.read line,
    match valueAfter line legacyKey with
    | some v => if v ∈ st.2 then st.2 else st.2 ++ [v]
    | none => st.2)

/-- `parse_package_dump`. -/
def parsePackageDump (text : List Char) : PackageDump :=
  let (dump, seenDirs) := (lines text).foldl readLine ({}, [])
  { dump with distinctNativeLibDirs := seenDirs.length }

/-- An ABI that can be asked for. -/
inductive Abi where
  | arm64
  | arm
  deriving DecidableEq

/-- Its name. -/
def Abi.name : Abi → List Char
  | .arm64 => "arm64".toList
  | .arm => "arm".toList

/-- The text names an ABI. -/
def isAbi (abi : List Char) : Bool := abi = Abi.arm64.name || abi = Abi.arm.name

/-- `abi_from_primary`. -/
def abiFromPrimary (primary : Option (List Char)) : List Char :=
  match primary with
  | some v =>
      if contains "armeabi".toList v && !contains "arm64".toList v then Abi.arm.name
      else Abi.arm64.name
  | none => Abi.arm64.name

/-- `Substituted`. -/
inductive Substituted where
  | exact (path : List Char)
  | unsubstituted (path : List Char)

/-- `substitute_abi`. -/
def substituteAbi (legacyDir abi : List Char) : Substituted :=
  let dir := trimEndMatches '/' legacyDir
  if !isAbi abi then .unsubstituted dir
  else if "/lib".toList.isSuffixOf dir then .exact (dir ++ '/' :: abi)
  else
    match (stripSuffix "/lib/arm64".toList dir).or (stripSuffix "/lib/arm".toList dir) with
    | some base => .exact (base ++ "/lib/".toList ++ abi)
    | none => .unsubstituted dir

/-- `NativeLibDirSource`. -/
inductive NativeLibDirSource where
  | frameworkField
  | derivedFromCodePath
  deriving DecidableEq

/-- `PackageNativeLibDirResult`. -/
structure PackageNativeLibDirResult where
  package : String
  nativeLibDir : List Char
  abi : List Char
  primaryCpuAbi : Option (List Char)
  codePath : Option (List Char)
  splits : List (List Char)
  user : Option Nat
  source : NativeLibDirSource
  detail : Option (List Char)

/-- `native_lib_dir_not_substitutable`. -/
def notSubstitutable : List Char := "native_lib_dir_not_substitutable".toList

/-- The detail, with how many directories there are when there are several. -/
def withBlocks (distinct : Nat) (detail : Option (List Char)) : Option (List Char) :=
  if 1 < distinct then
    let blocks := "multiple_package_blocks=".toList ++ decimal distinct
    match detail with
    | some existing => some (existing ++ ';' :: blocks)
    | none => some blocks
  else detail

/-- `resolve_native_lib_dir`, of what `dumpsys` has printed. -/
def resolveNativeLibDir (package : String) (abi : Option (List Char)) (user : Option Nat)
    (text : List Char) : Except AgentError PackageNativeLibDirResult :=
  if abi.any fun other => !isAbi other then
    .error (.new .invalidRequest s!"ABI 只支持 arm64/arm，收到 {String.ofList (abi.getD [])}")
  else
    let dump := parsePackageDump text
    if dump.legacyNativeLibDir = none ∧ dump.codePath = none then
      .error ((AgentError.new .notFound s!"未找到 {package} 的安装信息（未安装或无权限）").withDetails
        (reasonDetails "package_not_found"))
    else
      let resolvedAbi := abi.getD (abiFromPrimary dump.primaryCpuAbi)
      let (nativeLibDir, source, detail) :=
        match dump.legacyNativeLibDir with
        | some legacy =>
            match substituteAbi legacy resolvedAbi with
            | .exact path => (path, NativeLibDirSource.frameworkField, none)
            | .unsubstituted path => (path, .frameworkField, some notSubstitutable)
        | none =>
            (dump.codePath.getD [] ++ "/lib/".toList ++ resolvedAbi, .derivedFromCodePath,
              some "derived_from_code_path".toList)
      .ok ⟨package, nativeLibDir, resolvedAbi, dump.primaryCpuAbi, dump.codePath, dump.splits, user,
        source, withBlocks dump.distinctNativeLibDirs detail⟩

/-! ### The desktop -/

/-- `parse_legacy_native_lib`. -/
def parseLegacyNativeLib (stdout : List Char) : Option (List Char) :=
  (lines stdout).findSome? fun line =>
    ((splitOnce legacyKey line).map fun r => trim r.2).filter fun v => v ≠ []

/-- `lib_dir_for_abi`. -/
def libDirForAbi (legacyNativeDir abi : List Char) : Option (List Char) :=
  let dir := trim legacyNativeDir
  if !isAbi abi then none
  else
    match stripSuffix "/lib".toList dir with
    | some pre => some (pre ++ "/lib/".toList ++ abi)
    | none =>
        match rsplitOnce "/lib/".toList dir with
        | some (pre, tail) => if isAbi tail then some (pre ++ "/lib/".toList ++ abi) else none
        | none => none

/-- The directory by the desktop. -/
def desktopDir (abi : Abi) (text : List Char) : Option (List Char) :=
  (parseLegacyNativeLib text).bind fun legacy => libDirForAbi legacy abi.name

/-! ### What is promised -/

variable (package : String) (user : Option Nat) (abi : Abi) (text : List Char)

/-- A directory that the Agent reports by the framework's field, with nothing to remark, is the
desktop's. -/
def DesktopFollows : Prop :=
  ∀ r, resolveNativeLibDir package (some abi.name) user text = .ok r →
    r.source = .frameworkField → r.detail = none → desktopDir abi text = some r.nativeLibDir

/-- A directory of the desktop's is reported by the Agent. -/
def AgentFollows : Prop :=
  ∀ dir, desktopDir abi text = some dir →
    ∃ r, resolveNativeLibDir package (some abi.name) user text = .ok r ∧ r.nativeLibDir = dir

/-- A directory that is reported is not empty. -/
def NeverEmpty : Prop :=
  ∀ r, resolveNativeLibDir package (some abi.name) user text = .ok r → r.nativeLibDir ≠ []

/-- The report says that the directory is derived or was not substituted. -/
def PackageNativeLibDirResult.Marked (r : PackageNativeLibDirResult) : Prop :=
  r.source = .derivedFromCodePath ∨ ∃ detail, r.detail = some detail ∧ notSubstitutable <+: detail

/-- A directory that is reported, and is not marked, is one of the ABI's. -/
def EndsInAbi : Prop :=
  ∀ r, resolveNativeLibDir package (some abi.name) user text = .ok r → ¬ r.Marked →
    "/lib/".toList ++ abi.name <:+ r.nativeLibDir

/-- The values of the field. -/
def values : List (List Char) := (lines text).filterMap fun line => valueAfter line legacyKey

/-- A directory is `…/lib`, or that with one of the ABIs behind it. -/
def LibOf (base dir : List Char) : Prop :=
  dir = base ++ "/lib".toList ∨ dir = base ++ "/lib/arm64".toList ∨ dir = base ++ "/lib/arm".toList

/-- The condition for the desktop: the field's only value does not end in a slash, if without it
it is a directory of libraries. -/
def NoSlash : Prop :=
  ∀ v, (values text).head? = some v → (∀ w ∈ values text, w = v) →
    (∃ base, LibOf base (trimEndMatches '/' v)) → v.getLast? ≠ some '/'

/-- The condition for the Agent: the first value is not empty, if the first one that is not is a
directory of libraries. -/
def FirstCounts : Prop :=
  (values text).head? = some [] → ∀ v, (values text).find? (fun v => v ≠ []) = some v →
    ¬ ∃ base, LibOf base v

/-- The condition for a directory not to be empty: the first value is not made of slashes. -/
def NotSlashes : Prop := ∀ v, (values text).head? = some v → ∃ c ∈ v, c ≠ '/'

/-! ### A directory of libraries -/

variable {abi text} {base dir v : List Char}

/-- What a directory of libraries is of is determined. -/
theorem LibOf.unique {base' : List Char} (h : LibOf base dir) (h' : LibOf base' dir) :
    base = base' := by
  have hlast : ∀ {x y s t : List Char}, x ++ s = y ++ t → s ≠ [] → t ≠ [] →
      s.getLast? = t.getLast? := by
    intro x y s t heq hs ht
    have h := congrArg List.getLast? heq
    rwa [List.getLast?_append_of_ne_nil _ hs, List.getLast?_append_of_ne_nil _ ht] at h
  rcases h with rfl | rfl | rfl <;> rcases h' with h' | h' | h'
  all_goals
    first
    | exact List.append_cancel_right h'
    | exact absurd (hlast h' (by decide) (by decide)) (by decide)

/-- The directory of an ABI's libraries. -/
def libDir (base : List Char) (abi : Abi) : List Char := base ++ "/lib/".toList ++ abi.name

theorem libDir_ne_nil : libDir base abi ≠ [] := by simp [libDir]

theorem isAbi_name (abi : Abi) : isAbi abi.name = true := by cases abi <;> decide

theorem isAbi_iff {s : List Char} : isAbi s = true ↔ ∃ abi : Abi, s = abi.name := by
  constructor
  · intro h
    rcases (Bool.or_eq_true _ _).mp h with h | h
    · exact ⟨.arm64, of_decide_eq_true h⟩
    · exact ⟨.arm, of_decide_eq_true h⟩
  · rintro ⟨abi, rfl⟩
    exact isAbi_name abi

theorem libOf_name {abi : Abi} : LibOf base (base ++ "/lib/".toList ++ abi.name) := by
  cases abi with
  | arm64 => exact .inr (.inl (by rw [List.append_assoc]; rfl))
  | arm => exact .inr (.inr (by rw [List.append_assoc]; rfl))

/-- A directory that ends in an ABI does not end in `/lib`. -/
theorem stripSuffix_lib_name {abi : Abi} :
    stripSuffix "/lib".toList (base ++ "/lib/".toList ++ abi.name) = none := by
  refine Option.eq_none_iff_forall_ne_some.mpr fun pre h => ?_
  have hlast := congrArg List.getLast? (stripSuffix_eq_some_iff.mp h)
  cases abi <;> simp [Abi.name] at hlast

/-- **The desktop's rule.** -/
theorem libDirForAbi_iff :
    libDirForAbi v abi.name = some dir ↔ ∃ base, LibOf base (trim v) ∧ dir = libDir base abi := by
  have hcases : ∀ s : List Char, (match stripSuffix "/lib".toList s with
      | some pre => some (pre ++ "/lib/".toList ++ abi.name)
      | none =>
          match rsplitOnce "/lib/".toList s with
          | some (pre, tail) =>
              if isAbi tail then some (pre ++ "/lib/".toList ++ abi.name) else none
          | none => none) = some dir ↔ ∃ base, LibOf base s ∧ dir = libDir base abi := by
    intro s
    constructor
    · intro h
      split at h
      case h_1 pre hpre =>
        exact ⟨pre, .inl (stripSuffix_eq_some_iff.mp hpre), (Option.some.inj h).symm⟩
      case h_2 =>
        split at h
        case h_1 pre tail hcut =>
          split_ifs at h with htail
          obtain ⟨other, rfl⟩ := isAbi_iff.mp htail
          have hs := rsplitOnce_sound hcut
          rw [← List.append_assoc] at hs
          exact ⟨pre, hs ▸ libOf_name, (Option.some.inj h).symm⟩
        case h_2 => cases h
    · rintro ⟨base, hlib, rfl⟩
      have hname : ∀ other : Abi, s = base ++ "/lib/".toList ++ other.name →
          (match stripSuffix "/lib".toList s with
          | some pre => some (pre ++ "/lib/".toList ++ abi.name)
          | none =>
              match rsplitOnce "/lib/".toList s with
              | some (pre, tail) =>
                  if isAbi tail then some (pre ++ "/lib/".toList ++ abi.name) else none
              | none => none) = some (libDir base abi) := by
        rintro other rfl
        have hcut : rsplitOnce "/lib/".toList (base ++ "/lib/".toList ++ other.name) =
            some (base, other.name) := by
          have hslash : '/' ∉ other.name := by cases other <;> decide
          have hends : "/lib/".toList = "/lib".toList ++ ['/'] := by decide
          rw [List.append_assoc, hends]
          exact rsplitOnce_append base hslash
        rw [stripSuffix_lib_name, hcut]
        simp only [isAbi_name, if_true]
        rfl
      rcases hlib with rfl | rfl | rfl
      · rw [stripSuffix_eq_some_iff.mpr rfl]
        rfl
      · exact hname .arm64 (by rw [List.append_assoc]; rfl)
      · exact hname .arm (by rw [List.append_assoc]; rfl)
  unfold libDirForAbi
  simp only [isAbi_name, Bool.not_true, Bool.false_eq_true, if_false]
  exact hcases _

/-- **The Agent's rule.** -/
theorem substituteAbi_cases (v : List Char) (abi : Abi) :
    (∃ base, LibOf base (trimEndMatches '/' v) ∧
      substituteAbi v abi.name = .exact (libDir base abi)) ∨
    (¬ ∃ base, LibOf base (trimEndMatches '/' v)) ∧
      substituteAbi v abi.name = .unsubstituted (trimEndMatches '/' v) := by
  generalize hdir : trimEndMatches '/' v = d
  have hunfold : substituteAbi v abi.name =
      if "/lib".toList.isSuffixOf d then .exact (d ++ '/' :: abi.name)
      else
        match (stripSuffix "/lib/arm64".toList d).or (stripSuffix "/lib/arm".toList d) with
        | some base => .exact (base ++ "/lib/".toList ++ abi.name)
        | none => .unsubstituted d := by
    unfold substituteAbi
    simp only [isAbi_name, Bool.not_true, Bool.false_eq_true, if_false, hdir]
  rw [hunfold]
  by_cases hlib : "/lib".toList <:+ d
  · obtain ⟨base, rfl⟩ := hlib
    refine .inl ⟨base, .inl rfl, ?_⟩
    simp [libDir]
  · have hno : "/lib".toList.isSuffixOf d = false :=
      Bool.eq_false_iff.mpr fun h => hlib (List.isSuffixOf_iff_suffix.mp h)
    rw [hno, if_neg Bool.false_ne_true]
    cases h : (stripSuffix "/lib/arm64".toList d).or (stripSuffix "/lib/arm".toList d) with
    | some base =>
        refine .inl ⟨base, .inr ?_, rfl⟩
        rcases Option.or_eq_some_iff.mp h with h | ⟨-, h⟩
        · exact .inl (stripSuffix_eq_some_iff.mp h)
        · exact .inr (stripSuffix_eq_some_iff.mp h)
    | none =>
        obtain ⟨h64, h32⟩ := Option.or_eq_none_iff.mp h
        refine .inr ⟨?_, rfl⟩
        rintro ⟨base, rfl | rfl | rfl⟩
        · exact hlib ⟨base, rfl⟩
        · rw [stripSuffix_eq_some_iff.mpr rfl] at h64
          cases h64
        · rw [stripSuffix_eq_some_iff.mpr rfl] at h32
          cases h32

/-! ### The values of the field -/

theorem valueAfter_trimEnd {key : List Char} (hkey : key ≠ []) (hr : '\r' ∉ key)
    (line : List Char) : valueAfter (trimEndMatches '\r' line) key = valueAfter line key := by
  induction line using List.reverseRecOn with
  | nil => rfl
  | append_singleton line c ih =>
      by_cases hc : c = '\r'
      · subst hc
        rw [trimEndMatches_concat, ih, valueAfter, valueAfter, splitOnce_concat hkey hr,
          Option.map_map]
        refine Option.map_congr fun r _ => ?_
        exact (trim_concat (by decide) r.2).symm
      · rw [trimEndMatches_eq_self_iff.mpr (by simpa using hc)]

/-- What a line adds to what is read. -/
theorem readLine_spec (st : PackageDump × List (List Char)) (line : List Char) :
    (readLine st line).1.legacyNativeLibDir =
        st.1.legacyNativeLibDir.or (valueAfter line legacyKey) ∧
      (∀ v, v ∈ (readLine st line).2 ↔ v ∈ st.2 ∨ valueAfter line legacyKey = some v) ∧
      (st.2.Nodup → (readLine st line).2.Nodup) := by
  have hkey : valueAfter (trimEndMatches '\r' line) legacyKey = valueAfter line legacyKey :=
    valueAfter_trimEnd (by decide) (by decide) line
  refine ⟨?_, fun v => ?_, fun hnodup => ?_⟩
  · simp only [readLine, PackageDump.read, hkey]
  · simp only [readLine, hkey]
    cases h : valueAfter line legacyKey with
    | none => simp
    | some own =>
        by_cases hown : own ∈ st.2
        · simp only [hown, if_true, Option.some.injEq]
          exact ⟨.inl, fun hv => hv.elim id fun heq => heq ▸ hown⟩
        · simp only [hown, if_false, List.mem_append, List.mem_singleton, Option.some.injEq]
          exact or_congr_right eq_comm
  · simp only [readLine, hkey]
    cases valueAfter line legacyKey with
    | none => exact hnodup
    | some own =>
        by_cases hown : own ∈ st.2
        · simpa [hown] using hnodup
        · simp only [hown, if_false]
          exact List.nodup_append.mpr ⟨hnodup, List.nodup_singleton _, fun a ha b hb he =>
            hown (List.mem_singleton.mp hb ▸ he ▸ ha)⟩

theorem readLines_spec (ls : List (List Char)) (st : PackageDump × List (List Char)) :
    (ls.foldl readLine st).1.legacyNativeLibDir = st.1.legacyNativeLibDir.or
        (ls.filterMap fun line => valueAfter line legacyKey).head? ∧
      (∀ v, v ∈ (ls.foldl readLine st).2 ↔
        v ∈ st.2 ∨ v ∈ ls.filterMap fun line => valueAfter line legacyKey) ∧
      (st.2.Nodup → (ls.foldl readLine st).2.Nodup) := by
  induction ls generalizing st with
  | nil => simp
  | cons line ls ih =>
      obtain ⟨hlegacy, hmem, hnodup⟩ := readLine_spec st line
      obtain ⟨ihlegacy, ihmem, ihnodup⟩ := ih (readLine st line)
      rw [List.foldl_cons]
      refine ⟨?_, fun v => ?_, fun h => ihnodup (hnodup h)⟩
      · rw [ihlegacy, hlegacy, Option.or_assoc]
        cases h : valueAfter line legacyKey <;> simp [h]
      · rw [ihmem, hmem, or_assoc]
        cases h : valueAfter line legacyKey <;> simp [h, eq_comm]

/-- The Agent takes the first value, and counts how many there are. -/
theorem parsePackageDump_spec (text : List Char) :
    (parsePackageDump text).legacyNativeLibDir = (values text).head? ∧
      ((parsePackageDump text).distinctNativeLibDirs ≤ 1 ↔
        ∀ v ∈ values text, ∀ w ∈ values text, v = w) := by
  obtain ⟨hlegacy, hmem, hnodup⟩ := readLines_spec (lines text) ({}, [])
  have hseen : ∀ v, v ∈ ((lines text).foldl readLine ({}, [])).2 ↔ v ∈ values text := by
    intro v
    rw [hmem]
    simp [values]
  refine ⟨by simpa [parsePackageDump, values] using hlegacy, ?_⟩
  show ((lines text).foldl readLine ({}, [])).2.length ≤ 1 ↔ _
  constructor
  · intro hlen v hv w hw
    rw [← hseen] at hv hw
    match hl : ((lines text).foldl readLine ({}, [])).2, hlen with
    | [], _ => rw [hl] at hv; cases hv
    | [u], _ =>
        rw [hl] at hv hw
        rw [List.mem_singleton.mp hv, List.mem_singleton.mp hw]
  · intro hall
    match hl : ((lines text).foldl readLine ({}, [])).2 with
    | [] => simp
    | [u] => simp
    | u :: v :: rest =>
        have hdup := hnodup List.nodup_nil
        rw [hl] at hdup
        have huv := hall u ((hseen u).mp (by rw [hl]; simp)) v ((hseen v).mp (by rw [hl]; simp))
        exact absurd (huv ▸ List.mem_cons_self) (List.nodup_cons.mp hdup).1

/-- The desktop takes the first value that is not empty. -/
theorem parseLegacyNativeLib_eq (text : List Char) :
    parseLegacyNativeLib text = (values text).find? fun v => v ≠ [] := by
  unfold parseLegacyNativeLib values
  induction lines text with
  | nil => rfl
  | cons line ls ih =>
      rw [List.findSome?_cons, ih, List.filterMap_cons]
      cases h : valueAfter line legacyKey with
      | none => rw [show (splitOnce legacyKey line).map (fun r => trim r.2) = none from h]; rfl
      | some v =>
          rw [show (splitOnce legacyKey line).map (fun r => trim r.2) = some v from h]
          by_cases hv : v = []
          · simp [hv, Option.filter]
          · simp [hv, Option.filter]

/-- A value has no blanks around it. -/
theorem trim_value {v : List Char} (hv : v ∈ values text) : trim v = v := by
  obtain ⟨line, -, hline⟩ := List.mem_filterMap.mp hv
  obtain ⟨r, -, rfl⟩ := Option.map_eq_some_iff.mp hline
  exact trim_trim r.2

/-- **The directory by the desktop.** -/
theorem desktopDir_iff : desktopDir abi text = some dir ↔
    ∃ v base, (values text).find? (fun v => v ≠ []) = some v ∧ LibOf base v ∧
      dir = libDir base abi := by
  rw [desktopDir, parseLegacyNativeLib_eq, Option.bind_eq_some_iff]
  constructor
  · rintro ⟨v, hv, h⟩
    obtain ⟨base, hlib, rfl⟩ := libDirForAbi_iff.mp h
    rw [trim_value (List.mem_of_find?_eq_some hv)] at hlib
    exact ⟨v, base, hv, hlib, rfl⟩
  · rintro ⟨v, base, hv, hlib, rfl⟩
    refine ⟨v, hv, libDirForAbi_iff.mpr ⟨base, ?_, rfl⟩⟩
    rwa [trim_value (List.mem_of_find?_eq_some hv)]

/-! ### The report -/

theorem withBlocks_none {n : Nat} {detail : Option (List Char)} :
    withBlocks n detail = none ↔ detail = none ∧ n ≤ 1 := by
  unfold withBlocks
  by_cases h : 1 < n
  · cases detail <;> simp [h]
  · simp only [h, if_false]
    exact (and_iff_left (Nat.le_of_not_lt h)).symm

theorem withBlocks_some (n : Nat) (detail : List Char) :
    ∃ marked, withBlocks n (some detail) = some marked ∧ detail <+: marked := by
  unfold withBlocks
  by_cases h : 1 < n
  · exact ⟨_, by rw [if_pos h], List.prefix_append _ _⟩
  · exact ⟨detail, by rw [if_neg h], List.prefix_rfl⟩

variable {package : String} {user : Option Nat}

/-- What the Agent reports where the field has a value. -/
theorem resolve_value (package : String) (user : Option Nat) (abi : Abi)
    (h : (values text).head? = some v) :
    ∃ r, resolveNativeLibDir package (some abi.name) user text = .ok r ∧
      r.source = .frameworkField ∧
      ((∃ base, LibOf base (trimEndMatches '/' v) ∧ r.nativeLibDir = libDir base abi) ∧
          (r.detail = none ↔ ∀ w ∈ values text, w = v) ∨
        (¬ ∃ base, LibOf base (trimEndMatches '/' v)) ∧
          r.nativeLibDir = trimEndMatches '/' v ∧ r.detail ≠ none ∧ r.Marked) := by
  obtain ⟨hlegacy, hdistinct⟩ := parsePackageDump_spec text
  rw [h] at hlegacy
  have hmem : v ∈ values text := List.mem_of_head? h
  have hsame : (∀ u ∈ values text, ∀ w ∈ values text, u = w) ↔ ∀ w ∈ values text, w = v :=
    ⟨fun hall w hw => hall w hw v hmem, fun hall u hu w hw => (hall u hu).trans (hall w hw).symm⟩
  unfold resolveNativeLibDir
  simp only [Option.any_some, isAbi_name, Bool.not_true, Bool.false_eq_true, if_false, hlegacy,
    reduceCtorEq, false_and, Option.getD_some]
  rcases substituteAbi_cases v abi with ⟨base, hlib, hexact⟩ | ⟨hno, hexact⟩
  · rw [hexact]
    refine ⟨_, rfl, rfl, .inl ⟨⟨base, hlib, rfl⟩, ?_⟩⟩
    rw [withBlocks_none, hdistinct, hsame]
    exact and_iff_right rfl
  · rw [hexact]
    obtain ⟨marked, hmarked, hprefix⟩ :=
      withBlocks_some (parsePackageDump text).distinctNativeLibDirs notSubstitutable
    refine ⟨_, rfl, rfl, .inr ⟨hno, rfl, ?_, .inr ⟨marked, hmarked, hprefix⟩⟩⟩
    rw [hmarked]
    nofun

/-- What the Agent reports where the field has none. -/
theorem resolve_derived (h : (values text).head? = none) {r : PackageNativeLibDirResult}
    (hr : resolveNativeLibDir package (some abi.name) user text = .ok r) :
    r.source = .derivedFromCodePath ∧ r.nativeLibDir ≠ [] := by
  obtain ⟨hlegacy, -⟩ := parsePackageDump_spec text
  rw [h] at hlegacy
  unfold resolveNativeLibDir at hr
  simp only [Option.any_some, isAbi_name, Bool.not_true, Bool.false_eq_true, if_false, hlegacy,
    true_and, Option.getD_some] at hr
  split_ifs at hr
  cases hr
  exact ⟨rfl, libDir_ne_nil⟩

theorem LibOf.ne_nil (h : LibOf base dir) : dir ≠ [] := by
  rcases h with rfl | rfl | rfl <;> simp

theorem LibOf.last (h : LibOf base dir) : dir.getLast? ≠ some '/' := by
  rcases h with rfl | rfl | rfl <;> simp

theorem trimEndMatches_eq_nil_iff : trimEndMatches '/' v = [] ↔ ¬ ∃ c ∈ v, c ≠ '/' := by
  have h : trimEndMatches '/' v = [] ↔ ∀ c ∈ v, decide (c = '/') = true :=
    List.rdropWhile_eq_nil_iff
  rw [h]
  push Not
  simp

/-! ### One meaning -/

theorem desktopFollows_iff : DesktopFollows package user abi text ↔ NoSlash text := by
  constructor
  · rintro h v hv hall ⟨base, hlib⟩ hslash
    obtain ⟨r, hr, hsource, ⟨-, hdetail⟩ | ⟨hno, -⟩⟩ := resolve_value package user abi hv
    · obtain ⟨w, base', hw, hlib', -⟩ := desktopDir_iff.mp (h r hr hsource (hdetail.mpr hall))
      rw [hall w (List.mem_of_find?_eq_some hw)] at hlib'
      exact hlib'.last hslash
    · exact hno ⟨base, hlib⟩
  · intro h r hr hsource hdetail
    cases hv : (values text).head? with
    | none =>
        rw [(resolve_derived hv hr).1] at hsource
        cases hsource
    | some v =>
        obtain ⟨r', hr', -, ⟨⟨base, hlib, hdir⟩, hiff⟩ | ⟨-, -, hmarked, -⟩⟩ :=
          resolve_value package user abi hv
        · cases hr.symm.trans hr'
          have hall := hiff.mp hdetail
          have hself := trimEndMatches_eq_self_iff.mpr (h v hv hall ⟨base, hlib⟩)
          rw [hself] at hlib
          obtain ⟨rest, hrest⟩ := List.head?_eq_some_iff.mp hv
          refine desktopDir_iff.mpr ⟨v, base, ?_, hlib, hdir⟩
          rw [hrest, List.find?_cons_of_pos (by simpa using hlib.ne_nil)]
        · cases hr.symm.trans hr'
          exact absurd hdetail hmarked

theorem agentFollows_iff : AgentFollows package user abi text ↔ FirstCounts text := by
  constructor
  · rintro h hhead v hv ⟨base, hlib⟩
    obtain ⟨r, hr, hdir⟩ := h _ (desktopDir_iff.mpr ⟨v, base, hv, hlib, rfl⟩)
    obtain ⟨r', hr', -, ⟨⟨base', hlib', -⟩, -⟩ | ⟨-, hempty, -⟩⟩ :=
      resolve_value package user abi hhead
    · exact hlib'.ne_nil rfl
    · cases hr.symm.trans hr'
      exact libDir_ne_nil (hdir.symm.trans hempty)
  · intro h dir hdir
    obtain ⟨v, base, hv, hlib, rfl⟩ := desktopDir_iff.mp hdir
    have hhead : (values text).head? = some v := by
      cases hvalues : values text with
      | nil => rw [hvalues] at hv; cases hv
      | cons first rest =>
          by_cases hfirst : first = []
          · exact absurd ⟨base, hlib⟩ (h (by rw [hvalues, hfirst]; rfl) v hv)
          · rw [hvalues, List.find?_cons_of_pos (by simpa using hfirst)] at hv
            exact hv
    have hself := trimEndMatches_eq_self_iff.mpr hlib.last
    obtain ⟨r, hr, -, ⟨⟨base', hlib', hsame⟩, -⟩ | ⟨hno, -⟩⟩ := resolve_value package user abi hhead
    · rw [hself] at hlib'
      exact ⟨r, hr, by rw [hsame, hlib'.unique hlib]⟩
    · rw [hself] at hno
      exact absurd ⟨base, hlib⟩ hno

theorem neverEmpty_iff : NeverEmpty package user abi text ↔ NotSlashes text := by
  constructor
  · intro h v hv
    by_contra hslashes
    have hnil := trimEndMatches_eq_nil_iff.mpr hslashes
    obtain ⟨r, hr, -, ⟨⟨base, hlib, -⟩, -⟩ | ⟨-, hdir, -⟩⟩ := resolve_value package user abi hv
    · exact hlib.ne_nil hnil
    · exact h r hr (hdir.trans hnil)
  · intro h r hr
    cases hv : (values text).head? with
    | none => exact (resolve_derived hv hr).2
    | some v =>
        obtain ⟨r', hr', -, ⟨⟨base, -, hdir⟩, -⟩ | ⟨-, hdir, -⟩⟩ :=
          resolve_value package user abi hv
        · cases hr.symm.trans hr'
          rw [hdir]
          exact libDir_ne_nil
        · cases hr.symm.trans hr'
          rw [hdir]
          exact fun hnil => trimEndMatches_eq_nil_iff.mp hnil (h v hv)

theorem endsInAbi : EndsInAbi package user abi text := by
  intro r hr hmarked
  cases hv : (values text).head? with
  | none => exact absurd (.inl (resolve_derived hv hr).1) hmarked
  | some v =>
      obtain ⟨r', hr', -, ⟨⟨base, -, hdir⟩, -⟩ | ⟨-, -, -, hmark⟩⟩ :=
        resolve_value package user abi hv
      · cases hr.symm.trans hr'
        exact ⟨base, by rw [hdir, libDir, List.append_assoc]⟩
      · cases hr.symm.trans hr'
        exact absurd hmark hmarked

/-- **The directory has one meaning**, exactly as far as the field's only value, where it is a
directory of libraries, is written without a slash behind it, no empty value stands before one that
is such a directory, and the first value is not made of slashes. -/
theorem one_meaning (package : String) (user : Option Nat) (abi : Abi) (text : List Char) :
    (DesktopFollows package user abi text ∧ AgentFollows package user abi text ∧
        NeverEmpty package user abi text ∧ EndsInAbi package user abi text) ↔
      NoSlash text ∧ FirstCounts text ∧ NotSlashes text := by
  rw [desktopFollows_iff, agentFollows_iff, neverEmpty_iff]
  constructor
  · rintro ⟨hslash, hfirst, hnot, -⟩
    exact ⟨hslash, hfirst, hnot⟩
  · rintro ⟨hslash, hfirst, hnot⟩
    exact ⟨hslash, hfirst, hnot, endsInAbi⟩

/-- Behind `/a/lib/` the Agent puts the ABI, and the desktop finds no directory. -/
theorem slash_behind_directory :
    ¬ ∀ (package : String) (user : Option Nat) (abi : Abi) (text : List Char),
      DesktopFollows package user abi text ∧ AgentFollows package user abi text ∧
        NeverEmpty package user abi text ∧ EndsInAbi package user abi text := by
  intro h
  have hdir := (h "a" none .arm64 "legacyNativeLibraryDir=/a/lib/".toList).1 _ rfl rfl rfl
  exact absurd hdir (by decide)

end RevBox.LibraryDir
