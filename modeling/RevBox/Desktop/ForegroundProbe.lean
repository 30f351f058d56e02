import RevBox.Agent.Activity
import RevBox.Support.ShellWords

/-!
# Desktop — ForegroundProbe

`foreground_legacy` of `services/env_service.rs`: the commands it hands to the shell of the device,
made from what `dumpsys window` and `pidof` printed, and what the shell reads.

* `Probe`: the commands, as text and as they are meant.
* `probes_read_iff`: every command is read as it is meant exactly if the extracted package is
  literal text.
* `literal_of_safe`: a package name that the Agent's leg lets through is.
-/

namespace RevBox.ForegroundProbe

open Shell Text

/-! ### Reading what the device printed -/

/-- `parse_foreground_window`, one line. -/
def parseForegroundLine (line : List Char) : Option (List Char × List Char) :=
  let t := trim line
  if !(startsWith "mCurrentFocus".toList t || startsWith "mFocusedWindow".toList t) then none
  else
    match find '\x7b' t with
    | none => none
    | some brace =>
        let inner := trimEndMatches '\x7d' (t.drop (brace + 1))
        match (splitWhitespace inner).find? fun s => decide ('/' ∈ s) with
        | none => none
        | some activityPart =>
            match splitn '/' 2 activityPart with
            | package :: activity :: _ =>
                if package ≠ [] ∧ activity ≠ [] then some (package, activity) else none
            | _ => none

/-- `parse_foreground_window`. -/
def parseForegroundWindow (stdout : List Char) : Option (List Char × List Char) :=
  (lines stdout).findSome? parseForegroundLine

/-- `parse_pidof`. -/
def parsePidof (stdout : List Char) : Option (List Char) :=
  (splitWhitespace stdout).head?.filter fun s => s ≠ [] && s.all isAsciiDigit

/-! ### The commands -/

/-- A command for the shell of the device. -/
inductive Probe where
  | window
  | pidof (package : List Char)
  | nativeLibrary (package : List Char)
  | thirdParty (package : List Char)
  | cmdline (pid : List Char)
  | status (pid : List Char)
  deriving DecidableEq

/-- Its text. -/
def Probe.text : Probe → List Char
  | .window => "dumpsys window".toList
  | .pidof package => "pidof ".toList ++ package
  | .nativeLibrary package =>
      "dumpsys package ".toList ++ (package ++ " | grep legacyNativeLibraryDir".toList)
  | .thirdParty package =>
      "pm list packages -3 | grep -q package:".toList ++
        (package ++ " && echo third_party || echo not_third_party".toList)
  | .cmdline pid => "cat /proc/".toList ++ (pid ++ "/cmdline".toList)
  | .status pid => "head -4 /proc/".toList ++ (pid ++ "/status".toList)

/-- A simple command without redirections. -/
def simple (args : List (List Char)) : Item := .command args []

/-- What it is meant to be. -/
def Probe.intended : Probe → List Item
  | .window => [simple ["dumpsys".toList, "window".toList]]
  | .pidof package => [simple ["pidof".toList, package]]
  | .nativeLibrary package =>
      [simple ["dumpsys".toList, "package".toList, package], .control "|".toList,
        simple ["grep".toList, "legacyNativeLibraryDir".toList]]
  | .thirdParty package =>
      [simple ["pm".toList, "list".toList, "packages".toList, "-3".toList], .control "|".toList,
        simple ["grep".toList, "-q".toList, "package:".toList ++ package], .control "&&".toList,
        simple ["echo".toList, "third_party".toList], .control "||".toList,
        simple ["echo".toList, "not_third_party".toList]]
  | .cmdline pid => [simple ["cat".toList, "/proc/".toList ++ (pid ++ "/cmdline".toList)]]
  | .status pid =>
      [simple ["head".toList, "-4".toList, "/proc/".toList ++ (pid ++ "/status".toList)]]

/-- The shell reads the command as it is meant. -/
def Probe.Reads (c : Probe) : Prop := argumentItems c.text = some c.intended

instance (c : Probe) : Decidable c.Reads := inferInstanceAs (Decidable (_ = _))

/-- `foreground_legacy` and `probe_proc_paths`: the commands sent when `dumpsys window` and `pidof`
print these texts, or fail. -/
def foregroundLegacy (window pid : Option (List Char)) : List Probe :=
  .window ::
    match window.bind parseForegroundWindow with
    | none => []
    | some (package, _) =>
        [.pidof package, .nativeLibrary package, .thirdParty package] ++
          match pid.bind parsePidof with
          | none => []
          | some pid => [.cmdline pid, .status pid]

/-! ### What is extracted -/

theorem package_ne_nil {stdout package activity : List Char}
    (h : parseForegroundWindow stdout = some (package, activity)) : package ≠ [] := by
  obtain ⟨line, -, hline⟩ := List.exists_of_findSome?_eq_some h
  unfold parseForegroundLine at hline
  dsimp only at hline
  split at hline
  · cases hline
  · split at hline
    · cases hline
    · split at hline
      · cases hline
      · split at hline
        · split at hline
          · next hne =>
              cases hline
              exact hne.1
          · cases hline
        · cases hline

/-- A character of a safe package name. -/
def isNameChar (c : Char) : Bool := isAsciiAlphanumeric c || c = '.' || c = '_' || c = '-'

theorem name_not_special {c : Char} (h : isNameChar c = true) :
    isSpecial c = false ∧ c ≠ '#' ∧ c ≠ '~' := by
  have hne : ∀ d : Char, isNameChar d = false → c ≠ d := fun d hd hc => by
    rw [hc, hd] at h
    cases h
  have hgrave : c.toNat ≠ 0x60 := fun hc => hne (Char.ofNat 0x60) (rfl)
    (by rw [← hc, Char.ofNat_toNat])
  refine ⟨?_, hne _ (rfl), hne _ (rfl)⟩
  simp only [isSpecial, isPattern, beginsOp, isBlank, Bool.or_eq_false_iff, decide_eq_false_iff_not,
    List.mem_cons, List.not_mem_nil, or_false, not_or]
  refine ⟨⟨⟨⟨⟨⟨⟨?_, ?_⟩, ?_⟩, ?_⟩, hgrave⟩, ?_⟩, ?_⟩, ?_⟩
  all_goals first
    | exact hne _ (rfl)
    | refine ⟨?_, ?_, ?_, ?_, ?_, ?_, ?_, ?_⟩ <;> exact hne _ (rfl)
    | refine ⟨?_, ?_⟩ <;> exact hne _ (rfl)
    | refine ⟨⟨?_, ?_⟩, ?_⟩ <;> exact hne _ (rfl)

/-- A text of such characters, with others that are not special behind it. -/
theorem literal_names {name rest : List Char} (hne : name ≠ [])
    (hname : ∀ c ∈ name, isNameChar c = true) (hrest : rest.any isSpecial = false) :
    isLiteral (name ++ rest) = true := by
  cases name with
  | nil => exact absurd rfl hne
  | cons c name =>
      obtain ⟨-, hhash, htilde⟩ := name_not_special (hname c (by simp))
      refine literal_iff.mpr ⟨by simp, fun d hd => ?_, by simpa using hhash, by simpa using htilde⟩
      rcases List.mem_append.mp hd with hd | hd
      · exact (name_not_special (hname d hd)).1
      · exact Bool.eq_false_iff.mpr fun hspecial =>
          Bool.eq_false_iff.mp hrest (List.any_eq_true.mpr ⟨d, hd, hspecial⟩)

/-- **A package name that the Agent's leg lets through is literal text.** -/
theorem literal_of_safe {package : String} (h : Activity.isSafePackageName package = true) :
    isLiteral package.toList = true := by
  rw [Activity.isSafePackageName, Bool.and_eq_true, Bool.and_eq_true, decide_eq_true_iff,
    List.all_eq_true] at h
  have hne : package.toList ≠ [] := fun hnil => h.1.1 (String.toList_eq_nil_iff.mp hnil)
  have hlit := @literal_names package.toList [] hne h.2 rfl
  rwa [List.append_nil] at hlit

/-- A process number is made of digits. -/
theorem pid_digits {stdout pid : List Char} (h : parsePidof stdout = some pid) :
    pid ≠ [] ∧ ∀ c ∈ pid, isNameChar c = true := by
  obtain ⟨-, hp⟩ := Option.filter_eq_some_iff.mp h
  rw [Bool.and_eq_true, decide_eq_true_iff, List.all_eq_true] at hp
  exact ⟨hp.1, fun c hc => by simp [isNameChar, isAsciiAlphanumeric, hp.2 c hc]⟩

/-! ### What the shell reads -/

/-- A word of the command's own. -/
def own (s : String) : Word := bareWord s.toList

theorem reads_window : Probe.Reads .window := rfl

theorem reads_pidof {package : List Char} (h : isLiteral package = true) :
    Probe.Reads (.pidof package) := by
  have hread := @argumentItems_pasted "pidof ".toList package [] none [.word (own "pidof")] [] []
    ⟨[], [own "pidof", bareWord package], [], none⟩ (rfl) h rfl rfl rfl rfl nofun
    rfl rfl
  rwa [List.append_nil] at hread

theorem reads_nativeLibrary {package : List Char} (h : isLiteral package = true) :
    Probe.Reads (.nativeLibrary package) :=
  @argumentItems_pasted _ _ _ none [.word (own "dumpsys"), .word (own "package")]
    [.op "|".toList, .word (own "grep"), .word (own "legacyNativeLibraryDir")]
    [⟨[], [own "dumpsys", own "package", bareWord package], [], some "|".toList⟩]
    ⟨[], [own "grep", own "legacyNativeLibraryDir"], [], none⟩
    (rfl) h (rfl) (rfl) rfl rfl (by simp; rfl) rfl rfl

theorem reads_thirdParty {package : List Char} (h : isLiteral package = true) :
    Probe.Reads (.thirdParty package) :=
  @argumentItems_pasted _ _ _ (some (own "package:"))
    [.word (own "pm"), .word (own "list"), .word (own "packages"), .word (own "-3"),
      .op "|".toList, .word (own "grep"), .word (own "-q")]
    [.op "&&".toList, .word (own "echo"), .word (own "third_party"), .op "||".toList,
      .word (own "echo"), .word (own "not_third_party")]
    [⟨[], [own "pm", own "list", own "packages", own "-3"], [], some "|".toList⟩,
      ⟨[], [own "grep", own "-q", bareWord ("package:".toList ++ package)], [],
        some "&&".toList⟩,
      ⟨[], [own "echo", own "third_party"], [], some "||".toList⟩]
    ⟨[], [own "echo", own "not_third_party"], [], none⟩
    (rfl) h (rfl) (rfl) (rfl) rfl
    (by
      have hproper : ([⟨[], [own "pm", own "list", own "packages", own "-3"], [],
            some "|".toList⟩,
          ⟨[], [own "grep", own "-q", bareWord ("package:".toList ++ package)], [],
            some "&&".toList⟩,
          ⟨[], [own "echo", own "third_party"], [], some "||".toList⟩] : List Chunk).all
            (fun c => c.isProper && c.op.isSome) = true := rfl
      simpa only [List.all_eq_true, Bool.and_eq_true] using hproper) rfl rfl

theorem reads_cmdline {pid : List Char} (hne : pid ≠ [])
    (hpid : ∀ c ∈ pid, isNameChar c = true) : Probe.Reads (.cmdline pid) := by
  have hread := @argumentItems_pasted "cat /proc/".toList _ [] (some (own "/proc/"))
    [.word (own "cat")] [] []
    ⟨[], [own "cat", bareWord ("/proc/".toList ++ (pid ++ "/cmdline".toList))], [], none⟩
    (rfl) (@literal_names pid "/cmdline".toList hne hpid (rfl)) rfl
    rfl (rfl) rfl nofun rfl rfl
  rwa [List.append_nil] at hread

theorem reads_status {pid : List Char} (hne : pid ≠ [])
    (hpid : ∀ c ∈ pid, isNameChar c = true) : Probe.Reads (.status pid) := by
  have hread := @argumentItems_pasted "head -4 /proc/".toList _ [] (some (own "/proc/"))
    [.word (own "head"), .word (own "-4")] [] []
    ⟨[], [own "head", own "-4", bareWord ("/proc/".toList ++ (pid ++ "/status".toList))], [],
      none⟩
    (rfl) (@literal_names pid "/status".toList hne hpid (rfl)) rfl
    rfl (rfl) rfl nofun rfl rfl
  rwa [List.append_nil] at hread

/-- **Every command is read as it is meant** exactly if the extracted package is literal text. -/
theorem probes_read_iff (window pid : Option (List Char)) :
    (∀ c ∈ foregroundLegacy window pid, c.Reads) ↔
      ∀ package activity, window.bind parseForegroundWindow = some (package, activity) →
        isLiteral package = true := by
  constructor
  · intro hall package activity hwindow
    obtain ⟨stdout, -, hparse⟩ := Option.bind_eq_some_iff.mp hwindow
    have hread : Probe.Reads (.pidof package) := hall _ (by simp [foregroundLegacy, hwindow])
    exact @literal_of_argument _ _ [.word (own "pidof")] ["pidof".toList] (rfl)
      rfl (package_ne_nil hparse) hread
  · intro hliteral c hc
    unfold foregroundLegacy at hc
    rcases List.mem_cons.mp hc with rfl | hc
    · exact reads_window
    · split at hc
      · cases hc
      · next package activity hwindow =>
          have hpackage := hliteral package activity hwindow
          rcases List.mem_append.mp hc with hc | hc
          · simp only [List.mem_cons, List.not_mem_nil, or_false] at hc
            rcases hc with rfl | rfl | rfl
            · exact reads_pidof hpackage
            · exact reads_nativeLibrary hpackage
            · exact reads_thirdParty hpackage
          · split at hc
            · cases hc
            · next number hpid =>
                obtain ⟨stdout, -, hparse⟩ := Option.bind_eq_some_iff.mp hpid
                obtain ⟨hne, hdigits⟩ := pid_digits hparse
                simp only [List.mem_cons, List.not_mem_nil, or_false] at hc
                rcases hc with rfl | rfl
                · exact reads_cmdline hne hdigits
                · exact reads_status hne hdigits

/-- A window title that ends a command and begins another. -/
theorem title_runs_a_command :
    ¬ ∀ window pid : Option (List Char), ∀ c ∈ foregroundLegacy window pid, c.Reads := by
  intro hall
  have hread := hall (some "  mCurrentFocus=Window{7a4c1de u0 x;reboot/y}".toList) none
    (.pidof "x;reboot".toList) (by decide)
  revert hread
  decide

end RevBox.ForegroundProbe
