import RevBox.Agent.FilesystemWrite
import RevBox.Desktop.FsConfinement
import RevBox.Support.LexicalPath

/-!
# Desktop — FsPolicyMirror

The three readings of a path that is to be written at: `fs_policy.rs` and its mirror
`src/lib/deviceFsPolicy.ts` on the desktop, and the Agent's.  A string is its Unicode characters.

* `normalizeDevicePath_eq`, `writeDenial_eq`: the mirror says what `fs_policy.rs` says.
* `leads_normalizeLexically`: the Agent's reading is the lexical one, of every path.
-/

namespace RevBox

open FileTree

namespace DeviceFsPolicy

/-- `WRITABLE_ROOTS`. -/
def writableRoots : List String := ["/data/local/tmp", "/sdcard", "/storage/emulated/0"]

/-- `WriteDenial`. -/
inductive WriteDenial where
  | notAbsolute
  | escapesRoot
  | outside
  deriving DecidableEq

/-- The loop of `normalizeDevicePath`, with its stack. -/
def loop (stack : List Name) : List Name → Option (List Name)
  | [] => some stack
  | seg :: segs =>
      if seg = [] ∨ seg = ['.'] then loop stack segs
      else if seg = ['.', '.'] then
        if stack.length = 0 then none else loop stack.dropLast segs
      else loop (stack ++ [seg]) segs

/-- `normalizeDevicePath`. -/
def normalizeDevicePath (path : List Char) : Option (List Char) :=
  (loop [] (path.splitOn '/')).map fun stack => '/' :: Text.join '/' stack

/-- `writeDenial`. -/
def writeDenial (path : List Char) : Option WriteDenial :=
  if ¬ Text.startsWith ['/'] path then some .notAbsolute
  else
    match normalizeDevicePath path with
    | none => some .escapesRoot
    | some clean =>
        if writableRoots.any fun root =>
            clean = root.toList || Text.startsWith (root.toList ++ ['/']) clean then none
        else some .outside

end DeviceFsPolicy

namespace FsPolicy

open DeviceFsPolicy FilesystemWrite

variable {path clean : List Char} {stack c : List Name}

/-! ### The mirror -/

/-- The reason under the name that the mirror has for it. -/
def WriteDenied.mirror : WriteDenied → WriteDenial
  | .notAbsolute => .notAbsolute
  | .escapesRoot => .escapesRoot
  | .outside => .outside

theorem loop_eq : ∀ (segs stack : List Name), loop stack segs = (fold stack segs).toOption
  | [], stack => rfl
  | seg :: segs, stack => by
      rw [loop, fold, loop_eq, loop_eq, loop_eq]
      by_cases hstay : seg = [] ∨ seg = ['.']
      · rw [if_pos hstay, if_pos (show Stay seg from hstay)]
      · rw [if_neg hstay, if_neg (show ¬ Stay seg from hstay)]
        by_cases hparent : seg = ['.', '.']
        · rw [if_pos hparent, if_pos (show seg = parentName from hparent)]
          by_cases hnil : stack = []
          · rw [if_pos hnil, if_pos (List.length_eq_zero_iff.mpr hnil)]
            rfl
          · rw [if_neg hnil, if_neg (mt List.length_eq_zero_iff.mp hnil)]
        · rw [if_neg hparent, if_neg (show ¬ seg = parentName from hparent)]

/-- **The two normalisers agree.** -/
theorem normalizeDevicePath_eq (path : List Char) :
    normalizeDevicePath path = (normalize path).toOption := by
  rw [normalizeDevicePath, normalize, loop_eq]
  cases fold [] (path.splitOn '/')
  all_goals rfl

theorem fold_eq_error : ∀ {segs stack : List Name} {e : WriteDenied},
    fold stack segs = .error e → e = .escapesRoot ∧ Escapes stack segs
  | seg :: segs, stack, e, h => by
      rw [fold] at h
      split at h
      · next hstay =>
          obtain ⟨he, hrest⟩ := fold_eq_error h
          exact ⟨he, .stay hstay hrest⟩
      · next hstay =>
          split at h
          · next hparent =>
              subst hparent
              split at h
              · next hnil =>
                  cases h
                  exact ⟨rfl, hnil ▸ .here segs⟩
              · obtain ⟨he, hrest⟩ := fold_eq_error h
                exact ⟨he, .parent hrest⟩
          · next hparent =>
              obtain ⟨he, hrest⟩ := fold_eq_error h
              exact ⟨he, .child hstay hparent hrest⟩

/-- **What `normalize` makes of a path is where it leads.** -/
theorem leads_of_fold : ∀ {segs stack : List Name}, fold stack segs = .ok c → Leads stack segs c
  | [], stack, h => by
      cases h
      exact .done c
  | seg :: segs, stack, h => by
      rw [fold] at h
      split at h
      · next hstay => exact .stay hstay (leads_of_fold h)
      · next hstay =>
          split at h
          · next hparent =>
              subst hparent
              split at h
              · cases h
              · exact .parent (leads_of_fold h)
          · next hparent => exact .child hstay hparent (leads_of_fold h)

/-- **The mirror gives the same verdict, for the same reason.** -/
theorem writeDenial_eq (path : List Char) :
    writeDenial path = match checkWritable path with
      | .ok _ => none
      | .error denied => some denied.mirror := by
  have hhead : Text.startsWith ['/'] path = true ↔ path.head? = some '/' := by
    cases path with
    | nil => exact ⟨nofun, nofun⟩
    | cons c rest =>
        simp only [Text.startsWith, List.isPrefixOf, Bool.and_true, beq_iff_eq, List.head?_cons,
          Option.some.injEq]
        exact eq_comm
  rw [writeDenial, checkWritable]
  simp only [hhead, normalizeDevicePath_eq]
  split
  · rfl
  · cases hnormal : normalize path with
    | error e =>
        rw [normalize] at hnormal
        cases hfold : fold [] (path.splitOn '/') with
        | error e' =>
            rw [hfold] at hnormal
            cases hnormal
            rw [(fold_eq_error hfold).1]
            rfl
        | ok c =>
            rw [hfold] at hnormal
            cases hnormal
    | ok clean =>
        show (if (FsPolicy.writableRoots.any (under clean)) = true then _ else _) = _
        simp only
        split
        all_goals rfl

/-! ### What passes -/

/-- A path of proper names leads, as text, to itself. -/
theorem leads_render {c : List Name} (h : Clean c) : Leads [] ((render c).splitOn '/') c := by
  rw [← leads_filter]
  show Leads [] (components (render c)) c
  rw [components_render h]
  exact Leads.self [] fun n hn => (h n hn).2

/-- The text of a path of proper names is read as that path. -/
theorem fold_render {c : List Name} (h : Clean c) : fold [] ((render c).splitOn '/') = .ok c := by
  cases hfold : fold [] ((render c).splitOn '/') with
  | ok c' => rw [(leads_of_fold hfold).unique (leads_render h)]
  | error e =>
      have hmem := (fold_eq_error hfold).2.mem
      have hmem' : parentName ∈ components (render c) :=
        List.mem_filter.mpr ⟨hmem, decide_eq_true not_stay_parentName⟩
      rw [components_render h] at hmem'
      exact absurd rfl (h _ hmem').2.2

/-- **What is made of a path stays as it is.** -/
theorem normalize_render {c : List Name} (h : Clean c) : normalize (render c) = .ok (render c) := by
  rw [normalize, fold_render h]

/-- A path below another as text is below it name by name. -/
theorem prefix_of_under {c : List Name} {root : String} (h : Clean c)
    (hunder : under (render c) root = true) : components root.toList <+: c := by
  rw [under, Bool.or_eq_true, decide_eq_true_iff] at hunder
  rw [← components_render h]
  rcases hunder with heq | hstarts
  · rw [heq]
  · obtain ⟨rest, hrest⟩ := List.isPrefixOf_iff_prefix.mp hstarts
    rw [← hrest, List.append_assoc, List.singleton_append, components_append]
    exact List.prefix_append ..

/-! ### The Agent -/

theorem leads_foldl : ∀ (segs parts : List Name), (∀ n ∈ segs, ¬ Stay n) →
    Leads parts segs (segs.foldl
      (fun parts n => if n = parentName then parts.dropLast else parts ++ [n]) parts)
  | [], parts, _ => .done parts
  | n :: segs, parts, h => by
      rw [List.forall_mem_cons] at h
      rw [List.foldl_cons]
      by_cases hn : n = parentName
      · subst hn
        rw [if_pos rfl]
        exact .parent (leads_foldl segs _ h.2)
      · rw [if_neg hn]
        exact .child h.1 hn (leads_foldl segs _ h.2)

/-- **The Agent reads every path where it leads.** -/
theorem leads_normalizeLexically (path : List Char) :
    Leads [] (path.splitOn '/') (normalizeLexically path) := by
  rw [← leads_filter]
  exact leads_foldl _ _ fun n hn => of_decide_eq_true (List.mem_filter.mp hn).2

/-- The names that a path leads to are proper ones. -/
theorem clean_normalizeLexically (path : List Char) : Clean (normalizeLexically path) := by
  have hfold : ∀ (segs parts : List Name), Clean parts → (∀ n ∈ segs, '/' ∉ n ∧ ¬ Stay n) →
      Clean (segs.foldl
        (fun parts n => if n = parentName then parts.dropLast else parts ++ [n]) parts) := by
    intro segs
    induction segs with
    | nil => exact fun parts hparts _ => hparts
    | cons n segs ih =>
        intro parts hparts hsegs
        rw [List.forall_mem_cons] at hsegs
        rw [List.foldl_cons]
        refine ih _ ?_ hsegs.2
        split
        · exact fun m hm => hparts m (List.dropLast_subset parts hm)
        · next hn =>
            unfold Clean
            rw [List.forall_mem_append, List.forall_mem_singleton]
            exact ⟨hparts, hsegs.1.1, hsegs.1.2, hn⟩
  refine hfold _ [] nofun fun n hn => ?_
  obtain ⟨hsplit, hstay⟩ := List.mem_filter.mp hn
  exact ⟨Text.not_mem_of_mem_splitOn '/' path n hsplit, of_decide_eq_true hstay⟩

theorem normalizeLexically_render {c : List Name} (h : Clean c) :
    normalizeLexically (render c) = c :=
  (leads_normalizeLexically (render c)).unique (leads_render h)

/-- The Agent answers for a path what it answers for the path it leads to. -/
theorem resolveForWrite_render (env : Env) (t : Disk) (habs : path.head? = some '/') :
    resolveForWrite env path t = resolveForWrite env (render (normalizeLexically path)) t := by
  have hhead : (render (normalizeLexically path)).head? = some '/' := rfl
  rw [resolveForWrite, resolveForWrite,
    normalizeLexically_render (clean_normalizeLexically path)]
  simp only [habs, hhead, ne_eq, not_true_eq_false, if_false]

/-- **What passes the guard** is left alone by both normalisers, lies below a root, and is where the
path leads, for the Agent as well. -/
theorem passes {path clean : List Char} (h : checkWritable path = .ok clean) :
    normalize clean = .ok clean ∧ normalizeDevicePath clean = some clean ∧
      normalizeDevicePath path = some clean ∧
      (∃ root ∈ FsPolicy.writableRoots, components root.toList <+: components clean) ∧
      Leads [] (path.splitOn '/') (components clean) ∧ render (components clean) = clean ∧
      render (normalizeLexically path) = clean := by
  have hpass := h
  rw [checkWritable] at h
  split at h
  · cases h
  · cases hnormal : normalize path with
    | error e =>
        rw [hnormal] at h
        cases h
    | ok clean' =>
        simp only [hnormal] at h
        split at h
        · next hunder =>
            cases h
            obtain ⟨c, -, hc, rfl, hcomp⟩ := checkWritable_eq_ok hpass
            have hfixed := normalize_render hc
            obtain ⟨root, hroot, hbelow⟩ := List.any_eq_true.mp hunder
            have hleads : Leads [] (path.splitOn '/') c := by
              rw [normalize] at hnormal
              cases hfold : fold [] (path.splitOn '/') with
              | error e =>
                  rw [hfold] at hnormal
                  cases hnormal
              | ok c' =>
                  rw [hfold] at hnormal
                  have hsame := congrArg components (Except.ok.inj hnormal)
                  have hc' := fold_clean (fun n hn => by cases hn) (Text.not_mem_of_mem_splitOn '/' path)
                    hfold
                  rw [components_render hc', hcomp] at hsame
                  exact hsame ▸ leads_of_fold hfold
            rw [normalizeDevicePath_eq, normalizeDevicePath_eq, hfixed, hnormal, hcomp,
              (leads_normalizeLexically path).unique hleads]
            exact ⟨rfl, rfl, rfl, ⟨root, hroot, prefix_of_under hc hbelow⟩, hleads, rfl, rfl⟩
        · cases h

/-- **One policy in three places**: the two desktop sides give the same verdict; what they pass is
read alike by all three; and what they refuse because `..` leaves the root, the Agent, for which the
root is its own parent, takes for the path it then leads to. -/
theorem policies_agree :
    (∀ path, writeDenial path = match checkWritable path with
      | .ok _ => none
      | .error denied => some denied.mirror) ∧
    (∀ path clean, checkWritable path = .ok clean →
      normalize clean = .ok clean ∧ normalizeDevicePath clean = some clean ∧
        normalizeDevicePath path = some clean ∧
        (∃ root ∈ FsPolicy.writableRoots, components root.toList <+: components clean) ∧
        Leads [] (path.splitOn '/') (components clean) ∧ render (components clean) = clean ∧
        render (normalizeLexically path) = clean) ∧
    ∀ path, checkWritable path = .error .escapesRoot →
      Escapes [] (path.splitOn '/') ∧ Leads [] (path.splitOn '/') (normalizeLexically path) ∧
        ∀ env t, resolveForWrite env path t =
          resolveForWrite env (render (normalizeLexically path)) t := by
  refine ⟨writeDenial_eq, fun path clean => passes, fun path h => ?_⟩
  rw [checkWritable] at h
  split at h
  · cases h
  · next habs =>
      refine ⟨?_, leads_normalizeLexically path, fun env t => resolveForWrite_render env t
        (not_not.mp habs)⟩
      cases hfold : fold [] (path.splitOn '/') with
      | error e => exact (fold_eq_error hfold).2
      | ok c =>
          rw [normalize, hfold] at h
          simp only at h
          split at h
          all_goals cases h

/-- A path that leaves the root and comes back. -/
def leaving : List Char := "/../data/local/tmp/x".toList

/-- **What the desktop refuses because `..` leaves the root, the Agent may accept.** -/
theorem agent_accepts_leaving : checkWritable leaving = .error .escapesRoot ∧
    writeDenial leaving = some .escapesRoot ∧
    resolveForWrite ⟨none, FsRooted.plainDir⟩ leaving FsRooted.linkedDisk =
      .ok ["data".toList, "local".toList, "tmp".toList, ['x']] := by
  have hsome : (resolveForWrite ⟨none, FsRooted.plainDir⟩ leaving FsRooted.linkedDisk).toOption =
      some ["data".toList, "local".toList, "tmp".toList, ['x']] := rfl
  refine ⟨rfl, rfl, ?_⟩
  cases hresolve : resolveForWrite ⟨none, FsRooted.plainDir⟩ leaving FsRooted.linkedDisk with
  | ok q =>
      rw [hresolve] at hsome
      rw [Option.some.inj hsome]
  | error e =>
      rw [hresolve] at hsome
      cases hsome

end FsPolicy

end RevBox
