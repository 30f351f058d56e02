import RevBox.Device.Disk

/-!
# Desktop — FsPolicy

`src-tauri/src/services/fs_policy.rs`: which paths the file page may change anything at.  The
guard reads the text of the path and nothing of the phone.

* `checkWritable_eq_ok`: what passes is the text of a path of proper names, below a root.
-/

namespace RevBox

open FileTree

/-- A path of proper names: no separator in any of them, no `.` and no `..`. -/
def Clean (c : List Name) : Prop := ∀ n ∈ c, '/' ∉ n ∧ ¬ Stay n ∧ n ≠ parentName

/-- The text of a path has the names of the path for its components. -/
theorem components_render {c : List Name} (h : Clean c) : components (render c) = c := by
  have hstay : Stay ([] : Name) := .inl rfl
  have hkeep : c.filter (fun n => ¬ Stay n) = c :=
    List.filter_eq_self.mpr fun n hn => decide_eq_true (h n hn).2.1
  unfold components render Text.join
  by_cases hc : c = []
  · subst hc
    rfl
  · have hsplit : ('/' :: List.intercalate ['/'] c).splitOn '/' = [] :: c := by
      have := List.splitOn_append_cons_self_of_not_mem (List.not_mem_nil (a := '/'))
        (List.intercalate ['/'] c)
      rw [List.nil_append] at this
      rw [this, List.splitOn_intercalate _ (fun n hn => (h n hn).1) hc]
    rw [hsplit, List.filter_cons_of_neg (by simpa using hstay)]
    exact hkeep

namespace FsPolicy

/-- `WRITABLE_ROOTS`. -/
def writableRoots : List String := ["/data/local/tmp", "/sdcard", "/storage/emulated/0"]

/-- `WriteDenied`. -/
inductive WriteDenied where
  | notAbsolute
  | escapesRoot
  | outside
  deriving DecidableEq, Repr

/-- `WriteDenied::message`. -/
def WriteDenied.message (denied : WriteDenied) (path : List Char) : String :=
  let why := match denied with
    | .notAbsolute => "要改的路径必须是绝对路径"
    | .escapesRoot => "路径里的 .. 会跳出允许范围"
    | .outside => "这里不在允许的范围内（root 也一样）"
  let allowed := String.intercalate " / " writableRoots
  s!"{why}：{String.ofList path}；只能在 {allowed} 这两处之内"

/-- The loop of `normalize`, with the segments it holds. -/
def fold (stack : List Name) : List Name → Except WriteDenied (List Name)
  | [] => .ok stack
  | seg :: segs =>
      if Stay seg then fold stack segs
      else if seg = parentName then
        if stack = [] then .error .escapesRoot else fold stack.dropLast segs
      else fold (stack ++ [seg]) segs

/-- `normalize`. -/
def normalize (path : List Char) : Except WriteDenied (List Char) :=
  match fold [] (path.splitOn '/') with
  | .error e => .error e
  | .ok stack => .ok (render stack)

/-- Whether a normalised path is a root or below it. -/
def under (clean : List Char) (root : String) : Bool :=
  clean = root.toList || Text.startsWith (root.toList ++ ['/']) clean

/-- `check_writable`. -/
def checkWritable (path : List Char) : Except WriteDenied (List Char) :=
  if path.head? ≠ some '/' then .error .notAbsolute
  else
    match normalize path with
    | .error e => .error e
    | .ok clean => if writableRoots.any (under clean) then .ok clean else .error .outside

theorem fold_clean : ∀ {segs stack c : List Name}, Clean stack → (∀ n ∈ segs, '/' ∉ n) →
    fold stack segs = .ok c → Clean c
  | [], stack, c, hs, _, h => by
      cases h
      exact hs
  | seg :: segs, stack, c, hs, hsegs, h => by
      have hrest := fun n hn => hsegs n (List.mem_cons_of_mem seg hn)
      rw [fold] at h
      split at h
      · exact fold_clean hs hrest h
      rename_i hstay
      split at h
      · split at h
        · cases h
        · exact fold_clean (fun n hn => hs n (List.dropLast_subset stack hn)) hrest h
      rename_i hparent
      refine fold_clean (fun n hn => ?_) hrest h
      rcases List.mem_append.mp hn with hn | hn
      · exact hs n hn
      · rw [List.mem_singleton.mp hn]
        exact ⟨hsegs seg List.mem_cons_self, hstay, hparent⟩

/-- The root of the phone is below no writable root. -/
theorem not_under_nil : writableRoots.any (under (render [])) = false := by decide

/-- **What passes is the text of a path of proper names.** -/
theorem checkWritable_eq_ok {path clean : List Char} (h : checkWritable path = .ok clean) :
    ∃ c, c ≠ [] ∧ Clean c ∧ clean = render c ∧ components clean = c := by
  unfold checkWritable normalize at h
  split at h
  · cases h
  cases hfold : fold [] (path.splitOn '/') with
  | error e =>
      simp only [hfold] at h
      cases h
  | ok c =>
      simp only [hfold] at h
      split at h
      · rename_i hunder
        cases h
        have hclean := fold_clean (fun n hn => by cases hn) (Text.not_mem_of_mem_splitOn '/' path) hfold
        refine ⟨c, ?_, hclean, rfl, components_render hclean⟩
        rintro rfl
        rw [not_under_nil] at hunder
        cases hunder
      · cases h

example : checkWritable "/sdcard/../data/local/tmp//a/./b".toList =
    .ok "/data/local/tmp/a/b".toList := by decide

end FsPolicy

end RevBox
