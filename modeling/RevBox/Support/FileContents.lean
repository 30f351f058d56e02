import RevBox.Support.FileCalls

/-!
# Support — FileContents

Files that are written by path; what they hold is among their attributes.  A file is opened where
its path leads, a link in the last place followed too, and is made there if nothing is.

* `store_cases`: what storing under a name leaves where, if the name is no link.
* `unlink_file`: what removing a file leaves where.
-/

namespace FileTree

variable {α : Type}

namespace Tree

/-- The tree with a new file. -/
def insertFile (t : Tree α) (q : Path) (a : α) (hfree : t.get q = none)
    (hnew : t.isDir q.dropLast = true ∧ ∀ n ∈ q, ValidName n) : Tree α where
  entries := t.entries ++ [(q, ⟨.file, a⟩)]
  unique := by
    rw [List.map_append, List.nodup_append]
    refine ⟨t.unique, List.nodup_singleton _, fun p hp r hr heq => ?_⟩
    obtain ⟨x, hx, rfl⟩ := List.mem_map.mp hp
    obtain rfl := List.mem_singleton.mp hr
    exact find_ne_none hx (heq ▸ hfree)
  rooted := dirAt_append t.rooted
  closed := by
    intro x hx hne
    rcases List.mem_append.mp hx with hx | hx
    · exact dirAt_append (t.closed x hx hne)
    · obtain rfl := List.mem_singleton.mp hx
      exact dirAt_append hnew.1
  named := by
    intro x hx
    rcases List.mem_append.mp hx with hx | hx
    · exact t.named x hx
    · obtain rfl := List.mem_singleton.mp hx
      exact hnew.2
  ids := by
    rw [List.filterMap_append]
    exact (List.append_nil _).symm ▸ t.ids

variable {t : Tree α} {p q dir : Path} {name : Name} {a : α} {e : Entry α}

theorem get_insertFile {hfree : t.get q = none}
    {hnew : t.isDir q.dropLast = true ∧ ∀ n ∈ q, ValidName n} :
    (t.insertFile q a hfree hnew).get p = if q = p then some ⟨.file, a⟩ else t.get p := by
  refine (find_append (l := t.entries)).trans ?_
  by_cases h : q = p
  · subst h
    rw [show find t.entries q = none from hfree, if_pos rfl]
    simp [find]
  · rw [if_neg h]
    simp [find, h, get]

/-- Where `open` finds or makes a file: a link in the last place leads on. -/
def openPlace (t : Tree α) : Nat → List Name → Except Errno Path
  | 0, _ => .error .eloop
  | n + 1, c =>
      match t.locate c with
      | .error e => .error e
      | .ok q =>
          match t.node? q with
          | some (.link target) =>
              t.openPlace n
                ((if target.head? = some '/' then [] else q.dropLast) ++ target.splitOn '/')
          | _ => .ok q

/-- A file, a new one if there is none, gets these attributes. -/
def store (t : Tree α) (c : List Name) (a : α) : Except Errno (Tree α) :=
  match t.openPlace (maxLinks + 1) c with
  | .error e => .error e
  | .ok q =>
      if hfree : t.get q = none then
        if hnew : t.isDir q.dropLast = true ∧ ∀ n ∈ q, ValidName n then
          .ok (t.insertFile q a hfree hnew)
        else .error .einval
      else if t.isDir q then .error .eisdir
      else .ok (t.setAttr q fun _ => a)

/-- `stat`. -/
def stat (t : Tree α) (c : List Name) : Except Errno (Entry α) :=
  match t.resolve c with
  | .error e => .error e
  | .ok p =>
      match t.get p with
      | none => .error .enoent
      | some e => .ok e

/-- `is_file`. -/
def isFile (t : Tree α) (c : List Name) : Bool :=
  match t.stat c with
  | .error _ => false
  | .ok e => e.node = .file

/-! ### In a directory -/

/-- The entry that a name is of, in what is no link. -/
theorem lstat_child_iff (hd : t.Real dir) :
    t.lstat (dir ++ [name]) = .ok e ↔ t.get (dir ++ [name]) = some e := by
  constructor
  · intro h
    obtain ⟨q, hq, he⟩ := lstat_eq_ok.mp h
    rcases locate_eq_ok hq with ⟨hnil, -⟩ | ⟨dir', name', hlast, hdir, -, rfl⟩
    · simp at hnil
    · rw [List.dropLast_concat, resolve_of_real hd] at hdir
      rw [List.getLast?_concat] at hlast
      cases hdir
      cases hlast
      exact he
  · exact lstat_of_get

theorem stat_of_get (h : t.get p = some e) (hl : e.node.isLink = false) : t.stat p = .ok e := by
  rw [stat, resolve_of_real ⟨e.node, by rw [node?, h]; rfl, hl⟩]
  simp only [h]

/-- What is opened under a name that is no link. -/
theorem openPlace_child (n : Nat) (hd : t.isDir dir = true)
    (hl : ∀ e, t.get (dir ++ [name]) = some e → e.node.isLink = false) :
    t.openPlace (n + 1) (dir ++ [name]) = .ok (dir ++ [name]) := by
  rw [openPlace, locate_concat hd]
  cases h : t.get (dir ++ [name]) with
  | none => simp [node?, h]
  | some e =>
      have hnot := hl e h
      cases hnode : e.node with
      | link target =>
          rw [hnode] at hnot
          cases hnot
      | dir id => simp [node?, h, hnode]
      | file => simp [node?, h, hnode]

/-- **What storing under a name leaves**: nothing is changed where the directory is none, or the
name is a directory; else the name is the file that is stored, and all else is as it was. -/
theorem store_cases (hd : t.Real dir) (hname : ValidName name)
    (hl : ∀ e, t.get (dir ++ [name]) = some e → e.node.isLink = false) (a : α) :
    (∃ err, t.store (dir ++ [name]) a = .error err ∧
      (t.isDir dir = false ∨ t.isDir (dir ++ [name]) = true)) ∨
    t.isDir dir = true ∧ t.isDir (dir ++ [name]) = false ∧
      ∃ t', t.store (dir ++ [name]) a = .ok t' ∧ t'.get (dir ++ [name]) = some ⟨.file, a⟩ ∧
        ∀ p, p ≠ dir ++ [name] → t'.get p = t.get p := by
  by_cases hdir : t.isDir dir = true
  · have hopen := openPlace_child maxLinks hdir hl
    cases hget : t.get (dir ++ [name]) with
    | none =>
        have hnot : t.isDir (dir ++ [name]) = false := by
          rw [isDir_eq, node?, hget]
          rfl
        have hnew : t.isDir (dir ++ [name]).dropLast = true ∧ ∀ n ∈ dir ++ [name], ValidName n := by
          rw [List.dropLast_concat]
          refine ⟨hdir, fun n hn => ?_⟩
          rcases List.mem_append.mp hn with hn | hn
          · obtain ⟨entry, hentry, -⟩ := isDir_iff.mp hdir
            exact validName_of_get hentry n hn
          · exact List.mem_singleton.mp hn ▸ hname
        refine .inr ⟨hdir, hnot, t.insertFile _ a hget hnew, ?_, ?_, fun p hp => ?_⟩
        · rw [store, hopen]
          exact (dif_pos hget).trans (dif_pos hnew)
        · rw [get_insertFile, if_pos rfl]
        · rw [get_insertFile, if_neg (Ne.symm hp)]
    | some e =>
        have hsome : ¬ t.get (dir ++ [name]) = none := by simp [hget]
        by_cases hisdir : t.isDir (dir ++ [name]) = true
        · refine .inl ⟨.eisdir, ?_, .inr hisdir⟩
          rw [store, hopen]
          simp only [hsome, dite_false, hisdir, if_true]
        · refine .inr ⟨hdir, Bool.eq_false_iff.mpr hisdir,
            t.setAttr (dir ++ [name]) fun _ => a, ?_, ?_, fun p hp => ?_⟩
          · rw [store, hopen]
            simp only [hsome, dite_false, hisdir, Bool.false_eq_true, if_false]
          · have hfile : e.node = .file := by
              have hnot := hl e hget
              rw [isDir_iff] at hisdir
              cases hnode : e.node with
              | link target => rw [hnode] at hnot; cases hnot
              | dir id => exact absurd ⟨e, hget, by rw [hnode]; rfl⟩ hisdir
              | file => rfl
            rw [get_setAttr_same hget, hfile]
          · exact get_setAttr_ne hp
  · have hdir := Bool.eq_false_iff.mpr hdir
    refine .inl ⟨.enotdir, ?_, .inl hdir⟩
    have hlocate : t.locate (dir ++ [name]) = .error .enotdir := by
      rw [locate, List.getLast?_concat, List.dropLast_concat]
      simp only [resolve_of_real hd, hdir, Bool.false_eq_true, if_false]
    rw [store, openPlace, hlocate]

/-- A file is removed, and nothing else. -/
theorem unlink_file (h : t.get q = some e) (hfile : e.node = .file) :
    ∃ t', t.unlink q = .ok t' ∧ t'.get q = none ∧ ∀ p, p ≠ q → t'.get p = t.get p := by
  have hnot : t.isDir q = false := by
    rw [isDir_eq, node?, h, Option.map_some, hfile]
    rfl
  have hq : q ≠ [] := by
    rintro rfl
    rw [isDir_root] at hnot
    cases hnot
  refine ⟨t.erase q hq, ?_, ?_, fun p hp => ?_⟩
  · rw [unlink, onEntry, locate_of_get h]
    simp only [h, hfile]
    exact dif_neg hq
  · rw [get_erase, if_pos List.prefix_rfl]
  · rw [get_erase]
    split_ifs with hbelow
    · obtain ⟨r, rfl⟩ := hbelow
      by_contra hsome
      have hr : r ≠ [] := by
        rintro rfl
        exact hp (List.append_nil q)
      rw [isDir_of_below (Ne.symm hsome) hr] at hnot
      cases hnot
    · rfl

end Tree

end FileTree
