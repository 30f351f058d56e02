import RevBox.Support.PathWalk

/-!
# Support — FileCalls

The calls that read and change a tree of files by path, each with what it leaves where: `lstat`,
`mkdir`, `rename`, the three ways to remove, and a change of attributes.  A name that is none is
refused with `EINVAL`.
-/

namespace FileTree

variable {α : Type}

namespace Tree

/-- `lstat`. -/
def lstat (t : Tree α) (c : List Name) : Except Errno (Entry α) :=
  match t.locate c with
  | .error e => .error e
  | .ok p =>
      match t.get p with
      | none => .error .enoent
      | some e => .ok e

/-- `mkdir` at a place. -/
def mkdirAt (t : Tree α) (q : Path) (a : α) : Except Errno (Tree α) :=
  if hfree : t.get q = none then
    if hnew : t.isDir q.dropLast = true ∧ ∀ n ∈ q, ValidName n then
      .ok (t.insert q a hfree hnew.1 hnew.2)
    else .error .einval
  else .error .eexist

/-- `mkdir`, of a directory with these attributes. -/
def mkdir (t : Tree α) (c : List Name) (a : α) : Except Errno (Tree α) :=
  match t.locate c with
  | .error e => .error e
  | .ok q => t.mkdirAt q a

/-- What may be put at `q` makes way for the entry `e` that is moved there. -/
def makeWay (t : Tree α) (e : Entry α) (q : Path) : Except Errno (Tree α) :=
  match t.get q with
  | none => .ok t
  | some old =>
      if e.node.isDir && !old.node.isDir then .error .enotdir
      else if !e.node.isDir && old.node.isDir then .error .eisdir
      else if t.names q ≠ [] then .error .enotempty
      else if hq : q = [] then .error .ebusy
      else .ok (t.erase q hq)

/-- The entry at `p` goes to `q`, where there is nothing. -/
def moveTo (t : Tree α) (p q : Path) : Except Errno (Tree α) :=
  if h : (p ≠ [] ∧ q ≠ []) ∧ (t.get q = none ∧ t.isDir q.dropLast = true) ∧
      (∀ n ∈ q, ValidName n) ∧ ¬ p <+: q then
    .ok (t.move p q h.1.1 h.1.2 h.2.1.1 h.2.1.2 h.2.2.1 h.2.2.2)
  else .error .einval

/-- `rename`. -/
def rename (t : Tree α) (c d : List Name) : Except Errno (Tree α) :=
  match t.locate c with
  | .error e => .error e
  | .ok p =>
      match t.locate d with
      | .error e => .error e
      | .ok q =>
          match t.get p with
          | none => .error .enoent
          | some e =>
              if p = q then .ok t
              else if p <+: q then .error .einval
              else
                match t.makeWay e q with
                | .error e => .error e
                | .ok t => t.moveTo p q

/-- An entry goes with all that is below it. -/
def eraseAt (t : Tree α) (q : Path) : Except Errno (Tree α) :=
  if hq : q = [] then .error .ebusy else .ok (t.erase q hq)

/-- The call on the entry that a path names. -/
def onEntry (t : Tree α) (c : List Name) (k : Path → Entry α → Except Errno (Tree α)) :
    Except Errno (Tree α) :=
  match t.locate c with
  | .error e => .error e
  | .ok q =>
      match t.get q with
      | none => .error .enoent
      | some e => k q e

/-- `unlink`. -/
def unlink (t : Tree α) (c : List Name) : Except Errno (Tree α) :=
  t.onEntry c fun q e => if e.node.isDir then .error .eisdir else t.eraseAt q

/-- `rmdir`. -/
def rmdir (t : Tree α) (c : List Name) : Except Errno (Tree α) :=
  t.onEntry c fun q e =>
    if !e.node.isDir then .error .enotdir
    else if t.names q ≠ [] then .error .enotempty
    else t.eraseAt q

/-- An entry and all that is below it, no link followed. -/
def removeAll (t : Tree α) (c : List Name) : Except Errno (Tree α) :=
  t.onEntry c fun q _ => t.eraseAt q

/-- A change of attributes where a path leads. -/
def change (t : Tree α) (c : List Name) (f : α → α) : Except Errno (Tree α) :=
  match t.resolve c with
  | .error e => .error e
  | .ok p => .ok (t.setAttr p f)

variable {t t' : Tree α} {c d : List Name} {p q r : Path} {e : Entry α} {a : α}

theorem lstat_eq_ok : t.lstat c = .ok e ↔ ∃ q, t.locate c = .ok q ∧ t.get q = some e := by
  unfold lstat
  cases hc : t.locate c with
  | error err => simp
  | ok q =>
      cases hq : t.get q with
      | none => simp [hq]
      | some e' => simp [hq]

theorem lstat_of_get (h : t.get p = some e) : t.lstat p = .ok e :=
  lstat_eq_ok.mpr ⟨p, locate_of_get h, h⟩

theorem lstat_of_locate (h : t.locate c = .ok q) (he : t.get q = some e) : t.lstat c = .ok e :=
  lstat_eq_ok.mpr ⟨q, h, he⟩

theorem mkdirAt_eq_ok (h : t.mkdirAt q a = .ok t') : t.get q = none ∧
    ∀ r, t'.get r = if q = r then some ⟨.dir t.freshId, a⟩ else t.get r := by
  unfold mkdirAt at h
  split at h
  · rename_i hfree
    split at h
    · cases h
      exact ⟨hfree, fun r => get_insert⟩
    · cases h
  · cases h

theorem mkdirAt_ok (hfree : t.get q = none) (hpar : t.isDir q.dropLast = true)
    (hnames : ∀ n ∈ q, ValidName n) : ∃ t', t.mkdirAt q a = .ok t' :=
  ⟨t.insert q a hfree hpar hnames, by rw [mkdirAt, dif_pos hfree, dif_pos ⟨hpar, hnames⟩]⟩

theorem moveTo_eq_ok (h : t.moveTo p q = .ok t') : ¬ p <+: q ∧ t.get q = none ∧
    (∀ s, t'.get (q ++ s) = t.get (p ++ s)) ∧
    (∀ r, p <+: r → ¬ q <+: r → t'.get r = none) ∧
    ∀ r, ¬ p <+: r → ¬ q <+: r → t'.get r = t.get r := by
  unfold moveTo at h
  split at h
  · rename_i hm
    cases h
    exact ⟨hm.2.2.2, hm.2.1.1, fun s => get_move_below s, fun r => get_move_old,
      fun r => get_move_else⟩
  · cases h

theorem makeWay_of_free (h : t.get q = none) : t.makeWay e q = .ok t := by
  simp only [makeWay, h]

theorem eraseAt_eq_ok (h : t.eraseAt q = .ok t') :
    q ≠ [] ∧ ∀ r, t'.get r = if q <+: r then none else t.get r := by
  unfold eraseAt at h
  split at h
  · cases h
  · rename_i hq
    cases h
    exact ⟨hq, fun r => get_erase⟩

theorem eraseAt_ok (hq : q ≠ []) : t.eraseAt q = .ok (t.erase q hq) := dif_neg hq

theorem onEntry_of_get {k : Path → Entry α → Except Errno (Tree α)} (h : t.locate c = .ok q)
    (he : t.get q = some e) : t.onEntry c k = k q e := by
  simp only [onEntry, h, he]

/-! ### What a path leads to after a change -/

/-- A tree whose directories, files and links are those of another has its walks. -/
theorem resolve_congr (h : ∀ p, t'.node? p = t.node? p) (c : List Name) :
    t'.resolve c = t.resolve c := by
  have hw := ((walk_walks maxLinks [] c).congr (fun p _ => h p) fun p _ => h p).walk_eq
  rw [resolve, resolve, hw]

theorem locate_congr (h : ∀ p, t'.node? p = t.node? p) (c : List Name) :
    t'.locate c = t.locate c := by
  have hdir : t'.isDir = t.isDir := by
    funext p
    rw [isDir_eq, isDir_eq, h]
  simp only [locate, resolve_congr h, hdir]

/-- A directory is denoted as before in a tree that keeps what was there. -/
theorem denotes_of_stay {id : Nat} (h : ∀ p, t.node? p ≠ none → t'.node? p = t.node? p)
    (hc : t.denotes c = some id) : t'.denotes c = some id := by
  unfold denotes at hc
  split at hc
  · cases hc
  rename_i p hp
  have hw := walk_walks (t := t) maxLinks [] c
  obtain ⟨⟨d, hd, -⟩, hthere⟩ := hw.real (real_of_isDir isDir_root) hp
  have hroot : t'.node? [] = t.node? [] := by
    obtain ⟨d, hd, -⟩ := real_of_isDir (isDir_root (t := t))
    exact h [] (by rw [hd]; simp)
  have hw' : Walks t' maxLinks [] c (t.walk maxLinks [] c) :=
    hw.congr (fun r hr => by rw [List.prefix_nil.mp hr]; exact hroot)
      fun r hr => h r (hthere r hr)
  have hp' : t'.resolve c = .ok p := by
    rw [resolve, hw'.walk_eq]
    exact hp
  simp only [denotes, hp', h p (by rw [hd]; simp)]
  exact hc

/-- A change of attributes shows where the path names the entry. -/
theorem lstat_setAttr {f : α → α} (h : t.locate c = .ok q) (he : t.get q = some e) :
    (t.setAttr p f).lstat c = .ok (reattr p f q e) := by
  refine lstat_of_locate ((locate_congr (fun r => node?_setAttr) c).trans h) ?_
  rw [get_setAttr, he, Option.map_some]

/-- `t'` is `t` without what was at `q`; what was not below it is where it was. -/
structure Gone (t t' : Tree α) (q : Path) : Prop where
  gone : t'.get q = none
  stay : ∀ p, ¬ q <+: p → t.get p ≠ none → t'.get p = t.get p

theorem gone_erase (h : t.eraseAt q = .ok t') : Gone t t' q := by
  obtain ⟨-, hget⟩ := eraseAt_eq_ok h
  exact ⟨(hget q).trans (if_pos (List.prefix_refl q)), fun p hp _ => (hget p).trans (if_neg hp)⟩

theorem gone_move (h : t.moveTo p q = .ok t') : Gone t t' p := by
  obtain ⟨hout, hfree, -, hold, helse⟩ := moveTo_eq_ok h
  refine ⟨?_, fun r hr hne => helse r hr fun hq => hne (get_eq_none_of_below hfree hq)⟩
  by_cases hq : q <+: p
  · have hp := get_eq_none_of_below hfree hq
    obtain ⟨s, rfl⟩ := hq
    have hmoved := (moveTo_eq_ok h).2.2.1 s
    rw [hmoved]
    exact get_eq_none_of_below hp (List.prefix_append _ _)
  · exact hold p (List.prefix_refl p) hq

namespace Gone

variable (h : Gone t t' q)

include h

theorem node?_stay (hp : ¬ q <+: p) (hne : t.node? p ≠ none) : t'.node? p = t.node? p := by
  have hget : t.get p ≠ none := fun hn => hne (by rw [node?, hn]; rfl)
  rw [node?, h.stay p hp hget]
  rfl

/-- A path that did not lead through what is gone leads where it led. -/
theorem resolve_eq (hq : q ≠ []) (hc : q ∉ t.trail c) (hp : t.resolve c = .ok p) :
    t'.resolve c = .ok p := by
  have hw := walk_walks (t := t) maxLinks [] c
  have hnil : ¬ q <+: [] := by rwa [List.prefix_nil]
  obtain ⟨-, hthere⟩ := hw.real (real_of_isDir isDir_root) hp
  have hbelow := hw.not_below hnil hc
  have hroot : t'.node? [] = t.node? [] := by
    obtain ⟨d, hd, -⟩ := real_of_isDir (isDir_root (t := t))
    exact h.node?_stay hnil (by rw [hd]; simp)
  have hw' : Walks t' maxLinks [] c (t.walk maxLinks [] c) :=
    hw.congr (fun r hr => by rw [List.prefix_nil.mp hr]; exact hroot)
      fun r hr => h.node?_stay (hbelow r hr) (hthere r hr)
  rw [resolve, hw'.walk_eq]
  exact hp

/-- A path that led through what is gone leads nowhere. -/
theorem resolve_stuck (hq : q ≠ []) (hc : q ∈ t.trail c) : ∃ e, t'.resolve c = .error e := by
  have hnil : ¬ q <+: [] := by rwa [List.prefix_nil]
  obtain ⟨w, e, hw, he⟩ : ∃ w e, Walks t' maxLinks [] c w ∧ w.ended = .error e :=
    (walk_walks maxLinks [] c).stuck hnil hc (by rw [node?, h.gone]; rfl) fun r hr hne =>
      h.node?_stay hr hne
  exact ⟨e, by rw [resolve, hw.walk_eq, he]⟩

/-- The path that named what is gone names nothing. -/
theorem lstat_ne_ok (hq : q ≠ []) (hc : t.locate c = .ok q) : t'.lstat c ≠ .ok e := by
  intro hl
  obtain ⟨r, hr, hget⟩ := lstat_eq_ok.mp hl
  rcases locate_eq_ok hc with ⟨-, rfl⟩ | ⟨dir, name, hlast, hdir, -, rfl⟩
  · exact hq rfl
  rcases locate_eq_ok hr with ⟨rfl, -⟩ | ⟨dir', name', hlast', hdir', -, rfl⟩
  · cases hlast
  obtain rfl : name = name' := Option.some.inj (hlast.symm.trans hlast')
  by_cases htrail : dir ++ [name] ∈ t.trail c.dropLast
  · obtain ⟨err, herr⟩ := h.resolve_stuck hq htrail
    rw [herr] at hdir'
    cases hdir'
  · rw [h.resolve_eq hq htrail hdir] at hdir'
    cases hdir'
    rw [h.gone] at hget
    cases hget

/-- **A directory is denoted as before exactly by the paths that did not lead through what is
gone.** -/
theorem denotes_iff {id : Nat} (hq : q ≠ []) (hc : t.denotes c = some id) :
    t'.denotes c = some id ↔ q ∉ t.trail c := by
  unfold denotes at hc
  split at hc
  · cases hc
  rename_i p hp
  refine ⟨fun h' htrail => ?_, fun htrail => ?_⟩
  · obtain ⟨e, he⟩ := h.resolve_stuck hq htrail
    simp only [denotes, he] at h'
    cases h'
  · have hnode : t'.node? p = t.node? p := by
      obtain ⟨d, hd, -⟩ := real_of_resolve hp
      refine h.node?_stay (fun hqp => htrail ?_) (by rw [hd]; simp)
      rcases (walk_walks maxLinks [] c).end_below hp hqp with hnil | hv
      · exact absurd (List.prefix_nil.mp hnil) hq
      · exact hv
    simp only [denotes, h.resolve_eq hq htrail hp, hnode]
    exact hc

end Gone

end Tree

end FileTree
