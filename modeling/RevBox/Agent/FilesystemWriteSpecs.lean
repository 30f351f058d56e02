import RevBox.Agent.FilesystemWrite

/-!
# Agent — FilesystemWriteSpecs

What the four writes of the Agent come to: what each needs, what it leaves, and that it leaves
the files alone where it fails.

* `resolveForWrite_eq_ok`: what a request names is in the real directory of its parent.
* `mkdir_run`, `rename_run`, `remove_run`, `chmod_run`: one result a method.
-/

namespace RevBox

open FileTree

namespace FilesystemWrite

variable {env : Env} {t t' : Disk} {raw source target : List Char} {p q r : Path} {e : Entry Attr}

/-! ### What a request names -/

/-- What `resolve_for_write` makes of a path. -/
structure Names (env : Env) (t : Disk) (raw : List Char) (q : Path) : Prop where
  absolute : raw.head? = some '/'
  lexical : accepts env t (normalizeLexically raw) = true
  parent : ∃ p, t.resolve (normalizeLexically raw).dropLast = .ok p ∧
    q = p ++ (normalizeLexically raw).getLast?.toList
  accepted : accepts env t q = true

theorem checkWritable_accepted (h : accepts env t p = true) : checkWritable env p t = .ok () :=
  if_pos h

theorem checkWritable_refused (h : ¬ accepts env t p = true) :
    ∃ err, checkWritable env p t = .error err :=
  ⟨_, if_neg h⟩

theorem resolveForWrite_eq_ok : resolveForWrite env raw t = .ok q ↔ Names env t raw q := by
  unfold resolveForWrite
  by_cases habs : raw.head? = some '/'
  rotate_left
  · rw [if_pos habs]
    exact ⟨fun h => (by cases h), fun h => absurd h.absolute habs⟩
  rw [if_neg (not_not_intro habs)]
  by_cases hlex : accepts env t (normalizeLexically raw) = true
  rotate_left
  · obtain ⟨err, herr⟩ := checkWritable_refused hlex
    simp only [herr]
    exact ⟨fun h => (by cases h), fun h => absurd h.lexical hlex⟩
  simp only [checkWritable_accepted hlex]
  cases hpar : t.resolve (normalizeLexically raw).dropLast with
  | error err =>
      refine ⟨fun h => (by cases h), fun h => ?_⟩
      obtain ⟨p, hp, -⟩ := h.parent
      cases hpar.symm.trans hp
  | ok p =>
      simp only
      by_cases hacc : accepts env t (p ++ (normalizeLexically raw).getLast?.toList) = true
      · simp only [checkWritable_accepted hacc, Except.ok.injEq]
        constructor
        · rintro rfl
          exact ⟨habs, hlex, ⟨p, hpar, rfl⟩, hacc⟩
        · intro h
          obtain ⟨p', hp', rfl⟩ := h.parent
          rw [Except.ok.inj (hpar.symm.trans hp')]
      · obtain ⟨err, herr⟩ := checkWritable_refused hacc
        simp only [herr]
        refine ⟨fun h => (by cases h), fun h => ?_⟩
        obtain ⟨p', hp', rfl⟩ := h.parent
        rw [Except.ok.inj (hpar.symm.trans hp')] at hacc
        exact absurd h.accepted hacc

/-- A request names one place, or none. -/
theorem names_or_error (env : Env) (t : Disk) (raw : List Char) :
    (∃ q, resolveForWrite env raw t = .ok q ∧ Names env t raw q) ∨
    ((∀ q, ¬ Names env t raw q) ∧ ∃ err, resolveForWrite env raw t = .error err) := by
  cases h : resolveForWrite env raw t with
  | ok q => exact .inl ⟨q, rfl, resolveForWrite_eq_ok.mp h⟩
  | error err =>
      refine .inr ⟨fun q hq => ?_, err, rfl⟩
      cases (resolveForWrite_eq_ok.mpr hq).symm.trans h

namespace Names

theorem unique (h : Names env t raw q) (h' : Names env t raw r) : q = r :=
  Except.ok.inj ((resolveForWrite_eq_ok.mpr h).symm.trans (resolveForWrite_eq_ok.mpr h'))

/-- What is named is in a directory, or nothing can be there. -/
theorem locate (h : Names env t raw q) :
    t.locate q = .ok q ∨ t.isDir q.dropLast = false ∧ ∃ err, t.locate q = .error err := by
  obtain ⟨p, hp, rfl⟩ := h.parent
  cases hlast : (normalizeLexically raw).getLast? with
  | none =>
      rw [List.getLast?_eq_none_iff] at hlast
      rw [hlast] at hp
      cases hp
      exact .inl rfl
  | some name =>
      simp only [Option.toList_some]
      cases hd : t.isDir p with
      | true => exact .inl (Tree.locate_concat hd)
      | false =>
          have hreal := Tree.resolve_of_real (Tree.real_of_resolve hp)
          refine .inr ⟨by rwa [List.dropLast_concat], .enotdir, ?_⟩
          simp only [Tree.locate, List.getLast?_concat, List.dropLast_concat, hreal, hd,
            Bool.false_eq_true, if_false]

theorem lstat (h : Names env t raw q) : t.lstat q = .ok e ↔ t.get q = some e := by
  refine ⟨fun hl => ?_, Tree.lstat_of_get⟩
  obtain ⟨r, hr, he⟩ := Tree.lstat_eq_ok.mp hl
  rcases h.locate with hq | ⟨-, err, herr⟩
  · rwa [Except.ok.inj (hq.symm.trans hr)]
  · cases herr.symm.trans hr

theorem lstat_none (h : Names env t raw q) (hq : t.get q = none) : ∃ err, t.lstat q = .error err := by
  cases hl : t.lstat q with
  | ok e => cases hq.symm.trans (h.lstat.mp hl)
  | error err => exact ⟨err, rfl⟩

end Names

/-- A path at which an entry can be put. -/
structure Vacant (t : Disk) (q : Path) : Prop where
  free : t.get q = none
  parent : t.isDir q.dropLast = true
  names : ∀ n ∈ q, ValidName n

theorem Names.locate_vacant (h : Names env t raw q) (hq : t.isDir q.dropLast = true) :
    t.locate q = .ok q := by
  rcases h.locate with hl | ⟨hd, -⟩
  · exact hl
  · cases hd.symm.trans hq

/-! ### Reading and writing -/

section Steps

variable {α : Type} {f : Disk → Except AgentError α} {a : α} {err : AgentError}

theorem reading_ok (h : f t = .ok a) : reading f t = .ok a t := by
  simp only [reading, h]

theorem reading_error (h : f t = .error err) : reading f t = .error err t := by
  simp only [reading, h]

end Steps

theorem reading_io {op : String} (h : t.lstat q = .ok e) :
    reading (fun t => io op q (t.lstat q)) t = .ok e t := by
  refine reading_ok ?_
  simp only [h]
  rfl

theorem metadataOf_ok (h : t.lstat q = .ok e) : reading (metadataOf q) t = .ok e t :=
  reading_io h

theorem metadataOf_error {err : Errno} (h : t.lstat q = .error err) :
    ∃ err', reading (metadataOf q) t = .error err' t := by
  refine ⟨ioError "lstat" q err, reading_error ?_⟩
  simp only [metadataOf, h]
  rfl

theorem writing_ok {op : String} {call : Disk → Except Errno Disk} (h : call t = .ok t') :
    writing op q call t = .ok () t' := by
  simp only [writing, h]

theorem writing_error (op : String) (q : Path) (call : Disk → Except Errno Disk) {err : Errno}
    (h : call t = .error err) : ∃ err', writing op q call t = .error err' t := by
  simp only [writing, h]
  exact ⟨_, rfl⟩

theorem exists_true (h : t.lstat q = .ok e) : exists_ q t = .ok true t := by
  simp only [exists_, h]
  rfl

theorem exists_false (h : ∀ e, t.lstat q ≠ .ok e) : exists_ q t = .ok false t := by
  cases hl : t.lstat q with
  | ok e => exact absurd hl (h e)
  | error err =>
      simp only [exists_, hl]
      rfl

theorem get_ok (t : Disk) : (get : Writing Disk) t = .ok t t := rfl

/-! ### `mkdir` -/

theorem mkdirAt_vacant {a : Attr} (h : Vacant t q) : ∃ t', t.mkdirAt q a = .ok t' :=
  Tree.mkdirAt_ok h.free h.parent h.names

theorem vacant_of_mkdirAt {a : Attr} (h : t.mkdirAt q a = .ok t') : Vacant t q := by
  unfold Tree.mkdirAt at h
  split at h
  · rename_i hfree
    split at h
    · rename_i hnew
      exact ⟨hfree, hnew.1, hnew.2⟩
    · cases h
  · cases h

/-- **`mkdir` finds a directory, or makes one, or fails and leaves the files as they are.** -/
theorem mkdir_run (env : Env) (raw : List Char) (t : Disk) :
    (∃ q r, Names env t raw q ∧ t.isDir q = true ∧ mkdir env raw t = .ok r t ∧
      r.created = false) ∨
    (∃ q r t', Names env t raw q ∧ t.mkdirAt q env.newDir = .ok t' ∧
      mkdir env raw t = .ok r t' ∧ r.created = true) ∨
    ((∀ q, Names env t raw q → t.isDir q = false ∧ ¬ Vacant t q) ∧
      ∃ err, mkdir env raw t = .error err t) := by
  unfold mkdir
  rcases names_or_error env t raw with ⟨q, hq, hn⟩ | ⟨hnone, err, herr⟩
  rotate_left
  · exact .inr (.inr ⟨fun q hn => absurd hn (hnone q), err, bind_error (reading_error herr)⟩)
  rw [bind_ok (reading_ok hq), bind_ok (get_ok t)]
  cases hget : t.get q with
  | some e =>
      simp only [Tree.lstat_of_get hget]
      cases hdir : e.node.isDir with
      | true =>
          rw [if_pos rfl]
          exact .inl ⟨q, _, hn, Tree.isDir_iff.mpr ⟨e, hget, hdir⟩, rfl, rfl⟩
      | false =>
          rw [if_neg Bool.false_ne_true]
          refine .inr (.inr ⟨fun q' hn' => ?_, _, rfl⟩)
          obtain rfl := hn.unique hn'
          refine ⟨eq_false_of_ne_true fun h => ?_, fun hv => by cases hget.symm.trans hv.free⟩
          obtain ⟨e', he', hdir'⟩ := Tree.isDir_iff.mp h
          cases hget.symm.trans he'
          cases hdir.symm.trans hdir'
  | none =>
      obtain ⟨err, herr⟩ := hn.lstat_none hget
      simp only [herr, makeDir]
      cases hmk : t.mkdir q env.newDir with
      | ok t' =>
          have hmkAt : t.mkdirAt q env.newDir = .ok t' := by
            unfold Tree.mkdir at hmk
            split at hmk
            · cases hmk
            · rename_i r hr
              rcases hn.locate with hl | ⟨-, err', herr'⟩
              · rwa [Except.ok.inj (hl.symm.trans hr)]
              · cases herr'.symm.trans hr
          obtain ⟨-, hget'⟩ := Tree.mkdirAt_eq_ok hmkAt
          have hnew : t'.lstat q = .ok ⟨.dir t.freshId, env.newDir⟩ :=
            Tree.lstat_of_get ((hget' q).trans (if_pos rfl))
          rw [bind_ok (writing_ok hmk), bind_ok (reading_io hnew)]
          exact .inr (.inl ⟨q, _, t', hn, hmkAt, rfl, rfl⟩)
      | error err' =>
          obtain ⟨err'', herr''⟩ := writing_error "mkdir" q
            (fun t => t.mkdir q env.newDir) hmk
          refine .inr (.inr ⟨fun q' hn' => ?_, err'', bind_error herr''⟩)
          obtain rfl := hn.unique hn'
          refine ⟨eq_false_of_ne_true fun h => ?_, fun hv => ?_⟩
          · obtain ⟨e', he', -⟩ := Tree.isDir_iff.mp h
            cases hget.symm.trans he'
          · obtain ⟨t', ht'⟩ := mkdirAt_vacant (a := env.newDir) hv
            rw [Tree.mkdir, hn.locate_vacant hv.parent] at hmk
            cases ht'.symm.trans hmk

/-! ### `rename` -/

/-- `rename` has something to move from `p`, and a free place for it at `q`. -/
structure Moves (env : Env) (t : Disk) (source target : List Char) (p q : Path) : Prop where
  source : Names env t source p
  target : Names env t target q
  there : t.get p ≠ none
  vacant : Vacant t q
  outside : ¬ p <+: q

theorem Moves.moveTo (h : Moves env t source target p q) : ∃ t', t.moveTo p q = .ok t' := by
  have hp : p ≠ [] := fun hp => h.outside (hp ▸ List.nil_prefix)
  have hq : q ≠ [] := fun hq => by
    obtain ⟨e, he, -⟩ := Tree.isDir_iff.mp (Tree.isDir_root (t := t))
    rw [← hq] at he
    cases he.symm.trans h.vacant.free
  unfold Tree.moveTo
  rw [dif_pos ⟨⟨hp, hq⟩, ⟨h.vacant.free, h.vacant.parent⟩, h.vacant.names, h.outside⟩]
  exact ⟨_, rfl⟩

/-- What `rename` of the kernel does where the target is free. -/
theorem rename_free (ht : Names env t target q) (hp : t.get p = some e) (hq : t.get q = none) (h : t.rename p q = .ok t') :
    t.moveTo p q = .ok t' := by
  unfold Tree.rename at h
  rw [Tree.locate_of_get hp] at h
  simp only [hp] at h
  split at h
  · cases h
  · rename_i r hr
    have hrq : r = q := by
      rcases ht.locate with hl | ⟨-, err, herr⟩
      · exact Except.ok.inj (hr.symm.trans hl)
      · cases herr.symm.trans hr
    subst hrq
    split at h
    · rename_i hpq
      subst hpq
      cases hp.symm.trans hq
    · split at h
      · cases h
      · simpa only [Tree.makeWay_of_free hq] using h

theorem vacant_of_moveTo (h : t.moveTo p q = .ok t') : Vacant t q ∧ ¬ p <+: q := by
  unfold Tree.moveTo at h
  split at h
  · rename_i hm
    exact ⟨⟨hm.2.1.1, hm.2.1.2, hm.2.2.1⟩, hm.2.2.2⟩
  · cases h

theorem rename_moves (h : Moves env t source target p q) (hm : t.moveTo p q = .ok t') :
    t.rename p q = .ok t' := by
  obtain ⟨e, he⟩ := Option.ne_none_iff_exists'.mp h.there
  have hpq : p ≠ q := fun hpq => h.outside (hpq ▸ List.prefix_refl p)
  simp only [Tree.rename, Tree.locate_of_get he, h.target.locate_vacant h.vacant.parent, he,
    if_neg hpq, if_neg h.outside, Tree.makeWay_of_free h.vacant.free, hm]

/-- **`rename` has nothing to do, or moves an entry to a free place, or fails and leaves the files
as they are.** -/
theorem rename_run (env : Env) (source target : List Char) (t : Disk) :
    (∃ q r, Names env t source q ∧ Names env t target q ∧ t.get q ≠ none ∧
      rename env source target t = .ok r t ∧ r.noOp = true) ∨
    (∃ p q r t', Moves env t source target p q ∧ t.moveTo p q = .ok t' ∧
      rename env source target t = .ok r t' ∧ r.noOp = false) ∨
    (((∀ q, Names env t source q → Names env t target q → t.get q = none) ∧
      ∀ p q, ¬ Moves env t source target p q) ∧
      ∃ err, rename env source target t = .error err t) := by
  unfold rename
  rcases names_or_error env t source with ⟨p, hp, hs⟩ | ⟨hnone, err, herr⟩
  rotate_left
  · exact .inr (.inr ⟨⟨fun q hn _ => absurd hn (hnone q), fun p q h => hnone p h.source⟩, err,
      bind_error (reading_error herr)⟩)
  rw [bind_ok (reading_ok hp)]
  cases hget : t.get p with
  | none =>
      obtain ⟨err, herr⟩ := hs.lstat_none hget
      obtain ⟨err', herr'⟩ := metadataOf_error herr
      refine .inr (.inr ⟨⟨fun q hn _ => hs.unique hn ▸ hget, fun p' q h => ?_⟩, err',
        bind_error herr'⟩)
      obtain rfl := hs.unique h.source
      exact h.there hget
  | some e =>
  rw [bind_ok (metadataOf_ok (Tree.lstat_of_get hget))]
  rcases names_or_error env t target with ⟨q, hq, ht⟩ | ⟨hnone, err, herr⟩
  rotate_left
  · exact .inr (.inr ⟨⟨fun q _ hn => absurd hn (hnone q), fun p q h => hnone q h.target⟩, err,
      bind_error (reading_error herr)⟩)
  rw [bind_ok (reading_ok hq)]
  by_cases hpq : p = q
  · subst hpq
    rw [if_pos rfl]
    exact .inl ⟨p, _, hs, ht, by simp [hget], rfl, rfl⟩
  rw [if_neg hpq]
  have apart : ∀ r, Names env t source r → Names env t target r → t.get r = none :=
    fun r h h' => absurd ((hs.unique h).trans (ht.unique h').symm) hpq
  cases hthere : t.get q with
  | some e' =>
      rw [bind_ok (exists_true (Tree.lstat_of_get hthere)), if_pos rfl]
      refine .inr (.inr ⟨⟨apart, fun p' q' h => ?_⟩, _, rfl⟩)
      obtain rfl := ht.unique h.target
      cases hthere.symm.trans h.vacant.free
  | none =>
      rw [bind_ok (exists_false fun e' he' => by cases hthere.symm.trans (ht.lstat.mp he')),
        if_neg Bool.false_ne_true, moveEntry, bind_ok (reading_ok (checkWritable_accepted ht.accepted))]
      cases hm : t.rename p q with
      | error err =>
          obtain ⟨err', herr'⟩ := writing_error "rename" p
            (fun t => t.rename p q) hm
          refine .inr (.inr ⟨⟨apart, fun p' q' h => ?_⟩, err', bind_error herr'⟩)
          obtain rfl := hs.unique h.source
          obtain rfl := ht.unique h.target
          obtain ⟨t', ht'⟩ := h.moveTo
          cases hm.symm.trans (rename_moves h ht')
      | ok t' =>
          have hmove := rename_free ht hget hthere hm
          obtain ⟨hv, hout⟩ := vacant_of_moveTo hmove
          obtain ⟨-, -, hbelow, -⟩ := Tree.moveTo_eq_ok hmove
          have hmoved : t'.get q = some e := by
            have := hbelow []
            rwa [List.append_nil, List.append_nil, hget] at this
          have hgone : ∀ e', t'.lstat p ≠ .ok e' := fun e' =>
            (Tree.gone_move hmove).lstat_ne_ok (fun hp => hout (hp ▸ List.nil_prefix))
              (Tree.locate_of_get hget)
          rw [bind_ok (writing_ok hm), bind_ok (reading_io (Tree.lstat_of_get hmoved)),
            bind_ok (exists_false hgone), if_neg Bool.false_ne_true]
          exact .inr (.inl ⟨p, q, _, t', ⟨hs, ht, by simp [hget], hv, hout⟩, hmove, rfl, rfl⟩)

/-! ### `remove` -/

/-- `remove` may take the entry at `q`. -/
structure Takes (env : Env) (t : Disk) (raw : List Char) (recursive : Bool) (q : Path) : Prop where
  target : Names env t raw q
  there : t.get q ≠ none
  unprotected : isProtectedRoot env t q = false
  /-- a directory that is taken as it is has nothing in it -/
  empty : t.isDir q = true → recursive = false → t.names q = []
  few : (t.below q).length ≤ maxRemoveEntries
  below : q ≠ []

theorem kindOf_eq_dir : kindOf e = .dir ↔ e.node.isDir = true := by
  unfold kindOf Node.isDir Node.dirId?
  cases e.node <;> simp

/-- The call that takes an entry comes to the same for every kind of it. -/
theorem take_call (hget : t.get q = some e) {recursive : Bool}
    (hempty : t.isDir q = true → recursive = false → t.names q = []) :
    (if kindOf e = .dir then if recursive then t.removeAll q else t.rmdir q else t.unlink q) =
      t.eraseAt q := by
  have hq := Tree.locate_of_get hget
  by_cases hdir : e.node.isDir = true
  · rw [if_pos (kindOf_eq_dir.mpr hdir)]
    cases recursive with
    | true => rw [if_pos rfl, Tree.removeAll, Tree.onEntry_of_get hq hget]
    | false =>
        have hnames := hempty (Tree.isDir_iff.mpr ⟨e, hget, hdir⟩) rfl
        rw [if_neg Bool.false_ne_true, Tree.rmdir, Tree.onEntry_of_get hq hget]
        simp only [hdir, hnames, Bool.not_true, Bool.false_eq_true, ne_eq, not_true_eq_false,
          if_false]
  · rw [if_neg fun h => hdir (kindOf_eq_dir.mp h), Tree.unlink, Tree.onEntry_of_get hq hget,
      if_neg hdir]

/-- **`remove` takes an entry with what is below it, or fails and leaves the files as they
are.** -/
theorem remove_run (env : Env) (raw : List Char) (recursive : Bool) (t : Disk) :
    (∃ q e r t', Takes env t raw recursive q ∧ t.get q = some e ∧ t.eraseAt q = .ok t' ∧
      remove env raw recursive t = .ok r t' ∧ r.wasDir = decide (kindOf e = .dir)) ∨
    ((∀ q, ¬ Takes env t raw recursive q) ∧ ∃ err, remove env raw recursive t = .error err t) := by
  unfold remove
  rcases names_or_error env t raw with ⟨q, hq, hn⟩ | ⟨hnone, err, herr⟩
  rotate_left
  · exact .inr ⟨fun q h => hnone q h.target, err, bind_error (reading_error herr)⟩
  rw [bind_ok (reading_ok hq)]
  cases hget : t.get q with
  | none =>
      obtain ⟨err, herr⟩ := hn.lstat_none hget
      obtain ⟨err', herr'⟩ := metadataOf_error herr
      refine .inr ⟨fun q' h => ?_, err', bind_error herr'⟩
      obtain rfl := hn.unique h.target
      exact h.there hget
  | some e =>
  rw [bind_ok (metadataOf_ok (Tree.lstat_of_get hget)), bind_ok (get_ok t)]
  by_cases hprot : isProtectedRoot env t q = true
  · rw [if_pos hprot]
    refine .inr ⟨fun q' h => ?_, _, rfl⟩
    obtain rfl := hn.unique h.target
    cases hprot.symm.trans h.unprotected
  rw [if_neg hprot]
  have hisDir : t.isDir q = true ↔ kindOf e = .dir := by
    rw [Tree.isDir_iff, kindOf_eq_dir]
    constructor
    · rintro ⟨e', he', hd⟩
      rwa [Option.some.inj (hget.symm.trans he')]
    · exact fun hd => ⟨e, hget, hd⟩
  have hcount : 0 < countEntries q t ↔ t.names q ≠ [] := by
    rw [← List.length_pos_iff, countEntries]
    exact ⟨fun h => (Nat.lt_min.mp h).1, fun h => Nat.lt_min.mpr ⟨h, by decide⟩⟩
  by_cases hfull : recursive = false ∧ kindOf e = .dir ∧ 0 < countEntries q t
  · rw [if_pos hfull]
    refine .inr ⟨fun q' h => ?_, _, rfl⟩
    obtain rfl := hn.unique h.target
    exact hcount.mp hfull.2.2 (h.empty (hisDir.mpr hfull.2.1) hfull.1)
  rw [if_neg hfull, takeEntry,
    bind_ok (reading_ok (f := fun t => .ok (measure q t)) (a := measure q t) rfl)]
  have hempty : t.isDir q = true → recursive = false → t.names q = [] := fun hd hrec => by
    by_contra hne
    exact hfull ⟨hrec, hisDir.mp hd, hcount.mpr hne⟩
  obtain ⟨freed, entries, hm⟩ : ∃ freed entries, measure q t = (freed, entries) := ⟨_, _, rfl⟩
  have hmeasure : (t.below q).length = entries := congrArg Prod.snd hm
  simp only [hm]
  by_cases hmany : maxRemoveEntries < entries
  · rw [if_pos hmany]
    refine .inr ⟨fun q' h => ?_, _, rfl⟩
    obtain rfl := hn.unique h.target
    exact Nat.not_lt.mpr (hmeasure ▸ h.few) hmany
  rw [if_neg hmany]
  have hcall := take_call hget hempty
  cases herase : t.eraseAt q with
  | error err =>
      obtain ⟨err', herr'⟩ := writing_error "remove" q (fun t =>
        if kindOf e = .dir then if recursive then t.removeAll q else t.rmdir q else t.unlink q)
        (hcall.trans herase)
      refine .inr ⟨fun q' h => ?_, err', bind_error herr'⟩
      obtain rfl := hn.unique h.target
      rw [Tree.eraseAt_ok h.below] at herase
      cases herase
  | ok t' =>
      obtain ⟨hne, hget'⟩ := Tree.eraseAt_eq_ok herase
      have hgone : ∀ e', t'.lstat q ≠ .ok e' := fun e' =>
        (Tree.gone_erase herase).lstat_ne_ok hne (Tree.locate_of_get hget)
      rw [bind_ok (writing_ok (hcall.trans herase)), bind_ok (exists_false hgone),
        if_neg Bool.false_ne_true]
      exact .inl ⟨q, e, _, t', ⟨hn, by simp [hget], eq_false_of_ne_true hprot, hempty,
        hmeasure.trans_le (Nat.le_of_not_lt hmany), hne⟩, hget, herase, rfl, rfl⟩

/-! ### `chmod` -/

/-- `chmod` may set the mode of the entry at `q`. -/
structure Sets (env : Env) (t : Disk) (raw : List Char) (bits : UInt32) (q : Path)
    (e : Entry Attr) : Prop where
  plain : bits.toNat ≤ 0o777
  target : Names env t raw q
  there : t.get q = some e
  noLink : e.node.isLink = false

/-- The mask keeps the bits above the nine, and they are none exactly in a number below. -/
theorem plain_iff (bits : UInt32) : bits &&& ~~~0o777 = 0 ↔ bits.toNat ≤ 0o777 := by
  have hmask : (~~~0o777 : UInt32).toNat = 4294966784 := rfl
  rw [← UInt32.toNat_inj, UInt32.toNat_and, hmask]
  constructor
  · intro h
    refine Nat.le_of_lt_succ (Nat.lt_pow_two_of_testBit (n := 9) bits.toNat fun i hi => ?_)
    by_cases hi' : i < 32
    · have hhigh : ∀ i < 32, 9 ≤ i → Nat.testBit 4294966784 i = true := by decide
      have hbit : (bits.toNat &&& 4294966784).testBit i = false := by
        rw [h]
        exact Nat.zero_testBit i
      rwa [Nat.testBit_and, hhigh i hi' hi, Bool.and_true] at hbit
    · exact Nat.testBit_lt_two_pow (Nat.lt_of_lt_of_le bits.toNat_lt
        (Nat.pow_le_pow_right (by decide) (Nat.le_of_not_lt hi')))
  · intro h
    refine Nat.eq_of_testBit_eq fun i => ?_
    rw [Nat.testBit_and]
    by_cases hi : i < 9
    · have hlow : ∀ i < 9, Nat.testBit 4294966784 i = false := by decide
      rw [hlow i hi, Bool.and_false]
      exact (Nat.zero_testBit i).symm
    · have hbits : bits.toNat < 2 ^ i := Nat.lt_of_lt_of_le (Nat.lt_succ_of_le h)
        (Nat.pow_le_pow_right (by decide : 2 > 0) (Nat.le_of_not_lt hi))
      rw [Nat.testBit_lt_two_pow hbits, Bool.false_and]
      exact (Nat.zero_testBit i).symm

theorem kindOf_eq_symlink : kindOf e = .symlink ↔ e.node.isLink = true := by
  unfold kindOf Node.isLink
  cases e.node <;> simp

theorem mode_setMode {bits : Nat} (h : bits ≤ 0o777) :
    mode { e with attr := setMode bits e.attr } = bits := by
  unfold mode setMode
  rw [BitVec.toNat_ofNat]
  exact Nat.mod_eq_of_lt (by omega)

/-- What is set where it is not set already. -/
theorem setBits_run {bits : Nat} (hbits : bits ≤ 0o777) (hget : t.get q = some e)
    (hlink : e.node.isLink = false) : ∃ r, setBits q bits e t =
      .ok r (if mode e &&& 0o777 = bits then t else t.setAttr q (setMode bits)) ∧
      r.verified = true := by
  unfold setBits
  by_cases hsame : mode e &&& 0o777 = bits
  · rw [if_neg (not_not_intro hsame), if_pos hsame]
    refine ⟨_, (bind_ok (reading_io (Tree.lstat_of_get hget))).trans rfl, ?_⟩
    exact decide_eq_true hsame
  · have hreal : t.Real q := ⟨e.node, Tree.node?_eq_some.mpr ⟨e, hget, rfl⟩, hlink⟩
    have hcall : t.change q (setMode bits) = .ok (t.setAttr q (setMode bits)) := by
      simp only [Tree.change, Tree.resolve_of_real hreal]
    have hafter := Tree.lstat_of_get (Tree.get_setAttr_same (f := setMode bits) hget)
    rw [if_pos hsame, if_neg hsame, bind_ok (writing_ok hcall)]
    refine ⟨_, (bind_ok (reading_io hafter)).trans rfl, ?_⟩
    refine decide_eq_true ?_
    rw [mode_setMode hbits]
    exact Nat.and_two_pow_sub_one_of_lt_two_pow (n := 9) (Nat.lt_succ_of_le hbits)

/-- **`chmod` leaves an entry that is no link with the bits asked for, or fails and leaves the
files as they are.** -/
theorem chmod_run (env : Env) (raw : List Char) (bits : UInt32) (t : Disk) :
    (∃ q e r, Sets env t raw bits q e ∧
      chmod env raw bits t =
        .ok r (if mode e &&& 0o777 = bits.toNat then t else t.setAttr q (setMode bits.toNat)) ∧
      r.verified = true) ∨
    ((∀ q e, ¬ Sets env t raw bits q e) ∧ ∃ err, chmod env raw bits t = .error err t) := by
  unfold chmod
  by_cases hbits : bits.toNat ≤ 0o777
  rotate_left
  · rw [if_pos fun h => hbits ((plain_iff bits).mp h)]
    exact .inr ⟨fun q e h => hbits h.plain, _, rfl⟩
  rw [if_neg (not_not_intro ((plain_iff bits).mpr hbits))]
  rcases names_or_error env t raw with ⟨q, hq, hn⟩ | ⟨hnone, err, herr⟩
  rotate_left
  · exact .inr ⟨fun q e h => hnone q h.target, err, bind_error (reading_error herr)⟩
  rw [bind_ok (reading_ok hq)]
  cases hget : t.get q with
  | none =>
      obtain ⟨err, herr⟩ := hn.lstat_none hget
      obtain ⟨err', herr'⟩ := metadataOf_error herr
      refine .inr ⟨fun q' e h => ?_, err', bind_error herr'⟩
      obtain rfl := hn.unique h.target
      cases hget.symm.trans h.there
  | some e =>
  rw [bind_ok (metadataOf_ok (Tree.lstat_of_get hget))]
  by_cases hlink : kindOf e = .symlink
  · rw [if_pos hlink]
    refine .inr ⟨fun q' e' h => ?_, _, rfl⟩
    obtain rfl := hn.unique h.target
    obtain rfl := Option.some.inj (hget.symm.trans h.there)
    exact absurd (kindOf_eq_symlink.mp hlink) (by simp [h.noLink])
  rw [if_neg hlink]
  have hnoLink : e.node.isLink = false := eq_false_of_ne_true fun h => hlink (kindOf_eq_symlink.mpr h)
  obtain ⟨r, hr, hverified⟩ := setBits_run hbits hget hnoLink
  exact .inl ⟨q, e, r, ⟨hbits, hn, hget, hnoLink⟩, hr, hverified⟩

end FilesystemWrite

end RevBox
