import RevBox.Support.FileTree

/-!
# Support — PathWalk

How a path is followed through a tree of files: component by component, links included, within
a budget of links.  A walk tells where it ended and which entries it looked up on its way.

* `Walks`: the walk as a relation, and the induction every fact about walks goes by.
* `Walks.congr`: a walk ends where it did in every tree that keeps what it looked up.
* `Walks.stuck`: it ends nowhere once an entry it looked up is taken away.
* `resolve_of_get`, `locate_of_get`: the path of an entry leads to it.
-/

namespace FileTree

/-- `errno`. -/
inductive Errno where
  | enoent
  | eexist
  | ebusy
  | enotdir
  | eisdir
  | einval
  | eloop
  | enotempty
  deriving DecidableEq, Repr

/-- What a walk looked up, and where it ended. -/
structure Walk where
  visited : List Path
  ended : Except Errno Path

/-- The walk that looked up `p` first. -/
def Walk.via (p : Path) (w : Walk) : Walk := { w with visited := p :: w.visited }

/-- A component that stands for the directory itself. -/
def Stay (name : Name) : Prop := name = [] ∨ name = ['.']

instance (name : Name) : Decidable (Stay name) := inferInstanceAs (Decidable (_ ∨ _))

/-- The component that stands for the parent directory. -/
def parentName : Name := ['.', '.']

variable {α : Type}

namespace Tree

/-- The walk from a directory along components; `follow` goes on where a link leads. -/
def walkWith (t : Tree α) (follow : Path → List Name → Walk) : Path → List Name → Walk
  | here, [] => ⟨[], .ok here⟩
  | here, name :: rest =>
      if t.isDir here = false then ⟨[], .error .enotdir⟩
      else if Stay name then t.walkWith follow here rest
      else if name = parentName then t.walkWith follow here.dropLast rest
      else
        match t.node? (here ++ [name]) with
        | none => .via (here ++ [name]) ⟨[], .error .enoent⟩
        | some (.link target) =>
            .via (here ++ [name])
              (follow (if target.head? = some '/' then [] else here) (target.splitOn '/' ++ rest))
        | some _ => .via (here ++ [name]) (t.walkWith follow (here ++ [name]) rest)

/-- The walk with a budget of links. -/
def walk (t : Tree α) : Nat → Path → List Name → Walk
  | 0 => t.walkWith fun _ _ => ⟨[], .error .eloop⟩
  | n + 1 => t.walkWith (t.walk n)

/-- How many links a path may lead through. -/
def maxLinks : Nat := 40

/-- Where a path leads, every link followed. -/
def resolve (t : Tree α) (c : List Name) : Except Errno Path := (t.walk maxLinks [] c).ended

/-- The entries that a path leads through. -/
def trail (t : Tree α) (c : List Name) : List Path := (t.walk maxLinks [] c).visited

/-- Where the entry that a path names is, or would be: a link in the last place is not followed. -/
def locate (t : Tree α) (c : List Name) : Except Errno Path :=
  match c.getLast? with
  | none => .ok []
  | some name =>
      match t.resolve c.dropLast with
      | .error e => .error e
      | .ok dir => if t.isDir dir then .ok (dir ++ [name]) else .error .enotdir

/-- The directory that a path denotes, by its identity. -/
def denotes (t : Tree α) (c : List Name) : Option Nat :=
  match t.resolve c with
  | .error _ => none
  | .ok p => (t.node? p).bind Node.dirId?

end Tree

/-! ### The walk as a relation -/

/-- What `walk` does with `n` links left. -/
inductive Walks (t : Tree α) : Nat → Path → List Name → Walk → Prop where
  | done {n : Nat} {here : Path} : Walks t n here [] ⟨[], .ok here⟩
  | notDir {n : Nat} {here : Path} {name : Name} {rest : List Name} (h : t.isDir here = false) :
      Walks t n here (name :: rest) ⟨[], .error .enotdir⟩
  | stay {n : Nat} {here : Path} {name : Name} {rest : List Name} {w : Walk}
      (hd : t.isDir here = true) (hs : Stay name) (h : Walks t n here rest w) :
      Walks t n here (name :: rest) w
  | up {n : Nat} {here : Path} {rest : List Name} {w : Walk} (hd : t.isDir here = true)
      (h : Walks t n here.dropLast rest w) : Walks t n here (parentName :: rest) w
  | absent {n : Nat} {here : Path} {name : Name} {rest : List Name} (hd : t.isDir here = true)
      (hs : ¬ Stay name) (hp : name ≠ parentName) (hn : t.node? (here ++ [name]) = none) :
      Walks t n here (name :: rest) (.via (here ++ [name]) ⟨[], .error .enoent⟩)
  | enter {n : Nat} {here : Path} {name : Name} {rest : List Name} {w : Walk} {d : Node}
      (hd : t.isDir here = true) (hs : ¬ Stay name) (hp : name ≠ parentName)
      (hn : t.node? (here ++ [name]) = some d) (hl : d.isLink = false)
      (h : Walks t n (here ++ [name]) rest w) :
      Walks t n here (name :: rest) (.via (here ++ [name]) w)
  | loops {here : Path} {name : Name} {rest : List Name} {target : List Char}
      (hd : t.isDir here = true) (hs : ¬ Stay name) (hp : name ≠ parentName)
      (hn : t.node? (here ++ [name]) = some (.link target)) :
      Walks t 0 here (name :: rest) (.via (here ++ [name]) ⟨[], .error .eloop⟩)
  | follow {n : Nat} {here : Path} {name : Name} {rest : List Name} {w : Walk}
      {target : List Char} (hd : t.isDir here = true) (hs : ¬ Stay name) (hp : name ≠ parentName)
      (hn : t.node? (here ++ [name]) = some (.link target))
      (h : Walks t n (if target.head? = some '/' then [] else here)
        (target.splitOn '/' ++ rest) w) :
      Walks t (n + 1) here (name :: rest) (.via (here ++ [name]) w)

variable {t t' : Tree α} {n : Nat} {here p q : Path} {steps c : List Name} {w : Walk}

theorem not_stay_parentName : ¬ Stay parentName := by decide

theorem walkWith_walks {n : Nat} {follow : Path → List Name → Walk}
    (hf : ∀ here name rest target, t.isDir here = true → ¬ Stay name → name ≠ parentName →
      t.node? (here ++ [name]) = some (.link target) →
      Walks t n here (name :: rest) (.via (here ++ [name])
        (follow (if target.head? = some '/' then [] else here) (target.splitOn '/' ++ rest))))
    (here : Path) (steps : List Name) : Walks t n here steps (t.walkWith follow here steps) := by
  induction steps generalizing here with
  | nil => exact .done
  | cons name rest ih =>
      rw [Tree.walkWith]
      split
      · rename_i hd
        exact .notDir hd
      rename_i hd
      have hd := eq_true_of_ne_false hd
      split
      · rename_i hs
        exact .stay hd hs (ih here)
      rename_i hs
      split
      · rename_i hp
        exact hp ▸ .up hd (ih here.dropLast)
      rename_i hp
      split
      · rename_i hn
        exact .absent hd hs hp hn
      · rename_i hn
        exact hf _ _ _ _ hd hs hp hn
      · rename_i d hl hn
        refine .enter hd hs hp hn ?_ (ih _)
        cases d with
        | link target => exact absurd rfl (hl target)
        | dir id => rfl
        | file => rfl

theorem walk_walks : ∀ (n : Nat) (here : Path) (steps : List Name),
    Walks t n here steps (t.walk n here steps)
  | 0, here, steps => walkWith_walks (fun _ _ _ _ hd hs hp hn => .loops hd hs hp hn) here steps
  | n + 1, here, steps =>
      walkWith_walks (fun _ _ _ _ hd hs hp hn => .follow hd hs hp hn (walk_walks n _ _)) here steps

theorem walk_eq_walkWith (t : Tree α) (n : Nat) : ∃ follow, t.walk n = t.walkWith follow := by
  cases n <;> exact ⟨_, rfl⟩

/-- A walk goes one way. -/
theorem Walks.walk_eq (h : Walks t n here steps w) : t.walk n here steps = w := by
  induction h with
  | @done n here => cases n <;> rfl
  | @notDir n here name rest hd =>
      obtain ⟨follow, hf⟩ := walk_eq_walkWith t n
      rw [hf, Tree.walkWith, if_pos hd]
  | @stay n here name rest w hd hs _ ih =>
      obtain ⟨follow, hf⟩ := walk_eq_walkWith t n
      rw [hf] at ih ⊢
      rw [Tree.walkWith, if_neg (by rw [hd]; decide), if_pos hs, ih]
  | @up n here rest w hd _ ih =>
      obtain ⟨follow, hf⟩ := walk_eq_walkWith t n
      rw [hf] at ih ⊢
      rw [Tree.walkWith, if_neg (by rw [hd]; decide), if_neg not_stay_parentName, if_pos rfl, ih]
  | @absent n here name rest hd hs hp hn =>
      obtain ⟨follow, hf⟩ := walk_eq_walkWith t n
      rw [hf, Tree.walkWith, if_neg (by rw [hd]; decide), if_neg hs, if_neg hp, hn]
  | @enter n here name rest w d hd hs hp hn hl _ ih =>
      obtain ⟨follow, hf⟩ := walk_eq_walkWith t n
      rw [hf] at ih ⊢
      rw [Tree.walkWith, if_neg (by rw [hd]; decide), if_neg hs, if_neg hp, hn]
      cases d with
      | link target => cases hl
      | dir id => exact congrArg (Walk.via _) ih
      | file => exact congrArg (Walk.via _) ih
  | @loops here name rest target hd hs hp hn =>
      rw [Tree.walk, Tree.walkWith, if_neg (by rw [hd]; decide), if_neg hs, if_neg hp, hn]
  | @follow n here name rest w target hd hs hp hn _ ih =>
      rw [Tree.walk, Tree.walkWith, if_neg (by rw [hd]; decide), if_neg hs, if_neg hp, hn]
      exact congrArg (Walk.via _) ih

/-! ### What a walk depends on -/

theorem prefix_dropLast (h : p <+: here.dropLast) : p <+: here :=
  h.trans (List.dropLast_prefix here)

theorem prefix_start {target : List Char}
    (h : p <+: if target.head? = some '/' then [] else here) : p <+: here := by
  split at h
  · rw [List.prefix_nil.mp h]
    exact List.nil_prefix
  · exact h

/-- **A walk ends where it did in every tree that keeps what it looked up.** -/
theorem Walks.congr (h : Walks t n here steps w)
    (hhere : ∀ p, p <+: here → t'.node? p = t.node? p)
    (hv : ∀ p ∈ w.visited, t'.node? p = t.node? p) : Walks t' n here steps w := by
  -- the prefixes of where the walk stands stay as they are, too
  have dir : ∀ {p}, t'.node? p = t.node? p → t'.isDir p = t.isDir p := fun hp => by
    rw [Tree.isDir_eq, Tree.isDir_eq, hp]
  have enters : ∀ {here name}, (∀ p, p <+: here → t'.node? p = t.node? p) →
      t'.node? (here ++ [name]) = t.node? (here ++ [name]) →
      ∀ p, p <+: here ++ [name] → t'.node? p = t.node? p := fun hh hn p hp => by
    rcases List.prefix_concat_iff.mp hp with rfl | hp
    · exact hn
    · exact hh p hp
  induction h with
  | done => exact .done
  | notDir hd => exact .notDir ((dir (hhere _ (List.prefix_refl _))).trans hd)
  | stay hd hs _ ih =>
      exact .stay ((dir (hhere _ (List.prefix_refl _))).trans hd) hs (ih hhere hv)
  | up hd _ ih =>
      exact .up ((dir (hhere _ (List.prefix_refl _))).trans hd)
        (ih (fun p hp => hhere p (prefix_dropLast hp)) hv)
  | absent hd hs hp hn =>
      exact .absent ((dir (hhere _ (List.prefix_refl _))).trans hd) hs hp
        ((hv _ List.mem_cons_self).trans hn)
  | enter hd hs hp hn hl _ ih =>
      have hnode := hv _ List.mem_cons_self
      exact .enter ((dir (hhere _ (List.prefix_refl _))).trans hd) hs hp (hnode.trans hn) hl
        (ih (enters hhere hnode) fun p hp => hv p (List.mem_cons_of_mem _ hp))
  | loops hd hs hp hn =>
      exact .loops ((dir (hhere _ (List.prefix_refl _))).trans hd) hs hp
        ((hv _ List.mem_cons_self).trans hn)
  | follow hd hs hp hn _ ih =>
      exact .follow ((dir (hhere _ (List.prefix_refl _))).trans hd) hs hp
        ((hv _ List.mem_cons_self).trans hn)
        (ih (fun p hp => hhere p (prefix_start hp)) fun p hp => hv p (List.mem_cons_of_mem _ hp))

/-- What a walk looked up is not below what it did not. -/
theorem Walks.not_below (h : Walks t n here steps w) (hhere : ¬ q <+: here)
    (hv : q ∉ w.visited) : ∀ p ∈ w.visited, ¬ q <+: p := by
  have first : ∀ {here name}, ¬ q <+: here → q ≠ here ++ [name] → ¬ q <+: here ++ [name] :=
    fun hh hne hq => (List.prefix_concat_iff.mp hq).elim hne hh
  induction h with
  | done | notDir => simp
  | stay hd hs _ ih => exact ih hhere hv
  | up hd _ ih => exact ih (fun hq => hhere (prefix_dropLast hq)) hv
  | absent hd hs hp hn | loops hd hs hp hn =>
      intro p hp
      obtain rfl := List.mem_singleton.mp hp
      exact first hhere (List.ne_of_not_mem_cons hv)
  | enter hd hs hp hn hl _ ih =>
      have hfirst := first hhere (List.ne_of_not_mem_cons hv)
      intro p hp
      rcases List.mem_cons.mp hp with rfl | hp
      · exact hfirst
      · exact ih hfirst (List.not_mem_of_not_mem_cons hv) p hp
  | follow hd hs hp hn _ ih =>
      intro p hp
      rcases List.mem_cons.mp hp with rfl | hp
      · exact first hhere (List.ne_of_not_mem_cons hv)
      · exact ih (fun hq => hhere (prefix_start hq)) (List.not_mem_of_not_mem_cons hv) p hp

/-- **A walk ends nowhere once an entry it looked up is taken away**: the other entries are where
they were, and the walk comes to the gap. -/
theorem Walks.stuck (h : Walks t n here steps w) (hhere : ¬ q <+: here) (hq : q ∈ w.visited)
    (hgone : t'.node? q = none)
    (hstay : ∀ p, ¬ q <+: p → t.node? p ≠ none → t'.node? p = t.node? p) :
    ∃ w' e, Walks t' n here steps w' ∧ w'.ended = .error e := by
  have dir : ∀ {p}, ¬ q <+: p → t.isDir p = true → t'.isDir p = true := fun hp hd => by
    rw [Tree.isDir_eq] at hd ⊢
    obtain ⟨d, hd', -⟩ := (Option.any_eq_true _ _).mp hd
    rwa [hstay _ hp (by simp [hd'])]
  induction h with
  | done | notDir => cases hq
  | stay hd hs _ ih =>
      obtain ⟨w', e, hw, he⟩ := ih hhere hq
      exact ⟨w', e, .stay (dir hhere hd) hs hw, he⟩
  | up hd _ ih =>
      obtain ⟨w', e, hw, he⟩ := ih (fun hq => hhere (prefix_dropLast hq)) hq
      exact ⟨w', e, .up (dir hhere hd) hw, he⟩
  | absent hd hs hp hn =>
      obtain rfl := List.mem_singleton.mp hq
      exact ⟨_, _, .absent (dir hhere hd) hs hp hgone, rfl⟩
  | loops hd hs hp hn =>
      obtain rfl := List.mem_singleton.mp hq
      exact ⟨_, _, .absent (dir hhere hd) hs hp hgone, rfl⟩
  | @enter n here name rest w d hd hs hp hn hl _ ih =>
      by_cases hne : q = here ++ [name]
      · subst hne
        exact ⟨_, _, .absent (dir hhere hd) hs hp hgone, rfl⟩
      have hfirst : ¬ q <+: here ++ [name] := fun h =>
        (List.prefix_concat_iff.mp h).elim hne hhere
      obtain ⟨w', e, hw, he⟩ := ih hfirst ((List.mem_cons.mp hq).resolve_left hne)
      have hnode := hstay _ hfirst (by simp [hn])
      exact ⟨_, e, .enter (dir hhere hd) hs hp (hnode.trans hn) hl hw, he⟩
  | @follow n here name rest w target hd hs hp hn _ ih =>
      by_cases hne : q = here ++ [name]
      · subst hne
        exact ⟨_, _, .absent (dir hhere hd) hs hp hgone, rfl⟩
      have hfirst : ¬ q <+: here ++ [name] := fun h =>
        (List.prefix_concat_iff.mp h).elim hne hhere
      obtain ⟨w', e, hw, he⟩ := ih (fun hq => hhere (prefix_start hq))
        ((List.mem_cons.mp hq).resolve_left hne)
      have hnode := hstay _ hfirst (by simp [hn])
      exact ⟨_, e, .follow (dir hhere hd) hs hp (hnode.trans hn) hw, he⟩

/-! ### Where a walk ends -/

/-- Something that is no link is at a path. -/
def Tree.Real (t : Tree α) (p : Path) : Prop := ∃ d, t.node? p = some d ∧ d.isLink = false

theorem Tree.real_of_isDir (h : t.isDir p = true) : t.Real p := by
  rw [Tree.isDir_eq] at h
  obtain ⟨d, hd, hdir⟩ := (Option.any_eq_true _ _).mp h
  refine ⟨d, hd, ?_⟩
  cases d with
  | dir id => rfl
  | file => cases hdir
  | link target => cases hdir

theorem Tree.isDir_dropLast (h : t.isDir p = true) : t.isDir p.dropLast = true := by
  rcases List.eq_nil_or_concat' p with rfl | ⟨p, name, rfl⟩
  · exact h
  · obtain ⟨e, he, -⟩ := Tree.isDir_iff.mp h
    rw [List.dropLast_concat]
    exact Tree.isDir_parent (n := name) (by rw [he]; simp)

/-- A walk ends at what is no link, and so it led through no gap. -/
theorem Walks.real (h : Walks t n here steps w) (hhere : t.Real here) (he : w.ended = .ok p) :
    t.Real p ∧ ∀ r ∈ w.visited, t.node? r ≠ none := by
  induction h with
  | done =>
      cases he
      exact ⟨hhere, by simp⟩
  | notDir => cases he
  | absent | loops => cases he
  | stay hd hs _ ih => exact ih hhere he
  | up hd _ ih => exact ih (Tree.real_of_isDir (Tree.isDir_dropLast hd)) he
  | enter hd hs hp hn hl _ ih =>
      obtain ⟨hr, hv⟩ := ih ⟨_, hn, hl⟩ he
      refine ⟨hr, fun r h => ?_⟩
      rcases List.mem_cons.mp h with rfl | h
      · simp [hn]
      · exact hv r h
  | @follow n here name rest w target hd hs hp hn _ ih =>
      have hstart : t.Real (if target.head? = some '/' then [] else here) := by
        split
        · exact Tree.real_of_isDir Tree.isDir_root
        · exact hhere
      obtain ⟨hr, hv⟩ := ih hstart he
      refine ⟨hr, fun r h => ?_⟩
      rcases List.mem_cons.mp h with rfl | h
      · simp [hn]
      · exact hv r h

/-- What a walk ends below, it began below or looked up. -/
theorem Walks.end_below (h : Walks t n here steps w) (he : w.ended = .ok p) (hq : q <+: p) :
    q <+: here ∨ q ∈ w.visited := by
  induction h with
  | done =>
      cases he
      exact .inl hq
  | notDir | absent | loops => cases he
  | stay hd hs _ ih => exact ih he
  | up hd _ ih => exact (ih he).imp_left prefix_dropLast
  | enter hd hs hp hn hl _ ih =>
      rcases ih he with hb | hv
      · rcases List.prefix_concat_iff.mp hb with rfl | hb
        · exact .inr List.mem_cons_self
        · exact .inl hb
      · exact .inr (List.mem_cons_of_mem _ hv)
  | follow hd hs hp hn _ ih =>
      exact (ih he).imp prefix_start (List.mem_cons_of_mem _)

theorem ValidName.not_stay {name : Name} (h : ValidName name) : ¬ Stay name := fun hs =>
  hs.elim h.1 h.2.1

/-- The names on the way to what is no link lead there. -/
theorem walks_of_real (n : Nat) : ∀ (here : Path) (rest : List Name), t.Real (here ++ rest) →
    ∃ w, Walks t n here rest w ∧ w.ended = .ok (here ++ rest)
  | here, [], _ => ⟨_, .done, by rw [List.append_nil]⟩
  | here, name :: rest, h => by
      obtain ⟨d, hd, hl⟩ := h
      obtain ⟨e, he, rfl⟩ := Tree.node?_eq_some.mp hd
      have hvalid := Tree.validName_of_get he name (by simp)
      have hdir : t.isDir here = true := Tree.isDir_of_below (by rw [he]; simp) (by simp)
      have hsplit : here ++ name :: rest = here ++ [name] ++ rest := by simp
      rw [hsplit] at hd he ⊢
      have hreal : t.Real (here ++ [name]) := by
        by_cases hrest : rest = []
        · subst hrest
          rw [List.append_nil] at hd
          exact ⟨_, hd, hl⟩
        · exact Tree.real_of_isDir (Tree.isDir_of_below (by rw [he]; simp) hrest)
      obtain ⟨w, hw, hend⟩ := walks_of_real n (here ++ [name]) rest ⟨_, hd, hl⟩
      obtain ⟨d', hd', hl'⟩ := hreal
      exact ⟨_, .enter hdir hvalid.not_stay hvalid.2.2.1 hd' hl' hw, hend⟩

/-- Along names, a tree without links leads nowhere else. -/
theorem Walks.linkFree (h : Walks t n here steps w) (hfree : t.LinkFree)
    (hvalid : ∀ name ∈ steps, ¬ Stay name ∧ name ≠ parentName) (he : w.ended = .ok p) :
    p = here ++ steps := by
  have noLink : ∀ {q target}, t.node? q ≠ some (.link target) := fun {q target} hn => by
    obtain ⟨e, he, hl⟩ := Tree.node?_eq_some.mp hn
    have := hfree _ (mem_of_find he)
    rw [hl] at this
    cases this
  induction h with
  | done =>
      cases he
      rw [List.append_nil]
  | notDir => cases he
  | absent => cases he
  | stay hd hs _ ih => exact absurd hs (hvalid _ List.mem_cons_self).1
  | up hd _ ih => exact absurd rfl (hvalid _ List.mem_cons_self).2
  | enter hd hs hp hn hl _ ih =>
      rw [ih (fun name hname => hvalid name (List.mem_cons_of_mem _ hname)) he]
      simp
  | loops hd hs hp hn => exact absurd hn noLink
  | follow hd hs hp hn _ ih => exact absurd hn noLink

namespace Tree

/-- The path of what is no link leads to it. -/
theorem resolve_of_real (h : t.Real p) : t.resolve p = .ok p := by
  obtain ⟨w, hw, hend⟩ := walks_of_real maxLinks [] p h
  rw [resolve, hw.walk_eq, hend]
  rfl

theorem real_of_resolve (h : t.resolve c = .ok p) : t.Real p :=
  ((walk_walks maxLinks [] c).real (real_of_isDir isDir_root) h).1

theorem locate_concat {name : Name} (h : t.isDir p = true) :
    t.locate (p ++ [name]) = .ok (p ++ [name]) := by
  rw [locate, List.getLast?_concat, List.dropLast_concat]
  simp only [resolve_of_real (real_of_isDir h), h, if_true]

/-- The path of an entry names it. -/
theorem locate_of_get {e : Entry α} (h : t.get p = some e) : t.locate p = .ok p := by
  rcases List.eq_nil_or_concat' p with rfl | ⟨p, name, rfl⟩
  · rfl
  · exact locate_concat (isDir_parent (n := name) (by rw [h]; simp))

/-- What a path names is in a directory, unless it is the root. -/
theorem locate_eq_ok (h : t.locate c = .ok q) :
    (c = [] ∧ q = []) ∨ ∃ dir name, c.getLast? = some name ∧ t.resolve c.dropLast = .ok dir ∧
      t.isDir dir = true ∧ q = dir ++ [name] := by
  unfold locate at h
  split at h
  · rename_i hc
    cases h
    exact .inl ⟨List.getLast?_eq_none_iff.mp hc, rfl⟩
  rename_i name hc
  split at h
  · cases h
  rename_i dir hdir
  split at h
  · rename_i hd
    cases h
    exact .inr ⟨dir, name, hc, hdir, hd, rfl⟩
  · cases h

theorem locate_ne_nil (h : t.locate c = .ok q) (hc : c ≠ []) : q ≠ [] := by
  rcases locate_eq_ok h with ⟨rfl, -⟩ | ⟨dir, name, -, -, -, rfl⟩
  · exact absurd rfl hc
  · simp

/-- In a tree without links a path names the entry whose names it lists. -/
theorem locate_linkFree (hfree : t.LinkFree)
    (hvalid : ∀ name ∈ c, ¬ Stay name ∧ name ≠ parentName) (h : t.locate c = .ok q) : q = c := by
  rcases locate_eq_ok h with ⟨rfl, rfl⟩ | ⟨dir, name, hlast, hdir, -, rfl⟩
  · rfl
  · have hdir' := (walk_walks maxLinks [] c.dropLast).linkFree hfree
      (fun name hname => hvalid name (List.dropLast_subset c hname)) hdir
    rw [hdir', List.nil_append]
    exact List.dropLast_append_getLast? name hlast

end Tree

end FileTree
