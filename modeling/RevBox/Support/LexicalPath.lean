import RevBox.Support.PathWalk

/-!
# Support — LexicalPath

Where the text of a path leads, read component by component without any files: `.` and the empty
component stay, `..` goes to the parent, of which the root is its own.

* `Leads.unique`, `leads_exists`: a path leads to one place.
* `Leads.self`: a path of proper names leads to itself.
* `Leads.within`: what never asks for the parent of its start leads below it.
* `Tree.place_leads`: an entry is where its path leads, if no link is on the way.
-/

namespace FileTree

/-- From `p` the components lead to `q`. -/
inductive Leads : Path → List Name → Path → Prop where
  | done (p : Path) : Leads p [] p
  | stay {p q : Path} {n : Name} {ns : List Name} (hn : Stay n) (h : Leads p ns q) :
      Leads p (n :: ns) q
  | parent {p q : Path} {ns : List Name} (h : Leads p.dropLast ns q) :
      Leads p (parentName :: ns) q
  | child {p q : Path} {n : Name} {ns : List Name} (hstay : ¬ Stay n) (hparent : n ≠ parentName)
      (h : Leads (p ++ [n]) ns q) : Leads p (n :: ns) q

/-- From `p` the components ask for the parent of the root. -/
inductive Escapes : Path → List Name → Prop where
  | here (ns : List Name) : Escapes [] (parentName :: ns)
  | stay {p : Path} {n : Name} {ns : List Name} (hn : Stay n) (h : Escapes p ns) :
      Escapes p (n :: ns)
  | parent {p : Path} {ns : List Name} (h : Escapes p.dropLast ns) : Escapes p (parentName :: ns)
  | child {p : Path} {n : Name} {ns : List Name} (hstay : ¬ Stay n) (hparent : n ≠ parentName)
      (h : Escapes (p ++ [n]) ns) : Escapes p (n :: ns)

variable {p q r : Path} {ns : List Name}

/-- **A path leads to one place.** -/
theorem Leads.unique (h : Leads p ns q) (h' : Leads p ns r) : q = r := by
  induction h with
  | done p =>
      cases h'
      rfl
  | stay hn _ ih =>
      cases h' with
      | stay _ h' => exact ih h'
      | parent => exact absurd hn not_stay_parentName
      | child hstay => exact absurd hn hstay
  | parent _ ih =>
      cases h' with
      | stay hn => exact absurd hn not_stay_parentName
      | parent h' => exact ih h'
      | child _ hparent => exact absurd rfl hparent
  | child hstay hparent _ ih =>
      cases h' with
      | stay hn => exact absurd hn hstay
      | parent => exact absurd rfl hparent
      | child _ _ h' => exact ih h'

/-- Components that stay do not matter. -/
theorem leads_filter : ∀ {ns : List Name} {p : Path},
    Leads p (ns.filter fun n => ¬ Stay n) q ↔ Leads p ns q
  | [], p => Iff.rfl
  | n :: ns, p => by
      by_cases hn : Stay n
      · rw [List.filter_cons_of_neg (by simpa using hn), leads_filter]
        refine ⟨.stay hn, fun h => ?_⟩
        cases h with
        | stay _ h => exact h
        | parent => exact absurd hn not_stay_parentName
        | child hstay => exact absurd hn hstay
      · rw [List.filter_cons_of_pos (by simpa using hn)]
        constructor
        · intro h
          cases h with
          | stay hn' => exact absurd hn' hn
          | parent h => exact .parent (leads_filter.mp h)
          | child hstay hparent h => exact .child hstay hparent (leads_filter.mp h)
        · intro h
          cases h with
          | stay hn' => exact absurd hn' hn
          | parent h => exact .parent (leads_filter.mpr h)
          | child hstay hparent h => exact .child hstay hparent (leads_filter.mpr h)

/-- **Proper names lead to themselves.** -/
theorem Leads.self : ∀ {ns : List Name} (p : Path), (∀ n ∈ ns, ¬ Stay n ∧ n ≠ parentName) →
    Leads p ns (p ++ ns)
  | [], p, _ => by
      rw [List.append_nil]
      exact .done p
  | n :: ns, p, h => by
      rw [List.forall_mem_cons] at h
      rw [List.append_cons]
      exact .child h.1.1 h.1.2 (Leads.self _ h.2)

theorem Escapes.mem (h : Escapes p ns) : parentName ∈ ns := by
  induction h with
  | here | parent => exact List.mem_cons_self
  | stay _ _ ih | child _ _ _ ih => exact List.mem_cons_of_mem _ ih

theorem Escapes.append (h : Escapes p ns) (ms : List Name) : Escapes p (ns ++ ms) := by
  induction h with
  | here => exact .here _
  | stay hn _ ih => exact .stay hn ih
  | parent _ ih => exact .parent ih
  | child hstay hparent _ ih => exact .child hstay hparent ih

/-- What escapes from further down escapes from here. -/
theorem Escapes.shallower {a : Path} (h : Escapes p ns) : ∀ {r : Path}, p = a ++ r →
    Escapes r ns := by
  induction h with
  | here ns =>
      intro r hp
      rw [(List.append_eq_nil_iff.mp hp.symm).2]
      exact .here ns
  | stay hn _ ih => exact fun hp => .stay hn (ih hp)
  | parent _ ih =>
      intro r hp
      rcases List.eq_nil_or_concat' r with rfl | ⟨r, n, rfl⟩
      · exact .here _
      · refine .parent (ih ?_)
        rw [hp, List.dropLast_append_of_ne_nil (by simp)]
  | child hstay hparent _ ih =>
      exact fun hp => .child hstay hparent (ih (by rw [hp, List.append_assoc]))

/-- **What never asks for the parent of its start leads below it.** -/
theorem Leads.within {a : Path} (h : Leads p ns q) : ∀ {r : Path}, p = a ++ r → ¬ Escapes r ns →
    a <+: q := by
  induction h with
  | done p => exact fun hp _ => hp ▸ List.prefix_append _ _
  | stay hn _ ih => exact fun hp hns => ih hp fun h => hns (.stay hn h)
  | parent _ ih =>
      intro r hp hns
      rcases List.eq_nil_or_concat' r with rfl | ⟨r, n, rfl⟩
      · exact absurd (.here _) hns
      · refine ih (r := (r ++ [n]).dropLast) ?_ fun h => hns (.parent h)
        rw [hp, List.dropLast_append_of_ne_nil (by simp)]
  | child hstay hparent _ ih =>
      exact fun hp hns => ih (by rw [hp, List.append_assoc]) fun h =>
        hns (.child hstay hparent h)

/-- A path goes on where its first part leads. -/
theorem leads_append {ms : List Name} (h : Leads p ns q) : Leads p (ns ++ ms) r ↔ Leads q ms r := by
  induction h with
  | done => exact Iff.rfl
  | stay hn _ ih =>
      rw [← ih]
      refine ⟨fun h => ?_, fun h => .stay hn h⟩
      cases h with
      | stay _ h => exact h
      | parent => exact absurd hn not_stay_parentName
      | child hstay => exact absurd hn hstay
  | parent _ ih =>
      rw [← ih]
      refine ⟨fun h => ?_, fun h => .parent h⟩
      cases h with
      | stay hn => exact absurd hn not_stay_parentName
      | parent h => exact h
      | child _ hparent => exact absurd rfl hparent
  | child hstay hparent _ ih =>
      rw [← ih]
      refine ⟨fun h => ?_, fun h => .child hstay hparent h⟩
      cases h with
      | stay hn => exact absurd hn hstay
      | parent => exact absurd rfl hparent
      | child _ _ h => exact h

/-! ### Where an entry is -/

section Place

variable {α : Type} {t : Tree α} {n : Nat} {here : Path} {steps c : List Name} {w : Walk}

/-- A walk that meets no link ends where its components lead. -/
theorem Walks.leads (h : Walks t n here steps w)
    (hlinks : ∀ p ∈ w.visited, ∀ target, t.node? p ≠ some (.link target)) (he : w.ended = .ok q) :
    Leads here steps q := by
  induction h with
  | done =>
      cases he
      exact .done _
  | notDir => cases he
  | stay _ hs _ ih => exact .stay hs (ih hlinks he)
  | up _ _ ih => exact .parent (ih hlinks he)
  | absent => cases he
  | enter _ hs hp _ _ _ ih =>
      exact .child hs hp (ih (fun p hp => hlinks p (List.mem_cons_of_mem _ hp)) he)
  | loops => cases he
  | follow _ _ _ hn => exact absurd hn (hlinks _ List.mem_cons_self _)

namespace Tree

/-- Where the entry that a path names is, or would be; a last `..` is followed. -/
def place (t : Tree α) (c : List Name) : Except Errno Path :=
  match c.getLast? with
  | none => .ok []
  | some name =>
      match t.resolve c.dropLast with
      | .error e => .error e
      | .ok dir =>
          if t.isDir dir then .ok (if name = parentName then dir.dropLast else dir ++ [name])
          else .error .enotdir

/-- No link is on the way of a path, up to its last component. -/
def Direct (t : Tree α) (c : List Name) : Prop :=
  ∀ p ∈ t.trail c.dropLast, ∀ target, t.node? p ≠ some (.link target)

theorem LinkFree.direct (hfree : t.LinkFree) : t.Direct c := fun p _ target hn => by
  obtain ⟨e, he, hl⟩ := Tree.node?_eq_some.mp hn
  have := hfree _ (mem_of_find he)
  rw [hl] at this
  cases this

/-- **An entry is where its path leads**, if no link is on the way. -/
theorem place_leads (hd : t.Direct c) (hstay : ∀ name ∈ c, ¬ Stay name) (h : t.place c = .ok q) :
    Leads [] c q := by
  unfold place at h
  split at h
  · rename_i hc
    rw [List.getLast?_eq_none_iff.mp hc]
    cases h
    exact .done _
  · rename_i name hc
    have hsplit := List.dropLast_append_getLast? name hc
    split at h
    · cases h
    rename_i dir hdir
    have hlead : Leads [] c.dropLast dir := (walk_walks maxLinks [] c.dropLast).leads hd hdir
    have hname := hstay name (List.mem_of_getLast? hc)
    split at h
    · rw [← hsplit, leads_append hlead]
      cases h
      split
      · rename_i hp
        rw [hp]
        exact .parent (.done _)
      · exact .child hname ‹_› (.done _)
    · cases h

end Tree

end Place

end FileTree
