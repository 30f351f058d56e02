import RevBox.Agent.FilesystemWriteSpecs

/-!
# Agent — FilesystemConfinement

What the writes of the Agent can change of the phone, whatever its links and the write roots.

* `handle_confined`: what changes is below a write root, at its real place; a move replaces
  nothing; a removal takes what is below its target and follows no link; what fails changes
  nothing.
-/

namespace RevBox

open FileTree

namespace FilesystemWrite

/-- A request of the file page, on the Agent. -/
def handle (env : Env) : WriteRequest → Writing Verdict
  | .mkdir path => (fun r => .created r.created) <$> mkdir env path
  | .rename source target => (fun r => .renamed r.noOp) <$> rename env source target
  | .remove path recursive => (fun r => .removed r.wasDir) <$> remove env path recursive
  | .chmod path mode => (fun r => .changed r.verified) <$> chmod env path mode

/-- Below one of the write roots, as they are configured or where their links lead. -/
def Under (env : Env) (t : Disk) (p : Path) : Prop :=
  (∃ root ∈ configured env, components root <+: p) ∨ ∃ root ∈ writeRoots env t, root <+: p

/-- What has become of an entry that was there, after a move from `p` to `q`: it stays as it is,
unless it is what moves. -/
def Moved (t t' : Disk) (p q : Path) : Prop :=
  t.get q = none ∧ (∀ s, t'.get (q ++ s) = t.get (p ++ s)) ∧
    ∀ r, t.get r ≠ none → t'.get r = if p <+: r then none else t.get r

/-- What may become of the files. -/
structure Confined (env : Env) (t : Disk) (request : WriteRequest) (t' : Disk) : Prop where
  /-- what changes is below a write root, where its parent really is -/
  under : ∀ p, t'.get p ≠ t.get p → Under env t p ∧
    (t.resolve p.dropLast = .ok p.dropLast ∨ t'.resolve p.dropLast = .ok p.dropLast)
  renamed : ∀ source target, request = .rename source target → t' = t ∨
    ∃ p q, Names env t source p ∧ Names env t target q ∧ Moved t t' p q
  /-- what goes is at or below the target, and on the way to it are directories -/
  removed : ∀ raw recursive, request = .remove raw recursive → ∃ q, Names env t raw q ∧
    ∀ r, t'.get r ≠ t.get r → t'.get r = none ∧ q <+: r ∧
      ∀ m, q <+: m → m <+: r → m ≠ r → t.isDir m = true

variable {env : Env} {t t' : Disk} {raw source target : List Char} {p q r : Path} {e : Entry Attr}

theorem accepts_iff : accepts env t p = true ↔ Under env t p := by
  simp only [accepts, Under, Bool.or_eq_true, List.any_eq_true, List.isPrefixOf_iff_prefix]

theorem Under.below (h : Under env t p) (hpq : p <+: q) : Under env t q :=
  h.imp (fun ⟨root, hroot, hp⟩ => ⟨root, hroot, hp.trans hpq⟩)
    fun ⟨root, hroot, hp⟩ => ⟨root, hroot, hp.trans hpq⟩

theorem Names.under (h : Names env t raw q) : Under env t q := accepts_iff.mp h.accepted

/-- The parent of an entry is where its path says. -/
theorem resolve_parent (h : t.get p ≠ none) : t.resolve p.dropLast = .ok p.dropLast := by
  refine Tree.resolve_of_real (Tree.real_of_isDir ?_)
  rcases List.eq_nil_or_concat' p with rfl | ⟨p, name, rfl⟩
  · exact Tree.isDir_root
  · rw [List.dropLast_concat]
    exact Tree.isDir_parent h

/-- What differs in two trees is an entry of one of them. -/
theorem resolve_parent_of_ne (h : t'.get p ≠ t.get p) :
    t.resolve p.dropLast = .ok p.dropLast ∨ t'.resolve p.dropLast = .ok p.dropLast := by
  by_cases hp : t.get p = none
  · exact .inr (resolve_parent fun hp' => h (hp'.trans hp.symm))
  · exact .inl (resolve_parent hp)

/-- Files that stay as they are are confined. -/
theorem confined_same {request : WriteRequest}
    (h : ∀ raw recursive, request ≠ .remove raw recursive) : Confined env t request t where
  under := fun _ hp => absurd rfl hp
  renamed := fun _ _ _ => .inl rfl
  removed := fun raw recursive hr => absurd hr (h raw recursive)

theorem confined_mkdir {a : Attr} (hn : Names env t raw q) (h : t.mkdirAt q a = .ok t') :
    Confined env t (.mkdir raw) t' where
  under := by
    intro p hp
    refine ⟨?_, resolve_parent_of_ne hp⟩
    obtain ⟨-, hget⟩ := Tree.mkdirAt_eq_ok h
    by_cases hqp : q = p
    · exact hqp ▸ hn.under
    · exact absurd ((hget p).trans (if_neg hqp)) hp
  renamed := by
    intro source target hr
    cases hr
  removed := by
    intro raw recursive hr
    cases hr

theorem moved_of_moveTo (h : t.moveTo p q = .ok t') : Moved t t' p q := by
  obtain ⟨-, hfree, hbelow, hold, helse⟩ := Tree.moveTo_eq_ok h
  refine ⟨hfree, hbelow, fun r hr => ?_⟩
  have hqr : ¬ q <+: r := fun hqr => hr (Tree.get_eq_none_of_below hfree hqr)
  by_cases hpr : p <+: r
  · rw [if_pos hpr]
    exact hold r hpr hqr
  · rw [if_neg hpr]
    exact helse r hpr hqr

theorem confined_rename (hm : Moves env t source target p q) (h : t.moveTo p q = .ok t') :
    Confined env t (.rename source target) t' where
  under := by
    intro r hr
    refine ⟨?_, resolve_parent_of_ne hr⟩
    obtain ⟨-, -, -, -, helse⟩ := Tree.moveTo_eq_ok h
    by_cases hqr : q <+: r
    · exact hm.target.under.below hqr
    · by_cases hpr : p <+: r
      · exact hm.source.under.below hpr
      · exact absurd (helse r hpr hqr) hr
  renamed := by
    intro source' target' hr
    cases hr
    exact .inr ⟨p, q, hm.source, hm.target, moved_of_moveTo h⟩
  removed := by
    intro raw recursive hr
    cases hr

theorem confined_remove {recursive : Bool} (ht : Takes env t raw recursive q)
    (h : t.eraseAt q = .ok t') : Confined env t (.remove raw recursive) t' where
  under := by
    intro r hr
    refine ⟨?_, resolve_parent_of_ne hr⟩
    obtain ⟨-, hget⟩ := Tree.eraseAt_eq_ok h
    by_cases hqr : q <+: r
    · exact ht.target.under.below hqr
    · exact absurd ((hget r).trans (if_neg hqr)) hr
  renamed := by
    intro source target hr
    cases hr
  removed := by
    intro raw' recursive' hr
    cases hr
    obtain ⟨-, hget⟩ := Tree.eraseAt_eq_ok h
    refine ⟨q, ht.target, fun r hr => ?_⟩
    by_cases hqr : q <+: r
    · have hgone : t'.get r = none := (hget r).trans (if_pos hqr)
      refine ⟨hgone, hqr, fun m _ hmr hne => ?_⟩
      obtain ⟨s, rfl⟩ := hmr
      refine Tree.isDir_of_below (fun hn => hr (hgone.trans hn.symm)) fun hs => hne ?_
      rw [hs, List.append_nil]
    · exact absurd ((hget r).trans (if_neg hqr)) hr

theorem confined_chmod {bits : UInt32} {f : Attr → Attr} (hs : Sets env t raw bits q e) :
    Confined env t (.chmod raw bits) (t.setAttr q f) where
  under := by
    intro r hr
    refine ⟨?_, resolve_parent_of_ne hr⟩
    by_cases hrq : r = q
    · exact hrq ▸ hs.target.under
    · exact absurd (Tree.get_setAttr_ne hrq) hr
  renamed := by
    intro source target hr
    cases hr
  removed := by
    intro raw recursive hr
    cases hr

section Steps

variable {α β : Type} {x : Writing α} {f : α → β} {a : α} {err : AgentError}

theorem map_ok (h : x t = .ok a t') : (f <$> x) t = .ok (f a) t' := by
  simp only [Functor.map, EStateM.map, h]

theorem map_error (h : x t = .error err t') : (f <$> x) t = .error err t' := by
  simp only [Functor.map, EStateM.map, h]

end Steps

/-- **The writes of the Agent stay below the write roots**, and change nothing where they fail. -/
theorem handle_confined (env : Env) (t : Disk) (request : WriteRequest) :
    match handle env request t with
    | .ok _ t' => Confined env t request t'
    | .error _ t' => t' = t := by
  cases request with
  | mkdir raw =>
      rcases mkdir_run env raw t with ⟨q, r, -, -, hr, -⟩ | ⟨q, r, t', hn, hmk, hr, -⟩ |
        ⟨-, err, herr⟩
      · rw [handle, map_ok hr]
        exact confined_same (by simp)
      · rw [handle, map_ok hr]
        exact confined_mkdir hn hmk
      · rw [handle, map_error herr]
  | rename source target =>
      rcases rename_run env source target t with ⟨q, r, -, -, -, hr, -⟩ |
        ⟨p, q, r, t', hm, hmove, hr, -⟩ | ⟨-, err, herr⟩
      · rw [handle, map_ok hr]
        exact confined_same (by simp)
      · rw [handle, map_ok hr]
        exact confined_rename hm hmove
      · rw [handle, map_error herr]
  | remove raw recursive =>
      rcases remove_run env raw recursive t with ⟨q, e, r, t', ht, -, herase, hr, -⟩ |
        ⟨-, err, herr⟩
      · rw [handle, map_ok hr]
        exact confined_remove ht herase
      · rw [handle, map_error herr]
  | chmod raw bits =>
      rcases chmod_run env raw bits t with ⟨q, e, r, hs, hr, -⟩ | ⟨-, err, herr⟩
      · rw [handle, map_ok hr]
        simp only
        split
        · exact confined_same (by simp)
        · exact confined_chmod hs
      · rw [handle, map_error herr]

end FilesystemWrite

end RevBox
