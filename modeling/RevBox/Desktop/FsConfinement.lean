import RevBox.Desktop.FsProbe

/-!
# Desktop — FsConfinement

Where the root leg of the file page changes the phone.  The guard reads the text of a path; the
command runs as root and follows the links on its way.

* `rootLeg_confined_iff`: a request changes nothing outside the writable roots exactly if the
  entry it takes, or sets the mode of, is itself below one of them.
* `removes_through_link`: a link in `/data/local/tmp` is enough to remove what is elsewhere.
-/

namespace RevBox

open FileTree

namespace FsRooted

/-- Below one of `WRITABLE_ROOTS`, by the place itself. -/
def Inside (p : Path) : Prop :=
  ∃ root ∈ FsPolicy.writableRoots, components root.toList <+: p

instance (p : Path) : Decidable (Inside p) :=
  inferInstanceAs (Decidable (∃ root ∈ FsPolicy.writableRoots, _))

theorem Inside.below {p q : Path} (h : Inside p) (hpq : p <+: q) : Inside q := by
  obtain ⟨root, hroot, hp⟩ := h
  exact ⟨root, hroot, hp.trans hpq⟩

/-- Everything outside the writable roots is as it was. -/
def Confined (t t' : Disk) : Prop := ∀ p, ¬ Inside p → t'.get p = t.get p

/-- The paths of a request pass the guard. -/
def Accepted : WriteRequest → Prop
  | .mkdir path | .remove path _ | .chmod path _ => ∃ clean, FsPolicy.checkWritable path = .ok clean
  | .rename source target => (∃ clean, FsPolicy.checkWritable source = .ok clean) ∧
      ∃ clean, FsPolicy.checkWritable target = .ok clean

/-- The entry that a request takes is below a writable root, and so is the one whose mode it sets,
if that changes it. -/
def StaysInside (t : Disk) : WriteRequest → Prop
  | .mkdir _ | .rename _ _ => True
  | .remove path recursive => ∀ clean q, FsPolicy.checkWritable path = .ok clean →
      Taken t clean recursive q → Inside q
  | .chmod path bits => ∀ clean p, FsPolicy.checkWritable path = .ok clean →
      Chmods t clean bits p → Inside p ∨ ∀ e, t.get p = some e → mode e = bits.toNat

theorem confined_refl (t : Disk) : Confined t t := fun _ _ => rfl

variable {t t' : Disk} {p q : Path}

/-- What a removal changes is what it takes. -/
theorem confined_erase (hget : t.get q ≠ none) (h : t.eraseAt q = .ok t') :
    Confined t t' ↔ Inside q := by
  obtain ⟨-, hget'⟩ := Tree.eraseAt_eq_ok h
  constructor
  · intro hc
    by_contra hq
    have hgone := hc q hq
    rw [hget', if_pos (List.prefix_refl q)] at hgone
    exact hget hgone.symm
  · intro hq p hp
    exact (hget' p).trans (if_neg fun hqp => hp (hq.below hqp))

/-- What a change of mode changes is the entry it is made at, unless that has the mode. -/
theorem confined_setMode {bits : Nat} (hbits : bits ≤ 0o7777) :
    Confined t (t.setAttr p (setMode bits)) ↔
      Inside p ∨ ∀ e, t.get p = some e → mode e = bits := by
  have hmod : (BitVec.ofNat 12 bits).toNat = bits := by
    rw [BitVec.toNat_ofNat]
    exact Nat.mod_eq_of_lt (Nat.lt_succ_of_le hbits)
  constructor
  · intro hc
    by_cases hp : Inside p
    · exact .inl hp
    · refine .inr fun e he => ?_
      have hsame := hc p hp
      rw [Tree.get_setAttr_same he, he, Option.some.injEq] at hsame
      have hperm := congrArg (fun e => e.attr.perm.toNat) hsame
      exact hperm.symm.trans hmod
  · intro h r hr
    by_cases hrp : r = p
    · subst hrp
      have hsame := h.resolve_left hr
      cases he : t.get r with
      | none => rw [Tree.get_setAttr, he, Option.map_none]
      | some e =>
          have hperm : setMode bits e.attr = e.attr := by
            have : BitVec.ofNat 12 bits = e.attr.perm :=
              BitVec.eq_of_toNat_eq (hmod.trans (hsame e he).symm)
            rw [setMode, this]
          rw [Tree.get_setAttr_same he, hperm]
    · exact Tree.get_setAttr_ne hrp

theorem checked_ok {α : Type} {path clean : List Char} (k : List Char → Rooted α)
    (h : FsPolicy.checkWritable path = .ok clean) : checked path k = k clean := by
  simp only [checked, h]

/-- **The root leg changes nothing outside the writable roots exactly if what it takes, or sets
the mode of, is below one of them.** -/
theorem rootLeg_confined_iff (newDir : Attr) (t : Disk) (request : WriteRequest)
    (h : Accepted request) :
    Confined t (rootLeg newDir t request).2 ↔ StaysInside t request := by
  cases request with
  | mkdir path =>
      obtain ⟨clean, hclean⟩ := h
      obtain ⟨err, herr⟩ := mkdir_fails newDir clean t
      have hsame : (rootLeg newDir t (.mkdir path)).2 = t := by
        simp only [rootLeg, fsMkdir, checked_ok _ hclean, herr, outcome]
      rw [hsame]
      exact iff_of_true (confined_refl t) trivial
  | rename source target =>
      obtain ⟨⟨source', hsource⟩, target', htarget⟩ := h
      have hsame : (rootLeg newDir t (.rename source target)).2 = t := by
        rcases rename_run newDir source' target' t with ⟨-, -, r, hr, -⟩ | ⟨-, err, herr⟩
        · simp only [rootLeg, fsRename, checked_ok _ hsource, checked_ok _ htarget, hr, outcome]
        · simp only [rootLeg, fsRename, checked_ok _ hsource, checked_ok _ htarget, herr, outcome]
      rw [hsame]
      exact iff_of_true (confined_refl t) trivial
  | remove path recursive =>
      obtain ⟨clean, hclean⟩ := h
      obtain ⟨c, hc, -, -, hcomp⟩ := FsPolicy.checkWritable_eq_ok hclean
      have hne : components clean ≠ [] := by rwa [hcomp]
      have hleg : (rootLeg newDir t (.remove path recursive)).2 =
          (outcome (fun r => .removed r.wasDir) (fsRemoveRooted newDir clean recursive t)).2 := by
        simp only [rootLeg, fsRemove, checked_ok _ hclean]
      rw [hleg]
      rcases remove_run hne newDir recursive t with
        ⟨err, t', q, herr, htaken, herase⟩ | ⟨hnone, err, herr⟩
      · have hget : t.get q ≠ none := by
          obtain ⟨e, ⟨hl, -⟩, hq, -⟩ := htaken
          obtain ⟨q', hq', he⟩ := Tree.lstat_eq_ok.mp hl
          obtain rfl : q' = q := Except.ok.inj (hq'.symm.trans hq)
          rw [he]
          simp
        simp only [herr, outcome]
        rw [confined_erase hget herase]
        constructor
        · intro hq clean' q' hclean' htaken'
          obtain rfl : clean = clean' := Except.ok.inj (hclean.symm.trans hclean')
          obtain rfl : q = q' := by
            obtain ⟨-, -, hq, -⟩ := htaken
            obtain ⟨-, -, hq', -⟩ := htaken'
            exact Except.ok.inj (hq.symm.trans hq')
          exact hq
        · exact fun hs => hs clean q hclean htaken
      · simp only [herr, outcome]
        refine iff_of_true (confined_refl t) fun clean' q hclean' htaken => ?_
        obtain rfl : clean = clean' := Except.ok.inj (hclean.symm.trans hclean')
        exact absurd htaken (hnone q)
  | chmod path bits =>
      obtain ⟨clean, hclean⟩ := h
      have hleg : (rootLeg newDir t (.chmod path bits)).2 =
          (outcome (fun r => .changed r.verified) (fsChmodRooted newDir clean bits t)).2 := by
        simp only [rootLeg, fsChmod, checked_ok _ hclean]
      rw [hleg]
      rcases chmod_run newDir clean bits t with
        ⟨p, q, e, r, hchmods, -, -, hr, -⟩ | ⟨hnone, err, herr⟩
      · simp only [hr, outcome]
        rw [confined_setMode hchmods.2.1]
        constructor
        · intro hp clean' p' hclean' hchmods'
          obtain rfl : clean = clean' := Except.ok.inj (hclean.symm.trans hclean')
          obtain rfl : p = p' := Except.ok.inj (hchmods.2.2.symm.trans hchmods'.2.2)
          exact hp
        · exact fun hs => hs clean p hclean hchmods
      · simp only [herr, outcome]
        refine iff_of_true (confined_refl t) fun clean' p hclean' hchmods => ?_
        obtain rfl : clean = clean' := Except.ok.inj (hclean.symm.trans hclean')
        exact absurd hchmods (hnone p)

/-! ### A link in `/data/local/tmp` -/

/-- A directory of the shell user. -/
def plainDir : Attr where
  perm := 0o755
  size := 4096
  uid := 2000
  gid := 2000
  mtime := 1700000000

/-- A phone with a link from `/data/local/tmp` to the data of the apps. -/
def linkedDisk : Disk where
  entries :=
    [ ([], ⟨.dir 1, plainDir⟩)
    , (["data".toList], ⟨.dir 2, plainDir⟩)
    , (["data".toList, "local".toList], ⟨.dir 3, plainDir⟩)
    , (["data".toList, "local".toList, "tmp".toList], ⟨.dir 4, plainDir⟩)
    , (["data".toList, "local".toList, "tmp".toList, "l".toList],
        ⟨.link "/data/data".toList, plainDir⟩)
    , (["data".toList, "data".toList], ⟨.dir 5, plainDir⟩)
    , (["data".toList, "data".toList, "app".toList], ⟨.dir 6, plainDir⟩) ]
  unique := by decide +kernel
  rooted := by decide +kernel
  closed := by decide +kernel
  named := by decide +kernel
  ids := by decide +kernel

/-- The request through the link. -/
def throughLink : WriteRequest := .remove "/data/local/tmp/l/app".toList true

theorem throughLink_accepted : Accepted throughLink :=
  ⟨"/data/local/tmp/l/app".toList, by decide +kernel⟩

theorem throughLink_confined_iff : Confined linkedDisk (rootLeg plainDir linkedDisk throughLink).2 ↔
    StaysInside linkedDisk throughLink :=
  rootLeg_confined_iff plainDir linkedDisk throughLink throughLink_accepted

/-- **A link in `/data/local/tmp` is enough to remove what is elsewhere**: the page passes the
path, and what goes is `/data/data/app`. -/
theorem removes_through_link : ¬ ∀ (newDir : Attr) (t : Disk) (request : WriteRequest),
    Accepted request → Confined t (rootLeg newDir t request).2 := by
  intro h
  have hsame := h plainDir linkedDisk throughLink throughLink_accepted
    ["data".toList, "data".toList, "app".toList] (by decide +kernel)
  have hgone : (rootLeg plainDir linkedDisk throughLink).2.get
      ["data".toList, "data".toList, "app".toList] = none := by decide +kernel
  rw [hgone] at hsame
  exact absurd hsame (by decide +kernel)

end FsRooted

end RevBox
