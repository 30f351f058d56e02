import RevBox.Agent.FilesystemConfinement
import RevBox.Desktop.FsConfinement
import RevBox.Support.Machine

/-!
# Desktop — FsPage

The writes of the file page on both of its legs, in any order, and what becomes of the roots that
both guard.

* `root_stays_iff`: a write root denotes the directory it denoted exactly as long as no request
  takes away an entry that the path of the root leads through.
* `rooted_remove_takes_root`: the root leg removes a root itself.
-/

namespace RevBox

open FileTree FilesystemWrite FsRooted

namespace FsPage

/-- A request on one of the legs. -/
inductive Label where
  | agent (request : WriteRequest)
  | root (request : WriteRequest)
  deriving DecidableEq

/-- `/sdcard` is a directory, or the link that it usually is. -/
def Sdcard (t : Disk) : Prop :=
  t.isDir ["sdcard".toList] = true ∨
    t.node? ["sdcard".toList] = some (.link "/storage/emulated/0".toList)

instance (t : Disk) : Decidable (Sdcard t) := inferInstanceAs (Decidable (_ ∨ _))

/-- The phone under the requests of the page. -/
def page (env : Env) (newDir : Attr) : Machine Disk Label where
  init := Sdcard
  step := fun t label => match label with
    | .agent request => some (outcome id (handle env request t)).2
    | .root request => some (rootLeg newDir t request).2

/-- The write roots of both legs. -/
def roots (env : Env) : List (List Char) :=
  configured env ++ FsPolicy.writableRoots.map String.toList

/-- The directory that a root denotes. -/
def rootDir (t : Disk) (root : List Char) : Option Nat := t.denotes (root.splitOn '/')

/-- What a request takes away from its place. -/
inductive TakesAway (env : Env) (t : Disk) : Label → Path → Prop where
  | agentRename {source target : List Char} {p q : Path} (h : Moves env t source target p q) :
      TakesAway env t (.agent (.rename source target)) p
  | agentRemove {raw : List Char} {recursive : Bool} {q : Path} (h : Takes env t raw recursive q) :
      TakesAway env t (.agent (.remove raw recursive)) q
  | rootRemove {path clean : List Char} {recursive : Bool} {q : Path}
      (hclean : FsPolicy.checkWritable path = .ok clean) (h : Taken t clean recursive q) :
      TakesAway env t (.root (.remove path recursive)) q

/-- The path of a root does not lead through what a request takes away. -/
def Spares (env : Env) (root : List Char) (t : Disk) (label : Label) : Prop :=
  ∀ q, TakesAway env t label q → q ∉ t.trail (root.splitOn '/')

/-- What is there stays what it is. -/
def Stays (t t' : Disk) : Prop := ∀ p, t.node? p ≠ none → t'.node? p = t.node? p

variable {env : Env} {newDir : Attr} {t t' : Disk} {label : Label} {root : List Char} {q : Path}
  {dir : Nat}

theorem stays_refl (t : Disk) : Stays t t := fun _ _ => rfl

theorem stays_mkdir {a : Attr} (h : t.mkdirAt q a = .ok t') : Stays t t' := by
  obtain ⟨hfree, hget⟩ := Tree.mkdirAt_eq_ok h
  intro p hp
  have hqp : q ≠ p := by
    rintro rfl
    exact hp (by rw [Tree.node?, hfree]; rfl)
  rw [Tree.node?, hget, if_neg hqp]
  rfl

theorem stays_setAttr {f : Attr → Attr} : Stays t (t.setAttr q f) := fun _ _ => Tree.node?_setAttr

/-- What a step takes away is gone after it; where it takes nothing away, all that is there
stays. -/
def Step (env : Env) (t : Disk) (label : Label) (t' : Disk) : Prop :=
  (∃ q, q ≠ [] ∧ TakesAway env t label q ∧ Tree.Gone t t' q) ∨
  (∀ q, ¬ TakesAway env t label q) ∧ Stays t t'

theorem agent_step (request : WriteRequest) :
    Step env t (.agent request) (outcome id (handle env request t)).2 := by
  cases request with
  | mkdir raw =>
      refine .inr ⟨fun q h => (by cases h), ?_⟩
      rcases FilesystemWrite.mkdir_run env raw t with ⟨q, r, -, -, hr, -⟩ | ⟨q, r, t', -, hmk, hr, -⟩ |
        ⟨-, err, herr⟩
      · rw [handle, map_ok hr]
        exact stays_refl t
      · rw [handle, map_ok hr]
        exact stays_mkdir hmk
      · rw [handle, map_error herr]
        exact stays_refl t
  | rename source target =>
      rcases FilesystemWrite.rename_run env source target t with ⟨q, r, hs, ht, hthere, hr, -⟩ |
        ⟨p, q, r, t', hm, hmove, hr, -⟩ | ⟨⟨-, hnone⟩, err, herr⟩
      · rw [handle, map_ok hr]
        refine .inr ⟨fun p h => ?_, stays_refl t⟩
        cases h with
        | agentRename hm =>
            obtain rfl := ht.unique hm.target
            exact hthere hm.vacant.free
      · rw [handle, map_ok hr]
        exact .inl ⟨p, fun hp => hm.outside (hp ▸ List.nil_prefix), .agentRename hm,
          Tree.gone_move hmove⟩
      · rw [handle, map_error herr]
        refine .inr ⟨fun p h => ?_, stays_refl t⟩
        cases h with
        | agentRename hm => exact hnone _ _ hm
  | remove raw recursive =>
      rcases FilesystemWrite.remove_run env raw recursive t with ⟨q, e, r, t', ht, -, herase, hr, -⟩ |
        ⟨hnone, err, herr⟩
      · rw [handle, map_ok hr]
        exact .inl ⟨q, ht.below, .agentRemove ht, Tree.gone_erase herase⟩
      · rw [handle, map_error herr]
        refine .inr ⟨fun p h => ?_, stays_refl t⟩
        cases h with
        | agentRemove ht => exact hnone _ ht
  | chmod raw bits =>
      refine .inr ⟨fun q h => (by cases h), ?_⟩
      rcases FilesystemWrite.chmod_run env raw bits t with ⟨q, e, r, -, hr, -⟩ | ⟨-, err, herr⟩
      · rw [handle, map_ok hr]
        simp only [outcome]
        split
        · exact stays_refl t
        · exact stays_setAttr
      · rw [handle, map_error herr]
        exact stays_refl t

theorem root_step (request : WriteRequest) :
    Step env t (.root request) (rootLeg newDir t request).2 := by
  cases request with
  | mkdir path =>
      refine .inr ⟨fun q h => (by cases h), ?_⟩
      cases hclean : FsPolicy.checkWritable path with
      | error denied =>
          simp only [rootLeg, fsMkdir, checked, hclean]
          exact stays_refl t
      | ok clean =>
          obtain ⟨err, herr⟩ := mkdir_fails newDir clean t
          simp only [rootLeg, fsMkdir, checked_ok _ hclean, herr, outcome]
          exact stays_refl t
  | rename source target =>
      refine .inr ⟨fun q h => (by cases h), ?_⟩
      cases hsource : FsPolicy.checkWritable source with
      | error denied =>
          simp only [rootLeg, fsRename, checked, hsource]
          exact stays_refl t
      | ok source' =>
      cases htarget : FsPolicy.checkWritable target with
      | error denied =>
          simp only [rootLeg, fsRename, checked, hsource, htarget]
          exact stays_refl t
      | ok target' =>
          simp only [rootLeg, fsRename, checked_ok _ hsource, checked_ok _ htarget]
          rcases FsRooted.rename_run newDir source' target' t with ⟨-, -, r, hr, -⟩ | ⟨-, err, herr⟩
          · rw [hr]
            exact stays_refl t
          · rw [herr]
            exact stays_refl t
  | remove path recursive =>
      cases hclean : FsPolicy.checkWritable path with
      | error denied =>
          simp only [rootLeg, fsRemove, checked, hclean]
          refine .inr ⟨fun q h => ?_, stays_refl t⟩
          cases h with
          | rootRemove hclean' _ => cases hclean.symm.trans hclean'
      | ok clean =>
          obtain ⟨c, hc, -, -, hcomp⟩ := FsPolicy.checkWritable_eq_ok hclean
          have hne : components clean ≠ [] := by rwa [hcomp]
          simp only [rootLeg, fsRemove, checked_ok _ hclean]
          rcases FsRooted.remove_run hne newDir recursive t with
            ⟨err, t', q, herr, htaken, herase⟩ | ⟨hnone, err, herr⟩
          · rw [herr]
            obtain ⟨-, -, hq, -⟩ := id htaken
            exact .inl ⟨q, Tree.locate_ne_nil hq hne, .rootRemove hclean htaken,
              Tree.gone_erase herase⟩
          · rw [herr]
            refine .inr ⟨fun q h => ?_, stays_refl t⟩
            cases h with
            | rootRemove hclean' htaken =>
                obtain rfl := Except.ok.inj (hclean.symm.trans hclean')
                exact hnone _ htaken
  | chmod path bits =>
      refine .inr ⟨fun q h => (by cases h), ?_⟩
      cases hclean : FsPolicy.checkWritable path with
      | error denied =>
          simp only [rootLeg, fsChmod, checked, hclean]
          exact stays_refl t
      | ok clean =>
          simp only [rootLeg, fsChmod, checked_ok _ hclean]
          rcases FsRooted.chmod_run newDir clean bits t with
            ⟨p, q, e, r, -, -, -, hr, -⟩ | ⟨-, err, herr⟩
          · rw [hr]
            exact stays_setAttr
          · rw [herr]
            exact stays_refl t

theorem page_step (h : (page env newDir).step t label = some t') : Step env t label t' := by
  cases label with
  | agent request =>
      cases h
      exact agent_step request
  | root request =>
      cases h
      exact root_step request

theorem TakesAway.unique {p : Path} (h : TakesAway env t label p) (h' : TakesAway env t label q) :
    p = q := by
  cases h with
  | agentRename hm =>
      cases h' with
      | agentRename hm' => exact hm.source.unique hm'.source
  | agentRemove ht =>
      cases h' with
      | agentRemove ht' => exact ht.target.unique ht'.target
  | rootRemove hclean ht =>
      cases h' with
      | rootRemove hclean' ht' =>
          obtain rfl := Except.ok.inj (hclean.symm.trans hclean')
          obtain ⟨-, -, hq, -⟩ := ht
          obtain ⟨-, -, hq', -⟩ := ht'
          exact Except.ok.inj (hq.symm.trans hq')

/-- **One request leaves a root the directory it denotes exactly if it spares its path.** -/
theorem rootDir_step (hdir : rootDir t root = some dir)
    (h : (page env newDir).step t label = some t') :
    rootDir t' root = some dir ↔ Spares env root t label := by
  rcases page_step h with ⟨q, hq, htakes, hgone⟩ | ⟨hnone, hstays⟩
  · rw [rootDir, hgone.denotes_iff hq hdir]
    refine ⟨fun hqt q' htakes' => ?_, fun hs => hs q htakes⟩
    rwa [← htakes.unique htakes']
  · exact iff_of_true (Tree.denotes_of_stay hstays hdir) fun q htakes => absurd htakes (hnone q)

/-- **A write root denotes the directory it denoted, after every step, exactly if every request
spares its path.** -/
theorem root_stays_iff (env : Env) (newDir : Attr) (t : Disk) (labels : List Label) :
    ∀ root ∈ roots env, ∀ dir, rootDir t root = some dir →
      ((∀ done t', done <+: labels → (page env newDir).exec t done = some t' →
          rootDir t' root = some dir) ↔
        (page env newDir).Guarded (Spares env root) t labels) := by
  intro root _ dir
  induction labels generalizing t with
  | nil =>
      intro hdir
      refine iff_of_true (fun done t' hdone hexec => ?_) trivial
      rw [List.prefix_nil.mp hdone] at hexec
      cases hexec
      exact hdir
  | cons label labels ih =>
      intro hdir
      constructor
      · intro h
        refine ⟨?_, fun t₁ hstep => ?_⟩
        · obtain ⟨t₁, hstep⟩ : ∃ t₁, (page env newDir).step t label = some t₁ := by
            cases label <;> exact ⟨_, rfl⟩
          have hexec : (page env newDir).exec t [label] = some t₁ := by
            simp only [Machine.exec, hstep, Option.bind_some]
          exact (rootDir_step hdir hstep).mp (h [label] t₁ ⟨labels, rfl⟩ hexec)
        · have hexec : ∀ done, (page env newDir).exec t (label :: done) =
              (page env newDir).exec t₁ done := fun done => by
            simp only [Machine.exec, hstep, Option.bind_some]
          have hdir₁ : rootDir t₁ root = some dir :=
            h [label] t₁ ⟨labels, rfl⟩ ((hexec []).trans rfl)
          refine (ih t₁ hdir₁).mp fun done t' hdone hdone' => ?_
          exact h (label :: done) t' (List.prefix_cons_inj label |>.mpr hdone)
            ((hexec done).trans hdone')
      · rintro ⟨hspares, hrest⟩ done t' hdone hexec
        cases done with
        | nil =>
            cases hexec
            exact hdir
        | cons l done =>
            obtain ⟨rfl, hrestDone⟩ := List.cons_prefix_cons.mp hdone
            obtain ⟨t₁, hstep, hexec⟩ := Option.bind_eq_some_iff.mp hexec
            have hdir₁ := (rootDir_step hdir hstep).mpr hspares
            exact (ih t₁ hdir₁).mpr (hrest t₁ hstep) done t' hrestDone hexec

/-! ### A root that the root leg takes away -/

/-- A phone with the two directories that are roots by default. -/
def plainDisk : Disk where
  entries :=
    [ ([], ⟨.dir 1, plainDir⟩)
    , (["sdcard".toList], ⟨.dir 2, plainDir⟩)
    , (["data".toList], ⟨.dir 3, plainDir⟩)
    , (["data".toList, "local".toList], ⟨.dir 4, plainDir⟩)
    , (["data".toList, "local".toList, "tmp".toList], ⟨.dir 5, plainDir⟩) ]
  unique := by decide +kernel
  rooted := by decide +kernel
  closed := by decide +kernel
  named := by decide +kernel
  ids := by decide +kernel

/-- An Agent without configured roots. -/
def plainEnv : Env := ⟨none, plainDir⟩

/-- The root `/data/local/tmp`. -/
def tmpRoot : List Char := "/data/local/tmp".toList

/-- The request to remove a root, on both legs. -/
def takeRoot : List Label := [.agent (.remove tmpRoot true), .root (.remove tmpRoot true)]

theorem tmpRoot_mem : tmpRoot ∈ roots plainEnv := by decide +kernel

theorem tmpRoot_there : rootDir plainDisk tmpRoot = some 5 := by decide +kernel

theorem takeRoot_stays_iff :
    (∀ done t', done <+: takeRoot → (page plainEnv plainDir).exec plainDisk done = some t' →
      rootDir t' tmpRoot = some 5) ↔
    (page plainEnv plainDir).Guarded (Spares plainEnv tmpRoot) plainDisk takeRoot :=
  root_stays_iff plainEnv plainDir plainDisk takeRoot tmpRoot tmpRoot_mem 5 tmpRoot_there

/-- **The root leg takes a root away**, which the Agent refuses: it is below itself, and that is
all that the guard of the root leg asks. -/
theorem rooted_remove_takes_root : ¬ ∀ (env : Env) (newDir : Attr) (t : Disk)
    (labels : List Label), (page env newDir).init t → ∀ root ∈ roots env, ∀ dir,
    rootDir t root = some dir → ∀ done t', done <+: labels →
      (page env newDir).exec t done = some t' → rootDir t' root = some dir := by
  intro h
  have hinit : (page plainEnv plainDir).init plainDisk := by
    exact .inl (by decide +kernel)
  obtain ⟨t', ht'⟩ : ∃ t', (page plainEnv plainDir).exec plainDisk takeRoot = some t' := ⟨_, rfl⟩
  have hgone : ((page plainEnv plainDir).exec plainDisk takeRoot).map
      (fun t => rootDir t tmpRoot) = some none := by decide +kernel
  rw [ht', Option.map_some, Option.some.injEq] at hgone
  have hstays := h plainEnv plainDir plainDisk takeRoot hinit tmpRoot tmpRoot_mem 5 tmpRoot_there
    takeRoot t' (List.prefix_refl _) ht'
  cases hgone.symm.trans hstays

end FsPage

end RevBox
