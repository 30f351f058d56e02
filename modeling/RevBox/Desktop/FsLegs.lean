import RevBox.Desktop.FsPage

/-!
# Desktop — FsLegs

The two legs of the file page side by side, on a phone without links: the Agent, and the commands
that run as root between probes.

* `write_legs_meet_iff`: for each request, when both legs do the same and say the same.
* `mkdir_disagrees`: a new directory, which only the Agent makes.
-/

namespace RevBox

open FileTree FilesystemWrite FsRooted

namespace FsPage

/-- A request with the paths as the guard hands them on. -/
def cleaned : WriteRequest → Except FsPolicy.WriteDenied WriteRequest
  | .mkdir path => (FsPolicy.checkWritable path).map .mkdir
  | .rename source target => do
      let source ← FsPolicy.checkWritable source
      let target ← FsPolicy.checkWritable target
      pure (.rename source target)
  | .remove path recursive => (FsPolicy.checkWritable path).map fun path => .remove path recursive
  | .chmod path mode => (FsPolicy.checkWritable path).map fun path => .chmod path mode

/-- A request on the leg of the Agent. -/
def agentLeg (env : Env) (t : Disk) (request : WriteRequest) : Option Verdict × Disk :=
  match cleaned request with
  | .error _ => (none, t)
  | .ok request => outcome id (handle env request t)

/-- The same files. -/
def SameFiles (t t' : Disk) : Prop := ∀ p, t'.get p = t.get p

/-- Both legs succeed with one verdict and leave the same files, or both refuse and leave the
files as they were. -/
def Agree (t : Disk) (a b : Option Verdict × Disk) : Prop :=
  a.1 = b.1 ∧ SameFiles a.2 b.2 ∧ (a.1 = none → SameFiles t a.2)

/-! ### When the legs meet -/

/-- The Agent finds or makes a directory at `c`. -/
def AgentMakes (env : Env) (t : Disk) (c : Path) : Prop :=
  accepts env t c = true ∧ (t.isDir c = true ∨ Vacant t c)

/-- The Agent moves the entry at `c` to `d`. -/
def AgentMoves (env : Env) (t : Disk) (c d : Path) : Prop :=
  accepts env t c = true ∧ accepts env t d = true ∧ t.get c ≠ none ∧ Vacant t d ∧ ¬ c <+: d

/-- The probe of the root leg makes out the entry: its clock does not stand before 1970. -/
def Dated (e : Entry Attr) : Prop := 0 ≤ e.attr.mtime.toInt

instance (e : Entry Attr) : Decidable (Dated e) := inferInstanceAs (Decidable (0 ≤ _))

/-- The Agent takes the entry `e` at `c`. -/
def AgentTakes (env : Env) (t : Disk) (c : Path) (recursive : Bool) (e : Entry Attr) : Prop :=
  accepts env t c = true ∧ isProtectedRoot env t c = false ∧
    (e.node.isDir = true → recursive = false → t.names c = []) ∧
    (t.below c).length ≤ maxRemoveEntries

/-- The root leg takes the entry `e` at `c`. -/
def RootTakes (t : Disk) (c : Path) (recursive : Bool) (e : Entry Attr) : Prop :=
  Dated e ∧ (e.node.isDir = true → recursive = false → listing t c = [])

/-- Both legs set the mode, to the same bits, or neither does. -/
def ModesMeet (env : Env) (t : Disk) (c : Path) (bits : UInt32) (e : Entry Attr) : Prop :=
  if Dated e ∧ bits.toNat ≤ 0o7777 then
    bits.toNat ≤ 0o777 ∧ accepts env t c = true ∧ (mode e &&& 0o777 = bits.toNat → mode e = bits.toNat)
  else ¬ (bits.toNat ≤ 0o777 ∧ accepts env t c = true)

/-- When the legs do the same on the paths that the guard hands on. -/
def MeetAt (env : Env) (t : Disk) : WriteRequest → Prop
  -- the root leg makes nothing
  | .mkdir path => ¬ AgentMakes env t (components path)
  -- the root leg moves nothing, but it has nothing to do where the Agent has
  | .rename source target =>
      if components source = components target then
        ∀ e, t.get (components source) = some e → (Dated e ↔ accepts env t (components source) = true)
      else ¬ AgentMoves env t (components source) (components target)
  -- the root leg never says that it has taken something
  | .remove path recursive => ∀ e, t.get (components path) = some e →
      ¬ AgentTakes env t (components path) recursive e ∧ ¬ RootTakes t (components path) recursive e
  | .chmod path bits => ∀ e, t.get (components path) = some e →
      ModesMeet env t (components path) bits e

/-- When the legs do the same. -/
def Meet (env : Env) (t : Disk) (request : WriteRequest) : Prop :=
  ∀ clean, cleaned request = .ok clean → MeetAt env t clean

/-! ### Paths of a phone without links -/

variable {env : Env} {t t' : Disk} {clean : List Char} {p q : Path} {e : Entry Attr}

/-- What a path that has passed the guard is. -/
structure Passed (clean : List Char) : Prop where
  below : components clean ≠ []
  names : Clean (components clean)
  text : clean = render (components clean)

theorem passed_of_checkWritable {path : List Char} (h : FsPolicy.checkWritable path = .ok clean) :
    Passed clean := by
  obtain ⟨c, hc, hnames, hrender, hcomp⟩ := FsPolicy.checkWritable_eq_ok h
  refine ⟨by rwa [hcomp], by rwa [hcomp], by rwa [hcomp]⟩

namespace Passed

variable (h : Passed clean)

include h

theorem head : clean.head? = some '/' := by
  rw [h.text]
  rfl

theorem normalize : normalizeLexically clean = components clean := by
  have hfold : ∀ (segs parts : List Name), (∀ n ∈ segs, n ≠ parentName) →
      segs.foldl (fun parts n => if n = parentName then parts.dropLast else parts ++ [n]) parts =
        parts ++ segs := by
    intro segs
    induction segs with
    | nil => simp
    | cons n segs ih =>
        intro parts hsegs
        rw [List.foldl_cons, if_neg (hsegs n List.mem_cons_self),
          ih _ fun m hm => hsegs m (List.mem_cons_of_mem n hm), List.append_assoc,
          List.singleton_append]
  exact (hfold _ [] fun n hn => (h.names n hn).2.2).trans (List.nil_append _)

theorem plain : ∀ name ∈ components clean, ¬ Stay name ∧ name ≠ parentName := fun n hn =>
  (h.names n hn).2

theorem resolve_dropLast (hfree : t.LinkFree) (hp : t.resolve (components clean).dropLast = .ok p) :
    p = (components clean).dropLast := by
  have := (walk_walks Tree.maxLinks [] (components clean).dropLast).linkFree hfree
    (fun name hname => h.plain name (List.dropLast_subset _ hname)) hp
  rwa [List.nil_append] at this

/-- The Agent names what the path says, where its parent is there. -/
theorem names_iff (hfree : t.LinkFree) : Names env t clean q ↔ q = components clean ∧
    accepts env t (components clean) = true ∧ t.Real (components clean).dropLast := by
  constructor
  · intro hn
    obtain ⟨p, hp, rfl⟩ := hn.parent
    have hlex := hn.lexical
    rw [h.normalize] at hp hlex ⊢
    obtain rfl := h.resolve_dropLast hfree hp
    obtain ⟨name, hname⟩ := Option.ne_none_iff_exists'.mp
      fun hn => h.below (List.getLast?_eq_none_iff.mp hn)
    refine ⟨?_, hlex, Tree.real_of_resolve hp⟩
    rw [hname]
    exact List.dropLast_append_getLast? name hname
  · rintro ⟨rfl, hacc, hreal⟩
    obtain ⟨name, hname⟩ := Option.ne_none_iff_exists'.mp
      fun hn => h.below (List.getLast?_eq_none_iff.mp hn)
    refine ⟨h.head, h.normalize.symm ▸ hacc, ⟨(components clean).dropLast, ?_, ?_⟩, hacc⟩
    · rw [h.normalize]
      exact Tree.resolve_of_real hreal
    · rw [h.normalize, hname]
      exact (List.dropLast_append_getLast? name hname).symm

theorem lstat_iff (hfree : t.LinkFree) :
    t.lstat (components clean) = .ok e ↔ t.get (components clean) = some e := by
  refine ⟨fun hl => ?_, Tree.lstat_of_get⟩
  obtain ⟨q, hq, hget⟩ := Tree.lstat_eq_ok.mp hl
  rwa [Tree.locate_linkFree hfree h.plain hq] at hget

theorem seen_iff (hfree : t.LinkFree) :
    Seen t clean e ↔ t.get (components clean) = some e ∧ Dated e := by
  rw [Seen, h.lstat_iff hfree, Dated]

theorem resolve_iff (hfree : t.LinkFree) :
    t.resolve (components clean) = .ok p ↔ p = components clean ∧ t.get (components clean) ≠ none := by
  constructor
  · intro hp
    have hpc := (walk_walks Tree.maxLinks [] (components clean)).linkFree hfree h.plain hp
    rw [List.nil_append] at hpc
    obtain ⟨d, hd, -⟩ := Tree.real_of_resolve hp
    obtain ⟨e, he, -⟩ := Tree.node?_eq_some.mp hd
    exact ⟨hpc, by rw [← hpc, he]; simp⟩
  · rintro ⟨rfl, hget⟩
    obtain ⟨e, he⟩ := Option.ne_none_iff_exists'.mp hget
    exact Tree.resolve_of_real ⟨e.node, Tree.node?_eq_some.mpr ⟨e, he, rfl⟩,
      hfree _ (mem_of_find he)⟩

end Passed

/-- The parent of an entry is there. -/
theorem real_parent (h : t.get p ≠ none) : t.Real p.dropLast :=
  Tree.real_of_resolve (resolve_parent h)

/-! ### The Agent's side -/

theorem isDir_get (h : t.isDir p = true) : t.get p ≠ none := by
  obtain ⟨e, he, -⟩ := Tree.isDir_iff.mp h
  rw [he]
  simp

namespace Passed

variable (h : Passed clean)

include h

theorem agent_makes (hfree : t.LinkFree) : AgentMakes env t (components clean) ↔
    ∃ q, Names env t clean q ∧ (t.isDir q = true ∨ Vacant t q) := by
  constructor
  · rintro ⟨hacc, hplace⟩
    refine ⟨_, (h.names_iff hfree).mpr ⟨rfl, hacc, ?_⟩, hplace⟩
    rcases hplace with hd | hv
    · exact real_parent (isDir_get hd)
    · exact Tree.real_of_isDir hv.parent
  · rintro ⟨q, hn, hplace⟩
    obtain ⟨rfl, hacc, -⟩ := (h.names_iff hfree).mp hn
    exact ⟨hacc, hplace⟩

theorem agent_names (hfree : t.LinkFree) (hget : t.get (components clean) ≠ none) :
    Names env t clean (components clean) ↔ accepts env t (components clean) = true := by
  rw [h.names_iff hfree]
  exact ⟨fun hn => hn.2.1, fun hacc => ⟨rfl, hacc, real_parent hget⟩⟩

theorem agent_moves {target : List Char} (ht : Passed target) (hfree : t.LinkFree) :
    AgentMoves env t (components clean) (components target) ↔
      ∃ p q, Moves env t clean target p q := by
  constructor
  · rintro ⟨hs, hacc, hthere, hv, hout⟩
    exact ⟨_, _, (h.agent_names hfree hthere).mpr hs,
      (ht.names_iff hfree).mpr ⟨rfl, hacc, Tree.real_of_isDir hv.parent⟩, hthere, hv, hout⟩
  · rintro ⟨p, q, hm⟩
    obtain ⟨rfl, hs, -⟩ := (h.names_iff hfree).mp hm.source
    obtain ⟨rfl, hacc, -⟩ := (ht.names_iff hfree).mp hm.target
    exact ⟨hs, hacc, hm.there, hm.vacant, hm.outside⟩

theorem agent_takes (hfree : t.LinkFree) {recursive : Bool}
    (hget : t.get (components clean) = some e) :
    AgentTakes env t (components clean) recursive e ↔
      Takes env t clean recursive (components clean) := by
  have hdir : t.isDir (components clean) = true ↔ e.node.isDir = true := by
    rw [Tree.isDir_iff]
    constructor
    · rintro ⟨e', he', hd⟩
      rwa [Option.some.inj (hget.symm.trans he')]
    · exact fun hd => ⟨e, hget, hd⟩
  have hthere : t.get (components clean) ≠ none := by simp [hget]
  constructor
  · rintro ⟨hacc, hprot, hempty, hfew⟩
    exact ⟨(h.agent_names hfree hthere).mpr hacc, hthere, hprot,
      fun hd hrec => hempty (hdir.mp hd) hrec, hfew, h.below⟩
  · intro ht
    exact ⟨(h.agent_names hfree hthere).mp ht.target, ht.unprotected,
      fun hd hrec => ht.empty (hdir.mpr hd) hrec, ht.few⟩

theorem root_takes (hfree : t.LinkFree) {recursive : Bool}
    (hget : t.get (components clean) = some e) :
    RootTakes t (components clean) recursive e ↔ ∃ q, Taken t clean recursive q := by
  constructor
  · rintro ⟨hdated, hempty⟩
    exact ⟨_, e, (h.seen_iff hfree).mpr ⟨hget, hdated⟩, Tree.locate_of_get hget, hempty⟩
  · rintro ⟨q, e', hseen, hq, hempty⟩
    obtain ⟨hget', hdated⟩ := (h.seen_iff hfree).mp hseen
    obtain rfl := Option.some.inj (hget.symm.trans hget')
    rw [Tree.locate_linkFree hfree h.plain hq] at hempty
    exact ⟨hdated, hempty⟩

end Passed

/-! ### The legs side by side -/

section Sides

variable {t₁ t₂ : Disk} {v : Verdict}

theorem sameFiles_refl (t : Disk) : SameFiles t t := fun _ => rfl

theorem agree_refused : Agree t (none, t) (none, t) :=
  ⟨rfl, sameFiles_refl t, fun _ => sameFiles_refl t⟩

theorem not_agree_agent : ¬ Agree t (none, t₁) (some v, t₂) := fun h => by cases h.1

theorem not_agree_root : ¬ Agree t (some v, t₁) (none, t₂) := fun h => by cases h.1

end Sides

/-- The root leg on paths that the guard has handed on. -/
def rooted (newDir : Attr) (t : Disk) : WriteRequest → Option Verdict × Disk
  | .mkdir path => outcome (fun r => .created r.created) (fsMkdirRooted newDir path t)
  | .rename source target =>
      outcome (fun r => .renamed r.noOp) (fsRenameRooted newDir source target t)
  | .remove path recursive =>
      outcome (fun r => .removed r.wasDir) (fsRemoveRooted newDir path recursive t)
  | .chmod path mode => outcome (fun r => .changed r.verified) (fsChmodRooted newDir path mode t)

theorem mkdir_meets (newDir : Attr) (h : Passed clean) (hfree : t.LinkFree) :
    Agree t (rooted newDir t (.mkdir clean)) (outcome id (handle env (.mkdir clean) t)) ↔
      MeetAt env t (.mkdir clean) := by
  obtain ⟨err, herr⟩ := mkdir_fails newDir clean t
  simp only [rooted, herr, outcome, MeetAt, h.agent_makes hfree]
  rcases FilesystemWrite.mkdir_run env clean t with ⟨q, r, hn, hd, hr, -⟩ |
    ⟨q, r, t', hn, hmk, hr, -⟩ | ⟨hnone, err', herr'⟩
  · rw [handle, map_ok hr]
    exact iff_of_false not_agree_agent fun hm => hm ⟨q, hn, .inl hd⟩
  · rw [handle, map_ok hr]
    exact iff_of_false not_agree_agent fun hm => hm ⟨q, hn, .inr (vacant_of_mkdirAt hmk)⟩
  · rw [handle, map_error herr']
    refine iff_of_true agree_refused fun hm => ?_
    obtain ⟨q, hn, hplace⟩ := hm
    obtain ⟨hd, hv⟩ := hnone q hn
    exact hplace.elim (fun hd' => by cases hd.symm.trans hd') hv

theorem rename_meets (newDir : Attr) {source target : List Char} (hs : Passed source) (ht : Passed target)
    (hfree : t.LinkFree) :
    Agree t (rooted newDir t (.rename source target))
      (outcome id (handle env (.rename source target) t)) ↔ MeetAt env t (.rename source target) := by
  have hsame : components source = components target ↔ source = target :=
    ⟨fun hc => by rw [hs.text, ht.text, hc], fun hst => by rw [hst]⟩
  simp only [MeetAt]
  by_cases hst : source = target
  · subst hst
    rw [if_pos rfl]
    cases hget : t.get (components source) with
    | none =>
        refine iff_of_true ?_ fun e he => by cases he
        rcases FsRooted.rename_run newDir source source t with ⟨-, ⟨e, he⟩, -⟩ | ⟨-, err, herr⟩
        · cases hget.symm.trans ((hs.seen_iff hfree).mp he).1
        rcases FilesystemWrite.rename_run env source source t with ⟨q, r, hn, -, hthere, -⟩ |
          ⟨p, q, r, t', hm, -⟩ | ⟨-, err', herr'⟩
        · obtain ⟨rfl, -⟩ := (hs.names_iff hfree).mp hn
          exact absurd hget hthere
        · obtain ⟨rfl, -⟩ := (hs.names_iff hfree).mp hm.source
          exact absurd hget hm.there
        · simp only [rooted, herr, handle, map_error herr', outcome]
          exact agree_refused
    | some e =>
        have hthere : t.get (components source) ≠ none := by simp [hget]
        have hagent : (∃ r, FilesystemWrite.rename env source source t = .ok r t ∧ r.noOp = true ∧
            accepts env t (components source) = true) ∨
            (∃ err, FilesystemWrite.rename env source source t = .error err t) ∧
              ¬ accepts env t (components source) = true := by
          rcases FilesystemWrite.rename_run env source source t with ⟨q, r, hn, -, -, hr, hno⟩ |
            ⟨p, q, r, t', hm, -⟩ | ⟨⟨hnone, -⟩, err', herr'⟩
          · obtain ⟨rfl, hacc, -⟩ := (hs.names_iff hfree).mp hn
            exact .inl ⟨r, hr, hno, hacc⟩
          · obtain rfl := hm.source.unique hm.target
            exact absurd (List.prefix_refl _) hm.outside
          · refine .inr ⟨⟨err', herr'⟩, fun hacc => hthere ?_⟩
            have hn := (hs.agent_names hfree hthere).mpr hacc
            exact hnone _ hn hn
        have hforall : (∀ e', some e = some e' →
            (Dated e' ↔ accepts env t (components source) = true)) ↔
              (Dated e ↔ accepts env t (components source) = true) :=
          ⟨fun h => h e rfl, fun h e' he => Option.some.inj he ▸ h⟩
        rw [hforall]
        rcases FsRooted.rename_run newDir source source t with ⟨-, ⟨e', he'⟩, r, hr, hno⟩ |
          ⟨hnot, err, herr⟩
        · obtain ⟨hget', hdated⟩ := (hs.seen_iff hfree).mp he'
          obtain rfl := Option.some.inj (hget.symm.trans hget')
          rcases hagent with ⟨r', hr', hno', hacc⟩ | ⟨⟨err', herr'⟩, hacc⟩
          · simp only [rooted, hr, handle, map_ok hr', outcome]
            refine iff_of_true ⟨?_, sameFiles_refl t, fun h => by cases h⟩ (iff_of_true hdated hacc)
            simp only [hno, hno', id]
          · simp only [rooted, hr, handle, map_error herr', outcome]
            exact iff_of_false not_agree_root fun h => hacc (h.mp hdated)
        · have hdated : ¬ Dated e := fun hd =>
            hnot ⟨rfl, e, (hs.seen_iff hfree).mpr ⟨hget, hd⟩⟩
          rcases hagent with ⟨r', hr', -, hacc⟩ | ⟨⟨err', herr'⟩, hacc⟩
          · simp only [rooted, herr, handle, map_ok hr', outcome]
            exact iff_of_false not_agree_agent fun h => hdated (h.mpr hacc)
          · simp only [rooted, herr, handle, map_error herr', outcome]
            exact iff_of_true agree_refused (iff_of_false hdated hacc)
  · rw [if_neg fun hc => hst (hsame.mp hc), hs.agent_moves ht hfree]
    rcases FsRooted.rename_run newDir source target t with ⟨hst', -⟩ | ⟨-, err, herr⟩
    · exact absurd hst' hst
    rcases FilesystemWrite.rename_run env source target t with ⟨q, r, hn, hn', -⟩ |
      ⟨p, q, r, t', hm, -, hr, -⟩ | ⟨⟨-, hnone⟩, err', herr'⟩
    · obtain ⟨rfl, -⟩ := (hs.names_iff hfree).mp hn
      obtain ⟨hc, -⟩ := (ht.names_iff hfree).mp hn'
      exact absurd (hsame.mp hc) hst
    · simp only [rooted, herr, handle, map_ok hr, outcome]
      exact iff_of_false not_agree_agent fun h => h ⟨p, q, hm⟩
    · simp only [rooted, herr, handle, map_error herr', outcome]
      refine iff_of_true agree_refused fun hm => ?_
      obtain ⟨p, q, hm⟩ := hm
      exact hnone p q hm

theorem remove_meets (newDir : Attr) (h : Passed clean) (hfree : t.LinkFree) {recursive : Bool} :
    Agree t (rooted newDir t (.remove clean recursive))
      (outcome id (handle env (.remove clean recursive) t)) ↔
      MeetAt env t (.remove clean recursive) := by
  simp only [MeetAt]
  cases hget : t.get (components clean) with
  | none =>
      refine iff_of_true ?_ fun e he => by cases he
      rcases FsRooted.remove_run h.below newDir recursive t with
        ⟨err, t', q, -, ⟨e, he, -⟩, -⟩ | ⟨-, err, herr⟩
      · cases hget.symm.trans ((h.seen_iff hfree).mp he).1
      rcases FilesystemWrite.remove_run env clean recursive t with ⟨q, e, r, t', ht, -⟩ |
        ⟨-, err', herr'⟩
      · obtain ⟨rfl, -⟩ := (h.names_iff hfree).mp ht.target
        exact absurd hget ht.there
      · simp only [rooted, herr, handle, map_error herr', outcome]
        exact agree_refused
  | some e =>
      have hforall : (∀ e', some e = some e' →
          ¬ AgentTakes env t (components clean) recursive e' ∧
            ¬ RootTakes t (components clean) recursive e') ↔
          ¬ AgentTakes env t (components clean) recursive e ∧
            ¬ RootTakes t (components clean) recursive e :=
        ⟨fun h => h e rfl, fun h e' he => Option.some.inj he ▸ h⟩
      rw [hforall, h.agent_takes hfree hget, h.root_takes hfree hget]
      rcases FsRooted.remove_run h.below newDir recursive t with
        ⟨err, t', q, herr, htaken, herase⟩ | ⟨hnone, err, herr⟩
      · -- the root leg says that it failed, but the entry is gone
        refine iff_of_false (fun ha => ?_) fun hm => hm.2 ⟨q, htaken⟩
        simp only [rooted, herr, outcome] at ha
        obtain ⟨e', -, hq, -⟩ := id htaken
        obtain rfl := Tree.locate_linkFree hfree h.plain hq
        have hsame := ha.2.2 rfl (components clean)
        obtain ⟨-, hget'⟩ := Tree.eraseAt_eq_ok herase
        rw [hget', if_pos (List.prefix_refl _), hget] at hsame
        cases hsame
      · rcases FilesystemWrite.remove_run env clean recursive t with
          ⟨q, e', r, t', ht, -, -, hr, -⟩ | ⟨hnone', err', herr'⟩
        · simp only [rooted, herr, handle, map_ok hr, outcome]
          obtain ⟨rfl, -⟩ := (h.names_iff hfree).mp ht.target
          exact iff_of_false not_agree_agent fun hm => hm.1 ht
        · simp only [rooted, herr, handle, map_error herr', outcome]
          exact iff_of_true agree_refused ⟨hnone' _, not_exists.mpr hnone⟩

theorem mode_of_setMode {bits : Nat} (hbits : bits ≤ 0o7777) :
    mode { e with attr := setMode bits e.attr } = bits := by
  unfold mode setMode
  rw [BitVec.toNat_ofNat]
  exact Nat.mod_eq_of_lt (Nat.lt_succ_of_le hbits)

/-- A change of mode changes nothing exactly if the entry has the mode. -/
theorem sameFiles_setMode {bits : Nat} (hget : t.get p = some e) (hbits : bits ≤ 0o7777) :
    SameFiles (t.setAttr p (setMode bits)) t ↔ mode e = bits := by
  constructor
  · intro h
    have hsame := h p
    rw [Tree.get_setAttr_same hget, hget, Option.some.injEq] at hsame
    rw [hsame]
    exact mode_of_setMode hbits
  · rintro rfl r
    by_cases hrp : r = p
    · subst hrp
      have hperm : setMode (mode e) e.attr = e.attr := by
        unfold setMode mode
        rw [BitVec.ofNat_toNat, BitVec.setWidth_eq]
      rw [Tree.get_setAttr_same hget, hget, hperm]
    · exact (Tree.get_setAttr_ne hrp).symm

theorem chmod_meets (newDir : Attr) (h : Passed clean) (hfree : t.LinkFree) {bits : UInt32} :
    Agree t (rooted newDir t (.chmod clean bits)) (outcome id (handle env (.chmod clean bits) t)) ↔
      MeetAt env t (.chmod clean bits) := by
  simp only [MeetAt]
  cases hget : t.get (components clean) with
  | none =>
      refine iff_of_true ?_ fun e he => by cases he
      rcases FsRooted.chmod_run newDir clean bits t with ⟨p, q, e, r, ⟨⟨e', he'⟩, -⟩, -⟩ |
        ⟨-, err, herr⟩
      · cases hget.symm.trans ((h.seen_iff hfree).mp he').1
      rcases FilesystemWrite.chmod_run env clean bits t with ⟨q, e, r, hsets, -⟩ | ⟨-, err', herr'⟩
      · obtain ⟨rfl, -⟩ := (h.names_iff hfree).mp hsets.target
        cases hget.symm.trans hsets.there
      · simp only [rooted, herr, handle, map_error herr', outcome]
        exact agree_refused
  | some e =>
      have hthere : t.get (components clean) ≠ none := by simp [hget]
      have hforall : (∀ e', some e = some e' → ModesMeet env t (components clean) bits e') ↔
          ModesMeet env t (components clean) bits e :=
        ⟨fun h => h e rfl, fun h e' he => Option.some.inj he ▸ h⟩
      rw [hforall, ModesMeet]
      have hagent : ((bits.toNat ≤ 0o777 ∧ accepts env t (components clean) = true) ∧
          ∃ r, FilesystemWrite.chmod env clean bits t =
            .ok r (if mode e &&& 0o777 = bits.toNat then t
              else t.setAttr (components clean) (setMode bits.toNat)) ∧ r.verified = true) ∨
          ¬ (bits.toNat ≤ 0o777 ∧ accepts env t (components clean) = true) ∧
            ∃ err, FilesystemWrite.chmod env clean bits t = .error err t := by
        rcases FilesystemWrite.chmod_run env clean bits t with ⟨q, e', r, hsets, hr, hverified⟩ |
          ⟨hnone, err, herr⟩
        · obtain ⟨rfl, hacc, -⟩ := (h.names_iff hfree).mp hsets.target
          obtain rfl := Option.some.inj (hget.symm.trans hsets.there)
          exact .inl ⟨⟨hsets.plain, hacc⟩, r, hr, hverified⟩
        · refine .inr ⟨fun hmeet => ?_, err, herr⟩
          exact hnone _ e ⟨hmeet.1, (h.agent_names hfree hthere).mpr hmeet.2, hget,
            hfree _ (mem_of_find hget)⟩
      rcases FsRooted.chmod_run newDir clean bits t with
        ⟨p, q, e', r, ⟨-, hbits, hp⟩, hseen, hq, hr, hverified⟩ | ⟨hnone, err, herr⟩
      · obtain ⟨rfl, -⟩ := (h.resolve_iff hfree).mp hp
        obtain rfl := Tree.locate_linkFree hfree h.plain hq
        obtain ⟨hget', hdated⟩ := (h.seen_iff hfree).mp hseen
        obtain rfl := Option.some.inj (hget.symm.trans hget')
        rw [if_pos ⟨hdated, hbits⟩]
        have hverified : r.verified = true := by
          rw [hverified, Tree.reattr, if_pos rfl]
          exact decide_eq_true (mode_of_setMode hbits)
        rcases hagent with ⟨⟨hplain, hacc⟩, r', hr', hverified'⟩ | ⟨hno, err', herr'⟩
        · simp only [rooted, hr, handle, map_ok hr', outcome, Agree, hverified, hverified', id,
            hplain, hacc, true_and, reduceCtorEq, false_implies, and_true]
          by_cases hmode : mode e &&& 0o777 = bits.toNat
          · rw [if_pos hmode, sameFiles_setMode hget hbits]
            exact ⟨fun hm _ => hm, fun hm => hm hmode⟩
          · rw [if_neg hmode]
            exact iff_of_true (sameFiles_refl _) fun hm => absurd hm hmode
        · simp only [rooted, hr, handle, map_error herr', outcome]
          exact iff_of_false not_agree_root fun hm => hno ⟨hm.1, hm.2.1⟩
      · have hnot : ¬ (Dated e ∧ bits.toNat ≤ 0o7777) := fun hm =>
          hnone (components clean) ⟨⟨e, (h.seen_iff hfree).mpr ⟨hget, hm.1⟩⟩, hm.2,
            (h.resolve_iff hfree).mpr ⟨rfl, hthere⟩⟩
        rw [if_neg hnot]
        rcases hagent with ⟨hyes, r', hr', -⟩ | ⟨hno, err', herr'⟩
        · simp only [rooted, herr, handle, map_ok hr', outcome]
          exact iff_of_false not_agree_agent fun hm => hm hyes
        · simp only [rooted, herr, handle, map_error herr', outcome]
          exact iff_of_true agree_refused hno

/-- **When the two legs do the same**, on a phone without links: the root leg makes and moves
nothing, and of what it takes it says that it failed. -/
theorem write_legs_meet_iff (env : Env) (newDir : Attr) (t : Disk) (hfree : t.LinkFree)
    (request : WriteRequest) (h : Accepted request) :
    Agree t (rootLeg newDir t request) (agentLeg env t request) ↔ Meet env t request := by
  have meet {clean : WriteRequest} (hclean : cleaned request = .ok clean) :
      Meet env t request ↔ MeetAt env t clean :=
    ⟨fun hm => hm clean hclean, fun hm c hc => Except.ok.inj (hclean.symm.trans hc) ▸ hm⟩
  cases request with
  | mkdir path =>
      obtain ⟨clean, hclean⟩ := h
      have hcleaned : cleaned (.mkdir path) = .ok (.mkdir clean) := by
        simp only [cleaned, hclean, Except.map]
      rw [meet hcleaned, ← mkdir_meets newDir (passed_of_checkWritable hclean) hfree]
      simp only [rootLeg, fsMkdir, checked_ok _ hclean, agentLeg, hcleaned, rooted]
  | rename source target =>
      obtain ⟨⟨source', hsource⟩, target', htarget⟩ := h
      have hcleaned : cleaned (.rename source target) = .ok (.rename source' target') := by
        simp only [cleaned, hsource, htarget]
        rfl
      rw [meet hcleaned, ← rename_meets newDir (passed_of_checkWritable hsource)
        (passed_of_checkWritable htarget) hfree]
      simp only [rootLeg, fsRename, checked_ok _ hsource, checked_ok _ htarget, agentLeg, hcleaned,
        rooted]
  | remove path recursive =>
      obtain ⟨clean, hclean⟩ := h
      have hcleaned : cleaned (.remove path recursive) = .ok (.remove clean recursive) := by
        simp only [cleaned, hclean, Except.map]
      rw [meet hcleaned, ← remove_meets newDir (passed_of_checkWritable hclean) hfree]
      simp only [rootLeg, fsRemove, checked_ok _ hclean, agentLeg, hcleaned, rooted]
  | chmod path bits =>
      obtain ⟨clean, hclean⟩ := h
      have hcleaned : cleaned (.chmod path bits) = .ok (.chmod clean bits) := by
        simp only [cleaned, hclean, Except.map]
      rw [meet hcleaned, ← chmod_meets newDir (passed_of_checkWritable hclean) hfree]
      simp only [rootLeg, fsChmod, checked_ok _ hclean, agentLeg, hcleaned, rooted]

/-! ### A new directory -/

/-- A directory that is not there yet. -/
def newName : WriteRequest := .mkdir "/data/local/tmp/new".toList

theorem plainDisk_linkFree : plainDisk.LinkFree := by decide +kernel

theorem newName_accepted : Accepted newName := ⟨"/data/local/tmp/new".toList, by decide +kernel⟩

theorem newName_meet_iff :
    Agree plainDisk (rootLeg plainDir plainDisk newName) (agentLeg plainEnv plainDisk newName) ↔
      Meet plainEnv plainDisk newName :=
  write_legs_meet_iff plainEnv plainDir plainDisk plainDisk_linkFree newName newName_accepted

/-- **Only the Agent makes a directory that is not there yet**: the probe of the root leg fails
before its command is run. -/
theorem mkdir_disagrees : ¬ ∀ (env : Env) (newDir : Attr) (t : Disk), t.LinkFree →
    ∀ request, Accepted request → Agree t (rootLeg newDir t request) (agentLeg env t request) := by
  intro h
  have hsame := (h plainEnv plainDir plainDisk plainDisk_linkFree newName newName_accepted).1
  have hroot : (rootLeg plainDir plainDisk newName).1 = none := by decide +kernel
  have hagent : (agentLeg plainEnv plainDisk newName).1 = some (.created true) := by decide +kernel
  rw [hroot, hagent] at hsame
  cases hsame

end FsPage

end RevBox
