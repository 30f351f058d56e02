import Mathlib.Logic.Function.Basic
import RevBox.Desktop.PluginPlace
import RevBox.Support.Cutoff
import RevBox.Support.Volume

/-!
# Desktop — PluginVersions

The commands of `PluginInstall` on a disk, a registry and a map of handles: any of their operations
may fail, a removal half-way too, and the application may be gone between any two of them.

* `did`: what an operation does, and how it may be answered.
* `Spares.always`: a program that leaves a place keeps what is true of what is below it.
* `Away.spares_replace`, `Away.spares_rollback`, `Away.spares_uninstall`: a command leaves the
  places of other plugins.
-/

namespace RevBox.PluginInstall

open FileTree Prog Volume

variable {β : Type}

/-- What is below a directory. -/
abbrev View (β : Type) := Dir → Option (Stored β)

/-- What the directories of plugins are to the application: the manifests that are read in them,
and the plugins that are loaded from them.  Ids are names of directories of their own, and a version
is no path. -/
structure Manifests (β : Type) where
  reads : View β → PluginManifest → Prop
  loads : View β → Handle → Prop
  own : ∀ {v m}, reads v m → OwnId m.id
  plain : ∀ {v m}, reads v m → '/' ∉ m.version
  filled : ∀ {v k}, loads v k → ∃ r, r ≠ [] ∧ v r ≠ none

/-- The disk, the registry, and the map of handles. -/
structure World (β : Type) where
  disk : Volume Name β
  rows : List Char → Option PluginRow
  handles : List Char → Option Handle

/-- A row over the one there is: whether the plugin is enabled stays. -/
def PluginRow.onto (row : PluginRow) : Option PluginRow → PluginRow
  | none => row
  | some old => { row with enabled := old.enabled }

def World.setRow (w : World β) (id : List Char) (row : Option PluginRow) : World β :=
  { w with rows := Function.update w.rows id row }

def World.setHandle (w : World β) (id : List Char) (kind : Option Handle) : World β :=
  { w with handles := Function.update w.handles id kind }

/-- These are the entries of a directory. -/
def Lists (p : Dir) (names : List (Name × Bool)) (w : World β) : Prop :=
  w.disk.node p = some .dir ∧ (names.map (·.1)).Nodup ∧
    ∀ n b, (n, b) ∈ names ↔ ∃ x, w.disk.node (p ++ [n]) = some x ∧ x.isDir = b

section

variable (L : Manifests β)

/-- What the operations do.  A rename fails where the new place is not empty, and a removal that
fails may have removed a part. -/
def did : Effect Op Reply (World β)
  | w, .source dir, r, w' | w, .manifest dir, r, w' | w, .inspect dir, r, w' =>
      w' = w ∧ ∀ m, r = some m → L.reads (w.disk.view dir) m
  | w, .present p, r, w' => w' = w ∧ (r = true ↔ w.disk.node p ≠ none)
  | w, .createDirAll p, r, w' =>
      ∃ d, Made p w.disk d ∧ (r = true → d.node p = some .dir) ∧ w' = { w with disk := d }
  | w, .rename p q, r, w' =>
      if r = true then
        ∃ d, Moved p q w.disk d ∧ w.disk.node p ≠ none ∧
          (∀ s, s ≠ [] → w.disk.node (q ++ s) = none) ∧ w' = { w with disk := d }
      else w' = w
  | w, .removeDirAll p, r, w' =>
      ∃ d, Lessened p w.disk d ∧ (r = true → Removed p w.disk d) ∧ w' = { w with disk := d }
  | w, .copy p q, r, w' =>
      ∃ d, Written q w.disk d ∧
        (r = true → ∃ c, w.disk.node p = some (.file c) ∧ d.node q = some (.file c)) ∧
        w' = { w with disk := d }
  | w, .readDir p, r, w' => w' = w ∧ ∀ names, r = some names → Lists p names w
  | w, .loadDir dir, r, w' => w' = w ∧ ∀ k, r = some k → L.loads (w.disk.view dir) k
  | w, .unloadHandle id, _, w' =>
      w' = w.setHandle id none
  | w, .putLoaded id kind, _, w' =>
      w' = w.setHandle id (some kind)
  | w, .replaceLoaded new, _, w' =>
      w' = { w with handles := fun id => (new.find? (·.1 = id)).map (·.2) }
  | w, .dbEnabled id, r, w' => w' = w ∧ ∀ b, r = some b → (w.rows id).map (·.enabled) = some b
  | w, .getRow id, r, w' => w' = w ∧ ∀ row, r = some row → w.rows id = some row
  | w, .upsert row, r, w' =>
      if r = true then w' = w.setRow row.id (some (row.onto (w.rows row.id))) else w' = w
  | w, .setEnabledRow id b, r, w' =>
      if r = true then
        w' = w.setRow id ((w.rows id).map fun row => { row with enabled := b })
      else w' = w
  | w, .removeRow id, r, w' =>
      if r = true then w' = w.setRow id none else w' = w
  | w, .removeExcept ids, r, w' =>
      ∃ rows, (∀ id, rows id = w.rows id ∨ id ∉ ids ∧ rows id = none) ∧
        (r = true → ∀ id, id ∉ ids → rows id = none) ∧ w' = { w with rows := rows }
  | w, .listed id, r, w' => w' = w ∧ (r = true → w.rows id ≠ none)
  | w, .artifact _, _, w' | w, .secs, _, w' | w, .millis, _, w' | w, .candidates, _, w' => w' = w

end

/-! ### What an operation leaves -/

/-- The operation leaves what is below `a`. -/
def Leaves (a : Dir) : Op → Prop
  | .createDirAll p => ¬ a <+: p
  | .rename p q => Apart a p ∧ Apart a q
  | .removeDirAll p => Apart a p
  | .copy _ q => ¬ a <+: q
  | _ => True

variable {L : Manifests β} {h : Home} {w w' : World β} {a : Dir}

theorem leaves_view {o : Op} {r : Reply o} (ha : Leaves a o) (hd : did L w o r w') :
    w'.disk.view a = w.disk.view a := by
  cases o with
  | createDirAll p =>
      obtain ⟨d, hmade, -, rfl⟩ := hd
      exact hmade.view_apart ha
  | rename p q =>
      simp only [did] at hd
      split_ifs at hd
      · obtain ⟨d, hmoved, -, -, rfl⟩ := hd
        exact hmoved.view_apart ha.1 ha.2
      · rw [hd]
  | removeDirAll p =>
      obtain ⟨d, hless, -, rfl⟩ := hd
      exact hless.view_apart ha
  | copy p q =>
      obtain ⟨d, hwritten, -, rfl⟩ := hd
      exact hwritten.view_apart ha
  | upsert row | setEnabledRow id b | removeRow id =>
      simp only [did] at hd
      split_ifs at hd
      · rw [hd]
        rfl
      · rw [hd]
  | removeExcept ids =>
      obtain ⟨rows, -, -, rfl⟩ := hd
      rfl
  | unloadHandle id | putLoaded id kind | replaceLoaded new =>
      cases hd
      rfl
  | artifact dir | secs | millis | candidates =>
      cases hd
      rfl
  | _ => rw [hd.1]

/-- What a program may count on of the answers. -/
def Told : (o : Op) → Reply o → Prop
  | .source _, r | .manifest _, r | .inspect _, r =>
      ∀ m, r = some m → OwnId m.id ∧ '/' ∉ m.version
  | _, _ => True

theorem told_of_did {o : Op} {r : Reply o} (hd : did L w o r w') : Told o r := by
  cases o with
  | source dir | manifest dir | inspect dir =>
      intro m hm
      exact ⟨L.own (hd.2 m hm), L.plain (hd.2 m hm)⟩
  | _ => trivial

/-- The program leaves what is below `a`, and returns what is in `Q`. -/
abbrev Spares {α : Type} (a : Dir) (Q : α → Prop) (c : Code α) : Prop :=
  Meets Told (fun o _ => Leaves a o) Q c

/-- **A program that leaves a place** keeps what is true of what is below it. -/
theorem Spares.always {α : Type} {Q : α → Prop} {c : Code α} (hc : Spares a Q c)
    (P : View β → Prop) (hP : P (w.disk.view a)) :
    Always (did L) (fun w' => P (w'.disk.view a)) (fun r w' => Q r ∧ P (w'.disk.view a)) w c := by
  have hstep : ∀ (w : World β) o r w', Leaves a o → P (w.disk.view a) → did L w o r w' →
      P (w'.disk.view a) := by
    intro w o r w' ho hw hd
    rwa [leaves_view ho hd]
  have htold : ∀ (w : World β) o r w', did L w o r w' → Told o r :=
    fun _ _ _ _ hd => told_of_did hd
  exact Meets.always htold hstep hc hP

theorem spares_perform {α : Type} {Q : α → Prop} {o : Op} {f : Reply o → Code α} (ho : Leaves a o)
    (hf : ∀ r, Told o r → Spares a Q (f r)) : Spares a Q (perform o >>= f) :=
  fun r hr => ⟨ho, hf r hr⟩

theorem spares_bind {α γ : Type} {P : α → Prop} {Q : γ → Prop} {c : Code α} {f : α → Code γ}
    (hc : Spares a P c) (hf : ∀ r, P r → Spares a Q (f r)) : Spares a Q (c >>= f) :=
  meets_bind.mpr (hc.mono hf)

/-- A choice. -/
theorem spares_ite {α : Type} {Q : α → Prop} {b : Bool} {c c' : Code α}
    (hc : b = true → Spares a Q c) (hc' : b = false → Spares a Q c') :
    Spares a Q (if b = true then c else c') := by
  cases b with
  | true => exact hc rfl
  | false => exact hc' rfl

/-! ### Places -/

/-- The directory of a plugin, or one of its backups. -/
def Place (h : Home) (id : List Char) (a : Dir) : Prop :=
  a = h.root ++ [id] ∨ ∃ n, a = h.root ++ [backupsDir, id, n]

section Places

variable {id id' : List Char} (hid : OwnId id)
include hid

theorem Place.apart_staging (ha : Place h id a) (r : Dir) : Apart a (stagingRoot h ++ r) := by
  rw [stagingRoot, List.append_assoc]
  rcases ha with rfl | ⟨n, rfl⟩
  · exact apart_of_ne hid.2.2 h.root [] r
  · exact apart_of_ne (by decide) h.root [id, n] r

omit hid in
/-- The target of another plugin. -/
theorem Place.apart_target (ha : Place h id a) (hid' : OwnId id') (hne : id ≠ id') :
    Apart a (targetDir h id') := by
  rw [target_eq hid']
  rcases ha with rfl | ⟨n, rfl⟩
  · exact apart_of_ne hne h.root [] []
  · exact apart_of_ne hid'.2.1.symm h.root [id, n] []

/-- The backups of another plugin. -/
theorem Place.apart_backups (ha : Place h id a) (hid' : OwnId id') (hne : id ≠ id') (r : Dir) :
    Apart a (backupsOf h id' ++ r) := by
  rw [backups_eq hid', List.append_assoc]
  rcases ha with rfl | ⟨n, rfl⟩
  · exact apart_of_ne hid.2.1 h.root [] (id' :: r)
  · have hcommon := apart_of_ne hne (h.root ++ [backupsDir]) [n] r
    rwa [List.append_assoc, List.append_assoc] at hcommon

/-- The target and the backups of one plugin. -/
theorem target_apart_backups (r : Dir) : Apart (targetDir h id) (backupsOf h id ++ r) := by
  rw [target_eq hid, backups_eq hid, List.append_assoc]
  exact apart_of_ne hid.2.1 h.root [] (id :: r)

theorem place_target : Place h id (targetDir h id) := .inl (target_eq hid)

theorem place_backup (n : Name) : Place h id (backupsOf h id ++ [n]) := by
  refine .inr ⟨n, ?_⟩
  rw [backups_eq hid, List.append_assoc]
  rfl

omit hid in
/-- The place of a backup is one of the plugin's. -/
theorem backupDir_eq {n : Nat} {version : List Char} (hv : '/' ∉ version) :
    backupDir h id n version = backupsOf h id ++ [Text.decimal n ++ '-' :: version] := by
  refine join_name ?_ (proper_of_mem (c := '-') (by simp) (by decide)).1 _
  simp only [List.mem_append, List.mem_cons, not_or]
  exact ⟨separator_not_mem_decimal n, by decide, hv⟩

end Places

/-! ### Programs that leave a place -/

section Spared

theorem spares_copyEach {sub : Dir → Dir → Code Bool} {src : Dir}
    (hsub : ∀ src dst, Apart a dst → Spares a (fun _ => True) (sub src dst)) :
    ∀ {entries : List (Name × Bool)} {dst : Dir}, Apart a dst →
      Spares a (fun _ => True) (copyEach sub src dst entries)
  | [], _, _ => trivial
  | (name, isDir) :: rest, dst, hdst => by
      have hto : Apart a (dst ++ [name]) := by
        have happend := hdst.append [] [name]
        rwa [List.append_nil] at happend
      have hnext : ∀ done : Bool, Spares a (fun _ => True)
          (if done = true then copyEach sub src dst rest else pure false) := fun done =>
        spares_ite (fun _ => spares_copyEach hsub hdst) fun _ => trivial
      rw [copyEach]
      split
      · exact spares_bind (hsub _ _ hto) fun done _ => hnext done
      · exact spares_perform hto.1 fun r _ => hnext r

theorem spares_copyDirRecursive : ∀ (depth : Nat) (src dst : Dir), Apart a dst →
    Spares a (fun _ => True) (copyDirRecursive depth src dst)
  | 0, _, _, _ => trivial
  | depth + 1, src, dst, hdst => by
      refine spares_perform hdst.1 fun r _ => spares_ite (fun _ => ?_) fun _ => trivial
      refine spares_perform trivial fun r _ => ?_
      cases r with
      | none => trivial
      | some entries => exact spares_copyEach (spares_copyDirRecursive depth) hdst

variable (hs : ∀ r, Apart a (stagingRoot h ++ r))
include hs

theorem spares_stage (src : Dir) :
    Spares a (fun r => ∀ d, r = .ok d → ∃ s, d = stagingRoot h ++ s) (stage h src) := by
  have hroot : Apart a (stagingRoot h) := List.append_nil (stagingRoot h) ▸ hs []
  refine spares_perform hroot.1 fun r _ => spares_ite (fun _ => ?_) fun _ => fun d hd => nomatch hd
  refine spares_perform trivial fun n _ => ?_
  refine spares_bind (spares_copyDirRecursive pathMax src _ (hs _)) fun done _ => ?_
  refine spares_ite (fun _ => ?_) fun _ => fun d hd => nomatch hd
  rintro d ⟨⟩
  exact ⟨_, rfl⟩

omit hs

theorem spares_settle {target staging : Dir} {backup : Option Dir} (ht : Apart a target)
    (hst : Apart a staging) (hb : ∀ b, backup = some b → Apart a b) :
    Spares a (fun r => ∀ b, r = .ok (some b) → Apart a b) (settle target staging backup) := by
  have hparent : ¬ a <+: target.dropLast := fun hpre =>
    ht.1 (hpre.trans (List.dropLast_prefix target))
  refine spares_perform hparent fun r _ => spares_ite (fun _ => ?_) fun _ => fun b hr => nomatch hr
  refine spares_perform ⟨hst, ht⟩ fun r _ => spares_ite (fun _ => ?_) fun _ => ?_
  · intro b hr
    cases hr
    exact hb b rfl
  · cases backup with
    | none => exact fun b hr => nomatch hr
    | some b => exact spares_perform ⟨hb b rfl, ht⟩ fun r _ => fun b hr => nomatch hr

/-- The entries that are not kept. -/
theorem spares_pruneEach {keep : Option Dir} {dir : Dir} : ∀ {entries : List (Name × Bool)},
    (∀ n, keep ≠ some (dir ++ [n]) → Apart a (dir ++ [n])) →
      Spares a (fun _ => True) (pruneEach keep dir entries)
  | [], _ => trivial
  | (name, isDir) :: rest, hkeep => by
      unfold pruneEach
      split
      · exact spares_pruneEach hkeep
      · next hne => exact spares_perform (hkeep name hne) fun r _ => spares_pruneEach hkeep

theorem spares_pruneBackups {id : List Char} {keep : Option Dir}
    (hkeep : ∀ n, keep ≠ some (backupsOf h id ++ [n]) → Apart a (backupsOf h id ++ [n])) :
    Spares a (fun _ => True) (pruneBackups h id keep) := by
  refine spares_perform trivial fun r _ => ?_
  cases r with
  | none => trivial
  | some entries => exact spares_pruneEach hkeep

theorem spares_answer (i : List Char) : Spares a (fun _ => True) (answer i) :=
  spares_perform trivial fun r _ => by split <;> trivial

/-- The place is none that a command about the plugin touches. -/
structure Away (h : Home) (id : List Char) (a : Dir) : Prop where
  staging : ∀ r, Apart a (stagingRoot h ++ r)
  target : Apart a (targetDir h id)
  backups : ∀ r, Apart a (backupsOf h id ++ r)

variable {id : List Char} (ha : Away h id a)
include ha

theorem Away.backup {n : Nat} {version : List Char} (hv : '/' ∉ version) :
    Apart a (backupDir h id n version) := by
  rw [backupDir_eq hv]
  exact ha.backups _

theorem Away.spares_commitSwap {m : PluginManifest} (hm : m.id = id) {staging : Dir}
    (hst : Apart a staging) :
    Spares a (fun r => ∀ b, r = .ok (some b) → Apart a b) (commitSwap h m staging) := by
  subst hm
  refine spares_perform trivial fun r _ => spares_ite (fun _ => ?_) fun _ => ?_
  · refine spares_perform trivial fun r hr => ?_
    cases r with
    | none => exact fun b hb => nomatch hb
    | some old =>
        refine spares_perform trivial fun ts _ => ?_
        have hdst := ha.backup (n := ts) (hr old rfl).2
        have hparent : ¬ a <+: (backupDir h m.id ts old.version).dropLast := fun hpre =>
          hdst.1 (hpre.trans (List.dropLast_prefix _))
        refine spares_perform hparent fun r _ => spares_ite (fun _ => ?_) fun _ b hb => nomatch hb
        refine spares_perform ⟨ha.target, hdst⟩ fun r _ => spares_ite (fun _ => ?_)
          fun _ b hb => nomatch hb
        refine spares_settle ha.target hst fun b hb => ?_
        cases hb
        exact hdst
  · exact spares_settle ha.target hst fun b hb => nomatch hb

theorem Away.spares_register {m : PluginManifest} (hm : m.id = id) (kind : Handle)
    (backup : Option Dir) : Spares a (fun _ => True) (register h m kind backup) := by
  subst hm
  refine spares_perform trivial fun r _ => spares_perform trivial fun r _ => ?_
  refine spares_ite (fun _ => ?_) fun _ => trivial
  refine spares_perform trivial fun r _ => ?_
  exact spares_bind (spares_pruneBackups fun n _ => ha.backups [n]) fun _ _ => spares_answer _

theorem Away.spares_restore {m : PluginManifest} (hm : m.id = id) {backup : Option Dir}
    (hb : ∀ b, backup = some b → Apart a b) :
    Spares a (fun _ => True) (restore h m backup) := by
  subst hm
  refine spares_perform ha.target fun r _ => ?_
  cases backup with
  | none => trivial
  | some b =>
      refine spares_perform ⟨hb b rfl, ha.target⟩ fun r _ => ?_
      dsimp only
      refine spares_ite (fun _ => ?_) fun _ => trivial
      refine spares_perform trivial fun r _ => ?_
      cases r with
      | none => trivial
      | some kind =>
          refine spares_perform trivial fun r _ => ?_
          exact spares_bind (spares_pruneBackups fun n _ => ha.backups [n]) fun _ _ => trivial

/-- **An installation leaves what is not the plugin's.** -/
theorem Away.spares_replace {m : PluginManifest} (hm : m.id = id) (src : Dir) :
    Spares a (fun _ => True) (replace h m src) := by
  refine spares_perform trivial fun r _ => ?_
  refine spares_bind (spares_stage ha.staging src) fun staged hst => ?_
  cases staged with
  | error e => trivial
  | ok staged =>
      obtain ⟨s, rfl⟩ := hst staged rfl
      refine spares_bind (ha.spares_commitSwap hm (ha.staging s)) fun backup hb => ?_
      cases backup with
      | error e => exact spares_perform (ha.staging s) fun r _ => trivial
      | ok backup =>
          refine spares_perform trivial fun r _ => ?_
          cases r with
          | some kind => exact ha.spares_register hm kind backup
          | none => exact ha.spares_restore hm fun b hr => hb b (congrArg Except.ok hr)

theorem Away.spares_swapBack {backup trash : Dir} (hb : Apart a backup) (ht : Apart a trash) :
    Spares a (fun _ => True) (swapBack h id backup (targetDir h id) trash) := by
  have hbackups : Apart a (backupsOf h id) := List.append_nil (backupsOf h id) ▸ ha.backups []
  refine spares_perform ⟨hb, ha.target⟩ fun r _ => spares_ite (fun _ => ?_) fun _ => ?_
  · refine spares_perform trivial fun r _ => ?_
    cases r with
    | none => trivial
    | some m => exact spares_perform ht fun r _ => spares_perform hbackups fun r _ => trivial
  · have hback : Spares a (fun _ => True) (do
        if ← perform (.present trash) then
          let _ ← perform (.rename trash (targetDir h id)) : Code Unit) := by
      refine spares_perform trivial fun r _ => spares_ite (fun _ => ?_) fun _ => trivial
      exact spares_perform ⟨ht, ha.target⟩ fun r _ => trivial
    refine spares_bind (P := fun _ => True) ?_ fun _ _ => trivial
    refine spares_perform trivial fun r _ => ?_
    dsimp only
    exact spares_ite (fun _ => spares_perform ha.target fun r _ => hback) fun _ => hback

theorem Away.spares_rollback (hid : OwnId id) : Spares a (fun _ => True) (rollback h id) := by
  have hlatest : Spares a (fun r => ∀ b, r = some b → Apart a b) (latestBackup h id) := by
    refine spares_perform trivial fun r _ => ?_
    cases r with
    | none => exact fun b hb => nomatch hb
    | some entries =>
        intro b hb
        obtain ⟨n, -, rfl⟩ := Option.map_eq_some_iff.mp hb
        exact ha.backups [n]
  have htrash : Apart a (join (stagingRoot h) (trashName h id)) := by
    have hat := ha.staging [trashName h id]
    rw [stagingRoot, List.append_assoc] at hat
    rwa [trash_eq hid]
  have hstaging : Apart a (stagingRoot h) := List.append_nil (stagingRoot h) ▸ ha.staging []
  refine spares_perform trivial fun r _ => ?_
  refine spares_bind (P := fun _ => True) ?_ fun files _ => ?_
  · refine spares_bind hlatest fun backup hb => ?_
    cases backup with
    | none => trivial
    | some backup =>
        have hswap := ha.spares_swapBack (hb backup rfl) htrash
        refine spares_perform hstaging.1 fun r _ => spares_ite (fun _ => ?_) fun _ => trivial
        refine spares_perform trivial fun r _ => spares_ite (fun _ => ?_) fun _ => hswap
        exact spares_perform ⟨ha.target, htrash⟩ fun r _ =>
          spares_ite (fun _ => hswap) fun _ => trivial
  · cases files with
    | error e => trivial
    | ok m =>
        refine spares_perform trivial fun r _ => ?_
        cases r with
        | none => trivial
        | some kind =>
            refine spares_perform trivial fun r _ => spares_perform trivial fun r _ => ?_
            refine spares_ite (fun _ => ?_) fun _ => trivial
            exact spares_perform trivial fun r _ => spares_answer id

theorem Away.spares_uninstall : Spares a (fun _ => True) (uninstall h id) := by
  have hbackups : Apart a (backupsOf h id) := List.append_nil (backupsOf h id) ▸ ha.backups []
  refine spares_perform trivial fun r _ => ?_
  refine spares_bind (P := fun _ => True) ?_ fun files _ => ?_
  · have hgone : ∀ gone : Bool, Spares a (fun _ => True) (do
        if gone then
          if ← perform (.present (backupsOf h id)) then
            if ← perform (.removeDirAll (backupsOf h id)) then pure (.ok ()) else pure (.error .io)
          else pure (.ok ())
        else pure (.error .io) : Code (Except Failure Unit)) := fun gone => by
      refine spares_ite (fun _ => ?_) fun _ => trivial
      refine spares_perform trivial fun r _ => spares_ite (fun _ => ?_) fun _ => trivial
      exact spares_perform hbackups fun r _ => spares_ite (fun _ => trivial) fun _ => trivial
    refine spares_perform trivial fun r _ => ?_
    dsimp only
    exact spares_ite (fun _ => spares_perform ha.target fun r _ => hgone r) fun _ => hgone true
  · cases files with
    | error e => trivial
    | ok u => exact spares_perform trivial fun r _ => spares_ite (fun _ => trivial) fun _ => trivial

/-! ### Commands that leave the files -/

omit ha in
theorem spares_validateSource (src : Dir) :
    Spares a (fun r => ∀ m, r = .ok m → OwnId m.id) (validateSource h src) := by
  refine spares_perform trivial fun r hr => ?_
  cases r with
  | none => exact fun m hm => nomatch hm
  | some m =>
      dsimp only
      split
      · exact fun m hm => nomatch hm
      · refine spares_perform trivial fun r _ => spares_ite (fun _ => ?_) fun _ m hm => nomatch hm
        rintro m' ⟨⟩
        exact (hr m rfl).1

omit ha in
theorem spares_setEnabled (i : List Char) (enabled : Bool) :
    Spares a (fun _ => True) (setEnabled i enabled) := by
  refine spares_perform trivial fun r _ => ?_
  cases r with
  | none => trivial
  | some row =>
      refine spares_ite (fun _ => ?_) fun _ => ?_
      · refine spares_perform trivial fun r _ => ?_
        cases r with
        | none => exact spares_perform trivial fun r _ => by split <;> trivial
        | some kind =>
            refine spares_perform trivial fun r _ => spares_ite (fun _ => ?_) fun _ => trivial
            exact spares_perform trivial fun r _ => spares_answer i
      · refine spares_perform trivial fun r _ => spares_perform trivial fun r _ => ?_
        exact spares_ite (fun _ => spares_answer i) fun _ => trivial

omit ha in
theorem spares_scanEach : ∀ {dirs : List Dir} {ids : List (List Char)}
    {new : List (List Char × Handle)}, Spares a (fun _ => True) (scanEach dirs ids new)
  | [], _, _ => trivial
  | dir :: rest, ids, new => by
      refine spares_perform trivial fun r _ => ?_
      cases r with
      | none => exact spares_scanEach
      | some m =>
          refine spares_perform trivial fun r _ => spares_perform trivial fun r' _ => ?_
          refine spares_ite (fun _ => spares_ite (fun _ => ?_) fun _ => spares_scanEach)
            fun _ => trivial
          refine spares_perform trivial fun r _ => ?_
          cases r with
          | none => exact spares_scanEach
          | some kind => exact spares_scanEach

omit ha in
theorem spares_scan : Spares a (fun _ => True) scan := by
  refine spares_perform trivial fun r _ => ?_
  refine spares_bind spares_scanEach fun found _ => ?_
  cases found with
  | none => trivial
  | some found =>
      refine spares_perform trivial fun r _ => spares_perform trivial fun r _ => ?_
      exact spares_ite (fun _ => trivial) fun _ => trivial

end Spared

end RevBox.PluginInstall
