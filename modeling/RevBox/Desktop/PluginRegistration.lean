import RevBox.Desktop.PluginTransactions

/-!
# Desktop — PluginRegistration

What the registry and the handles say of a plugin once an installation has succeeded, whatever
failed on the way.

* `Booked.always`: a program on files alone leaves both.
* `install_takes`: the version that was installed is the one that is registered and loaded.
-/

namespace RevBox.PluginInstall

open FileTree Prog Volume

variable {β : Type} {L : Manifests β} {h : Home} {w w' w₀ : World β} {m : PluginManifest}

/-! ### Programs on files alone -/

/-- The operation leaves the registry and the handles. -/
def OnFiles : Op → Prop
  | .upsert _ | .setEnabledRow .. | .removeRow _ | .removeExcept _ | .putLoaded ..
  | .unloadHandle _ | .replaceLoaded _ => False
  | _ => True

/-- The registry and the handles are the same. -/
def Booked (w₀ w : World β) : Prop := w.rows = w₀.rows ∧ w.handles = w₀.handles

theorem booked_did {o : Op} {r : Reply o} (ho : OnFiles o) (hw : Booked w₀ w)
    (hd : did L w o r w') : Booked w₀ w' := by
  cases o with
  | createDirAll p =>
      obtain ⟨d, -, -, rfl⟩ := hd
      exact hw
  | rename p q =>
      simp only [did] at hd
      split_ifs at hd
      · obtain ⟨d, -, -, -, rfl⟩ := hd
        exact hw
      · rwa [hd]
  | removeDirAll p =>
      obtain ⟨d, -, -, rfl⟩ := hd
      exact hw
  | copy p q =>
      obtain ⟨d, -, -, rfl⟩ := hd
      exact hw
  | upsert row | setEnabledRow id b | removeRow id | removeExcept ids | unloadHandle id
  | putLoaded id kind | replaceLoaded new => exact ho.elim
  | artifact dir | secs | millis | candidates =>
      cases hd
      exact hw
  | _ => rwa [hd.1]

/-- **A program on files alone.** -/
theorem Booked.always {α : Type} {c : Code α} (hc : Only OnFiles c) (hw : Booked w₀ w) :
    Always (did L) (Booked w₀) (fun _ w' => Booked w₀ w') w c :=
  hc.always (fun _ _ _ _ ho hw hd => booked_did ho hw hd) hw

theorem onFiles_copyEach {sub : Dir → Dir → Code Bool} {src dst : Dir}
    (hsub : ∀ src dst, Only OnFiles (sub src dst)) (entries : List (Name × Bool)) :
    Only OnFiles (copyEach sub src dst entries) := by
  induction entries with
  | nil => exact only_pure
  | cons entry rest ih =>
      obtain ⟨name, isDir⟩ := entry
      have hnext : ∀ done : Bool, Only OnFiles
          (if done = true then copyEach sub src dst rest else pure false) := by
        rintro (_ | _)
        · exact only_pure
        · exact ih
      rw [copyEach]
      split
      · exact (hsub _ _).bind hnext
      · exact (only_perform trivial).bind hnext

theorem onFiles_copyDirRecursive (depth : Nat) :
    ∀ src dst : Dir, Only OnFiles (copyDirRecursive depth src dst) := by
  induction depth with
  | zero => exact fun _ _ => only_pure
  | succ depth ih =>
      intro src dst
      refine (only_perform trivial).bind fun r => ?_
      cases r with
      | false => exact only_pure
      | true =>
          refine (only_perform trivial).bind fun r => ?_
          cases r with
          | none => exact only_pure
          | some entries => exact onFiles_copyEach ih entries

theorem onFiles_stage (src : Dir) : Only OnFiles (stage h src) := by
  refine (only_perform trivial).bind fun r => ?_
  cases r with
  | false => exact only_pure
  | true =>
      refine (only_perform trivial).bind fun n => ?_
      refine (onFiles_copyDirRecursive pathMax src _).bind fun done => ?_
      cases done <;> exact only_pure

theorem onFiles_settle (target staging : Dir) (backup : Option Dir) :
    Only OnFiles (settle target staging backup) := by
  refine (only_perform trivial).bind fun r => ?_
  cases r with
  | false => exact only_pure
  | true =>
      refine (only_perform trivial).bind fun r => ?_
      cases r with
      | true => exact only_pure
      | false =>
          cases backup with
          | none => exact only_pure
          | some b => exact (only_perform trivial).bind fun r => only_pure

theorem onFiles_commitSwap (staging : Dir) : Only OnFiles (commitSwap h m staging) := by
  refine (only_perform trivial).bind fun r => ?_
  cases r with
  | false => exact onFiles_settle _ _ _
  | true =>
      refine (only_perform trivial).bind fun old => ?_
      cases old with
      | none => exact only_pure
      | some old =>
          refine (only_perform trivial).bind fun ts => (only_perform trivial).bind fun r => ?_
          cases r with
          | false => exact only_pure
          | true =>
              refine (only_perform trivial).bind fun r => ?_
              cases r with
              | false => exact only_pure
              | true => exact onFiles_settle _ _ _

theorem onFiles_pruneEach {keep : Option Dir} {dir : Dir} (entries : List (Name × Bool)) :
    Only OnFiles (pruneEach keep dir entries) := by
  induction entries with
  | nil => exact only_pure
  | cons entry rest ih =>
      unfold pruneEach
      split
      · exact ih
      · exact (only_perform trivial).bind fun r => ih

theorem onFiles_pruneBackups (id : List Char) (keep : Option Dir) :
    Only OnFiles (pruneBackups h id keep) := by
  refine (only_perform trivial).bind fun r => ?_
  cases r with
  | none => exact only_pure
  | some entries => exact onFiles_pruneEach entries

/-! ### What a success means -/

/-- The new version is registered, as enabled as the plugin was, and what is loaded is what is in
the plugin's directory; of the other plugins nothing has changed. -/
structure Taken (L : Manifests β) (h : Home) (m : PluginManifest) (w w' : World β) : Prop where
  loaded : ∃ kind, w'.handles m.id = some kind ∧ L.loads (w'.disk.view (targetDir h m.id)) kind
  row : w'.rows m.id = some ⟨m.id, m.version, targetDir h m.id,
    ((w.rows m.id).map (·.enabled)).getD true⟩
  rows : ∀ i, i ≠ m.id → w'.rows i = w.rows i
  handles : ∀ i, i ≠ m.id → w'.handles i = w.handles i

/-- A program that succeeds only where the version has been taken. -/
abbrev Takes (L : Manifests β) (h : Home) (m : PluginManifest) (w w₁ : World β)
    (c : Code (Except Failure Unit)) : Prop :=
  Always (did L) (fun _ => True) (fun r w' => r = .ok () → Taken L h m w w') w₁ c

/-- The row that is written. -/
theorem onto_row {old : Option PluginRow} {b : Option Bool} {id version : List Char} {path : Dir}
    (hb : ∀ e, b = some e → old.map (·.enabled) = some e) :
    PluginRow.onto ⟨id, version, path, b.getD true⟩ old =
      ⟨id, version, path, (old.map (·.enabled)).getD true⟩ := by
  cases old with
  | some old => rfl
  | none =>
      cases b with
      | none => rfl
      | some e => cases hb e rfl

variable {w₁ : World β} {backup : Option Dir} {kind : Handle}

theorem takes_register (hid : OwnId m.id) (hw : Booked (w.setHandle m.id none) w₁)
    (hloads : L.loads (w₁.disk.view (targetDir h m.id)) kind) :
    Takes L h m w w₁ (register h m kind backup) := by
  refine always_perform fun b w₂ hd => ⟨trivial, ?_⟩
  obtain ⟨rfl, hb⟩ := hd
  have hrows : w₂.rows = w.rows := hw.1
  refine always_perform fun r w₃ hd => ⟨trivial, ?_⟩
  cases r with
  | false =>
      intro hr
      cases hr
  | true =>
      obtain rfl : w₃ = w₂.setRow m.id (some (PluginRow.onto
        ⟨m.id, m.version, targetDir h m.id, b.getD true⟩ (w₂.rows m.id))) := hd
      rw [onto_row hb, hrows]
      refine always_perform fun _ w₄ hd => ⟨trivial, ?_⟩
      obtain rfl : w₄ = World.setHandle _ m.id (some kind) := hd
      set w₄ : World β := World.setHandle _ m.id (some kind) with hw₄
      have hself : Booked w₄ w₄ := ⟨rfl, rfl⟩
      have hhere : L.loads (w₄.disk.view (targetDir h m.id)) kind := hloads
      have hspares : Spares (targetDir h m.id) (fun _ => True) (pruneBackups h m.id backup) :=
        spares_pruneBackups fun n _ => target_apart_backups hid [n]
      have hpruned := (hself.always (L := L) (onFiles_pruneBackups m.id backup)).and
        (hspares.always (L.loads · kind) hhere)
      refine (hpruned.mono (fun _ _ => trivial) fun _ _ hq => hq).andThen ?_
      rintro - w₅ ⟨hbooked, -, hloaded⟩
      refine always_perform fun r w₆ hd => ⟨trivial, ?_⟩
      obtain ⟨rfl, -⟩ := hd
      cases r with
      | false =>
          intro hr
          cases hr
      | true =>
          intro _
          refine ⟨⟨kind, ?_, hloaded⟩, ?_, fun i hi => ?_, fun i hi => ?_⟩
          · rw [hbooked.2]
            exact Function.update_self ..
          · rw [hbooked.1]
            exact Function.update_self ..
          · rw [hbooked.1]
            exact (Function.update_of_ne hi ..).trans (congrFun hrows i)
          · rw [hbooked.2]
            refine (Function.update_of_ne hi ..).trans ?_
            exact (congrFun hw.2 i).trans (Function.update_of_ne hi ..)

/-- What does not load is no success. -/
theorem takes_restore : Takes L h m w w₁ (restore h m backup) := by
  refine always_perform fun r w₂ hd => ⟨trivial, ?_⟩
  cases backup with
  | none =>
      intro hr
      cases hr
  | some b =>
      refine always_perform fun r w₃ hd => ⟨trivial, ?_⟩
      cases r with
      | false =>
          intro hr
          cases hr
      | true =>
          refine always_perform fun r w₄ hd => ⟨trivial, ?_⟩
          cases r with
          | none =>
              intro hr
              cases hr
          | some kind =>
              refine always_perform fun r w₅ hd => ⟨trivial, ?_⟩
              have hpruned : Booked w₅ w₅ := ⟨rfl, rfl⟩
              refine ((hpruned.always (onFiles_pruneBackups m.id none)).mono (fun _ _ => trivial)
                fun _ _ hq => hq).andThen ?_
              intro _ w₆ _ hr
              cases hr

theorem takes_replace (hid : OwnId m.id) (src : Dir) : Takes L h m w w (replace h m src) := by
  refine always_perform fun _ w₁ hd => ⟨trivial, ?_⟩
  obtain rfl : w₁ = w.setHandle m.id none := hd
  have hbooked : Booked (w.setHandle m.id none) (w.setHandle m.id none) := ⟨rfl, rfl⟩
  refine ((hbooked.always (onFiles_stage src)).mono (fun _ _ => trivial)
    fun _ _ hq => hq).andThen ?_
  intro staged w₂ hw₂
  cases staged with
  | error e =>
      intro hr
      cases hr
  | ok staged =>
      refine ((hw₂.always (onFiles_commitSwap staged)).mono (fun _ _ => trivial)
        fun _ _ hq => hq).andThen ?_
      intro backup w₃ hw₃
      cases backup with
      | error e =>
          refine always_perform fun r w₄ hd => ⟨trivial, ?_⟩
          intro hr
          cases hr
      | ok backup =>
          refine always_perform fun r w₄ hd => ⟨trivial, ?_⟩
          obtain ⟨rfl, hloads⟩ := hd
          cases r with
          | some kind => exact takes_register hid hw₃ (hloads kind rfl)
          | none => exact takes_restore

end RevBox.PluginInstall
