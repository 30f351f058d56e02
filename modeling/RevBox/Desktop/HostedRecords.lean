import RevBox.Support.Split
import RevBox.Support.Text
import Mathlib.Data.Finset.Basic
import Mathlib.Data.List.Lex
import Mathlib.Data.List.Nodup
import Mathlib.Data.Set.Basic

/-!
# Desktop — HostedRecords

The records of hosted files in the local storage, `src/features/binary/hostedRecords.ts`: a note
and the arguments of a start, each under a key of the device's serial number and the file's name.

* `forEachKey_prune`: the enumeration from the back misses no key while keys are removed.
* `records_kept_apart`: exactly the records of the named files of one device go, and exactly the
  names that are not present are listed, unless another device's record spells the same key.
-/

namespace RevBox.HostedRecords

open Split

/-- A key of the storage. -/
abbrev Key := List Char

/-! ### The code -/

/-- `NOTE_PREFIX`. -/
def notePrefix : Key := "adb.binary.note.".toList

/-- `LAUNCH_PREFIX`. -/
def launchPrefix : Key := "adb.binary.launch.".toList

/-- What both kinds of keys say of a file of a device. -/
def spelled (serial name : List Char) : List Char := serial ++ '.' :: name

/-- `noteKey`. -/
def noteKey (serial name : List Char) : Key := notePrefix ++ spelled serial name

/-- `launchKeyOf`. -/
def launchKeyOf (serial name : List Char) : Key := launchPrefix ++ spelled serial name

/-- The end of the key of a file's arguments. -/
def argsEnd : Key := ".args".toList

/-- The end of the key of a file's stamp. -/
def stampEnd : Key := ".stamp".toList

/-- `nameOfKey`. -/
def nameOfKey (key : Key) (serial : List Char) : Option (List Char) :=
  match stripPrefix (notePrefix ++ spelled serial []) key with
  | some name => some name
  | none =>
      match stripPrefix (launchPrefix ++ spelled serial []) key with
      | none => none
      | some rest => (stripSuffix argsEnd rest).or (stripSuffix stampEnd rest)

/-- A storage, by its keys in the order it enumerates them. -/
abbrev Storage := List Key

/-- The loop of `forEachKey`, from position `i` down, over a storage that `run` may change. -/
def forEachFrom {σ : Type} (run : Key → Storage × σ → Storage × σ) :
    Nat → Storage × σ → Storage × σ
  | 0, st => st
  | i + 1, st =>
      match st.1[i]? with
      | some key => forEachFrom run i (if key ≠ [] then run key st else st)
      | none => forEachFrom run i st

/-- `forEachKey`. -/
def forEachKey {σ : Type} (run : Key → Storage × σ → Storage × σ) (st : Storage × σ) :
    Storage × σ :=
  forEachFrom run st.1.length st

/-- The units a text is sorted by. -/
def utf16 (s : List Char) : List Nat :=
  s.flatMap fun c =>
    if c.toNat < 0x10000 then [c.toNat]
    else [0xD800 + (c.toNat - 0x10000) / 0x400, 0xDC00 + (c.toNat - 0x10000) % 0x400]

/-- The body of the loop of `orphanRecordNames`. -/
def noteOrphan (serial : List Char) (present : Finset (List Char)) (key : Key)
    (st : Storage × List (List Char)) : Storage × List (List Char) :=
  match nameOfKey key serial with
  | some name =>
      if name ≠ [] ∧ name ∉ present ∧ name ∉ st.2 then (st.1, st.2 ++ [name]) else st
  | none => st

/-- `orphanRecordNames`. -/
def orphanRecordNames (storage : Storage) (serial : List Char) (present : Finset (List Char)) :
    List (List Char) :=
  (forEachKey (noteOrphan serial present) (storage, [])).2.mergeSort
    fun a b => decide (utf16 a ≤ utf16 b)

/-- The body of the loop of `pruneHostedRecords`. -/
def pruneKey (serial : List Char) (gone : Finset (List Char)) (key : Key)
    (st : Storage × List Key) : Storage × List Key :=
  match nameOfKey key serial with
  | some name =>
      if name ≠ [] ∧ name ∈ gone then (st.1.erase key, st.2 ++ [key]) else st
  | none => st

/-- `pruneHostedRecords`: the storage it leaves, and the keys it removed. -/
def pruneHostedRecords (storage : Storage) (serial : List Char) (gone : Finset (List Char)) :
    Storage × List Key :=
  forEachKey (pruneKey serial gone) (storage, [])

/-! ### What is promised -/

/-- What is kept of a file. -/
inductive Kind where
  | note
  | args
  | stamp
  deriving DecidableEq

/-- A record: something kept of a file of a device. -/
structure Entry where
  serial : List Char
  name : List Char
  kind : Kind
  deriving DecidableEq

/-- The key a record is written under. -/
def Entry.key (r : Entry) : Key :=
  match r.kind with
  | .note => noteKey r.serial r.name
  | .args => launchKeyOf r.serial r.name ++ argsEnd
  | .stamp => launchKeyOf r.serial r.name ++ stampEnd

/-- The storage holds the records written, and any keys that are no record's. -/
structure Holds (storage : Storage) (written : Set Entry) : Prop where
  nodup : storage.Nodup
  mem_iff : ∀ r : Entry, r.key ∈ storage ↔ ∃ r' ∈ written, r'.key = r.key

/-- **Pruning removes exactly the records of the files named**, of one device. -/
structure PrunesExactly (storage : Storage) (written : Set Entry) (serial : List Char)
    (gone : Finset (List Char)) : Prop where
  own : ∀ r ∈ written, r.serial = serial → r.name ∈ gone →
    r.key ∉ (pruneHostedRecords storage serial gone).1
  others : ∀ r ∈ written, ¬ (r.serial = serial ∧ r.name ∈ gone) →
    r.key ∈ (pruneHostedRecords storage serial gone).1
  foreign : ∀ key ∈ storage, (∀ r : Entry, key ≠ r.key) →
    key ∈ (pruneHostedRecords storage serial gone).1
  removed : ∀ key, key ∈ (pruneHostedRecords storage serial gone).2 ↔
    key ∈ storage ∧ key ∉ (pruneHostedRecords storage serial gone).1

/-- **The list is of exactly the names** with a record of the device that are not present. -/
def ListsExactly (storage : Storage) (written : Set Entry) (serial : List Char)
    (present : Finset (List Char)) : Prop :=
  ∀ name, name ∈ orphanRecordNames storage serial present ↔
    (∃ r ∈ written, r.serial = serial ∧ r.name = name) ∧ name ∉ present

/-- The condition for pruning: no record of another device is spelled like one of the files named,
and none of those has an empty name. -/
def PrunesApart (written : Set Entry) (serial : List Char) (gone : Finset (List Char)) : Prop :=
  ∀ r ∈ written, if r.serial = serial then r.name ∈ gone → r.name ≠ []
    else ∀ name ∈ gone, name ≠ [] → spelled r.serial r.name ≠ spelled serial name

/-- The condition for listing: a record of another device is spelled like one of this device's
only where the name is present or has a record of this device, and a record of this device has an
empty name only where that is present. -/
def ListsApart (written : Set Entry) (serial : List Char) (present : Finset (List Char)) : Prop :=
  ∀ r ∈ written, if r.serial = serial then r.name = [] → [] ∈ present
    else ∀ name, name ≠ [] → spelled r.serial r.name = spelled serial name →
      name ∈ present ∨ ∃ r' ∈ written, r'.serial = serial ∧ r'.name = name

/-! ### Whose key it is -/

theorem spelled_inj_right {serial name name' : List Char} :
    spelled serial name = spelled serial name' ↔ name = name' := by
  simp [spelled]

theorem notePrefix_ne_launchPrefix (a b : List Char) : notePrefix ++ a ≠ launchPrefix ++ b := by
  have hnote : notePrefix = "adb.binary.".toList ++ 'n' :: "ote.".toList := by decide
  have hlaunch : launchPrefix = "adb.binary.".toList ++ 'l' :: "aunch.".toList := by decide
  intro h
  rw [hnote, hlaunch, List.append_assoc, List.append_assoc, List.append_cancel_left_eq] at h
  exact absurd (List.cons.inj h).1 (by decide)

theorem argsEnd_ne_stampEnd (a b : List Char) : a ++ argsEnd ≠ b ++ stampEnd := by
  intro h
  have hlast := congrArg List.getLast? h
  simp [argsEnd, stampEnd] at hlast

/-- Two records have one key when they are of one kind and spelled alike. -/
theorem Entry.key_eq_iff {r r' : Entry} :
    r.key = r'.key ↔
      r.kind = r'.kind ∧ spelled r.serial r.name = spelled r'.serial r'.name := by
  obtain ⟨serial, name, kind⟩ := r
  obtain ⟨serial', name', kind'⟩ := r'
  cases kind <;> cases kind' <;>
    simp [Entry.key, noteKey, launchKeyOf, notePrefix_ne_launchPrefix,
      (notePrefix_ne_launchPrefix _ _).symm, argsEnd_ne_stampEnd,
      (argsEnd_ne_stampEnd _ _).symm]

/-- A key is one of this device's of a name when it is the key of one of its records. -/
theorem nameOfKey_eq_some_iff {key : Key} {serial name : List Char} :
    nameOfKey key serial = some name ↔ ∃ kind, key = (Entry.mk serial name kind).key := by
  have hcases : ∀ kind, (Entry.mk serial name kind).key =
      match kind with
      | .note => notePrefix ++ spelled serial [] ++ name
      | .args => launchPrefix ++ spelled serial [] ++ (name ++ argsEnd)
      | .stamp => launchPrefix ++ spelled serial [] ++ (name ++ stampEnd) := by
    intro kind
    cases kind <;> simp [Entry.key, noteKey, launchKeyOf, spelled]
  unfold nameOfKey
  constructor
  · intro h
    split at h
    case h_1 rest hnote =>
      cases h
      exact ⟨.note, by rw [hcases, stripPrefix_eq_some_iff.mp hnote]⟩
    case h_2 hnote =>
      split at h
      case h_1 => cases h
      case h_2 rest hlaunch =>
        rw [stripPrefix_eq_some_iff.mp hlaunch]
        rcases Option.or_eq_some_iff.mp h with hargs | ⟨-, hstamp⟩
        · exact ⟨.args, by rw [hcases, stripSuffix_eq_some_iff.mp hargs]⟩
        · exact ⟨.stamp, by rw [hcases, stripSuffix_eq_some_iff.mp hstamp]⟩
  · rintro ⟨kind, rfl⟩
    have hlaunch : ∀ rest, stripPrefix (notePrefix ++ spelled serial [])
        (launchPrefix ++ spelled serial [] ++ rest) = none := by
      intro rest
      refine Option.eq_none_iff_forall_ne_some.mpr fun x hx => ?_
      rw [stripPrefix_eq_some_iff, List.append_assoc, List.append_assoc] at hx
      exact notePrefix_ne_launchPrefix _ _ hx.symm
    have hargs : stripSuffix argsEnd (name ++ stampEnd) = none :=
      Option.eq_none_iff_forall_ne_some.mpr fun x hx =>
        argsEnd_ne_stampEnd _ _ (stripSuffix_eq_some_iff.mp hx).symm
    cases kind with
    | note => simp only [hcases, stripPrefix_eq_some_iff.mpr rfl]
    | args =>
        simp only [hcases, hlaunch, stripPrefix_eq_some_iff.mpr rfl]
        simp [stripSuffix_eq_some_iff.mpr rfl]
    | stamp =>
        simp only [hcases, hlaunch, stripPrefix_eq_some_iff.mpr rfl, hargs]
        simp [stripSuffix_eq_some_iff.mpr rfl]

/-- A name is read from the key of a record when the record is spelled like one of it. -/
theorem nameOfKey_key_iff {r : Entry} {serial name : List Char} :
    nameOfKey r.key serial = some name ↔ spelled r.serial r.name = spelled serial name := by
  simp only [nameOfKey_eq_some_iff, Entry.key_eq_iff]
  exact ⟨fun ⟨_, _, h⟩ => h, fun h => ⟨r.kind, rfl, h⟩⟩

/-! ### The enumeration -/

/-- Positions of keys that are there are looked at from the back, so that what is removed only
shifts what was looked at. -/
theorem forEachFrom_prune {p : Key → Bool} {run : Key → Storage × List Key → Storage × List Key}
    (hrun : ∀ key st, run key st = if p key then (st.1.erase key, st.2 ++ [key]) else st)
    (hempty : p [] = false) (front rest : Storage) (out : List Key)
    (hnodup : (front ++ rest).Nodup) :
    forEachFrom run front.length (front ++ rest, out) =
      (front.filter (fun key => !p key) ++ rest, out ++ (front.filter p).reverse) := by
  induction front using List.reverseRecOn generalizing rest out with
  | nil => simp [forEachFrom]
  | append_singleton front key ih =>
      have hskip : (if key ≠ [] then run key (front ++ [key] ++ rest, out)
          else (front ++ [key] ++ rest, out)) =
          if p key then (front ++ rest, out ++ [key]) else (front ++ ([key] ++ rest), out) := by
        have hfresh : key ∉ front := by
          have h := (List.nodup_append.mp (List.nodup_append.mp hnodup).1).2.2
          exact fun hmem => h key hmem key (by simp) rfl
        by_cases hne : key = []
        · simp [hne, hempty]
        · by_cases hp : p key = true
          · simp [hne, hrun, hp, List.erase_append_right _ hfresh]
          · simp [hne, hrun, hp]
      have hget : (front ++ [key] ++ rest)[front.length]? = some key := by simp
      rw [List.length_append, List.length_singleton, forEachFrom]
      simp only [hget, hskip]
      rw [List.append_assoc] at hnodup
      by_cases hp : p key = true
      · have hsub : (front ++ rest).Nodup :=
          hnodup.sublist (List.Sublist.append_left (List.sublist_append_right _ _) _)
        rw [if_pos hp, ih rest _ hsub]
        simp [hp]
      · rw [if_neg hp, ih ([key] ++ rest) out hnodup]
        simp [hp]

/-- The key is of a file of this device that is in `gone`. -/
def Doomed (serial : List Char) (gone : Finset (List Char)) (key : Key) : Prop :=
  ∃ name, nameOfKey key serial = some name ∧ name ≠ [] ∧ name ∈ gone

instance (serial : List Char) (gone : Finset (List Char)) :
    DecidablePred (Doomed serial gone) := fun key =>
  match h : nameOfKey key serial with
  | some name => decidable_of_iff (name ≠ [] ∧ name ∈ gone) (by simp [Doomed, h])
  | none => isFalse (by simp [Doomed, h])

theorem pruneKey_eq (serial : List Char) (gone : Finset (List Char)) (key : Key)
    (st : Storage × List Key) :
    pruneKey serial gone key st =
      if decide (Doomed serial gone key) then (st.1.erase key, st.2 ++ [key]) else st := by
  unfold pruneKey
  cases h : nameOfKey key serial <;> simp [Doomed, h]

/-- The empty key, which the enumeration passes over, is of no file. -/
theorem nameOfKey_nil (serial : List Char) : nameOfKey [] serial = none := by
  refine Option.eq_none_iff_forall_ne_some.mpr fun name hname => ?_
  obtain ⟨kind, hkey⟩ := nameOfKey_eq_some_iff.mp hname
  cases kind <;> simp [Entry.key, noteKey, launchKeyOf, spelled] at hkey

theorem not_doomed_nil (serial : List Char) (gone : Finset (List Char)) :
    ¬ Doomed serial gone [] := by
  simp [Doomed, nameOfKey_nil]

/-- Pruning is a filter. -/
theorem pruneHostedRecords_eq {storage : Storage} (hnodup : storage.Nodup) (serial : List Char)
    (gone : Finset (List Char)) :
    pruneHostedRecords storage serial gone =
      (storage.filter fun key => !decide (Doomed serial gone key),
        (storage.filter fun key => decide (Doomed serial gone key)).reverse) := by
  have h := forEachFrom_prune (pruneKey_eq serial gone)
    (decide_eq_false (not_doomed_nil serial gone)) storage [] [] (by simpa using hnodup)
  simpa [pruneHostedRecords, forEachKey] using h

theorem mem_pruned_iff {storage : Storage} (hnodup : storage.Nodup) {serial : List Char}
    {gone : Finset (List Char)} {key : Key} :
    key ∈ (pruneHostedRecords storage serial gone).1 ↔
      key ∈ storage ∧ ¬ Doomed serial gone key := by
  simp [pruneHostedRecords_eq hnodup]

theorem doomed_key_iff {serial : List Char} {gone : Finset (List Char)} {r : Entry} :
    Doomed serial gone r.key ↔
      ∃ name ∈ gone, name ≠ [] ∧ spelled r.serial r.name = spelled serial name := by
  simp only [Doomed, nameOfKey_key_iff]
  exact ⟨fun ⟨name, hs, hne, hg⟩ => ⟨name, hg, hne, hs⟩,
    fun ⟨name, hg, hne, hs⟩ => ⟨name, hs, hne, hg⟩⟩

theorem noteOrphan_spec (serial : List Char) (present : Finset (List Char)) (key : Key)
    (storage : Storage) (found : List (List Char)) :
    ∃ found', noteOrphan serial present key (storage, found) = (storage, found') ∧
      ∀ name, name ∈ found' ↔
        name ∈ found ∨ name ≠ [] ∧ name ∉ present ∧ nameOfKey key serial = some name := by
  unfold noteOrphan
  cases h : nameOfKey key serial with
  | none => exact ⟨found, rfl, by simp⟩
  | some own =>
      by_cases hnew : own ≠ [] ∧ own ∉ present ∧ own ∉ found
      · refine ⟨found ++ [own], if_pos hnew, fun name => ?_⟩
        simp only [List.mem_append, List.mem_singleton, Option.some.injEq]
        constructor
        · rintro (hmem | rfl)
          · exact .inl hmem
          · exact .inr ⟨hnew.1, hnew.2.1, rfl⟩
        · rintro (hmem | ⟨-, -, rfl⟩)
          · exact .inl hmem
          · exact .inr rfl
      · refine ⟨found, if_neg hnew, fun name => ⟨.inl, ?_⟩⟩
        rintro (hmem | ⟨hne, hpresent, hname⟩)
        · exact hmem
        · cases hname
          exact not_not.mp fun hfound => hnew ⟨hne, hpresent, hfound⟩

/-- What the loop of `orphanRecordNames` has found. -/
theorem mem_forEachFrom_noteOrphan {serial : List Char} {present : Finset (List Char)}
    (storage : Storage) (name : List Char) (i : Nat) (hi : i ≤ storage.length)
    (found : List (List Char)) :
    name ∈ (forEachFrom (noteOrphan serial present) i (storage, found)).2 ↔
      name ∈ found ∨ name ≠ [] ∧ name ∉ present ∧
        ∃ key ∈ storage.take i, nameOfKey key serial = some name := by
  induction i generalizing found with
  | zero => simp [forEachFrom]
  | succ i ih =>
      have hget : storage[i]? = some storage[i] := List.getElem?_eq_getElem hi
      have htake : storage.take (i + 1) = storage.take i ++ [storage[i]] :=
        (List.take_append_getElem hi).symm
      simp only [forEachFrom, hget]
      obtain ⟨found', hstep, hfound⟩ : ∃ found',
          (if storage[i] ≠ [] then noteOrphan serial present storage[i] (storage, found)
            else (storage, found)) = (storage, found') ∧
          ∀ name, name ∈ found' ↔ name ∈ found ∨
            name ≠ [] ∧ name ∉ present ∧ nameOfKey storage[i] serial = some name := by
        by_cases hne : storage[i] = []
        · exact ⟨found, by simp [hne], by simp [hne, nameOfKey_nil]⟩
        · rw [if_pos hne]
          exact noteOrphan_spec serial present storage[i] storage found
      rw [hstep, ih (Nat.le_of_succ_le hi), hfound, htake]
      simp only [List.mem_append, List.mem_singleton]
      constructor
      · rintro ((hmem | ⟨hne, hpresent, hname⟩) | ⟨hne, hpresent, key, hkey, hname⟩)
        · exact .inl hmem
        · exact .inr ⟨hne, hpresent, _, .inr rfl, hname⟩
        · exact .inr ⟨hne, hpresent, key, .inl hkey, hname⟩
      · rintro (hmem | ⟨hne, hpresent, key, hkey | rfl, hname⟩)
        · exact .inl (.inl hmem)
        · exact .inr ⟨hne, hpresent, key, hkey, hname⟩
        · exact .inl (.inr ⟨hne, hpresent, hname⟩)

theorem mem_orphanRecordNames {storage : Storage} {serial name : List Char}
    {present : Finset (List Char)} :
    name ∈ orphanRecordNames storage serial present ↔
      name ≠ [] ∧ name ∉ present ∧ ∃ key ∈ storage, nameOfKey key serial = some name := by
  rw [orphanRecordNames, List.mem_mergeSort, forEachKey,
    mem_forEachFrom_noteOrphan storage name _ le_rfl]
  simp

/-! ### What becomes of the records -/

variable {storage : Storage} {written : Set Entry} {serial : List Char}

theorem prunesExactly_iff (hholds : Holds storage written) (gone : Finset (List Char)) :
    PrunesExactly storage written serial gone ↔ PrunesApart written serial gone := by
  have hin : ∀ r ∈ written, r.key ∈ storage := fun r hr => (hholds.mem_iff r).mpr ⟨r, hr, rfl⟩
  constructor
  · intro h r hr
    by_cases hserial : r.serial = serial
    · rw [if_pos hserial]
      intro hgone hname
      refine h.own r hr hserial hgone ((mem_pruned_iff hholds.nodup).mpr ⟨hin r hr, ?_⟩)
      rw [doomed_key_iff]
      rintro ⟨name, -, hne, hs⟩
      rw [hserial, spelled_inj_right] at hs
      exact hne (hs.symm.trans hname)
    · rw [if_neg hserial]
      intro name hgone hne hs
      have hkept := h.others r hr (fun hmine => hserial hmine.1)
      exact ((mem_pruned_iff hholds.nodup).mp hkept).2
        (doomed_key_iff.mpr ⟨name, hgone, hne, hs⟩)
  · intro h
    refine ⟨fun r hr hserial hgone hkept => ?_, fun r hr hother => ?_, fun key hkey hforeign => ?_,
      fun key => ?_⟩
    · have hne := h r hr
      rw [if_pos hserial] at hne
      exact ((mem_pruned_iff hholds.nodup).mp hkept).2
        (doomed_key_iff.mpr ⟨r.name, hgone, hne hgone, by rw [hserial]⟩)
    · refine (mem_pruned_iff hholds.nodup).mpr ⟨hin r hr, ?_⟩
      rw [doomed_key_iff]
      rintro ⟨name, hgone, hne, hs⟩
      have happart := h r hr
      by_cases hserial : r.serial = serial
      · rw [hserial, spelled_inj_right] at hs
        exact hother ⟨hserial, hs ▸ hgone⟩
      · rw [if_neg hserial] at happart
        exact happart name hgone hne hs
    · refine (mem_pruned_iff hholds.nodup).mpr ⟨hkey, ?_⟩
      rintro ⟨name, hname, -⟩
      obtain ⟨kind, hkind⟩ := nameOfKey_eq_some_iff.mp hname
      exact hforeign _ hkind
    · rw [mem_pruned_iff hholds.nodup, pruneHostedRecords_eq hholds.nodup]
      simp only [List.mem_reverse, List.mem_filter, decide_eq_true_eq]
      tauto

theorem listsExactly_iff (hholds : Holds storage written) (present : Finset (List Char)) :
    ListsExactly storage written serial present ↔ ListsApart written serial present := by
  have hmem : ∀ name, name ∈ orphanRecordNames storage serial present ↔
      name ≠ [] ∧ name ∉ present ∧
        ∃ r ∈ written, spelled r.serial r.name = spelled serial name := by
    intro name
    rw [mem_orphanRecordNames]
    refine and_congr_right fun _ => and_congr_right fun _ => ⟨?_, ?_⟩
    · rintro ⟨key, hkey, hname⟩
      obtain ⟨kind, rfl⟩ := nameOfKey_eq_some_iff.mp hname
      obtain ⟨r, hr, hsame⟩ := (hholds.mem_iff _).mp hkey
      exact ⟨r, hr, (Entry.key_eq_iff.mp hsame).2⟩
    · rintro ⟨r, hr, hs⟩
      exact ⟨r.key, (hholds.mem_iff r).mpr ⟨r, hr, rfl⟩, nameOfKey_key_iff.mpr hs⟩
  constructor
  · intro h r hr
    by_cases hserial : r.serial = serial
    · rw [if_pos hserial]
      intro hname
      by_contra hpresent
      have hlisted := (h []).mpr ⟨⟨r, hr, hserial, hname⟩, hpresent⟩
      exact ((hmem []).mp hlisted).1 rfl
    · rw [if_neg hserial]
      intro name hne hs
      by_cases hpresent : name ∈ present
      · exact .inl hpresent
      · exact .inr ((h name).mp ((hmem name).mpr ⟨hne, hpresent, r, hr, hs⟩)).1
  · intro h name
    rw [hmem]
    constructor
    · rintro ⟨hne, hpresent, r, hr, hs⟩
      refine ⟨?_, hpresent⟩
      by_cases hserial : r.serial = serial
      · rw [hserial, spelled_inj_right] at hs
        exact ⟨r, hr, hserial, hs⟩
      · have happart := h r hr
        rw [if_neg hserial] at happart
        exact (happart name hne hs).resolve_left hpresent
    · rintro ⟨⟨r, hr, hserial, rfl⟩, hpresent⟩
      have hname := h r hr
      rw [if_pos hserial] at hname
      exact ⟨fun hnil => hpresent (hnil ▸ hname hnil), hpresent, r, hr, by rw [hserial]⟩

/-- **Records are kept apart by their keys**: pruning removes exactly the records of the named
files of one device, and the list is of exactly the names not present, when and only when no
record of another device is spelled like one of them, and no name among them is empty. -/
theorem records_kept_apart (storage : Storage) (written : Set Entry)
    (hholds : Holds storage written) (serial : List Char) (gone present : Finset (List Char)) :
    (PrunesExactly storage written serial gone ↔ PrunesApart written serial gone) ∧
      (ListsExactly storage written serial present ↔ ListsApart written serial present) :=
  ⟨prunesExactly_iff hholds gone, listsExactly_iff hholds present⟩

/-- A note of the file `x` of the device `a.b`. -/
def otherNote : Entry := ⟨"a.b".toList, "x".toList, .note⟩

theorem holds_single (r : Entry) : Holds [r.key] {r} where
  nodup := List.nodup_singleton _
  mem_iff r' := by simp [eq_comm]

theorem records_kept_apart_note :
    (PrunesExactly [otherNote.key] {otherNote} ['a'] {['y']} ↔
        PrunesApart {otherNote} ['a'] {['y']}) ∧
      (ListsExactly [otherNote.key] {otherNote} ['a'] ∅ ↔ ListsApart {otherNote} ['a'] ∅) :=
  records_kept_apart _ _ (holds_single otherNote) _ _ _

/-- Pruning the file `b.x` of the device `a` deletes the note of the file `x` of the device
`a.b`. -/
theorem other_device_loses_note :
    ¬ ∀ (storage : Storage) (written : Set Entry), Holds storage written →
      ∀ (serial : List Char) (gone present : Finset (List Char)),
        PrunesExactly storage written serial gone ∧
          ListsExactly storage written serial present := by
  intro h
  have hkept := (h _ _ (holds_single otherNote) ['a'] {"b.x".toList} ∅).1.others otherNote rfl
    (fun hmine => absurd hmine.1 (by decide))
  exact absurd hkept (by decide)

end RevBox.HostedRecords
