import Mathlib.Data.List.Nodup
import Mathlib.Data.List.Perm.Basic
import RevBox.Desktop.ApkBundleZip

/-!
# Desktop — ApkBundleInstall

A container that `write_bundle` wrote, unpacked by `extract_bundle`: when every part comes out as
one file of its own (`loses_nothing_iff`).

The writer names an entry by `sanitize`, the unpacker takes a name by `safe_entry_name` and only if
it ends in `.apk`; an empty entry is refused by the unpacker alone.
-/

namespace RevBox.ApkBundle

open Checksum Records Results

/-! ### Files that are written one after the other -/

/-- A path with the content it is given. -/
abbrev Written := List Char × List UInt8

/-- Files are created one after the other. -/
def Host.writeAll (host : Host) (ws : List Written) : Host :=
  ws.foldl (fun host w => host.write w.1 w.2) host

section WriteAll

variable {host : Host} {ws : List Written} {path : List Char} {data : List UInt8}

theorem Host.writeAll_cons (w : Written) :
    host.writeAll (w :: ws) = (host.write w.1 w.2).writeAll ws := rfl

/-- A path that is not written keeps its file. -/
theorem Host.files_writeAll_of_not_mem (h : path ∉ ws.map Prod.fst) :
    (host.writeAll ws).files path = host.files path := by
  induction ws generalizing host with
  | nil => rfl
  | cons w ws ih =>
      rw [List.map_cons, List.mem_cons, not_or] at h
      rw [Host.writeAll_cons, ih h.2]
      exact if_neg h.1

/-- A path that is written once has what it was given. -/
theorem Host.files_writeAll_of_mem (hnodup : (ws.map Prod.fst).Nodup) (h : (path, data) ∈ ws) :
    (host.writeAll ws).files path = some data := by
  induction ws generalizing host with
  | nil => cases h
  | cons w ws ih =>
      rw [List.map_cons, List.nodup_cons] at hnodup
      rw [Host.writeAll_cons]
      rcases List.mem_cons.mp h with rfl | hrest
      · rw [Host.files_writeAll_of_not_mem hnodup.1]
        exact if_pos rfl
      · exact ih hnodup.2 hrest

end WriteAll

/-! ### Paths in the directory -/

/-- A name that does not begin with a slash is put after the directory. -/
theorem join_eq {dir name : List Char} (h : name.head? ≠ some '/') :
    join dir name = join dir [] ++ name := by
  have hnil : ([] : List Char).head? ≠ some '/' := nofun
  rw [join, join, if_neg h, if_neg hnil]
  split
  · rw [List.append_nil]
  · rw [List.append_assoc]
    rfl

theorem head_of_isSafeName {name : List Char} (h : isSafeName name = true) :
    name.head? ≠ some '/' := by
  intro hhead
  have hmem := List.mem_of_mem_head? (Option.mem_def.mpr hhead)
  simp only [isSafeName, Bool.and_eq_true, Bool.not_eq_true'] at h
  have hno := h.1.1.1.2
  rw [List.contains_eq_mem, decide_eq_false_iff_not] at hno
  exact hno hmem

/-- Different names are different paths. -/
theorem nodup_paths_iff {dir : List Char} {names : List (List Char)}
    (h : ∀ name ∈ names, isSafeName name = true) :
    (names.map (join dir)).Nodup ↔ names.Nodup := by
  refine ⟨List.Nodup.of_map _, List.Nodup.map_on fun x hx y hy heq => ?_⟩
  rw [join_eq (head_of_isSafeName (h x hx)), join_eq (head_of_isSafeName (h y hy))] at heq
  exact List.append_cancel_left heq

/-! ### What is unpacked -/

/-- An entry may be unpacked. -/
structure BundleEntry.Sound (entry : BundleEntry) : Prop where
  safe : isSafeName entry.name = true
  filled : entry.size ≠ 0

theorem checkEntry_ok_iff {entry : BundleEntry} : checkEntry entry = .ok () ↔ entry.Sound := by
  simp only [checkEntry, bind_eq_ok_iff, safeEntryName, internal, require_eq_ok_iff,
    guard_eq_ok_iff]
  constructor
  · rintro ⟨_, ⟨hsafe, -⟩, hsize, -⟩
    exact ⟨hsafe, hsize⟩
  · rintro ⟨hsafe, hsize⟩
    exact ⟨_, ⟨hsafe, rfl⟩, hsize, trivial⟩

theorem checks_ok_iff {entries : List BundleEntry} :
    entries.forM checkEntry = .ok () ↔ ∀ entry ∈ entries, entry.Sound := by
  induction entries with
  | nil => exact iff_of_true rfl fun _ h => nomatch h
  | cons entry rest ih =>
      rw [List.forall_mem_cons, ← ih, ← checkEntry_ok_iff]
      constructor
      · intro h
        obtain ⟨_, hentry, hrest⟩ := bind_eq_ok_iff.mp h
        exact ⟨hentry, hrest⟩
      · exact fun h => bind_eq_ok_iff.mpr ⟨(), h.1, h.2⟩

/-- The entries that count as APKs. -/
def apksOf (entries : List BundleEntry) : List BundleEntry :=
  entries.filter fun entry => isApk entry.name

theorem installable_ok_iff {sourcePath : List Char} {entries apks : List BundleEntry} :
    installable sourcePath entries = .ok apks ↔ apksOf entries ≠ [] ∧
      (∀ entry ∈ apksOf entries, entry.Sound) ∧
      apks = (apksOf entries).mergeSort fun left right => nameLe left.name right.name := by
  simp only [installable, internal, guard_eq_ok_iff, bind_eq_ok_iff, Except.ok.injEq]
  constructor
  · rintro ⟨hne, _, hchecks, rfl⟩
    exact ⟨hne, checks_ok_iff.mp hchecks, rfl⟩
  · rintro ⟨hne, hsound, rfl⟩
    exact ⟨hne, (), checks_ok_iff.mpr hsound, rfl⟩

/-- The entry is streamed out as some bytes, wherever it is put. -/
def Streams (H : Hasher) (source : List UInt8) (entry : BundleEntry) (data : List UInt8) : Prop :=
  ∀ (target : List Char) (host : Host),
    streamEntryToFile H source entry target host = (.ok (), host.write target data)

variable {H : Hasher} {source : List UInt8} {workdir : List Char}

/-- **A run of entries that stream out writes them all**, in order. -/
theorem extractEach_streams {entries : List BundleEntry} {contents : List (List UInt8)}
    (h : List.Forall₂ (Streams H source) entries contents) (out : List (List Char)) (host : Host) :
    extractEach H source workdir entries out host =
      (.ok (out ++ entries.map fun entry => join workdir entry.name),
        host.writeAll ((entries.map fun entry => join workdir entry.name).zip contents)) := by
  induction h generalizing out host with
  | nil => rw [List.map_nil, List.append_nil]; rfl
  | cons hentry hrest ih =>
      rw [extractEach, hentry]
      dsimp only
      rw [ih, List.map_cons, List.append_assoc, List.singleton_append, List.zip_cons_cons,
        Host.writeAll_cons]

/-- A run that succeeds names every entry's path. -/
theorem paths_of_extractEach {entries : List BundleEntry} {out res : List (List Char)}
    {host host' : Host} (h : extractEach H source workdir entries out host = (.ok res, host')) :
    res = out ++ entries.map fun entry => join workdir entry.name := by
  induction entries generalizing out host with
  | nil =>
      cases h
      exact (List.append_nil _).symm
  | cons entry rest ih =>
      rw [extractEach] at h
      split at h
      · cases h
      · rw [ih h, List.map_cons, List.append_assoc, List.singleton_append]

/-! ### What was written -/

/-- The name of a part in the container. -/
def PulledPart.entryName (part : PulledPart) : List Char := sanitize part.name maxPartNameBytes

/-- A part as an item. -/
def PulledPart.item (part : PulledPart) : Item := .file part.entryName part

theorem putParts_ok_iff {files : Files} {now : UInt16 × UInt16} {parts : List PulledPart}
    {w : Writer} {offset : Nat} {r : Writer × Nat} :
    putParts H files now parts w offset = .ok r ↔ (∀ part ∈ parts, part.entryName ≠ []) ∧
      putAll H files now (parts.map PulledPart.item) w offset = .ok r := by
  induction parts generalizing w offset with
  | nil => exact ⟨fun h => ⟨List.forall_mem_nil _, h⟩, And.right⟩
  | cons part rest ih =>
      simp only [putParts, internal, guard_eq_ok_iff, bind_eq_ok_iff, ih, List.forall_mem_cons,
        List.map_cons, putAll, PulledPart.item, put]
      constructor
      · rintro ⟨hname, scanned, hscan, next, hput, hnames, hrest⟩
        exact ⟨⟨hname, hnames⟩, next, ⟨scanned, hscan, hput⟩, hrest⟩
      · rintro ⟨⟨hname, hnames⟩, next, ⟨scanned, hscan, hput⟩, hrest⟩
        exact ⟨hname, scanned, hscan, next, hput, hnames, hrest⟩

/-- The parts in the order of the container. -/
def ordered (parts : List PulledPart) : List PulledPart :=
  parts.mergeSort fun left right => nameLe left.name right.name

/-- The items of a container. -/
def itemsOf (metaV2 metaV1 : List Char) (parts : List PulledPart) : List Item :=
  .bytes saiMetaV2 (Utf8.encode metaV2) :: .bytes saiMetaV1 (Utf8.encode metaV1) ::
    (ordered parts).map PulledPart.item

theorem sameEntry_iff {written : ZipEntry} {readBack : BundleEntry} :
    sameEntry written readBack = true ↔ readBack = written.listed := by
  rw [sameEntry, decide_eq_true_iff]
  obtain ⟨name, size, crc, offset⟩ := readBack
  simp only [ZipEntry.listed, BundleEntry.mk.injEq, eq_comm]

/-- The check after writing passes if the entries are read back as they were written. -/
theorem check_iff {entries : List ZipEntry} {readBack : List BundleEntry} :
    (readBack.length = entries.length ∧ (entries.zip readBack).find?
      (fun (written, readBack) => !sameEntry written readBack) = none) ↔
    readBack = entries.map ZipEntry.listed := by
  induction entries generalizing readBack with
  | nil => simp
  | cons entry entries ih =>
      cases readBack with
      | nil => simp
      | cons e readBack =>
          rw [List.map_cons, List.cons.injEq, ← ih, ← sameEntry_iff, List.zip_cons_cons,
            List.find?_cons, List.length_cons, List.length_cons, Nat.add_right_cancel_iff]
          by_cases hsame : sameEntry entry e = true
          · simp [hsame]
          · simp [hsame]

/-- **A container is written if its items can be put and its directory reads back.** -/
theorem writeBundle_ok_iff {files : Files} {now : UInt16 × UInt16} {metaV2 metaV1 : List Char}
    {parts : List PulledPart} {zip : List UInt8} :
    writeBundle H files metaV2 metaV1 now parts = .ok zip ↔
      (∀ part ∈ parts, part.entryName ≠ []) ∧ ∃ w offset finish,
        putAll H files now (itemsOf metaV2 metaV1 parts) ⟨[], []⟩ 0 = .ok (w, offset) ∧
        finishZip w.entries offset = .ok finish ∧
        readBundle (w.out ++ finish) = .ok (w.entries.map ZipEntry.listed) ∧
        zip = w.out ++ finish := by
  have hperm : ∀ part, part ∈ ordered parts ↔ part ∈ parts :=
    fun part => (List.mergeSort_perm _ _).mem_iff
  have hnames : (∀ part ∈ ordered parts, part.entryName ≠ []) ↔
      ∀ part ∈ parts, part.entryName ≠ [] := by simp only [hperm]
  simp only [writeBundle, bind_eq_ok_iff, putParts_ok_iff, itemsOf, putAll, put, internal,
    guard_eq_ok_iff, ← hnames]
  constructor
  · rintro ⟨next, hv2, next', hv1, ⟨w, offset⟩, ⟨hne, hparts⟩, finish, hfinish, readBack, hread,
      hlen, hcheck⟩
    dsimp only at hlen hcheck
    split at hcheck
    · cases hcheck
    · next hfind =>
        cases hcheck
        have hsame := check_iff.mp ⟨not_not.mp hlen, hfind⟩
        rw [hsame] at hread
        exact ⟨hne, w, offset, finish, ⟨next, hv2, next', hv1, hparts⟩, hfinish, hread, rfl⟩
  · rintro ⟨hne, w, offset, finish, ⟨next, hv2, next', hv1, hparts⟩, hfinish, hread, rfl⟩
    obtain ⟨hlen, hfind⟩ := check_iff.mpr (rfl : w.entries.map ZipEntry.listed = _)
    refine ⟨next, hv2, next', hv1, (w, offset), ⟨hne, hparts⟩, finish, hfinish, _, hread,
      not_not.mpr hlen, ?_⟩
    rw [hfind]

/-! ### Every part, once -/

/-- The entry stands for the part. -/
structure Carries (H : Hasher) (files : Files) (zip : List UInt8) (entry : BundleEntry)
    (part : PulledPart) : Prop where
  name : entry.name = part.entryName
  size : entry.size = part.size
  streams : ∃ data, files part.path = .ok data ∧ Streams H zip entry data

/-- Nothing is lost: every part comes out as one file with its bytes, each at a path of its own. -/
def LosesNothing (H : Hasher) (files : Files) (zip : List UInt8) (parts : List PulledPart) : Prop :=
  ∀ (sourcePath workdir : List Char) (host : Host), ∃ out host',
    extractBundle H sourcePath zip workdir host = (.ok out, host') ∧ out.Nodup ∧
    ∃ found, found.Perm parts ∧ List.Forall₂ (fun path part => ∃ data,
      files part.path = .ok data ∧ host'.files path = some data) out found

/-- Every part has an entry that the unpacker takes, under a name of its own. -/
structure Kept (parts : List PulledPart) : Prop where
  taken : ∀ part ∈ parts, isSafeName part.entryName = true ∧ isApk part.entryName = true
  filled : ∀ part ∈ parts, part.size ≠ 0
  distinct : (parts.map PulledPart.entryName).Nodup

variable {files : Files} {now : UInt16 × UInt16} {metaV2 metaV1 : List Char}
  {parts : List PulledPart} {zip : List UInt8}

/-- The directory of a written container: the metadata, and an entry for each part. -/
theorem entries_of_write (h : writeBundle H files metaV2 metaV1 now parts = .ok zip) :
    ∃ metas entries, readBundle zip = .ok (metas ++ entries) ∧ apksOf metas = [] ∧
      List.Forall₂ (Carries H files zip) entries (ordered parts) := by
  obtain ⟨-, w, offset, finish, hput, hfinish, hread, rfl⟩ := writeBundle_ok_iff.mp h
  have hback := readsBack_of_put hput hfinish
  rw [itemsOf, List.forall₂_cons_right_iff] at hback
  obtain ⟨v2, rest, ⟨-, -, hv2, -⟩, hback, hentries⟩ := hback
  obtain ⟨v1, rest, ⟨-, -, hv1, -⟩, hparts, rfl⟩ := List.forall₂_cons_right_iff.mp hback
  rw [List.forall₂_map_right_iff] at hparts
  refine ⟨[v2.listed, v1.listed], rest.map ZipEntry.listed, ?_, ?_, ?_⟩
  · rw [hread, hentries]
    rfl
  · have hv2' : isApk v2.listed.name = false :=
      (congrArg isApk hv2).trans (show isApk saiMetaV2 = false by decide)
    have hv1' : isApk v1.listed.name = false :=
      (congrArg isApk hv1).trans (show isApk saiMetaV1 = false by decide)
    simp only [apksOf, List.filter_cons, hv2', hv1', Bool.false_eq_true, if_false, List.filter_nil]
  · rw [List.forall₂_map_left_iff]
    refine hparts.imp fun entry part ⟨data, hdata, hname, hsize, _, hstream⟩ => ?_
    obtain ⟨hopen, hlen⟩ := data_file_eq_some_iff.mp hdata
    exact ⟨hname, hsize.trans hlen, data, hopen, hstream⟩

/-- The content of a part. -/
def contentOf (files : Files) (part : PulledPart) : List UInt8 :=
  match files part.path with
  | .ok data => data
  | .error _ => []

theorem Carries.content {entry : BundleEntry} {part : PulledPart}
    (h : Carries H files zip entry part) : files part.path = .ok (contentOf files part) ∧
      Streams H zip entry (contentOf files part) := by
  obtain ⟨data, hopen, hstreams⟩ := h.streams
  rw [contentOf, hopen]
  exact ⟨rfl, hstreams⟩

theorem extractBundle_eq {sourcePath : List Char} {host : Host} {entries apks : List BundleEntry}
    {contents : List (List UInt8)} (hread : readBundle zip = .ok entries)
    (happly : installable sourcePath entries = .ok apks)
    (hstreams : List.Forall₂ (Streams H zip) apks contents) :
    extractBundle H sourcePath zip workdir host =
      (.ok (apks.map fun entry => join workdir entry.name),
        host.writeAll ((apks.map fun entry => join workdir entry.name).zip contents)) := by
  rw [extractBundle, hread, ok_bind, happly]
  exact extractEach_streams hstreams [] host

/-- The entries that stand for the parts come sorted with the parts. -/
theorem carries_sorted {entries : List BundleEntry}
    (h : List.Forall₂ (Carries H files zip) entries (ordered parts)) :
    ∃ found, found.Perm parts ∧ List.Forall₂ (Carries H files zip)
      (entries.mergeSort fun left right => nameLe left.name right.name) found := by
  obtain ⟨found, hfound, hperm⟩ := List.perm_comp_forall₂ (List.mergeSort_perm entries _) h
  exact ⟨found, hperm.trans (List.mergeSort_perm parts _), hfound⟩

/-- The names of the entries are those of the parts. -/
theorem names_of_carries {entries : List BundleEntry} {found : List PulledPart}
    (h : List.Forall₂ (Carries H files zip) entries found) :
    entries.map BundleEntry.name = found.map PulledPart.entryName := by
  induction h with
  | nil => rfl
  | cons hentry _ ih => rw [List.map_cons, List.map_cons, hentry.name, ih]

theorem nodup_names_iff (workdir : List Char) {found : List PulledPart}
    {entries : List BundleEntry}
    (hfound : List.Forall₂ (Carries H files zip) entries found) (hperm : found.Perm parts)
    (hsound : ∀ entry ∈ entries, entry.Sound) :
    (entries.map fun entry => join workdir entry.name).Nodup ↔
      (parts.map PulledPart.entryName).Nodup := by
  have hpaths : (entries.map fun entry => join workdir entry.name) =
      (entries.map BundleEntry.name).map (join workdir) := by
    rw [List.map_map]
    rfl
  rw [hpaths, nodup_paths_iff, names_of_carries hfound, (hperm.map _).nodup_iff]
  intro name hname
  obtain ⟨entry, hentry, rfl⟩ := List.mem_map.mp hname
  exact (hsound entry hentry).safe

/-- Every part that is kept comes out. -/
theorem losesNothing_of_kept (hne : parts ≠ [])
    (h : writeBundle H files metaV2 metaV1 now parts = .ok zip) (hkept : Kept parts) :
    LosesNothing H files zip parts := by
  intro sourcePath workdir host
  obtain ⟨metas, entries, hread, hmetas, hcarries⟩ := entries_of_write h
  obtain ⟨found, hperm, hfound⟩ := carries_sorted hcarries
  have hpart : ∀ entry ∈ entries, ∃ part ∈ parts, Carries H files zip entry part := by
    intro entry hentry
    obtain ⟨part, hmem, hc⟩ := exists_of_forall₂ hcarries entry hentry
    exact ⟨part, (List.mergeSort_perm parts _).mem_iff.mp hmem, hc⟩
  have hapks : apksOf (metas ++ entries) = entries := by
    rw [apksOf, List.filter_append, ← apksOf, hmetas, List.nil_append, List.filter_eq_self]
    intro entry hentry
    obtain ⟨part, hmem, hc⟩ := hpart entry hentry
    rw [hc.name]
    exact (hkept.taken part hmem).2
  have hsound : ∀ entry ∈ entries, entry.Sound := by
    intro entry hentry
    obtain ⟨part, hmem, hc⟩ := hpart entry hentry
    exact ⟨hc.name ▸ (hkept.taken part hmem).1, hc.size ▸ hkept.filled part hmem⟩
  have hsorted : ∀ entry ∈ entries.mergeSort fun left right => nameLe left.name right.name,
      entry.Sound := fun entry hentry => hsound entry ((List.mergeSort_perm _ _).mem_iff.mp hentry)
  have hfilled : entries ≠ [] := by
    intro hnil
    rw [hnil, List.mergeSort_nil] at hfound
    cases hfound
    exact hne hperm.symm.eq_nil
  have happly : installable sourcePath (metas ++ entries) =
      .ok (entries.mergeSort fun left right => nameLe left.name right.name) := by
    rw [installable_ok_iff, hapks]
    exact ⟨hfilled, hsound, rfl⟩
  have hstreams := List.forall₂_map_right_iff.mpr (hfound.imp fun _ _ hc => hc.content.2)
  have hnodup := (nodup_names_iff workdir hfound hperm hsorted).mpr hkept.distinct
  refine ⟨_, _, extractBundle_eq hread happly hstreams, hnodup, found, hperm, ?_⟩
  rw [List.forall₂_iff_zip, List.length_map]
  refine ⟨hfound.length_eq, fun {path part} hmem => ?_⟩
  obtain ⟨entry, -, hc⟩ := exists_of_forall₂ hfound.flip part (List.of_mem_zip hmem).2
  refine ⟨contentOf files part, hc.content.1, Host.files_writeAll_of_mem ?_ ?_⟩
  · rw [List.map_fst_zip (by rw [List.length_map, List.length_map, hfound.length_eq])]
    exact hnodup
  · rw [List.zip_map_right]
    exact List.mem_map.mpr ⟨(path, part), hmem, rfl⟩

/-- A host without files. -/
def Host.empty : Host := ⟨fun _ => none, fun _ => false, []⟩

/-- If nothing is lost, every part is kept. -/
theorem kept_of_losesNothing (h : writeBundle H files metaV2 metaV1 now parts = .ok zip)
    (hall : LosesNothing H files zip parts) : Kept parts := by
  obtain ⟨out, host, hextract, hnodup, found', hperm', hout⟩ := hall [] [] .empty
  obtain ⟨metas, entries, hread, hmetas, hcarries⟩ := entries_of_write h
  obtain ⟨found, hperm, hfound⟩ := carries_sorted hcarries
  rw [extractBundle, hread] at hextract
  split at hextract
  · cases hextract
  next apks hbind =>
  obtain ⟨-, hsound, rfl⟩ := installable_ok_iff.mp ((ok_bind _ _).symm.trans hbind)
  have hpaths := paths_of_extractEach hextract
  have hfilter : apksOf (metas ++ entries) = apksOf entries := by
    rw [apksOf, List.filter_append, ← apksOf, hmetas, List.nil_append, apksOf]
  rw [hfilter] at hsound hpaths
  have hlen : (apksOf entries).length = entries.length := by
    calc (apksOf entries).length = out.length := by
          rw [hpaths, List.nil_append, List.length_map, List.length_mergeSort]
      _ = parts.length := hout.length_eq.trans hperm'.length_eq
      _ = entries.length := by rw [hcarries.length_eq, ordered, List.length_mergeSort]
  have hapks : ∀ entry ∈ entries, isApk entry.name = true :=
    List.length_filter_eq_length_iff.mp hlen
  have hself : apksOf entries = entries := List.filter_eq_self.mpr hapks
  rw [hself] at hsound hpaths
  have hpart : ∀ part ∈ parts, ∃ entry ∈ entries, Carries H files zip entry part := fun part hmem =>
    exists_of_forall₂ hcarries.flip part ((List.mergeSort_perm _ _).mem_iff.mpr hmem)
  constructor
  · intro part hmem
    obtain ⟨entry, hentry, hc⟩ := hpart part hmem
    rw [← hc.name]
    exact ⟨(hsound entry hentry).safe, hapks entry hentry⟩
  · intro part hmem
    obtain ⟨entry, hentry, hc⟩ := hpart part hmem
    rw [← hc.size]
    exact (hsound entry hentry).filled
  · rw [hpaths, List.nil_append] at hnodup
    refine (nodup_names_iff [] hfound hperm fun entry hentry => ?_).mp hnodup
    exact hsound entry ((List.mergeSort_perm _ _).mem_iff.mp hentry)

/-- **Nothing is lost exactly if every part is kept**: its name passes `sanitize` into a name that
the unpacker takes and that no other part has, and it is not empty. -/
theorem loses_nothing_iff (H : Hasher) (files : Files) (metaV2 metaV1 : List Char)
    (now : UInt16 × UInt16) (parts : List PulledPart) (zip : List UInt8) (hne : parts ≠ [])
    (h : writeBundle H files metaV2 metaV1 now parts = .ok zip) :
    LosesNothing H files zip parts ↔ Kept parts :=
  ⟨kept_of_losesNothing h, losesNothing_of_kept hne h⟩

/-- Items that fit, with a quiet end record, make a container. -/
theorem exists_container (H : Hasher) (now : UInt16 × UInt16)
    (hnames : ∀ part ∈ parts, part.entryName ≠ [])
    (hfits : FitsZip files (itemsOf metaV2 metaV1 parts))
    (hquiet : QuietItems files (itemsOf metaV2 metaV1 parts)) :
    ∃ zip, writeBundle H files metaV2 metaV1 now parts = .ok zip := by
  have htrip : RoundTrip H files now (itemsOf metaV2 metaV1 parts) :=
    roundTrip_of_quiet hfits hquiet
  obtain ⟨w, offset, finish, hput, hfinish, hread, -⟩ := htrip
  exact ⟨_, writeBundle_ok_iff.mpr ⟨hnames, w, offset, finish, hput, hfinish, hread, rfl⟩⟩

/-- `base.apk` and a split, one byte each. -/
def basePlus (split : String) : List PulledPart :=
  [⟨"base.apk".toList, "/base.apk".toList, 1⟩, ⟨split.toList, "/split.apk".toList, 1⟩]

/-- Every path holds one byte. -/
def oneByte : Files := fun _ => .ok [7]

/-- The items of such a container. -/
def basePlusItems (split : String) : List Item :=
  .bytes saiMetaV2 [] :: .bytes saiMetaV1 [] :: (basePlus split).map PulledPart.item

/-- The container of two parts that are in order. -/
theorem exists_basePlus {split : String} (hle : nameLe "base.apk".toList split.toList = true)
    (hname : sanitize split.toList maxPartNameBytes ≠ [])
    (hfits : FitsZip oneByte (basePlusItems split))
    (hquiet : QuietItems oneByte (basePlusItems split)) :
    ∃ zip, writeBundle crc32 oneByte [] [] (0, 0) (basePlus split) = .ok zip := by
  have hordered : ordered (basePlus split) = basePlus split := by
    refine List.mergeSort_of_pairwise (List.pairwise_pair.mpr ?_)
    exact hle
  have hitems : itemsOf [] [] (basePlus split) = basePlusItems split := by
    rw [itemsOf, hordered]
    rfl
  refine exists_container crc32 (0, 0) ?_ (hitems ▸ hfits) (hitems ▸ hquiet)
  rw [basePlus, List.forall_mem_cons, List.forall_mem_singleton]
  exact ⟨by decide, hname⟩

theorem nothing_lost_of_two : ∃ zip,
    writeBundle crc32 oneByte [] [] (0, 0) (basePlus "split_config.en.apk") = .ok zip ∧
    LosesNothing crc32 oneByte zip (basePlus "split_config.en.apk") := by
  obtain ⟨zip, hzip⟩ : ∃ zip, writeBundle crc32 oneByte [] [] (0, 0)
      (basePlus "split_config.en.apk") = .ok zip :=
    exists_basePlus (by decide) (by decide) (by decide) (by decide)
  refine ⟨zip, hzip, (loses_nothing_iff crc32 oneByte [] [] (0, 0) _ zip (by decide) hzip).mpr ?_⟩
  exact ⟨by decide, by decide, by decide⟩

/-- A name that Android has for an APK: printable, of at most 255 bytes, with its ending. -/
def isSplitName (name : List Char) : Bool :=
  name.all (fun c => !isControl c && c ≠ '/') && (Utf8.encode name).length ≤ 255 &&
    ".apk".toList.isSuffixOf name

/-- **A split named `split_a@b.apk` is written and not unpacked.** -/
theorem at_sign_is_lost : ¬ ∀ (H : Hasher) (files : Files) (metaV2 metaV1 : List Char)
    (now : UInt16 × UInt16) (parts : List PulledPart) (zip : List UInt8), parts ≠ [] →
    (parts.map PulledPart.name).Nodup → (∀ part ∈ parts, isSplitName part.name = true) →
    writeBundle H files metaV2 metaV1 now parts = .ok zip → LosesNothing H files zip parts := by
  intro hall
  obtain ⟨zip, hzip⟩ : ∃ zip, writeBundle crc32 oneByte [] [] (0, 0)
      (basePlus "split_a@b.apk") = .ok zip :=
    exists_basePlus (by decide) (by decide) (by decide) (by decide)
  have hlost := hall crc32 oneByte [] [] (0, 0) _ zip (by decide) (by decide)
    (by decide) hzip
  have htaken := (kept_of_losesNothing hzip hlost).taken
  exact absurd htaken (by decide)

end RevBox.ApkBundle
