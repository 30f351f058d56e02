import RevBox.Desktop.ApkBundleInstall

/-!
# Desktop — ApkBundleHostile

Any bytes at all, presented to `extract_bundle`: what it writes lies in the directory it was given,
and a failure after it began removes that directory, whatever the bytes (`confined`, `cleared`).

Counts and lengths come from the file and are used as indexes; where they point beyond the end
record or beyond the directory, the unpacker panics (`Whole`).  It does not look at what two entries
of one name come to, nor at whether a name has a dot (`Proper`).
-/

namespace RevBox.ApkBundle

open Checksum Records Results

/-! ### Records that are cut off -/

/-- The record at the cursor is as long as its reader takes it to be. -/
structure RecordWhole (cd : List UInt8) (cursor : Nat) : Prop where
  method : numberAt 4 cursor cd = some centralMagic → cursor + 12 ≤ cd.length
  fixed : numberAt 4 cursor cd = some centralMagic →
    numberAt 2 (cursor + 10) cd = some methodStore → cursor + 46 ≤ cd.length
  name : numberAt 4 cursor cd = some centralMagic →
    numberAt 2 (cursor + 10) cd = some methodStore → ∀ nameLen,
    numberAt 2 (cursor + 28) cd = some nameLen → cursor + 46 + nameLen ≤ cd.length

/-- After a stored record with a name in UTF-8, the next one begins here. -/
structure Follows (cd : List UInt8) (cursor next : Nat) : Prop where
  magic : numberAt 4 cursor cd = some centralMagic
  stored : numberAt 2 (cursor + 10) cd = some methodStore
  named : ∃ nameLen name, numberAt 2 (cursor + 28) cd = some nameLen ∧
    (cd.take (cursor + 46 + nameLen)).drop (cursor + 46) = Utf8.encode name ∧
    next = cursor + (centralHeaderLen + nameLen)

/-- Every record up to the count is whole. -/
def RecordsWhole (cd : List UInt8) : Nat → Nat → Prop
  | 0, _ => True
  | count + 1, cursor =>
      RecordWhole cd cursor ∧ ∀ next, Follows cd cursor next → RecordsWhole cd count next

/-- The end record and the records of the directory are whole. -/
structure Whole (file : List UInt8) : Prop where
  ends : eocdLen ≤ file.length → ∀ i, rposition (toLeBytes 4 endMagic) (tailOf file) = some i →
    i + 20 ≤ (tailOf file).length
  records : eocdLen ≤ file.length → ∀ i, rposition (toLeBytes 4 endMagic) (tailOf file) = some i →
    ∀ count cdSize cdOffset, numberAt 2 (i + 10) (tailOf file) = some count →
      numberAt 4 (i + 12) (tailOf file) = some cdSize →
      numberAt 4 (i + 16) (tailOf file) = some cdOffset →
      cdOffset + cdSize + eocdLen = file.length →
      RecordsWhole ((file.drop cdOffset).take cdSize) count 0

section Panics

variable {cd file : List UInt8} {cursor next count : Nat}

theorem readNumber_of_le (n pos : Nat) {bytes : List UInt8} (h : pos + n ≤ bytes.length) :
    ∃ m, numberAt n pos bytes = some m ∧ readNumber n bytes pos = .ok m :=
  ⟨_, numberAt_of_le h, readNumber_ok_iff.mpr (numberAt_of_le h)⟩

/-- Without its magic a record is refused. -/
theorem readEntry_no_magic (h : numberAt 4 cursor cd ≠ some centralMagic) :
    ∃ e, readEntry cd cursor = .error (.failed e) := ⟨_, if_pos h⟩

/-- A record that ends before its method is a panic. -/
theorem readEntry_no_method (hmagic : numberAt 4 cursor cd = some centralMagic)
    (h : cd.length < cursor + 12) : readEntry cd cursor = .error .panicked := by
  have hmethod : readNumber 2 cd (cursor + 10) = .error .panicked := readNumber_over h
  rw [readEntry, if_neg (not_not.mpr hmagic), hmethod]
  rfl

/-- A record of another method is refused. -/
theorem readEntry_other {m : Nat} (hmagic : numberAt 4 cursor cd = some centralMagic)
    (hmethod : numberAt 2 (cursor + 10) cd = some m) (h : m ≠ methodStore) :
    ∃ e, readEntry cd cursor = .error (.failed e) := by
  rw [readEntry, if_neg (not_not.mpr hmagic), readNumber_ok_iff.mpr hmethod]
  exact ⟨_, if_pos h⟩

section Stored

variable (hmagic : numberAt 4 cursor cd = some centralMagic)
  (hstored : numberAt 2 (cursor + 10) cd = some methodStore)

include hmagic hstored

/-- A stored record that is cut off is a panic. -/
theorem readEntry_cut (h : cd.length < cursor + 46) : readEntry cd cursor = .error .panicked := by
  have hoffset : readNumber 4 cd (cursor + 42) = .error .panicked := readNumber_over h
  rw [readEntry, if_neg (not_not.mpr hmagic), readNumber_ok_iff.mpr hstored, ok_bind,
    if_neg (not_not.mpr rfl)]
  rcases readNumber_cases 4 cd (cursor + 16) with hcrc | ⟨crc, hcrc⟩
  · rw [hcrc]
    rfl
  rcases readNumber_cases 4 cd (cursor + 24) with hsize | ⟨size, hsize⟩
  · rw [hcrc, hsize]
    rfl
  rcases readNumber_cases 2 cd (cursor + 28) with hlen | ⟨nameLen, hlen⟩
  · rw [hcrc, hsize, hlen]
    rfl
  · rw [hcrc, hsize, hlen, hoffset]
    rfl

/-- A stored record that is not cut off is read up to its name. -/
theorem readEntry_fixed (h : cursor + 46 ≤ cd.length) {nameLen : Nat}
    (hlen : numberAt 2 (cursor + 28) cd = some nameLen) : ∃ size crc offset,
    readEntry cd cursor =
      slice cd (cursor + 46) (cursor + 46 + nameLen) >>= fun nameBytes =>
        match Utf8.fromUtf8 nameBytes with
        | none => internal "条目名不是合法 UTF-8"
        | some name => .ok (⟨name, size, crc, offset⟩, cursor + (centralHeaderLen + nameLen)) := by
  obtain ⟨crc, -, hcrc⟩ := readNumber_of_le 4 (cursor + 16) (show _ ≤ cd.length by omega)
  obtain ⟨size, -, hsize⟩ := readNumber_of_le 4 (cursor + 24) (show _ ≤ cd.length by omega)
  obtain ⟨offset, -, hoffset⟩ := readNumber_of_le 4 (cursor + 42) (show _ ≤ cd.length by omega)
  refine ⟨size, .ofNat crc, offset, ?_⟩
  rw [readEntry, if_neg (not_not.mpr hmagic), readNumber_ok_iff.mpr hstored, ok_bind,
    if_neg (not_not.mpr rfl)]
  rw [hcrc, hsize, readNumber_ok_iff.mpr hlen, hoffset]
  rfl

end Stored

/-- What a record is read as: not at all where it is not whole. -/
theorem readEntry_cases (cd : List UInt8) (cursor : Nat) :
    (¬ RecordWhole cd cursor ∧ readEntry cd cursor = .error .panicked) ∨
    (RecordWhole cd cursor ∧ (∃ e, readEntry cd cursor = .error (.failed e)) ∧
      ∀ next, ¬ Follows cd cursor next) ∨
    (RecordWhole cd cursor ∧ ∃ entry next, readEntry cd cursor = .ok (entry, next) ∧
      ∀ next', Follows cd cursor next' ↔ next' = next) := by
  by_cases hmagic : numberAt 4 cursor cd = some centralMagic
  swap
  · exact .inr (.inl ⟨⟨fun h => absurd h hmagic, fun h => absurd h hmagic,
      fun h => absurd h hmagic⟩, readEntry_no_magic hmagic, fun next h => hmagic h.magic⟩)
  rcases Nat.lt_or_ge cd.length (cursor + 12) with hcut | hmethod
  · exact .inl ⟨fun h => Nat.not_le.mpr hcut (h.method hmagic), readEntry_no_method hmagic hcut⟩
  by_cases hstored : numberAt 2 (cursor + 10) cd = some methodStore
  swap
  · obtain ⟨m, hm, -⟩ := readNumber_of_le 2 (cursor + 10) hmethod
    have hne : m ≠ methodStore := fun h => hstored (h ▸ hm)
    exact .inr (.inl ⟨⟨fun _ => hmethod, fun _ h => absurd h hstored, fun _ h => absurd h hstored⟩,
      readEntry_other hmagic hm hne, fun next h => hstored h.stored⟩)
  rcases Nat.lt_or_ge cd.length (cursor + 46) with hcut | hfixed
  · exact .inl ⟨fun h => Nat.not_le.mpr hcut (h.fixed hmagic hstored),
      readEntry_cut hmagic hstored hcut⟩
  obtain ⟨nameLen, hlen, -⟩ := readNumber_of_le 2 (cursor + 28) (show _ ≤ cd.length by omega)
  obtain ⟨size, crc, offset, hread⟩ := readEntry_fixed hmagic hstored hfixed hlen
  rw [hread, slice]
  rcases Nat.lt_or_ge cd.length (cursor + 46 + nameLen) with hcut | hname
  · rw [if_neg (Nat.not_le.mpr hcut)]
    exact .inl ⟨fun h => Nat.not_le.mpr hcut (h.name hmagic hstored nameLen hlen), rfl⟩
  rw [if_pos hname]
  have hwhole : RecordWhole cd cursor := by
    refine ⟨fun _ => hmethod, fun _ _ => hfixed, fun _ _ nameLen' hlen' => ?_⟩
    cases hlen.symm.trans hlen'
    exact hname
  cases htext : Utf8.fromUtf8 ((cd.take (cursor + 46 + nameLen)).drop (cursor + 46)) with
  | none =>
      refine .inr (.inl ⟨hwhole, ⟨.internal "条目名不是合法 UTF-8", ?_⟩, fun next hnext => ?_⟩)
      · rw [ok_bind, htext]
        rfl
      · obtain ⟨nameLen', name, hlen', hname', -⟩ := hnext.named
        cases hlen.symm.trans hlen'
        rw [Utf8.fromUtf8_eq_some_iff.mpr hname'] at htext
        cases htext
  | some name =>
      refine .inr (.inr ⟨hwhole, ⟨name, size, crc, offset⟩,
        cursor + (centralHeaderLen + nameLen), ?_, fun next => ⟨fun hnext => ?_, ?_⟩⟩)
      · rw [ok_bind, htext]
      · obtain ⟨nameLen', -, hlen', -, hnext⟩ := hnext.named
        cases hlen.symm.trans hlen'
        exact hnext
      · rintro rfl
        exact ⟨hmagic, hstored, nameLen, name, hlen, Utf8.fromUtf8_eq_some_iff.mp htext, rfl⟩

/-- **The directory is read past its end exactly if a record is cut off.** -/
theorem readEntries_panics_iff :
    readEntries cd count cursor = .error .panicked ↔ ¬ RecordsWhole cd count cursor := by
  induction count generalizing cursor with
  | zero => exact iff_of_false (fun h => by cases h) (fun h => h trivial)
  | succ count ih =>
      rw [readEntries, RecordsWhole]
      rcases readEntry_cases cd cursor with ⟨hcut, hread⟩ | ⟨hwhole, ⟨e, hread⟩, hlast⟩ |
        ⟨hwhole, entry, next, hread, hnext⟩
      · rw [hread]
        exact iff_of_true rfl fun h => hcut h.1
      · rw [hread]
        refine iff_of_false (fun h => by cases h) (not_not.mpr ⟨hwhole, fun next h => ?_⟩)
        exact absurd h (hlast next)
      · have hrest : (∀ next', Follows cd cursor next' → RecordsWhole cd count next') ↔
            RecordsWhole cd count next :=
          ⟨fun h => h next ((hnext next).mpr rfl), fun h next' hn => (hnext next').mp hn ▸ h⟩
        rw [hread, hrest, ok_bind]
        dsimp only
        rw [bind_eq_error_iff, ih]
        constructor
        · rintro (h | ⟨_, -, h⟩)
          · exact fun hand => h hand.2
          · cases h
        · exact fun h => .inl fun hrec => h ⟨hwhole, hrec⟩

/-- **The reader panics exactly if the end record or a record of the directory is cut off.** -/
theorem readBundle_panics_iff : readBundle file = .error .panicked ↔ ¬ Whole file := by
  rcases Nat.lt_or_ge file.length eocdLen with hshort | hlen
  · refine iff_of_false ?_ (not_not.mpr ⟨fun h => absurd h (Nat.not_le.mpr hshort),
      fun h => absurd h (Nat.not_le.mpr hshort)⟩)
    rw [readBundle, if_pos hshort]
    exact fun h => by cases h
  cases hmagic : rposition (toLeBytes 4 endMagic) (tailOf file) with
  | none =>
      refine iff_of_false ?_ (not_not.mpr ⟨fun _ i hi => ?_, fun _ i hi => ?_⟩)
      · rw [readBundle, if_neg (Nat.not_lt.mpr hlen)]
        simp only [hmagic]
        exact fun h => by cases h
      · cases hmagic.symm.trans hi
      · cases hmagic.symm.trans hi
  | some i =>
      rcases Nat.lt_or_ge (tailOf file).length (i + 20) with hcut | hends
      · exact iff_of_true (readBundle_over hlen hmagic hcut)
          fun h => Nat.not_le.mpr hcut (h.ends hlen i hmagic)
      obtain ⟨count, hcount, hcount'⟩ := readNumber_of_le 2 (i + 10)
        (show _ ≤ (tailOf file).length by omega)
      obtain ⟨cdSize, hsize, hsize'⟩ := readNumber_of_le 4 (i + 12)
        (show _ ≤ (tailOf file).length by omega)
      obtain ⟨cdOffset, hoffset, hoffset'⟩ := readNumber_of_le 4 (i + 16) hends
      have hwhole : Whole file ↔ (cdOffset + cdSize + eocdLen = file.length →
          RecordsWhole ((file.drop cdOffset).take cdSize) count 0) := by
        constructor
        · exact fun h => h.records hlen i hmagic count cdSize cdOffset hcount hsize hoffset
        · refine fun h => ⟨fun _ j hj => ?_, fun _ j hj count' cdSize' cdOffset' hc hs ho => ?_⟩
          · cases hmagic.symm.trans hj
            exact hends
          · cases hmagic.symm.trans hj
            cases hcount.symm.trans hc
            cases hsize.symm.trans hs
            cases hoffset.symm.trans ho
            exact h
      rw [readBundle, if_neg (Nat.not_lt.mpr hlen), hwhole]
      simp only [hmagic]
      rw [hcount', ok_bind, hsize', ok_bind, hoffset', ok_bind]
      by_cases hfits : cdOffset + cdSize + eocdLen = file.length
      · rw [if_neg (not_not.mpr hfits), bind_eq_error_iff, readEntries_panics_iff]
        constructor
        · rintro (h | ⟨⟨entries, cursor⟩, -, h⟩)
          · exact fun hall => h (hall hfits)
          · dsimp only at h
            split at h
            · cases h
            · cases h
        · exact fun h => .inl fun hall => h fun _ => hall
      · rw [if_pos hfits]
        exact iff_of_false (fun h => by cases h) fun h => h fun hfits' => absurd hfits' hfits

end Panics

/-! ### What is streamed out -/

/-- A number of the local header that an entry points to. -/
def localNumber (source : List UInt8) (entry : BundleEntry) (n pos : Nat) : Nat :=
  fromLeBytes ((((source.drop entry.offset).take localHeaderLen).drop pos).take n)

/-- The bytes that an entry points to, as far as there are any. -/
def payload (source : List UInt8) (entry : BundleEntry) : List UInt8 :=
  (source.drop (entry.offset + localHeaderLen + localNumber source entry 2 26)).take entry.size

/-- The local header agrees with the directory, and the bytes with both. -/
structure Intact (H : Hasher) (source : List UInt8) (entry : BundleEntry) : Prop where
  header : localHeaderLen ≤ ((source.drop entry.offset).take localHeaderLen).length
  magic : ((source.drop entry.offset).take localHeaderLen).take 4 = toLeBytes 4 localMagic
  crc : localNumber source entry 4 14 = entry.crc.toNat
  size : localNumber source entry 4 18 = entry.size
  whole : (payload source entry).length = entry.size
  sum : H.sum (payload source entry) = entry.crc

variable {H : Hasher} {source : List UInt8} {workdir : List Char}

/-- **An intact entry is streamed out; any other is an error**, with or without a file. -/
theorem stream_cases (H : Hasher) (source : List UInt8) (entry : BundleEntry) (target : List Char)
    (host : Host) :
    (Intact H source entry ∧ streamEntryToFile H source entry target host =
      (.ok (), host.write target (payload source entry))) ∨
    (¬ Intact H source entry ∧ ∃ e ws, streamEntryToFile H source entry target host =
      (.error e, host.writeAll ws) ∧ ∀ w ∈ ws, w.1 = target) := by
  unfold streamEntryToFile
  simp only [stream_fold, flatten_readUpTo readChunk_pos, List.nil_append]
  split
  · next hshort =>
      exact .inr ⟨fun h => Nat.not_lt.mpr h.header hshort, _, [], rfl, fun _ h => nomatch h⟩
  split
  · next hmagic => exact .inr ⟨fun h => hmagic h.magic, _, [], rfl, fun _ h => nomatch h⟩
  split
  · next hdiffer =>
      exact .inr ⟨fun h => hdiffer.elim (· h.crc) (· h.size), _, [], rfl, fun _ h => nomatch h⟩
  next hheader hmagic hsame =>
  rw [not_or, ne_eq, ne_eq, not_not, not_not] at hsame
  have hle : (payload source entry).length ≤ entry.size := by
    rw [payload, List.length_take]
    exact Nat.min_le_left _ _
  split
  · next hleft =>
      refine .inr ⟨fun h => hleft ?_, _, [(target, payload source entry)], rfl, ?_⟩
      · rw [Nat.sub_eq_zero_iff_le]
        exact h.whole.ge
      · exact fun w hw => List.mem_singleton.mp hw ▸ rfl
  next hleft =>
  split
  · next hsum =>
      refine .inr ⟨fun h => hsum h.sum, _, [(target, payload source entry)], rfl, ?_⟩
      exact fun w hw => List.mem_singleton.mp hw ▸ rfl
  next hsum =>
  rw [not_not, Nat.sub_eq_zero_iff_le] at hleft
  exact .inl ⟨⟨Nat.not_lt.mp hheader, not_not.mp hmagic, hsame.1, hsame.2, le_antisymm hle hleft,
    not_not.mp hsum⟩, rfl⟩

/-! ### What a run leaves -/

/-- The path of an entry. -/
def pathOf (workdir : List Char) (entry : BundleEntry) : List Char := join workdir entry.name

/-- **A run either unpacks all its entries, each intact, or removes the directory.** -/
theorem extractEach_cases (H : Hasher) (source : List UInt8) (workdir : List Char)
    (entries : List BundleEntry) (out : List (List Char)) (host : Host) :
    ((∀ entry ∈ entries, Intact H source entry) ∧
      extractEach H source workdir entries out host = (.ok (out ++ entries.map (pathOf workdir)),
        host.writeAll (entries.map fun entry => (pathOf workdir entry, payload source entry)))) ∨
    ((∃ entry ∈ entries, ¬ Intact H source entry) ∧ ∃ e ws,
      extractEach H source workdir entries out host =
        (.error (.failed e), (host.writeAll ws).removeDirAll workdir) ∧
      ∀ w ∈ ws, w.1 ∈ entries.map (pathOf workdir)) := by
  induction entries generalizing out host with
  | nil =>
      refine .inl ⟨List.forall_mem_nil _, ?_⟩
      rw [List.map_nil, List.append_nil]
      rfl
  | cons entry rest ih =>
      rw [extractEach]
      rcases stream_cases H source entry (join workdir entry.name) host with ⟨hintact, hstream⟩ |
        ⟨hbroken, e, ws, hstream, hws⟩
      · rw [hstream]
        rcases ih (out ++ [join workdir entry.name])
          (host.write (join workdir entry.name) (payload source entry)) with ⟨hall, hrest⟩ |
          ⟨⟨bad, hbad, hbroken⟩, e, ws, hrest, hws⟩
        · refine .inl ⟨List.forall_mem_cons.mpr ⟨hintact, hall⟩, hrest.trans ?_⟩
          rw [List.append_assoc]
          rfl
        · refine .inr ⟨⟨bad, List.mem_cons_of_mem _ hbad, hbroken⟩, e,
            (pathOf workdir entry, payload source entry) :: ws, hrest, ?_⟩
          rw [List.forall_mem_cons]
          exact ⟨List.mem_cons_self, fun w hw => List.mem_cons_of_mem _ (hws w hw)⟩
      · rw [hstream]
        refine .inr ⟨⟨entry, List.mem_cons_self, hbroken⟩, e, ws, rfl, fun w hw => ?_⟩
        rw [hws w hw]
        exact List.mem_cons_self

/-! ### The directory -/

/-- The path is a direct child of the directory. -/
def Child (dir path : List Char) : Prop :=
  ∃ name, name ≠ [] ∧ '/' ∉ name ∧ '\\' ∉ name ∧ name.head? ≠ some '.' ∧ path = join dir name

/-- Files were created among the direct children of the directory; all others are as they were, or
were removed with the directory. -/
def Confined (dir : List Char) (host host' : Host) : Prop :=
  ∃ ws : List Written, host'.created = host.created ++ ws.map Prod.fst ∧
    (∀ w ∈ ws, Child dir w.1) ∧ ∀ path ∉ ws.map Prod.fst,
      host'.files path = host.files path ∨ host'.files path = none ∧ within dir path = true

theorem child_pathOf {entry : BundleEntry} (h : isSafeName entry.name = true) :
    Child workdir (pathOf workdir entry) := by
  have hsafe := h
  simp only [isSafeName, Bool.and_eq_true, Bool.not_eq_true', List.contains_eq_mem,
    decide_eq_false_iff_not, decide_eq_true_iff] at hsafe
  obtain ⟨⟨⟨⟨⟨hne, -⟩, hslash⟩, hback⟩, hdot⟩, -⟩ := hsafe
  exact ⟨entry.name, List.isEmpty_eq_false_iff.mp hne, hslash, hback, hdot, rfl⟩

theorem created_writeAll (host : Host) (ws : List Written) :
    (host.writeAll ws).created = host.created ++ ws.map Prod.fst := by
  induction ws generalizing host with
  | nil => exact (List.append_nil _).symm
  | cons w ws ih =>
      rw [Host.writeAll_cons, ih, List.map_cons]
      exact List.append_assoc _ _ _

theorem confined_writeAll {host : Host} {ws : List Written} (h : ∀ w ∈ ws, Child workdir w.1) :
    Confined workdir host (host.writeAll ws) :=
  ⟨ws, created_writeAll host ws, h, fun _ hp => .inl (Host.files_writeAll_of_not_mem hp)⟩

theorem confined_removed {host : Host} {ws : List Written} (h : ∀ w ∈ ws, Child workdir w.1) :
    Confined workdir host ((host.writeAll ws).removeDirAll workdir) := by
  refine ⟨ws, created_writeAll host ws, h, fun path hp => ?_⟩
  by_cases hin : within workdir path = true
  · exact .inr ⟨if_pos hin, hin⟩
  · exact .inl ((if_neg hin).trans (Host.files_writeAll_of_not_mem hp))

theorem confined_refl (dir : List Char) (host : Host) : Confined dir host host :=
  show Confined dir host (host.writeAll []) from confined_writeAll (List.forall_mem_nil _)

theorem dirs_removeDirAll (host : Host) (dir : List Char) :
    (host.removeDirAll dir).dirs dir = false := by
  have hself : within dir dir = true := by
    rw [within, decide_eq_true rfl, Bool.true_or]
  show (!within dir dir && host.dirs dir) = false
  rw [hself]
  rfl

/-! ### Names that end in `.apk` -/

/-- The path ends in `.apk`, in any case. -/
def endsInApk (path : List Char) : Bool := ".apk".toList.isSuffixOf (path.map Char.toLower)

/-- What a name is put after: nothing, or a text that ends in a slash. -/
theorem join_nil (dir : List Char) :
    join dir [] = [] ∨ ∃ before, join dir [] = before ++ ['/'] := by
  have hnil : ([] : List Char).head? ≠ some '/' := nofun
  rw [join, if_neg hnil, List.append_nil]
  split
  · next h =>
      rcases h with rfl | hlast
      · exact .inl rfl
      · obtain ⟨before, hbefore⟩ := List.getLast?_eq_some_iff.mp hlast
        exact .inr ⟨before, hbefore⟩
  · exact .inr ⟨dir, rfl⟩

/-- A name with a dot is cut at its last one. -/
theorem lastField_of_mem {name : List Char} (h : '.' ∈ name) :
    ∃ before, name = before ++ '.' :: lastField name := by
  have hne : name.reverse.dropWhile (· ≠ '.') ≠ [] := by
    intro hnil
    have hall := List.dropWhile_eq_nil_iff.mp hnil '.' (List.mem_reverse.mpr h)
    simp at hall
  obtain ⟨c, rest, hrest⟩ := List.exists_cons_of_ne_nil hne
  have hc : c = '.' := by
    have hhead := List.head_dropWhile_not (· ≠ '.') hne
    simp only [hrest, List.head_cons] at hhead
    simpa using hhead
  have hsplit := List.takeWhile_append_dropWhile (p := (· ≠ '.')) (l := name.reverse)
  rw [hrest, hc] at hsplit
  refine ⟨rest.reverse, ?_⟩
  calc name = name.reverse.reverse := (List.reverse_reverse name).symm
    _ = (name.reverse.takeWhile (· ≠ '.') ++ '.' :: rest).reverse := by rw [hsplit]
    _ = rest.reverse ++ '.' :: lastField name := by
        rw [List.reverse_append, List.reverse_cons, List.append_assoc]
        rfl

theorem lastField_of_not_mem {name : List Char} (h : '.' ∉ name) : lastField name = name := by
  have hall : ∀ c ∈ name.reverse, decide (c ≠ '.') = true := fun c hc =>
    decide_eq_true fun heq => h (heq ▸ List.mem_reverse.mp hc)
  rw [lastField, List.takeWhile_eq_self_iff.mpr hall, List.reverse_reverse]

/-- **The path of an APK entry ends in `.apk` exactly if the name has a dot.** -/
theorem endsInApk_join {dir name : List Char} (hapk : isApk name = true)
    (hslash : name.head? ≠ some '/') : endsInApk (join dir name) = true ↔ '.' ∈ name := by
  have hlast : (lastField name).map Char.toLower = "apk".toList := of_decide_eq_true hapk
  rw [endsInApk, List.isSuffixOf_iff_suffix, join_eq hslash, List.map_append]
  by_cases hdot : '.' ∈ name
  · refine iff_of_true ?_ hdot
    obtain ⟨before, hbefore⟩ := lastField_of_mem hdot
    have hlower : name.map Char.toLower = before.map Char.toLower ++ ".apk".toList := by
      conv_lhs => rw [hbefore]
      rw [List.map_append, List.map_cons, hlast]
      rfl
    rw [hlower, ← List.append_assoc]
    exact List.suffix_append _ _
  · refine iff_of_false ?_ hdot
    rintro ⟨before, hbefore⟩
    rw [lastField_of_not_mem hdot] at hlast
    rw [hlast] at hbefore
    have hbase : before ++ ['.'] = (join dir []).map Char.toLower := by
      refine List.append_cancel_right (?_ : _ ++ "apk".toList = _ ++ "apk".toList)
      rw [List.append_assoc]
      exact hbefore
    rcases join_nil dir with hnil | ⟨base, hslash'⟩
    · rw [hnil] at hbase
      simp at hbase
    · rw [hslash', List.map_append] at hbase
      have hend := (List.append_inj' hbase rfl).2
      exact absurd hend (by decide)

/-! ### Any bytes at all -/

/-- What a call may come to: a panic never; an error with the directory gone if anything was
written; or paths of their own, each ending in `.apk`, with bytes of the length and checksum that
the directory of the container tells. -/
def Answered (H : Hasher) (source : List UInt8) (workdir : List Char) (host : Host) :
    Except Stop (List (List Char)) × Host → Prop
  | (.error .panicked, _) => False
  | (.error (.failed _), host') => Confined workdir host host' ∧
      (host'.created ≠ host.created → host'.dirs workdir = false)
  | (.ok out, host') => Confined workdir host host' ∧ out.Nodup ∧ ∀ path ∈ out,
      endsInApk path = true ∧ ∃ entries, readBundle source = .ok entries ∧
        ∃ entry ∈ entries, path = pathOf workdir entry ∧ ∃ data,
          host'.files path = some data ∧ data.length = entry.size ∧ H.sum data = entry.crc

/-- Where every APK entry of the container may be unpacked and is intact, no two have one name and
every name has a dot. -/
def Proper (H : Hasher) (source : List UInt8) : Prop :=
  ∀ entries, readBundle source = .ok entries →
    (∀ entry ∈ apksOf entries, entry.Sound ∧ Intact H source entry) →
    ((apksOf entries).map BundleEntry.name).Nodup ∧ ∀ entry ∈ apksOf entries, '.' ∈ entry.name

/-- The check of an entry does not panic. -/
theorem checkEntry_ne (entry : BundleEntry) : checkEntry entry ≠ .error .panicked := by
  intro h
  rcases bind_eq_error_iff.mp h with hname | ⟨_, -, hsize⟩
  · unfold safeEntryName at hname
    split at hname <;> cases hname
  · split at hsize <;> cases hsize

theorem checks_ne (entries : List BundleEntry) :
    entries.forM checkEntry ≠ .error .panicked := by
  induction entries with
  | nil => exact fun h => nomatch h
  | cons entry rest ih =>
      intro h
      rcases bind_eq_error_iff.mp h with hentry | ⟨_, -, hrest⟩
      · exact checkEntry_ne entry hentry
      · exact ih hrest

theorem installable_ne (sourcePath : List Char) (entries : List BundleEntry) :
    installable sourcePath entries ≠ .error .panicked := by
  intro h
  unfold installable at h
  dsimp only at h
  split at h
  · cases h
  · rcases bind_eq_error_iff.mp h with hchecks | ⟨_, -, hsorted⟩
    · exact checks_ne _ hchecks
    · cases hsorted

/-- What a call comes to, by what the reader makes of the bytes. -/
theorem extractBundle_cases (H : Hasher) (sourcePath : List Char) (source : List UInt8)
    (workdir : List Char) (host : Host) :
    (readBundle source = .error .panicked ∧
      extractBundle H sourcePath source workdir host = (.error .panicked, host)) ∨
    (readBundle source ≠ .error .panicked ∧ ∃ e,
      extractBundle H sourcePath source workdir host = (.error (.failed e), host)) ∨
    ∃ entries apks, readBundle source = .ok entries ∧ installable sourcePath entries = .ok apks ∧
      extractBundle H sourcePath source workdir host =
        extractEach H source workdir apks [] host := by
  unfold extractBundle
  cases hread : readBundle source with
  | error stop =>
      cases stop with
      | panicked => exact .inl ⟨rfl, rfl⟩
      | failed e => exact .inr (.inl ⟨nofun, e, rfl⟩)
  | ok entries =>
      rw [ok_bind]
      cases happly : installable sourcePath entries with
      | error stop =>
          cases stop with
          | panicked => exact absurd happly (installable_ne sourcePath entries)
          | failed e => exact .inr (.inl ⟨nofun, e, rfl⟩)
      | ok apks => exact .inr (.inr ⟨entries, apks, rfl, happly, rfl⟩)

/-- Sorting changes nothing in who the entries are. -/
theorem mem_sorted {entries : List BundleEntry} {entry : BundleEntry} :
    entry ∈ (entries.mergeSort fun left right => nameLe left.name right.name) ↔ entry ∈ entries :=
  (List.mergeSort_perm _ _).mem_iff

theorem nodup_sorted_iff (workdir : List Char) {entries : List BundleEntry}
    (h : ∀ entry ∈ entries, isSafeName entry.name = true) :
    ((entries.mergeSort fun left right => nameLe left.name right.name).map
      (pathOf workdir)).Nodup ↔ (entries.map BundleEntry.name).Nodup := by
  have hpaths : entries.map (pathOf workdir) =
      (entries.map BundleEntry.name).map (join workdir) := by
    rw [List.map_map]
    rfl
  rw [((List.mergeSort_perm entries _).map (pathOf workdir)).nodup_iff, hpaths, nodup_paths_iff]
  intro name hname
  obtain ⟨entry, hentry, rfl⟩ := List.mem_map.mp hname
  exact h entry hentry

/-- Whole and proper bytes are answered. -/
theorem answered_of_whole (hwhole : Whole source) (hproper : Proper H source)
    (sourcePath : List Char) (host : Host) :
    Answered H source workdir host (extractBundle H sourcePath source workdir host) := by
  rcases extractBundle_cases H sourcePath source workdir host with ⟨hread, -⟩ | ⟨-, e, hextract⟩ |
    ⟨entries, apks, hread, happly, hextract⟩
  · exact absurd hwhole (readBundle_panics_iff.mp hread)
  · rw [hextract]
    exact ⟨confined_refl workdir host, fun h => absurd rfl h⟩
  obtain ⟨-, hsound, rfl⟩ := installable_ok_iff.mp happly
  have hchild : ∀ path ∈ ((apksOf entries).mergeSort fun left right =>
      nameLe left.name right.name).map (pathOf workdir), Child workdir path := by
    intro path hpath
    obtain ⟨entry, hentry, rfl⟩ := List.mem_map.mp hpath
    exact child_pathOf (hsound entry (mem_sorted.mp hentry)).safe
  rw [hextract]
  rcases extractEach_cases H source workdir _ [] host with ⟨hintact, hrun⟩ | ⟨-, e, ws, hrun, hws⟩
  · have hnames := hproper entries hread fun entry hentry =>
      ⟨hsound entry hentry, hintact entry (mem_sorted.mpr hentry)⟩
    have hnodup := (nodup_sorted_iff workdir fun entry hentry =>
      (hsound entry hentry).safe).mpr hnames.1
    rw [hrun]
    refine ⟨confined_writeAll fun w hw => ?_, hnodup, fun path hpath => ?_⟩
    · obtain ⟨entry, hentry, rfl⟩ := List.mem_map.mp hw
      exact hchild _ (List.mem_map_of_mem hentry)
    · obtain ⟨entry, hentry, rfl⟩ := List.mem_map.mp hpath
      have hmem := mem_sorted.mp hentry
      obtain ⟨hlisted, hapk⟩ := List.mem_filter.mp hmem
      have hslash := head_of_isSafeName (hsound entry hmem).safe
      refine ⟨(endsInApk_join hapk hslash).mpr (hnames.2 entry hmem), entries, hread, entry,
        hlisted, rfl, payload source entry, ?_, (hintact entry hentry).whole,
        (hintact entry hentry).sum⟩
      refine Host.files_writeAll_of_mem ?_ (List.mem_map.mpr ⟨entry, hentry, rfl⟩)
      rw [List.map_map]
      exact hnodup
  · rw [hrun]
    exact ⟨confined_removed fun w hw => hchild _ (hws w hw), fun _ => dirs_removeDirAll _ _⟩

/-- Bytes that are answered are whole and proper. -/
theorem whole_of_answered (h : ∀ sourcePath host,
    Answered H source workdir host (extractBundle H sourcePath source workdir host)) :
    Whole source ∧ Proper H source := by
  have hhere := h [] .empty
  constructor
  · by_contra hcut
    rcases extractBundle_cases H [] source workdir .empty with ⟨-, hextract⟩ |
      ⟨hread, -⟩ | ⟨entries, apks, hread, -⟩
    · rw [hextract] at hhere
      exact hhere
    · exact hread (readBundle_panics_iff.mpr hcut)
    · cases hread.symm.trans (readBundle_panics_iff.mpr hcut)
  · intro entries hread hall
    by_cases hnil : apksOf entries = []
    · rw [hnil]
      exact ⟨List.nodup_nil, List.forall_mem_nil _⟩
    have happly : installable [] entries = .ok _ :=
      installable_ok_iff.mpr ⟨hnil, fun entry hentry => (hall entry hentry).1, rfl⟩
    rw [extractBundle, hread, ok_bind, happly] at hhere
    dsimp only at hhere
    rcases extractEach_cases H source workdir ((apksOf entries).mergeSort fun left right =>
      nameLe left.name right.name) [] .empty with ⟨-, hrun⟩ | ⟨⟨entry, hentry, hbroken⟩, -⟩
    · rw [hrun] at hhere
      obtain ⟨-, hnodup, hpaths⟩ := hhere
      refine ⟨(nodup_sorted_iff workdir fun entry hentry => (hall entry hentry).1.safe).mp hnodup,
        fun entry hentry => ?_⟩
      have hends := (hpaths (pathOf workdir entry) (List.mem_map_of_mem (mem_sorted.mpr hentry))).1
      exact (endsInApk_join (List.mem_filter.mp hentry).2
        (head_of_isSafeName (hall entry hentry).1.safe)).mp hends
    · exact absurd (hall entry (mem_sorted.mp hentry)).2 hbroken

/-- **Any bytes are answered exactly if they are whole and proper.** -/
theorem answered_iff (H : Hasher) (source : List UInt8) (workdir : List Char) :
    (∀ sourcePath host,
      Answered H source workdir host (extractBundle H sourcePath source workdir host)) ↔
    Whole source ∧ Proper H source :=
  ⟨whole_of_answered, fun h => answered_of_whole h.1 h.2⟩

/-- **A file that ends in the magic of the end record is a panic.** -/
theorem magic_at_the_end_panics : ¬ ∀ (H : Hasher) (source : List UInt8)
    (sourcePath workdir : List Char) (host : Host),
    Answered H source workdir host (extractBundle H sourcePath source workdir host) := by
  intro hall
  have hwhole := (whole_of_answered fun sourcePath host => hall crc32
    (List.replicate 18 0 ++ toLeBytes 4 endMagic) sourcePath [] host).1
  have hplace : rposition (toLeBytes 4 endMagic)
      (tailOf (List.replicate 18 0 ++ toLeBytes 4 endMagic)) = some 18 := by decide
  have hends := hwhole.ends (by decide) 18 hplace
  exact absurd hends (by decide)

end RevBox.ApkBundle
