import RevBox.Desktop.FsRooted

/-!
# Desktop — FsProbe

What the probe of the root leg makes of what is on the phone, and what each of its commands
leaves: the parts every result about the root leg is made of.

* `fsProbe_seen`: an entry is made out, with its kind, its mode and its size, unless its clock
  stands before 1970.
* `fsProbe_unseen`: of a path where there is nothing the probe never says so; it fails.
* `mkdir_fails`, `rename_run`, `remove_run`, `chmod_run`: what the four commands come to.
-/

namespace RevBox

open FileTree RootShell

namespace FsRooted

variable {t t' : Disk} {e : Entry Attr} {path : List Char}

/-! ### The line of `stat` -/

theorem not_mem_typeName (e : Entry Attr) : '\n' ∉ typeName e ∧ '\r' ∉ typeName e := by
  unfold typeName
  split <;> decide

theorem last_typeName (e : Entry Attr) : ∃ s c, typeName e = s ++ [c] ∧
    Text.isWhitespace c = false := by
  unfold typeName
  split
  · exact ⟨"director".toList, 'y', by decide, by decide⟩
  · exact ⟨"regular fil".toList, 'e', by decide, by decide⟩
  · exact ⟨"symbolic lin".toList, 'k', by decide, by decide⟩

theorem kind_typeName (e : Entry Attr) {f : StatFields} (hf : f.kindText = typeName e) :
    f.kind = kindOf e := by
  unfold StatFields.kind kindOf
  rw [hf]
  unfold typeName
  split <;> decide

/-- What a number is written with. -/
def Digit (c : Char) : Prop := 0x30 ≤ c.toNat ∧ c.toNat ≤ 0x39

theorem Digit.ne {c d : Char} (h : Digit c) (hd : d.toNat < 0x30 ∨ 0x39 < d.toNat) : c ≠ d := by
  rintro rfl
  unfold Digit at h
  omega

theorem digit_octal {n : Nat} {c : Char} (h : c ∈ Nat.toDigits 8 n) : Digit c := by
  obtain ⟨hl, hu⟩ := Text.digit_of_mem_toDigits (by decide) (by decide) h
  exact ⟨hl, by omega⟩

theorem digit_decimal {n : Nat} {c : Char} (h : c ∈ Text.decimal n) : Digit c := by
  obtain ⟨hl, hu⟩ := Text.digit_of_mem_toDigits (by decide) (by decide) h
  exact ⟨hl, by omega⟩

theorem mem_signed {n : Int} {c : Char} (h : c ∈ signed n) : c = '-' ∨ Digit c := by
  unfold signed at h
  split at h
  · exact (List.mem_cons.mp h).imp_right digit_decimal
  · exact .inr (digit_decimal h)

/-- A character of the numbers of the line. -/
theorem bar_not_mem_signed (n : Int) : '|' ∉ signed n := fun h =>
  (mem_signed h).elim (by decide) fun hd => hd.ne (.inr (by decide)) rfl

theorem bar_not_mem_decimal (n : Nat) : '|' ∉ Text.decimal n := fun h =>
  (digit_decimal h).ne (.inr (by decide)) rfl

theorem bar_not_mem_octal (n : Nat) : '|' ∉ Nat.toDigits 8 n := fun h =>
  (digit_octal h).ne (.inr (by decide)) rfl

/-- The line of `stat` of something with these attributes, of a kind that is called so. -/
def statText (a : Attr) (name : List Char) : List Char :=
  Nat.toDigits 8 a.perm.toNat ++ '|' :: (Text.decimal a.size.toNat ++ '|' ::
    (Text.decimal a.uid.toNat ++ '|' :: (Text.decimal a.gid.toNat ++ '|' ::
      (signed a.mtime.toInt ++ '|' :: name))))

/-- A name of a kind: on one line, and without a blank at its end. -/
structure Spelled (name : List Char) : Prop where
  line : '\n' ∉ name ∧ '\r' ∉ name
  last : ∃ s c, name = s ++ [c] ∧ Text.isWhitespace c = false

theorem spelled_typeName (e : Entry Attr) : Spelled (typeName e) :=
  ⟨not_mem_typeName e, last_typeName e⟩

theorem mem_statText {a : Attr} {name : List Char} {c : Char} (h : c ∈ statText a name) :
    Digit c ∨ c = '|' ∨ c = '-' ∨ c ∈ name := by
  simp only [statText, List.mem_append, List.mem_cons] at h
  rcases h with h | h | h | h | h | h | h | h | h | h | h
  · exact .inl (digit_octal h)
  · exact .inr (.inl h)
  · exact .inl (digit_decimal h)
  · exact .inr (.inl h)
  · exact .inl (digit_decimal h)
  · exact .inr (.inl h)
  · exact .inl (digit_decimal h)
  · exact .inr (.inl h)
  · exact (mem_signed h).elim (fun h => .inr (.inr (.inl h))) .inl
  · exact .inr (.inl h)
  · exact .inr (.inr (.inr h))

theorem statText_one_line {name : List Char} (a : Attr) (h : Spelled name) :
    '\n' ∉ statText a name ∧ '\r' ∉ statText a name := by
  refine ⟨fun hc => ?_, fun hc => ?_⟩
  · rcases mem_statText hc with hc | hc | hc | hc
    · exact hc.ne (.inl (by decide)) rfl
    · exact absurd hc (by decide)
    · exact absurd hc (by decide)
    · exact h.line.1 hc
  · rcases mem_statText hc with hc | hc | hc | hc
    · exact hc.ne (.inl (by decide)) rfl
    · exact absurd hc (by decide)
    · exact absurd hc (by decide)
    · exact h.line.2 hc

theorem statLine_one_line (e : Entry Attr) : '\n' ∉ statLine e ∧ '\r' ∉ statLine e :=
  statText_one_line e.attr (spelled_typeName e)

theorem trim_statText {name : List Char} (a : Attr) (hname : Spelled name) :
    Text.trim (statText a name) = statText a name := by
  refine Text.trim_eq_self (fun h => ?_) fun h => ?_
  · obtain ⟨c, cs, hc⟩ :=
      List.exists_cons_of_ne_nil (Nat.toDigits_ne_nil (n := a.perm.toNat) (b := 8))
    have hhead : (statText a name).head h = c := by simp [statText, hc]
    have hd : Digit c := digit_octal (hc ▸ List.mem_cons_self)
    rw [hhead]
    exact Text.not_whitespace_of_isAsciiDigit (by simpa [Text.isAsciiDigit, Digit] using hd)
  · obtain ⟨s, c, hs, hc⟩ := hname.last
    have hlast : (statText a name).getLast h = c := by simp [statText, hs]
    rwa [hlast]

/-- The six fields of the line. -/
theorem splitn_statText (a : Attr) (name : List Char) : Text.splitn '|' 6 (statText a name) =
    [Nat.toDigits 8 a.perm.toNat, Text.decimal a.size.toNat, Text.decimal a.uid.toNat,
      Text.decimal a.gid.toNat, signed a.mtime.toInt, name] := by
  unfold statText
  rw [Text.splitn_append 4 _ (bar_not_mem_octal _), Text.splitn_append 3 _ (bar_not_mem_decimal _),
    Text.splitn_append 2 _ (bar_not_mem_decimal _), Text.splitn_append 1 _ (bar_not_mem_decimal _),
    Text.splitn_append 0 _ (bar_not_mem_signed _)]
  rfl

/-- The fields that the line holds. -/
def fieldsFrom (a : Attr) (name : List Char) : StatFields where
  mode := a.perm.toNat
  size := a.size.toNat
  uid := a.uid.toNat
  gid := a.gid.toNat
  mtimeUnix := a.mtime.toInt.natAbs
  kindText := name

/-- The fields that the line of an entry holds. -/
def fieldsOf (e : Entry Attr) : StatFields where
  mode := mode e
  size := e.attr.size.toNat
  uid := e.attr.uid.toNat
  gid := e.attr.gid.toNat
  mtimeUnix := e.attr.mtime.toInt.natAbs
  kindText := typeName e

theorem parseUnsigned_negative {bound : Nat} {n : Int} (h : n < 0) :
    Text.parseUnsigned bound (signed n) = none := by
  have hall : (signed n).all Text.isAsciiDigit = false := by
    rw [signed, if_pos h, List.all_cons]
    rfl
  unfold Text.parseUnsigned
  split
  · rename_i rest hrest
    rw [signed, if_pos h] at hrest
    cases hrest
  · simp [hall]

/-- **The line is read as it was written**, unless the clock stands before 1970. -/
theorem parseStatFields_statText (a : Attr) {name : List Char} (h : Spelled name) :
    parseStatFields (statText a name) =
      if 0 ≤ a.mtime.toInt then some (fieldsFrom a name) else none := by
  have hmode : Text.fromStrRadix 8 (2 ^ 32) (Nat.toDigits 8 a.perm.toNat) = some a.perm.toNat :=
    Text.fromStrRadix_toDigits (by decide) (by decide) (Nat.lt_trans a.perm.isLt (by decide))
  have hsize : Text.parseUnsigned (2 ^ 64) (Text.decimal a.size.toNat) = some a.size.toNat :=
    Text.parseUnsigned_decimal a.size.toNat_lt
  have huid : Text.parseUnsigned (2 ^ 32) (Text.decimal a.uid.toNat) = some a.uid.toNat :=
    Text.parseUnsigned_decimal a.uid.toNat_lt
  have hgid : Text.parseUnsigned (2 ^ 32) (Text.decimal a.gid.toNat) = some a.gid.toNat :=
    Text.parseUnsigned_decimal a.gid.toNat_lt
  unfold parseStatFields
  rw [Text.trimEndMatches_of_not_mem (statText_one_line a h).2, trim_statText a h, splitn_statText]
  simp only [hmode, hsize, huid, hgid, Option.bind_eq_bind, Option.bind_some]
  split
  · rename_i hm
    have hlt : a.mtime.toInt.natAbs < 2 ^ 64 := by
      have := a.mtime.toInt_lt
      omega
    rw [signed, if_neg (Int.not_lt.mpr hm), Text.parseUnsigned_decimal hlt]
    rfl
  · rename_i hm
    rw [parseUnsigned_negative (Int.not_le.mp hm)]
    rfl

theorem parseStatFields_statLine (e : Entry Attr) : parseStatFields (statLine e) =
    if 0 ≤ e.attr.mtime.toInt then some (fieldsOf e) else none :=
  parseStatFields_statText e.attr (spelled_typeName e)

/-! ### The probe -/

/-- What the probe makes out at a path. -/
def Seen (t : Disk) (path : List Char) (e : Entry Attr) : Prop :=
  t.lstat (components path) = .ok e ∧ 0 ≤ e.attr.mtime.toInt

theorem Seen.unique {e' : Entry Attr} (h : Seen t path e) (h' : Seen t path e') : e = e' :=
  Except.ok.inj (h.1.symm.trans h'.1)

theorem parseRootedStat_line {l : List Char} (hn : '\n' ∉ l) (hr : '\r' ∉ l) (rest : List Char) :
    (parseRootedStat (line l ++ rest)).map RootedStat.fields = parseStatFields l := by
  have hlines : Text.lines (line l ++ rest) = l :: Text.lines rest := by
    have hrev : '\r' ∉ l.reverse := fun h => hr (List.mem_reverse.mp h)
    rw [line, List.append_assoc, List.cons_append, List.nil_append, Text.lines_append rest hn,
      Text.chomp_of_not_mem hrev, List.reverse_reverse]
  unfold parseRootedStat
  simp only [hlines, List.map_cons, Text.trimEndMatches_of_not_mem hr, Option.map_map]
  cases parseStatFields l <;> rfl

/-- **An entry is made out**, unless its clock stands before 1970. -/
theorem fsProbe_seen (h : Seen t path e) : ∃ r, fsProbe t path = .ok (some r) ∧
    r.stat.kind = kindOf e ∧ r.stat.mode = mode e ∧ r.stat.size = e.attr.size.toNat := by
  obtain ⟨hl, hm⟩ := h
  obtain ⟨hn, hr⟩ := statLine_one_line e
  obtain ⟨rest, hout⟩ : ∃ rest, (statScript t path false).stdout = line (statLine e) ++ rest := by
    simp only [statScript, hl, Bool.false_eq_true, if_false, List.append_assoc]
    exact ⟨_, rfl⟩
  have hparse := parseRootedStat_line hn hr rest
  rw [parseStatFields_statLine, if_pos hm] at hparse
  obtain ⟨stat, hstat, hfields⟩ := Option.map_eq_some_iff.mp hparse
  have hread : statRooted t path false = .ok stat := by
    have hcode : (statScript t path false).exitCode = some 0 := rfl
    simp only [statRooted, fsReadRooted, hcode, if_true, hout, hstat]
  refine ⟨_, by simp only [fsProbe, fileStatRooted, hread]; rfl, ?_, ?_, ?_⟩
  · exact kind_typeName e (by rw [hfields]; rfl)
  · simp only [hfields]
    rfl
  · simp only [hfields]
    rfl

/-- **Of a path where there is nothing the probe never says so**: its command succeeds, and what
it prints is no line of `stat`. -/
theorem fsProbe_unseen (h : ∀ e, ¬ Seen t path e) : ∃ m, fsProbe t path = .error (.internal m) := by
  obtain ⟨l, rest, hn, hr, hnone, hout⟩ : ∃ l rest, '\n' ∉ l ∧ '\r' ∉ l ∧
      parseStatFields l = none ∧ (statScript t path false).stdout = line l ++ rest := by
    cases hl : t.lstat (components path) with
    | ok e =>
        have hm : ¬ 0 ≤ e.attr.mtime.toInt := fun hm => h e ⟨hl, hm⟩
        obtain ⟨hn, hr⟩ := statLine_one_line e
        refine ⟨statLine e, ?_, hn, hr, (parseStatFields_statLine e).trans (if_neg hm), ?_⟩
        rotate_left
        · simp only [statScript, hl, Bool.false_eq_true, if_false, List.append_assoc]
          rfl
    | error err =>
        cases ht : t.resolve (components path) with
        | ok p =>
            refine ⟨"@R".toList, ?_, by decide, by decide, by decide, ?_⟩
            rotate_left
            · simp only [statScript, hl, ht, Bool.false_eq_true, if_false, List.append_assoc,
                List.nil_append]
              rfl
        | error err' =>
            refine ⟨"@N".toList, ?_, by decide, by decide, by decide, ?_⟩
            rotate_left
            · simp only [statScript, hl, ht, Bool.false_eq_true, if_false, List.append_assoc,
                List.nil_append]
              rfl
  have hparse := parseRootedStat_line hn hr rest
  rw [hnone] at hparse
  have hnone' := Option.map_eq_none_iff.mp hparse
  have hread : ∃ m, statRooted t path false = .error (.internal m) := by
    have hcode : (statScript t path false).exitCode = some 0 := rfl
    simp only [statRooted, fsReadRooted, hcode, if_true, hout, hnone']
    exact ⟨_, rfl⟩
  obtain ⟨m, hm⟩ := hread
  refine ⟨m, ?_⟩
  simp only [fsProbe, fileStatRooted, hm, CoreError.code]
  rfl

/-! ### The commands -/

variable {newDir : Attr} {target source : List Char} {q p : Path}

theorem probe_seen (h : Seen t path e) : ∃ r, probe path t = .ok (some r) t ∧
    r.stat.kind = kindOf e ∧ r.stat.mode = mode e ∧ r.stat.size = e.attr.size.toNat := by
  obtain ⟨r, hr, hrest⟩ := fsProbe_seen h
  exact ⟨r, by simp only [probe, hr], hrest⟩

theorem probe_unseen (h : ∀ e, ¬ Seen t path e) : ∃ err, probe path t = .error err t := by
  obtain ⟨m, hm⟩ := fsProbe_unseen h
  exact ⟨.internal m, by simp only [probe, hm]⟩

theorem found_some (err : CoreError) (r : StatResult) : found err (some r) t = .ok r t := rfl

theorem run_failed {command : Command} {name : String} {at_ : List Char}
    (h : run newDir t command = failed t name at_) :
    ∃ err, fsRunRooted newDir command t = .error err t := by
  unfold fsRunRooted
  rw [h]
  exact ⟨_, rfl⟩

theorem run_done {command : Command} (h : run newDir t command = done t') :
    fsRunRooted newDir command t = .ok [] t' := by
  unfold fsRunRooted
  rw [h]
  rfl

/-- **`fs_mkdir_rooted` never makes a directory**: it runs `mkdir` only where it has found
something. -/
theorem mkdir_fails (newDir : Attr) (target : List Char) (t : Disk) :
    ∃ err, fsMkdirRooted newDir target t = .error err t := by
  unfold fsMkdirRooted
  by_cases h : ∃ e, Seen t target e
  · obtain ⟨e, he⟩ := h
    obtain ⟨r, hr, -⟩ := probe_seen he
    obtain ⟨q, hq, hget⟩ := Tree.lstat_eq_ok.mp he.1
    have hexists : t.mkdir (components target) newDir = .error .eexist := by
      simp only [Tree.mkdir, hq, Tree.mkdirAt, hget]
      rfl
    have hrun : run newDir t (.mkdir target) = failed t "mkdir" target := by
      simp only [run, hexists, ofCall]
    obtain ⟨err, herr⟩ := run_failed hrun
    exact ⟨err, (bind_ok hr).trans (bind_error herr)⟩
  · obtain ⟨err, herr⟩ := probe_unseen fun e he => h ⟨e, he⟩
    exact ⟨err, bind_error herr⟩

/-- **`fs_rename_rooted` never moves anything**: it finds the source, and then never finds that
nothing is at the target. -/
theorem rename_run (newDir : Attr) (source target : List Char) (t : Disk) :
    (source = target ∧ (∃ e, Seen t source e) ∧
      ∃ r, fsRenameRooted newDir source target t = .ok r t ∧ r.noOp = true) ∨
    (¬ (source = target ∧ ∃ e, Seen t source e) ∧
      ∃ err, fsRenameRooted newDir source target t = .error err t) := by
  unfold fsRenameRooted
  by_cases h : ∃ e, Seen t source e
  · obtain ⟨e, he⟩ := h
    obtain ⟨r, hr, -⟩ := probe_seen he
    rw [bind_ok hr, bind_ok (found_some _ r)]
    by_cases hst : source = target
    · rw [if_pos hst]
      exact .inl ⟨hst, ⟨e, he⟩, _, rfl, rfl⟩
    · rw [if_neg hst]
      refine .inr ⟨fun hs => hst hs.1, ?_⟩
      by_cases ht : ∃ e', Seen t target e'
      · obtain ⟨e', he'⟩ := ht
        obtain ⟨r', hr', -⟩ := probe_seen he'
        exact ⟨_, (bind_ok hr').trans rfl⟩
      · obtain ⟨err, herr⟩ := probe_unseen fun e' he' => ht ⟨e', he'⟩
        exact ⟨err, bind_error herr⟩
  · obtain ⟨err, herr⟩ := probe_unseen fun e he => h ⟨e, he⟩
    exact .inr ⟨fun hs => h hs.2, err, bind_error herr⟩

/-- What `fs_remove_rooted` finds in a directory: the listing, without the blanks at its ends. -/
def listing (t : Disk) (q : Path) : List Char := Text.trim ((t.names q).flatMap line)

/-- `rm -rf` is run: the target is made out, and it may be taken as it is. -/
def Taken (t : Disk) (target : List Char) (recursive : Bool) (q : Path) : Prop :=
  ∃ e, Seen t target e ∧ t.locate (components target) = .ok q ∧
    (e.node.isDir = true → recursive = false → listing t q = [])

theorem kindOf_dir (e : Entry Attr) : kindOf e = .dir ↔ e.node.isDir = true := by
  unfold kindOf
  split
  · rename_i hn
    simp [hn, Node.isDir, Node.dirId?]
  · rename_i hn
    simp [hn, Node.isDir, Node.dirId?]
  · rename_i hn
    simp [hn, Node.isDir, Node.dirId?]

/-- What is taken is gone, and the page says that it failed: the last probe finds nothing. -/
theorem removeFound_run (newDir : Attr) (hne : components target ≠ []) (hseen : Seen t target e)
    (hq : t.locate (components target) = .ok q) (recursive : Bool) (before : StatResult) :
    ∃ err t', removeFound newDir target recursive before t = .error err t' ∧
      t.eraseAt q = .ok t' := by
  obtain ⟨q', hq', hget⟩ := Tree.lstat_eq_ok.mp hseen.1
  obtain rfl : q' = q := Except.ok.inj (hq'.symm.trans hq)
  have hqne := Tree.locate_ne_nil hq hne
  have herase := Tree.eraseAt_ok (t := t) hqne
  have hrun : run newDir t (.rmRf target) = done (t.erase q' hqne) := by
    simp only [run, Tree.removeAll, Tree.onEntry_of_get hq hget, herase]
  have hgone := Tree.gone_erase herase
  have hunseen : ∀ e', ¬ Seen (t.erase q' hqne) target e' := fun e' he' =>
    hgone.lstat_ne_ok hqne hq he'.1
  obtain ⟨err, herr⟩ := probe_unseen hunseen
  exact ⟨err, _, (bind_ok (run_done hrun)).trans (bind_error herr), herase⟩

/-- **`fs_remove_rooted` takes what it may, and never says so.** -/
theorem remove_run (hne : components target ≠ []) (newDir : Attr) (recursive : Bool) (t : Disk) :
    (∃ err t' q, fsRemoveRooted newDir target recursive t = .error err t' ∧
      Taken t target recursive q ∧ t.eraseAt q = .ok t') ∨
    ((∀ q, ¬ Taken t target recursive q) ∧
      ∃ err, fsRemoveRooted newDir target recursive t = .error err t) := by
  unfold fsRemoveRooted
  by_cases h : ∃ e, Seen t target e
  · obtain ⟨e, he⟩ := h
    obtain ⟨r, hr, hkind, -⟩ := probe_seen he
    obtain ⟨q, hq, hget⟩ := Tree.lstat_eq_ok.mp he.1
    obtain ⟨err, t', hrun, herase⟩ := removeFound_run newDir hne he hq recursive r
    rw [bind_ok hr]
    simp only
    by_cases hdir : r.stat.kind = .dir ∧ recursive = false
    · have hisDir := (kindOf_dir e).mp (hkind.symm.trans hdir.1)
      have hls : fsRunRooted newDir (.lsA target) t = .ok (listing t q) t := by
        have hout : run newDir t (.lsA target) = (⟨some 0, (t.names q).flatMap line, []⟩, t) := by
          simp only [run, hq, hget, hisDir, if_true]
        unfold fsRunRooted
        rw [hout]
        rfl
      rw [if_pos hdir, bind_ok hls]
      by_cases hempty : listing t q = []
      · rw [if_neg (not_not_intro hempty)]
        exact .inl ⟨err, t', q, hrun, ⟨e, he, hq, fun _ _ => hempty⟩, herase⟩
      · rw [if_pos hempty]
        refine .inr ⟨fun q' ⟨e', he', hq', hl⟩ => hempty ?_, _, rfl⟩
        obtain rfl := he.unique he'
        obtain rfl : q = q' := Except.ok.inj (hq.symm.trans hq')
        exact hl hisDir hdir.2
    · rw [if_neg hdir]
      refine .inl ⟨err, t', q, hrun, ⟨e, he, hq, fun hisDir hrec => ?_⟩, herase⟩
      exact absurd ⟨hkind.trans ((kindOf_dir e).mpr hisDir), hrec⟩ hdir
  · obtain ⟨err, herr⟩ := probe_unseen fun e he => h ⟨e, he⟩
    exact .inr ⟨fun q ⟨e, he, _⟩ => h ⟨e, he⟩, err, bind_error herr⟩

/-- `chmod` takes effect at `p`. -/
def Chmods (t : Disk) (target : List Char) (bits : UInt32) (p : Path) : Prop :=
  (∃ e, Seen t target e) ∧ bits.toNat ≤ 0o7777 ∧ t.resolve (components target) = .ok p

/-- **`fs_chmod_rooted` sets the mode where the path leads**, links followed, special bits and
all. -/
theorem chmod_run (newDir : Attr) (target : List Char) (bits : UInt32) (t : Disk) :
    (∃ p q e r, Chmods t target bits p ∧ Seen t target e ∧
      t.locate (components target) = .ok q ∧
      fsChmodRooted newDir target bits t = .ok r (t.setAttr p (setMode bits.toNat)) ∧
      r.verified = decide (mode (Tree.reattr p (setMode bits.toNat) q e) = bits.toNat)) ∨
    ((∀ p, ¬ Chmods t target bits p) ∧
      ∃ err, fsChmodRooted newDir target bits t = .error err t) := by
  unfold fsChmodRooted
  by_cases h : ∃ e, Seen t target e
  · obtain ⟨e, he⟩ := h
    obtain ⟨r, hr, -⟩ := probe_seen he
    obtain ⟨q, hq, hget⟩ := Tree.lstat_eq_ok.mp he.1
    rw [bind_ok hr, bind_ok (found_some _ r)]
    by_cases hbits : bits.toNat ≤ 0o7777
    · cases hp : t.resolve (components target) with
      | ok p =>
          have hrun : run newDir t (.chmod bits.toNat target) =
              done (t.setAttr p (setMode bits.toNat)) := by
            simp only [run, if_neg (Nat.not_lt.mpr hbits), Tree.change, hp, ofCall]
          have he' : Seen (t.setAttr p (setMode bits.toNat)) target
              (Tree.reattr p (setMode bits.toNat) q e) := by
            refine ⟨Tree.lstat_setAttr hq hget, ?_⟩
            have hm := he.2
            unfold Tree.reattr
            split <;> exact hm
          obtain ⟨r', hr', -, hmode, -⟩ := probe_seen he'
          refine .inl ⟨p, q, e, _, ⟨⟨e, he⟩, hbits, hp⟩, he, hq,
            (bind_ok (run_done hrun)).trans ((bind_ok hr').trans rfl), ?_⟩
          simp only [hmode]
      | error err =>
          have hrun : run newDir t (.chmod bits.toNat target) = failed t "chmod" target := by
            simp only [run, if_neg (Nat.not_lt.mpr hbits), Tree.change, hp, ofCall]
          obtain ⟨err', herr⟩ := run_failed hrun
          exact .inr ⟨fun p hc => (by cases hp.symm.trans hc.2.2), err', bind_error herr⟩
    · have hrun : run newDir t (.chmod bits.toNat target) = failed t "chmod" target := by
        simp only [run, if_pos (Nat.lt_of_not_le hbits)]
      obtain ⟨err', herr⟩ := run_failed hrun
      exact .inr ⟨fun p hc => hbits hc.2.1, err', bind_error herr⟩
  · obtain ⟨err, herr⟩ := probe_unseen fun e he => h ⟨e, he⟩
    exact .inr ⟨fun p hc => h hc.1, err, bind_error herr⟩

end FsRooted

end RevBox
