import RevBox.Desktop.FilePreview

/-!
# Desktop — PreviewText

The preview of the Agent, of a file of text. The window is cut at bytes before its bytes are found
to be text or not, so that a character on the edge of it makes the whole preview one of digits.

* `previewsText_iff`: when a file of text is shown as text.
-/

namespace RevBox

namespace FilePreview

variable {file : Pointed} {text : List Char} {maxBytes : Option UInt32} {fromEnd : Bool}

/-- The preview is one of text, of the end or of the beginning of the file, and tells whether that
is all of it. -/
def PreviewsText (file : Pointed) (text : List Char) (maxBytes : Option UInt32) (fromEnd : Bool) :
    Prop :=
  ∃ r shown, preview file maxBytes fromEnd = .ok r ∧ r.encoding = .utf8 ∧ r.text = some shown ∧
    (if fromEnd then shown <:+ text else shown <+: text) ∧ (r.truncated = true ↔ shown ≠ text)

/-- The window that is read. -/
def windowAt (file : Pointed) (maxBytes : Option UInt32) (fromEnd : Bool) : List UInt8 :=
  readSlice file.content (offsetOf file maxBytes fromEnd) (limitOf maxBytes)

/-- **The cut is between characters**, where there is one, and the size that `stat` reports tells
whether there is one. A size below what there is, as it is for a file that grows, moves the window
away from the end. -/
def CutsBetween (file : Pointed) (text : List Char) (maxBytes : Option UInt32) (fromEnd : Bool) :
    Prop :=
  let limit := limitOf maxBytes
  let size := file.attr.size.toNat
  let length := file.content.length
  (length ≤ limit ∧ size ≤ length) ∨
    limit < size ∧
      if fromEnd then
        0 < length ∧ Utf8.Boundary text (min length (size - limit)) ∧
          Utf8.Boundary text (min length size) ∧
          (size < length → windowAt file maxBytes true <:+ file.content)
      else limit < length ∧ Utf8.Boundary text limit

/-- The size that `stat` reports of a file at rest. -/
theorem cutsBetween_at_rest (hcontent : file.content = Utf8.encode text)
    (hsize : file.attr.size.toNat = file.content.length) :
    CutsBetween file text maxBytes fromEnd ↔ file.content.length ≤ limitOf maxBytes ∨
      Utf8.Boundary text
        (if fromEnd then file.content.length - limitOf maxBytes else limitOf maxBytes) := by
  have hend : Utf8.Boundary text file.content.length := hcontent ▸ Utf8.boundary_length text
  unfold CutsBetween
  dsimp only
  rw [hsize]
  rcases Nat.lt_or_ge (limitOf maxBytes) file.content.length with hlt | hge
  · have hpos : 0 < file.content.length := Nat.lt_of_le_of_lt (Nat.zero_le _) hlt
    cases fromEnd with
    | true => simp [hlt, hend, hpos, Nat.not_le_of_lt hlt]
    | false => simp [hlt, Nat.not_le_of_lt hlt]
  · simp [hge]

/-! ### The window -/

theorem length_windowAt_le : (windowAt file maxBytes fromEnd).length ≤ limitOf maxBytes := by
  rw [windowAt, readSlice, List.length_take]
  exact Nat.min_le_left _ _

theorem limitOf_pos (hmax : ∀ m ∈ maxBytes, 4 ≤ m.toNat) : 0 < limitOf maxBytes := by
  cases maxBytes with
  | none => decide
  | some m =>
      have hm : 4 ≤ m.toNat := hmax m rfl
      rw [limitOf]
      exact Nat.lt_min.mpr ⟨Nat.lt_of_lt_of_le (by decide) hm, by decide⟩

/-- **What is shown is what the window holds**, where that is text. -/
theorem previewsText_iff_window (hfile : file.kind = .file) (hnul : 0 ∉ file.content) :
    PreviewsText file text maxBytes fromEnd ↔
      ∃ shown, windowAt file maxBytes fromEnd = Utf8.encode shown ∧
        (if fromEnd then shown <:+ text else shown <+: text) ∧
        ((windowAt file maxBytes fromEnd).length < file.attr.size.toNat ↔ shown ≠ text) := by
  have hzero : (windowAt file maxBytes fromEnd).contains 0 = false := by
    rw [Bool.eq_false_iff, ne_eq, List.contains_iff_mem]
    exact fun hmem => hnul (List.mem_of_mem_drop (List.mem_of_mem_take hmem))
  have hreturned : returnedBytes (windowAt file maxBytes fromEnd) =
      (windowAt file maxBytes fromEnd).length := by
    refine if_pos (Nat.lt_of_le_of_lt length_windowAt_le ?_)
    exact Nat.lt_of_le_of_lt (Nat.min_le_right _ _) (by decide)
  have hpreview : ∃ r, preview file maxBytes fromEnd = .ok r ∧
      (r.encoding, r.text, r.hex) = encodingOf hexEncode (windowAt file maxBytes fromEnd) ∧
      r.truncated = decide (returnedBytes (windowAt file maxBytes fromEnd) <
        file.attr.size.toNat) := by
    unfold preview
    rw [if_neg (not_not_intro hfile)]
    exact ⟨_, rfl, rfl, rfl⟩
  obtain ⟨r, hr, hencoding, htruncated⟩ := hpreview
  rw [hreturned] at htruncated
  constructor
  · rintro ⟨r', shown, hr', hutf8, htext, hpart, hcut⟩
    cases hr.symm.trans hr'
    rw [htruncated, decide_eq_true_iff] at hcut
    refine ⟨shown, ?_, hpart, hcut⟩
    rw [encodingOf] at hencoding
    cases hread : Utf8.fromUtf8 (windowAt file maxBytes fromEnd) with
    | none =>
        rw [hread] at hencoding
        cases hutf8.symm.trans (congrArg Prod.fst hencoding)
    | some found =>
        rw [hread] at hencoding
        dsimp only at hencoding
        rw [hzero, if_neg Bool.false_ne_true] at hencoding
        cases htext.symm.trans (congrArg (·.2.1) hencoding)
        exact Utf8.fromUtf8_eq_some_iff.mp hread
  · rintro ⟨shown, hshown, hpart, hcut⟩
    rw [encodingOf, Utf8.fromUtf8_eq_some_iff.mpr hshown] at hencoding
    dsimp only at hencoding
    rw [hzero, if_neg Bool.false_ne_true] at hencoding
    refine ⟨r, shown, hr, congrArg Prod.fst hencoding, congrArg (·.2.1) hencoding, hpart, ?_⟩
    rw [htruncated, decide_eq_true_iff]
    exact hcut

/-! ### The beginning of a file -/

section Window

variable (hcontent : file.content = Utf8.encode text)
include hcontent

theorem ne_of_length_lt {shown : List Char}
    (h : (Utf8.encode shown).length < file.content.length) : shown ≠ text := by
  rintro rfl
  rw [hcontent] at h
  exact Nat.lt_irrefl _ h

/-- A file that is read from its beginning to its end. -/
theorem whole_iff (hwindow : windowAt file maxBytes fromEnd = file.content) :
    (∃ shown, windowAt file maxBytes fromEnd = Utf8.encode shown ∧
      (if fromEnd then shown <:+ text else shown <+: text) ∧
      ((windowAt file maxBytes fromEnd).length < file.attr.size.toNat ↔ shown ≠ text)) ↔
    file.attr.size.toNat ≤ file.content.length := by
  rw [hwindow]
  constructor
  · rintro ⟨shown, hshown, -, hcut⟩
    have hall : shown = text := Utf8.encode_inj_list (hshown.symm.trans hcontent)
    exact Nat.le_of_not_lt fun hlt => hcut.mp hlt hall
  · intro hle
    refine ⟨text, hcontent, ?_, ?_⟩
    · cases fromEnd
      · exact List.prefix_refl text
      · exact List.suffix_refl text
    · exact iff_of_false (Nat.not_lt_of_le hle) (fun h => h rfl)

/-- A file of which the beginning is read. -/
theorem beginning_iff (hpos : 0 < limitOf maxBytes) (hlt : limitOf maxBytes < file.content.length) :
    (∃ shown, windowAt file maxBytes false = Utf8.encode shown ∧ shown <+: text ∧
      ((windowAt file maxBytes false).length < file.attr.size.toNat ↔ shown ≠ text)) ↔
    limitOf maxBytes < file.attr.size.toNat ∧ Utf8.Boundary text (limitOf maxBytes) := by
  have hwindow : windowAt file maxBytes false =
      ((Utf8.encode text).take (limitOf maxBytes)).drop 0 := by
    rw [← hcontent]
    rfl
  have hlength : (windowAt file maxBytes false).length = limitOf maxBytes := by
    rw [hwindow, List.drop_zero, ← hcontent]
    exact List.length_take_of_le (Nat.le_of_lt hlt)
  have hlimit : limitOf maxBytes ≤ (Utf8.encode text).length := hcontent ▸ Nat.le_of_lt hlt
  have hslice := Utf8.slice_iff hpos hlimit
  constructor
  · rintro ⟨shown, hshown, -, hcut⟩
    rw [hlength] at hcut
    refine ⟨hcut.mpr (ne_of_length_lt hcontent ?_), (hslice.mp ⟨shown, hwindow ▸ hshown⟩).2⟩
    rw [← hshown, hlength]
    exact hlt
  · rintro ⟨hsize, hboundary⟩
    obtain ⟨shown, hshown⟩ := hslice.mpr ⟨Utf8.boundary_zero text, hboundary⟩
    rw [← hwindow] at hshown
    refine ⟨shown, hshown, ?_, ?_⟩
    · have hcut : Utf8.encode text =
          Utf8.encode shown ++ (Utf8.encode text).drop (limitOf maxBytes) := by
        rw [← hshown, hwindow, List.drop_zero, List.take_append_drop]
      obtain ⟨b, hb, -⟩ := Utf8.prefix_of_encode hcut
      exact ⟨b, hb.symm⟩
    · rw [hlength]
      refine iff_of_true hsize (ne_of_length_lt hcontent ?_)
      rw [← hshown, hlength]
      exact hlt

/-! ### The end of a file -/

theorem windowAt_end (hsize : limitOf maxBytes < file.attr.size.toNat) :
    windowAt file maxBytes true =
      ((Utf8.encode text).take (min file.content.length file.attr.size.toNat)).drop
        (file.attr.size.toNat - limitOf maxBytes) := by
  have hsum : file.attr.size.toNat - limitOf maxBytes + limitOf maxBytes =
      file.attr.size.toNat := Nat.sub_add_cancel (Nat.le_of_lt hsize)
  rw [windowAt, readSlice, offsetOf, if_pos rfl, List.take_drop, hsum, ← hcontent, Nat.min_comm,
    List.take_eq_take_min]

/-- What is shown ends the file exactly if the window does. -/
theorem suffix_iff {shown : List Char} {w : List UInt8} (hshown : w = Utf8.encode shown) :
    shown <:+ text ↔ w <:+ file.content := by
  subst hshown
  rw [hcontent]
  constructor
  · rintro ⟨u, rfl⟩
    exact ⟨Utf8.encode u, (Utf8.encode_append u shown).symm⟩
  · rintro ⟨u, hu⟩
    rcases eq_or_ne shown [] with rfl | hne
    · exact List.nil_suffix
    · have hcut : Utf8.encode text = u ++ (Utf8.encode shown ++ []) := by
        rw [List.append_nil, hu]
      obtain ⟨a, b, htext, -, hb⟩ := Utf8.middle_of_encode hne hcut
      have hnil : b = [] := by
        by_contra hb'
        exact Utf8.encode_ne_nil hb' hb
      rw [hnil, List.append_nil] at htext
      exact ⟨a, htext.symm⟩

/-- A window that begins behind the beginning of the file. -/
theorem length_windowAt_end (hsize : limitOf maxBytes < file.attr.size.toNat)
    (hne : 0 < file.content.length) :
    (windowAt file maxBytes true).length < file.content.length := by
  rw [windowAt_end hcontent hsize, List.length_drop, List.length_take, ← hcontent]
  omega

/-- A window that is text. -/
theorem slice_end_iff (hpos : 0 < limitOf maxBytes)
    (hsize : limitOf maxBytes < file.attr.size.toNat)
    (hlt : file.attr.size.toNat - limitOf maxBytes < file.content.length) :
    (∃ shown, windowAt file maxBytes true = Utf8.encode shown) ↔
      Utf8.Boundary text (file.attr.size.toNat - limitOf maxBytes) ∧
        Utf8.Boundary text (min file.content.length file.attr.size.toNat) := by
  rw [windowAt_end hcontent hsize]
  refine Utf8.slice_iff (Nat.lt_min.mpr ⟨hlt, by omega⟩) ?_
  rw [hcontent]
  exact Nat.min_le_left _ _

/-- A file of which the end is read. -/
theorem ending_iff (hpos : 0 < limitOf maxBytes) (hsize : limitOf maxBytes < file.attr.size.toNat) :
    (∃ shown, windowAt file maxBytes true = Utf8.encode shown ∧ shown <:+ text ∧
      ((windowAt file maxBytes true).length < file.attr.size.toNat ↔ shown ≠ text)) ↔
    0 < file.content.length ∧
      Utf8.Boundary text (min file.content.length (file.attr.size.toNat - limitOf maxBytes)) ∧
      Utf8.Boundary text (min file.content.length file.attr.size.toNat) ∧
      (file.attr.size.toNat < file.content.length →
        windowAt file maxBytes true <:+ file.content) := by
  have hshort : (windowAt file maxBytes true).length < file.attr.size.toNat :=
    Nat.lt_of_le_of_lt length_windowAt_le hsize
  have hend : Utf8.Boundary text file.content.length := hcontent ▸ Utf8.boundary_length text
  rcases Nat.eq_zero_or_pos file.content.length with hnil | hne
  · -- an empty file that is reported to hold something
    refine iff_of_false ?_ fun h => Nat.ne_of_gt h.1 hnil
    rintro ⟨shown, hshown, hsuffix, hcut⟩
    have hempty : text = [] := by
      by_contra htext
      exact Utf8.encode_ne_nil htext (hcontent ▸ List.length_eq_zero_iff.mp hnil)
    rw [hempty, List.suffix_nil] at hsuffix
    exact hcut.mp hshort (hsuffix.trans hempty.symm)
  · have hless := length_windowAt_end hcontent hsize hne
    have hdiffers {shown : List Char} (h : windowAt file maxBytes true = Utf8.encode shown) :
        (windowAt file maxBytes true).length < file.attr.size.toNat ↔ shown ≠ text :=
      iff_of_true hshort (ne_of_length_lt hcontent (h ▸ hless))
    rcases Nat.lt_or_ge (file.attr.size.toNat - limitOf maxBytes) file.content.length with hlt | hge
    · rw [Nat.min_eq_right (Nat.le_of_lt hlt)]
      have hslice := slice_end_iff hcontent hpos hsize hlt
      constructor
      · rintro ⟨shown, hshown, hsuffix, -⟩
        obtain ⟨hfrom, hto⟩ := hslice.mp ⟨shown, hshown⟩
        exact ⟨hne, hfrom, hto, fun _ => (suffix_iff hcontent hshown).mp hsuffix⟩
      · rintro ⟨-, hfrom, hto, hstale⟩
        obtain ⟨shown, hshown⟩ := hslice.mpr ⟨hfrom, hto⟩
        have hwindow : windowAt file maxBytes true <:+ file.content := by
          rcases Nat.lt_or_ge file.attr.size.toNat file.content.length with hgrown | hall
          · exact hstale hgrown
          · rw [windowAt_end hcontent hsize, Nat.min_eq_left hall, ← hcontent, List.take_length]
            exact List.drop_suffix _ _
        exact ⟨shown, hshown, (suffix_iff hcontent hshown).mpr hwindow, hdiffers hshown⟩
    · -- nothing is left where the window begins
      have hempty : windowAt file maxBytes true = [] := by
        rw [windowAt, readSlice, offsetOf, if_pos rfl, List.drop_eq_nil_of_le hge, List.take_nil]
      have hsize' : file.content.length ≤ file.attr.size.toNat := by omega
      rw [Nat.min_eq_left hge, Nat.min_eq_left hsize']
      exact iff_of_true ⟨[], hempty, List.nil_suffix, hdiffers hempty⟩
        ⟨hne, hend, hend, fun h => absurd hsize' (Nat.not_le_of_lt h)⟩

end Window

/-! ### Files of text -/

/-- **A file of text is shown as text exactly if it is cut between characters**, or not at all. -/
theorem previewsText_iff (hfile : file.kind = .file) (hcontent : file.content = Utf8.encode text)
    (hnul : 0 ∉ file.content) (hmax : ∀ m ∈ maxBytes, 4 ≤ m.toNat) :
    PreviewsText file text maxBytes fromEnd ↔ CutsBetween file text maxBytes fromEnd := by
  have hpos := limitOf_pos hmax
  rw [previewsText_iff_window hfile hnul, CutsBetween]
  have hread (h : offsetOf file maxBytes fromEnd = 0)
      (hle : file.content.length ≤ limitOf maxBytes) :
      windowAt file maxBytes fromEnd = file.content := by
    rw [windowAt, readSlice, h, List.drop_zero, List.take_of_length_le hle]
  cases fromEnd with
  | false =>
      simp only [Bool.false_eq_true, if_false] at *
      rcases Nat.lt_or_ge (limitOf maxBytes) file.content.length with hlt | hle
      · rw [beginning_iff hcontent hpos hlt]
        simp only [hlt, true_and, Nat.not_le_of_lt hlt, false_and, false_or]
      · have hwhole := whole_iff hcontent (hread rfl hle)
        simp only [Bool.false_eq_true, if_false] at hwhole
        rw [hwhole]
        simp only [hle, true_and, Nat.not_lt_of_le hle, false_and, and_false, or_false]
  | true =>
      simp only [if_true] at *
      rcases Nat.lt_or_ge (limitOf maxBytes) file.attr.size.toNat with hlt | hle
      · rw [ending_iff hcontent hpos hlt]
        have hnot : ¬ (file.content.length ≤ limitOf maxBytes ∧
            file.attr.size.toNat ≤ file.content.length) := by omega
        simp only [hlt, true_and, hnot, false_or]
      · have hoffset : offsetOf file maxBytes true = 0 := by
          rw [offsetOf, if_pos rfl, Nat.sub_eq_zero_of_le hle]
        simp only [Nat.not_lt_of_le hle, false_and, or_false]
        rcases Nat.lt_or_ge (limitOf maxBytes) file.content.length with hlt' | hle'
        · -- the reported size hides that something is left out
          have hlength : (windowAt file maxBytes true).length = limitOf maxBytes := by
            rw [windowAt, readSlice, hoffset, List.drop_zero]
            exact List.length_take_of_le (Nat.le_of_lt hlt')
          refine iff_of_false ?_ fun h => Nat.not_le_of_lt hlt' h.1
          rintro ⟨shown, hshown, -, hcut⟩
          have hne : shown ≠ text := by
            refine ne_of_length_lt hcontent ?_
            rw [← hshown, hlength]
            exact hlt'
          have hsize := hcut.mpr hne
          rw [hlength] at hsize
          exact Nat.not_le_of_lt hsize hle
        · have hwhole := whole_iff hcontent (hread hoffset hle')
          simp only [if_true] at hwhole
          rw [hwhole]
          exact (and_iff_right hle').symm

/-- A file of `é`, of two bytes each. -/
def accents (n : Nat) : Pointed where
  kind := .file
  attr := ⟨0o644, UInt64.ofNat (2 * n), 0, 0, 1700000000⟩
  content := Utf8.encode (List.replicate n 'é')
  real := "/sdcard/a.txt".toList
  link := none
  followed := procVersion.followed
  sized := fun h => absurd rfl h

theorem previewsText_iff_accents :
    PreviewsText (accents 3) (List.replicate 3 'é') (some 4) false ↔
      CutsBetween (accents 3) (List.replicate 3 'é') (some 4) false :=
  previewsText_iff rfl rfl (by decide) (fun m hm => by cases hm; decide)

/-- **A character on the edge of the window** makes the preview one of digits, at either end. -/
theorem previewsText_splits : ¬ ∀ (file : Pointed) (text : List Char) (maxBytes : Option UInt32)
    (fromEnd : Bool), file.kind = .file → file.content = Utf8.encode text → 0 ∉ file.content →
    (∀ m ∈ maxBytes, 4 ≤ m.toNat) → PreviewsText file text maxBytes fromEnd := by
  intro h
  obtain ⟨r, shown, hr, hutf8, -⟩ := h (accents 3) (List.replicate 3 'é') (some 5) true rfl rfl
    (by decide) (fun m hm => by cases hm; decide)
  have hhex : (preview (accents 3) (some 5) true).toOption.map (·.encoding) = some .hex := by
    decide
  rw [hr] at hhex
  cases hutf8.symm.trans (Option.some.inj hhex)

end FilePreview

end RevBox
