import RevBox.Desktop.ApkBundle
import RevBox.Support.Text
import Mathlib.Data.List.DropRight

/-!
# Desktop — ApkBundleNames

`sanitize` of `services/apk_bundle.rs`, by which every file of a bundle is named. Blanks are folded,
the ends are trimmed of blanks and dots, the name is cut and a device name of Windows is set off
with an underscore; the later of these can bring back what the earlier took away.

* `safeName_iff`: when the name is one that can be used, and is left as it is by another turn.
-/

namespace RevBox.ApkBundle

/-! ### Folded names -/

/-- A name without what is illegal, whose blanks are single spaces; `lastWasSpace` says whether it
stands behind one. -/
def Folded : Bool → List Char → Prop
  | _, [] => True
  | lastWasSpace, c :: s =>
      (isControl c = false ∧ c ∉ illegal) ∧
        if Text.isWhitespace c then c = ' ' ∧ lastWasSpace = false ∧ Folded true s
        else Folded false s

variable {b : Bool} {c : Char} {s t : List Char} {max : Nat}

theorem folded_cleaned (b : Bool) (s : List Char) : Folded b (cleaned b s) := by
  induction s generalizing b with
  | nil => trivial
  | cons c s ih =>
      rw [cleaned]
      split_ifs with hillegal hblank hspace
      · exact ⟨by decide, ih false⟩
      · rw [hspace]
        exact ih true
      · exact ⟨by decide, rfl, Bool.eq_false_iff.mpr hspace, ih true⟩
      · rw [Bool.or_eq_true, not_or, Bool.not_eq_true, List.contains_iff_mem] at hillegal
        refine ⟨hillegal, ?_⟩
        rw [if_neg hblank]
        exact ih false

theorem cleaned_of_folded (h : Folded b s) : cleaned b s = s := by
  induction s generalizing b with
  | nil => rfl
  | cons c s ih =>
      obtain ⟨⟨hcontrol, hillegal⟩, hrest⟩ := h
      have hlegal : ¬ (isControl c || illegal.contains c) = true := by
        rw [hcontrol, Bool.false_or, List.contains_iff_mem]
        exact hillegal
      rw [cleaned, if_neg hlegal]
      split_ifs at hrest ⊢ with hblank
      · exact absurd hrest.2.1 (by simp_all)
      · rw [ih hrest.2.2, hrest.1]
      · rw [ih hrest]

theorem Folded.legal (h : Folded b s) : ∀ c ∈ s, isControl c = false ∧ c ∉ illegal := by
  induction s generalizing b with
  | nil => simp
  | cons c s ih =>
      obtain ⟨hlegal, hrest⟩ := h
      have hs : ∀ c ∈ s, isControl c = false ∧ c ∉ illegal := by
        split_ifs at hrest
        · exact ih hrest.2.2
        · exact ih hrest
      exact List.forall_mem_cons.mpr ⟨hlegal, hs⟩

theorem Folded.part (h : Folded b t) (hs : s <+: t) : Folded b s := by
  obtain ⟨u, rfl⟩ := hs
  induction s generalizing b with
  | nil => trivial
  | cons c s ih =>
      refine ⟨h.1, ?_⟩
      have hrest := h.2
      split_ifs at hrest ⊢
      · exact ⟨hrest.1, hrest.2.1, ih hrest.2.2⟩
      · exact ih hrest

/-- What may stand behind a space may stand anywhere. -/
theorem Folded.anywhere (h : Folded b s) : Folded false s := by
  cases s with
  | nil => trivial
  | cons c s =>
      refine ⟨h.1, ?_⟩
      have hrest := h.2
      split_ifs at hrest ⊢
      · exact ⟨hrest.1, rfl, hrest.2.2⟩
      · exact hrest

/-- What does not begin with a space may stand behind one. -/
theorem Folded.behind (h : Folded b s) (hs : s.head? ≠ some ' ') : Folded true s := by
  cases s with
  | nil => trivial
  | cons c s =>
      refine ⟨h.1, ?_⟩
      have hrest := h.2
      split_ifs at hrest ⊢
      · exact absurd (congrArg some hrest.1) hs
      · exact hrest

theorem Folded.dropDots (h : Folded b s) : Folded false (s.dropWhile (· = '.')) := by
  induction s generalizing b with
  | nil => trivial
  | cons c s ih =>
      by_cases hc : c = '.'
      · subst hc
        exact ih h.2
      · rw [List.dropWhile_cons_of_neg (by simpa using hc)]
        exact h.anywhere

/-- Two spaces do not stand together. -/
theorem Folded.not_blank_second (h : Folded b (' ' :: c :: s)) : Text.isWhitespace c = false := by
  have hc : Folded true (c :: s) := h.2.2.2
  by_contra hblank
  have hrest := hc.2
  rw [if_pos (Bool.not_eq_false _ ▸ hblank)] at hrest
  cases hrest.2.1

/-! ### The cut -/

theorem fitting_isPrefix (max : Nat) (s : List Char) : fitting max s <+: s := by
  induction s generalizing max with
  | nil => exact List.prefix_refl _
  | cons c s ih =>
      rw [fitting]
      split_ifs
      · exact List.prefix_cons_inj c |>.mpr (ih _)
      · exact List.nil_prefix

theorem length_fitting_le (max : Nat) (s : List Char) :
    (Utf8.encode (fitting max s)).length ≤ max := by
  induction s generalizing max with
  | nil => exact Nat.zero_le _
  | cons c s ih =>
      rw [fitting]
      split_ifs with hfits
      · rw [Utf8.length_encode_cons]
        have := ih (max - c.utf8Size)
        omega
      · exact Nat.zero_le _

/-- **What fits** is what stands before the first character that does not. -/
theorem fitting_eq (q : List Char) (hs : (Utf8.encode s).length ≤ max)
    (hc : max < (Utf8.encode (s ++ [c])).length) : fitting max (s ++ c :: q) = s := by
  induction s generalizing max with
  | nil =>
      have hwide : ¬ c.utf8Size ≤ max := by
        rw [List.nil_append, Utf8.length_encode_cons] at hc
        exact Nat.not_le_of_lt hc
      rw [List.nil_append, fitting, if_neg hwide]
  | cons d s ih =>
      rw [List.cons_append, Utf8.length_encode_cons] at hc
      rw [Utf8.length_encode_cons] at hs
      rw [List.cons_append, fitting, if_pos (Nat.le_trans (Nat.le_add_right _ _) hs),
        ih (by omega) (by omega)]

/-- A name is cut where the next character does not fit. -/
theorem fitting_cut {max : Nat} {s : List Char} (hlong : max < (Utf8.encode s).length) :
    ∃ c q, s = fitting max s ++ c :: q ∧
      max < (Utf8.encode (fitting max s ++ [c])).length := by
  induction s generalizing max with
  | nil => cases hlong
  | cons d s ih =>
      rw [Utf8.length_encode_cons] at hlong
      rw [fitting]
      split_ifs with hfits
      · have hrest : max - d.utf8Size < (Utf8.encode s).length := by omega
        obtain ⟨c, q, hs, hc⟩ := ih hrest
        refine ⟨c, q, congrArg (d :: ·) hs, ?_⟩
        rw [List.cons_append, Utf8.length_encode_cons]
        omega
      · refine ⟨d, s, rfl, ?_⟩
        rw [List.nil_append, Utf8.length_encode_cons]
        omega

theorem truncateBytes_isPrefix (s : List Char) (max : Nat) : truncateBytes s max <+: s := by
  rw [truncateBytes]
  split_ifs
  · exact List.prefix_refl s
  · exact (Text.trimEnd_isPrefix _).trans (fitting_isPrefix max s)

theorem length_encode_le (h : s <+: t) :
    (Utf8.encode s).length ≤ (Utf8.encode t).length := by
  obtain ⟨u, rfl⟩ := h
  rw [Utf8.encode_append, List.length_append]
  exact Nat.le_add_right _ _

theorem length_truncateBytes_le (s : List Char) (max : Nat) :
    (Utf8.encode (truncateBytes s max)).length ≤ max := by
  rw [truncateBytes]
  split_ifs with hfits
  · exact hfits
  · exact Nat.le_trans (length_encode_le (Text.trimEnd_isPrefix _))
      (length_fitting_le max s)

/-- **The cut is behind a dot**, or behind the blanks behind a dot. -/
def CutAfterDot (s : List Char) (max : Nat) : Prop :=
  ∃ p blanks c q, s = p ++ '.' :: (blanks ++ c :: q) ∧
    (∀ b ∈ blanks, Text.isWhitespace b = true) ∧
    (Utf8.encode (p ++ '.' :: blanks)).length ≤ max ∧
    max < (Utf8.encode (p ++ '.' :: (blanks ++ [c]))).length

/-- What is left of a name that is cut ends with a dot exactly if it is cut behind one. -/
theorem truncateBytes_dot_iff
    (hs : (Utf8.encode s).length ≤ max → s.getLast? ≠ some '.') :
    (truncateBytes s max).getLast? = some '.' ↔ CutAfterDot s max := by
  constructor
  · intro hdot
    rw [truncateBytes] at hdot
    split_ifs at hdot with hfits
    · exact absurd hdot (hs hfits)
    · obtain ⟨c, q, hcut, hc⟩ := fitting_cut (Nat.lt_of_not_le hfits)
      have hparts : Text.trimEnd (fitting max s) ++
          (fitting max s).rtakeWhile Text.isWhitespace = fitting max s :=
        List.rdropWhile_append_rtakeWhile
      obtain ⟨p, hp⟩ := List.getLast?_eq_some_iff.mp hdot
      rw [hp, List.append_assoc, List.singleton_append] at hparts
      rw [← hparts, List.append_assoc, List.cons_append] at hcut hc
      refine ⟨p, _, c, q, hcut, fun b hb => List.mem_rtakeWhile_imp hb, ?_, hc⟩
      rw [hparts]
      exact length_fitting_le max s
  · rintro ⟨p, blanks, c, q, rfl, hblanks, hfits, hlong⟩
    have hnot : ¬ (Utf8.encode (p ++ '.' :: (blanks ++ c :: q))).length ≤ max := by
      refine Nat.not_le_of_lt (Nat.lt_of_lt_of_le hlong (length_encode_le ⟨q, ?_⟩))
      simp
    have hfitting : fitting max (p ++ '.' :: (blanks ++ c :: q)) = p ++ '.' :: blanks := by
      have hcut := fitting_eq (s := p ++ '.' :: blanks) (c := c) q hfits (by simpa using hlong)
      simpa using hcut
    have hblank : Text.trimEnd blanks = [] := List.rdropWhile_eq_nil_iff.mpr hblanks
    have hdot : Text.trimEnd ['.'] = ['.'] := by decide
    rw [truncateBytes, if_neg hnot, hfitting, List.append_cons,
      Text.trimEnd_append_blank _ hblank, Text.trimEnd_append _ (by rw [hdot]; decide), hdot,
      List.getLast?_concat]

/-- What is left of a name ends with no space. -/
theorem truncateBytes_blank (hs : (Utf8.encode s).length ≤ max → s.getLast? ≠ some ' ') :
    (truncateBytes s max).getLast? ≠ some ' ' := by
  rw [truncateBytes]
  split_ifs with hfits
  · exact hs hfits
  · intro hlast
    obtain ⟨p, hp⟩ := List.getLast?_eq_some_iff.mp hlast
    have hne : (fitting max s).rdropWhile Text.isWhitespace ≠ [] := by
      change Text.trimEnd (fitting max s) ≠ []
      rw [hp]
      simp
    have hspace : ((fitting max s).rdropWhile Text.isWhitespace).getLast hne = ' ' := by
      have hlast' := List.getLast?_eq_some_getLast hne
      exact (Option.some.inj (hlast'.symm.trans hlast))
    exact List.rdropWhile_last_not _ _ hne (hspace ▸ by decide)

/-! ### Device names -/

/-- No device name begins with a space or an underscore. -/
theorem isReserved_blank (s : List Char) : isReservedWindowsName (' ' :: s) = false := by
  have hupper : Char.toUpper ' ' = ' ' := rfl
  simp [isReservedWindowsName, hupper]

theorem isReserved_underscore (s : List Char) : isReservedWindowsName ('_' :: s) = false := by
  have hupper : Char.toUpper '_' = '_' := rfl
  simp [isReservedWindowsName, hupper]

theorem isReserved_nil : isReservedWindowsName [] = false := by decide

/-! ### Before the cut -/

/-- The name before it is cut. -/
def whole (raw : List Char) : List Char :=
  ((cleaned true raw).rdropWhile fun c => c = ' ' || c = '.').dropWhile (· = '.')

theorem folded_whole (raw : List Char) : Folded false (whole raw) :=
  ((folded_cleaned true raw).part <| List.rdropWhile_prefix _ _).dropDots

theorem head_whole (raw : List Char) : (whole raw).head? ≠ some '.' := by
  intro hdot
  have hnot := List.head?_dropWhile_not (fun c : Char => decide (c = '.'))
    ((cleaned true raw).rdropWhile fun c => c = ' ' || c = '.')
  unfold whole at hdot
  rw [hdot] at hnot
  exact absurd hnot (by decide)

theorem last_whole (raw : List Char) :
    (whole raw).getLast? ≠ some ' ' ∧ (whole raw).getLast? ≠ some '.' := by
  have hlast {c : Char} (hc : (whole raw).getLast? = some c) :
      ¬ (decide (c = ' ') || decide (c = '.')) = true := by
    obtain ⟨dots, hdots⟩ := List.dropWhile_suffix (fun c : Char => decide (c = '.'))
      (l := (cleaned true raw).rdropWhile fun c => c = ' ' || c = '.')
    have hwhole : ((cleaned true raw).rdropWhile fun c => c = ' ' || c = '.').getLast? =
        some c := by
      rw [← hdots, List.getLast?_append]
      exact (congrArg (Option.or · _) hc).trans rfl
    have hne : ((cleaned true raw).rdropWhile fun c => c = ' ' || c = '.') ≠ [] := by
      intro hnil
      rw [hnil] at hwhole
      cases hwhole
    have hget := Option.some.inj ((List.getLast?_eq_some_getLast hne).symm.trans hwhole)
    exact hget ▸ List.rdropWhile_last_not _ _ hne
  exact ⟨fun h => hlast h rfl, fun h => hlast h rfl⟩

/-! ### Names that can be used -/

/-- A name that can be used, and is left as it is. -/
structure SafeName (name : List Char) (max : Nat) : Prop where
  fits : (Utf8.encode name).length ≤ max
  legal : ∀ c ∈ name, isControl c = false ∧ c ∉ illegal
  head : name.head? ≠ some '.' ∧ name.head? ≠ some ' '
  last : name.getLast? ≠ some '.' ∧ name.getLast? ≠ some ' '
  unreserved : isReservedWindowsName name = false
  again : sanitize name max = name

/-- **A name is left as it is** if it is folded, fits and ends and begins as it should. -/
theorem sanitize_eq_self {name : List Char} (hfolded : Folded b name)
    (hfits : (Utf8.encode name).length ≤ max)
    (hhead : name.head? ≠ some '.' ∧ name.head? ≠ some ' ')
    (hlast : name.getLast? ≠ some '.' ∧ name.getLast? ≠ some ' ')
    (hreserved : isReservedWindowsName name = false) : sanitize name max = name := by
  have hends : (name.rdropWhile fun c => c = ' ' || c = '.') = name := by
    rw [List.rdropWhile_eq_self_iff]
    intro hne htrim
    have hget := List.getLast?_eq_some_getLast hne
    rw [Bool.or_eq_true, decide_eq_true_iff, decide_eq_true_iff] at htrim
    rcases htrim with h | h
    · exact hlast.2 (h ▸ hget)
    · exact hlast.1 (h ▸ hget)
  have hbegins : name.dropWhile (· = '.') = name := by
    cases name with
    | nil => rfl
    | cons c name =>
        rw [List.dropWhile_cons_of_neg]
        intro hc
        exact hhead.1 (congrArg some (of_decide_eq_true hc))
  have htruncate : truncateBytes name max = name := if_pos hfits
  rw [sanitize]
  simp only [cleaned_of_folded (hfolded.behind hhead.2), hends, hbegins, htruncate, hreserved,
    Bool.false_eq_true, if_false]

theorem safeName_of {name : List Char} (hfolded : Folded b name)
    (hfits : (Utf8.encode name).length ≤ max)
    (hhead : name.head? ≠ some '.' ∧ name.head? ≠ some ' ')
    (hlast : name.getLast? ≠ some '.' ∧ name.getLast? ≠ some ' ')
    (hreserved : isReservedWindowsName name = false) : SafeName name max :=
  ⟨hfits, hfolded.legal, hhead, hlast, hreserved,
    sanitize_eq_self hfolded hfits hhead hlast hreserved⟩

/-- **Nothing comes back that was taken away**: no space behind leading dots, of what fits, and no
cut behind a dot, of the name or, where the rest is a device name that fills all there is, of the
name with the underscore before it. -/
def CutsWell (raw : List Char) (max : Nat) : Prop :=
  (∀ c q, whole raw = ' ' :: c :: q → max < 1 + c.utf8Size) ∧
    let kept := truncateBytes (whole raw) max
    if isReservedWindowsName kept = true ∧ (Utf8.encode kept).length = max then
      ¬ CutAfterDot ('_' :: kept) max
    else ¬ CutAfterDot (whole raw) max

/-- The part of a name that begins with a space and is kept. -/
theorem kept_blank_iff (h : Folded b (' ' :: c :: s)) :
    truncateBytes (' ' :: c :: s) max = [] ↔ max < 1 + c.utf8Size := by
  have hc : ¬ Text.isWhitespace c = true := by
    rw [h.not_blank_second]
    exact Bool.false_ne_true
  have hspace : ' '.utf8Size = 1 := by decide
  have hlength : (Utf8.encode (' ' :: c :: s)).length =
      1 + (c.utf8Size + (Utf8.encode s).length) := by
    rw [Utf8.length_encode_cons, Utf8.length_encode_cons, hspace]
  rw [truncateBytes, hlength]
  split_ifs with hfits
  · exact iff_of_false not_false (by omega)
  · have hnil : Text.trimEnd (fitting max (' ' :: c :: s)) = [] ↔
        ∀ d ∈ fitting max (' ' :: c :: s), Text.isWhitespace d = true :=
      List.rdropWhile_eq_nil_iff
    rw [hnil, fitting, hspace]
    split_ifs with hone
    · rw [fitting]
      split_ifs with htwo
      · refine iff_of_false (fun hall => hc (hall c ?_)) (by omega)
        exact List.mem_cons_of_mem _ List.mem_cons_self
      · refine iff_of_true ?_ (by omega)
        rintro d hd
        rw [List.mem_singleton] at hd
        exact hd ▸ by decide
    · exact iff_of_true (fun d hd => by cases hd) (by omega)

/-- What is kept begins as the name does. -/
theorem head_of_part (hs : s <+: t) (hne : s ≠ []) : s.head? = t.head? := by
  obtain ⟨u, rfl⟩ := hs
  rw [List.head?_append_of_ne_nil _ hne]

theorem kept_head_iff (raw : List Char) (max : Nat) :
    (truncateBytes (whole raw) max).head? ≠ some ' ' ↔
      ∀ c q, whole raw = ' ' :: c :: q → max < 1 + c.utf8Size := by
  constructor
  · intro hhead c q hwhole
    have hfolded := folded_whole raw
    rw [hwhole] at hfolded hhead
    rw [← kept_blank_iff hfolded]
    by_contra hne
    exact hhead (head_of_part (truncateBytes_isPrefix _ _) hne)
  · intro hnone hhead
    have hne : truncateBytes (whole raw) max ≠ [] := by
      intro hnil
      rw [hnil] at hhead
      cases hhead
    rw [head_of_part (truncateBytes_isPrefix _ _) hne] at hhead
    obtain ⟨tail, hwhole⟩ := List.head?_eq_some_iff.mp hhead
    cases tail with
    | nil => exact (last_whole raw).1 (by rw [hwhole]; rfl)
    | cons c q =>
        have hfolded := folded_whole raw
        rw [hwhole] at hfolded hne
        exact hne ((kept_blank_iff hfolded).mpr (hnone c q hwhole))

/-- A name that is set off with an underscore. -/
theorem safeName_underscore {kept : List Char} (hfolded : Folded false kept)
    (hblank : kept.getLast? ≠ some ' ') :
    SafeName (truncateBytes ('_' :: kept) max) max ↔
      (truncateBytes ('_' :: kept) max).getLast? ≠ some '.' := by
  refine ⟨fun h => h.last.1, fun hdot => ?_⟩
  have hprefix := truncateBytes_isPrefix ('_' :: kept) max
  have hfolded' : Folded false ('_' :: kept) := ⟨by decide, hfolded⟩
  have hlast : ('_' :: kept).getLast? ≠ some ' ' := by
    cases kept with
    | nil => decide
    | cons c kept =>
        rw [List.getLast?_cons_cons]
        exact hblank
  have hbegins : truncateBytes ('_' :: kept) max = [] ∨
      ∃ rest, truncateBytes ('_' :: kept) max = '_' :: rest := by
    rcases List.prefix_cons_iff.mp hprefix with hnil | ⟨rest, hrest, -⟩
    · exact .inl hnil
    · exact .inr ⟨rest, hrest⟩
  refine safeName_of (hfolded'.part hprefix) (length_truncateBytes_le _ _) ?_
    ⟨hdot, truncateBytes_blank fun _ => hlast⟩ ?_
  · rcases hbegins with h | ⟨rest, h⟩
    · rw [h]
      decide
    · rw [h, List.head?_cons]
      decide
  · rcases hbegins with h | ⟨rest, h⟩
    · rw [h, isReserved_nil]
    · rw [h, isReserved_underscore]

/-- A device name that is set off ends with a dot if it is cut behind one, then or before. -/
theorem underscore_dot_iff {kept : List Char} (hfits : (Utf8.encode kept).length ≤ max)
    (hne : kept ≠ []) : (truncateBytes ('_' :: kept) max).getLast? = some '.' ↔
      if (Utf8.encode kept).length = max then CutAfterDot ('_' :: kept) max
      else kept.getLast? = some '.' := by
  have hone : '_'.utf8Size = 1 := by decide
  have hlength : (Utf8.encode ('_' :: kept)).length = 1 + (Utf8.encode kept).length := by
    rw [Utf8.length_encode_cons, hone]
  split_ifs with hfull
  · exact truncateBytes_dot_iff fun h => absurd h (by omega)
  · have hall : truncateBytes ('_' :: kept) max = '_' :: kept := if_pos (by omega)
    obtain ⟨c, rest, rfl⟩ := List.exists_cons_of_ne_nil hne
    rw [hall, List.getLast?_cons_cons]

/-- **A name can be used, and is left as it is, exactly if nothing comes back.** -/
theorem safeName_iff (raw : List Char) (max : Nat) :
    SafeName (sanitize raw max) max ↔ CutsWell raw max := by
  have hkept : sanitize raw max =
      if isReservedWindowsName (truncateBytes (whole raw) max) = true then
        truncateBytes ('_' :: truncateBytes (whole raw) max) max
      else truncateBytes (whole raw) max := rfl
  have hprefix := truncateBytes_isPrefix (whole raw) max
  have hfolded : Folded false (truncateBytes (whole raw) max) :=
    (folded_whole raw).part hprefix
  have hfits := length_truncateBytes_le (whole raw) max
  have hdot : (truncateBytes (whole raw) max).getLast? = some '.' ↔ CutAfterDot (whole raw) max :=
    truncateBytes_dot_iff fun _ => (last_whole raw).2
  have hblank : (truncateBytes (whole raw) max).getLast? ≠ some ' ' :=
    truncateBytes_blank fun _ => (last_whole raw).1
  have hhead := kept_head_iff raw max
  rw [hkept, CutsWell]
  generalize truncateBytes (whole raw) max = kept at *
  dsimp only
  rw [← hhead, ← hdot]
  have hdots : kept.head? ≠ some '.' := by
    intro h
    have hne : kept ≠ [] := fun hnil => by
      rw [hnil] at h
      cases h
    exact head_whole raw (head_of_part hprefix hne ▸ h)
  by_cases hreserved : isReservedWindowsName kept = true
  · -- a device name, which begins with no space
    have hne : kept ≠ [] := by
      rintro rfl
      exact absurd hreserved (by decide)
    have hletter : kept.head? ≠ some ' ' := by
      intro h
      obtain ⟨rest, rfl⟩ := List.head?_eq_some_iff.mp h
      rw [isReserved_blank] at hreserved
      cases hreserved
    rw [if_pos hreserved, safeName_underscore hfolded hblank, ne_eq, underscore_dot_iff hfits hne]
    simp only [hreserved, true_and]
    split_ifs
    · exact (and_iff_right hletter).symm
    · exact (and_iff_right hletter).symm
  · simp only [hreserved, false_and, if_false, Bool.false_eq_true]
    refine ⟨fun h => ⟨h.head.2, h.last.1⟩, fun h => ?_⟩
    exact safeName_of hfolded hfits ⟨hdots, h.1⟩ ⟨h.2, hblank⟩ (Bool.eq_false_iff.mpr hreserved)

/-- **A space behind a leading dot** is kept, and goes at another turn. -/
theorem sanitize_blank : ¬ ∀ (raw : List Char) (max : Nat), 1 ≤ max →
    SafeName (sanitize raw max) max := by
  intro h
  have hagain : sanitize ". a".toList 180 = " a".toList := by decide
  have hsafe := h ". a".toList 180 (by decide)
  rw [hagain] at hsafe
  exact hsafe.head.2 rfl

/-- A cut leaves a dot at the end. -/
example : sanitize "a. b".toList 3 = "a.".toList := by decide

/-- The underscore pushes the last letter out, and a dot is left. -/
example : sanitize "nul.a".toList 5 = "_nul.".toList := by decide

end RevBox.ApkBundle
