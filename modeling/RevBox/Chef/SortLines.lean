import RevBox.Chef.Data
import RevBox.Support.Sorting
import RevBox.Support.Split
import RevBox.Support.Utf8
import Mathlib.Data.List.Perm.Subperm

/-!
# Chef — SortLines

The operation `sortLines` of `services/chef/ops/text.rs`. A line that is no number compares equal
to all of them, which is no order, and equal lines are dropped where they are neighbours.

The reading of a number is a parameter, to a linear order: what is not a number, or is `NaN`, has
no value. The sort is a parameter with its documented outcomes.

* `sortsLines_iff`: when lines are sorted, and left once.
-/

namespace RevBox.Chef

open Sorting

/-! ### The code -/

section Code

variable {κ : Type} [LinearOrder κ] (value : List Char → Option κ)

/-- `str::replace`. -/
def replaceText (s pattern replacement : List Char) : List Char :=
  Split.join replacement (Split.split pattern s)

/-- `unescape_separator`. -/
def unescapeSeparator (raw : List Char) : List Char :=
  replaceText (replaceText raw ['\\', 'n'] ['\n']) ['\\', 't'] ['\t']

/-- The comparison of `sort_lines`. -/
def compareLines (key : String) (a b : List Char) : Ordering :=
  match key with
  | "number" =>
      match value (Text.trim a), value (Text.trim b) with
      | some left, some right => compare left right
      | _, _ => .eq
  | "length" => compare a.length b.length
  | _ => compare ((Utf8.encode a).map UInt8.toNat) ((Utf8.encode b).map UInt8.toNat)

/-- `slice::sort_by`; none is a panic. -/
abbrev SortBy := (List Char → List Char → Ordering) → List (List Char) → Option (List (List Char))

/-- The arguments, with their defaults. -/
def orderOf (args : Args) : String := args.choice "order" "asc"
def keyOf (args : Args) : String := args.choice "by" "text"
def separatorOf (args : Args) : List Char :=
  unescapeSeparator (args.choice "separator" "\n").toList

/-- The lines that are sorted. -/
def linesOf (text : List Char) (args : Args) : List (List Char) :=
  (Split.split (separatorOf args) text).filter fun line =>
    !(args.boolOf "skipEmpty" && line = [])

/-- The sorted lines, reversed and left once as the arguments say. -/
def arranged (order : String) (unique : Bool) (sorted : List (List Char)) : List (List Char) :=
  let lines := if order = "desc" then sorted.reverse else sorted
  if unique then dedup lines else lines

/-- `sort_lines`. -/
def sortLines (sortBy : SortBy) (data : ChefData) (args : Args) : Option (ChefResult ChefData) :=
  match args.choiceIn "order" "asc" ["asc", "desc"] with
  | .error e => some (.error e)
  | .ok order =>
      match args.choiceIn "by" "text" ["text", "number", "length"] with
      | .error e => some (.error e)
      | .ok key =>
          match data.text with
          | .error e => some (.error e)
          | .ok text =>
              (sortBy (compareLines value key) (linesOf text args)).map fun sorted =>
                .ok (.fromText
                  (Split.join (separatorOf args) (arranged order (args.boolOf "unique") sorted)))

/-! ### What sorting means -/

/-- The lines are those of the text, left out only as the arguments say, and in order by their
numbers, if they are sorted by them; and none is there twice, if they are to be unique. -/
structure SortedAs (text : List Char) (args : Args) (out : List (List Char)) : Prop where
  lines : if args.boolOf "unique" ∨ args.boolOf "skipEmpty" then
      out.Subperm (Split.split (separatorOf args) text)
    else out.Perm (Split.split (separatorOf args) text)
  numbers : keyOf args = "number" → (out.filterMap fun line => value (Text.trim line)).Pairwise
    fun x y => if orderOf args = "desc" then y ≤ x else x ≤ y
  once : args.boolOf "unique" = true → out.Nodup

/-- The lines of a text are sorted, whatever a documented sort does. -/
def SortsLines (text : List Char) (args : Args) : Prop :=
  ∀ sortBy : SortBy, Sorting.Documented sortBy →
    ∃ sorted, sortBy (compareLines value (keyOf args)) (linesOf text args) = some sorted ∧
      let out := arranged (orderOf args) (args.boolOf "unique") sorted
      sortLines value sortBy (.fromText text) args =
          some (.ok (.fromText (Split.join (separatorOf args) out))) ∧
        SortedAs value text args out

/-- **Every line has a number, or all that have one have the same**, if the lines are sorted by
numbers; and, if they are to be unique, between equal lines stands none that compares equal to them
but is another. -/
structure Sortable (text : List Char) (args : Args) : Prop where
  numbers : keyOf args = "number" →
    (∀ line ∈ linesOf text args, value (Text.trim line) ≠ none) ∨
      ∀ a ∈ linesOf text args, ∀ b ∈ linesOf text args, ∀ x y,
        value (Text.trim a) = some x → value (Text.trim b) = some y → x = y
  once : args.boolOf "unique" = true → ∀ a b, compareLines value (keyOf args) a b = .eq →
    [a, b, a].Sublist (linesOf text args) → b = a

/-! ### The comparison -/

variable {value} {key : String} {lines sorted : List (List Char)} {a b : List Char}

theorem compareLines_number {x y : κ} (hx : value (Text.trim a) = some x)
    (hy : value (Text.trim b) = some y) : compareLines value "number" a b = compare x y := by
  simp only [compareLines, hx, hy]

theorem compareLines_none (h : value (Text.trim a) = none ∨ value (Text.trim b) = none) :
    compareLines value "number" a b = .eq := by
  simp only [compareLines]
  rcases h with h | h
  · rw [h]
  · rw [h]
    cases value (Text.trim a) <;> rfl

theorem totalOn_other (hkey : key ≠ "number") (lines : List (List Char)) :
    TotalOn (compareLines value key) lines := by
  by_cases hlength : key = "length"
  · subst hlength
    exact totalOn_compare List.length lines
  · have heq : compareLines value key = fun a b =>
        compare ((Utf8.encode a).map UInt8.toNat) ((Utf8.encode b).map UInt8.toNat) := by
      funext a b
      unfold compareLines
      split
      · exact absurd rfl hkey
      · exact absurd rfl hlength
      · rfl
    rw [heq]
    exact totalOn_compare (fun line => (Utf8.encode line).map UInt8.toNat) lines

/-- **The comparison is an order** on numbers, and on what all compares equal. -/
theorem totalOn_number_iff : TotalOn (compareLines value "number") lines ↔
    (∀ line ∈ lines, value (Text.trim line) ≠ none) ∨
      ∀ a ∈ lines, ∀ b ∈ lines, ∀ x y,
        value (Text.trim a) = some x → value (Text.trim b) = some y → x = y := by
  constructor
  · intro h
    by_contra hnot
    push Not at hnot
    obtain ⟨⟨l, hl, hnone⟩, a, ha, b, hb, x, y, hx, hy, hne⟩ := hnot
    have hle {a b : List Char} {x y : κ} (ha : a ∈ lines) (hb : b ∈ lines)
        (hx : value (Text.trim a) = some x) (hy : value (Text.trim b) = some y) : x ≤ y := by
      have htrans := h.trans a ha l hl b hb (by rw [compareLines_none (.inr hnone)]; decide)
        (by rw [compareLines_none (.inl hnone)]; decide)
      rwa [compareLines_number hx hy, ne_eq, compare_gt_iff_gt, not_lt] at htrans
    exact hne (le_antisymm (hle ha hb hx hy) (hle hb ha hy hx))
  · rintro (hall | hsame)
    · have hnumber {a b : List Char} (ha : a ∈ lines) (hb : b ∈ lines) : ∃ x y,
          value (Text.trim a) = some x ∧ value (Text.trim b) = some y := by
        obtain ⟨x, hx⟩ := Option.ne_none_iff_exists'.mp (hall a ha)
        obtain ⟨y, hy⟩ := Option.ne_none_iff_exists'.mp (hall b hb)
        exact ⟨x, y, hx, hy⟩
      refine ⟨fun a ha b hb => ?_, fun a ha b hb c hc hab hbc => ?_⟩
      · obtain ⟨x, y, hx, hy⟩ := hnumber ha hb
        rw [compareLines_number hx hy, compareLines_number hy hx]
        exact Std.OrientedCmp.eq_swap
      · obtain ⟨x, y, hx, hy⟩ := hnumber ha hb
        obtain ⟨-, z, -, hz⟩ := hnumber ha hc
        rw [compareLines_number hx hy, ne_eq, compare_gt_iff_gt, not_lt] at hab
        rw [compareLines_number hy hz, ne_eq, compare_gt_iff_gt, not_lt] at hbc
        rw [compareLines_number hx hz, ne_eq, compare_gt_iff_gt, not_lt]
        exact hab.trans hbc
    · have heq {a b : List Char} (ha : a ∈ lines) (hb : b ∈ lines) :
          compareLines value "number" a b = .eq := by
        cases hx : value (Text.trim a) with
        | none => exact compareLines_none (.inl hx)
        | some x =>
            cases hy : value (Text.trim b) with
            | none => exact compareLines_none (.inr hy)
            | some y =>
                rw [compareLines_number hx hy, hsame a ha b hb x y hx hy, compare_eq_iff_eq]
      refine ⟨fun a ha b hb => ?_, fun a ha b hb c hc _ _ => ?_⟩
      · rw [heq ha hb, heq hb ha]
        rfl
      · rw [heq ha hc]
        decide

theorem totalOn_compareLines : TotalOn (compareLines value key) lines ↔
    (key = "number" → (∀ line ∈ lines, value (Text.trim line) ≠ none) ∨
      ∀ a ∈ lines, ∀ b ∈ lines, ∀ x y,
        value (Text.trim a) = some x → value (Text.trim b) = some y → x = y) := by
  by_cases hkey : key = "number"
  · subst hkey
    exact totalOn_number_iff.trans ⟨fun h _ => h, fun h => h rfl⟩
  · exact iff_of_true (totalOn_other hkey lines) fun h => absurd h hkey

/-! ### What is arranged -/

variable {order : String} {unique : Bool} {text : List Char} {args : Args}

theorem arranged_subperm (order : String) (unique : Bool) (sorted : List (List Char)) :
    (arranged order unique sorted).Subperm sorted := by
  have hreversed : (if order = "desc" then sorted.reverse else sorted).Perm sorted := by
    split_ifs
    · exact sorted.reverse_perm
    · exact .refl sorted
  unfold arranged
  dsimp only
  split_ifs at hreversed ⊢
  · exact (dedup_sublist _).subperm.trans hreversed.subperm
  · exact (dedup_sublist _).subperm
  · exact hreversed.subperm
  · exact .refl sorted

theorem sublist_reverse_parted {l : List (List Char)} :
    (∀ a b, [a, b, a].Sublist l.reverse → b = a) ↔ ∀ a b, [a, b, a].Sublist l → b = a := by
  refine forall₂_congr fun a b => ?_
  rw [show [a, b, a] = [a, b, a].reverse from rfl, List.reverse_sublist]
  rfl

/-- No line is left twice exactly if equal lines stand together. -/
theorem nodup_arranged_iff : (arranged order true sorted).Nodup ↔
    ∀ a b, [a, b, a].Sublist sorted → b = a := by
  unfold arranged
  dsimp only
  rw [if_pos rfl, nodup_dedup_iff]
  split_ifs
  · exact sublist_reverse_parted
  · exact .rfl

/-- Two lines that differ are left as they stand. -/
theorem pair_arranged (order : String) (unique : Bool) (hne : a ≠ b)
    (hsub : [a, b].Sublist sorted) :
    (if order = "desc" then [b, a] else [a, b]).Sublist (arranged order unique sorted) := by
  have hordered : (if order = "desc" then [b, a] else [a, b]).Sublist
      (if order = "desc" then sorted.reverse else sorted) := by
    split_ifs
    · exact hsub.reverse
    · exact hsub
  have hchain : (if order = "desc" then [b, a] else [a, b]).IsChain (· ≠ ·) := by
    split_ifs
    · simp [Ne.symm hne]
    · simp [hne]
  unfold arranged
  dsimp only
  cases unique
  · exact hordered
  · exact sublist_dedup hordered hchain

/-- Lines that are sorted by numbers have their numbers in order. -/
theorem numbers_arranged
    (hordered : sorted.Pairwise fun a b => compareLines value "number" a b ≠ .gt) :
    ((arranged order unique sorted).filterMap fun line => value (Text.trim line)).Pairwise
      fun x y => if order = "desc" then y ≤ x else x ≤ y := by
  have hnumbers : (if order = "desc" then sorted.reverse else sorted).Pairwise fun a b =>
      if order = "desc" then compareLines value "number" b a ≠ .gt
      else compareLines value "number" a b ≠ .gt := by
    split_ifs
    · exact List.pairwise_reverse.mpr hordered
    · exact hordered
  have hpart : (arranged order unique sorted).Sublist
      (if order = "desc" then sorted.reverse else sorted) := by
    unfold arranged
    dsimp only
    cases unique
    · exact List.Sublist.refl _
    · exact dedup_sublist _
  refine List.pairwise_filterMap.mpr ((hnumbers.sublist hpart).imp ?_)
  intro a b hab x hx y hy
  split_ifs at hab ⊢
  · rwa [compareLines_number hy hx, ne_eq, compare_gt_iff_gt, not_lt] at hab
  · rwa [compareLines_number hx hy, ne_eq, compare_gt_iff_gt, not_lt] at hab

/-! ### Sorted lines -/

/-- What the operation returns of lines that a sort has returned. -/
theorem sortLines_eq {sortBy : SortBy} (horder : orderOf args ∈ ["asc", "desc"])
    (hkey : keyOf args ∈ ["text", "number", "length"])
    (hsort : sortBy (compareLines value (keyOf args)) (linesOf text args) = some sorted) :
    sortLines value sortBy (.fromText text) args = some (.ok (.fromText
      (Split.join (separatorOf args)
        (arranged (orderOf args) (args.boolOf "unique") sorted)))) := by
  have horder' : args.choiceIn "order" "asc" ["asc", "desc"] = .ok (orderOf args) := if_pos horder
  have hkey' : args.choiceIn "by" "text" ["text", "number", "length"] = .ok (keyOf args) :=
    if_pos hkey
  unfold sortLines
  simp only [horder', hkey', text_fromText, hsort, Option.map_some]

theorem sortedAs_of_stableSort
    (htotal : TotalOn (compareLines value (keyOf args)) (linesOf text args))
    (hsort : StableSort (compareLines value (keyOf args)) (linesOf text args) sorted)
    (honce : args.boolOf "unique" = true → ∀ a b, compareLines value (keyOf args) a b = .eq →
      [a, b, a].Sublist (linesOf text args) → b = a) :
    SortedAs value text args (arranged (orderOf args) (args.boolOf "unique") sorted) where
  lines := by
    split_ifs with hflags
    · have hsub : (linesOf text args).Subperm (Split.split (separatorOf args) text) :=
        List.filter_sublist.subperm
      exact (arranged_subperm _ _ _).trans (hsort.perm.subperm.trans hsub)
    · obtain ⟨hunique, hskip⟩ := not_or.mp hflags
      rw [Bool.not_eq_true] at hunique hskip
      have hall : linesOf text args = Split.split (separatorOf args) text := by
        rw [linesOf, hskip]
        exact List.filter_eq_self.mpr fun _ _ => rfl
      rw [hunique, ← hall]
      refine List.Perm.trans ?_ hsort.perm
      unfold arranged
      dsimp only
      rw [if_neg Bool.false_ne_true]
      split_ifs
      · exact sorted.reverse_perm
      · exact .refl sorted
  numbers hkey := numbers_arranged (hkey ▸ hsort.ordered)
  once hunique := by
    rw [hunique, nodup_arranged_iff, hsort.parted_iff htotal]
    exact honce hunique

/-- Lines of different numbers, in the other order, with the other lines behind them. -/
theorem exists_unordered {x y : κ} (ha : a ∈ lines) (hb : b ∈ lines)
    (hx : value (Text.trim a) = some x) (hy : value (Text.trim b) = some y) (hlt : x < y) :
    ∃ out, out.Perm lines ∧ [b, a].Sublist out := by
  have hne : a ≠ b := by
    rintro rfl
    exact hlt.ne (Option.some.inj (hx.symm.trans hy))
  refine ⟨b :: a :: (lines.erase b).erase a, ?_, ?_⟩
  · have hmem : a ∈ lines.erase b := (List.mem_erase_of_ne hne).mpr ha
    exact ((List.perm_cons_erase hmem).symm.cons b).trans (List.perm_cons_erase hb).symm
  · exact ((List.nil_sublist _).cons_cons a).cons_cons b

/-- **Lines are sorted, and left once, exactly if they can be compared.** -/
theorem sortsLines_iff (horder : orderOf args ∈ ["asc", "desc"])
    (hkey : keyOf args ∈ ["text", "number", "length"]) :
    SortsLines value text args ↔ Sortable value text args := by
  constructor
  · intro h
    have hnumbers : keyOf args = "number" →
        (∀ line ∈ linesOf text args, value (Text.trim line) ≠ none) ∨
          ∀ a ∈ linesOf text args, ∀ b ∈ linesOf text args, ∀ x y,
            value (Text.trim a) = some x → value (Text.trim b) = some y → x = y := by
      intro hnumber
      by_contra hnot
      have hpartial : ¬ TotalOn (compareLines value (keyOf args)) (linesOf text args) := by
        rw [hnumber, totalOn_number_iff]
        exact hnot
      push Not at hnot
      obtain ⟨-, a, ha, b, hb, x, y, hx, hy, hne⟩ := hnot
      -- the two numbers in the wrong order, which no order of the comparison rules out
      obtain ⟨a, ha, b, hb, x, y, hx, hy, hlt⟩ : ∃ a ∈ linesOf text args,
          ∃ b ∈ linesOf text args, ∃ x y, value (Text.trim a) = some x ∧
            value (Text.trim b) = some y ∧ x < y := by
        rcases lt_or_gt_of_ne hne with hlt | hlt
        · exact ⟨a, ha, b, hb, x, y, hx, hy, hlt⟩
        · exact ⟨b, hb, a, ha, y, x, hy, hx, hlt⟩
      obtain ⟨out, hperm, hsub⟩ := exists_unordered ha hb hx hy hlt
      obtain ⟨sortBy, hdocumented, hsort⟩ := Sorting.Documented.exists_with (o := some out)
        (⟨hperm, fun htotal => absurd htotal hpartial⟩ :
          Outcome (compareLines value (keyOf args)) (linesOf text args) (some out))
      obtain ⟨sorted, hsorted, -, has⟩ := h sortBy hdocumented
      cases hsort.symm.trans hsorted
      have hba : b ≠ a := by
        rintro rfl
        exact hlt.ne (Option.some.inj (hx.symm.trans hy))
      have hpair := (pair_arranged (orderOf args) (args.boolOf "unique") hba hsub).filterMap
        fun line => value (Text.trim line)
      have hordered := (has.numbers hnumber).sublist hpair
      split_ifs at hordered with hdesc
      · simp only [List.filterMap_cons, hx, hy, List.filterMap_nil, List.pairwise_pair] at hordered
        exact not_lt_of_ge hordered hlt
      · simp only [List.filterMap_cons, hx, hy, List.filterMap_nil, List.pairwise_pair] at hordered
        exact not_lt_of_ge hordered hlt
    refine ⟨hnumbers, fun hunique => ?_⟩
    have htotal := totalOn_compareLines.mpr hnumbers
    obtain ⟨out, hout⟩ := StableSort.exists_of_total htotal
    obtain ⟨sortBy, hdocumented, hsort⟩ := Sorting.Documented.exists_with (o := some out)
      (⟨hout.perm, fun _ => hout⟩ :
        Outcome (compareLines value (keyOf args)) (linesOf text args) (some out))
    obtain ⟨sorted, hsorted, -, has⟩ := h sortBy hdocumented
    cases hsort.symm.trans hsorted
    have honce := has.once hunique
    rwa [hunique, nodup_arranged_iff, hout.parted_iff htotal] at honce
  · rintro ⟨hnumbers, honce⟩ sortBy hdocumented
    have htotal := totalOn_compareLines.mpr hnumbers
    obtain ⟨sorted, hsort, hstable⟩ := hdocumented.stableSort htotal
    exact ⟨sorted, hsort, sortLines_eq horder hkey hsort,
      sortedAs_of_stableSort htotal hstable honce⟩

end Code

/-! ### Integers -/

/-- The number of a line that is an integer. -/
def integerOf (line : List Char) : Option Int := (Text.parseI64 line).toOption

/-- The arguments of a sort by numbers. -/
def byNumber : Args := ⟨[("by", "number")]⟩

theorem sortsLines_iff_integers :
    SortsLines integerOf "10\n9\n100".toList byNumber ↔
      Sortable integerOf "10\n9\n100".toList byNumber :=
  sortsLines_iff (by decide) (by decide)

theorem linesOf_mixed :
    linesOf "2\nx\n1".toList byNumber = [['2'], ['x'], ['1']] := by
  simp [linesOf, separatorOf, unescapeSeparator, replaceText, byNumber, Args.choice, Args.get,
    Args.boolOf, Split.split, Split.splitFrom, Split.join]

/-- **A line that is no number between two that are** can leave them as they stand. -/
theorem sortLines_mixed : ¬ ∀ (text : List Char) (args : Args),
    orderOf args ∈ ["asc", "desc"] → keyOf args ∈ ["text", "number", "length"] →
      SortsLines integerOf text args := by
  intro h
  have hpartial : ¬ TotalOn (compareLines integerOf "number") [['2'], ['x'], ['1']] := by
    rw [totalOn_number_iff]
    rintro (hall | hsame)
    · exact hall ['x'] (by decide) (by decide)
    · exact absurd (hsame ['2'] (by decide) ['1'] (by decide) 2 1 (by decide) (by decide))
        (by decide)
  obtain ⟨sortBy, hdocumented, hsort⟩ := Sorting.Documented.exists_with
    (o := some [['2'], ['x'], ['1']])
    (⟨.refl _, fun htotal => absurd htotal hpartial⟩ :
      Outcome (compareLines integerOf "number") [['2'], ['x'], ['1']] (some [['2'], ['x'], ['1']]))
  obtain ⟨sorted, hsorted, -, has⟩ := h "2\nx\n1".toList byNumber (by decide) (by decide) sortBy
    hdocumented
  rw [linesOf_mixed] at hsorted
  have hkeep : sorted = [['2'], ['x'], ['1']] :=
    Option.some.inj (hsorted.symm.trans hsort)
  have hordered := has.numbers rfl
  rw [hkeep] at hordered
  exact absurd hordered (by decide)

end RevBox.Chef
