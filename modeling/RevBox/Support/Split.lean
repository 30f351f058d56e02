import Mathlib.Data.List.Basic

/-!
# Support — Split

A text cut at each place where a separator stands, and parts joined by it.

* `split_join`: parts that an element of the separator is not in come back.
* `splitOnce_eq_some_iff`: a text is cut where the separator first stands.
* `rsplitOnce_append`, `stripPrefix_eq_some_iff`, `stripSuffix_eq_some_iff`: where it last stands,
  and what a text begins and ends with.
-/

namespace Split

variable {α : Type} [DecidableEq α]

/-- The parts of a text, the first of them begun already: each place where the separator `a :: as`
stands ends one. -/
def splitFrom (a : α) (as : List α) (part : List α) : List α → List (List α)
  | [] => [part]
  | c :: s =>
      if (a :: as).isPrefixOf (c :: s) then part :: splitFrom a as [] (s.drop as.length)
      else splitFrom a as (part ++ [c]) s
termination_by s => s.length
decreasing_by
  all_goals simp only [List.length_cons, List.length_drop]; omega

/-- `str::split` by a text.  An empty separator stands around each character. -/
def split (sep s : List α) : List (List α) :=
  match sep with
  | [] => [] :: (s.map fun c => [c]) ++ [[]]
  | a :: as => splitFrom a as [] s

/-- `[T]::join` with a text. -/
def join (sep : List α) (parts : List (List α)) : List α := List.intercalate sep parts

variable {a : α} {as part s sep : List α} {parts : List (List α)}

omit [DecidableEq α] in
@[simp] theorem join_singleton (sep part : List α) : join sep [part] = part := by
  simp [join, List.intercalate]

omit [DecidableEq α] in
theorem join_cons (sep part next : List α) (parts : List (List α)) :
    join sep (part :: next :: parts) = part ++ (sep ++ join sep (next :: parts)) := by
  simp [join, List.intercalate, List.intersperse]

omit [DecidableEq α] in
theorem mem_join {x : α} (h : x ∈ join sep parts) : x ∈ sep ∨ ∃ part ∈ parts, x ∈ part := by
  induction parts with
  | nil => cases h
  | cons part parts ih =>
      cases parts with
      | nil => exact .inr ⟨part, List.mem_cons_self, join_singleton sep part ▸ h⟩
      | cons next parts =>
          rw [join_cons, List.mem_append, List.mem_append] at h
          rcases h with h | h | h
          · exact .inr ⟨part, List.mem_cons_self, h⟩
          · exact .inl h
          · exact (ih h).imp_right fun ⟨p, hp, hx⟩ => ⟨p, List.mem_cons_of_mem part hp, hx⟩

/-- A part goes on where the separator does not begin. -/
theorem splitFrom_append : ∀ {t : List α} (part rest : List α),
    (∀ x y, t = x ++ y → y ≠ [] → ¬ a :: as <+: y ++ rest) →
    splitFrom a as part (t ++ rest) = splitFrom a as (part ++ t) rest
  | [], part, rest, _ => by rw [List.nil_append, List.append_nil]
  | c :: t, part, rest, h => by
      have hc : ¬ (a :: as).isPrefixOf (c :: (t ++ rest)) = true := fun hpre =>
        h [] (c :: t) rfl nofun (List.isPrefixOf_iff_prefix.mp hpre)
      have ht : ∀ x y, t = x ++ y → y ≠ [] → ¬ a :: as <+: y ++ rest := fun x y hxy =>
        h (c :: x) y (congrArg (c :: ·) hxy)
      rw [List.cons_append, splitFrom, if_neg hc, splitFrom_append _ rest ht, List.append_assoc]
      rfl

/-- A part ends where the separator stands. -/
theorem splitFrom_sep (part rest : List α) :
    splitFrom a as part (a :: as ++ rest) = part :: splitFrom a as [] rest := by
  have hpre : (a :: as).isPrefixOf (a :: (as ++ rest)) = true :=
    List.isPrefixOf_iff_prefix.mpr ⟨rest, rfl⟩
  rw [List.cons_append, splitFrom, if_pos hpre, List.drop_left]

omit [DecidableEq α] in
/-- The separator begins nowhere in a text that one of its elements is not in, neither before
itself nor at the end. -/
theorem not_prefix_append {c : α} (hc : c ∈ sep) {y rest : List α} (hy : c ∉ y) (hne : y ≠ [])
    (hrest : rest = [] ∨ ∃ s, rest = sep ++ s) : ¬ sep <+: y ++ rest := by
  classical
  rintro ⟨z, hz⟩
  obtain ⟨pre, post, rfl, hpre⟩ := List.eq_append_cons_of_mem hc
  rcases hrest with rfl | ⟨s, rfl⟩
  · rw [List.append_nil] at hz
    exact hy (hz ▸ by simp)
  · -- the element stands first behind `pre`, and behind `y ++ pre`
    have hidx : ∀ {u v : List α}, c ∉ u → List.idxOf c (u ++ c :: v) = u.length := fun hu => by
      rw [List.idxOf_append_of_notMem hu, List.idxOf_cons_self, Nat.add_zero]
    have hfirst := congrArg (List.idxOf c) hz
    simp only [List.append_assoc, List.cons_append] at hfirst
    rw [← List.append_assoc y, hidx hpre, hidx (by simp [hy, hpre]), List.length_append] at hfirst
    exact hne (List.length_eq_zero_iff.mp (by omega))

/-- **Parts come back** that an element of the separator is not in. -/
theorem split_join {c : α} (hc : c ∈ sep) (h : ∀ part ∈ parts, c ∉ part) (hne : parts ≠ []) :
    split sep (join sep parts) = parts := by
  obtain ⟨a, as, rfl⟩ := List.exists_cons_of_ne_nil (List.ne_nil_of_mem hc)
  have hskip : ∀ {part rest : List α}, c ∉ part → (rest = [] ∨ ∃ s, rest = a :: as ++ s) →
      splitFrom a as [] (part ++ rest) = splitFrom a as part rest := fun hpart hrest =>
    splitFrom_append [] _ fun x y hxy hy =>
      not_prefix_append hc (fun hmem => hpart (hxy ▸ List.mem_append_right x hmem)) hy hrest
  induction parts with
  | nil => exact absurd rfl hne
  | cons part parts ih =>
      have hpart := h part List.mem_cons_self
      cases parts with
      | nil =>
          have hend := hskip hpart (.inl rfl)
          rw [List.append_nil, splitFrom] at hend
          rw [join_singleton, split, hend]
      | cons next parts =>
          have ih := ih (fun p hp => h p (List.mem_cons_of_mem _ hp)) nofun
          rw [join_cons, split, hskip hpart (.inr ⟨_, rfl⟩), splitFrom_sep]
          exact congrArg (part :: ·) ih

/-! ### The first place -/

/-- `str::split_once`, by a text that is not empty: what stands before its first place and behind
it. -/
def splitOnce (sep : List α) : List α → Option (List α × List α)
  | [] => none
  | c :: s =>
      if sep.isPrefixOf (c :: s) then some ([], (c :: s).drop sep.length)
      else (splitOnce sep s).map fun r => (c :: r.1, r.2)

theorem isPrefixOf_of_eq {s y : List α} (h : s = sep ++ y) : sep.isPrefixOf s = true :=
  List.isPrefixOf_iff_prefix.mpr ⟨y, h.symm⟩

theorem splitOnce_sound : ∀ {s x y : List α}, splitOnce sep s = some (x, y) → s = x ++ (sep ++ y)
  | c :: s, x, y, h => by
      rw [splitOnce] at h
      split_ifs at h with hpre
      · obtain ⟨rest, hrest⟩ := List.isPrefixOf_iff_prefix.mp hpre
        rw [← hrest, List.drop_left] at h
        cases h
        exact hrest.symm
      · obtain ⟨⟨x', y'⟩, hxy, heq⟩ := Option.map_eq_some_iff.mp h
        cases heq
        exact congrArg (c :: ·) (splitOnce_sound hxy)

/-- **A text is cut where the separator first stands.** -/
theorem splitOnce_eq_some_iff (hsep : sep ≠ []) : ∀ {s x y : List α},
    splitOnce sep s = some (x, y) ↔
      s = x ++ (sep ++ y) ∧ ∀ x' y', s = x' ++ (sep ++ y') → x.length ≤ x'.length
  | [], x, y => by
      refine iff_of_false nofun fun h => ?_
      have hnil := List.append_eq_nil_iff.mp (List.append_eq_nil_iff.mp h.1.symm).2
      exact hsep hnil.1
  | c :: s, x, y => by
      rw [splitOnce]
      split_ifs with hpre
      · obtain ⟨rest, hrest⟩ := List.isPrefixOf_iff_prefix.mp hpre
        rw [← hrest, List.drop_left]
        constructor
        · intro h
          cases h
          exact ⟨rfl, fun x' y' _ => Nat.zero_le _⟩
        · rintro ⟨heq, hfirst⟩
          have hx : x = [] := List.length_eq_zero_iff.mp (Nat.le_zero.mp (hfirst [] rest rfl))
          subst hx
          rw [List.append_cancel_left heq]
      · rw [Option.map_eq_some_iff]
        constructor
        · rintro ⟨⟨x', y'⟩, hxy, heq⟩
          cases heq
          obtain ⟨hs, hfirst⟩ := (splitOnce_eq_some_iff hsep).mp hxy
          refine ⟨congrArg (c :: ·) hs, fun u v huv => ?_⟩
          cases u with
          | nil => exact absurd (isPrefixOf_of_eq (y := v) huv) hpre
          | cons d u => exact Nat.succ_le_succ (hfirst u v (List.cons.inj huv).2)
        · rintro ⟨heq, hfirst⟩
          cases x with
          | nil => exact absurd (isPrefixOf_of_eq (y := y) heq) hpre
          | cons d x =>
              obtain ⟨rfl, hs⟩ := List.cons.inj heq
              refine ⟨(x, y), (splitOnce_eq_some_iff hsep).mpr ⟨hs, fun u v huv => ?_⟩, rfl⟩
              exact Nat.succ_le_succ_iff.mp (hfirst (c :: u) v (congrArg (c :: ·) huv))

/-- A text that the separator stands in is cut. -/
theorem splitOnce_isSome (hsep : sep ≠ []) : ∀ (x : List α) {y : List α},
    ∃ u v, splitOnce sep (x ++ (sep ++ y)) = some (u, v)
  | [], y => by
      obtain ⟨c, rest, rfl⟩ := List.exists_cons_of_ne_nil hsep
      refine ⟨[], y, ?_⟩
      rw [List.nil_append, List.cons_append, splitOnce, ← List.cons_append,
        if_pos (isPrefixOf_of_eq rfl), List.drop_left]
  | c :: x, y => by
      rw [List.cons_append, splitOnce]
      split_ifs
      · exact ⟨_, _, rfl⟩
      · obtain ⟨u, v, huv⟩ := splitOnce_isSome hsep x (y := y)
        rw [huv]
        exact ⟨_, _, rfl⟩

/-- The separator's first character does not stand before it. -/
theorem splitOnce_append : ∀ {x : List α} (y : List α), a ∉ x →
    splitOnce (a :: as) (x ++ (a :: as ++ y)) = some (x, y)
  | [], y, _ => by
      rw [List.nil_append, List.cons_append, splitOnce, ← List.cons_append,
        if_pos (isPrefixOf_of_eq rfl), List.drop_left]
  | c :: x, y, h => by
      have hc : ¬ (a :: as).isPrefixOf (c :: (x ++ (a :: as ++ y))) = true := fun hpre => by
        obtain ⟨r, hr⟩ := List.isPrefixOf_iff_prefix.mp hpre
        exact h (List.mem_cons.mpr (.inl (List.cons.inj hr).1))
      rw [List.cons_append, splitOnce, if_neg hc,
        splitOnce_append y fun hmem => h (List.mem_cons_of_mem c hmem)]
      rfl

/-- What stands behind the separator does not matter for where it first stands. -/
theorem splitOnce_concat (hsep : sep ≠ []) {c : α} (h : c ∉ sep) (s : List α) :
    splitOnce sep (s ++ [c]) = (splitOnce sep s).map fun r => (r.1, r.2 ++ [c]) := by
  have hcut : ∀ {x y : List α}, s ++ [c] = x ++ (sep ++ y) →
      ∃ y', y = y' ++ [c] ∧ s = x ++ (sep ++ y') := by
    intro x y heq
    rcases List.eq_nil_or_concat' y with rfl | ⟨y', d, rfl⟩
    · have hmem : c ∈ sep := by
        obtain ⟨front, d, rfl⟩ := (List.eq_nil_or_concat' sep).resolve_left hsep
        rw [List.append_nil, ← List.append_assoc] at heq
        rw [(List.cons.inj (List.append_inj' heq rfl).2).1]
        exact List.mem_append_right _ (List.mem_singleton.mpr rfl)
      exact absurd hmem h
    · rw [← List.append_assoc, ← List.append_assoc] at heq
      obtain ⟨hs, hd⟩ := List.append_inj' heq rfl
      exact ⟨y', by rw [(List.cons.inj hd).1], by rw [hs, List.append_assoc]⟩
  cases hs : splitOnce sep s with
  | some r =>
      obtain ⟨x, y⟩ := r
      obtain ⟨heq, hfirst⟩ := (splitOnce_eq_some_iff hsep).mp hs
      refine (splitOnce_eq_some_iff hsep).mpr ⟨by simp [heq], fun x' y' h' => ?_⟩
      obtain ⟨y'', -, hs'⟩ := hcut h'
      exact hfirst x' y'' hs'
  | none =>
      refine Option.eq_none_iff_forall_ne_some.mpr fun r hr => ?_
      obtain ⟨y', -, hs'⟩ := hcut (splitOnce_sound hr)
      obtain ⟨u, v, huv⟩ := splitOnce_isSome hsep r.1 (y := y')
      rw [hs', huv] at hs
      cases hs

/-! ### The last place -/

/-- `str::rsplit_once`: what stands before the separator's last place and behind it. -/
def rsplitOnce (sep s : List α) : Option (List α × List α) :=
  (splitOnce sep.reverse s.reverse).map fun r => (r.2.reverse, r.1.reverse)

theorem rsplitOnce_sound {s x y : List α} (h : rsplitOnce sep s = some (x, y)) :
    s = x ++ (sep ++ y) := by
  obtain ⟨⟨u, v⟩, huv, heq⟩ := Option.map_eq_some_iff.mp h
  cases heq
  have hs := congrArg List.reverse (splitOnce_sound huv)
  simpa using hs

/-- The separator's last character does not stand behind it. -/
theorem rsplitOnce_append (x : List α) {tail : List α} (h : a ∉ tail) :
    rsplitOnce (as ++ [a]) (x ++ (as ++ [a] ++ tail)) = some (x, tail) := by
  have hcut : splitOnce (a :: as.reverse) (tail.reverse ++ (a :: as.reverse ++ x.reverse)) =
      some (tail.reverse, x.reverse) :=
    splitOnce_append x.reverse fun hmem => h (List.mem_reverse.mp hmem)
  have hs : (x ++ (as ++ [a] ++ tail)).reverse = tail.reverse ++ (a :: as.reverse ++ x.reverse) := by
    simp
  rw [rsplitOnce, hs, List.reverse_concat, hcut]
  simp

/-! ### The ends -/

/-- `str::strip_prefix`. -/
def stripPrefix (start s : List α) : Option (List α) :=
  if start.isPrefixOf s then some (s.drop start.length) else none

/-- `str::strip_suffix`. -/
def stripSuffix (tail s : List α) : Option (List α) :=
  if tail.isSuffixOf s then some (s.take (s.length - tail.length)) else none

theorem stripPrefix_eq_some_iff {start s rest : List α} :
    stripPrefix start s = some rest ↔ s = start ++ rest := by
  unfold stripPrefix
  by_cases h : start <+: s
  · obtain ⟨t, rfl⟩ := h
    simp
  · have hne : s ≠ start ++ rest := fun he => h ⟨rest, he.symm⟩
    simp [h, hne]

theorem stripSuffix_eq_some_iff {tail s front : List α} :
    stripSuffix tail s = some front ↔ s = front ++ tail := by
  unfold stripSuffix
  by_cases h : tail <:+ s
  · obtain ⟨t, rfl⟩ := h
    simp
  · have hne : s ≠ front ++ tail := fun he => h ⟨front, he.symm⟩
    simp [h, hne]

end Split
