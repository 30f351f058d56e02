import RevBox.Support.Padded
import RevBox.Support.Text
import Mathlib.Data.List.Chain

/-!
# Desktop — PluginVersion

The versions of plugins, `version_gt` (`plugins/install.rs`), by which an upgrade is let in: parts
cut at dots and hyphens, each compared by its number and then by its text.

* `versionGt_trans`, `versionGt_total`: it is an order of texts.
* `versionGt_iff`: of two releases it is decided where their texts first differ.
* `version_order`: it is the order of the numbers when and only when that place says what the
  numbers from there on say; a version never is above a pre-release of itself.
-/

namespace RevBox.PluginVersion

open Text Std

/-! ### The code -/

/-- What is compared of a version: no white space around it and no leading `v`. -/
def body (v : List Char) : List Char := (trim v).dropWhile fun c => c = 'v'

/-- A part of a version: its number, 0 where it is none below `2 ^ 64`, and its text. -/
def part (s : List Char) : Nat × List Char := ((parseUnsigned (2 ^ 64) s).getD 0, s)

/-- `parts`. -/
def parts (v : List Char) : List (Nat × List Char) :=
  ((body v).splitOnP fun c => c = '.' || c = '-').map part

/-- The order of parts. -/
def cmpPart (a b : Nat × List Char) : Ordering := (compare a.1 b.1).then (compare a.2 b.2)

/-- `version_gt`. -/
def versionGt (next current : List Char) : Bool :=
  Padded.compare cmpPart (0, []) (parts next) (parts current) == .gt

/-! ### What is promised -/

/-- The components of a version, as they are written. -/
def texts (v : List Char) : List (List Char) := (body v).splitOn '.'

/-- A release: every component is a number. -/
def Release (v : List Char) : Prop :=
  ∀ text ∈ texts v, text ≠ [] ∧ ∀ c ∈ text, isAsciiDigit c = true

instance (v : List Char) : Decidable (Release v) :=
  -- there is an instance that looks at every character there is, too
  letI (text : List Char) : Decidable (∀ c ∈ text, isAsciiDigit c = true) :=
    List.decidableBAll _ text
  inferInstanceAs (Decidable (∀ text ∈ texts v, text ≠ [] ∧ ∀ c ∈ text, isAsciiDigit c = true))

/-- **The order of versions**: by the numbers, from left to right, a missing one counting as 0. -/
def Newer (next current : List Char) : Prop :=
  Padded.compare compare 0 ((texts next).map digits) ((texts current).map digits) = .gt

instance (next current : List Char) : Decidable (Newer next current) :=
  inferInstanceAs (Decidable (_ = _))

/-- The condition on two releases: where their components first differ, the two numbers differ and
are below `2 ^ 64`, or number and text of the two say what the numbers from there on say. -/
def Told (next current : List Char) : Prop :=
  ∀ common as bs, texts next = common ++ as → texts current = common ++ bs → as.head? ≠ bs.head? →
    (digits (as.headD []) < 2 ^ 64 ∧ digits (bs.headD []) < 2 ^ 64 ∧
      digits (as.headD []) ≠ digits (bs.headD [])) ∨
    (cmpPart (part (as.headD [])) (part (bs.headD [])) = .gt ↔
      Padded.compare compare 0 (as.map digits) (bs.map digits) = .gt)

/-- An upgrade that is let in, of a release to a release that meets the condition. -/
def Upgrade (current next : List Char) : Prop :=
  versionGt next current = true ∧ Release current ∧ Release next ∧ Told next current

/-! ### An order of texts -/

instance : TransCmp cmpPart :=
  inferInstanceAs (TransCmp (compareLex (compareOn Prod.fst) (compareOn Prod.snd)))

theorem cmpPart_eq_iff {a b : Nat × List Char} : cmpPart a b = .eq ↔ a = b := by
  rw [cmpPart, Ordering.then_eq_eq, LawfulEqOrd.compare_eq_iff_eq, LawfulEqOrd.compare_eq_iff_eq,
    Prod.ext_iff]

/-- What is missing is least. -/
theorem missing_ne_gt (b : Nat × List Char) : cmpPart (0, []) b ≠ .gt := by
  obtain ⟨n, s⟩ := b
  cases n with
  | zero => cases s <;> simp [cmpPart]
  | succ n =>
      have hlt : compare 0 (n + 1) = .lt := Nat.compare_eq_lt.mpr (Nat.succ_pos n)
      rw [cmpPart, hlt]
      nofun

instance : TransCmp (Padded.compare cmpPart (0, [])) := Padded.transCmp

instance : TransCmp (Padded.compare (compare : Nat → Nat → Ordering) 0) := Padded.transCmp

theorem versionGt_self (a : List Char) : versionGt a a = false := by
  have h : Padded.compare cmpPart (0, []) (parts a) (parts a) = .eq := ReflCmp.compare_self
  simp [versionGt, h]

theorem versionGt_trans {a b c : List Char} (hab : versionGt a b = true)
    (hbc : versionGt b c = true) : versionGt a c = true := by
  simp only [versionGt, beq_iff_eq] at hab hbc ⊢
  exact TransCmp.gt_trans hab hbc

/-- Versions neither of which is above the other are alike: the order is total up to that. -/
theorem versionGt_total {a b c : List Char} (hab : versionGt a b = false)
    (hbc : versionGt b c = false) : versionGt a c = false := by
  simp only [versionGt, beq_eq_false_iff_ne, Ordering.ne_gt_iff_isLE] at hab hbc ⊢
  exact TransCmp.isLE_trans hab hbc

/-- A version is not above itself with something behind a hyphen. -/
theorem not_above_prerelease {v p suffix : List Char} (h : body p = body v ++ '-' :: suffix) :
    versionGt v p = false := by
  have hparts : parts p = parts v ++
      (suffix.splitOnP fun c => c = '.' || c = '-').map part := by
    rw [parts, h, List.splitOnP_append_cons _ _ (by decide), List.map_append, parts]
  rw [versionGt, hparts]
  exact beq_eq_false_iff_ne.mpr (Padded.compare_append_ne_gt missing_ne_gt _ _)

/-! ### Releases -/

/-- A text without a hyphen is cut at its dots. -/
theorem splitOnP_dots {s : List Char} (h : '-' ∉ s) :
    s.splitOnP (fun c => c = '.' || c = '-') = s.splitOn '.' := by
  have hpart : ∀ {l : List Char}, '.' ∉ l → '-' ∉ l →
      ∀ c ∈ l, (decide (c = '.') || decide (c = '-')) = false := by
    intro l hdot hhyphen c hc
    simp [ne_of_mem_of_not_mem hc hdot, ne_of_mem_of_not_mem hc hhyphen]
  revert h
  refine cut_induction (P := fun s => '-' ∉ s →
    s.splitOnP (fun c => c = '.' || c = '-') = s.splitOn '.') '.' (fun s hs h => ?_)
    (fun l s hl ih h => ?_) s
  · rw [List.splitOnP_eq_singleton (hpart hs h), List.splitOn_eq_singleton hs]
  · rw [List.mem_append, List.mem_cons] at h
    push Not at h
    rw [List.splitOnP_append_cons_of_forall_mem (hpart hl h.1) '.' rfl,
      List.splitOn_append_cons_self_of_not_mem hl, ih h.2.2]

theorem parts_of_release {v : List Char} (h : Release v) : parts v = (texts v).map part := by
  have hplain : '-' ∉ body v := by
    intro hmem
    have hjoin : join '.' (texts v) = body v := List.intercalate_splitOn '.'
    rw [← hjoin] at hmem
    rcases mem_join hmem with hdot | ⟨text, htext, hmem⟩
    · exact absurd hdot (by decide)
    · exact absurd ((h text htext).2 '-' hmem) (by decide)
  rw [parts, splitOnP_dots hplain, texts]

theorem part_nil : part [] = (0, []) := rfl

theorem part_injective : Function.Injective part := fun _ _ h => congrArg Prod.snd h

theorem part_of_digits {s : List Char} (hne : s ≠ []) (hs : ∀ c ∈ s, isAsciiDigit c = true)
    (hlt : digits s < 2 ^ 64) : part s = (digits s, s) := by
  cases s with
  | nil => exact absurd rfl hne
  | cons c s =>
      have hplus : c ≠ '+' := by
        rintro rfl
        exact absurd (hs '+' (List.mem_cons_self ..)) (by decide)
      have hall : (c :: s).all isAsciiDigit = true := List.all_eq_true.mpr hs
      have hparse : parseUnsigned (2 ^ 64) (c :: s) = some (digits (c :: s)) := by
        unfold parseUnsigned
        split
        · rename_i rest heq
          exact absurd (List.cons.inj heq).1 hplus
        · simp only [hall, hlt, decide_true, Bool.and_true]
          rfl
      rw [part, hparse, Option.getD_some]

/-- Two lists go on differently behind what they begin with alike, or are one. -/
theorem eq_or_diverge {α : Type} (xs ys : List α) : xs = ys ∨
    ∃ common as bs, xs = common ++ as ∧ ys = common ++ bs ∧ as.head? ≠ bs.head? := by
  induction xs generalizing ys with
  | nil =>
      cases ys with
      | nil => exact .inl rfl
      | cons y ys => exact .inr ⟨[], [], y :: ys, rfl, rfl, nofun⟩
  | cons x xs ih =>
      cases ys with
      | nil => exact .inr ⟨[], x :: xs, [], rfl, rfl, nofun⟩
      | cons y ys =>
          by_cases hxy : x = y
          · subst hxy
            rcases ih ys with rfl | ⟨common, as, bs, rfl, rfl, hne⟩
            · exact .inl rfl
            · exact .inr ⟨x :: common, as, bs, rfl, rfl, hne⟩
          · exact .inr ⟨[], x :: xs, y :: ys, rfl, rfl, by simpa using hxy⟩

variable {next current : List Char} {common as bs : List (List Char)}

/-- What stands where two releases first differ, a missing component as an empty text. -/
theorem headD_ne (hnext : Release next) (hcurrent : Release current)
    (has : texts next = common ++ as) (hbs : texts current = common ++ bs)
    (hne : as.head? ≠ bs.head?) : as.headD [] ≠ bs.headD [] := by
  have hfull : ∀ {v : List Char} {rest : List (List Char)}, Release v → texts v = common ++ rest →
      ∀ x ∈ rest, x ≠ [] := fun hv hrest x hx => (hv x (by rw [hrest]; simp [hx])).1
  cases as with
  | nil =>
      cases bs with
      | nil => exact absurd rfl hne
      | cons y bs => exact (hfull hcurrent hbs y (by simp)).symm
  | cons x as =>
      cases bs with
      | nil => exact hfull hnext has x (by simp)
      | cons y bs => simpa using hne

/-- **Two releases are told apart where their texts first differ.** -/
theorem versionGt_iff (hnext : Release next) (hcurrent : Release current)
    (has : texts next = common ++ as) (hbs : texts current = common ++ bs)
    (hne : as.head? ≠ bs.head?) :
    versionGt next current = true ↔ cmpPart (part (as.headD [])) (part (bs.headD [])) = .gt := by
  have hheads : ∀ l : List (List Char), (l.map part).headD (0, []) = part (l.headD []) := by
    intro l
    cases l <;> rfl
  have hdiff : cmpPart ((as.map part).headD (0, [])) ((bs.map part).headD (0, [])) ≠ .eq := by
    rw [hheads, hheads, Ne, cmpPart_eq_iff]
    exact fun h => headD_ne hnext hcurrent has hbs hne (part_injective h)
  rw [versionGt, parts_of_release hnext, parts_of_release hcurrent, has, hbs, List.map_append,
    List.map_append, Padded.compare_append, Padded.compare_of_head hdiff, hheads, hheads, beq_iff_eq]

theorem newer_iff (has : texts next = common ++ as) (hbs : texts current = common ++ bs) :
    Newer next current ↔
      Padded.compare compare 0 (as.map digits) (bs.map digits) = .gt := by
  rw [Newer, has, hbs, List.map_append, List.map_append, Padded.compare_append]

/-- Where two numbers below `2 ^ 64` first differ, the code compares them. -/
theorem told_of_numbers (hnext : Release next) (hcurrent : Release current)
    (has : texts next = common ++ as) (hbs : texts current = common ++ bs)
    (ha : digits (as.headD []) < 2 ^ 64) (hb : digits (bs.headD []) < 2 ^ 64)
    (hne : digits (as.headD []) ≠ digits (bs.headD [])) :
    cmpPart (part (as.headD [])) (part (bs.headD [])) = .gt ↔
      Padded.compare compare 0 (as.map digits) (bs.map digits) = .gt := by
  have hheads : ∀ l : List (List Char), (l.map digits).headD 0 = digits (l.headD []) := by
    intro l
    cases l <;> rfl
  have hnumber : ∀ {v : List Char} {rest : List (List Char)}, Release v →
      texts v = common ++ rest → digits (rest.headD []) < 2 ^ 64 →
      (part (rest.headD [])).1 = digits (rest.headD []) := by
    intro v rest hv hrest hlt
    cases rest with
    | nil => rfl
    | cons x rest =>
        have hx := hv x (by rw [hrest]; simp)
        exact congrArg Prod.fst (part_of_digits hx.1 hx.2 hlt)
  have hdiff : compare ((as.map digits).headD 0) ((bs.map digits).headD 0) ≠ .eq := by
    rw [hheads, hheads, Ne, LawfulEqOrd.compare_eq_iff_eq]
    exact hne
  rw [Padded.compare_of_head hdiff, hheads, hheads, cmpPart, hnumber hnext has ha,
    hnumber hcurrent hbs hb]
  rw [hheads, hheads] at hdiff
  cases h : compare (digits (as.headD [])) (digits (bs.headD [])) with
  | eq => exact absurd h hdiff
  | lt => simp
  | gt => simp

theorem gt_iff_newer (hnext : Release next) (hcurrent : Release current) :
    (versionGt next current = true ↔ Newer next current) ↔ Told next current := by
  constructor
  · intro h common as bs has hbs hne
    refine .inr ?_
    rw [← versionGt_iff hnext hcurrent has hbs hne, ← newer_iff has hbs, h]
  · intro h
    rcases eq_or_diverge (texts next) (texts current) with heq | ⟨common, as, bs, has, hbs, hne⟩
    · have hself : Padded.compare compare 0 ((texts current).map digits)
          ((texts current).map digits) = .eq := by
          exact ReflCmp.compare_self
      have hparts : parts next = parts current := by
        rw [parts_of_release hnext, parts_of_release hcurrent, heq]
      have hsame := versionGt_self current
      rw [versionGt] at hsame ⊢
      rw [Newer, heq, hself, hparts, hsame]
      simp
    · rw [versionGt_iff hnext hcurrent has hbs hne, newer_iff has hbs]
      rcases h common as bs has hbs hne with ⟨ha, hb, hdigits⟩ | h
      · exact told_of_numbers hnext hcurrent has hbs ha hb hdigits
      · exact h

theorem newer_trans {a b c : List Char} (hab : Newer a b) (hbc : Newer b c) : Newer a c := by
  exact TransCmp.gt_trans hab hbc

/-- What is installed after upgrades that meet the condition is newer than what was before. -/
theorem upgrades_newer {first : List Char} {rest : List (List Char)}
    (h : (first :: rest).IsChain Upgrade) : ∀ v ∈ rest, Newer v first := by
  have hchain : (first :: rest).IsChain fun current next => Newer next current :=
    h.imp fun current next hup => ((gt_iff_newer hup.2.2.1 hup.2.1).mpr hup.2.2.2).mp hup.1
  have : IsTrans (List Char) fun current next => Newer next current :=
    ⟨fun _ _ _ hab hbc => newer_trans hbc hab⟩
  exact (List.pairwise_cons.mp (List.isChain_iff_pairwise.mp hchain)).1

end RevBox.PluginVersion
