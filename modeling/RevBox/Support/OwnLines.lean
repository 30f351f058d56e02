import Mathlib.Data.List.Forall2
import RevBox.Support.Text

/-!
# Support — OwnLines

Texts written one after the other, each of which begins with a digit; where a text has more lines,
those begin with a blank.

* `ended`: the lines of a text that are ended.
* `countP_ended_flatten`: there are at most as many lines that begin with a digit as texts, and as
  many iff each of the texts begins a line and ends it.
-/

namespace Text

/-- A text goes in front of the first of the lines. -/
def onto (front : List Char) : List (List Char) → List (List Char)
  | [] => []
  | l :: ls => (front ++ l) :: ls

/-- The lines that a line end stands behind. -/
def ended : List Char → List (List Char)
  | [] => []
  | c :: s => if c = '\n' then [] :: ended s else onto [c] (ended s)

/-- The line begins with a digit. -/
def beginsWithDigit : List Char → Bool
  | [] => false
  | c :: _ => isAsciiDigit c

/-- All lines begin with a space, but for a first one that has begun before. -/
def Indented : Bool → List Char → Prop
  | _, [] => True
  | fresh, c :: s => (fresh = true → c = ' ') ∧ Indented (c = '\n') s

/-- The text begins with a digit, and its later lines are indented. -/
def Entry (t : List Char) : Prop :=
  ∃ d first below, isAsciiDigit d = true ∧ '\n' ∉ first ∧ Indented true below ∧
    (t = d :: first ∨ t = d :: (first ++ '\n' :: below))

variable {b : Bool} {c : Char} {s t u below : List Char} {ts : List (List Char)}

/-- Nothing stands behind the last line end. -/
def Closed (s : List Char) : Prop := ('\n' :: s).getLast? = some '\n'

/-! ### Lines that are indented -/

theorem Indented.weaken (h : Indented true s) : Indented b s := by
  cases s with
  | nil => trivial
  | cons c s => exact ⟨fun _ => h.1 rfl, h.2⟩

theorem Indented.append : ∀ {b : Bool} {s t : List Char}, Indented b s → Indented true t →
    Indented b (s ++ t)
  | _, [], _, _, ht => ht.weaken
  | _, _ :: _, _, hs, ht => ⟨hs.1, hs.2.append ht⟩

theorem indented_line (h : '\n' ∉ u) : Indented false u := by
  induction u with
  | nil => trivial
  | cons c u ih =>
      have hc : decide (c = '\n') = false := decide_eq_false (Ne.symm (List.ne_of_not_mem_cons h))
      refine ⟨nofun, ?_⟩
      rw [hc]
      exact ih (List.not_mem_of_not_mem_cons h)

theorem indented_line_append (h : '\n' ∉ u) (hs : Indented true s) :
    Indented false (u ++ '\n' :: s) := by
  induction u with
  | nil => exact ⟨nofun, hs⟩
  | cons c u ih =>
      have hc : decide (c = '\n') = false := decide_eq_false (Ne.symm (List.ne_of_not_mem_cons h))
      refine ⟨nofun, ?_⟩
      rw [hc]
      exact ih (List.not_mem_of_not_mem_cons h)

theorem closed_append (h : t ≠ []) (s : List Char) : Closed (s ++ t) ↔ Closed t := by
  rw [Closed, Closed, ← List.cons_append, List.getLast?_append_of_ne_nil _ h,
    ← List.singleton_append, List.getLast?_append_of_ne_nil _ h]

theorem closed_line_append (u s : List Char) : Closed (u ++ '\n' :: s) ↔ Closed s := by
  rw [Closed, ← List.cons_append, List.getLast?_append_of_ne_nil _ (List.cons_ne_nil _ _), Closed]

theorem not_closed_line (h : '\n' ∉ u) (hne : u ≠ []) : ¬ Closed u := by
  rw [Closed, ← List.singleton_append, List.getLast?_append_of_ne_nil _ hne]
  exact fun hlast => h (List.mem_of_getLast? hlast)

/-! ### The lines -/

theorem ended_newline (s : List Char) : ended ('\n' :: s) = [] :: ended s := if_pos rfl

theorem ended_cons (h : c ≠ '\n') (s : List Char) : ended (c :: s) = onto [c] (ended s) := if_neg h

theorem ended_line : ∀ {u : List Char}, '\n' ∉ u → ended u = []
  | [], _ => rfl
  | c :: u, h => by
      have hc := List.ne_of_not_mem_cons h
      have hu := List.not_mem_of_not_mem_cons h
      rw [ended_cons (Ne.symm hc), ended_line hu]
      rfl

theorem ended_line_append : ∀ {u : List Char} (s : List Char), '\n' ∉ u →
    ended (u ++ '\n' :: s) = u :: ended s
  | [], s, _ => ended_newline s
  | c :: u, s, h => by
      have hc := List.ne_of_not_mem_cons h
      have hu := List.not_mem_of_not_mem_cons h
      rw [List.cons_append, ended_cons (Ne.symm hc), ended_line_append s hu]
      rfl

theorem ended_ne_nil : ∀ {s : List Char}, '\n' ∈ s → ended s ≠ []
  | c :: s, h => by
      by_cases hc : c = '\n'
      · rw [hc, ended_newline]
        nofun
      · have hs : '\n' ∈ s := (List.mem_cons.mp h).resolve_left (Ne.symm hc)
        obtain ⟨l, ls, hl⟩ := List.exists_cons_of_ne_nil (ended_ne_nil hs)
        rw [ended_cons hc, hl]
        nofun

/-- Behind a line end, the lines are those of what follows. -/
theorem ended_append : ∀ {t : List Char} (s : List Char), t.getLast? = some '\n' →
    ended (t ++ s) = ended t ++ ended s
  | [], _, h => nomatch h
  | [c], s, h => by
      cases h
      exact ended_newline s
  | c :: d :: t, s, h => by
      have ih := ended_append (t := d :: t) s h
      rw [List.cons_append]
      by_cases hc : c = '\n'
      · rw [hc, ended_newline, ended_newline, ih, List.cons_append]
      · obtain ⟨l, ls, hl⟩ := List.exists_cons_of_ne_nil
          (ended_ne_nil (List.mem_of_getLast? (l := d :: t) h))
        rw [ended_cons hc, ended_cons hc, ih, hl]
        rfl

/-! ### How many begin with a digit -/

/-- The lines that begin with a digit. -/
def heads (s : List Char) : Nat := (ended s).countP beginsWithDigit

/-- Those behind the first line. -/
def laterHeads (s : List Char) : Nat := (ended s).tail.countP beginsWithDigit

theorem laterHeads_newline (s : List Char) : laterHeads ('\n' :: s) = heads s := by
  rw [laterHeads, ended_newline, List.tail_cons, heads]

theorem laterHeads_cons (h : c ≠ '\n') (s : List Char) : laterHeads (c :: s) = laterHeads s := by
  rw [laterHeads, ended_cons h, laterHeads]
  cases ended s <;> rfl

/-- A line that begins with no digit. -/
theorem heads_cons (h : c ≠ '\n') (hdigit : isAsciiDigit c = false) (s : List Char) :
    heads (c :: s) = laterHeads s := by
  rw [heads, ended_cons h, laterHeads]
  cases ended s with
  | nil => rfl
  | cons l ls =>
      have hbegins : ¬ beginsWithDigit ([c] ++ l) = true := by
        rw [List.singleton_append, beginsWithDigit, hdigit]
        decide
      rw [onto, List.countP_cons_of_neg hbegins, List.tail_cons]

theorem digit_ne (h : isAsciiDigit c = true) : c ≠ '\n' := by
  rintro rfl
  cases h

/-- A line that begins with a digit, if it is ended. -/
theorem heads_digit (h : isAsciiDigit c = true) (s : List Char) :
    heads (c :: s) = laterHeads s + if '\n' ∈ s then 1 else 0 := by
  rw [heads, ended_cons (digit_ne h), laterHeads]
  by_cases hs : '\n' ∈ s
  · obtain ⟨l, ls, hl⟩ := List.exists_cons_of_ne_nil (ended_ne_nil hs)
    have hbegins : beginsWithDigit ([c] ++ l) = true := h
    rw [if_pos hs, hl, onto, List.countP_cons_of_pos hbegins, List.tail_cons]
  · rw [if_neg hs, ended_line hs]
    rfl

theorem laterHeads_append : ∀ {u : List Char} (s : List Char), '\n' ∉ u →
    laterHeads (u ++ s) = laterHeads s
  | [], _, _ => rfl
  | c :: u, s, h => by
      have hc := List.ne_of_not_mem_cons h
      have hu := List.not_mem_of_not_mem_cons h
      rw [List.cons_append, laterHeads_cons (Ne.symm hc), laterHeads_append s hu]

/-- The line is at its end. -/
theorem last_cons (h : c ≠ '\n') (s : List Char) :
    (c :: s).getLast? = some '\n' ↔ s.getLast? = some '\n' := by
  cases s with
  | nil => exact iff_of_false (fun hc => h (Option.some.inj hc)) nofun
  | cons d s => rw [List.getLast?_cons_cons]

/-- Lines that are indented begin with no digit. -/
theorem laterHeads_indented : ∀ {s : List Char} (t : List Char), Indented false s →
    laterHeads (s ++ t) = if s.getLast? = some '\n' then heads t else laterHeads t
  | [], _, _ => (if_neg nofun).symm
  | [c], t, _ => by
      by_cases hc : c = '\n'
      · rw [hc]
        exact (laterHeads_newline t).trans (if_pos rfl).symm
      · exact (laterHeads_cons hc t).trans (if_neg fun hlast => hc (Option.some.inj hlast)).symm
  | c :: d :: s, t, h => by
      by_cases hc : c = '\n'
      · -- the next line begins with a space
        rw [hc] at h ⊢
        obtain ⟨hd, hs⟩ := h.2
        cases hd (decide_eq_true rfl)
        have hlast := last_cons (c := ' ') (by decide) s
        rw [List.cons_append, laterHeads_newline, List.cons_append,
          heads_cons (by decide) (by decide), laterHeads_indented t hs, List.getLast?_cons_cons,
          if_congr hlast rfl rfl]
      · rw [List.cons_append, laterHeads_cons hc, List.getLast?_cons_cons]
        have hnext : Indented false (d :: s) := by
          have hfresh := h.2
          rwa [decide_eq_false hc] at hfresh
        exact laterHeads_indented t hnext

/-! ### Texts in a row -/

/-- What a text adds to the lines that begin with a digit: none of its own where it has no line
end. -/
theorem heads_entry (h : Entry t) (s : List Char) :
    ('\n' ∉ t ∧ heads (t ++ s) = laterHeads s + (if '\n' ∈ s then 1 else 0) ∧
      laterHeads (t ++ s) = laterHeads s) ∨
    ('\n' ∈ t ∧ t.getLast? = some '\n' ∧ heads (t ++ s) = heads s + 1 ∧
      laterHeads (t ++ s) = heads s) ∨
    ('\n' ∈ t ∧ t.getLast? ≠ some '\n' ∧ heads (t ++ s) = laterHeads s + 1 ∧
      laterHeads (t ++ s) = laterHeads s) := by
  obtain ⟨d, first, below, hdigit, hfirst, hbelow, rfl | rfl⟩ := h
  · have hmem : '\n' ∉ d :: first := 
      List.not_mem_cons_of_ne_of_not_mem (Ne.symm (digit_ne hdigit)) hfirst
    refine .inl ⟨hmem, ?_, laterHeads_append s hmem⟩
    rw [List.cons_append, heads_digit hdigit, laterHeads_append s hfirst]
    simp only [List.mem_append, hfirst, false_or]
  · have hmem : '\n' ∈ d :: (first ++ '\n' :: below) := by simp
    have hlater : laterHeads (d :: (first ++ '\n' :: below) ++ s) =
        laterHeads ('\n' :: below ++ s) := by
      rw [List.cons_append, laterHeads_cons (digit_ne hdigit), List.append_assoc,
        laterHeads_append _ hfirst]
    have hheads : heads (d :: (first ++ '\n' :: below) ++ s) =
        laterHeads ('\n' :: below ++ s) + 1 := by
      rw [List.cons_append, heads_digit hdigit, List.append_assoc, laterHeads_append _ hfirst,
        if_pos (by simp)]
    have hlast : (d :: (first ++ '\n' :: below)).getLast? = ('\n' :: below).getLast? := by
      rw [← List.cons_append, List.getLast?_append_of_ne_nil _ (List.cons_ne_nil _ _)]
    have hindented : Indented false ('\n' :: below) := ⟨nofun, hbelow⟩
    rw [hheads, hlater, laterHeads_indented s hindented, hlast]
    by_cases hend : ('\n' :: below).getLast? = some '\n'
    · rw [if_pos hend]
      exact .inr (.inl ⟨hmem, hend, rfl, rfl⟩)
    · rw [if_neg hend]
      exact .inr (.inr ⟨hmem, hend, rfl, rfl⟩)

/-- Each of the texts has a line, and each but the last ends with one. -/
def Parted (ts : List (List Char)) : Prop :=
  (∀ t ∈ ts, '\n' ∈ t) ∧ ∀ t ∈ ts.dropLast, t.getLast? = some '\n'

theorem parted_singleton : Parted [t] ↔ '\n' ∈ t :=
  (and_iff_left nofun).trans List.forall_mem_singleton

theorem parted_cons (h : ts ≠ []) :
    Parted (t :: ts) ↔ '\n' ∈ t ∧ t.getLast? = some '\n' ∧ Parted ts := by
  rw [Parted, List.dropLast_cons_of_ne_nil h, List.forall_mem_cons, List.forall_mem_cons, Parted]
  tauto

/-- How many lines begin with a digit, of texts in a row. -/
theorem heads_flatten : ∀ {ts : List (List Char)}, (∀ t ∈ ts, Entry t) →
    heads ts.flatten ≤ ts.length ∧ laterHeads ts.flatten ≤ ts.length - 1 ∧
      (heads ts.flatten = ts.length ↔ Parted ts)
  | [], _ => ⟨Nat.le_refl 0, Nat.le_refl 0, iff_of_true rfl ⟨nofun, nofun⟩⟩
  | [t], h => by
      have hnil : heads [] = 0 ∧ laterHeads [] = 0 := ⟨rfl, rfl⟩
      rw [parted_singleton, List.flatten_singleton]
      rcases heads_entry (h t List.mem_cons_self) [] with ⟨hmem, hheads, hlater⟩ |
        ⟨hmem, -, hheads, hlater⟩ | ⟨hmem, -, hheads, hlater⟩ <;>
      rw [List.append_nil] at hheads hlater <;>
      simp [hheads, hlater, hmem, hnil]
  | t :: t' :: ts, h => by
      obtain ⟨ht, hts⟩ := List.forall_mem_cons.mp h
      obtain ⟨hle, hlate, hiff⟩ := heads_flatten hts
      rw [parted_cons (List.cons_ne_nil t' ts), List.flatten_cons, ← hiff, List.length_cons]
      have hpos : 0 < (t' :: ts).length := Nat.succ_pos _
      rcases heads_entry ht (t' :: ts).flatten with ⟨hmem, hheads, hlater⟩ |
        ⟨hmem, hlast, hheads, hlater⟩ | ⟨hmem, hlast, hheads, hlater⟩
      · have hone : (if '\n' ∈ (t' :: ts).flatten then 1 else 0) ≤ 1 := by split_ifs <;> decide
        refine ⟨by omega, by omega, iff_of_false (by omega) fun hparted => hmem hparted.1⟩
      · refine ⟨by omega, by omega, ?_⟩
        rw [hheads, Nat.add_right_cancel_iff, and_iff_right hmem, and_iff_right hlast]
      · exact ⟨by omega, by omega, iff_of_false (by omega) fun hparted => hlast hparted.2.1⟩

/-! ### Lines of their own -/

/-- Each of the numbers begins a line, in order, and the line is ended. -/
def OwnLines (numbers : List Nat) (out : List Char) : Prop :=
  List.SublistForall₂ (fun n l => decimal n ++ [' '] <+: l) numbers (ended out)

/-- The text begins with the number, and its later lines are indented. -/
def EntryOf (n : Nat) (t : List Char) : Prop :=
  ∃ first below, '\n' ∉ first ∧ Indented true below ∧
    (t = decimal n ++ ' ' :: first ∨ t = decimal n ++ ' ' :: (first ++ '\n' :: below))

theorem decimal_cons (n : Nat) :
    ∃ d ds, decimal n = d :: ds ∧ isAsciiDigit d = true ∧ '\n' ∉ ds := by
  obtain ⟨d, ds, hd⟩ := List.exists_cons_of_ne_nil (decimal_ne_nil n)
  have hdigits : ∀ c ∈ d :: ds, isAsciiDigit c = true := fun c hc =>
    isAsciiDigit_of_mem_decimal (hd ▸ hc)
  exact ⟨d, ds, hd, hdigits d List.mem_cons_self, fun hmem =>
    digit_ne (hdigits _ (List.mem_cons_of_mem d hmem)) rfl⟩

theorem EntryOf.entry {n : Nat} (h : EntryOf n t) : Entry t := by
  obtain ⟨first, below, hfirst, hbelow, ht⟩ := h
  obtain ⟨d, ds, hd, hdigit, hds⟩ := decimal_cons n
  have hline : '\n' ∉ ds ++ ' ' :: first := by simp [hds, hfirst]
  refine ⟨d, ds ++ ' ' :: first, below, hdigit, hline, hbelow, ht.imp (fun ht => ?_) fun ht => ?_⟩
  · rw [ht, hd, List.cons_append]
  · rw [ht, hd, List.cons_append, List.append_assoc, List.cons_append]

/-- The first line of a text. -/
theorem EntryOf.first_line {n : Nat} (h : EntryOf n t) (hmem : '\n' ∈ t) :
    ∃ l ls, Text.ended t = l :: ls ∧ decimal n ++ [' '] <+: l := by
  obtain ⟨first, below, hfirst, -, ht⟩ := h
  have hdecimal : '\n' ∉ decimal n := fun hd => digit_ne (isAsciiDigit_of_mem_decimal hd) rfl
  have hline : '\n' ∉ decimal n ++ ' ' :: first := by simp [hdecimal, hfirst]
  rcases ht with rfl | rfl
  · exact absurd hmem hline
  · refine ⟨decimal n ++ ' ' :: first, Text.ended below, ?_, first, by simp⟩
    rw [← ended_line_append below hline, List.append_assoc, List.cons_append]

theorem forall_right {α β : Type} {R : α → β → Prop} {P : β → Prop} {xs : List α} {ys : List β}
    (h : List.Forall₂ R xs ys) (hP : ∀ a b, R a b → P b) : ∀ b ∈ ys, P b := by
  induction h with
  | nil => nofun
  | cons hab _ ih => exact List.forall_mem_cons.mpr ⟨hP _ _ hab, ih⟩

/-- What is said of the one side, is said of the other. -/
theorem forall_iff {α β : Type} {R : α → β → Prop} {P : α → Prop} {Q : β → Prop} {xs : List α}
    {ys : List β} (h : List.Forall₂ R xs ys) (hPQ : ∀ a b, R a b → (P a ↔ Q b)) :
    (∀ a ∈ xs, P a) ↔ ∀ b ∈ ys, Q b := by
  induction h with
  | nil => exact iff_of_true nofun nofun
  | cons hab _ ih => rw [List.forall_mem_cons, List.forall_mem_cons, hPQ _ _ hab, ih]

theorem exists_forall₂ {α β : Type} {R : α → β → Prop} {xs : List α}
    (h : ∀ a ∈ xs, ∃ b, R a b) : ∃ ys, List.Forall₂ R xs ys := by
  induction xs with
  | nil => exact ⟨[], .nil⟩
  | cons a xs ih =>
      obtain ⟨⟨b, hb⟩, hxs⟩ := List.forall_mem_cons.mp h
      obtain ⟨ys, hys⟩ := ih hxs
      exact ⟨b :: ys, .cons hb hys⟩

theorem forall₂_dropLast {α β : Type} {R : α → β → Prop} {xs : List α} {ys : List β}
    (h : List.Forall₂ R xs ys) : List.Forall₂ R xs.dropLast ys.dropLast := by
  rw [List.dropLast_eq_take, List.dropLast_eq_take, ← h.length_eq]
  exact List.forall₂_take _ h

theorem beginsWithDigit_of_decimal {n : Nat} {l : List Char} (h : decimal n ++ [' '] <+: l) :
    beginsWithDigit l = true := by
  obtain ⟨d, ds, hd, hdigit, -⟩ := decimal_cons n
  obtain ⟨rest, rfl⟩ := h
  rw [hd]
  exact hdigit

/-- **Every text has its line** iff each of them has a line end, and each but the last ends with
one. -/
theorem ownLines_flatten_iff {numbers : List Nat} (h : List.Forall₂ EntryOf numbers ts) :
    OwnLines numbers ts.flatten ↔ Parted ts := by
  constructor
  · intro hown
    obtain ⟨ls, hls, hsub⟩ := List.sublistForall₂_iff.mp hown
    have hentries : ∀ t ∈ ts, Entry t := forall_right h fun _ _ => EntryOf.entry
    have hdigits : ∀ l ∈ ls, beginsWithDigit l = true :=
      forall_right hls fun _ _ => beginsWithDigit_of_decimal
    obtain ⟨hle, -, hiff⟩ := heads_flatten hentries
    refine hiff.mp (Nat.le_antisymm hle ?_)
    rw [← h.length_eq, hls.length_eq, ← List.countP_eq_length.mpr hdigits]
    exact hsub.countP_le
  · intro hparted
    induction h with
    | nil => exact .nil
    | @cons n t numbers ts hn hns ih =>
        by_cases hts : ts = []
        · subst hts
          cases hns
          obtain ⟨l, ls, hl, hprefix⟩ := hn.first_line (parted_singleton.mp hparted)
          rw [List.flatten_singleton, OwnLines, hl]
          exact .cons hprefix .nil
        · obtain ⟨hmem, hlast, hrest⟩ := (parted_cons hts).mp hparted
          obtain ⟨l, ls, hl, hprefix⟩ := hn.first_line hmem
          rw [List.flatten_cons, OwnLines, ended_append _ hlast, hl, List.cons_append]
          refine .cons hprefix ?_
          have hlater := ih hrest
          rw [OwnLines, List.sublistForall₂_iff] at hlater
          obtain ⟨found, hfound, hsub⟩ := hlater
          exact List.sublistForall₂_iff.mpr
            ⟨found, hfound, hsub.trans (List.sublist_append_right ls _)⟩

end Text
