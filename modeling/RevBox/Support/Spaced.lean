import RevBox.Support.Trim

/-!
# Support — Spaced

Texts of words with single spaces between them, which are what words joined by a space are.

* `join_words`: such a text is its words, joined.
* `spaced_join`: words, joined, are such a text.
-/

namespace Text

/-- The text is of words with single spaces between them; `afterSpace` says whether it stands behind
a space, or begins. -/
def Spaced : Bool → List Char → Prop
  | afterSpace, [] => afterSpace = false
  | afterSpace, c :: s =>
      if isWhitespace c then c = ' ' ∧ afterSpace = false ∧ Spaced true s else Spaced false s

variable {b : Bool} {c : Char} {s t w : List Char}

/-- A space parts what is spaced. -/
theorem spaced_append_space : ∀ {b : Bool} (s t : List Char),
    Spaced b (s ++ ' ' :: t) ↔ Spaced b s ∧ Spaced true t
  | b, [], t => by
      have hspace : Spaced b (' ' :: t) ↔ ' ' = ' ' ∧ b = false ∧ Spaced true t := by
        rw [Spaced, if_pos (by decide)]
      rw [List.nil_append, hspace]
      exact and_iff_right rfl
  | b, c :: s, t => by
      rw [List.cons_append, Spaced, Spaced]
      split_ifs
      · rw [spaced_append_space s t, and_assoc, and_assoc]
      · exact spaced_append_space s t

theorem Spaced.ne_nil (h : Spaced true s) : s ≠ [] := by
  rintro rfl
  cases h

/-- The only blanks are spaces. -/
theorem Spaced.blank (h : Spaced b s) : ∀ c ∈ s, isWhitespace c = true → c = ' ' := by
  induction s generalizing b with
  | nil => nofun
  | cons d s ih =>
      rw [Spaced] at h
      split_ifs at h with hd
      · exact List.forall_mem_cons.mpr ⟨fun _ => h.1, ih h.2.2⟩
      · exact List.forall_mem_cons.mpr ⟨fun hblank => absurd hblank hd, ih h⟩

/-- The end is no blank. -/
theorem Spaced.last (h : Spaced b s) : ∀ c, s.getLast? = some c → isWhitespace c = false := by
  intro c hlast
  obtain ⟨t, rfl⟩ := List.getLast?_eq_some_iff.mp hlast
  by_contra hblank
  have hc := h.blank c (List.mem_append_right t List.mem_cons_self)
    ((Bool.not_eq_false _).mp hblank)
  rw [hc, spaced_append_space] at h
  cases h.2

/-- The beginning is no blank. -/
theorem Spaced.head (h : Spaced true s) : ∀ c, s.head? = some c → isWhitespace c = false := by
  intro c hhead
  obtain ⟨t, rfl⟩ := List.head?_eq_some_iff.mp hhead
  rw [Spaced] at h
  split_ifs at h with hblank
  · cases h.2.1
  · exact Bool.eq_false_iff.mpr hblank

theorem Spaced.no_newline (h : Spaced b s) : '\n' ∉ s := fun hn =>
  absurd (h.blank '\n' hn rfl) (by decide)

/-- A word is spaced. -/
theorem spaced_word (hne : w ≠ []) (hw : ∀ c ∈ w, isWhitespace c = false) : Spaced b w := by
  have hfalse : ∀ {w : List Char}, (∀ c ∈ w, isWhitespace c = false) → Spaced false w := by
    intro w hw
    induction w with
    | nil => rfl
    | cons c w ih =>
        rw [Spaced, if_neg (by simp [hw c List.mem_cons_self])]
        exact ih fun d hd => hw d (List.mem_cons_of_mem c hd)
  obtain ⟨c, w, rfl⟩ := List.exists_cons_of_ne_nil hne
  rw [Spaced, if_neg (by simp [hw c List.mem_cons_self])]
  exact hfalse fun d hd => hw d (List.mem_cons_of_mem c hd)

theorem join_cons_cons (c : Char) (w w' : List Char) (ws : List (List Char)) :
    join c (w :: w' :: ws) = w ++ c :: join c (w' :: ws) := by
  simp [join, List.intercalate_cons_cons]

/-- **Words, joined by spaces, are spaced.** -/
theorem spaced_join {ws : List (List Char)} (hne : ws ≠ [])
    (h : ∀ w ∈ ws, w ≠ [] ∧ ∀ c ∈ w, isWhitespace c = false) : Spaced true (join ' ' ws) := by
  induction ws with
  | nil => exact absurd rfl hne
  | cons w rest ih =>
      obtain ⟨hw, hno⟩ := h w List.mem_cons_self
      cases rest with
      | nil =>
          have hone : join ' ' [w] = w := by simp [join, List.intercalate]
          exact hone.symm ▸ spaced_word hw hno
      | cons w' ws =>
          rw [join_cons_cons, spaced_append_space]
          exact ⟨spaced_word hw hno,
            ih (List.cons_ne_nil w' ws) fun v hv => h v (List.mem_cons_of_mem w hv)⟩

/-- **A spaced text is its words, joined.** -/
theorem join_words (h : Spaced true s) : join ' ' (splitWhitespace s) = s := by
  refine cut_induction (P := fun s => Spaced true s → join ' ' (splitWhitespace s) = s) ' '
    (fun s hs h => ?_) (fun l s hl ih h => ?_) s h
  · have hw : ∀ c ∈ s, isWhitespace c = false := fun c hc => by
      by_contra hblank
      have hspace := h.blank c hc ((Bool.not_eq_false _).mp hblank)
      exact hs (hspace ▸ hc)
    rw [splitWhitespace_word h.ne_nil hw]
    simp [join, List.intercalate]
  · obtain ⟨hl', hs⟩ := (spaced_append_space l s).mp h
    have hw : ∀ c ∈ l, isWhitespace c = false := fun c hc => by
      by_contra hblank
      have hspace := hl'.blank c hc ((Bool.not_eq_false _).mp hblank)
      exact hl (hspace ▸ hc)
    have hne : splitWhitespace s ≠ [] := fun hnil => by
      have hjoin := ih hs
      rw [hnil] at hjoin
      exact hs.ne_nil hjoin.symm
    obtain ⟨w, ws, hws⟩ := List.exists_cons_of_ne_nil hne
    rw [splitWhitespace_parts rfl, splitWhitespace_word hl'.ne_nil hw, hws, List.singleton_append,
      join_cons_cons, ← hws, ih hs]

theorem Spaced.words_ne_nil (h : Spaced true s) : splitWhitespace s ≠ [] := fun hnil => by
  have hjoin := join_words h
  rw [hnil] at hjoin
  exact h.ne_nil hjoin.symm

/-- Spaces between words, of any width. -/
theorem splitWhitespace_spaces (n : Nat) : splitWhitespace (List.replicate n ' ') = [] := by
  induction n with
  | zero => rfl
  | succ n ih => exact (wordsFrom_blank rfl _).trans ih

theorem splitWhitespace_padded (hne : w ≠ []) (hw : ∀ c ∈ w, isWhitespace c = false) (n : Nat)
    (rest : List Char) : splitWhitespace (w ++ (List.replicate n ' ' ++ ' ' :: rest)) =
      w :: splitWhitespace rest := by
  cases n with
  | zero =>
      rw [List.replicate_zero, List.nil_append, splitWhitespace_parts rfl,
        splitWhitespace_word hne hw]
      rfl
  | succ n =>
      rw [List.replicate_succ, List.cons_append, splitWhitespace_parts rfl,
        splitWhitespace_parts rfl, splitWhitespace_word hne hw, splitWhitespace_spaces]
      rfl

end Text
