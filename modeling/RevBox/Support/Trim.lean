import RevBox.Support.Text

/-!
# Support — Trim

What trimming leaves as it is.

* `trim_trimEndMatches_iff`: when nothing is trimmed.
* `jsTrimEnd_append`, `jsTrimEnd_eq_self_iff`: the same of JavaScript's trimming.
-/

namespace Text

variable {c : Char} {s : List Char}

theorem trimEndMatches_isPrefix (c : Char) (s : List Char) : trimEndMatches c s <+: s :=
  List.rdropWhile_prefix (fun d => decide (d = c)) s

theorem trimEndMatches_concat (c : Char) (s : List Char) :
    trimEndMatches c (s ++ [c]) = trimEndMatches c s :=
  List.rdropWhile_concat_pos (fun d => decide (d = c)) s c (decide_eq_true rfl)

theorem trimEndMatches_eq_self_iff : trimEndMatches c s = s ↔ s.getLast? ≠ some c := by
  have hiff : trimEndMatches c s = s ↔ ∀ hl : s ≠ [], ¬ decide (s.getLast hl = c) = true :=
    List.rdropWhile_eq_self_iff
  rw [hiff]
  constructor
  · intro h hlast
    have hne : s ≠ [] := fun hnil => by
      rw [hnil] at hlast
      cases hlast
    rw [List.getLast?_eq_some_getLast hne, Option.some.injEq] at hlast
    exact h hne (decide_eq_true hlast)
  · intro h hne hc
    exact h ((List.getLast?_eq_some_getLast hne).trans (congrArg some (of_decide_eq_true hc)))

theorem length_trim_le (s : List Char) : (trim s).length ≤ s.length :=
  Nat.le_trans (trimEnd_isPrefix _).length_le (List.dropWhile_suffix _).length_le

/-- **Nothing is trimmed** of a text that ends in no `c` and has no blanks around it. -/
theorem trim_trimEndMatches_iff :
    trim (trimEndMatches c s) = s ↔ trim s = s ∧ s.getLast? ≠ some c := by
  constructor
  · intro h
    have hprefix := trimEndMatches_isPrefix c s
    have hlength : s.length ≤ (trimEndMatches c s).length := by
      have hle := length_trim_le (trimEndMatches c s)
      rwa [h] at hle
    have hself : trimEndMatches c s = s :=
      hprefix.eq_of_length (Nat.le_antisymm hprefix.length_le hlength)
    rw [hself] at h
    exact ⟨h, trimEndMatches_eq_self_iff.mp hself⟩
  · rintro ⟨htrim, hlast⟩
    rw [trimEndMatches_eq_self_iff.mpr hlast, htrim]

theorem trim_subset (s : List Char) : trim s ⊆ s := fun _ h =>
  (List.dropWhile_suffix _).subset ((trimEnd_isPrefix _).subset h)

/-- A trimmed text does not end with a blank. -/
theorem last_of_trim (h : trim s = s) : ∀ c, s.getLast? = some c → isWhitespace c = false := by
  intro c hlast
  have hne : s ≠ [] := fun hnil => by
    rw [hnil] at hlast
    cases hlast
  have htrim : (trimStart s).rdropWhile isWhitespace = s := h
  have hne' : (trimStart s).rdropWhile isWhitespace ≠ [] := htrim.symm ▸ hne
  have hnot := List.rdropWhile_last_not isWhitespace (trimStart s) hne'
  have hget : ((trimStart s).rdropWhile isWhitespace).getLast hne' = c := by
    have hsome := List.getLast?_eq_some_getLast hne'
    exact Option.some.inj (hsome.symm.trans ((congrArg List.getLast? htrim).trans hlast))
  rw [hget] at hnot
  exact Bool.eq_false_iff.mpr hnot

/-- A line that does not end with a carriage return is left as it is. -/
theorem chomp_reverse (h : s.getLast? ≠ some '\r') : chomp s.reverse = s := by
  unfold chomp
  split
  · next l hl =>
      rw [← List.head?_reverse, hl] at h
      exact absurd rfl h
  · exact List.reverse_reverse s

/-! ### JavaScript -/

/-- The white space and the line ends of JavaScript. -/
def isJsSpace (c : Char) : Bool :=
  let n := c.toNat
  (0x09 ≤ n && n ≤ 0x0d) || (0x2000 ≤ n && n ≤ 0x200a) ||
    n ∈ [0x20, 0xa0, 0x1680, 0x2028, 0x2029, 0x202f, 0x205f, 0x3000, 0xfeff]

/-- `String.prototype.trimEnd`. -/
def jsTrimEnd (s : List Char) : List Char := s.rdropWhile isJsSpace

/-- `String.prototype.trim`. -/
def jsTrim (s : List Char) : List Char := jsTrimEnd (s.dropWhile isJsSpace)

/-- What stands before a character that is no white space stays. -/
theorem jsTrimEnd_append (s : List Char) {a : Char} (ha : isJsSpace a = false) (t : List Char) :
    jsTrimEnd (s ++ a :: t) = s ++ a :: jsTrimEnd t := by
  unfold jsTrimEnd List.rdropWhile
  rw [List.reverse_append, List.reverse_cons, List.append_assoc, List.dropWhile_append]
  split
  · next h =>
      rw [List.isEmpty_iff.mp h, List.singleton_append, List.dropWhile_cons_of_neg (by simp [ha])]
      simp
  · simp

theorem jsTrim_cons {a : Char} (ha : isJsSpace a = false) (t : List Char) :
    jsTrim (a :: t) = a :: jsTrimEnd t := by
  rw [jsTrim, List.dropWhile_cons_of_neg (by simp [ha])]
  exact jsTrimEnd_append [] ha t

theorem jsTrimEnd_jsTrim (s : List Char) : jsTrimEnd (jsTrim s) = jsTrim s :=
  List.rdropWhile_idempotent isJsSpace _

theorem jsTrimEnd_eq_self_iff :
    jsTrimEnd s = s ↔ ∀ c, s.getLast? = some c → isJsSpace c = false := by
  refine List.rdropWhile_eq_self_iff.trans ⟨fun h c hc => ?_, fun h hne => ?_⟩
  · have hne : s ≠ [] := fun hnil => by
      rw [hnil] at hc
      cases hc
    rw [List.getLast?_eq_some_getLast hne, Option.some.injEq] at hc
    exact Bool.eq_false_iff.mpr (hc ▸ h hne)
  · exact Bool.eq_false_iff.mp (h _ (List.getLast?_eq_some_getLast hne))

end Text
