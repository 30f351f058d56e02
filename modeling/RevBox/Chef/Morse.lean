import RevBox.Chef.Data
import RevBox.Support.Results
import RevBox.Support.Split

/-!
# Chef — Morse

Morse code, `morse_encode` and `morse_decode` (`services/chef/ops/encoding.rs`). Both take a
separator of words; the encoder takes one of letters too, where the decoder looks for white space.

* `read_word`: a word whose codes stand apart is read as those codes, or not at all.
* `morse_round_trip`: what is decoded is the text in upper case with single spaces, when the word
  separator stands out and the letter separator keeps the codes apart.
-/

namespace RevBox.Chef

open Text

/-! ### The code -/

/-- `MORSE`. -/
def morse : List (Char × List Char) :=
  [('A', ".-".toList), ('B', "-...".toList), ('C', "-.-.".toList), ('D', "-..".toList),
   ('E', ".".toList), ('F', "..-.".toList), ('G', "--.".toList), ('H', "....".toList),
   ('I', "..".toList), ('J', ".---".toList), ('K', "-.-".toList), ('L', ".-..".toList),
   ('M', "--".toList), ('N', "-.".toList), ('O', "---".toList), ('P', ".--.".toList),
   ('Q', "--.-".toList), ('R', ".-.".toList), ('S', "...".toList), ('T', "-".toList),
   ('U', "..-".toList), ('V', "...-".toList), ('W', ".--".toList), ('X', "-..-".toList),
   ('Y', "-.--".toList), ('Z', "--..".toList), ('0', "-----".toList), ('1', ".----".toList),
   ('2', "..---".toList), ('3', "...--".toList), ('4', "....-".toList), ('5', ".....".toList),
   ('6', "-....".toList), ('7', "--...".toList), ('8', "---..".toList), ('9', "----.".toList),
   ('.', ".-.-.-".toList), (',', "--..--".toList), ('?', "..--..".toList),
   ('\'', ".----.".toList), ('!', "-.-.--".toList), ('/', "-..-.".toList),
   ('(', "-.--.".toList), (')', "-.--.-".toList), ('&', ".-...".toList), (':', "---...".toList),
   (';', "-.-.-.".toList), ('=', "-...-".toList), ('+', ".-.-.".toList), ('-', "-....-".toList),
   ('_', "..--.-".toList), ('"', ".-..-.".toList), ('$', "...-..-".toList),
   ('@', ".--.-.".toList)]

/-- The code of a character, in upper case or not. -/
def codeOf (ch : Char) : Option (List Char) :=
  (morse.find? fun e => e.1 = ch.toUpper).map Prod.snd

def encodeChar (ch : Char) : ChefResult (List Char) :=
  match codeOf ch with
  | some code => .ok code
  | none => .error (fail s!"「{ch}」没有莫尔斯编码（这个表只覆盖拉丁字母、数字与常用标点）")

/-- The character of a code. -/
def decodeCode (code : List Char) : ChefResult Char :=
  match morse.find? fun e => e.2 = code with
  | some (ch, _) => .ok ch
  | none => .error (fail s!"未知莫尔斯码「{String.ofList code}」")

/-- `letterSeparator`. -/
def letterSeparator (args : Args) : List Char := (args.text "letterSeparator" " ").toList

/-- `wordSeparator`. -/
def wordSeparator (args : Args) : List Char := (args.text "wordSeparator" "/").toList

/-- `morse_encode`. -/
def morseEncode (data : ChefData) (args : Args) : ChefResult ChefData := do
  let words ← (splitWhitespace (← data.text)).mapM fun word => do
    return Split.join (letterSeparator args) (← word.mapM encodeChar)
  return .fromText (Split.join (' ' :: wordSeparator args ++ [' ']) words)

/-- What is decoded, with another word behind it. -/
def glue (out decoded : List Char) : List Char :=
  (if out = [] then out else out ++ [' ']) ++ decoded

/-- `morse_decode`. -/
def morseDecode (data : ChefData) (args : Args) : ChefResult ChefData := do
  let out ← (Split.split (wordSeparator args) (← data.text)).foldlM
    (fun out word => do return glue out (← (splitWhitespace word).mapM decodeCode)) []
  return .fromText out

/-! ### What is promised -/

/-- The codes. -/
def codes : List (List Char) := morse.map Prod.snd

/-- A word in upper case. -/
def upper (word : List Char) : List Char := word.map Char.toUpper

/-- **The text that comes back**: in upper case, with its words joined by single spaces. -/
def plain (text : List Char) : List Char := Split.join [' '] ((splitWhitespace text).map upper)

/-- A text of characters of the table and white space. -/
def OfTable (text : List Char) : Prop :=
  ∀ c ∈ text, isWhitespace c = true ∨ (codeOf c).isSome = true

instance (text : List Char) : Decidable (OfTable text) :=
  List.decidableBAll _ text

/-- What is encoded, if it is decoded, comes back. -/
def ComesBack (enc dec : Args) : Prop :=
  ∀ text sent back, morseEncode (.fromText text) enc = .ok sent → morseDecode sent dec = .ok back →
    back = .fromText (plain text)

/-- The word separator has a character that is neither of the codes, nor a space, nor of the letter
separator. -/
def WordsApart (letterSep wordSep : List Char) : Prop :=
  ∃ c ∈ wordSep, c ∉ letterSep ∧ c ≠ '.' ∧ c ≠ '-' ∧ c ≠ ' '

/-- The letter separator is white space, or nothing that it joins two codes to is made of codes
only. -/
def LettersApart (letterSep : List Char) : Prop :=
  (letterSep ≠ [] ∧ ∀ c ∈ letterSep, isWhitespace c = true) ∨
    ∀ a ∈ codes, ∀ b ∈ codes, ∃ token ∈ splitWhitespace (a ++ letterSep ++ b), token ∉ codes

/-! ### The table -/

/-- A code is one to seven dots and dashes. -/
theorem code_shape {code : List Char} (h : code ∈ codes) :
    code ≠ [] ∧ code.length ≤ 7 ∧ ∀ c ∈ code, c = '.' ∨ c = '-' := by
  have hall : ∀ code ∈ codes, code ≠ [] ∧ code.length ≤ 7 ∧
      (code.all fun c => c = '.' || c = '-') = true := by decide
  obtain ⟨hne, hlen, hchars⟩ := hall code h
  exact ⟨hne, hlen, fun c hc => by simpa using List.all_eq_true.mp hchars c hc⟩

theorem code_no_blank {code : List Char} (h : code ∈ codes) :
    ∀ c ∈ code, isWhitespace c = false := by
  intro c hc
  rcases (code_shape h).2.2 c hc with rfl | rfl <;> rfl

theorem find_char : ∀ e ∈ morse, (morse.find? fun e' => e'.1 = e.1) = some e := by decide

theorem find_code : ∀ e ∈ morse, (morse.find? fun e' => e'.2 = e.2) = some e := by decide

theorem encodeChar_ok_iff {ch : Char} {code : List Char} :
    encodeChar ch = .ok code ↔ (ch.toUpper, code) ∈ morse := by
  unfold encodeChar codeOf
  constructor
  · intro h
    cases hfind : morse.find? fun e => e.1 = ch.toUpper with
    | none => rw [hfind] at h; cases h
    | some e =>
        rw [hfind] at h
        cases h
        have hch : e.1 = ch.toUpper := by simpa using List.find?_some hfind
        exact hch ▸ List.mem_of_find?_eq_some hfind
  · intro h
    have hfind := find_char _ h
    dsimp only at hfind
    rw [hfind]
    rfl

theorem decodeCode_ok_iff {ch : Char} {code : List Char} :
    decodeCode code = .ok ch ↔ (ch, code) ∈ morse := by
  unfold decodeCode
  constructor
  · intro h
    cases hfind : morse.find? fun e => e.2 = code with
    | none => rw [hfind] at h; cases h
    | some e =>
        rw [hfind] at h
        cases h
        have hcode : e.2 = code := by simpa using List.find?_some hfind
        exact hcode ▸ List.mem_of_find?_eq_some hfind
  · intro h
    have hfind := find_code _ h
    dsimp only at hfind
    rw [hfind]

theorem mem_codes {code : List Char} : code ∈ codes ↔ ∃ ch, decodeCode code = .ok ch := by
  simp only [decodeCode_ok_iff, codes, List.mem_map]
  constructor
  · rintro ⟨e, he, rfl⟩
    exact ⟨e.1, he⟩
  · rintro ⟨ch, h⟩
    exact ⟨_, h, rfl⟩

/-- Codes that are the same character's are the same. -/
theorem decodeCode_inj {ch : Char} {a b : List Char} (ha : decodeCode a = .ok ch)
    (hb : decodeCode b = .ok ch) : a = b := by
  have ha := find_char _ (decodeCode_ok_iff.mp ha)
  have hb := find_char _ (decodeCode_ok_iff.mp hb)
  exact congrArg Prod.snd (Option.some.inj (ha.symm.trans hb))

section Words

variable {L W : List Char} {cs tokens : List (List Char)} {word letters : List Char}

/-- Codes are decoded to the characters they are of, in upper case. -/
theorem decode_encoded (h : word.map encodeChar = cs.map .ok) :
    cs.map decodeCode = (upper word).map .ok := by
  induction word generalizing cs with
  | nil =>
      rw [List.map_eq_nil_iff.mp h.symm]
      rfl
  | cons ch word ih =>
      cases cs with
      | nil => cases h
      | cons code cs =>
          obtain ⟨hcode, hrest⟩ := List.cons.inj h
          rw [List.map_cons, ih hrest, decodeCode_ok_iff.mpr (encodeChar_ok_iff.mp hcode)]
          rfl

theorem mem_codes_of_encoded (h : word.map encodeChar = cs.map .ok) :
    ∀ code ∈ cs, code ∈ codes := by
  intro code hcode
  obtain ⟨ch, -, hch⟩ := List.mem_map.mp (h ▸ List.mem_map_of_mem hcode)
  exact mem_codes.mpr ⟨_, decodeCode_ok_iff.mpr (encodeChar_ok_iff.mp hch)⟩

theorem mem_codes_of_decoded (h : cs.map decodeCode = letters.map .ok) :
    ∀ code ∈ cs, code ∈ codes := by
  intro code hcode
  obtain ⟨ch, -, hch⟩ := List.mem_map.mp (h ▸ List.mem_map_of_mem hcode)
  exact mem_codes.mpr ⟨ch, hch.symm⟩

/-- The letters determine their codes. -/
theorem decoded_inj (h : cs.map decodeCode = letters.map .ok)
    (h' : tokens.map decodeCode = letters.map .ok) : cs = tokens := by
  induction cs generalizing tokens letters with
  | nil =>
      rw [List.map_nil] at h
      rw [← h] at h'
      exact (List.map_eq_nil_iff.mp h').symm
  | cons code cs ih =>
      cases letters with
      | nil => cases h
      | cons ch letters =>
          cases tokens with
          | nil => cases h'
          | cons token tokens =>
              obtain ⟨hcode, hcs⟩ := List.cons.inj h
              obtain ⟨htoken, htokens⟩ := List.cons.inj h'
              rw [decodeCode_inj hcode htoken, ih hcs htokens]

/-! ### The letters of a word -/

theorem splitWhitespace_skip {blanks : List Char} (h : ∀ c ∈ blanks, isWhitespace c = true)
    (s : List Char) : splitWhitespace (blanks ++ s) = splitWhitespace s := by
  induction blanks with
  | nil => rfl
  | cons b blanks ih =>
      exact (wordsFrom_blank (h b List.mem_cons_self) _).trans
        (ih fun c hc => h c (List.mem_cons_of_mem b hc))

theorem splitWhitespace_code {code : List Char} (h : code ∈ codes) :
    splitWhitespace code = [code] :=
  splitWhitespace_word (code_shape h).1 (code_no_blank h)

/-- Codes with white space between them are told apart. -/
theorem splitWhitespace_blank (hne : L ≠ []) (hL : ∀ c ∈ L, isWhitespace c = true)
    (hcs : ∀ code ∈ cs, code ∈ codes) : splitWhitespace (Split.join L cs) = cs := by
  obtain ⟨b, blanks, rfl⟩ := List.exists_cons_of_ne_nil hne
  induction cs with
  | nil => rfl
  | cons code cs ih =>
      have hcode := splitWhitespace_code (hcs code List.mem_cons_self)
      have ih := ih fun c hc => hcs c (List.mem_cons_of_mem code hc)
      cases cs with
      | nil => rw [Split.join_singleton, hcode]
      | cons next cs =>
          rw [Split.join_cons, List.cons_append, splitWhitespace_parts (hL b List.mem_cons_self),
            splitWhitespace_skip (fun c hc => hL c (List.mem_cons_of_mem b hc)), hcode, ih]
          rfl

/-- The words hold what is not white space. -/
theorem flatten_wordsFrom (s : List Char) : ∀ acc : List Char,
    (wordsFrom acc s).flatten = acc.reverse ++ s.filter fun c => !isWhitespace c := by
  induction s with
  | nil =>
      intro acc
      rw [wordsFrom]
      split_ifs with hacc
      · rw [hacc]
        rfl
      · simp
  | cons c s ih =>
      intro acc
      rw [wordsFrom]
      by_cases hc : isWhitespace c = true
      · rw [if_pos hc]
        split_ifs with hacc
        · simp [ih, hacc, hc]
        · simp [ih, hc]
      · rw [if_neg hc, ih]
        simp [hc]

/-- Where two codes are read as themselves, white space is between them. -/
theorem blank_of_read {a b : List Char} (ha : a ∈ codes) (hb : b ∈ codes)
    (h : splitWhitespace (a ++ L ++ b) = [a, b]) :
    L ≠ [] ∧ ∀ c ∈ L, isWhitespace c = true := by
  have hself : ∀ {code : List Char}, code ∈ codes →
      (code.filter fun c => !isWhitespace c) = code := fun hcode =>
    List.filter_eq_self.mpr fun c hc => by rw [code_no_blank hcode c hc]; rfl
  constructor
  · rintro rfl
    rw [List.append_nil, splitWhitespace_word (by simp [(code_shape ha).1]) fun c hc =>
      (List.mem_append.mp hc).elim (code_no_blank ha c) (code_no_blank hb c)] at h
    exact absurd (congrArg List.length h) (by simp)
  · have hflat := congrArg List.flatten h
    rw [splitWhitespace, flatten_wordsFrom, List.filter_append, List.filter_append, hself ha,
      hself hb] at hflat
    have hnil : (L.filter fun c => !isWhitespace c) = [] := by simpa using hflat
    intro c hc
    simpa using List.filter_eq_nil_iff.mp hnil c hc

theorem join_concat (sep b : List Char) (xs : List (List Char)) :
    ∀ x : List Char, Split.join sep (x :: (xs ++ [b])) =
      Split.join sep (x :: xs) ++ (sep ++ b) := by
  induction xs with
  | nil => exact fun x => by rw [List.nil_append, Split.join_cons, Split.join_singleton,
      Split.join_singleton]
  | cons y xs ih =>
      intro x
      rw [List.cons_append, Split.join_cons, ih, Split.join_cons]
      simp only [List.append_assoc]

/-- A short letter separator of dots and dashes makes a code of two dots. -/
theorem dots_code (hlen : L.length ≤ 2) (hL : ∀ c ∈ L, c = '.' ∨ c = '-') :
    ['.'] ++ L ++ ['.'] ∈ codes := by
  match L, hlen, hL with
  | [], _, _ => decide
  | [c], _, hL => rcases hL c (by simp) with rfl | rfl <;> decide
  | [c, d], _, hL =>
      rcases hL c (by simp) with rfl | rfl <;> rcases hL d (by simp) with rfl | rfl <;> decide

/-- What two codes are joined to decides what more are: where the separator has white space, the
first and the last code are in parts of their own; where it has none, a whole word is one part, and
there is no code as long as that. -/
theorem exists_not_code (hL : ∀ a ∈ codes, ∀ b ∈ codes,
      ∃ token ∈ splitWhitespace (a ++ L ++ b), token ∉ codes)
    (hcs : ∀ code ∈ cs, code ∈ codes) (hlen : 2 ≤ cs.length) :
    ∃ token ∈ splitWhitespace (Split.join L cs), token ∉ codes := by
  obtain ⟨a, rest, rfl⟩ := List.exists_cons_of_length_pos (by omega : 0 < cs.length)
  have hrest : rest ≠ [] := by
    rintro rfl
    simp at hlen
  obtain ⟨mid, b, rfl⟩ := (List.eq_nil_or_concat' rest).resolve_left hrest
  have ha := hcs a List.mem_cons_self
  have hb := hcs b (by simp)
  cases mid with
  | nil =>
      rw [List.nil_append, Split.join_cons, Split.join_singleton, ← List.append_assoc]
      exact hL a ha b hb
  | cons m mid =>
      have hjoin : Split.join L (a :: (m :: mid ++ [b])) =
          a ++ (L ++ (Split.join L (m :: mid) ++ (L ++ b))) := by
        rw [List.cons_append, Split.join_cons, join_concat]
      have hmid : ∀ c ∈ Split.join L (m :: mid), c ∈ L ∨ isWhitespace c = false := by
        intro c hc
        refine (Split.mem_join hc).imp_right fun ⟨code, hcode, hmem⟩ => ?_
        exact code_no_blank (hcs code (.tail a (List.mem_append_left _ hcode))) c hmem
      have hlong : 1 ≤ (Split.join L (m :: mid)).length := by
        have hm := List.length_pos_iff.mpr (code_shape (hcs m (by simp))).1
        cases mid with
        | nil => rwa [Split.join_singleton]
        | cons n mid =>
            rw [Split.join_cons, List.length_append]
            omega
      rw [hjoin]
      generalize Split.join L (m :: mid) = y at hmid hlong
      by_cases hblank : ∃ c ∈ L, isWhitespace c = true
      · obtain ⟨c, hc, hw⟩ := hblank
        obtain ⟨p, q, rfl⟩ := List.append_of_mem hc
        obtain ⟨token, htoken, hnot⟩ := hL a ha b hb
        have hpair : a ++ (p ++ c :: q) ++ b = (a ++ p) ++ c :: (q ++ b) := by simp
        have hword : a ++ (p ++ c :: q ++ (y ++ (p ++ c :: q ++ b))) =
            (a ++ p) ++ c :: ((q ++ (y ++ p)) ++ c :: (q ++ b)) := by simp
        rw [hpair, splitWhitespace_parts hw, List.mem_append] at htoken
        refine ⟨token, ?_, hnot⟩
        rw [hword, splitWhitespace_parts hw, splitWhitespace_parts hw, List.mem_append,
          List.mem_append]
        exact htoken.imp_right .inr
      · have hno : ∀ c ∈ L, isWhitespace c = false := fun c hc =>
          Bool.eq_false_iff.mpr fun hw => hblank ⟨c, hc, hw⟩
        have hall : ∀ c ∈ a ++ (L ++ (y ++ (L ++ b))), isWhitespace c = false := by
          intro c hc
          simp only [List.mem_append] at hc
          rcases hc with hc | hc | hc | hc | hc
          · exact code_no_blank ha c hc
          · exact hno c hc
          · exact (hmid c hc).elim (hno c) id
          · exact hno c hc
          · exact code_no_blank hb c hc
        have hne : a ++ (L ++ (y ++ (L ++ b))) ≠ [] := by simp [(code_shape ha).1]
        rw [splitWhitespace_word hne hall]
        refine ⟨_, List.mem_singleton_self _, fun hcode => ?_⟩
        obtain ⟨-, hseven, hchars⟩ := code_shape hcode
        have hshort : L.length ≤ 2 := by
          have hpos := List.length_pos_iff.mpr (code_shape ha).1
          have hpos' := List.length_pos_iff.mpr (code_shape hb).1
          simp only [List.length_append] at hseven
          omega
        have hdots := dots_code hshort fun c hc => hchars c (by simp [hc])
        obtain ⟨token, htoken, hnot⟩ := hL ['.'] (by decide) ['.'] (by decide)
        rw [splitWhitespace_code hdots, List.mem_singleton] at htoken
        exact hnot (htoken ▸ hdots)

/-- **A word is read as its codes**, or as no codes. -/
theorem read_word (hL : LettersApart L) (hne : cs ≠ []) (hcs : ∀ code ∈ cs, code ∈ codes)
    (h : ∀ token ∈ splitWhitespace (Split.join L cs), token ∈ codes) :
    splitWhitespace (Split.join L cs) = cs := by
  rcases hL with ⟨hne', hblank⟩ | hnot
  · exact splitWhitespace_blank hne' hblank hcs
  · by_cases hlen : 2 ≤ cs.length
    · obtain ⟨token, htoken, hno⟩ := exists_not_code hnot hcs hlen
      exact absurd (h token htoken) hno
    · match cs, hne, hlen with
      | [code], _, _ => rw [Split.join_singleton, splitWhitespace_code (hcs code (by simp))]
      | a :: b :: rest, _, hlen => exact absurd (by simp) hlen

/-! ### The words of a text -/

/-- The words are parts of the text at the word separator, with the spaces around that. -/
theorem exists_pieces (W : List Char) (js : List (List Char)) : ∀ j : List Char, ∃ p ps,
    Split.join (' ' :: W ++ [' ']) (j :: js) = Split.join W (p :: ps) ∧
      (p :: ps).map splitWhitespace = (j :: js).map splitWhitespace ∧
      ∀ piece ∈ p :: ps, ∀ c ∈ piece, c = ' ' ∨ ∃ word ∈ j :: js, c ∈ word := by
  induction js with
  | nil =>
      refine fun j => ⟨j, [], ?_, rfl, fun piece hpiece c hc => .inr ⟨j, by simp, ?_⟩⟩
      · rw [Split.join_singleton, Split.join_singleton]
      · rwa [List.mem_singleton.mp hpiece] at hc
  | cons next js ih =>
      intro j
      obtain ⟨p, ps, hjoin, hwords, hchars⟩ := ih next
      have hspace : Split.join W ((' ' :: p) :: ps) = ' ' :: Split.join W (p :: ps) := by
        cases ps with
        | nil => rw [Split.join_singleton, Split.join_singleton]
        | cons q ps => rw [Split.join_cons, Split.join_cons, List.cons_append]
      have hj : splitWhitespace (j ++ [' ']) = splitWhitespace j :=
        (splitWhitespace_parts rfl j []).trans (List.append_nil _)
      have hp : splitWhitespace (' ' :: p) = splitWhitespace p := wordsFrom_blank rfl p
      refine ⟨j ++ [' '], (' ' :: p) :: ps, ?_, ?_, ?_⟩
      · rw [Split.join_cons, hjoin, Split.join_cons, hspace]
        simp
      · simp only [List.map_cons] at hwords ⊢
        rw [hj, hp, hwords]
      · have htail : ∀ {piece : List Char} {c : Char}, piece ∈ p :: ps → c ∈ piece →
            c = ' ' ∨ ∃ word ∈ j :: next :: js, c ∈ word := fun hpiece hc =>
          (hchars _ hpiece _ hc).imp_right fun ⟨word, hword, hmem⟩ => ⟨word, .tail j hword, hmem⟩
        intro piece hpiece c hc
        rcases List.mem_cons.mp hpiece with rfl | hpiece
        · rcases List.mem_append.mp hc with hc | hc
          · exact .inr ⟨j, List.mem_cons_self, hc⟩
          · exact .inl (List.mem_singleton.mp hc)
        · rcases List.mem_cons.mp hpiece with rfl | hpiece
          · rcases List.mem_cons.mp hc with rfl | hc
            · exact .inl rfl
            · exact htail List.mem_cons_self hc
          · exact htail (.tail p hpiece) hc

/-- The parts of what is encoded read as the words do. -/
theorem split_encoded (hW : WordsApart L W) {css : List (List (List Char))}
    (hcss : ∀ cs ∈ css, ∀ code ∈ cs, code ∈ codes) (hne : css ≠ []) :
    (Split.split W (Split.join (' ' :: W ++ [' ']) (css.map (Split.join L)))).map
      splitWhitespace = (css.map (Split.join L)).map splitWhitespace := by
  obtain ⟨c, hc, hcL, hdot, hdash, hspace⟩ := hW
  obtain ⟨cs, css, rfl⟩ := List.exists_cons_of_ne_nil hne
  rw [List.map_cons]
  obtain ⟨p, ps, hjoin, hwords, hchars⟩ :=
    exists_pieces W (css.map (Split.join L)) (Split.join L cs)
  have hno : ∀ piece ∈ p :: ps, c ∉ piece := by
    intro piece hpiece hmem
    rcases hchars piece hpiece c hmem with h | ⟨word, hword, hmem⟩
    · exact hspace h
    · rw [← List.map_cons] at hword
      obtain ⟨own, hown, rfl⟩ := List.mem_map.mp hword
      rcases Split.mem_join hmem with h | ⟨code, hcode, h⟩
      · exact hcL h
      · exact ((code_shape (hcss own hown code hcode)).2.2 c h).elim hdot hdash
  rw [hjoin, Split.split_join hc hno (List.cons_ne_nil p ps), hwords]

theorem foldl_glue {ls : List (List Char)} : ∀ {out : List Char}, out ≠ [] →
    ls.foldl glue out = Split.join [' '] (out :: ls) := by
  induction ls with
  | nil => exact fun _ => (Split.join_singleton _ _).symm
  | cons l ls ih =>
      intro out hout
      have hglue : glue out l = out ++ ([' '] ++ l) := by
        rw [glue, if_neg hout, List.append_assoc]
      rw [List.foldl_cons, ih (by simp [hglue]), hglue, Split.join_cons]
      cases ls with
      | nil => rw [Split.join_singleton, Split.join_singleton]
      | cons l' ls =>
          rw [Split.join_cons, Split.join_cons]
          simp only [List.append_assoc]

/-- Words that are not empty are put together with spaces between them. -/
theorem foldl_glue_nil {ls : List (List Char)} (h : ∀ l ∈ ls, l ≠ []) :
    ls.foldl glue [] = Split.join [' '] ls := by
  cases ls with
  | nil => rfl
  | cons l ls => exact foldl_glue (h l List.mem_cons_self)

/-! ### The operations -/

variable {enc dec : Args} {text : List Char} {sent back : ChefData}

theorem morseEncode_ok_iff : morseEncode (.fromText text) enc = .ok sent ↔
    ∃ css : List (List (List Char)),
      (splitWhitespace text).map (fun word => word.mapM encodeChar) = css.map .ok ∧
      sent = .fromText (Split.join (' ' :: wordSeparator enc ++ [' '])
        (css.map (Split.join (letterSeparator enc)))) := by
  rw [morseEncode, text_fromText, Results.ok_bind, Results.mapM_map]
  constructor
  · intro h
    obtain ⟨js, hjs, h⟩ := Results.bind_eq_ok_iff.mp h
    obtain ⟨css, hcss, hmap⟩ := Results.bind_eq_ok_iff.mp hjs
    cases h
    cases hmap
    exact ⟨css, Results.mapM_eq_ok_iff.mp hcss, rfl⟩
  · rintro ⟨css, hcss, rfl⟩
    rw [Results.mapM_eq_ok_iff.mpr hcss]
    rfl

theorem morseDecode_ok_iff : morseDecode (.fromText text) dec = .ok back ↔
    ∃ ls : List (List Char), (Split.split (wordSeparator dec) text).map
        (fun word => (splitWhitespace word).mapM decodeCode) = ls.map .ok ∧
      back = .fromText (ls.foldl glue []) := by
  rw [morseDecode, text_fromText, Results.ok_bind, Results.foldlM_eq]
  constructor
  · intro h
    obtain ⟨out, hout, h⟩ := Results.bind_eq_ok_iff.mp h
    obtain ⟨ls, hls, hfold⟩ := Results.bind_eq_ok_iff.mp hout
    cases h
    cases hfold
    exact ⟨ls, Results.mapM_eq_ok_iff.mp hls, rfl⟩
  · rintro ⟨ls, hls, rfl⟩
    rw [Results.mapM_eq_ok_iff.mpr hls]
    rfl

/-- What the decoder makes of what the encoder wrote of some words. -/
theorem decode_sent {css : List (List (List Char))} (hsame : wordSeparator dec = wordSeparator enc)
    (hW : WordsApart (letterSeparator enc) (wordSeparator enc))
    (hcss : ∀ cs ∈ css, ∀ code ∈ cs, code ∈ codes) (hne : css ≠ []) :
    morseDecode (.fromText (Split.join (' ' :: wordSeparator enc ++ [' '])
        (css.map (Split.join (letterSeparator enc))))) dec = .ok back ↔
      ∃ ls : List (List Char), css.map (fun cs =>
          (splitWhitespace (Split.join (letterSeparator enc) cs)).mapM decodeCode) = ls.map .ok ∧
        back = .fromText (ls.foldl glue []) := by
  have hsplit := congrArg (List.map fun tokens => tokens.mapM decodeCode)
    (split_encoded hW hcss hne)
  simp only [List.map_map, Function.comp_def] at hsplit
  rw [morseDecode_ok_iff, hsame, hsplit]

/-- The codes of words are codes. -/
theorem mem_codes_of_words {words : List (List Char)} {css : List (List (List Char))}
    (h : words.map (fun word => word.mapM encodeChar) = css.map .ok) :
    ∀ cs ∈ css, ∀ code ∈ cs, code ∈ codes := by
  intro cs hcs
  obtain ⟨word, -, hword⟩ := List.mem_map.mp (h ▸ List.mem_map_of_mem hcs)
  exact mem_codes_of_encoded (Results.mapM_eq_ok_iff.mp hword)

/-- Words whose letters stand apart are read in upper case. -/
theorem read_words (hL : LettersApart L) {words ls : List (List Char)} :
    ∀ {css : List (List (List Char))}, (∀ word ∈ words, word ≠ []) →
      words.map (fun word => word.mapM encodeChar) = css.map .ok →
      css.map (fun cs => (splitWhitespace (Split.join L cs)).mapM decodeCode) = ls.map .ok →
      ls = words.map upper := by
  induction words generalizing ls with
  | nil =>
      intro css _ hcss hls
      rw [List.map_eq_nil_iff.mp hcss.symm] at hls
      exact List.map_eq_nil_iff.mp hls.symm
  | cons word words ih =>
      intro css hne hcss hls
      cases css with
      | nil => cases hcss
      | cons cs css =>
          cases ls with
          | nil => cases hls
          | cons l ls =>
              obtain ⟨hcs, hcss⟩ := List.cons.inj hcss
              obtain ⟨hl, hls⟩ := List.cons.inj hls
              have hword := Results.mapM_eq_ok_iff.mp hcs
              have hread := Results.mapM_eq_ok_iff.mp hl
              have hcsne : cs ≠ [] := by
                rintro rfl
                exact hne word List.mem_cons_self (List.map_eq_nil_iff.mp hword)
              rw [read_word hL hcsne (mem_codes_of_encoded hword) (mem_codes_of_decoded hread),
                decode_encoded hword] at hread
              have hupper := List.map_injective_iff.mpr (fun _ _ => Except.ok.inj) hread
              rw [List.map_cons, hupper, ih (fun w hw => hne w (.tail word hw)) hcss hls]

theorem upper_ne_nil {word : List Char} (h : word ≠ []) : upper word ≠ [] := fun hnil =>
  h (List.map_eq_nil_iff.mp hnil)

/-- The text that comes back of the words that are decoded. -/
theorem foldl_upper (text : List Char) :
    ((splitWhitespace text).map upper).foldl glue [] = plain text := by
  refine foldl_glue_nil fun l hl => ?_
  obtain ⟨word, hword, rfl⟩ := List.mem_map.mp hl
  exact upper_ne_nil (splitWhitespace_ne_nil hword)

theorem comesBack_of_apart (hsame : wordSeparator dec = wordSeparator enc)
    (hW : WordsApart (letterSeparator enc) (wordSeparator enc))
    (hL : LettersApart (letterSeparator enc)) : ComesBack enc dec := by
  intro text sent back hsent hback
  obtain ⟨css, hcss, rfl⟩ := morseEncode_ok_iff.mp hsent
  by_cases hnil : css = []
  · subst hnil
    have hwords : splitWhitespace text = [] := List.map_eq_nil_iff.mp hcss
    obtain ⟨c, hc, -⟩ := hW
    have hno : ∀ part ∈ [([] : List Char)], c ∉ part := by simp
    have hsplit : Split.split (wordSeparator enc) [] = [[]] := Split.split_join hc hno nofun
    obtain ⟨ls, hls, rfl⟩ := morseDecode_ok_iff.mp hback
    rw [hsame, List.map_nil, show Split.join (' ' :: wordSeparator enc ++ [' ']) [] = [] from rfl,
      hsplit] at hls
    have hls : ls = [[]] :=
      List.map_injective_iff.mpr (fun _ _ => Except.ok.inj) (hls.symm.trans rfl)
    rw [hls, plain, hwords]
    rfl
  · obtain ⟨ls, hls, rfl⟩ := (decode_sent hsame hW (mem_codes_of_words hcss) hnil).mp hback
    rw [read_words hL (fun word hword => splitWhitespace_ne_nil hword) hcss hls, foldl_upper]

/-! ### The separators that the operations have by default -/

theorem mem_of_word {c : Char} (hword : word ∈ splitWhitespace text) (hc : c ∈ word) :
    c ∈ text ∧ isWhitespace c = false := by
  have hflat : c ∈ (splitWhitespace text).flatten := List.mem_flatten.mpr ⟨word, hword, hc⟩
  rw [splitWhitespace, flatten_wordsFrom] at hflat
  simpa using hflat

theorem exists_codes_of_word (h : ∀ c ∈ word, (codeOf c).isSome = true) :
    ∃ cs : List (List Char), word.mapM encodeChar = .ok cs := by
  induction word with
  | nil => exact ⟨[], rfl⟩
  | cons c word ih =>
      obtain ⟨cs, hcs⟩ := ih fun d hd => h d (.tail c hd)
      obtain ⟨code, hcode⟩ := Option.isSome_iff_exists.mp (h c List.mem_cons_self)
      have hc : encodeChar c = .ok code := by rw [encodeChar, hcode]
      exact ⟨code :: cs, Results.mapM_eq_ok_iff.mpr (by
        rw [List.map_cons, hc, Results.mapM_eq_ok_iff.mp hcs]; rfl)⟩

theorem exists_codes {words : List (List Char)}
    (h : ∀ word ∈ words, ∀ c ∈ word, (codeOf c).isSome = true) :
    ∃ css : List (List (List Char)),
      words.map (fun word => word.mapM encodeChar) = css.map .ok := by
  induction words with
  | nil => exact ⟨[], rfl⟩
  | cons word words ih =>
      obtain ⟨css, hcss⟩ := ih fun w hw => h w (.tail word hw)
      obtain ⟨cs, hcs⟩ := exists_codes_of_word (h word List.mem_cons_self)
      exact ⟨cs :: css, by rw [List.map_cons, hcs, hcss]; rfl⟩

/-- With white space between letters nothing that was encoded is refused. -/
theorem read_blank (hne : L ≠ []) (hL : ∀ c ∈ L, isWhitespace c = true)
    {words : List (List Char)} : ∀ {css : List (List (List Char))},
      words.map (fun word => word.mapM encodeChar) = css.map .ok →
      css.map (fun cs => (splitWhitespace (Split.join L cs)).mapM decodeCode) =
        (words.map upper).map .ok := by
  induction words with
  | nil =>
      intro css hcss
      rw [List.map_eq_nil_iff.mp hcss.symm]
      rfl
  | cons word words ih =>
      intro css hcss
      cases css with
      | nil => cases hcss
      | cons cs css =>
          obtain ⟨hcs, hcss⟩ := List.cons.inj hcss
          have hword := Results.mapM_eq_ok_iff.mp hcs
          have hread := Results.mapM_eq_ok_iff.mpr (decode_encoded hword)
          rw [List.map_cons, splitWhitespace_blank hne hL (mem_codes_of_encoded hword), hread,
            ih hcss]
          rfl

/-- A text of the table's characters is encoded, and decoded again. -/
theorem decodes_of_blank (hsame : wordSeparator dec = wordSeparator enc)
    (hW : WordsApart (letterSeparator enc) (wordSeparator enc))
    (hne : letterSeparator enc ≠ []) (hL : ∀ c ∈ letterSeparator enc, isWhitespace c = true)
    (htext : OfTable text) : ∃ sent, morseEncode (.fromText text) enc = .ok sent ∧
      morseDecode sent dec = .ok (.fromText (plain text)) := by
  obtain ⟨css, hcss⟩ := exists_codes fun word hword c hc =>
    (htext c (mem_of_word hword hc).1).resolve_left
      (by rw [(mem_of_word hword hc).2]; exact Bool.false_ne_true)
  have hsent : morseEncode (.fromText text) enc = .ok _ :=
    morseEncode_ok_iff.mpr ⟨css, hcss, rfl⟩
  refine ⟨_, hsent, ?_⟩
  obtain ⟨back, hback⟩ : ∃ back, morseDecode (.fromText (Split.join
      (' ' :: wordSeparator enc ++ [' ']) (css.map (Split.join (letterSeparator enc))))) dec =
        .ok back := by
    by_cases hnil : css = []
    · obtain ⟨c, hc, -⟩ := hW
      have hno : ∀ part ∈ [([] : List Char)], c ∉ part := by simp
      refine ⟨_, morseDecode_ok_iff.mpr ⟨[[]], ?_, rfl⟩⟩
      rw [hsame, hnil, List.map_nil,
        show Split.join (' ' :: wordSeparator enc ++ [' ']) [] = [] from rfl,
        show Split.split (wordSeparator enc) [] = [[]] from Split.split_join hc hno nofun]
      rfl
    · exact ⟨_, (decode_sent hsame hW (mem_codes_of_words hcss) hnil).mpr
        ⟨_, read_blank hne hL hcss, rfl⟩⟩
  rw [hback, comesBack_of_apart hsame hW (.inl ⟨hne, hL⟩) text _ back hsent hback]

/-! ### Letters that do not stand apart -/

/-- Two characters of the table stand for themselves. -/
theorem char_shape : ∀ e ∈ morse, e.1.toUpper = e.1 ∧ isWhitespace e.1 = false := by decide

/-- Where two codes are joined to other codes, two letters come back as others. -/
theorem apart_of_comesBack (hsame : wordSeparator dec = wordSeparator enc)
    (hW : WordsApart (letterSeparator enc) (wordSeparator enc)) (h : ComesBack enc dec) :
    LettersApart (letterSeparator enc) := by
  by_contra hnot
  obtain ⟨hblank, hread⟩ := not_or.mp hnot
  push Not at hread
  obtain ⟨a, ha, b, hb, hread⟩ := hread
  obtain ⟨x, hx⟩ := mem_codes.mp ha
  obtain ⟨y, hy⟩ := mem_codes.mp hb
  obtain ⟨hxup, hxblank⟩ := char_shape _ (decodeCode_ok_iff.mp hx)
  obtain ⟨hyup, hyblank⟩ := char_shape _ (decodeCode_ok_iff.mp hy)
  dsimp only at hxup hxblank hyup hyblank
  have hxa : encodeChar x = .ok a :=
    encodeChar_ok_iff.mpr (hxup.symm ▸ decodeCode_ok_iff.mp hx)
  have hyb : encodeChar y = .ok b :=
    encodeChar_ok_iff.mpr (hyup.symm ▸ decodeCode_ok_iff.mp hy)
  have hword : splitWhitespace [x, y] = [[x, y]] := splitWhitespace_word nofun (by
    simp [hxblank, hyblank])
  have hcs : [x, y].mapM encodeChar = .ok [a, b] :=
    Results.mapM_eq_ok_iff.mpr (by simp [hxa, hyb])
  have hcss : (splitWhitespace [x, y]).map (fun word => word.mapM encodeChar) =
      [[a, b]].map .ok := by
    rw [hword, List.map_singleton, hcs]
    rfl
  have hjoin : Split.join (letterSeparator enc) [a, b] = a ++ letterSeparator enc ++ b := by
    rw [Split.join_cons, Split.join_singleton, List.append_assoc]
  rw [← hjoin] at hread
  -- all that is read are codes, so the decoder succeeds
  obtain ⟨ls, hls⟩ : ∃ ls : List Char,
      (splitWhitespace (Split.join (letterSeparator enc) [a, b])).map decodeCode = ls.map .ok := by
    generalize splitWhitespace (Split.join (letterSeparator enc) [a, b]) = tokens at hread
    induction tokens with
    | nil => exact ⟨[], rfl⟩
    | cons token tokens ih =>
        obtain ⟨ls, hls⟩ := ih fun t ht => hread t (.tail token ht)
        obtain ⟨ch, hch⟩ := mem_codes.mp (hread token List.mem_cons_self)
        exact ⟨ch :: ls, by rw [List.map_cons, hch, hls]; rfl⟩
  have hback := (decode_sent hsame hW (mem_codes_of_words hcss) (List.cons_ne_nil _ _)).mpr
    ⟨[ls], by rw [List.map_singleton, Results.mapM_eq_ok_iff.mpr hls]; rfl, rfl⟩
  have hsame := fromText_inj (h _ _ _ (morseEncode_ok_iff.mpr ⟨_, hcss, rfl⟩) hback)
  have hplain : plain [x, y] = [x, y] := by
    simp [plain, hword, upper, hxup, hyup]
  rw [hplain] at hsame
  have hletters : ls = [x, y] := hsame
  rw [hletters] at hls
  have hpair : [a, b].map decodeCode = [x, y].map .ok := by simp [hx, hy]
  have htokens := decoded_inj hpair hls
  rw [hjoin] at htokens
  exact hblank (blank_of_read ha hb htokens.symm)

end Words

end RevBox.Chef
