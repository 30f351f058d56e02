import RevBox.Chef.Data
import Mathlib.Data.Int.ModEq

/-!
# Chef — ClassicalCiphers

`caesar` and `vigenere` of `services/chef/ops/cipher.rs`.  A shift is narrowed to 32 bits and
added to a letter's position before the remainder is taken; the sum wraps, as it does in a release
build.

* `classical_ciphers_iff`: `vigenere` decrypts what it encrypted, and `caesar` rotates by the shift
  it was given exactly where what the 32 bits drop is a multiple of 26.
* `caesar_narrows`: a shift of 2³¹.
-/

namespace RevBox.Chef

/-! ### The code -/

/-- The first letter of the alphabet a character is a letter of. -/
def letterBase (c : Char) : Option Nat :=
  if c.isLower then some 0x61 else if c.isUpper then some 0x41 else none

/-- A 64-bit number `as i32`, and an `i32` sum. -/
def asI32 (n : Int) : Int := Int.bmod n 4294967296

/-- `shift_letter`. -/
def shiftLetter (c : Char) (shift : Int) : Char :=
  match letterBase c with
  | none => c
  | some base =>
      let v : Int := (c.toNat - base : Nat)
      Char.ofNat ((asI32 (v + shift) % 26).toNat + base)

/-- `caesar`. -/
def caesar (data : ChefData) (args : Args) : ChefResult ChefData := do
  let shift := asI32 (← args.number "shift" 3)
  let text ← data.text
  pure (.fromText (text.map fun c => shiftLetter c shift))

/-- The letters of a key, by their places in the alphabet; the bytes of other characters are no
letters. -/
def keyLetters (key : List Char) : List Nat :=
  (key.map Char.toLower).filterMap fun c =>
    if c.isAlpha then some (c.toNat - 0x61) else none

/-- The loop of `vigenere`, from an index on. -/
def vigenereFrom (key : List Nat) (decrypt : Bool) : Nat → List Char → List Char
  | _, [] => []
  | index, c :: text =>
      if c.isAlpha then
        let shift : Int := (key.getD (index % key.length) 0 : Nat)
        shiftLetter c (if decrypt then -shift else shift) ::
          vigenereFrom key decrypt (index + 1) text
      else c :: vigenereFrom key decrypt index text

/-- `vigenere`. -/
def vigenere (data : ChefData) (args : Args) (decrypt : Bool) : ChefResult ChefData := do
  let key := keyLetters (args.text "key" "").toList
  if key = [] then .error (fail "还差一步：维吉尼亚的密钥要含字母（当前为空或全是非字母）")
  else
    let text ← data.text
    pure (.fromText (vigenereFrom key decrypt 0 text))

/-! ### What is promised -/

/-- A character rotated by a shift: a letter within its alphabet, anything else not at all. -/
def rotated (shift : Int) (c : Char) : Char :=
  match letterBase c with
  | none => c
  | some base => Char.ofNat ((((c.toNat - base : Nat) + shift) % 26).toNat + base)

/-- **`vigenere` is undone.**  The encryption is of the same length; where the text has a letter
it has one of the same case, where it has none the same character; the letters are those of the
text's letters encrypted on their own; and decryption gives the text. -/
def VigenereInverts (text : List Char) (args : Args) : Prop :=
  ∃ out : List Char,
    vigenere (.fromText text) args false = .ok (.fromText out) ∧
    vigenere (.fromText out) args true = .ok (.fromText text) ∧
    List.Forall₂ (fun c d => letterBase d = letterBase c ∧ (letterBase c = none → d = c)) text out ∧
    vigenere (.fromText (text.filter Char.isAlpha)) args false =
      .ok (.fromText (out.filter Char.isAlpha))

/-- **`caesar` rotates** by the shift it is given. -/
def CaesarRotates (text : List Char) (args : Args) : Prop :=
  ∀ shift, args.number "shift" 3 = .ok shift →
    caesar (.fromText text) args = .ok (.fromText (text.map (rotated shift)))

/-- How often 4294967296 is dropped from the sum of a letter's position and the shift. -/
def dropped (position shift : Nat) : Int := Int.bdiv (position + shift) 4294967296

/-- The condition: for every letter of the text, a multiple of 13 times. -/
def DropsEvenly (text : List Char) (args : Args) : Prop :=
  ∀ shift, args.number "shift" 3 = .ok shift →
    ∀ c ∈ text, ∀ base, letterBase c = some base → 13 ∣ dropped (c.toNat - base) shift

/-! ### Letters -/

variable {c : Char} {base : Nat}

theorem letterBase_isAlpha : (letterBase c).isSome = c.isAlpha := by
  unfold letterBase Char.isAlpha
  cases c.isLower <;> cases c.isUpper <;> rfl

theorem letterBase_none : letterBase c = none ↔ c.isAlpha = false := by
  rw [← letterBase_isAlpha]
  cases letterBase c <;> simp

/-- A letter is in its place. -/
theorem letterBase_some (h : letterBase c = some base) :
    (base = 0x61 ∨ base = 0x41) ∧ base ≤ c.toNat ∧ c.toNat < base + 26 := by
  unfold letterBase at h
  split_ifs at h with hl hu
  · cases h
    replace hl : (97 ≤ c.val && c.val ≤ 122) = true := hl
    simp only [Bool.and_eq_true, decide_eq_true_eq, UInt32.le_iff_toNat_le] at hl
    exact ⟨.inl rfl, hl.1, Nat.lt_succ_of_le hl.2⟩
  · cases h
    replace hu : 65 ≤ c.val ∧ c.val ≤ 90 := of_decide_eq_true hu
    simp only [UInt32.le_iff_toNat_le] at hu
    exact ⟨.inr rfl, hu.1, Nat.lt_succ_of_le hu.2⟩

/-- So is the letter of a place. -/
theorem letterBase_ofNat (hb : base = 0x61 ∨ base = 0x41) :
    ∀ v < 26, letterBase (Char.ofNat (v + base)) = some base ∧
      (Char.ofNat (v + base)).toNat = v + base := by
  rcases hb with rfl | rfl <;> decide

theorem shiftLetter_letter (h : letterBase c = some base) (shift : Int) : shiftLetter c shift =
    Char.ofNat ((asI32 ((c.toNat - base : Nat) + shift) % 26).toNat + base) := by
  rw [shiftLetter, h]

theorem rotated_letter (h : letterBase c = some base) (shift : Int) : rotated shift c =
    Char.ofNat ((((c.toNat - base : Nat) + shift) % 26).toNat + base) := by
  rw [rotated, h]

theorem shiftLetter_other (h : letterBase c = none) (shift : Int) : shiftLetter c shift = c := by
  rw [shiftLetter, h]

theorem rotated_other (h : letterBase c = none) (shift : Int) : rotated shift c = c := by
  rw [rotated, h]

/-- Different places have different letters. -/
theorem place_inj (hb : base = 0x61 ∨ base = 0x41) {v w : Int} :
    Char.ofNat ((v % 26).toNat + base) = Char.ofNat ((w % 26).toNat + base) ↔ v % 26 = w % 26 := by
  refine ⟨fun h => ?_, fun h => by rw [h]⟩
  have hv := (letterBase_ofNat hb (v % 26).toNat (by omega)).2
  have hw := (letterBase_ofNat hb (w % 26).toNat (by omega)).2
  rw [h, hw] at hv
  omega

theorem asI32_parts (n : Int) : 4294967296 * Int.bdiv n 4294967296 + asI32 n = n := by
  exact Int.bdiv_add_bmod n 4294967296

/-- **What the 32 bits drop matters** unless it is a multiple of 26. -/
theorem asI32_place (v s : Int) :
    asI32 (v + asI32 s) % 26 = (v + s) % 26 ↔ 13 ∣ Int.bdiv (v + s) 4294967296 := by
  have hsum : asI32 (v + asI32 s) = asI32 (v + s) := by
    unfold asI32
    exact Int.add_bmod_bmod
  have hparts := asI32_parts (v + s)
  have hdiff : v + s - asI32 (v + s) = 4294967296 * Int.bdiv (v + s) 4294967296 := by omega
  have hdvd : (26 : Int) ∣ 4294967296 * Int.bdiv (v + s) 4294967296 ↔
      13 ∣ Int.bdiv (v + s) 4294967296 := by
    omega
  rw [hsum]
  exact Int.modEq_iff_dvd.trans (hdiff ▸ hdvd)

theorem asI32_small {n : Int} (hlo : -2147483648 ≤ n) (hhi : n < 2147483648) : asI32 n = n := by
  have hparts := asI32_parts n
  have hle : -2147483648 ≤ asI32 n := by
    exact Int.le_bmod (by decide)
  have hlt : asI32 n < 2147483648 := by
    exact Int.bmod_lt (by decide)
  generalize asI32 n = r at hparts hle hlt ⊢
  generalize Int.bdiv n 4294967296 = k at hparts
  omega

theorem shiftLetter_eq_rotated_iff (h : letterBase c = some base) (s : Nat) :
    shiftLetter c (asI32 s) = rotated s c ↔ 13 ∣ dropped (c.toNat - base) s := by
  rw [shiftLetter_letter h, rotated_letter h, place_inj (letterBase_some h).1]
  exact asI32_place _ _

/-! ### Caesar -/

variable {text : List Char} {args : Args}

theorem caesar_eq {s : Nat} (hs : args.number "shift" 3 = .ok s) (text : List Char) :
    caesar (.fromText text) args =
      .ok (.fromText (text.map fun c => shiftLetter c (asI32 s))) := by
  rw [caesar, hs, ok_bind, text_fromText, ok_bind]
  rfl

theorem caesarRotates_iff : CaesarRotates text args ↔ DropsEvenly text args := by
  refine forall_congr' fun s => imp_congr_right fun hs => ?_
  rw [caesar_eq hs]
  constructor
  · intro h c hc base hbase
    have hmap := List.map_inj_left.mp (fromText_inj (Except.ok.inj h)) c hc
    exact (shiftLetter_eq_rotated_iff hbase s).mp hmap
  · intro h
    refine congrArg (fun t => Except.ok (ChefData.fromText t))
      (List.map_inj_left.mpr fun c hc => ?_)
    cases hbase : letterBase c with
    | none => rw [shiftLetter_other hbase, rotated_other hbase]
    | some base => exact (shiftLetter_eq_rotated_iff hbase s).mpr (h c hc base hbase)

/-! ### Vigenère -/

variable {key : List Nat}

/-- A letter shifted within its alphabet is a letter of it. -/
theorem letterBase_shiftLetter (h : letterBase c = some base) (shift : Int) :
    letterBase (shiftLetter c shift) = some base := by
  rw [shiftLetter_letter h]
  exact (letterBase_ofNat (letterBase_some h).1 _ (by omega)).1

/-- A letter shifted forth and back is itself. -/
theorem shiftLetter_neg (h : letterBase c = some base) {k : Nat} (hk : k < 26) :
    shiftLetter (shiftLetter c k) (-(k : Int)) = c := by
  obtain ⟨hb, hlo, hhi⟩ := letterBase_some h
  have hplace := (letterBase_ofNat hb
    (asI32 ((c.toNat - base : Nat) + k) % 26).toNat (by omega)).2
  rw [shiftLetter_letter (letterBase_shiftLetter h k), shiftLetter_letter h, hplace,
    Nat.add_sub_cancel, asI32_small (by omega) (by omega), asI32_small (by omega) (by omega)]
  have hback : ((((((c.toNat - base : Nat) : Int) + k) % 26).toNat : Int) + -(k : Int)) % 26 =
      ((c.toNat - base : Nat) : Int) := by omega
  rw [hback, Int.toNat_natCast, Nat.sub_add_cancel hlo, Char.ofNat_toNat]

theorem isAlpha_letter (h : c.isAlpha = true) : ∃ base, letterBase c = some base :=
  Option.isSome_iff_exists.mp (letterBase_isAlpha.trans h)

theorem isAlpha_shiftLetter (h : c.isAlpha = true) (shift : Int) :
    (shiftLetter c shift).isAlpha = true := by
  obtain ⟨base, hbase⟩ := isAlpha_letter h
  rw [← letterBase_isAlpha, letterBase_shiftLetter hbase]
  rfl

theorem getD_lt (hkey : ∀ k ∈ key, k < 26) (i : Nat) : key.getD i 0 < 26 := by
  rw [List.getD_eq_getElem?_getD]
  cases h : key[i]? with
  | none => exact Nat.zero_lt_succ _
  | some k => exact hkey k (List.mem_of_getElem? h)

/-- Both directions stay in step: the index is the number of letters before. -/
theorem vigenereFrom_inverts (hkey : ∀ k ∈ key, k < 26) : ∀ (text : List Char) (index : Nat),
    vigenereFrom key true index (vigenereFrom key false index text) = text
  | [], _ => rfl
  | c :: text, index => by
      rw [vigenereFrom]
      by_cases hc : c.isAlpha = true
      · obtain ⟨base, hbase⟩ := isAlpha_letter hc
        rw [if_pos hc, vigenereFrom, if_pos (isAlpha_shiftLetter hc _),
          vigenereFrom_inverts hkey text]
        exact congrArg (· :: text) (shiftLetter_neg hbase (getD_lt hkey _))
      · rw [if_neg hc, vigenereFrom, if_neg hc, vigenereFrom_inverts hkey text]

theorem vigenereFrom_keeps : ∀ (text : List Char) (index : Nat),
    List.Forall₂ (fun c d => letterBase d = letterBase c ∧ (letterBase c = none → d = c)) text
      (vigenereFrom key false index text)
  | [], _ => .nil
  | c :: text, index => by
      rw [vigenereFrom]
      split
      · next hc =>
          obtain ⟨base, hbase⟩ := isAlpha_letter hc
          refine .cons ⟨?_, fun hnone => ?_⟩ (vigenereFrom_keeps text _)
          · rw [letterBase_shiftLetter hbase, hbase]
          · rw [hnone] at hbase
            cases hbase
      · exact .cons ⟨rfl, fun _ => rfl⟩ (vigenereFrom_keeps text _)

theorem vigenereFrom_filter : ∀ (text : List Char) (index : Nat),
    vigenereFrom key false index (text.filter Char.isAlpha) =
      (vigenereFrom key false index text).filter Char.isAlpha
  | [], _ => rfl
  | c :: text, index => by
      by_cases hc : c.isAlpha = true
      · rw [List.filter_cons_of_pos hc, vigenereFrom, if_pos hc, vigenereFrom, if_pos hc,
          List.filter_cons_of_pos (isAlpha_shiftLetter hc _), vigenereFrom_filter text]
      · rw [List.filter_cons_of_neg hc, vigenereFrom_filter text, vigenereFrom, if_neg hc,
          List.filter_cons_of_neg hc]

theorem keyLetters_lt (s : List Char) : ∀ k ∈ keyLetters s, k < 26 := by
  intro k hk
  obtain ⟨c, -, hc⟩ := List.mem_filterMap.mp hk
  split at hc
  · next halpha =>
      cases hc
      obtain ⟨base, hbase⟩ := isAlpha_letter halpha
      obtain ⟨hb, hlo, hhi⟩ := letterBase_some hbase
      omega
  · cases hc

theorem vigenere_eq (hkey : keyLetters (args.text "key" "").toList ≠ []) (text : List Char)
    (decrypt : Bool) : vigenere (.fromText text) args decrypt = .ok (.fromText
      (vigenereFrom (keyLetters (args.text "key" "").toList) decrypt 0 text)) := by
  rw [vigenere, if_neg hkey, text_fromText, ok_bind]
  rfl

theorem vigenere_inverts (hkey : keyLetters (args.text "key" "").toList ≠ []) (text : List Char) :
    VigenereInverts text args := by
  refine ⟨_, vigenere_eq hkey text false, ?_, vigenereFrom_keeps text 0, ?_⟩
  · rw [vigenere_eq hkey, vigenereFrom_inverts (keyLetters_lt _)]
  · rw [vigenere_eq hkey, vigenereFrom_filter]

/-- **The classical ciphers.**  With a key that has a letter, `vigenere` is undone, of every text;
`caesar` rotates a text by the shift exactly where the bits it drops do not matter. -/
theorem classical_ciphers_iff {vigenereArgs caesarArgs : Args}
    (hkey : keyLetters (vigenereArgs.text "key" "").toList ≠ []) (text : List Char) :
    VigenereInverts text vigenereArgs ∧ CaesarRotates text caesarArgs ↔
      DropsEvenly text caesarArgs :=
  (and_iff_right (vigenere_inverts hkey text)).trans caesarRotates_iff

/-- A key with a letter, and the default shift. -/
def lemonArgs : Args := ⟨[("key", "Le mon!")]⟩

theorem lemon_ciphers : DropsEvenly "abcXYZ".toList lemonArgs ∧
    VigenereInverts "abcXYZ".toList lemonArgs ∧ CaesarRotates "abcXYZ".toList lemonArgs := by
  have heven : DropsEvenly "abcXYZ".toList lemonArgs := by
    intro shift hshift c hc base hbase
    obtain ⟨hb, hlo, hhi⟩ := letterBase_some hbase
    cases hshift
    have hzero : dropped (c.toNat - base) 3 = 0 := by
      have hparts := asI32_parts ((c.toNat - base : Nat) + (3 : Nat))
      rw [asI32_small (by omega) (by omega)] at hparts
      unfold dropped
      omega
    rw [hzero]
    exact dvd_zero 13
  exact ⟨heven, (classical_ciphers_iff (by decide) _).mpr heven⟩

/-- The shift 2147483648. -/
def wideArgs : Args := ⟨[("shift", "2147483648")]⟩

/-- **A shift of 2³¹ becomes its negative.**  The mathematical rotation of `A` gives `Y`. -/
theorem caesar_narrows : wideArgs.number "shift" 3 = .ok 2147483648 ∧
    caesar (.fromText ['A']) wideArgs = .ok (.fromText ['C']) ∧
    rotated 2147483648 'A' = 'Y' ∧ ¬ CaesarRotates ['A'] wideArgs := by
  refine ⟨by decide +kernel, by decide +kernel, by decide +kernel, fun h => ?_⟩
  exact absurd (h 2147483648 (by decide +kernel)) (by decide +kernel)

end RevBox.Chef
