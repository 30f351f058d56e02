import RevBox.Chef.Radix

/-!
# Chef — Base85

Ascii85 and its relatives (`a85_encode`, `a85_decode` of `data.rs`): four bytes as five digits to
the base 85, the last bytes as one digit more than there are bytes.

* `a85_round_trip`: bytes come back from their text, and no number in between overflows.

The last group is filled up with the greatest digit on its way back, which changes nothing in the
bytes that are there (`chunk_one`, `chunk_two`, `chunk_three`).
-/

namespace RevBox.Chef

/-! ### The code -/

/-- The symbols of Ascii85, from 33 on; only the first 85 of them are digits. -/
def adobeAlphabet : List UInt8 :=
  ("!\"#$%&'()*+,-./0123456789:;<=>?@ABCDEFGHIJKLMNOPQRSTUVWXYZ[\\]^_`".toList ++
    "abcdefghijklmnopqrstuvwxyz\x7b|\x7d".toList).map fun c => c.val.toUInt8

/-- The symbols of RFC 1924. -/
def rfc1924Alphabet : List UInt8 :=
  ("0123456789ABCDEFGHIJKLMNOPQRSTUVWXYZabcdefghijklmnopqrstuvwxyz".toList ++
    "!#$%&()*+-;<=>?@^_`\x7b|\x7d~".toList).map fun c => c.val.toUInt8

/-- `base85_alphabet`: the symbols, and whether `z` stands for four zeros. -/
def base85Alphabet (style : String) : ChefResult (List UInt8 × Bool) :=
  match style with
  | "adobe" => .ok (adobeAlphabet, true)
  | "base85" | "z85" => .ok (rfc1924Alphabet, false)
  | other => .error (fail s!"未知的 Base85 风格「{other}」")

/-- The digits of a value to the base 85, the last one first. -/
def digits85 : Nat → Nat → List Nat
  | 0, _ => []
  | n + 1, rest => rest % 85 :: digits85 n (rest / 85)

/-- The symbols of at most four bytes. -/
def encodeChunk (alphabet : List UInt8) (shortcut : Bool) (chunk : List UInt8) : List Char :=
  if chunk.length = 4 ∧ chunk.all (fun b => b = 0) ∧ shortcut then ['z']
  else
    let pad := 4 - chunk.length
    let value := chunk.foldl (fun value b => value * 256 + b.toNat) 0 * 256 ^ pad
    (((digits85 5 value).reverse).take (5 - pad)).map (symbol alphabet)

/-- The symbols of all bytes, four at a time. -/
def encodeChunks (alphabet : List UInt8) (shortcut : Bool) : List UInt8 → List Char
  | b₀ :: b₁ :: b₂ :: b₃ :: bytes =>
      encodeChunk alphabet shortcut [b₀, b₁, b₂, b₃] ++ encodeChunks alphabet shortcut bytes
  | [] => []
  | tail => encodeChunk alphabet shortcut tail

/-- `a85_encode`. -/
def a85Encode (bytes : List UInt8) (style : String) (delimiters : Bool) : ChefResult (List Char) :=
  match base85Alphabet style with
  | .error e => .error e
  | .ok (alphabet, shortcut) =>
      let out := encodeChunks alphabet shortcut bytes
      .ok (if delimiters ∧ style = "adobe" then "<~".toList ++ (out ++ "~>".toList) else out)

/-- `trim_start_matches("<~")`. -/
def trimOpen : List Char → List Char
  | '<' :: '~' :: s => trimOpen s
  | s => s

/-- What `trim_end_matches("~>")` takes off, seen from the end. -/
def trimClosed : List Char → List Char
  | '>' :: '~' :: s => trimClosed s
  | s => s

/-- The loop over the five digits of a group; `none` where a `u32` overflows. -/
def groupValue (alphabet : List UInt8) : Nat → List (Option Char) → Option (ChefResult Nat)
  | value, [] => some (.ok value)
  | value, slot :: slots =>
      let digit : ChefResult Nat := match slot with
        | some c =>
            match position alphabet c with
            | some digit => .ok digit
            | none => .error (fail s!"Base85 里出现了非法字符「{c}」")
        | none => .ok 84
      match digit with
      | .error e => some (.error e)
      | .ok digit =>
          if value * 85 + digit < 2 ^ 32 then groupValue alphabet (value * 85 + digit) slots
          else none

/-- A group of at most five symbols: its bytes. -/
def decodeGroup (alphabet : List UInt8) (group : List Char) : Option (ChefResult (List UInt8)) :=
  if group.length < 2 then some (.error (fail "Base85 末尾剩一个字符，无法还原成字节"))
  else
    let slots := group.map some ++ List.replicate (5 - group.length) none
    (groupValue alphabet 0 slots).map fun r => r.map fun value =>
      (List.range (group.length - 1)).map fun k => .ofNat (value >>> (24 - 8 * k))

/-- The loop of `a85_decode`. -/
def decodeGroups (alphabet : List UInt8) (shortcut : Bool) :
    List Char → Option (ChefResult (List UInt8))
  | [] => some (.ok [])
  | c :: chars =>
      if shortcut ∧ c = 'z' then
        (decodeGroups alphabet shortcut chars).map fun r => r.map ([0, 0, 0, 0] ++ ·)
      else
        match decodeGroup alphabet ((c :: chars).take 5) with
        | none => none
        | some (.error e) => some (.error e)
        | some (.ok bytes) =>
            (decodeGroups alphabet shortcut (chars.drop 4)).map fun r => r.map (bytes ++ ·)
termination_by chars => chars.length
decreasing_by
  all_goals simp only [List.length_cons, List.length_drop]; omega

/-- `a85_decode`; `none` where a `u32` overflows. -/
def a85Decode (input : List Char) (style : String) : Option (ChefResult (List UInt8)) :=
  match base85Alphabet style with
  | .error e => some (.error e)
  | .ok (alphabet, shortcut) =>
      let body := input.filter fun c => !Text.isWhitespace c
      if style = "adobe" then
        decodeGroups alphabet shortcut (trimClosed (trimOpen body).reverse).reverse
      else if style = "z85" ∧ (Utf8.encode body).length % 5 ≠ 0 then
        some (.error (fail "Z85 的长度必须是 5 的倍数（它按 5 字符一组对齐）"))
      else decodeGroups alphabet shortcut body

/-! ### Alphabets -/

variable {alphabet : List UInt8} {shortcut : Bool} {ds : List Nat} {v d : Nat}

/-- **Usable alphabets**: each digit has a symbol of its own, which no reader skips, and which is
not one of those with a meaning. -/
structure Usable (alphabet : List UInt8) (shortcut : Bool) : Prop where
  position : ∀ d < 85, position alphabet (symbol alphabet d) = some d
  visible : ∀ d < 85, Text.isWhitespace (symbol alphabet d) = false
  ascii : ∀ d < 85, Utf8.isAscii (symbol alphabet d) = true
  plain : shortcut = true → ∀ d < 85, symbol alphabet d ≠ 'z' ∧ symbol alphabet d ≠ '~'

/-- What `Usable` says of a digit, checked. -/
def usableAt (alphabet : List UInt8) (shortcut : Bool) (d : Nat) : Bool :=
  position alphabet (symbol alphabet d) = some d && !Text.isWhitespace (symbol alphabet d) &&
    Utf8.isAscii (symbol alphabet d) &&
    (!shortcut || (symbol alphabet d ≠ 'z' && symbol alphabet d ≠ '~'))

theorem usable_of_check (h : (List.range 85).all (usableAt alphabet shortcut) = true) :
    Usable alphabet shortcut := by
  have hall : ∀ d < 85, usableAt alphabet shortcut d = true := fun d hd =>
    List.all_eq_true.mp h d (List.mem_range.mpr hd)
  simp only [usableAt, Bool.and_eq_true, decide_eq_true_eq, Bool.not_eq_true',
    Bool.or_eq_true] at hall
  exact {
    position := fun d hd => (hall d hd).1.1.1
    visible := fun d hd => (hall d hd).1.1.2
    ascii := fun d hd => (hall d hd).1.2
    plain := fun hs d hd => (hall d hd).2.resolve_left (by simp [hs]) }

theorem usable_adobe : Usable adobeAlphabet true := usable_of_check rfl

theorem usable_rfc1924 : Usable rfc1924Alphabet false := usable_of_check rfl

/-! ### One group -/

/-- Digits read into a number that is there. -/
def horner : Nat → List Nat → Nat
  | value, [] => value
  | value, d :: ds => horner (value * 85 + d) ds

theorem le_horner (value : Nat) (ds : List Nat) : value ≤ horner value ds := by
  induction ds generalizing value with
  | nil => exact Nat.le_refl value
  | cons d ds ih => exact Nat.le_trans (by omega) (ih (value * 85 + d))

/-- Places that are missing are read as the greatest digit. -/
theorem groupValue_none : ∀ {k value : Nat}, horner value (List.replicate k 84) < 2 ^ 32 →
    groupValue alphabet value (List.replicate k none) =
      some (.ok (horner value (List.replicate k 84)))
  | 0, value, _ => rfl
  | k + 1, value, h => by
      have hle : value * 85 + 84 ≤ horner value (List.replicate (k + 1) 84) :=
        le_horner (value * 85 + 84) (List.replicate k 84)
      rw [List.replicate_succ, groupValue]
      simp only [if_pos (Nat.lt_of_le_of_lt hle h)]
      exact groupValue_none h

/-- **The number of a group**, where it does not overflow. -/
theorem groupValue_symbols (hu : Usable alphabet shortcut) {k : Nat} : ∀ {ds : List Nat}
    {value : Nat}, (∀ d ∈ ds, d < 85) → horner value (ds ++ List.replicate k 84) < 2 ^ 32 →
      groupValue alphabet value ((ds.map (symbol alphabet)).map some ++ List.replicate k none) =
        some (.ok (horner value (ds ++ List.replicate k 84)))
  | [], value, _, h => groupValue_none h
  | d :: ds, value, hlt, h => by
      have hle := le_horner (value * 85 + d) (ds ++ List.replicate k 84)
      rw [List.cons_append, horner] at h ⊢
      rw [List.map_cons, List.map_cons, List.cons_append, groupValue]
      simp only [hu.position d (hlt d List.mem_cons_self), if_pos (Nat.lt_of_le_of_lt hle h)]
      exact groupValue_symbols hu (fun d hd => hlt d (List.mem_cons_of_mem _ hd)) h

/-- The bytes of a group of `n + 1` symbols. -/
theorem decodeGroup_symbols (hu : Usable alphabet shortcut) {n : Nat} (hn : 1 ≤ n)
    (hlen : ds.length = n + 1) (hlt : ∀ d ∈ ds, d < 85)
    (hv : horner 0 (ds ++ List.replicate (4 - n) 84) = v) (h32 : v < 2 ^ 32) :
    decodeGroup alphabet (ds.map (symbol alphabet)) =
      some (.ok ((List.range n).map fun k => .ofNat (v >>> (24 - 8 * k)))) := by
  have hmany : ¬ (ds.map (symbol alphabet)).length < 2 := by
    rw [List.length_map, hlen]
    omega
  have hmissing : 5 - (n + 1) = 4 - n := Nat.add_sub_add_right 4 1 n
  rw [decodeGroup, if_neg hmany, List.length_map, hlen, hmissing, Nat.add_sub_cancel]
  dsimp only
  rw [groupValue_symbols hu hlt (hv ▸ h32), hv]
  rfl

/-- The digits of a value are below the base. -/
theorem digits85_lt : ∀ (n rest : Nat), ∀ d ∈ digits85 n rest, d < 85
  | n + 1, rest, d, hd => by
      rcases List.mem_cons.mp hd with rfl | hd
      · exact Nat.mod_lt _ (by decide)
      · exact digits85_lt n (rest / 85) d hd

/-- The first two digits are those of the number without its last three. -/
theorem horner_two (h : v < 2 ^ 32) :
    v / 85 / 85 / 85 / 85 % 85 * 85 + v / 85 / 85 / 85 % 85 = v / 85 / 85 / 85 := by
  have hfirst : v / 85 / 85 / 85 / 85 % 85 = v / 85 / 85 / 85 / 85 := by omega
  rw [hfirst]
  omega

theorem ofNat_eq {n : Nat} {b : UInt8} (h : n % 256 = b.toNat) : UInt8.ofNat n = b := by
  refine UInt8.toNat_inj.mp ?_
  rw [UInt8.toNat_ofNat']
  exact h

/-- The digits of a group are below the base. -/
theorem group_lt (n value : Nat) : ∀ d ∈ (digits85 5 value).reverse.take n, d < 85 := fun d hd =>
  digits85_lt 5 value d (List.mem_reverse.mp (List.mem_of_mem_take hd))

/-- The value of a chunk, as `a85_encode` has it. -/
def chunkValue (chunk : List UInt8) : Nat :=
  chunk.foldl (fun value b => value * 256 + b.toNat) 0 * 256 ^ (4 - chunk.length)

/-- The value that `n` bytes are read back as. -/
def reread (n value : Nat) : Nat :=
  horner 0 ((digits85 5 value).reverse.take (n + 1) ++ List.replicate (4 - n) 84)

/-- A chunk that is not cut short goes through its digits. -/
theorem decodeGroup_chunk (hu : Usable alphabet shortcut) {chunk : List UInt8} {n : Nat}
    (hn : chunk.length = n) (hpos : 1 ≤ n) (hle : n ≤ 4)
    (hz : ¬ (chunk.length = 4 ∧ chunk.all (fun b => b = 0) ∧ shortcut))
    (h32 : reread n (chunkValue chunk) < 2 ^ 32) :
    decodeGroup alphabet (encodeChunk alphabet shortcut chunk) = some (.ok ((List.range n).map
      fun k => .ofNat (reread n (chunkValue chunk) / 2 ^ (24 - 8 * k)))) := by
  have htake : 5 - (4 - chunk.length) = n + 1 := by omega
  have hlen : ((digits85 5 (chunkValue chunk)).reverse.take (n + 1)).length = n + 1 := by
    rw [List.length_take, List.length_reverse]
    exact Nat.min_eq_left (Nat.succ_le_succ hle)
  rw [encodeChunk, if_neg hz]
  dsimp only
  rw [htake]
  exact (decodeGroup_symbols hu hpos hlen (group_lt (n + 1) _) rfl h32).trans
    (by simp only [Nat.shiftRight_eq_div_pow]; rfl)

theorem reread_one (h : v < 2 ^ 32) :
    reread 1 v = ((v / 85 / 85 / 85 * 85 + 84) * 85 + 84) * 85 + 84 := by
  rw [← horner_two h]
  simp [reread, digits85, horner]

theorem reread_two (h : v < 2 ^ 32) : reread 2 v = (v / 85 / 85 * 85 + 84) * 85 + 84 := by
  have hthree : v / 85 / 85 / 85 * 85 + v / 85 / 85 % 85 = v / 85 / 85 := by omega
  rw [← hthree, ← horner_two h]
  simp [reread, digits85, horner]

theorem reread_three (h : v < 2 ^ 32) : reread 3 v = v / 85 * 85 + 84 := by
  have hthree : v / 85 / 85 / 85 * 85 + v / 85 / 85 % 85 = v / 85 / 85 := by omega
  have hfour : v / 85 / 85 * 85 + v / 85 % 85 = v / 85 := by omega
  rw [← hfour, ← hthree, ← horner_two h]
  simp [reread, digits85, horner]

theorem reread_four (h : v < 2 ^ 32) : reread 4 v = v := by
  have hthree : v / 85 / 85 / 85 * 85 + v / 85 / 85 % 85 = v / 85 / 85 := by omega
  have hfour : v / 85 / 85 * 85 + v / 85 % 85 = v / 85 := by omega
  have hfive : v / 85 * 85 + v % 85 = v := by omega
  have hall : reread 4 v = (((v / 85 / 85 / 85 / 85 % 85 * 85 + v / 85 / 85 / 85 % 85) * 85 +
      v / 85 / 85 % 85) * 85 + v / 85 % 85) * 85 + v % 85 := by
    simp [reread, digits85, horner]
  rw [hall, horner_two h, hthree, hfour, hfive]

/-! ### One chunk and back -/

variable {a b c e : UInt8}

theorem chunk_one (hu : Usable alphabet shortcut) (a : UInt8) :
    decodeGroup alphabet (encodeChunk alphabet shortcut [a]) = some (.ok [a]) := by
  have ha := a.toNat_lt
  have hv : chunkValue [a] = a.toNat * 16777216 := by simp [chunkValue]
  have hw := reread_one (v := chunkValue [a]) (by omega)
  have hz : ¬ ([a].length = 4 ∧ [a].all (fun b => b = 0) ∧ shortcut) := fun h => absurd h.1 nofun
  have hq : reread 1 (chunkValue [a]) / 16777216 = a.toNat := by omega
  rw [decodeGroup_chunk hu (n := 1) rfl (by decide) (by decide) hz (by omega)]
  clear hw hv
  simp only [List.range_succ, List.range_zero, List.map_cons, List.map_nil, List.nil_append,
    Nat.mul_zero, Nat.reduceSub, Nat.reducePow]
  rw [ofNat_eq (b := a) (by omega)]

theorem chunk_two (hu : Usable alphabet shortcut) (a b : UInt8) :
    decodeGroup alphabet (encodeChunk alphabet shortcut [a, b]) = some (.ok [a, b]) := by
  have ha := a.toNat_lt
  have hb := b.toNat_lt
  have hv : chunkValue [a, b] = (a.toNat * 256 + b.toNat) * 65536 := by simp [chunkValue]
  have hw := reread_two (v := chunkValue [a, b]) (by omega)
  have hz : ¬ ([a, b].length = 4 ∧ [a, b].all (fun b => b = 0) ∧ shortcut) :=
    fun h => absurd h.1 nofun
  have hq : reread 2 (chunkValue [a, b]) / 65536 = a.toNat * 256 + b.toNat := by omega
  rw [decodeGroup_chunk hu (n := 2) rfl (by decide) (by decide) hz (by omega)]
  clear hw hv
  simp only [List.range_succ, List.range_zero, List.map_cons, List.map_nil, List.nil_append,
    List.cons_append, Nat.mul_zero, Nat.reduceMul, Nat.reduceSub, Nat.reducePow]
  rw [ofNat_eq (b := a) (by omega), ofNat_eq (b := b) (by omega)]

theorem chunk_three (hu : Usable alphabet shortcut) (a b c : UInt8) :
    decodeGroup alphabet (encodeChunk alphabet shortcut [a, b, c]) = some (.ok [a, b, c]) := by
  have ha := a.toNat_lt
  have hb := b.toNat_lt
  have hc := c.toNat_lt
  have hv : chunkValue [a, b, c] = ((a.toNat * 256 + b.toNat) * 256 + c.toNat) * 256 := by
    simp [chunkValue]
  have hw := reread_three (v := chunkValue [a, b, c]) (by omega)
  have hz : ¬ ([a, b, c].length = 4 ∧ [a, b, c].all (fun b => b = 0) ∧ shortcut) :=
    fun h => absurd h.1 nofun
  have hq : reread 3 (chunkValue [a, b, c]) / 256 =
      (a.toNat * 256 + b.toNat) * 256 + c.toNat := by omega
  rw [decodeGroup_chunk hu (n := 3) rfl (by decide) (by decide) hz (by omega)]
  clear hw hv
  simp only [List.range_succ, List.range_zero, List.map_cons, List.map_nil, List.nil_append,
    List.cons_append, Nat.mul_zero, Nat.reduceMul, Nat.reduceSub, Nat.reducePow]
  rw [ofNat_eq (b := a) (by omega), ofNat_eq (b := b) (by omega), ofNat_eq (b := c) (by omega)]

theorem chunk_four (hu : Usable alphabet shortcut) (a b c e : UInt8)
    (hz : ¬ ([a, b, c, e].length = 4 ∧ [a, b, c, e].all (fun b => b = 0) ∧ shortcut)) :
    decodeGroup alphabet (encodeChunk alphabet shortcut [a, b, c, e]) =
      some (.ok [a, b, c, e]) := by
  have ha := a.toNat_lt
  have hb := b.toNat_lt
  have hc := c.toNat_lt
  have he := e.toNat_lt
  have hv : chunkValue [a, b, c, e] =
      ((a.toNat * 256 + b.toNat) * 256 + c.toNat) * 256 + e.toNat := by simp [chunkValue]
  have hw := reread_four (v := chunkValue [a, b, c, e]) (by omega)
  rw [decodeGroup_chunk hu (n := 4) rfl (by decide) (by decide) hz (by omega), hw]
  simp only [List.range_succ, List.range_zero, List.map_cons, List.map_nil, List.nil_append,
    List.cons_append, Nat.mul_zero, Nat.reduceMul, Nat.reduceSub, Nat.reducePow]
  rw [ofNat_eq (b := a) (by omega), ofNat_eq (b := b) (by omega), ofNat_eq (b := c) (by omega),
    ofNat_eq (b := e) (by omega)]

/-! ### All chunks and back -/

/-- A character of a text: a symbol, or the short form. -/
def OfText (alphabet : List UInt8) (shortcut : Bool) (ch : Char) : Prop :=
  (∃ d < 85, ch = symbol alphabet d) ∨ shortcut = true ∧ ch = 'z'

theorem encodeChunk_ofText (chunk : List UInt8) :
    ∀ ch ∈ encodeChunk alphabet shortcut chunk, OfText alphabet shortcut ch := by
  intro ch hch
  rw [encodeChunk] at hch
  split at hch
  · rename_i hz
    exact .inr ⟨hz.2.2, List.mem_singleton.mp hch⟩
  · obtain ⟨d, hd, rfl⟩ := List.mem_map.mp hch
    exact .inl ⟨d, group_lt _ _ d hd, rfl⟩

theorem encodeChunks_ofText : ∀ bytes : List UInt8,
    ∀ ch ∈ encodeChunks alphabet shortcut bytes, OfText alphabet shortcut ch
  | b₀ :: b₁ :: b₂ :: b₃ :: bytes, ch, hch => by
      rcases List.mem_append.mp hch with hch | hch
      · exact encodeChunk_ofText _ ch hch
      · exact encodeChunks_ofText bytes ch hch
  | [_], ch, hch => encodeChunk_ofText _ ch hch
  | [_, _], ch, hch => encodeChunk_ofText _ ch hch
  | [_, _, _], ch, hch => encodeChunk_ofText _ ch hch

/-- A chunk that is not cut short is as many symbols as it has bytes, and one. -/
theorem length_encodeChunk {chunk : List UInt8} (hle : chunk.length ≤ 4)
    (hz : ¬ (chunk.length = 4 ∧ chunk.all (fun b => b = 0) ∧ shortcut)) :
    (encodeChunk alphabet shortcut chunk).length = chunk.length + 1 := by
  rw [encodeChunk, if_neg hz, List.length_map, List.length_take, List.length_reverse]
  have hfive : ∀ value, (digits85 5 value).length = 5 := fun _ => rfl
  rw [hfive]
  omega

/-- **A group in front** is read first, where it is whole or the last. -/
theorem decodeGroups_append (hu : Usable alphabet shortcut) (chunk : List UInt8) {rest : List Char}
    (hle : chunk.length ≤ 4)
    (hz : ¬ (chunk.length = 4 ∧ chunk.all (fun b => b = 0) ∧ shortcut))
    (hback : decodeGroup alphabet (encodeChunk alphabet shortcut chunk) = some (.ok chunk))
    (hrest : chunk.length = 4 ∨ rest = []) :
    decodeGroups alphabet shortcut (encodeChunk alphabet shortcut chunk ++ rest) =
      (decodeGroups alphabet shortcut rest).map fun r => r.map (chunk ++ ·) := by
  have hlen : (encodeChunk alphabet shortcut chunk).length = chunk.length + 1 :=
    length_encodeChunk hle hz
  have hfirst : ∀ ch ∈ encodeChunk alphabet shortcut chunk, ¬ (shortcut = true ∧ ch = 'z') := by
    rw [encodeChunk, if_neg hz]
    rintro ch hch ⟨hs, hchz⟩
    obtain ⟨d, hd, rfl⟩ := List.mem_map.mp hch
    exact (hu.plain hs d (group_lt _ _ d hd)).1 hchz
  generalize encodeChunk alphabet shortcut chunk = text at hback hlen hfirst
  obtain ⟨ch, text, rfl⟩ : ∃ ch text', text = ch :: text' :=
    List.exists_cons_of_ne_nil fun hnil => by
      rw [hnil] at hlen
      cases hlen
  have htake : ((ch :: text) ++ rest).take 5 = ch :: text := by
    rcases hrest with hfour | rfl
    · exact List.take_left' (by rw [hlen, hfour])
    · rw [List.append_nil]
      exact List.take_of_length_le (by omega)
  have hdrop : (text ++ rest).drop 4 = rest := by
    rw [List.length_cons] at hlen
    rcases hrest with hfour | rfl
    · exact List.drop_left' (by omega)
    · rw [List.append_nil]
      exact List.drop_eq_nil_of_le (by omega)
  rw [List.cons_append] at htake ⊢
  rw [decodeGroups, if_neg (hfirst ch List.mem_cons_self), htake, hback, hdrop]

theorem decodeGroups_encodeChunks (hu : Usable alphabet shortcut) : ∀ bytes : List UInt8,
    decodeGroups alphabet shortcut (encodeChunks alphabet shortcut bytes) = some (.ok bytes)
  | b₀ :: b₁ :: b₂ :: b₃ :: bytes => by
      have ih := decodeGroups_encodeChunks hu bytes
      rw [encodeChunks]
      by_cases hz : [b₀, b₁, b₂, b₃].length = 4 ∧ [b₀, b₁, b₂, b₃].all (fun b => b = 0) ∧ shortcut
      · obtain ⟨-, hzeros, hs⟩ := hz
        have hbytes : b₀ = 0 ∧ b₁ = 0 ∧ b₂ = 0 ∧ b₃ = 0 := by simpa using hzeros
        obtain ⟨rfl, rfl, rfl, rfl⟩ := hbytes
        rw [encodeChunk, if_pos ⟨rfl, hzeros, hs⟩, List.singleton_append, decodeGroups,
          if_pos ⟨hs, rfl⟩, ih]
        rfl
      · have hle : [b₀, b₁, b₂, b₃].length ≤ 4 := Nat.le_refl 4
        rw [decodeGroups_append hu _ hle hz (chunk_four hu b₀ b₁ b₂ b₃ hz) (.inl rfl), ih]
        rfl
  | [] => by
      rw [encodeChunks, decodeGroups]
  | [a] => by
      have h := decodeGroups_append hu [a] (Nat.le_of_ble_eq_true rfl) (fun h => absurd h.1 nofun)
        (chunk_one hu a) (.inr rfl)
      rw [List.append_nil, decodeGroups] at h
      exact h
  | [a, b] => by
      have h := decodeGroups_append hu [a, b] (Nat.le_of_ble_eq_true rfl)
        (fun h => absurd h.1 nofun) (chunk_two hu a b) (.inr rfl)
      rw [List.append_nil, decodeGroups] at h
      exact h
  | [a, b, c] => by
      have h := decodeGroups_append hu [a, b, c] (Nat.le_of_ble_eq_true rfl)
        (fun h => absurd h.1 nofun) (chunk_three hu a b c) (.inr rfl)
      rw [List.append_nil, decodeGroups] at h
      exact h

/-! ### Delimiters -/

theorem trimOpen_eq : ∀ {s : List Char}, ¬ ['<', '~'] <+: s → trimOpen s = s
  | [], _ => rfl
  | [_], _ => by
      rw [trimOpen]
      intro s h
      cases h
  | c₁ :: c₂ :: s, h => by
      rw [trimOpen]
      rintro t heq
      rw [heq] at h
      exact h (List.prefix_append ['<', '~'] t)

theorem trimClosed_eq {s : List Char} (h : '~' ∉ s) : trimClosed s = s := by
  rw [trimClosed]
  rintro t rfl
  exact h (List.mem_cons_of_mem _ List.mem_cons_self)

/-- Nothing, or what begins with the short form, or with two symbols. -/
def Shaped (text : List Char) : Prop := text = [] ∨ text.head? = some 'z' ∨ 2 ≤ text.length

theorem Shaped.append {text : List Char} (h : Shaped text) (hne : text ≠ []) (rest : List Char) :
    Shaped (text ++ rest) := by
  rcases h with h | h | h
  · exact absurd h hne
  · obtain ⟨c, text, rfl⟩ := List.exists_cons_of_ne_nil hne
    exact .inr (.inl h)
  · rw [Shaped, List.length_append]
    exact .inr (.inr (Nat.le_add_right_of_le h))

theorem shaped_chunk (chunk : List UInt8) (hne : chunk ≠ []) (hle : chunk.length ≤ 4) :
    Shaped (encodeChunk alphabet shortcut chunk) ∧ encodeChunk alphabet shortcut chunk ≠ [] := by
  by_cases hz : chunk.length = 4 ∧ chunk.all (fun b => b = 0) ∧ shortcut
  · have h : encodeChunk alphabet shortcut chunk = ['z'] := if_pos hz
    rw [h]
    exact ⟨.inr (.inl rfl), List.cons_ne_nil _ _⟩
  · have hlen : (encodeChunk alphabet shortcut chunk).length = chunk.length + 1 :=
      length_encodeChunk hle hz
    have := List.length_pos_iff.mpr hne
    refine ⟨.inr (.inr (by omega)), fun hnil => ?_⟩
    rw [hnil] at hlen
    cases hlen

theorem shaped_chunks : ∀ bytes : List UInt8, Shaped (encodeChunks alphabet shortcut bytes)
  | [] => .inl rfl
  | [a] => (shaped_chunk [a] (List.cons_ne_nil a []) (Nat.le_of_ble_eq_true rfl)).1
  | [a, b] => (shaped_chunk [a, b] (List.cons_ne_nil a [b]) (Nat.le_of_ble_eq_true rfl)).1
  | [a, b, c] => (shaped_chunk [a, b, c] (List.cons_ne_nil a _) (Nat.le_of_ble_eq_true rfl)).1
  | b₀ :: b₁ :: b₂ :: b₃ :: bytes => by
      obtain ⟨hshaped, hne⟩ :=
        shaped_chunk [b₀, b₁, b₂, b₃] (List.cons_ne_nil b₀ _) (Nat.le_of_ble_eq_true rfl)
      rw [encodeChunks]
      exact hshaped.append hne _

/-- **Delimiters** are taken off again, and nothing else. -/
theorem trim_delimited {text : List Char} (h : '~' ∉ text) (hshaped : Shaped text)
    (delimiters : Bool) :
    (trimClosed (trimOpen (if delimiters = true then ['<', '~'] ++ (text ++ ['~', '>'])
      else text)).reverse).reverse = text := by
  have hclosed : trimClosed text.reverse = text.reverse :=
    trimClosed_eq fun hmem => h (List.mem_reverse.mp hmem)
  have hplain : trimOpen text = text := trimOpen_eq fun hp =>
    h (hp.subset (List.mem_cons_of_mem _ List.mem_cons_self))
  cases delimiters with
  | false => rw [if_neg Bool.false_ne_true, hplain, hclosed, List.reverse_reverse]
  | true =>
      have hopen : trimOpen (text ++ ['~', '>']) = text ++ ['~', '>'] := by
        refine trimOpen_eq fun hp => ?_
        obtain ⟨rest, hrest⟩ := hp
        match text, hshaped with
        | [], _ => cases hrest
        | [c], hshaped =>
            have hc : c = '<' := (List.cons_eq_cons.mp hrest).1.symm
            rcases hshaped with hs | hs | hs
            · cases hs
            · rw [hc] at hs
              exact absurd hs (by decide)
            · exact absurd hs (by simp)
        | c₁ :: c₂ :: text, _ =>
            have hc : c₂ = '~' := (List.cons_eq_cons.mp (List.cons_eq_cons.mp hrest).2).1.symm
            exact h (hc ▸ List.mem_cons_of_mem _ List.mem_cons_self)
      have hends : (text ++ ['~', '>']).reverse = '>' :: '~' :: text.reverse := by
        rw [List.reverse_append]
        rfl
      have hstart : trimOpen (['<', '~'] ++ (text ++ ['~', '>'])) = text ++ ['~', '>'] := hopen
      rw [if_pos rfl, hstart, hends, trimClosed, hclosed, List.reverse_reverse]

/-! ### The whole text -/

theorem length_encodeChunks : ∀ {bytes : List UInt8}, bytes.length % 4 = 0 →
    (encodeChunks alphabet false bytes).length % 5 = 0
  | [], _ => rfl
  | b₀ :: b₁ :: b₂ :: b₃ :: bytes, h => by
      have hfour : bytes.length % 4 = 0 := (Nat.add_mod_right bytes.length 4).symm.trans h
      have hle : [b₀, b₁, b₂, b₃].length ≤ 4 := Nat.le_refl 4
      have hz : ¬ ([b₀, b₁, b₂, b₃].length = 4 ∧ [b₀, b₁, b₂, b₃].all (fun b => b = 0) ∧
          false = true) := fun h => Bool.false_ne_true h.2.2
      have hfive : [b₀, b₁, b₂, b₃].length + 1 = 5 := rfl
      rw [encodeChunks, List.length_append, length_encodeChunk hle hz, Nat.add_mod,
        length_encodeChunks hfour, hfive]

theorem visible_of_ofText (hu : Usable alphabet shortcut) {ch : Char}
    (h : OfText alphabet shortcut ch) : Text.isWhitespace ch = false := by
  rcases h with ⟨d, hd, rfl⟩ | ⟨-, rfl⟩
  · exact hu.visible d hd
  · rfl

theorem ascii_of_ofText (hu : Usable alphabet shortcut) {ch : Char}
    (h : OfText alphabet shortcut ch) : Utf8.isAscii ch = true := by
  rcases h with ⟨d, hd, rfl⟩ | ⟨-, rfl⟩
  · exact hu.ascii d hd
  · rfl

/-- Nothing in a text is skipped. -/
theorem filter_visible {text : List Char} (h : ∀ ch ∈ text, Text.isWhitespace ch = false) :
    text.filter (fun c => !Text.isWhitespace c) = text :=
  List.filter_eq_self.mpr fun ch hch => by rw [h ch hch]; rfl

/-- Ascii85 and back, with delimiters or without them. -/
theorem adobe_round_trip (bytes : List UInt8) (delimiters : Bool) : ∃ text,
    a85Encode bytes "adobe" delimiters = .ok text ∧ a85Decode text "adobe" = some (.ok bytes) := by
  have hof : ∀ ch ∈ encodeChunks adobeAlphabet true bytes, OfText adobeAlphabet true ch :=
    encodeChunks_ofText bytes
  have hvisible := fun ch hch => visible_of_ofText usable_adobe (hof ch hch)
  have htilde : '~' ∉ encodeChunks adobeAlphabet true bytes := fun hmem => by
    rcases hof _ hmem with ⟨d, hd, heq⟩ | ⟨-, heq⟩
    · exact (usable_adobe.plain rfl d hd).2 heq.symm
    · exact absurd heq (by decide)
  have hback := decodeGroups_encodeChunks usable_adobe bytes
  have htrim := trim_delimited htilde (shaped_chunks bytes) delimiters
  have hfilter : ∀ text, (∀ ch ∈ text, Text.isWhitespace ch = false) →
      (if delimiters = true then ['<', '~'] ++ (text ++ ['~', '>']) else text).filter
        (fun c => !Text.isWhitespace c) =
          if delimiters = true then ['<', '~'] ++ (text ++ ['~', '>']) else text := by
    intro text htext
    cases delimiters with
    | false => exact filter_visible htext
    | true =>
        have h := filter_visible htext
        rw [if_pos rfl, List.filter_append, List.filter_append, h]
        rfl
  refine ⟨if delimiters = true then ['<', '~'] ++ (encodeChunks adobeAlphabet true bytes ++
    ['~', '>']) else encodeChunks adobeAlphabet true bytes, ?_, ?_⟩
  · cases delimiters <;> rfl
  · have halphabet : base85Alphabet "adobe" = .ok (adobeAlphabet, true) := rfl
    rw [a85Decode, halphabet]
    dsimp only
    rw [hfilter _ hvisible, if_pos rfl, htrim, hback]

/-- RFC 1924 and Z85 and back. -/
theorem rfc1924_round_trip {style : String} (hstyle : style = "base85" ∨ style = "z85")
    (bytes : List UInt8) (hwhole : style = "z85" → bytes.length % 4 = 0) (delimiters : Bool) :
    ∃ text, a85Encode bytes style delimiters = .ok text ∧
      a85Decode text style = some (.ok bytes) := by
  have hof : ∀ ch ∈ encodeChunks rfc1924Alphabet false bytes, OfText rfc1924Alphabet false ch :=
    encodeChunks_ofText bytes
  have hfilter := filter_visible fun ch hch => visible_of_ofText usable_rfc1924 (hof ch hch)
  have hascii : (encodeChunks rfc1924Alphabet false bytes).all Utf8.isAscii = true :=
    List.all_eq_true.mpr fun ch hch => ascii_of_ofText usable_rfc1924 (hof ch hch)
  have hback := decodeGroups_encodeChunks usable_rfc1924 bytes
  have halphabet : base85Alphabet style = .ok (rfc1924Alphabet, false) := by
    rcases hstyle with rfl | rfl <;> rfl
  have hadobe : style ≠ "adobe" := by
    rcases hstyle with rfl | rfl <;> decide
  refine ⟨encodeChunks rfc1924Alphabet false bytes, ?_, ?_⟩
  · rw [a85Encode, halphabet]
    exact congrArg Except.ok (if_neg fun h => hadobe h.2)
  · have hlen : ¬ (style = "z85" ∧
        (Utf8.encode (encodeChunks rfc1924Alphabet false bytes)).length % 5 ≠ 0) := fun h => by
      rw [Utf8.length_encode_ascii hascii] at h
      exact h.2 (length_encodeChunks (hwhole h.1))
    rw [a85Decode, halphabet]
    dsimp only
    rw [hfilter, if_neg hadobe, if_neg hlen, hback]

/-- **Bytes come back from their text**, in every style and with or without delimiters, and no
number overflows on the way; for Z85, where they are whole groups. -/
theorem a85_round_trip (style : String) (hstyle : style ∈ ["adobe", "base85", "z85"])
    (bytes : List UInt8) (hwhole : style = "z85" → bytes.length % 4 = 0) (delimiters : Bool) :
    ∃ text, a85Encode bytes style delimiters = .ok text ∧
      a85Decode text style = some (.ok bytes) := by
  simp only [List.mem_cons, List.not_mem_nil, or_false] at hstyle
  rcases hstyle with rfl | hstyle
  · exact adobe_round_trip bytes delimiters
  · exact rfc1924_round_trip hstyle bytes hwhole delimiters

/-- Four bytes as Z85. -/
theorem a85_round_trip_z85 : ∃ text, a85Encode [72, 105, 33, 0] "z85" false = .ok text ∧
    a85Decode text "z85" = some (.ok [72, 105, 33, 0]) :=
  a85_round_trip "z85" (by decide) [72, 105, 33, 0] (fun _ => rfl) false

end RevBox.Chef
