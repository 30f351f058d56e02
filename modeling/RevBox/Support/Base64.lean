import Mathlib.Data.List.Basic

/-!
# Support — Base64

Base64 as RFC 4648 has it: three bytes are four symbols of one of two alphabets, and a last group
of one or two bytes is two or three symbols.

* `decodeNoPad_encodeNoPad`: what is encoded is decoded.
-/

namespace Base64

/-- The symbol of six bits. -/
def symbol (urlSafe : Bool) (n : Nat) : Char :=
  if n < 26 then Char.ofNat (65 + n)
  else if n < 52 then Char.ofNat (71 + n)
  else if n < 62 then Char.ofNat (n - 4)
  else if n = 62 then (if urlSafe then '-' else '+')
  else (if urlSafe then '_' else '/')

/-- The six bits of a symbol. -/
def value (urlSafe : Bool) (c : Char) : Option Nat :=
  let n := c.toNat
  if 65 ≤ n ∧ n ≤ 90 then some (n - 65)
  else if 97 ≤ n ∧ n ≤ 122 then some (n - 71)
  else if 48 ≤ n ∧ n ≤ 57 then some (n + 4)
  else if c = (if urlSafe then '-' else '+') then some 62
  else if c = (if urlSafe then '_' else '/') then some 63
  else none

/-- A character of an alphabet. -/
def InAlphabet (urlSafe : Bool) (c : Char) : Prop := ∃ n < 64, c = symbol urlSafe n

/-- Bytes as groups of six bits, the last filled up with zeros. -/
def sextets : List UInt8 → List Nat
  | [] => []
  | [a] => [a.toNat / 4, a.toNat % 4 * 16]
  | [a, b] => [a.toNat / 4, a.toNat % 4 * 16 + b.toNat / 16, b.toNat % 16 * 4]
  | a :: b :: c :: bytes =>
      a.toNat / 4 :: (a.toNat % 4 * 16 + b.toNat / 16) :: (b.toNat % 16 * 4 + c.toNat / 64) ::
        c.toNat % 64 :: sextets bytes

/-- Bytes from groups of six bits, where the last is filled up with zeros. -/
def octets : List Nat → Option (List UInt8)
  | [] => some []
  | [_] => none
  | [w, x] => if x % 16 = 0 then some [.ofNat (w * 4 + x / 16)] else none
  | [w, x, y] =>
      if y % 4 = 0 then some [.ofNat (w * 4 + x / 16), .ofNat (x % 16 * 16 + y / 4)] else none
  | w :: x :: y :: z :: rest =>
      (octets rest).map fun bytes => .ofNat (w * 4 + x / 16) :: .ofNat (x % 16 * 16 + y / 4) ::
        .ofNat (y % 4 * 64 + z) :: bytes

/-- The encoding without padding. -/
def encodeNoPad (urlSafe : Bool) (bytes : List UInt8) : List Char :=
  (sextets bytes).map (symbol urlSafe)

/-- The symbols a padded encoding is filled up with. -/
def padding (length : Nat) : List Char := List.replicate ((3 - length % 3) % 3) '='

/-- The encoding with padding. -/
def encode (urlSafe : Bool) (bytes : List UInt8) : List Char :=
  encodeNoPad urlSafe bytes ++ padding bytes.length

/-- The decoding of what has no padding. -/
def decodeNoPad (urlSafe : Bool) (text : List Char) : Option (List UInt8) :=
  (text.mapM (value urlSafe)).bind octets

theorem sextets_lt : ∀ {bytes : List UInt8}, ∀ n ∈ sextets bytes, n < 64
  | [], n, h => by cases h
  | [a], n, h => by
      have ha := a.toNat_lt
      simp only [sextets, List.mem_cons, List.not_mem_nil, or_false] at h
      omega
  | [a, b], n, h => by
      have ha := a.toNat_lt
      have hb := b.toNat_lt
      simp only [sextets, List.mem_cons, List.not_mem_nil, or_false] at h
      omega
  | a :: b :: c :: bytes, n, h => by
      have ha := a.toNat_lt
      have hb := b.toNat_lt
      have hc := c.toNat_lt
      simp only [sextets, List.mem_cons] at h
      rcases h with h | h | h | h | h
      · omega
      · omega
      · omega
      · omega
      · exact sextets_lt n h

theorem length_sextets : ∀ bytes : List UInt8, (sextets bytes).length = (8 * bytes.length + 5) / 6
  | [] => rfl
  | [_] => by simp [sextets]
  | [_, _] => by simp [sextets]
  | _ :: _ :: _ :: bytes => by
      rw [sextets]
      simp only [List.length_cons, length_sextets bytes]
      omega

theorem octets_sextets : ∀ bytes : List UInt8, octets (sextets bytes) = some bytes
  | [] => rfl
  | [a] => by
      have ha := a.toNat_lt
      have h : a.toNat / 4 * 4 + a.toNat % 4 * 16 / 16 = a.toNat := by omega
      rw [sextets, octets, if_pos (by omega), h, UInt8.ofNat_toNat]
  | [a, b] => by
      have ha := a.toNat_lt
      have hb := b.toNat_lt
      have h₁ : a.toNat / 4 * 4 + (a.toNat % 4 * 16 + b.toNat / 16) / 16 = a.toNat := by omega
      have h₂ : (a.toNat % 4 * 16 + b.toNat / 16) % 16 * 16 + b.toNat % 16 * 4 / 4 = b.toNat := by
        omega
      rw [sextets, octets, if_pos (by omega), h₁, h₂, UInt8.ofNat_toNat, UInt8.ofNat_toNat]
  | a :: b :: c :: bytes => by
      have ha := a.toNat_lt
      have hb := b.toNat_lt
      have hc := c.toNat_lt
      have h₁ : a.toNat / 4 * 4 + (a.toNat % 4 * 16 + b.toNat / 16) / 16 = a.toNat := by omega
      have h₂ : (a.toNat % 4 * 16 + b.toNat / 16) % 16 * 16 +
          (b.toNat % 16 * 4 + c.toNat / 64) / 4 = b.toNat := by omega
      have h₃ : (b.toNat % 16 * 4 + c.toNat / 64) % 4 * 64 + c.toNat % 64 = c.toNat := by omega
      rw [sextets, octets, octets_sextets bytes, h₁, h₂, h₃, UInt8.ofNat_toNat, UInt8.ofNat_toNat,
        UInt8.ofNat_toNat]
      rfl

theorem value_symbol {urlSafe : Bool} : ∀ n < 64, value urlSafe (symbol urlSafe n) = some n := by
  cases urlSafe <;> decide

/-- **What is encoded is decoded.** -/
theorem decodeNoPad_encodeNoPad (urlSafe : Bool) (bytes : List UInt8) :
    decodeNoPad urlSafe (encodeNoPad urlSafe bytes) = some bytes := by
  have hmap : ∀ ns : List Nat, (∀ n ∈ ns, n < 64) →
      (ns.map (symbol urlSafe)).mapM (value urlSafe) = some ns := by
    intro ns
    induction ns with
    | nil => exact fun _ => rfl
    | cons n ns ih =>
        intro h
        rw [List.map_cons, List.mapM_cons, value_symbol n (h n List.mem_cons_self),
          ih fun m hm => h m (List.mem_cons_of_mem _ hm)]
        rfl
  rw [decodeNoPad, encodeNoPad, hmap _ sextets_lt]
  exact octets_sextets bytes

theorem inAlphabet_encodeNoPad {urlSafe : Bool} {bytes : List UInt8} :
    ∀ c ∈ encodeNoPad urlSafe bytes, InAlphabet urlSafe c := by
  intro c hc
  obtain ⟨n, hn, rfl⟩ := List.mem_map.mp hc
  exact ⟨n, sextets_lt n hn, rfl⟩

example : encode false [77, 97] = "TWE=".toList := by decide

end Base64
