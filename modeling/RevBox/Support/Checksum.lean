import Mathlib.Data.List.Basic
import Mathlib.Logic.Function.Iterate

/-!
# Support — Checksum

A checksum taken while a file is read piece by piece, and CRC-32.  What the pieces are does not
matter to it (`fold_update`); the reads of a file are pieces of it (`flatten_readAll`,
`flatten_readUpTo`).
-/

namespace Checksum

/-- A running checksum.  The two laws say that it sees the bytes, not the pieces they come in. -/
structure Hasher where
  State : Type
  new : State
  update : State → List UInt8 → State
  finalize : State → UInt32
  update_nil : ∀ st, update st [] = st
  update_append : ∀ st a b, update st (a ++ b) = update (update st a) b

/-- The checksum of some bytes. -/
def Hasher.sum (H : Hasher) (data : List UInt8) : UInt32 := H.finalize (H.update H.new data)

/-- The checksum of pieces is that of the bytes. -/
theorem Hasher.fold_update (H : Hasher) (pieces : List (List UInt8)) (st : H.State) :
    pieces.foldl H.update st = H.update st pieces.flatten := by
  induction pieces generalizing st with
  | nil => exact (H.update_nil st).symm
  | cons piece pieces ih => rw [List.foldl_cons, ih, List.flatten_cons, H.update_append]

/-! ### CRC-32 -/

/-- One bit of the division by the reversed polynomial. -/
def crcBit (c : UInt32) : UInt32 :=
  if c &&& 1 = 1 then (c >>> 1) ^^^ 0xEDB88320 else c >>> 1

/-- One byte. -/
def crcByte (c : UInt32) (b : UInt8) : UInt32 := crcBit^[8] (c ^^^ b.toUInt32)

/-- CRC-32. -/
def crc32 : Hasher where
  State := UInt32
  new := 0xFFFFFFFF
  update st data := data.foldl crcByte st
  finalize st := st ^^^ 0xFFFFFFFF
  update_nil _ := rfl
  update_append _ _ _ := List.foldl_append

example : crc32.sum [0x31, 0x32, 0x33, 0x34, 0x35, 0x36, 0x37, 0x38, 0x39] = 0xCBF43926 := by
  decide +kernel

/-! ### The reads of a file -/

/-- The reads of at most `chunk` bytes, until one gives nothing. -/
def readsFrom (chunk : Nat) : Nat → List UInt8 → List (List UInt8)
  | 0, _ => []
  | fuel + 1, bytes =>
      if bytes.take chunk = [] then []
      else bytes.take chunk :: readsFrom chunk fuel (bytes.drop chunk)

/-- The reads of a whole file. -/
def readAll (chunk : Nat) (bytes : List UInt8) : List (List UInt8) :=
  readsFrom chunk bytes.length bytes

/-- The reads of at most `chunk` bytes, until `left` bytes are read or a read gives nothing. -/
def readUpToFrom (chunk : Nat) : Nat → Nat → List UInt8 → List (List UInt8)
  | 0, _, _ => []
  | fuel + 1, left, bytes =>
      if left = 0 then []
      else
        let piece := bytes.take (min left chunk)
        if piece = [] then []
        else piece :: readUpToFrom chunk fuel (left - piece.length) (bytes.drop piece.length)

/-- The reads of the next `left` bytes: each gives at least one. -/
def readUpTo (chunk left : Nat) (bytes : List UInt8) : List (List UInt8) :=
  readUpToFrom chunk left left bytes

theorem flatten_readsFrom {chunk : Nat} (hchunk : 0 < chunk) : ∀ {fuel : Nat} {bytes : List UInt8},
    bytes.length ≤ fuel → (readsFrom chunk fuel bytes).flatten = bytes
  | 0, bytes, h => (List.length_eq_zero_iff.mp (Nat.le_zero.mp h)).symm
  | fuel + 1, bytes, h => by
      rw [readsFrom]
      split
      · next hnil =>
          have hbytes : bytes = [] := by
            rw [List.take_eq_nil_iff] at hnil
            exact hnil.resolve_left (Nat.pos_iff_ne_zero.mp hchunk)
          rw [hbytes, List.flatten_nil]
      · have hrest : (bytes.drop chunk).length ≤ fuel := by
          rw [List.length_drop]
          omega
        rw [List.flatten_cons, flatten_readsFrom hchunk hrest, List.take_append_drop]

/-- **The reads of a file are the file.** -/
theorem flatten_readAll {chunk : Nat} (hchunk : 0 < chunk) (bytes : List UInt8) :
    (readAll chunk bytes).flatten = bytes := flatten_readsFrom hchunk (Nat.le_refl _)

theorem flatten_readUpToFrom {chunk : Nat} (hchunk : 0 < chunk) :
    ∀ {fuel left : Nat} {bytes : List UInt8}, left ≤ fuel →
      (readUpToFrom chunk fuel left bytes).flatten = bytes.take left
  | 0, left, bytes, h => by
      rw [Nat.le_zero.mp h]
      rfl
  | fuel + 1, left, bytes, h => by
      rw [readUpToFrom]
      split
      · next hleft => rw [hleft, List.take_zero, List.flatten_nil]
      · next hleft =>
          have hwant : min left chunk ≠ 0 := by omega
          dsimp only
          split
          · next hnil =>
              rw [List.take_eq_nil_iff] at hnil
              rw [hnil.resolve_left hwant, List.take_nil, List.flatten_nil]
          · next hne =>
              have hpiece : bytes.take (bytes.take (min left chunk)).length =
                  bytes.take (min left chunk) := by
                rw [List.length_take, ← List.take_eq_take_min]
              have hpos : 0 < (bytes.take (min left chunk)).length := List.length_pos_iff.mpr hne
              have hle : (bytes.take (min left chunk)).length ≤ left := by
                rw [List.length_take]
                omega
              rw [List.flatten_cons, flatten_readUpToFrom hchunk (by omega)]
              generalize (bytes.take (min left chunk)).length = n at hpiece hle
              rw [← hpiece, ← List.take_add, Nat.add_sub_cancel' hle]

/-- **The reads of the next bytes are those bytes**, as far as there are any. -/
theorem flatten_readUpTo {chunk : Nat} (hchunk : 0 < chunk) (left : Nat) (bytes : List UInt8) :
    (readUpTo chunk left bytes).flatten = bytes.take left := flatten_readUpToFrom hchunk (Nat.le_refl _)

end Checksum
