import Mathlib.Data.List.Basic

/-!
# Support — ByteStream

A stream of bytes read to the exact length asked for, whatever pieces it arrives in, and a writer.

* `readExact_ok`, `readExact_short`: what is read depends on the bytes alone.
-/

namespace ByteStream

/-- The kinds of an I/O error that are told apart. -/
inductive ErrorKind where
  | unexpectedEof
  | invalidData
  | brokenPipe
  | connectionReset
  | other
  deriving DecidableEq

/-- An I/O error. -/
structure IoError where
  kind : ErrorKind
  text : String
  deriving DecidableEq

/-- A reader: the pieces still to arrive, and the error that comes after them, unless it is the end. -/
structure Reader where
  pieces : List (List UInt8)
  fault : Option IoError

/-- The bytes still to arrive. -/
def Reader.bytes (r : Reader) : List UInt8 := r.pieces.flatten

/-- The error of a reader that ends too early. -/
def earlyEof : IoError := ⟨.unexpectedEof, "failed to fill whole buffer"⟩

/-- The error after the last byte. -/
def Reader.atEnd (r : Reader) : IoError := r.fault.getD earlyEof

/-- Pieces taken in turn until there are `n` bytes, or no more pieces. -/
def takePieces : Nat → List (List UInt8) → List UInt8 × List (List UInt8)
  | _, [] => ([], [])
  | n, piece :: rest =>
      if n ≤ piece.length then (piece.take n, piece.drop n :: rest)
      else
        let (more, rest) := takePieces (n - piece.length) rest
        (piece ++ more, rest)

/-- `read_exact`. -/
def readExact (n : Nat) (r : Reader) : Except IoError (List UInt8) × Reader :=
  let (got, rest) := takePieces n r.pieces
  (if got.length = n then .ok got else .error r.atEnd, { r with pieces := rest })

theorem takePieces_spec (n : Nat) (pieces : List (List UInt8)) :
    (takePieces n pieces).1 = pieces.flatten.take n ∧
      (takePieces n pieces).2.flatten = pieces.flatten.drop n := by
  induction pieces generalizing n with
  | nil => simp [takePieces]
  | cons piece rest ih =>
      rw [takePieces, List.flatten_cons]
      split
      · rename_i h
        rw [List.take_append_of_le_length h, List.drop_append_of_le_length h]
        exact ⟨rfl, List.flatten_cons⟩
      · rename_i h
        obtain ⟨htake, hdrop⟩ := ih (n - piece.length)
        have hle := Nat.le_of_not_le h
        rw [List.take_append, List.drop_append, List.take_of_length_le hle,
          List.drop_eq_nil_of_le hle, List.nil_append]
        exact ⟨congrArg (piece ++ ·) htake, hdrop⟩

/-- **As many bytes as are asked for**, and the rest is still to arrive. -/
theorem readExact_ok {r : Reader} {got rest : List UInt8} (h : r.bytes = got ++ rest) :
    ∃ r', readExact got.length r = (.ok got, r') ∧ r'.bytes = rest ∧ r'.fault = r.fault := by
  obtain ⟨htake, hdrop⟩ := takePieces_spec got.length r.pieces
  have hbytes : r.pieces.flatten = got ++ rest := h
  rw [hbytes, List.take_left] at htake
  rw [hbytes, List.drop_left] at hdrop
  refine ⟨{ r with pieces := (takePieces got.length r.pieces).2 }, ?_, hdrop, rfl⟩
  simp only [readExact, htake, if_true]

/-- **Too few bytes**: the error of the end, and nothing is left. -/
theorem readExact_short {r : Reader} {n : Nat} (h : r.bytes.length < n) :
    ∃ r', readExact n r = (.error r.atEnd, r') ∧ r'.bytes = [] ∧ r'.fault = r.fault := by
  obtain ⟨htake, hdrop⟩ := takePieces_spec n r.pieces
  have hbytes : r.pieces.flatten.length < n := h
  have hlen : ¬ (takePieces n r.pieces).1.length = n := by
    rw [htake, List.length_take]
    omega
  refine ⟨{ r with pieces := (takePieces n r.pieces).2 }, ?_, ?_, rfl⟩
  · simp only [readExact, if_neg hlen]
  · exact hdrop.trans (List.drop_eq_nil_of_le (Nat.le_of_lt hbytes))

end ByteStream
