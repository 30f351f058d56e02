import Mathlib.Init

/-!
# Desktop — CoreError

The errors of the desktop's services (`core/error.rs`).
-/

namespace RevBox

/-- `CoreError`, as far as the modelled services meet it. -/
inductive CoreError where
  | internal (message : String)
  | notFound (message : String)
  | conflict (message : String)
  | invalidInput (message : String)

/-- `CoreError::code`. -/
def CoreError.code : CoreError → String
  | .internal _ => "INTERNAL"
  | .notFound _ => "NOT_FOUND"
  | .conflict _ => "CONFLICT"
  | .invalidInput _ => "INVALID_INPUT"

end RevBox
