import Mathlib.Data.List.Induction

/-!
# Protocol — Value

`serde_json::Value`.  An object is its list of fields in key order, as `serde_json::Map` keeps
them when it is a `BTreeMap`; `insertField` is `Map::insert` and keeps that order.  An integer
is its mathematical value, and a float the text `serde_json` prints for it: no modelled code
computes with floats.
-/

namespace RevBox

/-- `serde_json::Number`. -/
inductive Number where
  | int (n : Int)
  | float (text : String)
  deriving DecidableEq, Repr

/-- `serde_json::Value`. -/
inductive Value where
  | null
  | bool (b : Bool)
  | number (n : Number)
  | string (s : String)
  | array (xs : List Value)
  | object (fields : List (String × Value))
  deriving Repr, Inhabited

namespace Value

/-- `Map::insert`: the value under `key` is replaced, or the field takes its place in the key
order. -/
def insertField (key : String) (value : Value) : List (String × Value) → List (String × Value)
  | [] => [(key, value)]
  | (k, v) :: rest =>
      if key = k then (key, value) :: rest
      else if key < k then (key, value) :: (k, v) :: rest
      else (k, v) :: insertField key value rest

/-- An object from fields in the order the code gives them: `json!`, or a serialised struct. -/
def ofFields (fields : List (String × Value)) : Value :=
  .object (fields.foldl (fun m f => insertField f.1 f.2 m) [])

/-- `Value::get` by a key. -/
def get? : Value → String → Option Value
  | .object fields, key => (fields.find? fun f => f.1 = key).map Prod.snd
  | _, _ => none

/-- `Value::as_str`. -/
def asStr : Value → Option String
  | .string s => some s
  | _ => none

/-- `Value::as_bool`. -/
def asBool : Value → Option Bool
  | .bool b => some b
  | _ => none

/-- A natural number as a JSON number. -/
def nat (n : Nat) : Value := .number (.int n)

/-- `Option<T>` without `skip_serializing_if`: `None` is `null`. -/
def opt {α : Type} (f : α → Value) : Option α → Value
  | none => .null
  | some a => f a

theorem mem_insertField (key : String) (value : Value) :
    ∀ fields, (key, value) ∈ insertField key value fields
  | [] => List.mem_cons_self
  | (k, v) :: rest => by
      unfold insertField
      split
      · exact List.mem_cons_self
      split
      · exact List.mem_cons_self
      · exact List.mem_cons_of_mem _ (mem_insertField key value rest)

theorem mem_insertField_of_ne {key : String} {f : String × Value} (value : Value)
    (hne : f.1 ≠ key) : ∀ {fields}, f ∈ fields → f ∈ insertField key value fields
  | (k, v) :: rest, h => by
      unfold insertField
      rcases List.mem_cons.mp h with rfl | h
      · rw [if_neg (Ne.symm hne)]
        split
        · exact List.mem_cons_of_mem _ List.mem_cons_self
        · exact List.mem_cons_self
      split
      · exact List.mem_cons_of_mem _ h
      split
      · exact List.mem_cons_of_mem _ (List.mem_cons_of_mem _ h)
      · exact List.mem_cons_of_mem _ (mem_insertField_of_ne value hne h)

/-- What `Map::get` finds after `Map::insert`. -/
theorem get?_insertField (key : String) (value : Value) (key' : String) :
    ∀ fields, (Value.object (insertField key value fields)).get? key' =
      if key = key' then some value else (Value.object fields).get? key'
  | [] => by by_cases h : key = key' <;> simp [insertField, get?, h]
  | (k, v) :: rest => by
      have ih := get?_insertField key value key' rest
      unfold insertField
      by_cases hk : key = k
      · subst hk
        by_cases h : key = key' <;> simp [get?, h]
      · rw [if_neg hk]
        split
        · by_cases h : key = key' <;> simp [get?, h]
        · by_cases h : k = key'
          · subst h
            simp [get?, hk]
          · simpa [get?, h] using ih

/-- What is found in an object made of fields: the last of them under the key. -/
theorem get?_ofFields (fields : List (String × Value)) (key : String) :
    (ofFields fields).get? key = (fields.reverse.find? fun f => f.1 = key).map Prod.snd := by
  induction fields using List.reverseRecOn with
  | nil => rfl
  | append_singleton fields f ih =>
      rw [ofFields, List.foldl_append, List.reverse_append]
      refine (get?_insertField f.1 f.2 key _).trans ?_
      rw [List.reverse_singleton, List.singleton_append, List.find?_cons]
      by_cases h : f.1 = key
      · rw [if_pos h, decide_eq_true h]
        rfl
      · rw [if_neg h, decide_eq_false h]
        exact ih

end Value

end RevBox
