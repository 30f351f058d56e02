import Mathlib.Init

/-!
# Support — Nesting

Readers of nested formats: a loop over one level, each turn of which writes something, and may go
down into a part of what it read.  A turn is refused, or has no result at all (where a machine
number would overflow).

* `Scheme.walk`: the reader.
* `Scheme.Accepts`, `Scheme.Comes`: the levels that are read to their end, and the places that the
  reader comes to.
* `Scheme.walk_eq_none_iff`, `Scheme.walk_ok_iff`: what the reader does, by its places.
-/

namespace Nesting

/-- What a turn writes, and the part that it goes down into. -/
inductive Piece (α τ : Type) where
  | leaf (text : List τ)
  | node (text : List τ) (body : List α)

/-- A nested format: each turn goes on, and none goes down past the limit. -/
structure Scheme (α ε τ : Type) where
  turn : (depth : Nat) → (level : List α) → (cursor : Nat) → Option (Except ε (Piece α τ × Nat))
  limit : Nat
  goes_on : ∀ {depth level cursor piece next},
    turn depth level cursor = some (.ok (piece, next)) → cursor < next
  goes_down : ∀ {depth level cursor text body next},
    turn depth level cursor = some (.ok (.node text body, next)) → depth < limit

namespace Scheme

variable {α ε τ : Type}

/-- The reader, from a place of a level on. -/
def walk (F : Scheme α ε τ) (depth : Nat) (level : List α) (cursor : Nat) :
    Option (Except ε (List τ)) :=
  if cursor < level.length then
    match _h : F.turn depth level cursor with
    | none => none
    | some (.error e) => some (.error e)
    | some (.ok (.leaf text, next)) =>
        (F.walk depth level next).map fun r => r.map (text ++ ·)
    | some (.ok (.node text body, next)) =>
        match F.walk (depth + 1) body 0 with
        | none => none
        | some (.error e) => some (.error e)
        | some (.ok inner) => (F.walk depth level next).map fun r => r.map (text ++ inner ++ ·)
  else some (.ok [])
termination_by (F.limit - depth, level.length - cursor)
decreasing_by
  · have := F.goes_on _h
    exact Prod.Lex.right _ (by omega)
  · have := F.goes_down _h
    exact Prod.Lex.left _ _ (by omega)
  · have := F.goes_on _h
    exact Prod.Lex.right _ (by omega)

/-- The reader comes to the end of a level, and of all levels in it. -/
inductive Accepts (F : Scheme α ε τ) : Nat → List α → Nat → Prop where
  | done {depth level cursor} (hc : level.length ≤ cursor) : F.Accepts depth level cursor
  | leaf {depth level cursor text next} (hc : cursor < level.length)
      (h : F.turn depth level cursor = some (.ok (.leaf text, next)))
      (later : F.Accepts depth level next) : F.Accepts depth level cursor
  | node {depth level cursor text body next} (hc : cursor < level.length)
      (h : F.turn depth level cursor = some (.ok (.node text body, next)))
      (inside : F.Accepts (depth + 1) body 0) (later : F.Accepts depth level next) :
      F.Accepts depth level cursor

/-- The reader comes from one place to another, at which it takes a turn. -/
inductive Comes (F : Scheme α ε τ) : Nat → List α → Nat → Nat → List α → Nat → Prop where
  | here {depth level cursor} (hc : cursor < level.length) :
      F.Comes depth level cursor depth level cursor
  | down {depth level cursor text body next depth' level' cursor'} (hc : cursor < level.length)
      (h : F.turn depth level cursor = some (.ok (.node text body, next)))
      (inside : F.Comes (depth + 1) body 0 depth' level' cursor') :
      F.Comes depth level cursor depth' level' cursor'
  | leaf {depth level cursor text next depth' level' cursor'} (hc : cursor < level.length)
      (h : F.turn depth level cursor = some (.ok (.leaf text, next)))
      (later : F.Comes depth level next depth' level' cursor') :
      F.Comes depth level cursor depth' level' cursor'
  | node {depth level cursor text body next depth' level' cursor'} (hc : cursor < level.length)
      (h : F.turn depth level cursor = some (.ok (.node text body, next)))
      (inside : F.Accepts (depth + 1) body 0)
      (later : F.Comes depth level next depth' level' cursor') :
      F.Comes depth level cursor depth' level' cursor'

/-- The reader comes to a turn without a result. -/
def GoesWrong (F : Scheme α ε τ) (depth : Nat) (level : List α) (cursor : Nat) : Prop :=
  ∃ depth' level' cursor', F.Comes depth level cursor depth' level' cursor' ∧
    F.turn depth' level' cursor' = none

variable {F : Scheme α ε τ} {depth cursor next : Nat} {level body : List α} {text : List τ} {e : ε}

/-! ### One turn -/

theorem walk_done (hc : level.length ≤ cursor) : F.walk depth level cursor = some (.ok []) := by
  rw [walk, if_neg (Nat.not_lt.mpr hc)]

theorem walk_wrong (hc : cursor < level.length) (h : F.turn depth level cursor = none) :
    F.walk depth level cursor = none := by
  rw [walk, if_pos hc]
  split <;> rename_i heq <;> rw [h] at heq <;> cases heq

theorem walk_error (hc : cursor < level.length)
    (h : F.turn depth level cursor = some (.error e)) :
    F.walk depth level cursor = some (.error e) := by
  rw [walk, if_pos hc]
  split <;> rename_i heq <;> rw [h] at heq <;> cases heq
  rfl

theorem walk_leaf (hc : cursor < level.length)
    (h : F.turn depth level cursor = some (.ok (.leaf text, next))) :
    F.walk depth level cursor = (F.walk depth level next).map fun r => r.map (text ++ ·) := by
  rw [walk, if_pos hc]
  split <;> rename_i heq <;> rw [h] at heq <;> cases heq
  rfl

theorem walk_node (hc : cursor < level.length)
    (h : F.turn depth level cursor = some (.ok (.node text body, next))) :
    F.walk depth level cursor = match F.walk (depth + 1) body 0 with
      | none => none
      | some (.error e) => some (.error e)
      | some (.ok inner) =>
          (F.walk depth level next).map fun r => r.map (text ++ inner ++ ·) := by
  rw [walk, if_pos hc]
  split <;> rename_i heq <;> rw [h] at heq <;> cases heq
  rfl

theorem accepts_error (hc : cursor < level.length)
    (h : ∀ r, F.turn depth level cursor ≠ some (.ok r)) : ¬ F.Accepts depth level cursor := by
  intro hacc
  cases hacc with
  | done hc' => omega
  | leaf _ h' | node _ h' => exact h _ h'

theorem accepts_leaf_iff (hc : cursor < level.length)
    (h : F.turn depth level cursor = some (.ok (.leaf text, next))) :
    F.Accepts depth level cursor ↔ F.Accepts depth level next := by
  constructor
  · intro hacc
    cases hacc with
    | done hc' => omega
    | leaf _ h' later =>
        rw [h] at h'
        cases h'
        exact later
    | node _ h' =>
        rw [h] at h'
        cases h'
  · exact .leaf hc h

theorem accepts_node_iff (hc : cursor < level.length)
    (h : F.turn depth level cursor = some (.ok (.node text body, next))) :
    F.Accepts depth level cursor ↔ F.Accepts (depth + 1) body 0 ∧ F.Accepts depth level next := by
  constructor
  · intro hacc
    cases hacc with
    | done hc' => omega
    | leaf _ h' =>
        rw [h] at h'
        cases h'
    | node _ h' inside later =>
        rw [h] at h'
        cases h'
        exact ⟨inside, later⟩
  · exact fun hacc => .node hc h hacc.1 hacc.2

theorem goesWrong_done (hc : level.length ≤ cursor) : ¬ F.GoesWrong depth level cursor := by
  rintro ⟨_, _, _, hcomes, -⟩
  cases hcomes <;> omega

theorem goesWrong_error (h : F.turn depth level cursor = some (.error e)) :
    ¬ F.GoesWrong depth level cursor := by
  rintro ⟨_, _, _, hcomes, hwrong⟩
  cases hcomes with
  | here =>
      rw [h] at hwrong
      cases hwrong
  | down _ h' | leaf _ h' | node _ h' =>
      rw [h] at h'
      cases h'

theorem goesWrong_leaf_iff (hc : cursor < level.length)
    (h : F.turn depth level cursor = some (.ok (.leaf text, next))) :
    F.GoesWrong depth level cursor ↔ F.GoesWrong depth level next := by
  constructor
  · rintro ⟨depth', level', cursor', hcomes, hwrong⟩
    cases hcomes with
    | here =>
        rw [h] at hwrong
        cases hwrong
    | leaf _ h' later =>
        rw [h] at h'
        cases h'
        exact ⟨_, _, _, later, hwrong⟩
    | down _ h' | node _ h' =>
        rw [h] at h'
        cases h'
  · rintro ⟨depth', level', cursor', hcomes, hwrong⟩
    exact ⟨_, _, _, .leaf hc h hcomes, hwrong⟩

theorem goesWrong_node_iff (hc : cursor < level.length)
    (h : F.turn depth level cursor = some (.ok (.node text body, next))) :
    F.GoesWrong depth level cursor ↔ F.GoesWrong (depth + 1) body 0 ∨
      F.Accepts (depth + 1) body 0 ∧ F.GoesWrong depth level next := by
  constructor
  · rintro ⟨depth', level', cursor', hcomes, hwrong⟩
    cases hcomes with
    | here =>
        rw [h] at hwrong
        cases hwrong
    | leaf _ h' =>
        rw [h] at h'
        cases h'
    | down _ h' inside =>
        rw [h] at h'
        cases h'
        exact .inl ⟨_, _, _, inside, hwrong⟩
    | node _ h' inside later =>
        rw [h] at h'
        cases h'
        exact .inr ⟨inside, _, _, _, later, hwrong⟩
  · rintro (⟨_, _, _, hcomes, hwrong⟩ | ⟨hacc, _, _, _, hcomes, hwrong⟩)
    · exact ⟨_, _, _, .down hc h hcomes, hwrong⟩
    · exact ⟨_, _, _, .node hc h hacc hcomes, hwrong⟩

/-! ### The whole reader -/

theorem map_map_eq_ok_iff {r : Option (Except ε (List τ))} {f : List τ → List τ} :
    (∃ out, (r.map fun r => r.map f) = some (.ok out)) ↔ ∃ out, r = some (.ok out) := by
  match r with
  | none => exact iff_of_false nofun nofun
  | some (.error e) => exact iff_of_false nofun nofun
  | some (.ok out) => exact iff_of_true ⟨_, rfl⟩ ⟨_, rfl⟩

/-- What the reader comes to, by the levels that it reads and the places that it comes to. -/
theorem walk_spec (F : Scheme α ε τ) (depth : Nat) (level : List α) (cursor : Nat) :
    (F.walk depth level cursor = none ↔ F.GoesWrong depth level cursor) ∧
      ((∃ out, F.walk depth level cursor = some (.ok out)) ↔ F.Accepts depth level cursor) := by
  by_cases hc : cursor < level.length
  · match h : F.turn depth level cursor with
    | none =>
        rw [walk_wrong hc h]
        exact ⟨iff_of_true rfl ⟨_, _, _, .here hc, h⟩,
          iff_of_false nofun (accepts_error hc fun r hr => by rw [h] at hr; cases hr)⟩
    | some (.error e) =>
        rw [walk_error hc h]
        exact ⟨iff_of_false nofun (goesWrong_error h),
          iff_of_false nofun (accepts_error hc fun r hr => by rw [h] at hr; cases hr)⟩
    | some (.ok (.leaf text, next)) =>
        have := F.goes_on h
        obtain ⟨hnone, hok⟩ := walk_spec F depth level next
        rw [walk_leaf hc h, goesWrong_leaf_iff hc h, accepts_leaf_iff hc h, map_map_eq_ok_iff,
          Option.map_eq_none_iff]
        exact ⟨hnone, hok⟩
    | some (.ok (.node text body, next)) =>
        have := F.goes_on h
        have := F.goes_down h
        obtain ⟨hnone, hok⟩ := walk_spec F depth level next
        obtain ⟨hnone', hok'⟩ := walk_spec F (depth + 1) body 0
        rw [walk_node hc h, goesWrong_node_iff hc h, accepts_node_iff hc h, ← hnone, ← hok,
          ← hnone', ← hok']
        match F.walk (depth + 1) body 0 with
        | none => simp
        | some (.error e) => simp
        | some (.ok inner) =>
            dsimp only
            rw [Option.map_eq_none_iff, map_map_eq_ok_iff]
            simp
  · have hc := Nat.le_of_not_lt hc
    rw [walk_done hc]
    exact ⟨iff_of_false nofun (goesWrong_done hc), iff_of_true ⟨_, rfl⟩ (.done hc)⟩
termination_by (F.limit - depth, level.length - cursor)

/-- **The reader has no result** iff it comes to a turn that has none. -/
theorem walk_eq_none_iff : F.walk depth level cursor = none ↔ F.GoesWrong depth level cursor :=
  (walk_spec F depth level cursor).1

/-- **The reader succeeds** iff it comes to the end of the level. -/
theorem walk_ok_iff :
    (∃ out, F.walk depth level cursor = some (.ok out)) ↔ F.Accepts depth level cursor :=
  (walk_spec F depth level cursor).2

/-! ### What is written -/

/-- What a piece comes to, with all that is below it. -/
def written (F : Scheme α ε τ) (depth : Nat) : Piece α τ → Option (Except ε (List τ))
  | .leaf text => some (.ok text)
  | .node text body => (F.walk (depth + 1) body 0).map fun r => r.map (text ++ ·)

variable {piece : Piece α τ} {out inner : List τ}

theorem map_map_ok_iff {r : Option (Except ε (List τ))} {f : List τ → List τ} :
    (r.map fun r => r.map f) = some (.ok out) ↔ ∃ t, r = some (.ok t) ∧ out = f t := by
  match r with
  | none => exact iff_of_false nofun nofun
  | some (.error e) => exact iff_of_false nofun nofun
  | some (.ok t) =>
      constructor
      · intro h
        cases h
        exact ⟨t, rfl, rfl⟩
      · rintro ⟨t, h, rfl⟩
        cases h
        rfl

theorem written_node_iff : F.written depth (.node text body) = some (.ok out) ↔
    ∃ inner, F.walk (depth + 1) body 0 = some (.ok inner) ∧ out = text ++ inner := map_map_ok_iff

/-- **A turn writes its piece**, and the reader goes on behind it. -/
theorem walk_turn_iff (hc : cursor < level.length)
    (h : F.turn depth level cursor = some (.ok (piece, next))) :
    F.walk depth level cursor = some (.ok out) ↔ ∃ t later,
      F.written depth piece = some (.ok t) ∧ F.walk depth level next = some (.ok later) ∧
        out = t ++ later := by
  cases piece with
  | leaf text =>
      rw [walk_leaf hc h, map_map_ok_iff]
      constructor
      · rintro ⟨later, hlater, rfl⟩
        exact ⟨text, later, rfl, hlater, rfl⟩
      · rintro ⟨_, later, ht, hlater, rfl⟩
        cases ht
        exact ⟨later, hlater, rfl⟩
  | node text body =>
      rw [walk_node hc h]
      match hinner : F.walk (depth + 1) body 0 with
      | none =>
          refine iff_of_false nofun ?_
          rintro ⟨t, _, ht, -⟩
          obtain ⟨inner, hwalk, -⟩ := written_node_iff.mp ht
          rw [hinner] at hwalk
          cases hwalk
      | some (.error e) =>
          refine iff_of_false nofun ?_
          rintro ⟨t, _, ht, -⟩
          obtain ⟨inner, hwalk, -⟩ := written_node_iff.mp ht
          rw [hinner] at hwalk
          cases hwalk
      | some (.ok inner) =>
          rw [map_map_ok_iff]
          constructor
          · rintro ⟨later, hlater, rfl⟩
            exact ⟨text ++ inner, later, written_node_iff.mpr ⟨inner, hinner, rfl⟩, hlater, rfl⟩
          · rintro ⟨t, later, ht, hlater, rfl⟩
            obtain ⟨inner', hwalk, rfl⟩ := written_node_iff.mp ht
            rw [hinner] at hwalk
            cases hwalk
            exact ⟨later, hlater, rfl⟩

/-- What is said of all that is written at a place, by what is written at later places and at those
below. -/
theorem walk_induction {P : Nat → List α → Nat → List τ → Prop}
    (done : ∀ {depth level cursor}, level.length ≤ cursor → P depth level cursor [])
    (leaf : ∀ {depth level cursor text next out}, cursor < level.length →
      F.turn depth level cursor = some (.ok (.leaf text, next)) → P depth level next out →
        P depth level cursor (text ++ out))
    (node : ∀ {depth level cursor text body next inner out}, cursor < level.length →
      F.turn depth level cursor = some (.ok (.node text body, next)) →
        P (depth + 1) body 0 inner → P depth level next out →
          P depth level cursor (text ++ inner ++ out))
    (depth : Nat) (level : List α) (cursor : Nat) (out : List τ)
    (h : F.walk depth level cursor = some (.ok out)) : P depth level cursor out := by
  by_cases hc : cursor < level.length
  · match hturn : F.turn depth level cursor with
    | none =>
        rw [walk_wrong hc hturn] at h
        cases h
    | some (.error e) =>
        rw [walk_error hc hturn] at h
        cases h
    | some (.ok (.leaf text, next)) =>
        have := F.goes_on hturn
        obtain ⟨_, later, ht, hlater, rfl⟩ := (walk_turn_iff hc hturn).mp h
        cases ht
        exact leaf hc hturn (walk_induction done leaf node depth level next later hlater)
    | some (.ok (.node text body, next)) =>
        have := F.goes_on hturn
        have := F.goes_down hturn
        obtain ⟨t, later, ht, hlater, rfl⟩ := (walk_turn_iff hc hturn).mp h
        obtain ⟨inner, hinner, rfl⟩ := written_node_iff.mp ht
        exact node hc hturn (walk_induction done leaf node (depth + 1) body 0 inner hinner)
          (walk_induction done leaf node depth level next later hlater)
  · have hc := Nat.le_of_not_lt hc
    rw [walk_done hc] at h
    cases h
    exact done hc
termination_by (F.limit - depth, level.length - cursor)

end Scheme

end Nesting
