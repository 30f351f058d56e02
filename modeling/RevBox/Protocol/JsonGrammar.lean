import RevBox.Protocol.Json
import Mathlib.Data.String.Basic

/-!
# Protocol — JsonGrammar

The texts of JSON (RFC 8259) and the values that they are read as.  A number's text is read by a
relation of its own, for floats are not computed with.

* `Reads.depth_le`, `Reads.kept`: what is read is nested no deeper than allowed, and its objects
  are in key order.
* `Value.ofFields_of_inOrder`, `literal_renderStr`: fields in key order, and strings as they are
  printed, are read back.
-/

namespace RevBox

namespace Value

mutual

/-- How deep arrays and objects are nested in a value. -/
def depth : Value → Nat
  | .array xs => depthItems xs + 1
  | .object fields => depthFields fields + 1
  | _ => 0

/-- How deep the items of an array are nested. -/
def depthItems : List Value → Nat
  | [] => 0
  | v :: vs => max (depth v) (depthItems vs)

/-- How deep the fields of an object are nested. -/
def depthFields : List (String × Value) → Nat
  | [] => 0
  | (_, v) :: fields => max (depth v) (depthFields fields)

end

variable {key : String} {value v : Value} {fields : List (String × Value)} {n : Nat}

theorem depthItems_le {xs : List Value} : depthItems xs ≤ n ↔ ∀ x ∈ xs, x.depth ≤ n := by
  induction xs with
  | nil => exact iff_of_true (Nat.zero_le n) nofun
  | cons v vs ih => rw [depthItems, Nat.max_le, ih, List.forall_mem_cons]

theorem depthFields_le : depthFields fields ≤ n ↔ ∀ f ∈ fields, f.2.depth ≤ n := by
  induction fields with
  | nil => exact iff_of_true (Nat.zero_le n) nofun
  | cons f fields ih => rw [depthFields, Nat.max_le, ih, List.forall_mem_cons]

/-- The keys of an object are in order, each there once. -/
def InOrder (fields : List (String × Value)) : Prop := (fields.map Prod.fst).Pairwise (· < ·)

theorem inOrder_cons {f : String × Value} :
    InOrder (f :: fields) ↔ (∀ g ∈ fields, f.1 < g.1) ∧ InOrder fields := by
  rw [InOrder, List.map_cons, List.pairwise_cons, List.forall_mem_map]
  rfl

theorem mem_of_mem_insertField {f : String × Value} :
    ∀ {fields}, f ∈ insertField key value fields → f = (key, value) ∨ f ∈ fields
  | [], h => .inl (List.mem_singleton.mp h)
  | (k, v) :: rest, h => by
      unfold insertField at h
      split_ifs at h
      · rcases List.mem_cons.mp h with h | h
        · exact .inl h
        · exact .inr (List.mem_cons_of_mem _ h)
      · rcases List.mem_cons.mp h with h | h
        · exact .inl h
        · exact .inr h
      · rcases List.mem_cons.mp h with h | h
        · exact .inr (h ▸ List.mem_cons_self)
        · exact (mem_of_mem_insertField h).imp_right (List.mem_cons_of_mem _)

/-- A field that is inserted leaves the keys in order. -/
theorem InOrder.insertField (key : String) (value : Value) :
    ∀ {fields}, InOrder fields → InOrder (insertField key value fields)
  | [], _ => List.pairwise_singleton _ _
  | (k, v) :: rest, h => by
      obtain ⟨hlt, hrest⟩ := inOrder_cons.mp h
      unfold Value.insertField
      split_ifs with heq hkey
      · subst heq
        exact inOrder_cons.mpr ⟨hlt, hrest⟩
      · refine inOrder_cons.mpr ⟨fun g hg => ?_, h⟩
        rcases List.mem_cons.mp hg with rfl | hg
        · exact hkey
        · exact lt_trans hkey (hlt g hg)
      · refine inOrder_cons.mpr ⟨fun g hg => ?_, hrest.insertField key value⟩
        rcases mem_of_mem_insertField hg with rfl | hg
        · exact lt_of_le_of_ne (not_lt.mp hkey) (Ne.symm heq)
        · exact hlt g hg

/-- A field whose key is the last is put last. -/
theorem insertField_last : ∀ {fields}, (∀ f ∈ fields, f.1 < key) →
    insertField key value fields = fields ++ [(key, value)]
  | [], _ => rfl
  | (k, v) :: rest, h => by
      have hlt : k < key := h _ List.mem_cons_self
      rw [insertField, if_neg (ne_of_gt hlt), if_neg (lt_asymm hlt),
        insertField_last fun f hf => h f (List.mem_cons_of_mem _ hf)]
      rfl

/-- **Fields in order** make the object that has them. -/
theorem ofFields_of_inOrder (h : InOrder fields) : ofFields fields = .object fields := by
  induction fields using List.reverseRecOn with
  | nil => rfl
  | append_singleton fields f ih =>
      rw [InOrder, List.map_append, List.pairwise_append] at h
      obtain ⟨hfields, -, hlast⟩ := h
      have ih := Value.object.inj (ih hfields)
      rw [ofFields, List.foldl_append, ih]
      refine congrArg Value.object (insertField_last fun g hg => ?_)
      exact hlast _ (List.mem_map_of_mem hg) _ List.mem_cons_self

/-- What is said of fields, and kept by each that is inserted, is said of the object made of
them. -/
theorem ofFields_induction {P : List (String × Value) → Prop} (hnil : P [])
    (hinsert : ∀ f ∈ fields, ∀ m, P m → P (insertField f.1 f.2 m)) :
    ∃ m, ofFields fields = .object m ∧ P m := by
  refine ⟨_, rfl, ?_⟩
  induction fields using List.reverseRecOn with
  | nil => exact hnil
  | append_singleton fields f ih =>
      rw [List.foldl_append]
      exact hinsert f (List.mem_append_right _ List.mem_cons_self) _
        (ih fun g hg => hinsert g (List.mem_append_left _ hg))

end Value

namespace Json

/-! ### Texts -/

/-- Space between the tokens. -/
def Blank (w : List Char) : Prop := ∀ c ∈ w, c = ' ' ∨ c = '\t' ∨ c = '\n' ∨ c = '\r'

/-- A hexadecimal digit, in either case. -/
def hexValue (c : Char) : Option Nat :=
  if '0' ≤ c ∧ c ≤ '9' then some (c.toNat - 0x30)
  else if 'a' ≤ c ∧ c ≤ 'f' then some (c.toNat - 0x57)
  else if 'A' ≤ c ∧ c ≤ 'F' then some (c.toNat - 0x37)
  else none

/-- Four hexadecimal digits. -/
def HexCode (ds : List Char) (n : Nat) : Prop :=
  ∃ ns, ds.mapM hexValue = some ns ∧ ns.length = 4 ∧ n = ns.foldl (fun n d => 16 * n + d) 0

/-- The escapes of one character. -/
def shortEscapes : List (Char × Char) :=
  [('"', '"'), ('\\', '\\'), ('/', '/'), ('b', '\x08'), ('f', '\x0c'), ('n', '\n'), ('r', '\r'),
    ('t', '\t')]

/-- What stands between the quotes of a string, and the string. -/
inductive Chars : List Char → List Char → Prop where
  | nil : Chars [] []
  | plain {c : Char} {t s : List Char} (hq : c ≠ '"') (hb : c ≠ '\\') (hc : 0x20 ≤ c.toNat)
      (rest : Chars t s) : Chars (c :: t) (c :: s)
  | short {e c : Char} {t s : List Char} (h : (e, c) ∈ shortEscapes) (rest : Chars t s) :
      Chars ('\\' :: e :: t) (c :: s)
  | code {ds t s : List Char} {n : Nat} (h : HexCode ds n) (hn : n < 0xD800 ∨ 0xE000 ≤ n)
      (rest : Chars t s) : Chars ('\\' :: 'u' :: (ds ++ t)) (Char.ofNat n :: s)
  | pair {ds es t s : List Char} {m n : Nat} (hm : HexCode ds m) (hn : HexCode es n)
      (hhigh : 0xD800 ≤ m ∧ m < 0xDC00) (hlow : 0xDC00 ≤ n ∧ n < 0xE000) (rest : Chars t s) :
      Chars ('\\' :: 'u' :: (ds ++ '\\' :: 'u' :: (es ++ t)))
        (Char.ofNat (0x10000 + 0x400 * (m - 0xD800) + (n - 0xDC00)) :: s)

/-- A string literal. -/
def Literal (t : List Char) (s : String) : Prop :=
  ∃ cs, t = '"' :: (cs ++ ['"']) ∧ Chars cs s.toList

variable (numeral : List Char → Number → Prop)

mutual

/-- A text of a value, with arrays and objects nested so deep at most. -/
inductive Reads : Nat → List Char → Value → Prop where
  | null {n : Nat} : Reads n "null".toList .null
  | true {n : Nat} : Reads n "true".toList (.bool true)
  | false {n : Nat} : Reads n "false".toList (.bool false)
  | number {n : Nat} {t : List Char} {m : Number} (h : numeral t m) : Reads n t (.number m)
  | string {n : Nat} {t : List Char} {s : String} (h : Literal t s) : Reads n t (.string s)
  | empty {n : Nat} {w : List Char} (hw : Blank w) : Reads (n + 1) ('[' :: (w ++ [']'])) (.array [])
  | array {n : Nat} {t : List Char} {xs : List Value} (h : ReadsItems n t xs) :
      Reads (n + 1) ('[' :: (t ++ [']'])) (.array xs)
  | emptyObject {n : Nat} {w : List Char} (hw : Blank w) :
      Reads (n + 1) ('\x7b' :: (w ++ ['\x7d'])) (.object [])
  | object {n : Nat} {t : List Char} {fields : List (String × Value)} (h : ReadsFields n t fields) :
      Reads (n + 1) ('\x7b' :: (t ++ ['\x7d'])) (.ofFields fields)

/-- The items of an array, of which there are some. -/
inductive ReadsItems : Nat → List Char → List Value → Prop where
  | last {n : Nat} {w t w' : List Char} {v : Value} (hw : Blank w) (h : Reads n t v)
      (hw' : Blank w') : ReadsItems n (w ++ (t ++ w')) [v]
  | more {n : Nat} {w t w' ts : List Char} {v : Value} {vs : List Value} (hw : Blank w)
      (h : Reads n t v) (hw' : Blank w') (hs : ReadsItems n ts vs) :
      ReadsItems n (w ++ (t ++ (w' ++ ',' :: ts))) (v :: vs)

/-- The fields of an object, of which there are some. -/
inductive ReadsFields : Nat → List Char → List (String × Value) → Prop where
  | last {n : Nat} {w k w₁ w₂ t w' : List Char} {key : String} {v : Value} (hw : Blank w)
      (hk : Literal k key) (hw₁ : Blank w₁) (hw₂ : Blank w₂) (h : Reads n t v) (hw' : Blank w') :
      ReadsFields n (w ++ (k ++ (w₁ ++ ':' :: (w₂ ++ (t ++ w'))))) [(key, v)]
  | more {n : Nat} {w k w₁ w₂ t w' ts : List Char} {key : String} {v : Value}
      {fields : List (String × Value)} (hw : Blank w) (hk : Literal k key) (hw₁ : Blank w₁)
      (hw₂ : Blank w₂) (h : Reads n t v) (hw' : Blank w') (hs : ReadsFields n ts fields) :
      ReadsFields n (w ++ (k ++ (w₁ ++ ':' :: (w₂ ++ (t ++ (w' ++ ',' :: ts))))))
        ((key, v) :: fields)

end

/-- A whole text, with space around the value. -/
def ReadsText (limit : Nat) (text : List Char) (v : Value) : Prop :=
  ∃ w t w', text = w ++ (t ++ w') ∧ Blank w ∧ Reads numeral limit t v ∧ Blank w'

/-- A value that a text can be read as: its objects are in key order, and its numbers are those of
numerals. -/
inductive Kept : Value → Prop where
  | null : Kept .null
  | bool (b : Bool) : Kept (.bool b)
  | number {t : List Char} {m : Number} (h : numeral t m) : Kept (.number m)
  | string (s : String) : Kept (.string s)
  | array {xs : List Value} (h : ∀ x ∈ xs, Kept x) : Kept (.array xs)
  | object {fields : List (String × Value)} (order : Value.InOrder fields)
      (h : ∀ f ∈ fields, Kept f.2) : Kept (.object fields)

variable {numeral} {n : Nat} {t : List Char} {v : Value}

/-- What is said of a value by its parts is said of all that are read. -/
theorem Reads.induction {P : Nat → Value → Prop} (h : Reads numeral n t v)
    (hnull : ∀ n, P n .null) (hbool : ∀ n b, P n (.bool b))
    (hnumber : ∀ n t m, numeral t m → P n (.number m)) (hstring : ∀ n s, P n (.string s))
    (harray : ∀ n xs, (∀ x ∈ xs, P n x) → P (n + 1) (.array xs))
    (hobject : ∀ n fields, (∀ f ∈ fields, P n f.2) → P (n + 1) (.ofFields fields)) : P n v := by
  refine @Reads.rec numeral (fun n _ v _ => P n v) (fun n _ xs _ => ∀ x ∈ xs, P n x)
    (fun n _ fields _ => ∀ f ∈ fields, P n f.2) ?null ?true ?false ?number ?string ?empty ?array
    ?emptyObject ?object ?last ?more ?lastField ?moreFields n t v h
  case null => exact hnull _
  case true => exact hbool _ _
  case false => exact hbool _ _
  case number => exact fun hm => hnumber _ _ _ hm
  case string => exact fun _ => hstring _ _
  case empty => exact fun _ => harray _ [] nofun
  case array => exact fun _ ih => harray _ _ ih
  case emptyObject => exact fun _ => hobject _ [] nofun
  case object => exact fun _ ih => hobject _ _ ih
  case last => exact fun _ _ _ ih x hx => List.mem_singleton.mp hx ▸ ih
  case more => exact fun _ _ _ _ ih ihs => List.forall_mem_cons.mpr ⟨ih, ihs⟩
  case lastField => exact fun _ _ _ _ _ _ ih f hf => List.mem_singleton.mp hf ▸ ih
  case moreFields => exact fun _ _ _ _ _ _ _ ih ihs => List.forall_mem_cons.mpr ⟨ih, ihs⟩

/-- **What is read is nested no deeper than allowed.** -/
theorem Reads.depth_le (h : Reads numeral n t v) : v.depth ≤ n := by
  refine Reads.induction (P := fun n v => v.depth ≤ n) h (fun n => Nat.zero_le n)
    (fun n _ => Nat.zero_le n) (fun n _ _ _ => Nat.zero_le n) (fun n _ => Nat.zero_le n)
    (fun n xs ih => Nat.succ_le_succ (Value.depthItems_le.mpr ih)) fun n fields ih => ?_
  obtain ⟨m, hm, hdepth⟩ := Value.ofFields_induction (P := fun m => ∀ f ∈ m, f.2.depth ≤ n)
    nofun fun f hf m hm g hg => by
      rcases Value.mem_of_mem_insertField hg with rfl | hg
      · exact ih f hf
      · exact hm g hg
  rw [hm]
  exact Nat.succ_le_succ (Value.depthFields_le.mpr hdepth)

/-- **What is read is a value that JSON keeps.** -/
theorem Reads.kept (h : Reads numeral n t v) : Kept numeral v := by
  refine Reads.induction (P := fun _ v => Kept numeral v) h (fun _ => .null) (fun _ b => .bool b)
    (fun _ _ _ hm => .number hm) (fun _ s => .string s) (fun _ _ ih => .array ih)
    fun _ fields ih => ?_
  obtain ⟨m, hm, horder, hkept⟩ := Value.ofFields_induction
    (P := fun m => Value.InOrder m ∧ ∀ f ∈ m, Kept numeral f.2) ⟨.nil, nofun⟩
    fun f hf m hm => ⟨hm.1.insertField f.1 f.2, fun g hg => by
      rcases Value.mem_of_mem_insertField hg with rfl | hg
      · exact ih f hf
      · exact hm.2 g hg⟩
  rw [hm]
  exact .object horder hkept

/-! ### Strings -/

theorem hexValue_hexDigit {n : Nat} (h : n < 16) : hexValue (hexDigit n) = some n := by
  have hall : ∀ n : Fin 16, hexValue (hexDigit n) = some n.val := by decide
  exact hall ⟨n, h⟩

/-- An escaped character is read back. -/
theorem Chars.escapeChar (c : Char) {t s : List Char} (rest : Chars t s) :
    Chars (escapeChar c ++ t) (c :: s) := by
  unfold Json.escapeChar
  split_ifs with hq hb hbs hff hn hr ht hctl
  · subst hq
    exact .short (by decide) rest
  · subst hb
    exact .short (by decide) rest
  · have hc : c = '\x08' := Char.toNat_inj.mp hbs
    exact hc ▸ .short (by decide) rest
  · have hc : c = '\x0c' := Char.toNat_inj.mp hff
    exact hc ▸ .short (by decide) rest
  · exact hn ▸ .short (by decide) rest
  · exact hr ▸ .short (by decide) rest
  · exact ht ▸ .short (by decide) rest
  · have hcode : HexCode ['0', '0', hexDigit (c.toNat / 16), hexDigit (c.toNat % 16)] c.toNat := by
      refine ⟨[0, 0, c.toNat / 16, c.toNat % 16], ?_, rfl, ?_⟩
      · simp only [List.mapM_cons, List.mapM_nil, hexValue_hexDigit (n := c.toNat / 16) (by omega),
          hexValue_hexDigit (n := c.toNat % 16) (by omega)]
        rfl
      · simp only [List.foldl_cons, List.foldl_nil]
        omega
    have hread := Chars.code hcode (.inl (by omega)) rest
    rwa [Char.ofNat_toNat] at hread
  · exact .plain hq hb (Nat.le_of_not_lt hctl) rest

/-- **A string that is printed is read back.** -/
theorem literal_renderStr (s : String) : Literal (renderStr s) s := by
  refine ⟨s.toList.flatMap escapeChar, rfl, ?_⟩
  induction s.toList with
  | nil => exact .nil
  | cons c cs ih => exact .escapeChar c ih

end Json

end RevBox
