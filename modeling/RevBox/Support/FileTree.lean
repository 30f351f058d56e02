import Mathlib.Algebra.GroupWithZero.Nat
import Mathlib.Data.List.Basic
import Mathlib.Data.List.Nodup
import Mathlib.Data.List.Infix
import Mathlib.Algebra.Order.BigOperators.Group.List
import Mathlib.Algebra.Order.Group.Nat

/-!
# Support — FileTree

A tree of directories, files and symbolic links, as the finite list of its entries by path.  A
`Tree` carries what makes it one: every path occurs once, the root is a directory, every other
entry lies in a directory, names are names, and no two directories have one identity.

* `get_insert`, `get_erase`, `get_move`, `get_setAttr`: what each change leaves where.
* `isDir_of_below`, `get_eq_none_of_below`: a directory is over every entry, and nothing is below
  what is not there.
-/

namespace FileTree

/-- The name of an entry in its directory. -/
abbrev Name := List Char

/-- The names on the way from the root. -/
abbrev Path := List Name

/-- What a name may be. -/
def ValidName (n : Name) : Prop :=
  n ≠ [] ∧ n ≠ ['.'] ∧ n ≠ ['.', '.'] ∧ '/' ∉ n ∧ '\x00' ∉ n

instance (n : Name) : Decidable (ValidName n) := inferInstanceAs (Decidable (_ ∧ _))

/-- What an entry is: a directory of some identity, a file, or a link to what its text names. -/
inductive Node where
  | dir (id : Nat)
  | file
  | link (target : List Char)
  deriving DecidableEq, Repr

def Node.dirId? : Node → Option Nat
  | .dir id => some id
  | _ => none

def Node.isDir (n : Node) : Bool := n.dirId?.isSome

def Node.isLink : Node → Bool
  | .link _ => true
  | _ => false

/-- An entry and its attributes. -/
structure Entry (α : Type) where
  node : Node
  attr : α
  deriving DecidableEq

variable {α : Type}

/-- The entry at a path of a list of entries. -/
def find : List (Path × Entry α) → Path → Option (Entry α)
  | [], _ => none
  | (q, e) :: l, p => if q = p then some e else find l p

/-- Whether a directory is at a path. -/
def dirAt (l : List (Path × Entry α)) (p : Path) : Bool := (find l p).any fun e => e.node.isDir

/-- A tree of entries. -/
structure Tree (α : Type) where
  entries : List (Path × Entry α)
  unique : (entries.map Prod.fst).Nodup
  rooted : dirAt entries [] = true
  closed : ∀ x ∈ entries, x.1 ≠ [] → dirAt entries x.1.dropLast = true
  named : ∀ x ∈ entries, ∀ n ∈ x.1, ValidName n
  ids : (entries.filterMap fun x => x.2.node.dirId?).Nodup

/-! ### Lists of entries -/

section Find

variable {l l' : List (Path × Entry α)} {p r s : Path} {e : Entry α}

theorem mem_of_find (h : find l p = some e) : (p, e) ∈ l := by
  induction l with
  | nil => cases h
  | cons x l ih =>
      rw [find] at h
      split at h
      · rename_i hx
        rw [← hx, ← Option.some.inj h]
        exact List.mem_cons_self
      · exact List.mem_cons_of_mem _ (ih h)

theorem find_ne_none (h : (p, e) ∈ l) : find l p ≠ none := by
  induction l with
  | nil => cases h
  | cons x l ih =>
      rw [find]
      split
      · simp
      · rename_i hx
        refine ih ((List.mem_cons.mp h).resolve_left fun hxe => hx ?_)
        rw [← hxe]

theorem find_append : find (l ++ l') p = (find l p).or (find l' p) := by
  induction l with
  | nil => rfl
  | cons x l ih =>
      rw [List.cons_append, find, find]
      split
      · rfl
      · exact ih

theorem find_filter (P : Path → Bool) :
    find (l.filter fun x => P x.1) p = if P p then find l p else none := by
  induction l with
  | nil => simp [find]
  | cons x l ih =>
      obtain ⟨q, e⟩ := x
      by_cases hq : q = p
      · subst hq
        by_cases hP : P q = true
        · simp [hP, find]
        · simpa [hP] using ih
      · by_cases hP : P q = true
        · simpa [hP, hq, find] using ih
        · simpa [hP, hq, find] using ih

/-- The entries under new paths: where exactly `s` becomes `r`. -/
theorem find_map {f : Path → Path} (h : ∀ x ∈ l, f x.1 = r ↔ x.1 = s) :
    find (l.map fun x => (f x.1, x.2)) r = find l s := by
  induction l with
  | nil => rfl
  | cons x l ih =>
      have hx := h x List.mem_cons_self
      rw [List.map_cons, find, find, ih fun y hy => h y (List.mem_cons_of_mem _ hy)]
      simp only [hx]

/-- The entries under new paths: nothing becomes `r`. -/
theorem find_map_none {f : Path → Path} (h : ∀ x ∈ l, f x.1 ≠ r) :
    find (l.map fun x => (f x.1, x.2)) r = none := by
  induction l with
  | nil => rfl
  | cons x l ih =>
      rw [List.map_cons, find, if_neg (h x List.mem_cons_self)]
      exact ih fun y hy => h y (List.mem_cons_of_mem _ hy)

/-- New entries under the same paths. -/
theorem find_mapEntry (f : Path → Entry α → Entry α) :
    find (l.map fun x => (x.1, f x.1 x.2)) p = (find l p).map (f p) := by
  induction l with
  | nil => rfl
  | cons x l ih =>
      rw [List.map_cons, find, find, ih]
      split
      · rename_i hx
        rw [hx]
        rfl
      · rfl

end Find

namespace Tree

variable (t : Tree α) {p q r : Path} {e : Entry α} {n : Name}

/-- The entry at a path. -/
def get (p : Path) : Option (Entry α) := find t.entries p

/-- What is at a path. -/
def node? (p : Path) : Option Node := (t.get p).map Entry.node

/-- Whether a directory is at a path. -/
def isDir (p : Path) : Bool := dirAt t.entries p

/-- The names in a directory. -/
def names (p : Path) : List Name :=
  t.entries.filterMap fun x => if x.1 ≠ [] ∧ x.1.dropLast = p then x.1.getLast? else none

/-- The entries at and below a path. -/
def below (p : Path) : List (Path × Entry α) := t.entries.filter fun x => p.isPrefixOf x.1

/-- A tree in which no entry is a link. -/
def LinkFree : Prop := ∀ x ∈ t.entries, x.2.node.isLink = false

instance : Decidable t.LinkFree := inferInstanceAs (Decidable (∀ x ∈ t.entries, _))

variable {t}

theorem isDir_eq : t.isDir p = (t.node? p).any Node.isDir := by
  unfold isDir dirAt node? get
  cases find t.entries p <;> rfl

theorem isDir_iff : t.isDir p = true ↔ ∃ e, t.get p = some e ∧ e.node.isDir = true :=
  Option.any_eq_true _ _

theorem isDir_root : t.isDir [] = true := t.rooted

theorem validName_of_get (h : t.get p = some e) : ∀ n ∈ p, ValidName n :=
  t.named _ (mem_of_find h)

theorem isDir_parent (h : t.get (p ++ [n]) ≠ none) : t.isDir p = true := by
  obtain ⟨e, he⟩ := Option.ne_none_iff_exists'.mp h
  have := t.closed _ (mem_of_find he) (by simp)
  rwa [List.dropLast_concat] at this

/-- Over every entry is a directory. -/
theorem isDir_of_below (h : t.get (p ++ r) ≠ none) (hr : r ≠ []) : t.isDir p = true := by
  induction r using List.reverseRecOn with
  | nil => exact absurd rfl hr
  | append_singleton r n ih =>
      have hpar : t.isDir (p ++ r) = true := isDir_parent (n := n) (by rwa [List.append_assoc])
      by_cases hnil : r = []
      · rwa [hnil, List.append_nil] at hpar
      · obtain ⟨e, he, -⟩ := isDir_iff.mp hpar
        exact ih (by simp [he]) hnil

/-- Nothing is below what is not there. -/
theorem get_eq_none_of_below (h : t.get p = none) (hp : p <+: r) : t.get r = none := by
  obtain ⟨s, rfl⟩ := hp
  by_contra hne
  by_cases hs : s = []
  · subst hs
    exact hne (by rwa [List.append_nil])
  · obtain ⟨e, he, -⟩ := isDir_iff.mp (isDir_of_below hne hs)
    exact absurd (h ▸ he) (by simp)

theorem node?_eq_some {d : Node} : t.node? p = some d ↔ ∃ e, t.get p = some e ∧ e.node = d :=
  Option.map_eq_some_iff

/-! ### Taking a subtree away -/

theorem dirAt_of_find_eq {l l' : List (Path × Entry α)} (h : find l' p = find l p) :
    dirAt l' p = dirAt l p := by
  rw [dirAt, h]
  rfl

theorem find_erase (q : Path) :
    find (t.entries.filter fun x => !q.isPrefixOf x.1) p = if q <+: p then none else t.get p := by
  rw [find_filter fun p => !q.isPrefixOf p]
  by_cases h : q <+: p
  · rw [if_pos h, List.isPrefixOf_iff_prefix.mpr h]
    rfl
  · have hf : q.isPrefixOf p = false :=
      eq_false_of_ne_true fun ht => h (List.isPrefixOf_iff_prefix.mp ht)
    rw [if_neg h, hf]
    rfl

/-- The tree without an entry and what is below it. -/
def erase (t : Tree α) (q : Path) (hq : q ≠ []) : Tree α where
  entries := t.entries.filter fun x => !q.isPrefixOf x.1
  unique := t.unique.sublist (List.filter_sublist.map _)
  rooted := by
    rw [dirAt_of_find_eq (l := t.entries) ((find_erase q).trans (if_neg ?_))]
    · exact t.rooted
    · rwa [List.prefix_nil]
  closed := by
    intro x hx hne
    obtain ⟨hx, hq'⟩ := List.mem_filter.mp hx
    rw [dirAt_of_find_eq (l := t.entries) ((find_erase q).trans (if_neg fun h => ?_))]
    · exact t.closed x hx hne
    · have := List.isPrefixOf_iff_prefix.mpr (h.trans (List.dropLast_prefix x.1))
      rw [this] at hq'
      cases hq'
  named := fun x hx => t.named x (List.mem_of_mem_filter hx)
  ids := t.ids.sublist (List.filter_sublist.filterMap _)

theorem get_erase {hq : q ≠ []} : (t.erase q hq).get p = if q <+: p then none else t.get p :=
  find_erase q

/-! ### Another attribute -/

/-- The entry with another attribute, if it is at `q`. -/
def reattr (q : Path) (f : α → α) (p : Path) (e : Entry α) : Entry α :=
  if p = q then { e with attr := f e.attr } else e

theorem reattr_node (q : Path) (f : α → α) (p : Path) (e : Entry α) :
    (reattr q f p e).node = e.node := by
  unfold reattr
  split <;> rfl

theorem dirAt_reattr (q : Path) (f : α → α) :
    dirAt (t.entries.map fun x => (x.1, reattr q f x.1 x.2)) p = dirAt t.entries p := by
  unfold dirAt
  rw [find_mapEntry (reattr q f), Option.any_map]
  congr 1
  funext e
  exact congrArg Node.isDir (reattr_node q f p e)

/-- The tree with the attribute at `q` changed. -/
def setAttr (t : Tree α) (q : Path) (f : α → α) : Tree α where
  entries := t.entries.map fun x => (x.1, reattr q f x.1 x.2)
  unique := by
    rw [List.map_map]
    exact t.unique
  rooted := (dirAt_reattr q f).trans t.rooted
  closed := by
    intro x hx hne
    obtain ⟨y, hy, rfl⟩ := List.mem_map.mp hx
    exact (dirAt_reattr q f).trans (t.closed y hy hne)
  named := by
    intro x hx
    obtain ⟨y, hy, rfl⟩ := List.mem_map.mp hx
    exact t.named y hy
  ids := by
    have hid : ((fun x => x.2.node.dirId?) ∘ fun x : Path × Entry α =>
        (x.1, reattr q f x.1 x.2)) = fun x => x.2.node.dirId? := by
      funext x
      exact congrArg Node.dirId? (reattr_node q f x.1 x.2)
    rw [List.filterMap_map, hid]
    exact t.ids

theorem get_setAttr {f : α → α} : (t.setAttr q f).get p = (t.get p).map (reattr q f p) :=
  find_mapEntry (reattr q f)

theorem get_setAttr_same {f : α → α} (h : t.get q = some e) :
    (t.setAttr q f).get q = some { e with attr := f e.attr } := by
  rw [get_setAttr, h, Option.map_some, reattr, if_pos rfl]

theorem get_setAttr_ne {f : α → α} (h : p ≠ q) : (t.setAttr q f).get p = t.get p := by
  have hid : reattr q f p = id := by
    funext e
    exact if_neg h
  rw [get_setAttr, hid, Option.map_id, id]

theorem node?_setAttr {f : α → α} : (t.setAttr q f).node? p = t.node? p := by
  unfold node?
  rw [get_setAttr, Option.map_map]
  congr 1
  funext e
  exact reattr_node q f p e

/-! ### A new directory -/

/-- An identity that no directory has. -/
def freshId (t : Tree α) : Nat := (t.entries.filterMap fun x => x.2.node.dirId?).sum + 1

theorem freshId_not_mem : t.freshId ∉ t.entries.filterMap fun x => x.2.node.dirId? := fun h =>
  absurd (List.le_sum_of_mem h) (Nat.not_succ_le_self _)

theorem dirAt_append {l l' : List (Path × Entry α)} (h : dirAt l p = true) :
    dirAt (l ++ l') p = true := by
  unfold dirAt at h ⊢
  obtain ⟨e, he, hd⟩ := (Option.any_eq_true _ _).mp h
  rw [find_append, he]
  exact hd

/-- The tree with a new directory. -/
def insert (t : Tree α) (q : Path) (a : α) (hfree : t.get q = none)
    (hpar : t.isDir q.dropLast = true) (hnames : ∀ n ∈ q, ValidName n) : Tree α where
  entries := t.entries ++ [(q, ⟨.dir t.freshId, a⟩)]
  unique := by
    rw [List.map_append, List.nodup_append]
    refine ⟨t.unique, List.nodup_singleton _, fun p hp r hr heq => ?_⟩
    obtain ⟨x, hx, rfl⟩ := List.mem_map.mp hp
    obtain rfl := List.mem_singleton.mp hr
    exact find_ne_none hx (heq ▸ hfree)
  rooted := dirAt_append t.rooted
  closed := by
    intro x hx hne
    rcases List.mem_append.mp hx with hx | hx
    · exact dirAt_append (t.closed x hx hne)
    · obtain rfl := List.mem_singleton.mp hx
      exact dirAt_append hpar
  named := by
    intro x hx
    rcases List.mem_append.mp hx with hx | hx
    · exact t.named x hx
    · obtain rfl := List.mem_singleton.mp hx
      exact hnames
  ids := by
    rw [List.filterMap_append, List.nodup_append]
    refine ⟨t.ids, List.nodup_singleton _, fun i hi j hj heq => ?_⟩
    obtain rfl := List.mem_singleton.mp hj
    exact freshId_not_mem (heq ▸ hi)

theorem get_insert {a : α} {hfree : t.get q = none} {hpar : t.isDir q.dropLast = true}
    {hnames : ∀ n ∈ q, ValidName n} : (t.insert q a hfree hpar hnames).get p =
      if q = p then some ⟨.dir t.freshId, a⟩ else t.get p := by
  refine (find_append (l := t.entries)).trans ?_
  by_cases h : q = p
  · subst h
    rw [show find t.entries q = none from hfree, if_pos rfl]
    simp [find]
  · rw [if_neg h]
    simp [find, h, get]

/-! ### A subtree under a new path -/

/-- The path of what is at `r` once `p` has become `q`. -/
def rebase (p q r : Path) : Path := if p.isPrefixOf r then q ++ r.drop p.length else r

theorem rebase_append (p q s : Path) : rebase p q (p ++ s) = q ++ s := by
  rw [rebase, if_pos (List.isPrefixOf_iff_prefix.mpr (List.prefix_append p s)), List.drop_left]

theorem rebase_of_not (h : ¬ p <+: r) : rebase p q r = r :=
  if_neg fun ht => h (List.isPrefixOf_iff_prefix.mp ht)

/-- A path that is not below the new place is there once at most. -/
theorem rebase_inj {s : Path} (hr : ¬ q <+: r) (hs : ¬ q <+: s)
    (h : rebase p q r = rebase p q s) : r = s := by
  by_cases hpr : p <+: r
  · obtain ⟨r, rfl⟩ := hpr
    rw [rebase_append] at h
    by_cases hps : p <+: s
    · obtain ⟨s, rfl⟩ := hps
      rw [rebase_append] at h
      rw [List.append_cancel_left h]
    · rw [rebase_of_not hps] at h
      exact absurd (h ▸ List.prefix_append q r) hs
  · rw [rebase_of_not hpr] at h
    by_cases hps : p <+: s
    · obtain ⟨s, rfl⟩ := hps
      rw [rebase_append] at h
      exact absurd (h ▸ List.prefix_append q s) hr
    · rwa [rebase_of_not hps] at h

theorem not_below_of_free (hfree : t.get q = none) {x : Path × Entry α} (hx : x ∈ t.entries) :
    ¬ q <+: x.1 := fun h =>
  find_ne_none hx (get_eq_none_of_below hfree h)

/-- What is at and below the new place was at and below the old one. -/
theorem find_rebase_below (hfree : t.get q = none) (s : Path) :
    find (t.entries.map fun x => (rebase p q x.1, x.2)) (q ++ s) = t.get (p ++ s) := by
  refine find_map fun x hx => ⟨fun h => ?_, fun h => by rw [h, rebase_append]⟩
  by_cases hp : p <+: x.1
  · obtain ⟨r, hr⟩ := hp
    rw [← hr, rebase_append] at h
    rw [← hr, List.append_cancel_left h]
  · rw [rebase_of_not hp] at h
    exact absurd (h ▸ List.prefix_append q s) (not_below_of_free hfree hx)

/-- Nothing is left at and below the old place. -/
theorem find_rebase_old (hp : p <+: r) (hq : ¬ q <+: r) :
    find (t.entries.map fun x => (rebase p q x.1, x.2)) r = none := by
  refine find_map_none fun x _ h => ?_
  by_cases hx : p <+: x.1
  · obtain ⟨s, hs⟩ := hx
    rw [← hs, rebase_append] at h
    exact hq (h ▸ List.prefix_append q s)
  · rw [rebase_of_not hx] at h
    exact hx (h ▸ hp)

/-- What is elsewhere stays. -/
theorem find_rebase_else (hp : ¬ p <+: r) (hq : ¬ q <+: r) :
    find (t.entries.map fun x => (rebase p q x.1, x.2)) r = t.get r := by
  refine find_map fun x _ => ⟨fun h => ?_, fun h => by rw [h, rebase_of_not hp]⟩
  by_cases hx : p <+: x.1
  · obtain ⟨s, hs⟩ := hx
    rw [← hs, rebase_append] at h
    exact absurd (h ▸ List.prefix_append q s) hq
  · rwa [rebase_of_not hx] at h

/-- The tree with the entry at `p`, and what is below it, at `q`. -/
def move (t : Tree α) (p q : Path) (hp : p ≠ []) (hq : q ≠ []) (hfree : t.get q = none)
    (hpar : t.isDir q.dropLast = true) (hnames : ∀ n ∈ q, ValidName n) (hout : ¬ p <+: q) :
    Tree α where
  entries := t.entries.map fun x => (rebase p q x.1, x.2)
  unique := by
    have hkeys : (t.entries.map fun x => (rebase p q x.1, x.2)).map Prod.fst =
        (t.entries.map Prod.fst).map (rebase p q) := by
      rw [List.map_map, List.map_map]
      rfl
    rw [hkeys]
    refine t.unique.map_on fun r hr s hs h => ?_
    obtain ⟨x, hx, rfl⟩ := List.mem_map.mp hr
    obtain ⟨y, hy, rfl⟩ := List.mem_map.mp hs
    exact rebase_inj (not_below_of_free hfree hx) (not_below_of_free hfree hy) h
  rooted := by
    rw [dirAt_of_find_eq (l := t.entries) (find_rebase_else ?_ ?_)]
    · exact t.rooted
    · rwa [List.prefix_nil]
    · rwa [List.prefix_nil]
  closed := by
    intro x hx hne
    obtain ⟨y, hy, rfl⟩ := List.mem_map.mp hx
    have hfreeDir : ¬ q <+: q.dropLast := fun h => by
      have hle := h.length_le
      have hpos := List.length_pos_iff.mpr hq
      rw [List.length_dropLast] at hle
      omega
    by_cases hpy : p <+: y.1
    · obtain ⟨s, hs⟩ := hpy
      simp only [← hs, rebase_append]
      rcases List.eq_nil_or_concat' s with rfl | ⟨s, n, rfl⟩
      · rw [List.append_nil, dirAt_of_find_eq (l := t.entries) (find_rebase_else ?_ hfreeDir)]
        · exact hpar
        · exact fun h => hout (h.trans (List.dropLast_prefix q))
      · rw [← List.append_assoc, List.dropLast_concat]
        have hdir := t.closed y hy (by rw [← hs]; simp)
        rw [← hs, ← List.append_assoc, List.dropLast_concat] at hdir
        unfold dirAt
        rw [find_rebase_below hfree]
        exact hdir
    · simp only [rebase_of_not hpy] at hne ⊢
      have hqy := not_below_of_free hfree hy
      rw [dirAt_of_find_eq (l := t.entries) (find_rebase_else
        (fun h => hpy (h.trans (List.dropLast_prefix _)))
        fun h => hqy (h.trans (List.dropLast_prefix _)))]
      exact t.closed y hy hne
  named := by
    intro x hx n hn
    obtain ⟨y, hy, rfl⟩ := List.mem_map.mp hx
    by_cases hpy : p <+: y.1
    · obtain ⟨s, hs⟩ := hpy
      simp only [← hs, rebase_append] at hn
      rcases List.mem_append.mp hn with hn | hn
      · exact hnames n hn
      · exact t.named y hy n (hs ▸ List.mem_append_right p hn)
    · simp only [rebase_of_not hpy] at hn
      exact t.named y hy n hn
  ids := by
    rw [List.filterMap_map]
    exact t.ids

section Move

variable {hp : p ≠ []} {hq : q ≠ []} {hfree : t.get q = none} {hpar : t.isDir q.dropLast = true}
  {hnames : ∀ n ∈ q, ValidName n} {hout : ¬ p <+: q}

theorem get_move_below (s : Path) :
    (t.move p q hp hq hfree hpar hnames hout).get (q ++ s) = t.get (p ++ s) :=
  find_rebase_below hfree s

theorem get_move_old (h : p <+: r) (hqr : ¬ q <+: r) :
    (t.move p q hp hq hfree hpar hnames hout).get r = none :=
  find_rebase_old h hqr

theorem get_move_else (h : ¬ p <+: r) (hqr : ¬ q <+: r) :
    (t.move p q hp hq hfree hpar hnames hout).get r = t.get r :=
  find_rebase_else h hqr

end Move

end Tree

end FileTree
