import Mathlib.Data.List.Destutter
import Mathlib.Data.List.Nodup
import Mathlib.Order.Compare

/-!
# Support — Sorting

A stable sort by a comparison, which need be an order only on what is sorted, and the runs of equal
elements that are dropped after it.

* `StableSort.exists_of_total`: there is a stable sort.
* `nodup_dedup_iff`, `StableSort.parted_iff`: when no element is left twice.
-/

namespace Sorting

variable {α : Type} {cmp : α → α → Ordering} {l out : List α}

/-- The comparison is a total order, up to equal elements, on what is sorted. -/
structure TotalOn (cmp : α → α → Ordering) (l : List α) : Prop where
  swap : ∀ a ∈ l, ∀ b ∈ l, cmp b a = (cmp a b).swap
  trans : ∀ a ∈ l, ∀ b ∈ l, ∀ c ∈ l, cmp a b ≠ .gt → cmp b c ≠ .gt → cmp a c ≠ .gt

/-- The elements in order, equal ones as they stood. -/
structure StableSort (cmp : α → α → Ordering) (l out : List α) : Prop where
  perm : out.Perm l
  ordered : out.Pairwise fun a b => cmp a b ≠ .gt
  stable : ∀ a ∈ l, out.filter (fun b => cmp a b = .eq) = l.filter (fun b => cmp a b = .eq)

/-- The documented outcomes of a stable sort: all elements remain, and where the comparison is no
order, their order is not specified and the sort may panic. -/
def Outcome (cmp : α → α → Ordering) (l : List α) : Option (List α) → Prop
  | some out => out.Perm l ∧ (TotalOn cmp l → StableSort cmp l out)
  | none => ¬ TotalOn cmp l

theorem TotalOn.refl (h : TotalOn cmp l) {a : α} (ha : a ∈ l) : cmp a a = .eq := by
  have hswap := h.swap a ha a ha
  cases heq : cmp a a with
  | eq => rfl
  | lt | gt =>
      rw [heq] at hswap
      cases hswap

theorem TotalOn.eq_of_ne (h : TotalOn cmp l) {a b : α} (ha : a ∈ l) (hb : b ∈ l)
    (hab : cmp a b ≠ .gt) (hba : cmp b a ≠ .gt) : cmp a b = .eq := by
  rw [h.swap a ha b hb] at hba
  cases heq : cmp a b with
  | eq => rfl
  | lt =>
      rw [heq] at hba
      exact absurd rfl hba
  | gt => exact absurd heq hab

/-- Comparing by a key in an order is an order. -/
theorem totalOn_compare {κ : Type} [Ord κ] [Std.TransOrd κ] (key : α → κ) (l : List α) :
    TotalOn (fun a b => compare (key a) (key b)) l where
  swap _ _ _ _ := Std.OrientedCmp.eq_swap
  trans _ _ _ _ _ _ hab hbc := Ordering.ne_gt_iff_isLE.mpr <|
    Std.TransCmp.isLE_trans (Ordering.ne_gt_iff_isLE.mp hab) (Ordering.ne_gt_iff_isLE.mp hbc)

/-! ### There is a stable sort -/

/-- **There is a stable sort** of what the comparison orders. -/
theorem StableSort.exists_of_total (h : TotalOn cmp l) : ∃ out, StableSort cmp l out := by
  -- sorted as elements of the list, on which the comparison is an order
  let le : { a // a ∈ l } → { a // a ∈ l } → Bool := fun a b => cmp a b ≠ .gt
  have htrans : ∀ a b c, le a b → le b c → le a c := fun a b c hab hbc => by
    simp only [le, decide_eq_true_iff] at *
    exact h.trans a a.2 b b.2 c c.2 hab hbc
  have htotal : ∀ a b, le a b || le b a := fun a b => by
    simp only [le, Bool.or_eq_true, decide_eq_true_iff, h.swap a a.2 b b.2]
    cases cmp a b <;> simp
  let sorted := l.attach.mergeSort le
  have hperm : (sorted.map Subtype.val).Perm l := by
    have hmap := (List.mergeSort_perm l.attach le).map Subtype.val
    rwa [List.attach_map_subtype_val] at hmap
  refine ⟨sorted.map Subtype.val, hperm, ?_, fun a ha => ?_⟩
  · refine List.pairwise_map.mpr ((List.pairwise_mergeSort htrans htotal l.attach).imp ?_)
    exact fun hab => of_decide_eq_true hab
  · -- equal elements are in order as they stand, and so they stay
    have hclass : (l.attach.filter fun b => cmp a b.1 = .eq).Pairwise fun b c => le b c = true := by
      refine List.pairwise_of_forall_mem_list fun b hb c hc => ?_
      have hb' := of_decide_eq_true (List.mem_filter.mp hb).2
      have hc' := of_decide_eq_true (List.mem_filter.mp hc).2
      refine decide_eq_true (h.trans b b.2 a ha c c.2 ?_ ?_)
      · rw [h.swap a ha b b.2, hb']
        decide
      · rw [hc']
        decide
    have hkept := List.sublist_mergeSort htrans htotal hclass List.filter_sublist
    have hfilter := hkept.filter fun b => decide (cmp a b.1 = .eq)
    rw [List.filter_filter] at hfilter
    simp only [Bool.and_self] at hfilter
    have hlength := ((List.mergeSort_perm l.attach le).filter fun b => decide (cmp a b.1 = .eq))
      |>.length_eq
    have heq := hfilter.eq_of_length hlength.symm
    have hval (m : List { a // a ∈ l }) : (m.map Subtype.val).filter (fun b => cmp a b = .eq) =
        (m.filter fun b => cmp a b.1 = .eq).map Subtype.val := List.filter_map
    calc (sorted.map Subtype.val).filter (fun b => cmp a b = .eq)
        = (sorted.filter fun b => cmp a b.1 = .eq).map Subtype.val := hval sorted
      _ = (l.attach.filter fun b => cmp a b.1 = .eq).map Subtype.val := by rw [heq]
      _ = (l.attach.map Subtype.val).filter (fun b => cmp a b = .eq) := (hval l.attach).symm
      _ = l.filter fun b => cmp a b = .eq := by rw [List.attach_map_subtype_val]

/-- A sort by a comparison, none being a panic, with the documented outcomes. -/
def Documented (sortBy : (α → α → Ordering) → List α → Option (List α)) : Prop :=
  ∀ cmp l, Outcome cmp l (sortBy cmp l)

theorem exists_outcome (cmp : α → α → Ordering) (l : List α) : ∃ o, Outcome cmp l o := by
  by_cases h : TotalOn cmp l
  · obtain ⟨out, hout⟩ := StableSort.exists_of_total h
    exact ⟨some out, hout.perm, fun _ => hout⟩
  · exact ⟨none, h⟩

/-- Each documented outcome is that of a documented sort. -/
theorem Documented.exists_with {o : Option (List α)} (h : Outcome cmp l o) :
    ∃ sortBy, Documented sortBy ∧ sortBy cmp l = o := by
  classical
  refine ⟨fun cmp' l' => if cmp' = cmp ∧ l' = l then o else (exists_outcome cmp' l').choose,
    fun cmp' l' => ?_, if_pos ⟨rfl, rfl⟩⟩
  dsimp only
  split_ifs with hsame
  · rw [hsame.1, hsame.2]
    exact h
  · exact (exists_outcome cmp' l').choose_spec

theorem Documented.stableSort {sortBy : (α → α → Ordering) → List α → Option (List α)}
    (h : Documented sortBy) (htotal : TotalOn cmp l) :
    ∃ out, sortBy cmp l = some out ∧ StableSort cmp l out := by
  have hout := h cmp l
  cases heq : sortBy cmp l with
  | none =>
      rw [heq] at hout
      exact absurd htotal hout
  | some out =>
      rw [heq] at hout
      exact ⟨out, rfl, hout.2 htotal⟩

/-! ### Runs of equal elements -/

section Dedup

variable [DecidableEq α]

/-- `Vec::dedup`. -/
def dedup (l : List α) : List α := l.destutter (· ≠ ·)

theorem dedup_sublist (l : List α) : (dedup l).Sublist l := List.destutter_sublist _ l

/-- A part without equal neighbours is kept. -/
theorem sublist_destutter' : ∀ {l s : List α} {c : α}, s.Sublist l →
    (c :: s).IsChain (· ≠ ·) → (c :: s).Sublist (l.destutter' (· ≠ ·) c)
  | [], s, c, hs, _ => by
      rw [List.sublist_nil.mp hs, List.destutter'_nil]
  | b :: l, s, c, hs, hchain => by
      by_cases hcb : c = b
      · -- the run goes on, and nothing of the part stands in it
        subst hcb
        rw [List.destutter'_cons_neg _ (not_not_intro rfl)]
        refine sublist_destutter' ?_ hchain
        cases hs with
        | cons _ hs => exact hs
        | cons_cons _ hs => exact absurd rfl (List.isChain_cons_cons.mp hchain).1
      · rw [List.destutter'_cons_pos _ hcb]
        refine List.Sublist.cons_cons c ?_
        cases hs with
        | cons_cons _ hs => exact sublist_destutter' hs (List.isChain_cons.mp hchain).2
        | cons _ hs =>
            cases s with
            | nil => exact List.nil_sublist _
            | cons d s =>
                have htail := (List.isChain_cons_cons.mp hchain).2
                by_cases hbd : b = d
                · subst hbd
                  exact sublist_destutter' (List.sublist_of_cons_sublist hs) htail
                · have hlong := sublist_destutter' hs (List.isChain_cons_cons.mpr ⟨hbd, htail⟩)
                  exact List.sublist_of_cons_sublist hlong

theorem sublist_dedup {s : List α} (hs : s.Sublist l) (hchain : s.IsChain (· ≠ ·)) :
    s.Sublist (dedup l) := by
  cases l with
  | nil => rw [List.sublist_nil.mp hs]; exact List.nil_sublist _
  | cons c l =>
      rw [dedup, List.destutter_cons']
      cases hs with
      | cons_cons _ hs => exact sublist_destutter' hs hchain
      | cons _ hs =>
          cases s with
          | nil => exact List.nil_sublist _
          | cons d s =>
              by_cases hcd : c = d
              · subst hcd
                exact sublist_destutter' (List.sublist_of_cons_sublist hs) hchain
              · have hlong := sublist_destutter' hs (List.isChain_cons_cons.mpr ⟨hcd, hchain⟩)
                exact List.sublist_of_cons_sublist hlong

omit [DecidableEq α] in
/-- Between equal elements that are not neighbours stands another. -/
theorem exists_between {a : α} : ∀ {d : List α}, d.IsChain (· ≠ ·) → [a, a].Sublist d →
    ∃ b, b ≠ a ∧ [a, b, a].Sublist d
  | x :: d, hchain, h => by
      cases h with
      | cons _ h =>
          obtain ⟨b, hb, hsub⟩ := exists_between (List.isChain_cons.mp hchain).2 h
          exact ⟨b, hb, hsub.cons x⟩
      | cons_cons _ h =>
          have hmem : a ∈ d := List.singleton_sublist.mp h
          cases d with
          | nil => cases hmem
          | cons y d =>
              have hne : a ≠ y := (List.isChain_cons_cons.mp hchain).1
              refine ⟨y, hne.symm, ?_⟩
              have hmem' : a ∈ d := (List.mem_cons.mp hmem).resolve_left hne
              exact ((List.singleton_sublist.mpr hmem').cons_cons y).cons_cons a

/-- **Nothing is left twice** exactly if equal elements stand together. -/
theorem nodup_dedup_iff :
    (dedup l).Nodup ↔ ∀ a b, [a, b, a].Sublist l → b = a := by
  rw [List.nodup_iff_sublist]
  constructor
  · intro h a b hsub
    by_contra hne
    have hchain : [a, b, a].IsChain (· ≠ ·) := by
      simp [Ne.symm hne, hne]
    have hkept := sublist_dedup hsub hchain
    exact h a (((List.sublist_cons_self b [a]).cons_cons a).trans hkept)
  · intro h a htwice
    obtain ⟨b, hb, hsub⟩ := exists_between (List.isChain_destutter _ l) htwice
    exact hb (h a b (hsub.trans (dedup_sublist l)))

end Dedup

/-- **Equal elements stand together after a stable sort** exactly if nothing that compares equal
stood between them. -/
theorem StableSort.parted_iff (htotal : TotalOn cmp l) (h : StableSort cmp l out) :
    (∀ a b, [a, b, a].Sublist out → b = a) ↔
      ∀ a b, cmp a b = .eq → [a, b, a].Sublist l → b = a := by
  have hclass {a b : α} {m : List α} (ha : cmp a a = .eq) (hab : cmp a b = .eq)
      (hsub : [a, b, a].Sublist m) : [a, b, a].Sublist (m.filter fun c => cmp a c = .eq) := by
    have hfilter := hsub.filter fun c => decide (cmp a c = .eq)
    simpa [ha, hab] using hfilter
  constructor
  · intro hparted a b hab hsub
    have hmem : a ∈ l := hsub.subset List.mem_cons_self
    have hpart := hclass (htotal.refl hmem) hab hsub
    rw [← h.stable a hmem] at hpart
    exact hparted a b (hpart.trans List.filter_sublist)
  · intro hparted a b hsub
    have hmem : a ∈ l := h.perm.subset (hsub.subset List.mem_cons_self)
    have hmem' : b ∈ l := h.perm.subset (hsub.subset (by simp))
    have hordered := h.ordered.sublist hsub
    have hab : cmp a b = .eq := by
      refine htotal.eq_of_ne hmem hmem' ?_ ?_
      · exact (List.pairwise_cons.mp hordered).1 b List.mem_cons_self
      · have htail := (List.pairwise_cons.mp hordered).2
        exact (List.pairwise_cons.mp htail).1 a List.mem_cons_self
    have hpart := hclass (htotal.refl hmem) hab hsub
    rw [h.stable a hmem] at hpart
    exact hparted a b hab (hpart.trans List.filter_sublist)

end Sorting
