import Mathlib.Data.List.Basic
import Mathlib.Data.List.Nodup
import Mathlib.Data.List.Pairwise

/-!
# Support — Recency

Newest-first lists of stamped entries with distinct keys, and what a bounded store that keeps
the newest entries of a time window keeps of them.

* `sortNewest_eq`: sorting any arrangement of a newest-first list by decreasing stamp gives the
  list back, so the order in which a store enumerates its entries does not matter.
* `filter_take`: on a newest-first list, dropping what is too old and keeping the first `n`
  commute.
* `keep_window`, `keep_touch`: a store that holds the newest `n` entries of the window at `t₀`
  and prunes at a later `t`, as it is or after an entry was written, holds the newest `n`
  entries of the window at `t`.
* `mem_take_sortNewest`: an entry with fewer than `n` rivals at least as new is kept, whatever
  the order of equal stamps.
-/

namespace Recency

variable {ε κ : Type} [DecidableEq κ] {stamp : ε → Nat} {key : ε → κ}

/-- Entries of strictly decreasing stamps. -/
def Newest (stamp : ε → Nat) (l : List ε) : Prop := l.Pairwise fun a b => stamp b < stamp a

/-- `l` sorted by decreasing stamp, equal stamps in the order of `l`. -/
def sortNewest (stamp : ε → Nat) (l : List ε) : List ε :=
  l.mergeSort fun a b => decide (stamp b ≤ stamp a)

/-- The entries of `l` that are at most `ttl` old at `now`. -/
def window (stamp : ε → Nat) (ttl now : Nat) (l : List ε) : List ε :=
  l.filter fun e => decide (now - stamp e ≤ ttl)

/-- `l` after `e` is written: what `l` had under its key is gone. -/
def touch (key : ε → κ) (e : ε) (l : List ε) : List ε :=
  e :: l.filter fun a => decide (key a ≠ key e)

/-! ### Sorting -/

theorem sortNewest_perm (l : List ε) : (sortNewest stamp l).Perm l := List.mergeSort_perm _ _

theorem sortNewest_pairwise (l : List ε) :
    (sortNewest stamp l).Pairwise fun a b => stamp b ≤ stamp a := by
  have h := @List.pairwise_mergeSort _ (fun a b => decide (stamp b ≤ stamp a))
    (fun a b c hab hbc => by simp only [decide_eq_true_eq] at *; omega)
    (fun a b => by simp only [Bool.or_eq_true, decide_eq_true_eq]; omega) l
  exact h.imp fun h => by simpa using h

theorem Newest.filter {l : List ε} (h : Newest stamp l) (p : ε → Bool) :
    Newest stamp (l.filter p) :=
  List.Pairwise.filter p h

theorem Newest.window {l : List ε} (h : Newest stamp l) (ttl now : Nat) :
    Newest stamp (window stamp ttl now l) :=
  h.filter _

theorem Newest.take {l : List ε} (h : Newest stamp l) (n : Nat) : Newest stamp (l.take n) :=
  List.Pairwise.sublist (List.take_sublist n l) h

/-- In a newest-first list an entry is told by its stamp. -/
theorem Newest.eq_of_stamp {l : List ε} (h : Newest stamp l) {a b : ε} (ha : a ∈ l) (hb : b ∈ l)
    (hs : stamp a = stamp b) : a = b := by
  have hne : l.Pairwise fun a b => stamp a ≠ stamp b ∨ a = b := h.imp fun h => .inl (by omega)
  have : Std.Symm fun a b : ε => stamp a ≠ stamp b ∨ a = b :=
    ⟨fun _ _ h => h.imp Ne.symm Eq.symm⟩
  exact (hne.forall_of_forall (fun _ _ => .inr rfl) ha hb).resolve_left fun h => h hs

/-- **Sorting an arrangement of a newest-first list gives the list.** -/
theorem sortNewest_eq {l l' : List ε} (h : Newest stamp l) (hp : l'.Perm l) :
    sortNewest stamp l' = l := by
  have hp' : (sortNewest stamp l').Perm l := (sortNewest_perm l').trans hp
  refine List.Perm.eq_of_pairwise (fun a b ha hb h₁ h₂ => ?_) (sortNewest_pairwise l')
    (h.imp fun h => Nat.le_of_lt h) hp'
  exact h.eq_of_stamp (hp'.mem_iff.mp ha) hb (by omega)

/-- An entry with fewer than `n` others at least as new is among the first `n`. -/
theorem mem_take_sortNewest {l : List ε} {e : ε} (he : e ∈ l) {n : Nat}
    (hn : (l.filter fun a => decide (stamp e ≤ stamp a)).length ≤ n) :
    e ∈ (sortNewest stamp l).take n := by
  have hp : (sortNewest stamp l).Perm l := sortNewest_perm l
  have hs : (sortNewest stamp l).Pairwise fun a b => stamp b ≤ stamp a := sortNewest_pairwise l
  obtain ⟨pre, post, hsplit⟩ := List.append_of_mem (hp.mem_iff.mpr he)
  -- everything up to `e` is at least as new as `e`
  have hpre : ∀ a ∈ pre ++ [e], stamp e ≤ stamp a := by
    intro a ha
    rw [hsplit, List.pairwise_append] at hs
    rcases List.mem_append.mp ha with ha | ha
    · exact hs.2.2 a ha e (by simp)
    · exact Nat.le_of_eq (congrArg stamp (List.mem_singleton.mp ha).symm)
  have hsub : (pre ++ [e]).Sublist (sortNewest stamp l) := by
    rw [hsplit]
    simp
  have hlen : (pre ++ [e]).length ≤ n := by
    have h₁ := hsub.filter fun a => decide (stamp e ≤ stamp a)
    rw [List.filter_eq_self.mpr fun a ha => by simpa using hpre a ha] at h₁
    have h₂ := (hp.filter fun a => decide (stamp e ≤ stamp a)).length_eq
    exact Nat.le_trans (Nat.le_trans h₁.length_le (Nat.le_of_eq h₂)) hn
  have heq : (sortNewest stamp l).take n = (pre ++ [e]) ++ post.take (n - (pre ++ [e]).length) := by
    rw [hsplit, show pre ++ e :: post = (pre ++ [e]) ++ post by simp, List.take_append,
      List.take_of_length_le hlen]
  rw [heq]
  simp

/-! ### Keeping the first entries -/

/-- Keeping what a list has up to a point commutes with keeping the first `n`. -/
theorem filter_take_of_pairwise {p : ε → Bool} :
    ∀ {l : List ε} (n : Nat), l.Pairwise (fun a b => p b = true → p a = true) →
      (l.take n).filter p = (l.filter p).take n
  | [], n, _ => by simp
  | a :: l, 0, _ => by simp
  | a :: l, n + 1, h => by
      obtain ⟨ha, hl⟩ := List.pairwise_cons.mp h
      by_cases hp : p a = true
      · simp [hp, filter_take_of_pairwise n hl]
      · have hnone : l.filter p = [] :=
          List.filter_eq_nil_iff.mpr fun b hb hpb => hp (ha b hb hpb)
        have htake : (l.take n).filter p = [] := by
          rw [filter_take_of_pairwise n hl, hnone, List.take_nil]
        simp [hp, hnone, htake]

/-- **On a newest-first list, the window and the first `n` commute.** -/
theorem filter_take {l : List ε} (h : Newest stamp l) (ttl now n : Nat) :
    window stamp ttl now (l.take n) = (window stamp ttl now l).take n :=
  filter_take_of_pairwise n (h.imp fun h hb => by simp only [decide_eq_true_eq] at *; omega)

/-- A later window is a window of the earlier one. -/
theorem window_window {ttl t₀ t : Nat} (ht : t₀ ≤ t) (l : List ε) :
    window stamp ttl t (window stamp ttl t₀ l) = window stamp ttl t l := by
  unfold window
  rw [List.filter_filter]
  exact List.filter_congr fun a _ => by
    rw [← Bool.decide_and, decide_eq_decide]
    omega

/-- Among the first `n + 1` entries, those without the key `k` start with the first `n` entries
without it. -/
theorem take_filter_key (k : κ) :
    ∀ {l : List ε} (n : Nat), (l.map key).Nodup →
      ((l.take (n + 1)).filter fun a => decide (key a ≠ k)).take n =
        (l.filter fun a => decide (key a ≠ k)).take n
  | [], n, _ => by simp
  | a :: l, n, h => by
      obtain ⟨ha, hl⟩ := List.nodup_cons.mp h
      by_cases hk : key a = k
      · -- the key is `a`'s, and no later entry has it
        have hne : l.filter (fun b => decide (key b ≠ k)) = l :=
          List.filter_eq_self.mpr fun b hb => by
            simp only [decide_eq_true_eq]
            exact fun e => ha (hk.trans e.symm ▸ List.mem_map_of_mem hb)
        have hne' : (l.take n).filter (fun b => decide (key b ≠ k)) = l.take n :=
          List.filter_eq_self.mpr fun b hb => by
            simp only [decide_eq_true_eq]
            exact fun e => ha (hk.trans e.symm ▸ List.mem_map_of_mem (List.mem_of_mem_take hb))
        simp only [List.take_succ_cons, List.filter_cons, hk, ne_eq, not_true_eq_false,
          decide_false, Bool.false_eq_true, if_false]
        simp only [ne_eq] at hne hne'
        rw [hne, hne', List.take_take, Nat.min_self]
      · cases n with
        | zero => simp
        | succ n =>
            have ih := take_filter_key k n hl
            simp only [List.take_succ_cons, List.filter_cons, ne_eq, hk, not_false_eq_true,
              decide_true, if_true]
            simpa using ih

/-- Dropping the keys of the entries after the first `n` leaves the first `n`. -/
theorem filter_not_mem_drop :
    ∀ {l : List ε} (n : Nat), (l.map key).Nodup →
      l.filter (fun a => decide (key a ∉ (l.drop n).map key)) = l.take n
  | [], n, _ => by simp
  | a :: l, 0, _ => by
      simp only [List.drop_zero, List.take_zero, List.filter_eq_nil_iff, decide_eq_true_eq,
        not_not]
      exact fun b hb => List.mem_map_of_mem hb
  | a :: l, n + 1, h => by
      obtain ⟨ha, hl⟩ := List.nodup_cons.mp h
      have hna : key a ∉ (l.drop n).map key := fun hm => by
        obtain ⟨b, hb, e⟩ := List.mem_map.mp hm
        exact ha (e ▸ List.mem_map_of_mem (List.mem_of_mem_drop hb))
      simp only [List.drop_succ_cons, List.take_succ_cons, List.filter_cons, hna,
        not_false_eq_true, decide_true, if_true, filter_not_mem_drop n hl]

/-! ### A bounded store -/

/-- **Pruning a store.**  It held the newest `n` entries of the window at `t₀`. -/
theorem keep_window {l es a : List ε} (h : Newest stamp l) {ttl t₀ t n : Nat} (ht : t₀ ≤ t)
    (hes : es.Perm ((window stamp ttl t₀ l).take n)) (ha : a.Perm (window stamp ttl t es)) :
    (sortNewest stamp a).take n = (window stamp ttl t l).take n := by
  have hw : window stamp ttl t ((window stamp ttl t₀ l).take n) = (window stamp ttl t l).take n := by
    rw [filter_take (h.window _ _), window_window ht]
  have hp : a.Perm ((window stamp ttl t l).take n) := hw ▸ ha.trans (hes.filter _)
  rw [sortNewest_eq ((h.window _ _).take n) hp, List.take_take, Nat.min_self]

/-- **Writing to a store, then pruning it.**  The entry written is the newest. -/
theorem keep_touch {l es a : List ε} {e : ε} (h : Newest stamp l) (hk : (l.map key).Nodup)
    {ttl t₀ n : Nat} (ht : t₀ ≤ stamp e) (hnew : ∀ b ∈ l, stamp b < stamp e)
    (hes : es.Perm ((window stamp ttl t₀ l).take (n + 1)))
    (ha : a.Perm (window stamp ttl (stamp e) (touch key e es))) :
    (sortNewest stamp a).take (n + 1) =
      (window stamp ttl (stamp e) (touch key e l)).take (n + 1) := by
  have hcons : ∀ m : List ε, window stamp ttl (stamp e) (touch key e m) =
      e :: (window stamp ttl (stamp e) m).filter fun a => decide (key a ≠ key e) := fun m => by
    simp only [window, touch, List.filter_cons, Nat.sub_self, Nat.zero_le, decide_true, if_true,
      List.cons.injEq, true_and]
    rw [List.filter_filter, List.filter_filter]
    exact List.filter_congr fun b _ => Bool.and_comm _ _
  have hw : window stamp ttl (stamp e) ((window stamp ttl t₀ l).take (n + 1)) =
      (window stamp ttl (stamp e) l).take (n + 1) := by
    rw [filter_take (h.window _ _), window_window ht]
  have hp : a.Perm (e :: ((window stamp ttl (stamp e) l).take (n + 1)).filter
      fun a => decide (key a ≠ key e)) := by
    have hes' : (window stamp ttl (stamp e) es).Perm
        ((window stamp ttl (stamp e) l).take (n + 1)) := hw ▸ hes.filter _
    rw [hcons] at ha
    exact ha.trans ((hes'.filter _).cons e)
  have hsort : Newest stamp (e :: ((window stamp ttl (stamp e) l).take (n + 1)).filter
      fun a => decide (key a ≠ key e)) :=
    List.pairwise_cons.mpr ⟨fun b hb => hnew b (List.mem_of_mem_filter (List.mem_of_mem_take
      (List.mem_of_mem_filter hb))), ((h.window _ _).take _).filter _⟩
  have hkw : ((window stamp ttl (stamp e) l).map key).Nodup :=
    hk.sublist (List.filter_sublist.map key)
  rw [sortNewest_eq hsort hp, hcons, List.take_succ_cons, List.take_succ_cons,
    take_filter_key _ n hkw]

end Recency
