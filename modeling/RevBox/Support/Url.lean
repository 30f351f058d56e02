import Mathlib.Data.List.DropRight

/-!
# Support — Url

The parts of a URL, told apart by its delimiters alone: the scheme stands before the first `:`, the
authority between `//` and the next `/`, `?` or `#`, and in it the host behind the last `@` and
before the port; an address in brackets is a host with them.

* `authority_mk`: the authority of a URL put together from its parts.
* `host_mk`: the host of an authority put together from its parts.
* `hostPort_split`: what an authority is made of.
-/

namespace Url

variable {s a : List Char}

/-- The character ends the authority. -/
def endsAuthority (c : Char) : Bool := c = '/' || c = '?' || c = '#'

/-- The character may stand before the `:` of the scheme. -/
def inScheme (c : Char) : Bool := c ≠ ':' && !endsAuthority c

/-- The scheme. -/
def scheme (s : List Char) : Option (List Char) :=
  let name := s.takeWhile inScheme
  if name ≠ [] ∧ [':'].isPrefixOf (s.drop name.length) then some name else none

/-- The authority. -/
def authority (s : List Char) : Option (List Char) :=
  (scheme s).bind fun name =>
    let rest := s.drop (name.length + 1)
    if ['/', '/'].isPrefixOf rest then some ((rest.drop 2).takeWhile fun c => !endsAuthority c)
    else none

/-- An authority without what stands before its last `@`. -/
def hostPort (a : List Char) : List Char := a.rtakeWhile fun c => c ≠ '@'

/-- The host of an authority. -/
def host (a : List Char) : List Char :=
  let h := hostPort a
  if ['['].isPrefixOf h then
    let inner := h.takeWhile fun c => c ≠ ']'
    inner ++ (h.drop inner.length).take 1
  else h.takeWhile fun c => c ≠ ':'

/-! ### Cutting lists -/

theorem takeWhile_append_cut {p : Char → Bool} {l r : List Char} (hl : ∀ c ∈ l, p c = true)
    (hr : ∀ c ∈ r.head?, p c = false) : (l ++ r).takeWhile p = l := by
  rw [List.takeWhile_append_of_pos hl]
  cases r with
  | nil => simp
  | cons c r => simp [hr c rfl]

/-- A list put before a cut is cut where the cut was. -/
theorem takeWhile_append_right {p : Char → Bool} {l : List Char} (hl : ∀ c ∈ l, p c = true)
    (r : List Char) : (l ++ r).takeWhile p = l ++ r.takeWhile p := List.takeWhile_append_of_pos hl

/-! ### Reading what was put together -/

theorem scheme_mk {name : List Char} (hne : name ≠ [])
    (hname : ∀ c ∈ name, inScheme c = true) (rest : List Char) :
    scheme (name ++ ':' :: rest) = some name := by
  have hcut : (name ++ ':' :: rest).takeWhile inScheme = name :=
    takeWhile_append_cut hname (by simp [inScheme])
  simp [scheme, hcut, hne]

theorem authority_mk {name : List Char} (hne : name ≠ [])
    (hname : ∀ c ∈ name, inScheme c = true) (rest : List Char) :
    authority (name ++ ':' :: '/' :: '/' :: rest) =
      some (rest.takeWhile fun c => !endsAuthority c) := by
  have hdrop : (name ++ ':' :: '/' :: '/' :: rest).drop (name.length + 1) = '/' :: '/' :: rest := by
    rw [List.drop_append]
    simp
  simp only [authority, scheme_mk hne hname, Option.bind_some, hdrop]
  simp

/-- User information: nothing, or something that ends in `@`. -/
def IsUserInfo (info : List Char) : Prop := info = [] ∨ ∃ i, info = i ++ ['@']

theorem hostPort_mk {info h : List Char} (hinfo : IsUserInfo info) (hh : '@' ∉ h) :
    hostPort (info ++ h) = h := by
  have hself : h.rtakeWhile (fun c => c ≠ '@') = h :=
    List.rtakeWhile_eq_self_iff.mpr fun c hc => by
      have : c ≠ '@' := fun hat => hh (hat ▸ hc)
      simp [this]
  rcases hinfo with rfl | ⟨i, rfl⟩
  · exact hself
  · unfold hostPort List.rtakeWhile
    rw [List.reverse_append, List.takeWhile_append_of_pos (fun c hc => by
      have : c ≠ '@' := fun hat => hh (hat ▸ List.mem_reverse.mp hc)
      simp [this])]
    simp

/-- **What an authority is made of.** -/
theorem hostPort_split (a : List Char) :
    ∃ info, IsUserInfo info ∧ a = info ++ hostPort a ∧ '@' ∉ hostPort a := by
  refine ⟨a.rdropWhile fun c => c ≠ '@', ?_, ?_, fun hmem => ?_⟩
  · by_cases hnil : a.rdropWhile (fun c => decide (c ≠ '@')) = []
    · exact .inl hnil
    · have hlast := List.rdropWhile_last_not (fun c => decide (c ≠ '@')) a hnil
      have hat : (a.rdropWhile fun c => decide (c ≠ '@')).getLast hnil = '@' := by
        simpa using hlast
      refine .inr ⟨(a.rdropWhile fun c => decide (c ≠ '@')).dropLast, ?_⟩
      have hsplit := List.dropLast_append_getLast hnil
      rw [hat] at hsplit
      exact hsplit.symm
  · unfold hostPort List.rdropWhile List.rtakeWhile
    rw [← List.reverse_append, List.takeWhile_append_dropWhile, List.reverse_reverse]
  · have := List.mem_rtakeWhile_imp hmem
    simp at this

/-- The host of a name with nothing but a port behind it. -/
theorem host_mk {info name port : List Char} (hinfo : IsUserInfo info)
    (hname : ∀ c ∈ name, c ≠ ':' ∧ c ≠ '@') (hbracket : name.head? ≠ some '[')
    (hport : port = [] ∨ port.head? = some ':') (hat : '@' ∉ port) (hne : name ≠ []) :
    host (info ++ (name ++ port)) = name := by
  have hhp : hostPort (info ++ (name ++ port)) = name ++ port :=
    hostPort_mk hinfo fun hmem => (List.mem_append.mp hmem).elim
      (fun h => (hname _ h).2 rfl) hat
  have hplain : ¬ ['['].isPrefixOf (name ++ port) = true := by
    cases name with
    | nil => exact absurd rfl hne
    | cons c name =>
        simp only [List.cons_append, List.isPrefixOf_cons_cons, List.isPrefixOf_nil_left,
          Bool.and_true, beq_iff_eq]
        rintro rfl
        exact hbracket rfl
  simp only [host, hhp]
  rw [if_neg hplain]
  refine takeWhile_append_cut (fun c hc => by simp [(hname c hc).1]) fun c hc => ?_
  rcases hport with rfl | hport
  · cases hc
  · rw [hport] at hc
    obtain rfl : ':' = c := by simpa using hc
    rfl

/-- The host of an address in brackets. -/
theorem host_bracket {info inner tail : List Char} (hinfo : IsUserInfo info)
    (hinner : ∀ c ∈ inner, c ≠ ']' ∧ c ≠ '@') (hat : '@' ∉ tail) :
    host (info ++ ('[' :: inner ++ ']' :: tail)) = '[' :: inner ++ [']'] := by
  have hhp : hostPort (info ++ ('[' :: inner ++ ']' :: tail)) = '[' :: inner ++ ']' :: tail :=
    hostPort_mk hinfo fun hmem => by
      simp only [List.cons_append, List.mem_cons, List.mem_append] at hmem
      rcases hmem with h | h | h | h
      · cases h
      · exact (hinner _ h).2 rfl
      · cases h
      · exact hat h
  have hcut : ('[' :: inner ++ ']' :: tail).takeWhile (fun c => c ≠ ']') = '[' :: inner :=
    takeWhile_append_cut (fun c hc => by
      rcases List.mem_cons.mp hc with rfl | hc
      · simp
      · simp [(hinner c hc).1]) (by simp)
  simp only [host, hhp, hcut]
  simp

/-- What stands behind a host: nothing, a port, or anything if the host began with a bracket. -/
theorem host_split (a : List Char) :
    ∃ t, hostPort a = host a ++ t ∧
      ((hostPort a).head? = some '[' ∨ ∀ c ∈ t.head?, c = ':') := by
  unfold host
  dsimp only
  split
  · next h =>
      obtain ⟨r, hr⟩ := List.takeWhile_prefix (fun c => decide (c ≠ ']')) (l := hostPort a)
      refine ⟨r.drop 1, ?_, .inl ?_⟩
      · have hdrop : ∀ {inner}, inner ++ r = hostPort a → (hostPort a).drop inner.length = r :=
          fun hinner => by rw [← hinner, List.drop_left]
        rw [hdrop hr, List.append_assoc, List.take_append_drop, hr]
      · obtain ⟨t, ht⟩ := List.isPrefixOf_iff_prefix.mp h
        rw [← ht]
        rfl
  · refine ⟨(hostPort a).dropWhile fun c => c ≠ ':', List.takeWhile_append_dropWhile.symm,
      .inr fun c hc => ?_⟩
    have hstop := List.head?_dropWhile_not (fun c => decide (c ≠ ':')) (hostPort a)
    rw [show ((hostPort a).dropWhile fun c => decide (c ≠ ':')).head? = some c from hc] at hstop
    simpa using hstop

end Url
