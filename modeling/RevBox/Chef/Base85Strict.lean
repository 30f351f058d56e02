import RevBox.Chef.Base85

/-!
# Chef — Base85Strict

What `a85_decode` of `data.rs` accepts: the text is cut into groups first, then each is read.

* `decodeGroups_eq`: the loop reads one group after the other.
* `a85Decode_strict_iff`: when nothing is accepted but what the encoder writes, and nothing
  overflows.
-/

namespace RevBox.Chef

/-! ### Groups -/

/-- The groups of a text: `none` for the short form, else at most five symbols. -/
def groupsOf (shortcut : Bool) : List Char → List (Option (List Char))
  | [] => []
  | c :: chars =>
      if shortcut ∧ c = 'z' then none :: groupsOf shortcut chars
      else some ((c :: chars).take 5) :: groupsOf shortcut (chars.drop 4)
termination_by chars => chars.length
decreasing_by
  all_goals simp only [List.length_cons, List.length_drop]; omega

/-- The groups of a text, read one after the other. -/
def readGroups (alphabet : List UInt8) : List (Option (List Char)) →
    Option (ChefResult (List UInt8))
  | [] => some (.ok [])
  | none :: groups => (readGroups alphabet groups).map fun r => r.map ([0, 0, 0, 0] ++ ·)
  | some group :: groups =>
      match decodeGroup alphabet group with
      | none => none
      | some (.error e) => some (.error e)
      | some (.ok bytes) => (readGroups alphabet groups).map fun r => r.map (bytes ++ ·)

variable {alphabet : List UInt8} {shortcut : Bool} {v d n : Nat} {g : List Char}
  {groups : List (Option (List Char))}

/-- **The loop reads one group after the other.** -/
theorem decodeGroups_eq (alphabet : List UInt8) (shortcut : Bool) (chars : List Char) :
    decodeGroups alphabet shortcut chars = readGroups alphabet (groupsOf shortcut chars) := by
  induction chars using groupsOf.induct shortcut with
  | case1 => rw [decodeGroups, groupsOf, readGroups]
  | case2 c chars hz ih => rw [decodeGroups, groupsOf, if_pos hz, if_pos hz, readGroups, ih]
  | case3 c chars hz ih =>
      rw [decodeGroups, groupsOf, if_neg hz, if_neg hz, readGroups]
      cases decodeGroup alphabet ((c :: chars).take 5) with
      | none => rfl
      | some r =>
          cases r with
          | error e => rfl
          | ok bytes => exact congrArg (Option.map _) ih

/-- A group that is not the short form has a symbol, and no more than five. -/
theorem length_of_mem_groupsOf {shortcut : Bool} (chars : List Char)
    (h : some g ∈ groupsOf shortcut chars) : 1 ≤ g.length ∧ g.length ≤ 5 := by
  induction chars using groupsOf.induct shortcut with
  | case1 =>
      rw [groupsOf] at h
      cases h
  | case2 c chars hz ih =>
      rw [groupsOf, if_pos hz] at h
      rcases List.mem_cons.mp h with h | h
      · cases h
      · exact ih h
  | case3 c chars hz ih =>
      rw [groupsOf, if_neg hz] at h
      rcases List.mem_cons.mp h with h | h
      · rw [Option.some.inj h, List.length_take, List.length_cons]
        omega
      · exact ih h

/-! ### One group -/

/-- The five places of a group: those it has no symbol for are `none`. -/
def slotsOf (group : List Char) : List (Option Char) :=
  group.map some ++ List.replicate (5 - group.length) none

/-- The digit of a place. -/
def slotDigit (alphabet : List UInt8) : Option Char → Option Nat
  | none => some 84
  | some c => position alphabet c

/-- The number of a group, filled up with the greatest digit. -/
def groupNumber (alphabet : List UInt8) (group : List Char) : Option Nat :=
  ((slotsOf group).mapM (slotDigit alphabet)).map (horner 0)

/-- The greatest value after so many digits. -/
def headroom : Nat → Nat
  | 0 => 0
  | k + 1 => 85 * headroom k + 92

theorem headroom_lt {k : Nat} (h : k ≤ 4) : headroom k < 2 ^ 32 := by
  obtain rfl | rfl | rfl | rfl | rfl : k = 0 ∨ k = 1 ∨ k = 2 ∨ k = 3 ∨ k = 4 := by omega
  all_goals decide

theorem slotDigit_le (hlen : alphabet.length ≤ 93) {slot : Option Char}
    (h : slotDigit alphabet slot = some d) : d ≤ 92 := by
  cases slot with
  | none => cases h; decide
  | some c =>
      have := position_lt h
      omega

/-- **The digits of a group**: an unknown symbol is refused, and the number overflows only as a
whole. -/
theorem groupValue_spec (hlen : alphabet.length ≤ 93) : ∀ (slots : List (Option Char)) {k v : Nat},
    k + slots.length = 5 → v ≤ headroom k → v < 2 ^ 32 →
      match slots.mapM (slotDigit alphabet) with
      | some ds => groupValue alphabet v slots =
          if horner v ds < 2 ^ 32 then some (.ok (horner v ds)) else none
      | none => ∃ e, groupValue alphabet v slots = some (.error e)
  | [], _, v, _, _, hv => (if_pos hv).symm
  | slot :: slots, k, v, hk, hhead, _ => by
      rw [List.length_cons] at hk
      cases hd : slotDigit alphabet slot with
      | none =>
          cases slot with
          | none => cases hd
          | some c =>
              have hc : position alphabet c = none := hd
              rw [List.mapM_cons, hd]
              refine ⟨fail s!"Base85 里出现了非法字符「{c}」", ?_⟩
              rw [groupValue]
              simp only [hc]
      | some d =>
          have hd92 := slotDigit_le hlen hd
          have hnext : v * 85 + d ≤ headroom (k + 1) := by
            rw [headroom]
            omega
          have hstep : groupValue alphabet v (slot :: slots) =
              if v * 85 + d < 2 ^ 32 then groupValue alphabet (v * 85 + d) slots else none := by
            cases slot with
            | none =>
                cases hd
                rw [groupValue]
            | some c =>
                have hc : position alphabet c = some d := hd
                rw [groupValue]
                simp only [hc]
          rw [List.mapM_cons, hd, hstep]
          by_cases hlt : v * 85 + d < 2 ^ 32
          · have ih := groupValue_spec hlen slots (k := k + 1) (by omega) hnext hlt
            rw [if_pos hlt]
            cases hds : slots.mapM (slotDigit alphabet) with
            | none => rw [hds] at ih; exact ih
            | some ds => rw [hds] at ih; exact ih
          · -- only the last digit overflows
            have hk5 : 4 < k + 1 := Nat.lt_of_not_le fun hle => by
              have := headroom_lt hle
              omega
            have hnil : slots = [] := List.length_eq_zero_iff.mp (by omega)
            subst hnil
            exact (if_neg hlt).trans (if_neg hlt).symm

/-- A group, read by its number. -/
theorem decodeGroup_spec (hlen : alphabet.length ≤ 93) (h2 : 2 ≤ g.length) (h5 : g.length ≤ 5) :
    match groupNumber alphabet g with
    | some v => decodeGroup alphabet g =
        if v < 2 ^ 32 then
          some (.ok ((List.range (g.length - 1)).map fun k => .ofNat (v >>> (24 - 8 * k))))
        else none
    | none => ∃ e, decodeGroup alphabet g = some (.error e) := by
  have hslots : (slotsOf g).length = 5 := by
    rw [slotsOf, List.length_append, List.length_map, List.length_replicate]
    omega
  have hspec := groupValue_spec hlen (slotsOf g) (k := 0) (v := 0) (by omega)
    (Nat.le_refl 0) (by decide)
  have hgroup : decodeGroup alphabet g = (groupValue alphabet 0 (slotsOf g)).map fun r =>
      r.map fun value => (List.range (g.length - 1)).map fun k =>
        .ofNat (value >>> (24 - 8 * k)) := if_neg (by omega)
  rw [groupNumber, hgroup]
  cases hds : (slotsOf g).mapM (slotDigit alphabet) with
  | none =>
      rw [hds] at hspec
      obtain ⟨e, he⟩ := hspec
      exact ⟨e, by rw [he]; rfl⟩
  | some ds =>
      rw [hds] at hspec
      dsimp only [Option.map_some] at hspec ⊢
      rw [hspec]
      split_ifs <;> rfl

/-! ### All groups -/

/-- A group that is not refused: the short form, or symbols of the alphabet, more than one. -/
def Readable (alphabet : List UInt8) : Option (List Char) → Prop
  | none => True
  | some g => 2 ≤ g.length ∧ (groupNumber alphabet g).isSome

/-- A group of more than 32 bits that the loop comes to. -/
def Overflows (alphabet : List UInt8) (groups : List (Option (List Char))) : Prop :=
  ∃ before g after v, groups = before ++ some g :: after ∧
    (∀ h ∈ before, Readable alphabet h) ∧ 2 ≤ g.length ∧ groupNumber alphabet g = some v ∧
    2 ^ 32 ≤ v

/-- The bytes of a group. -/
def groupBytes (alphabet : List UInt8) : Option (List Char) → List UInt8
  | none => [0, 0, 0, 0]
  | some g => (List.range (g.length - 1)).map fun k =>
      .ofNat ((groupNumber alphabet g).getD 0 >>> (24 - 8 * k))

/-- What a group that is not refused comes to. -/
theorem Readable.decodeGroup (hlen : alphabet.length ≤ 93) (h : Readable alphabet (some g))
    (h5 : g.length ≤ 5) : ∃ v, groupNumber alphabet g = some v ∧ decodeGroup alphabet g =
      if v < 2 ^ 32 then some (.ok (groupBytes alphabet (some g))) else none := by
  obtain ⟨h2, hsome⟩ := h
  obtain ⟨v, hv⟩ := Option.isSome_iff_exists.mp hsome
  have hspec := decodeGroup_spec hlen h2 h5
  rw [hv] at hspec
  refine ⟨v, hv, ?_⟩
  rw [groupBytes, hv]
  exact hspec

/-- A group that is refused. -/
theorem decodeGroup_error (hlen : alphabet.length ≤ 93) (h : ¬ Readable alphabet (some g))
    (h5 : g.length ≤ 5) : ∃ e, decodeGroup alphabet g = some (.error e) := by
  by_cases h2 : 2 ≤ g.length
  · have hspec := decodeGroup_spec hlen h2 h5
    cases hv : groupNumber alphabet g with
    | none =>
        rw [hv] at hspec
        exact hspec
    | some v => exact absurd ⟨h2, by rw [hv]; rfl⟩ h
  · exact ⟨_, if_pos (Nat.lt_of_not_le h2)⟩

theorem overflows_cons (h : Option (List Char)) (groups : List (Option (List Char))) :
    Overflows alphabet (h :: groups) ↔
      (∃ g v, h = some g ∧ 2 ≤ g.length ∧ groupNumber alphabet g = some v ∧ 2 ^ 32 ≤ v) ∨
      Readable alphabet h ∧ Overflows alphabet groups := by
  constructor
  · rintro ⟨before, g, after, v, heq, hbefore, h2, hv, hbig⟩
    cases before with
    | nil =>
        obtain ⟨rfl, -⟩ := List.cons.inj heq
        exact .inl ⟨g, v, rfl, h2, hv, hbig⟩
    | cons h' before =>
        obtain ⟨rfl, rfl⟩ := List.cons.inj heq
        exact .inr ⟨hbefore h List.mem_cons_self, before, g, after, v, rfl,
          fun h' hh => hbefore h' (List.mem_cons_of_mem _ hh), h2, hv, hbig⟩
  · rintro (⟨g, v, rfl, h2, hv, hbig⟩ | ⟨hread, before, g, after, v, rfl, hbefore, h2, hv, hbig⟩)
    · exact ⟨[], g, groups, v, rfl, nofun, h2, hv, hbig⟩
    · refine ⟨h :: before, g, after, v, rfl, fun h' hh => ?_, h2, hv, hbig⟩
      rcases List.mem_cons.mp hh with rfl | hh
      · exact hread
      · exact hbefore h' hh

/-- Bytes in front of what is read. -/
theorem map_append_ok {r : Option (ChefResult (List UInt8))} {xs b : List UInt8} :
    (r.map fun r => r.map (xs ++ ·)) = some (.ok b) ↔ ∃ b', r = some (.ok b') ∧ b = xs ++ b' := by
  constructor
  · intro h
    obtain ⟨r', rfl, hr⟩ := Option.map_eq_some_iff.mp h
    cases r' with
    | error e => cases hr
    | ok b' => exact ⟨b', rfl, (Except.ok.inj hr).symm⟩
  · rintro ⟨b', rfl, rfl⟩
    rfl

/-- **What comes of all groups**: an overflow, an error where one is refused, or all their bytes. -/
theorem readGroups_spec (hlen : alphabet.length ≤ 93) : ∀ {groups : List (Option (List Char))},
    (∀ g, some g ∈ groups → g.length ≤ 5) →
    (readGroups alphabet groups = none ↔ Overflows alphabet groups) ∧
    ∀ b, readGroups alphabet groups = some (.ok b) ↔
      ¬ Overflows alphabet groups ∧ (∀ h ∈ groups, Readable alphabet h) ∧
        b = groups.flatMap (groupBytes alphabet)
  | [], _ => by
      have hover : ¬ Overflows alphabet [] := by
        rintro ⟨before, g, after, v, heq, -⟩
        cases before <;> cases heq
      refine ⟨iff_of_false nofun hover, fun b => ?_⟩
      rw [readGroups]
      simp [hover, eq_comm]
  | none :: groups, h5 => by
      obtain ⟨hnone, hok⟩ := readGroups_spec hlen fun g hg => h5 g (List.mem_cons_of_mem _ hg)
      have hover : Overflows alphabet (none :: groups) ↔ Overflows alphabet groups := by
        rw [overflows_cons]
        simp [Readable]
      rw [readGroups, Option.map_eq_none_iff, hover, hnone]
      refine ⟨Iff.rfl, fun b => ?_⟩
      simp only [map_append_ok, hok, List.forall_mem_cons, List.flatMap_cons, Readable, true_and]
      constructor
      · rintro ⟨b', ⟨hno, hall, rfl⟩, rfl⟩
        exact ⟨hno, hall, rfl⟩
      · rintro ⟨hno, hall, rfl⟩
        exact ⟨_, ⟨hno, hall, rfl⟩, rfl⟩
  | some g :: groups, h5 => by
      obtain ⟨hnone, hok⟩ := readGroups_spec hlen fun g hg => h5 g (List.mem_cons_of_mem _ hg)
      have hg5 := h5 g List.mem_cons_self
      rw [overflows_cons]
      by_cases hread : Readable alphabet (some g)
      · obtain ⟨v, hv, hdec⟩ := hread.decodeGroup hlen hg5
        by_cases hfit : v < 2 ^ 32
        · have hfirst : ¬ ∃ g' v', some g = some g' ∧ 2 ≤ g'.length ∧
              groupNumber alphabet g' = some v' ∧ 2 ^ 32 ≤ v' := by
            rintro ⟨g', v', hgg, -, hv', hbig⟩
            cases hgg
            rw [hv] at hv'
            cases hv'
            omega
          rw [readGroups, hdec, if_pos hfit, or_iff_right hfirst]
          dsimp only
          rw [Option.map_eq_none_iff, hnone]
          refine ⟨by simp only [hread, true_and], fun b => ?_⟩
          simp only [map_append_ok, hok, List.forall_mem_cons, List.flatMap_cons, hread, true_and]
          constructor
          · rintro ⟨b', ⟨hno, hall, rfl⟩, rfl⟩
            exact ⟨hno, hall, rfl⟩
          · rintro ⟨hno, hall, rfl⟩
            exact ⟨_, ⟨hno, hall, rfl⟩, rfl⟩
        · have hfirst : ∃ g' v', some g = some g' ∧ 2 ≤ g'.length ∧
              groupNumber alphabet g' = some v' ∧ 2 ^ 32 ≤ v' :=
            ⟨g, v, rfl, hread.1, hv, Nat.le_of_not_lt hfit⟩
          rw [readGroups, hdec, if_neg hfit]
          exact ⟨iff_of_true rfl (.inl hfirst), fun b =>
            iff_of_false nofun fun h => h.1 (.inl hfirst)⟩
      · have hno : ¬ ((∃ g' v', some g = some g' ∧ 2 ≤ g'.length ∧
            groupNumber alphabet g' = some v' ∧ 2 ^ 32 ≤ v') ∨
            Readable alphabet (some g) ∧ Overflows alphabet groups) := by
          rintro (⟨g', v', hgg, h2, hv', -⟩ | ⟨h, -⟩)
          · cases hgg
            exact hread ⟨h2, by rw [hv']; rfl⟩
          · exact hread h
        obtain ⟨e, he⟩ := decodeGroup_error hlen hread hg5
        rw [readGroups, he]
        exact ⟨iff_of_false nofun hno, fun b => iff_of_false nofun fun h =>
          hread (h.2.1 _ List.mem_cons_self)⟩

/-! ### Writing the groups again -/

/-- The symbols of a group. -/
def spelled : Option (List Char) → List Char
  | none => ['z']
  | some g => g

/-- A group that the encoder cuts short. -/
def CutShort (alphabet : List UInt8) (shortcut : Bool) : Option (List Char) → Prop
  | none => False
  | some g => shortcut = true ∧ groupNumber alphabet g = some 0

/-- The symbols of a group are digits. -/
def InDigits (alphabet : List UInt8) (g : List Char) : Prop :=
  ∀ c ∈ g, ∃ d < 85, position alphabet c = some d

theorem horner_append (ds : List Nat) (value : Nat) :
    horner value (ds ++ [d]) = horner value ds * 85 + d := by
  induction ds generalizing value with
  | nil => rfl
  | cons d' ds ih => exact ih (value * 85 + d')

/-- The digits of a number that digits were read into. -/
theorem digits85_horner (ds : List Nat) (h : ∀ d ∈ ds, d < 85) :
    digits85 ds.length (horner 0 ds) = ds.reverse := by
  induction ds using List.reverseRecOn with
  | nil => rfl
  | append_singleton ds d ih =>
      have hd : d < 85 := h d (List.mem_append_right ds List.mem_cons_self)
      have hmod : (horner 0 ds * 85 + d) % 85 = d := by omega
      have hdiv : (horner 0 ds * 85 + d) / 85 = horner 0 ds := by omega
      rw [List.length_append, List.length_singleton, horner_append, digits85, hmod, hdiv,
        ih fun d hd => h d (List.mem_append_left _ hd), List.reverse_append]
      rfl

/-- The digits of symbols that are digits. -/
theorem InDigits.exists_digits : ∀ {g : List Char}, InDigits alphabet g →
    ∃ ds, (∀ d ∈ ds, d < 85) ∧ (g.map some).mapM (slotDigit alphabet) = some ds ∧
      ds.map (symbol alphabet) = g
  | [], _ => ⟨[], nofun, rfl, rfl⟩
  | c :: g, h => by
      obtain ⟨d, hd, hc⟩ := h c List.mem_cons_self
      obtain ⟨ds, hds, hg, hback⟩ := InDigits.exists_digits fun c hc =>
        h c (List.mem_cons_of_mem _ hc)
      have hslot : slotDigit alphabet (some c) = some d := hc
      refine ⟨d :: ds, ?_, ?_, ?_⟩
      · intro d' hd'
        rcases List.mem_cons.mp hd' with rfl | hd'
        · exact hd
        · exact hds d' hd'
      · rw [List.map_cons, List.mapM_cons, hslot, hg]
        rfl
      · rw [List.map_cons, symbol_position hc, hback]

/-- The four bytes of a number. -/
theorem chunkValue_bytes (h : v < 2 ^ 32) :
    chunkValue ((List.range 4).map fun k => .ofNat (v >>> (24 - 8 * k))) = v := by
  simp only [chunkValue, List.range_succ, List.range_zero, List.map_cons, List.map_nil,
    List.nil_append, List.cons_append, List.foldl_cons, List.foldl_nil, UInt8.toNat_ofNat',
    Nat.shiftRight_eq_div_pow, List.length_cons, List.length_nil]
  omega

/-- The bytes of a chunk are zero if its value is. -/
theorem all_zero_iff {chunk : List UInt8} (h4 : chunk.length = 4) :
    chunk.all (fun b => b = 0) ↔ chunkValue chunk = 0 := by
  obtain ⟨a, b, c, e, rfl⟩ : ∃ a b c e, chunk = [a, b, c, e] := by
    match chunk, h4 with
    | [a, b, c, e], _ => exact ⟨a, b, c, e, rfl⟩
  have hzero : ∀ x : UInt8, x = 0 ↔ x.toNat = 0 := fun x => by
    rw [← UInt8.toNat_inj]
    rfl
  simp only [chunkValue, List.all_cons, List.all_nil, Bool.and_true, Bool.and_eq_true,
    decide_eq_true_eq, hzero, List.foldl_cons, List.foldl_nil, List.length_cons, List.length_nil]
  omega

/-- **A full group is written again** as it was, but for the zero that is cut short. -/
theorem encodeChunk_groupBytes (h5 : g.length = 5) (hd : InDigits alphabet g)
    (hv : groupNumber alphabet g = some v) (hfit : v < 2 ^ 32) :
    (groupBytes alphabet (some g)).length = 4 ∧
      encodeChunk alphabet shortcut (groupBytes alphabet (some g)) =
        if shortcut ∧ v = 0 then ['z'] else g := by
  obtain ⟨ds, hds, hslots, hback⟩ := hd.exists_digits
  have hlen : ds.length = 5 := by rw [← h5, ← hback, List.length_map]
  have hnumber : groupNumber alphabet g = some (horner 0 ds) := by
    rw [groupNumber, slotsOf, h5, Nat.sub_self, List.replicate_zero, List.append_nil, hslots]
    rfl
  have hvalue : horner 0 ds = v := Option.some.inj (hnumber.symm.trans hv)
  have hbytes : groupBytes alphabet (some g) =
      (List.range 4).map fun k => .ofNat (v >>> (24 - 8 * k)) := by
    rw [groupBytes, h5, hv]
    rfl
  have hfour : (groupBytes alphabet (some g)).length = 4 := by
    rw [hbytes, List.length_map, List.length_range]
  have hchunk : chunkValue (groupBytes alphabet (some g)) = v := by
    rw [hbytes, chunkValue_bytes hfit]
  refine ⟨hfour, ?_⟩
  by_cases hz : shortcut = true ∧ v = 0
  · rw [if_pos hz]
    exact if_pos ⟨hfour, (all_zero_iff hfour).mpr (hchunk.trans hz.2), hz.1⟩
  · rw [if_neg hz, encodeChunk, if_neg fun h => hz ⟨h.2.2, hchunk ▸ (all_zero_iff hfour).mp h.2.1⟩]
    have hdigits := digits85_horner ds hds
    rw [hlen, hvalue] at hdigits
    change ((digits85 5 (chunkValue _)).reverse.take (5 - (4 - _))).map _ = g
    rw [hchunk, hdigits, List.reverse_reverse, hfour, List.take_of_length_le (by omega), hback]

/-- The short form stands only where the style has it. -/
theorem shortcut_of_mem_groupsOf (chars : List Char) (h : none ∈ groupsOf shortcut chars) :
    shortcut = true := by
  induction chars using groupsOf.induct shortcut with
  | case1 =>
      rw [groupsOf] at h
      cases h
  | case2 c chars hz ih => exact hz.1
  | case3 c chars hz ih =>
      rw [groupsOf, if_neg hz] at h
      rcases List.mem_cons.mp h with h | h
      · cases h
      · exact ih h

/-- A full group of digits that fits. -/
structure Full (alphabet : List UInt8) (g : List Char) : Prop where
  length : g.length = 5
  digits : InDigits alphabet g
  fits : ∃ v < 2 ^ 32, groupNumber alphabet g = some v

/-- A chunk of four bytes is written for itself. -/
theorem encodeChunks_append {chunk : List UInt8} (h4 : chunk.length = 4) (bytes : List UInt8) :
    encodeChunks alphabet shortcut (chunk ++ bytes) =
      encodeChunk alphabet shortcut chunk ++ encodeChunks alphabet shortcut bytes := by
  match chunk, h4 with
  | [a, b, c, e], _ => rw [List.cons_append, List.cons_append, List.cons_append,
      List.singleton_append, encodeChunks]

theorem Full.encodeChunk (h : Full alphabet g) (shortcut : Bool) :
    (groupBytes alphabet (some g)).length = 4 ∧
      encodeChunk alphabet shortcut (groupBytes alphabet (some g)) =
        if shortcut ∧ groupNumber alphabet g = some 0 then ['z'] else g := by
  obtain ⟨v, hfit, hv⟩ := h.fits
  have hzero : groupNumber alphabet g = some 0 ↔ v = 0 := by rw [hv, Option.some_inj]
  rw [if_congr (and_congr_right' hzero) rfl rfl]
  exact encodeChunk_groupBytes h.length h.digits hv hfit

/-- What full groups are written as has no more symbols, and has fewer where one is cut short. -/
theorem length_rewritten (hz : none ∈ groups → shortcut = true)
    (hfull : ∀ g, some g ∈ groups → Full alphabet g) :
    (encodeChunks alphabet shortcut (groups.flatMap (groupBytes alphabet))).length ≤
      (groups.flatMap spelled).length := by
  induction groups with
  | nil => exact Nat.le_refl 0
  | cons h groups ih =>
      have ih := ih (fun hmem => hz (List.mem_cons_of_mem _ hmem))
        fun g hg => hfull g (List.mem_cons_of_mem _ hg)
      rw [List.flatMap_cons, List.flatMap_cons, List.length_append]
      cases h with
      | none =>
          rw [encodeChunks_append rfl, List.length_append]
          have hone : (encodeChunk alphabet shortcut (groupBytes alphabet none)).length = 1 := by
            rw [encodeChunk, if_pos ⟨rfl, rfl, hz List.mem_cons_self⟩]
            rfl
          rw [hone]
          exact Nat.add_le_add_left ih 1
      | some g =>
          have hg := hfull g List.mem_cons_self
          obtain ⟨h4, henc⟩ := hg.encodeChunk shortcut
          have hle : (encodeChunk alphabet shortcut (groupBytes alphabet (some g))).length ≤
              g.length := by
            rw [henc, hg.length]
            split_ifs
            · decide
            · exact Nat.le_of_eq hg.length
          rw [encodeChunks_append h4, List.length_append]
          exact Nat.add_le_add hle ih

/-- **Full groups are written again as they were** iff none of them is cut short. -/
theorem encodeChunks_groups_iff (hz : none ∈ groups → shortcut = true)
    (hfull : ∀ g, some g ∈ groups → Full alphabet g) :
    encodeChunks alphabet shortcut (groups.flatMap (groupBytes alphabet)) =
        groups.flatMap spelled ↔ ∀ h ∈ groups, ¬ CutShort alphabet shortcut h := by
  induction groups with
  | nil => exact iff_of_true rfl nofun
  | cons h groups ih =>
      have hz' : none ∈ groups → shortcut = true := fun hmem => hz (List.mem_cons_of_mem _ hmem)
      have hfull' : ∀ g, some g ∈ groups → Full alphabet g := fun g hg =>
        hfull g (List.mem_cons_of_mem _ hg)
      have ih := ih hz' hfull'
      rw [List.flatMap_cons, List.flatMap_cons, List.forall_mem_cons, ← ih]
      cases h with
      | none =>
          have hshort : encodeChunk alphabet shortcut (groupBytes alphabet none) = ['z'] :=
            if_pos ⟨rfl, rfl, hz List.mem_cons_self⟩
          rw [encodeChunks_append rfl, hshort, spelled, List.append_right_inj]
          exact ⟨fun heq => ⟨not_false, heq⟩, fun heq => heq.2⟩
      | some g =>
          have hg := hfull g List.mem_cons_self
          obtain ⟨h4, henc⟩ := hg.encodeChunk shortcut
          rw [encodeChunks_append h4, henc, spelled]
          split_ifs with hcut
          · -- a zero that is cut short leaves four symbols too few
            refine iff_of_false (fun heq => ?_) fun h => h.1 hcut
            have hlen := congrArg List.length heq
            have hle := length_rewritten hz' hfull'
            rw [List.length_append, List.length_append, hg.length] at hlen
            have hone : ['z'].length = 1 := rfl
            omega
          · rw [List.append_right_inj]
            exact ⟨fun heq => ⟨hcut, heq⟩, fun heq => heq.2⟩

/-! ### The decoder -/

/-- The alphabet of a style and the groups of a text; `none` where the text is refused before any
is read. -/
def a85Groups (input : List Char) (style : String) :
    Option (List UInt8 × Bool × List (Option (List Char))) :=
  match base85Alphabet style with
  | .error _ => none
  | .ok (alphabet, shortcut) =>
      let body := input.filter fun c => !Text.isWhitespace c
      if style = "adobe" then
        some (alphabet, shortcut, groupsOf shortcut (trimClosed (trimOpen body).reverse).reverse)
      else if style = "z85" ∧ (Utf8.encode body).length % 5 ≠ 0 then none
      else some (alphabet, shortcut, groupsOf shortcut body)

/-- The decoder reads the groups. -/
theorem a85Decode_eq (input : List Char) (style : String) :
    match a85Groups input style with
    | none => ∃ e, a85Decode input style = some (.error e)
    | some (alphabet, _, groups) => a85Decode input style = readGroups alphabet groups := by
  unfold a85Groups a85Decode
  cases base85Alphabet style with
  | error e => exact ⟨e, rfl⟩
  | ok found =>
      obtain ⟨alphabet, shortcut⟩ := found
      dsimp only
      split_ifs with hadobe hz85
      · exact decodeGroups_eq alphabet shortcut _
      · exact ⟨_, rfl⟩
      · exact decodeGroups_eq alphabet shortcut _

/-- What the groups of a text are cut from. -/
structure Cut (style : String) (alphabet : List UInt8) (shortcut : Bool)
    (groups : List (Option (List Char))) : Prop where
  found : base85Alphabet style = .ok (alphabet, shortcut)
  few : alphabet.length ≤ 93
  most : ∀ g, some g ∈ groups → g.length ≤ 5
  short : none ∈ groups → shortcut = true

theorem length_alphabet {style : String} (h : base85Alphabet style = .ok (alphabet, shortcut)) :
    alphabet.length ≤ 93 := by
  unfold base85Alphabet at h
  split at h
  · cases h
    decide
  · cases h
    decide
  · cases h
    decide
  · cases h

theorem a85Groups_cut {input : List Char} {style : String}
    (h : a85Groups input style = some (alphabet, shortcut, groups)) :
    Cut style alphabet shortcut groups := by
  have hof : ∀ (alphabet : List UInt8) (shortcut : Bool) (chars : List Char),
      base85Alphabet style = .ok (alphabet, shortcut) →
        Cut style alphabet shortcut (groupsOf shortcut chars) := fun _ _ chars halph => {
    found := halph
    few := length_alphabet halph
    most := fun g hg => (length_of_mem_groupsOf chars hg).2
    short := shortcut_of_mem_groupsOf chars }
  unfold a85Groups at h
  cases halph : base85Alphabet style with
  | error e =>
      rw [halph] at h
      cases h
  | ok found =>
      rw [halph] at h
      dsimp only at h
      split_ifs at h
      · cases h
        exact hof _ _ _ halph
      · cases h
        exact hof _ _ _ halph

/-- **Strict**: no text overflows, an accepted one has nothing but digits and short forms, each full
group fits 32 bits, and full groups are what their bytes are written as. -/
structure Strict (input : List Char) (style : String) : Prop where
  total : a85Decode input style ≠ none
  digits : ∀ b, a85Decode input style = some (.ok b) → ∃ alphabet shortcut groups,
    a85Groups input style = some (alphabet, shortcut, groups) ∧ ∀ g, some g ∈ groups →
      InDigits alphabet g ∧ (g.length = 5 → ∃ v < 2 ^ 32, groupNumber alphabet g = some v)
  same : ∀ b, a85Decode input style = some (.ok b) → ∀ alphabet shortcut groups,
    a85Groups input style = some (alphabet, shortcut, groups) →
      (∀ g, some g ∈ groups → g.length = 5) → a85Encode b style false = .ok (groups.flatMap spelled)

/-- The groups that the decoder is strict with. -/
structure Clean (alphabet : List UInt8) (shortcut : Bool) (groups : List (Option (List Char))) :
    Prop where
  fits : ¬ Overflows alphabet groups
  digits : (∀ h ∈ groups, Readable alphabet h) → ∀ g, some g ∈ groups → InDigits alphabet g
  long : (∀ h ∈ groups, Readable alphabet h) → (∀ g, some g ∈ groups → g.length = 5) →
    ∀ h ∈ groups, ¬ CutShort alphabet shortcut h

/-- A readable group in front of no overflow fits. -/
theorem Readable.fits (h : Readable alphabet (some g)) (hmem : some g ∈ groups)
    (hall : ∀ h ∈ groups, Readable alphabet h) (hno : ¬ Overflows alphabet groups) :
    ∃ v < 2 ^ 32, groupNumber alphabet g = some v := by
  obtain ⟨h2, hsome⟩ := h
  obtain ⟨v, hv⟩ := Option.isSome_iff_exists.mp hsome
  refine ⟨v, Nat.lt_of_not_le fun hbig => hno ?_, hv⟩
  obtain ⟨before, after, rfl⟩ := List.append_of_mem hmem
  exact ⟨before, g, after, v, rfl, fun h hh => hall h (List.mem_append_left _ hh), h2, hv, hbig⟩

/-- **When the decoder is strict**: no group overflows, and where all groups are read, each symbol
is a digit, and in a text of full groups no zero is spelled out that the style cuts short. -/
theorem a85Decode_strict_iff (input : List Char) (style : String) :
    Strict input style ↔ ∀ alphabet shortcut groups,
      a85Groups input style = some (alphabet, shortcut, groups) →
        Clean alphabet shortcut groups := by
  have hdec := a85Decode_eq input style
  cases hgroups : a85Groups input style with
  | none =>
      rw [hgroups] at hdec
      obtain ⟨e, he⟩ := hdec
      refine iff_of_true ⟨?_, ?_, ?_⟩ nofun
      · rw [he]
        exact nofun
      · intro b hb
        rw [he] at hb
        cases hb
      · intro b hb
        rw [he] at hb
        cases hb
  | some found =>
      obtain ⟨alphabet, shortcut, groups⟩ := found
      rw [hgroups] at hdec
      dsimp only at hdec
      obtain ⟨halph, hlen, hfive, hshort⟩ := a85Groups_cut hgroups
      obtain ⟨hnone, hok⟩ := readGroups_spec hlen hfive
      have hwritten : ∀ b, a85Encode b style false = .ok (encodeChunks alphabet shortcut b) :=
        fun b => by rw [a85Encode, halph]; rfl
      constructor
      · rintro ⟨htotal, hdigits, hsame⟩ _ _ _ ⟨⟩
        have hno : ¬ Overflows alphabet groups := fun hover => htotal (hdec.trans (hnone.mpr hover))
        have hread : (∀ h ∈ groups, Readable alphabet h) →
            a85Decode input style = some (.ok (groups.flatMap (groupBytes alphabet))) :=
          fun hall => hdec.trans ((hok _).mpr ⟨hno, hall, rfl⟩)
        have hin : (∀ h ∈ groups, Readable alphabet h) → ∀ g, some g ∈ groups →
            InDigits alphabet g := fun hall g hg => by
          obtain ⟨_, _, _, heq, hin⟩ := hdigits _ (hread hall)
          rw [hgroups] at heq
          cases heq
          exact (hin g hg).1
        refine ⟨hno, hin, fun hall hfull => ?_⟩
        have hback := hsame _ (hread hall) _ _ _ hgroups hfull
        rw [hwritten] at hback
        exact (encodeChunks_groups_iff hshort fun g hg => ⟨hfull g hg, hin hall g hg,
          (hall _ hg).fits hg hall hno⟩).mp (Except.ok.inj hback)
      · intro h
        obtain ⟨hno, hdigits, hlong⟩ := h _ _ _ rfl
        refine ⟨fun hnil => hno (hnone.mp (hdec.symm.trans hnil)), fun b hb => ?_, ?_⟩
        · obtain ⟨-, hall, rfl⟩ := (hok b).mp (hdec.symm.trans hb)
          exact ⟨alphabet, shortcut, groups, hgroups, fun g hg => ⟨hdigits hall g hg, fun _ =>
            (hall _ hg).fits hg hall hno⟩⟩
        · rintro b hb _ _ _ heq hfull
          rw [hgroups] at heq
          cases heq
          obtain ⟨-, hall, rfl⟩ := (hok b).mp (hdec.symm.trans hb)
          rw [hwritten, (encodeChunks_groups_iff hshort fun g hg => ⟨hfull g hg,
            hdigits hall g hg, (hall _ hg).fits hg hall hno⟩).mpr (hlong hall hfull)]

/-- **Past the digits and past 32 bits**: the symbol after the 85th is read as a digit, and a group
with the greatest digits overflows. -/
theorem a85Decode_accepts_v :
    (a85Decode "!!!!v".toList "adobe" = some (.ok [0, 0, 0, 85]) ∧
      ¬ Strict "!!!!v".toList "adobe") ∧
    a85Decode "uuuuu".toList "adobe" = none ∧ ¬ Strict "uuuuu".toList "adobe" := by
  have hread : a85Decode "!!!!v".toList "adobe" = some (.ok [0, 0, 0, 85]) := by decide +kernel
  have hover : a85Decode "uuuuu".toList "adobe" = none := by decide +kernel
  have hgroups : a85Groups "!!!!v".toList "adobe" =
      some (adobeAlphabet, true, [some "!!!!v".toList]) := by decide +kernel
  have hpast : position adobeAlphabet 'v' = some 85 := by decide +kernel
  refine ⟨⟨hread, fun h => ?_⟩, hover, fun h => h.total hover⟩
  obtain ⟨_, _, _, heq, hin⟩ := h.digits _ hread
  rw [hgroups] at heq
  cases heq
  obtain ⟨d, hd, hv⟩ := (hin _ List.mem_cons_self).1 'v' (by decide)
  rw [hpast] at hv
  cases hv
  exact absurd hd (by decide)

end RevBox.Chef
