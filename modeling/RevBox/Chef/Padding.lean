import RevBox.Chef.Cipher

/-!
# Chef — Padding

What `unpad` accepts, against what `pad` makes.

* `unpad_exact_iff`: the two agree on some bytes unless these end, for ISO 7816-4, in a marker with
  a block or more of zeros behind it, or, for ANSI X9.23, in a filler that is not zero.
* `filler_accepted`: a block of ANSI X9.23 with any filler is accepted.
-/

namespace RevBox.Chef

variable {block : Nat} {data x : List UInt8}

/-- `unpad` takes from these bytes exactly what `pad` has put there. -/
def UnpadsExactly (data : List UInt8) (block : Nat) (scheme : String) : Prop :=
  ∀ x, unpad data block scheme = .ok x ↔ pad x block scheme = .ok data

/-- The bytes do not end in more than a block of ISO 7816-4, nor in ANSI X9.23 with a filler other
than zero. -/
def Tight (data : List UInt8) (block : Nat) (scheme : String) : Prop :=
  data.length % block = 0 →
    (scheme = "iso7816" → ∀ x k, data = x ++ [0x80] ++ List.replicate k 0 → k < block) ∧
    (scheme = "ansix923" → ∀ x filler count, data = x ++ filler ++ [count] →
      filler.length + 1 = count.toNat → count.toNat ≤ block → ∀ b ∈ filler, b = 0)

/-! ### What is accepted -/

/-- What `pad` adds is settled by the length. -/
theorem need_eq {n count : Nat} (hpos : 0 < count) (hle : count ≤ block)
    (hwhole : (n + count) % block = 0) : block - n % block = count := by
  have hblock : 0 < block := Nat.lt_of_lt_of_le hpos hle
  have hlt := Nat.mod_lt n hblock
  rw [Nat.add_mod] at hwhole
  rcases Nat.lt_or_eq_of_le hle with hcount | rfl
  · rw [Nat.mod_eq_of_lt hcount] at hwhole
    rcases Nat.lt_or_ge (n % block + count) block with hsum | hsum
    · rw [Nat.mod_eq_of_lt hsum] at hwhole
      omega
    · rw [Nat.mod_eq_sub_mod hsum, Nat.mod_eq_of_lt (by omega)] at hwhole
      omega
  · rw [Nat.mod_self, Nat.add_zero, Nat.mod_mod] at hwhole
    omega

/-- `unpad` refuses what is empty or not made of whole blocks. -/
theorem unpad_whole {scheme : String} (hscheme : scheme ∈ markedPaddings)
    (h : unpad data block scheme = .ok x) : data ≠ [] ∧ data.length % block = 0 := by
  have hnone : scheme ≠ "zero" ∧ scheme ≠ "none" := by
    simp only [markedPaddings, List.mem_cons, List.not_mem_nil, or_false] at hscheme
    rcases hscheme with rfl | rfl | rfl <;> exact ⟨by decide, by decide⟩
  rw [unpad, if_neg hnone.1, if_neg hnone.2] at h
  split at h
  · cases h
  · rename_i hlast
    refine ⟨fun hnil => ?_, ?_⟩
    · rw [hnil] at hlast
      cases hlast
    · by_contra hwhole
      rw [if_pos hwhole] at h
      cases h

theorem unpad_pkcs7_inv (h : unpad data block "pkcs7" = .ok x) : ∃ count : UInt8,
    0 < count.toNat ∧ count.toNat ≤ block ∧ data = x ++ List.replicate count.toNat count := by
  obtain ⟨hne, hwhole⟩ := unpad_whole (by decide) h
  have hlast := List.getLast?_eq_some_getLast hne
  simp only [unpad, hlast, hwhole, ne_eq, not_true_eq_false, if_false, String.reduceEq] at h
  split at h
  · cases h
  rename_i hcount
  simp only [not_or] at hcount
  obtain ⟨hzero, hblock, hlen⟩ := hcount
  split at h
  · cases h
  rename_i hsame
  cases h
  refine ⟨data.getLast hne, Nat.pos_of_ne_zero hzero, Nat.le_of_not_lt hblock, ?_⟩
  have htail : data.drop (data.length - (data.getLast hne).toNat) =
      List.replicate (data.getLast hne).toNat (data.getLast hne) := by
    refine List.eq_replicate_iff.mpr ⟨?_, fun b hb => ?_⟩
    · rw [List.length_drop]
      omega
    · by_contra hb'
      refine hsame (List.any_eq_true.mpr ⟨b, hb, decide_eq_true fun heq => hb' ?_⟩)
      exact UInt8.toNat.inj heq
  rw [← htail, List.take_append_drop]

theorem unpad_iso7816_inv (h : unpad data block "iso7816" = .ok x) : ∃ k,
    data = x ++ [0x80] ++ List.replicate k 0 := by
  obtain ⟨hne, hwhole⟩ := unpad_whole (by decide) h
  have hlast := List.getLast?_eq_some_getLast hne
  simp only [unpad, hlast, hwhole, ne_eq, not_true_eq_false, if_false, String.reduceEq] at h
  split at h
  · cases h
  rename_i hmark
  cases h
  -- what is kept ends in the marker, and what is dropped is zero
  obtain ⟨kept, hkept⟩ := List.getLast?_eq_some_iff.mp (not_not.mp hmark)
  have hdropped : data.rtakeWhile (fun b : UInt8 => decide (b = 0)) = List.replicate
      (data.rtakeWhile fun b : UInt8 => decide (b = 0)).length 0 :=
    List.eq_replicate_iff.mpr ⟨rfl, fun b hb => by
      have := List.mem_rtakeWhile_imp hb
      exact of_decide_eq_true this⟩
  refine ⟨(data.rtakeWhile fun b : UInt8 => decide (b = 0)).length, ?_⟩
  rw [hkept, List.dropLast_concat, ← hkept, ← hdropped, List.rdropWhile_append_rtakeWhile]

theorem unpad_ansix923_inv (h : unpad data block "ansix923" = .ok x) : ∃ filler count,
    data = x ++ filler ++ [count] ∧ filler.length + 1 = count.toNat ∧ count.toNat ≤ block := by
  obtain ⟨hne, hwhole⟩ := unpad_whole (by decide) h
  have hlast := List.getLast?_eq_some_getLast hne
  simp only [unpad, hlast, hwhole, ne_eq, not_true_eq_false, if_false, String.reduceEq] at h
  split at h
  · cases h
  rename_i hcount
  cases h
  simp only [not_or] at hcount
  obtain ⟨hzero, hblock⟩ := hcount
  have hlen := List.length_pos_iff.mpr hne
  -- a whole block is there
  have hle : block ≤ data.length := Nat.le_of_dvd hlen (Nat.dvd_of_mod_eq_zero hwhole)
  have htail : (data.drop (data.length - (data.getLast hne).toNat)) ≠ [] := fun hnil => by
    rw [List.drop_eq_nil_iff] at hnil
    omega
  refine ⟨(data.drop (data.length - (data.getLast hne).toNat)).dropLast, data.getLast hne, ?_, ?_,
    Nat.le_of_not_lt hblock⟩
  · have hend : (data.drop (data.length - (data.getLast hne).toNat)).getLast htail =
        data.getLast hne := List.getLast_drop htail
    have hjoin := List.dropLast_append_getLast htail
    rw [hend] at hjoin
    rw [List.append_assoc, hjoin, List.take_append_drop]
  · rw [List.length_dropLast, List.length_drop]
    omega

/-! ### Exactness -/

theorem unpadsExactly_pkcs7 (hblock : 0 < block) (hbyte : block < 256) :
    UnpadsExactly data block "pkcs7" := by
  intro x
  constructor
  · intro h
    obtain ⟨count, hpos, hle, rfl⟩ := unpad_pkcs7_inv h
    have hwhole := (unpad_whole (by decide) h).2
    rw [List.length_append, List.length_replicate] at hwhole
    rw [pad, need_eq hpos hle hwhole, UInt8.ofNat_toNat]
  · intro h
    obtain ⟨buf, hpad, -, hunpad⟩ :=
      unpad_pad hblock hbyte (show "pkcs7" ∈ markedPaddings by decide) x
    cases hpad.symm.trans h
    exact hunpad

theorem unpadsExactly_iso7816 (hblock : 0 < block) :
    UnpadsExactly data block "iso7816" ↔ Tight data block "iso7816" := by
  constructor
  · intro hexact hwhole
    refine ⟨fun _ x k hdata => ?_, fun h => absurd h (by decide)⟩
    subst hdata
    have hsum : (x.length + 1 + k) % block = 0 := by
      rw [List.length_append, List.length_append, List.length_replicate] at hwhole
      exact hwhole
    obtain ⟨n, hn, -, hpad⟩ := pad_iso7816 hblock x
    have heq := hpad.symm.trans ((hexact x).mp (unpad_iso7816 hsum))
    have hlen := congrArg List.length (Except.ok.inj heq)
    simp only [List.length_append, List.length_replicate, Nat.add_left_cancel_iff] at hlen
    exact hlen ▸ hn
  · intro htight x
    constructor
    · intro h
      obtain ⟨k, rfl⟩ := unpad_iso7816_inv h
      have hwhole := (unpad_whole (by decide) h).2
      have hk := (htight hwhole).1 rfl x k rfl
      have hfill : ((x ++ [(0x80 : UInt8)]).length + k) % block = 0 := by
        rw [List.length_append, List.length_replicate] at hwhole
        exact hwhole
      exact congrArg Except.ok (pushZeros_fill hfill hk (Nat.le_of_lt hk))
    · intro h
      obtain ⟨k, -, hsum, hpad⟩ := pad_iso7816 hblock x
      cases hpad.symm.trans h
      exact unpad_iso7816 hsum

theorem unpadsExactly_ansix923 (hblock : 0 < block) (hbyte : block < 256) :
    UnpadsExactly data block "ansix923" ↔ Tight data block "ansix923" := by
  constructor
  · intro hexact hwhole
    refine ⟨fun h => absurd h (by decide), fun _ x filler count hdata hfiller hle => ?_⟩
    subst hdata
    have hsum : (x.length + count.toNat) % block = 0 := by
      rw [List.length_append, List.length_append, List.length_singleton, Nat.add_assoc,
        hfiller] at hwhole
      exact hwhole
    have hpad := (hexact x).mp (unpad_ansix923 hfiller hle hsum)
    have heq := List.append_inj' (Except.ok.inj hpad) rfl
    have hzeros := List.append_cancel_left heq.1
    intro b hb
    rw [← hzeros] at hb
    exact List.eq_of_mem_replicate hb
  · intro htight x
    constructor
    · intro h
      obtain ⟨filler, count, rfl, hfiller, hle⟩ := unpad_ansix923_inv h
      have hwhole := (unpad_whole (by decide) h).2
      have hzero := (htight hwhole).2 rfl x filler count rfl hfiller hle
      rw [List.length_append, List.length_append, List.length_singleton, Nat.add_assoc,
        hfiller] at hwhole
      have hpos : 0 < count.toNat := hfiller ▸ Nat.succ_pos _
      have hreplicate : filler = List.replicate (count.toNat - 1) 0 := by
        refine List.eq_replicate_iff.mpr ⟨?_, hzero⟩
        rw [← hfiller, Nat.add_sub_cancel]
      rw [pad, need_eq hpos hle hwhole, UInt8.ofNat_toNat, ← hreplicate]
    · intro h
      obtain ⟨buf, hpad, -, hunpad⟩ :=
        unpad_pad hblock hbyte (show "ansix923" ∈ markedPaddings by decide) x
      cases hpad.symm.trans h
      exact hunpad

/-- **Padding is taken off exactly** where the bytes are tight. -/
theorem unpad_exact_iff (hblock : 0 < block) (hbyte : block < 256) {scheme : String}
    (hscheme : scheme ∈ ["pkcs7", "iso7816", "ansix923"]) (data : List UInt8) :
    UnpadsExactly data block scheme ↔ Tight data block scheme := by
  simp only [List.mem_cons, List.not_mem_nil, or_false] at hscheme
  rcases hscheme with rfl | rfl | rfl
  · refine ⟨fun _ _ => ?_, fun _ => unpadsExactly_pkcs7 hblock hbyte⟩
    exact ⟨fun h => absurd h (by decide), fun h => absurd h (by decide)⟩
  · exact unpadsExactly_iso7816 hblock
  · exact unpadsExactly_ansix923 hblock hbyte

/-- Four bytes of PKCS#7, in blocks of four. -/
theorem unpad_exact_pkcs7 : UnpadsExactly [1, 2, 2, 2] 4 "pkcs7" ↔ Tight [1, 2, 2, 2] 4 "pkcs7" :=
  unpad_exact_iff (by decide) (by decide) (by decide) [1, 2, 2, 2]

/-- A filler of ANSI X9.23 that is not zero is accepted, and so is a marker of ISO 7816-4 a block
away. -/
theorem filler_accepted :
    ¬ UnpadsExactly [1, 7, 7, 3] 4 "ansix923" ∧ ¬ UnpadsExactly [0x80, 0, 0, 0] 2 "iso7816" := by
  constructor
  · intro h
    have hpad : pad [1] 4 "ansix923" = .ok [1, 7, 7, 3] := (h [1]).mp rfl
    cases hpad
  · intro h
    have hpad : pad [] 2 "iso7816" = .ok [0x80, 0, 0, 0] := (h []).mp rfl
    cases hpad

end RevBox.Chef
