import RevBox.Support.CText
import RevBox.Support.Hex
import RevBox.Support.Utf8

/-!
# Zygisk — Token

The token of the v2 channel: the file that the module keeps (`main.cpp`) and the Agent reads
(`provider/zygisk.rs`), in its place under `/data/adb` and in the module's directory, where older
versions look for it.  The module holds a copy, the Agent may hold another.

The module takes any file of 128 bytes or more for a token and compares its first 128 bytes; the
Agent takes what is left of the file without blanks at its ends, if that is 128 hexadecimal digits.

* `heals_iff`: a handshake that is tried again after a failure heals the channel iff the two rules
  find the same token in the file.
* `blank_line_locks_out`: a file that begins with an empty line locks the Agent out.

The calls on the two files succeed: a file is there, with its content, or it is not.
-/

namespace RevBox.Zygisk

open CText

/-! ### The module -/

/-- The contents of the token files: `TOKEN_PATH_NEW` and `g_module_dir/token`. -/
structure Disk where
  current : Option Bytes
  legacy : Option Bytes

/-- The module: the files, and the 128 bytes of `g_token`. -/
structure Module where
  disk : Disk
  token : Bytes

/-- `migrate_old_token`. -/
def migrateOldToken (disk : Disk) : Disk :=
  if disk.current.isSome ∨ disk.legacy.isNone then disk else ⟨disk.legacy, none⟩

/-- `mirror_token_to_module_dir`. -/
def mirrorTokenToModuleDir (token : Bytes) (disk : Disk) : Disk :=
  { disk with legacy := some token }

/-- `open`, and a `read` of 128 bytes that is not short. -/
def readRaw (content : Option Bytes) : Option Bytes :=
  content.bind fun bytes => if 128 ≤ bytes.length then some (bytes.take 128) else none

/-- `hex_encode`. -/
def hexEncode (bytes : Bytes) : List Char :=
  bytes.flatMap fun b => [Hex.digit false (b.toNat / 16), Hex.digit false (b.toNat % 16)]

/-- 64 bytes of `/dev/urandom`. -/
abbrev Random := { bytes : Bytes // bytes.length = 64 }

/-- `ensure_token`. -/
def ensureToken (random : Random) (m : Module) : Module :=
  let disk := migrateOldToken m.disk
  match readRaw disk.current with
  | some raw => ⟨disk, raw⟩
  | none =>
      let token := Utf8.encode (hexEncode random.1)
      ⟨mirrorTokenToModuleDir token { disk with current := some token }, token⟩

/-- `reload_token`. -/
def reloadToken (random : Random) (m : Module) : Module :=
  let disk := migrateOldToken m.disk
  match readRaw disk.current with
  | some raw =>
      if raw ≠ m.token then ⟨mirrorTokenToModuleDir raw disk, raw⟩ else ⟨disk, m.token⟩
  | none => ensureToken random ⟨disk, m.token⟩

/-- `ct_equal`. -/
def ctEqual (a b : Bytes) : Bool := cString a = cString b

/-- `authenticate`, at a line `H 2 <token>`: whether it answers `OK`. -/
def authenticate (random : Random) (m : Module) (token : Bytes) : Bool × Module :=
  let m := reloadToken random m
  (!(cString m.token = [] || !ctEqual m.token token), m)

/-! ### The Agent -/

/-- What `read_token_file` lets through: 128 hexadecimal digits. -/
structure Token where
  digits : List Char
  length_digits : digits.length = 128
  isDigit : digits.all Hex.isDigit = true

/-- The bytes of a token. -/
def Token.bytes (t : Token) : Bytes := Utf8.encode t.digits

/-- `read_token_file`. -/
def readTokenFile (content : Option Bytes) : Option Token :=
  content.bind fun bytes =>
    let token := Text.trim (Utf8.fromUtf8Lossy bytes)
    if h : token.length = 128 ∧ token.all Hex.isDigit = true then some ⟨token, h.1, h.2⟩ else none

/-- `read_pro_token`. -/
def readProToken (disk : Disk) : Option Token :=
  match readTokenFile disk.current with
  | some token => some token
  | none => readTokenFile disk.legacy

/-- `handshake_pro`: it is `Ok` when the module answers `OK`. -/
def handshakePro (random : Random) (m : Module) (token : Token) : Bool × Module :=
  authenticate random m token.bytes

/-- `handshake_with_refresh_retry`: whether it is `Ok`, and what it leaves. -/
def handshakeWithRefreshRetry (random : Random) (m : Module) (token : Token) : Bool × Module :=
  match handshakePro random m token with
  | (true, m) => (true, m)
  | (false, m) =>
      match readProToken m.disk with
      | some fresh =>
          if fresh.digits ≠ token.digits then handshakePro random m fresh else (false, m)
      | none => (false, m)

/-- **Healed**: the handshake succeeds, or a token is left on disk that the module holds and the
Agent accepts. -/
def Heals (r : Bool × Module) : Prop :=
  r.1 = true ∨ ∃ t : Token, t.bytes = r.2.token ∧
    (readTokenFile r.2.disk.current = some t ∨ readTokenFile r.2.disk.legacy = some t)

/-- The file that counts is too short for the module, or its first 128 bytes are the token that the
Agent comes with, or they are 128 hexadecimal digits that the Agent can get: only blanks follow
them, or the module does not hold them yet, or they are in the old place as well. -/
def Legible (m : Module) (token : Token) : Prop :=
  ∀ raw, readRaw (migrateOldToken m.disk).current = some raw →
    raw = token.bytes ∨ ∃ t : Token, t.bytes = raw ∧
      (readTokenFile (migrateOldToken m.disk).current = some t ∨ raw ≠ m.token ∨
        readTokenFile (migrateOldToken m.disk).legacy = some t)

/-! ### Tokens and their bytes -/

variable {m : Module} {t : Token} {disk : Disk}

theorem range_of_isDigit {c : Char} (h : Hex.isDigit c = true) :
    0x30 ≤ c.toNat ∧ c.toNat ≤ 0x66 := by
  obtain ⟨d, hd⟩ := Option.isSome_iff_exists.mp h
  unfold Hex.toDigit at hd
  split at hd
  · next hc => exact ⟨hc.1, hc.2.trans (by decide)⟩
  split at hd
  · next hc => exact ⟨Nat.le_trans (by decide) hc.1, hc.2.trans (by decide)⟩
  split at hd
  · next hc => exact ⟨Nat.le_trans (by decide) hc.1, hc.2⟩
  · cases hd

theorem isAscii_of_isDigit {c : Char} (h : Hex.isDigit c = true) : Utf8.isAscii c = true :=
  Utf8.isAscii_iff.mpr ((range_of_isDigit h).2.trans (by decide))

theorem Token.isAscii (t : Token) : t.digits.all Utf8.isAscii = true :=
  List.all_eq_true.mpr fun c hc => isAscii_of_isDigit (List.all_eq_true.mp t.isDigit c hc)

theorem Token.length_bytes (t : Token) : t.bytes.length = 128 :=
  (Utf8.length_encode_ascii t.isAscii).trans t.length_digits

/-- **A token is read as it was written.** -/
theorem readTokenFile_bytes (t : Token) : readTokenFile (some t.bytes) = some t := by
  have htrim : Text.trim (Utf8.fromUtf8Lossy t.bytes) = t.digits := by
    rw [Token.bytes, Utf8.fromUtf8Lossy_encode]
    exact Text.trim_of_no_blank fun c hc =>
      Hex.not_whitespace_of_isDigit (List.all_eq_true.mp t.isDigit c hc)
  simp only [readTokenFile, Option.bind_some, htrim]
  rw [dif_pos ⟨t.length_digits, t.isDigit⟩]

theorem readRaw_length {content : Option Bytes} {raw : Bytes} (h : readRaw content = some raw) :
    raw.length = 128 := by
  obtain ⟨bytes, -, hraw⟩ := Option.bind_eq_some_iff.mp h
  split at hraw
  · next hlen =>
      cases hraw
      exact List.length_take_of_le hlen
  · cases hraw

/-- The bytes of a token are those of a character each. -/
theorem bytes_ne_control {b : UInt8} (h : b ∈ t.bytes) : 0x30 ≤ b.toNat := by
  obtain ⟨c, hc, hb⟩ := List.mem_flatMap.mp h
  have hdigit := List.all_eq_true.mp t.isDigit c hc
  obtain ⟨hlow, hhigh⟩ := range_of_isDigit hdigit
  rw [Utf8.utf8EncodeChar_ascii (isAscii_of_isDigit hdigit), List.mem_singleton] at hb
  have hn : c.val.toUInt8.toNat = c.toNat := by
    rw [UInt32.toNat_toUInt8]
    exact Nat.mod_eq_of_lt (Nat.lt_of_le_of_lt hhigh (by decide))
  rwa [hb, hn]

theorem cString_bytes (t : Token) : cString t.bytes = t.bytes :=
  List.takeWhile_eq_self_iff.mpr fun b hb => by
    have := bytes_ne_control hb
    refine decide_eq_true fun h0 => ?_
    rw [h0] at this
    exact absurd this (by decide)

/-- The 128 bytes of a buffer are the token that is written there as a string. -/
theorem cString_eq_bytes {raw : Bytes} (hl : raw.length = 128) :
    cString raw = t.bytes ↔ raw = t.bytes := by
  constructor
  · intro h
    have hpre : t.bytes <+: raw := h ▸ List.takeWhile_prefix _
    exact (hpre.eq_of_length (t.length_bytes.trans hl.symm)).symm
  · rintro rfl
    exact cString_bytes t

theorem length_hexEncode (random : Random) : (hexEncode random.1).length = 128 := by
  have : ∀ bytes : Bytes, (hexEncode bytes).length = 2 * bytes.length := fun bytes => by
    simp [hexEncode, List.length_flatMap, Nat.mul_comm]
  rw [this, random.2]

theorem isDigit_hexEncode (random : Random) : (hexEncode random.1).all Hex.isDigit = true := by
  refine List.all_eq_true.mpr fun c hc => ?_
  obtain ⟨b, -, hb⟩ := List.mem_flatMap.mp hc
  have hdigit : ∀ n < 16, Hex.isDigit (Hex.digit false n) = true := fun n hn => by
    rw [Hex.isDigit, Hex.toDigit_digit false n hn]
    rfl
  have hlt := b.toNat_lt
  rcases List.mem_cons.mp hb with rfl | hb
  · exact hdigit _ (by omega)
  · rw [List.mem_singleton.mp hb]
    exact hdigit _ (by omega)

/-- The token that is generated. -/
def generated (random : Random) : Token where
  digits := hexEncode random.1
  length_digits := length_hexEncode random
  isDigit := isDigit_hexEncode random

/-! ### Handshakes -/

variable {random : Random}

theorem migrate_migrate (disk : Disk) :
    migrateOldToken (migrateOldToken disk) = migrateOldToken disk := by
  obtain ⟨current, legacy⟩ := disk
  cases current <;> cases legacy <;> rfl

theorem migrate_of_current {bytes : Bytes} (h : disk.current = some bytes) :
    migrateOldToken disk = disk := if_pos (.inl (by rw [h]; rfl))

/-- A file that the module takes for a token is what it holds, after it was read. -/
theorem reload_raw {raw : Bytes} (h : readRaw (migrateOldToken m.disk).current = some raw) :
    reloadToken random m = ⟨⟨(migrateOldToken m.disk).current,
      if raw ≠ m.token then some raw else (migrateOldToken m.disk).legacy⟩, raw⟩ := by
  simp only [reloadToken, h]
  split
  · rfl
  · next heq => rw [not_not.mp heq]

/-- Where there is no such file, a new one is made. -/
theorem reload_none (h : readRaw (migrateOldToken m.disk).current = none) :
    reloadToken random m = ⟨⟨some (generated random).bytes, some (generated random).bytes⟩,
      (generated random).bytes⟩ := by
  simp only [reloadToken, h, ensureToken, migrate_migrate]
  rfl

theorem reload_reload : reloadToken random (reloadToken random m) = reloadToken random m := by
  cases h : readRaw (migrateOldToken m.disk).current with
  | none =>
      rw [reload_none h]
      have hread : readRaw (some (generated random).bytes) = some (generated random).bytes := by
        have hlen := (generated random).length_bytes
        simp [readRaw, hlen, List.take_of_length_le]
      rw [reload_raw (by rw [migrate_of_current rfl]; exact hread), if_neg (not_not.mpr rfl)]
      rfl
  | some raw =>
      obtain ⟨bytes, hbytes, -⟩ := Option.bind_eq_some_iff.mp h
      rw [reload_raw h]
      generalize (if raw ≠ m.token then some raw else (migrateOldToken m.disk).legacy) = legacy
      have hmig : migrateOldToken ⟨(migrateOldToken m.disk).current, legacy⟩ =
          ⟨(migrateOldToken m.disk).current, legacy⟩ := migrate_of_current hbytes
      rw [reload_raw (by rw [hmig]; exact h), if_neg (not_not.mpr rfl), hmig]

/-- **A handshake tells whether the module holds the token, and leaves what it has read.** -/
theorem handshakePro_eq (random : Random) (m : Module) (token : Token) :
    handshakePro random m token =
      (decide (cString (reloadToken random m).token = token.bytes), reloadToken random m) := by
  have hne : token.bytes ≠ [] := fun h => by
    have := token.length_bytes
    rw [h] at this
    cases this
  simp only [handshakePro, authenticate, ctEqual, cString_bytes, Prod.mk.injEq, and_true]
  by_cases h : cString (reloadToken random m).token = token.bytes
  · simp [h, hne]
  · simp [h]

/-- What the two handshakes of a call come to. -/
theorem retry_eq (random : Random) (m : Module) (token : Token) :
    (handshakeWithRefreshRetry random m token).2 = reloadToken random m ∧
      ((handshakeWithRefreshRetry random m token).1 = true →
        ∃ t : Token, cString (reloadToken random m).token = t.bytes ∧
          (t = token ∨ readProToken (reloadToken random m).disk = some t)) ∧
      (cString (reloadToken random m).token = token.bytes →
        (handshakeWithRefreshRetry random m token).1 = true) := by
  rw [handshakeWithRefreshRetry, handshakePro_eq]
  by_cases h : cString (reloadToken random m).token = token.bytes
  · rw [decide_eq_true h]
    exact ⟨rfl, fun _ => ⟨token, h, .inl rfl⟩, fun _ => rfl⟩
  · rw [decide_eq_false h]
    dsimp only
    cases hfresh : readProToken (reloadToken random m).disk with
    | none => exact ⟨rfl, nofun, fun hc => absurd hc h⟩
    | some fresh =>
        dsimp only
        split
        · rw [handshakePro_eq, reload_reload]
          exact ⟨rfl, fun hc => ⟨fresh, of_decide_eq_true hc, .inr rfl⟩, fun hc => absurd hc h⟩
        · exact ⟨rfl, nofun, fun hc => absurd hc h⟩

/-- **Self-healing**: the call heals the channel iff module and Agent read the file alike. -/
theorem heals_iff (random : Random) (m : Module) (token : Token) :
    Heals (handshakeWithRefreshRetry random m token) ↔ Legible m token := by
  obtain ⟨hleft, hok, hfirst⟩ := retry_eq random m token
  cases hread : readRaw (migrateOldToken m.disk).current with
  | none =>
      refine ⟨fun _ raw hraw => by simp [hread] at hraw, fun _ => ?_⟩
      rw [reload_none hread] at hleft
      refine .inr ⟨generated random, by rw [hleft], ?_⟩
      rw [hleft]
      exact .inl (readTokenFile_bytes _)
  | some raw =>
      have hraw : ∀ {t : Token}, cString raw = t.bytes ↔ raw = t.bytes :=
        cString_eq_bytes (readRaw_length hread)
      rw [reload_raw hread] at hleft hok hfirst
      have hplace : ∀ t : Token, t.bytes = raw → ((readTokenFile
          (if raw ≠ m.token then some raw else (migrateOldToken m.disk).legacy) = some t) ↔
          raw ≠ m.token ∨ readTokenFile (migrateOldToken m.disk).legacy = some t) := by
        rintro t rfl
        split
        · next hne => exact ⟨fun _ => .inl hne, fun _ => readTokenFile_bytes t⟩
        · next heq => exact ⟨.inr, fun h => h.resolve_left heq⟩
      constructor
      · rintro h raw' hraw'
        obtain rfl := Option.some.inj (hread.symm.trans hraw')
        rcases h with h | ⟨t, ht, hin⟩
        · obtain ⟨t, ht, rfl | hin⟩ := hok h
          · exact .inl (hraw.mp ht)
          · have ht := (hraw.mp ht).symm
            refine .inr ⟨t, ht, ?_⟩
            rw [readProToken] at hin
            dsimp only at hin
            split at hin
            · next h => exact .inl (h.trans hin)
            · exact .inr ((hplace t ht).mp hin)
        · rw [hleft] at ht hin
          exact .inr ⟨t, ht, hin.imp_right (hplace t ht).mp⟩
      · intro h
        rcases h raw hread with heq | ⟨t, ht, hin⟩
        · exact .inl (hfirst (hraw.mpr heq))
        · refine .inr ⟨t, ?_, ?_⟩
          · rw [hleft]
            exact ht
          · rw [hleft]
            exact hin.imp_right (hplace t ht).mpr

/-- An empty line before a token is nothing to the Agent. -/
theorem readTokenFile_indented (t : Token) : readTokenFile (some (10 :: t.bytes)) = some t := by
  have hread : Utf8.fromUtf8Lossy (10 :: t.bytes) = '\n' :: t.digits :=
    Utf8.fromUtf8Lossy_encode ('\n' :: t.digits)
  have htrim : Text.trim ('\n' :: t.digits) = Text.trim t.digits := rfl
  have hdigits : Text.trim t.digits = t.digits := Text.trim_of_no_blank fun c hc =>
    Hex.not_whitespace_of_isDigit (List.all_eq_true.mp t.isDigit c hc)
  simp only [readTokenFile, Option.bind_some, hread, htrim, hdigits]
  rw [dif_pos ⟨t.length_digits, t.isDigit⟩]

/-- A module that holds the first 128 bytes of a file with an empty line before the token. -/
def indented (t : Token) : Module := ⟨⟨some (10 :: t.bytes), none⟩, 10 :: t.bytes.take 127⟩

theorem reload_indented (random : Random) (t : Token) :
    reloadToken random (indented t) = indented t := by
  have hread : readRaw (migrateOldToken (indented t).disk).current = some (indented t).token := by
    simp [indented, migrateOldToken, readRaw, t.length_bytes]
  rw [reload_raw hread, if_neg (not_not.mpr rfl)]
  rfl

/-- **Locked out**: a token file that begins with an empty line is a token for the Agent, and
another one for the module. -/
theorem blank_line_locks_out : ¬ ∀ random m token,
    Heals (handshakeWithRefreshRetry random m token) := by
  intro hall
  let random : Random := ⟨List.replicate 64 0, rfl⟩
  let t : Token := ⟨List.replicate 128 'a', rfl, by decide⟩
  have hne : ∀ t' : Token, cString (indented t).token ≠ t'.bytes := fun t' heq => by
    have hmem : 10 ∈ t'.bytes := heq ▸ List.mem_cons_self
    exact absurd (bytes_ne_control hmem) (by decide)
  have hretry : handshakeWithRefreshRetry random (indented t) t = (false, indented t) := by
    have hfresh : readProToken (indented t).disk = some t := by
      simp only [readProToken, indented, readTokenFile_indented]
    rw [handshakeWithRefreshRetry, handshakePro_eq, reload_indented, decide_eq_false (hne t)]
    simp only [hfresh, ne_eq, not_true_eq_false, if_false]
  rcases hall random (indented t) t with hok | ⟨t', ht', -⟩
  · rw [hretry] at hok
    cases hok
  · rw [hretry] at ht'
    exact hne t' (ht' ▸ cString_bytes t')

end RevBox.Zygisk
