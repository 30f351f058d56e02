import RevBox.Chef.Data
import RevBox.Support.Chaining
import Mathlib.Data.List.DropRight

/-!
# Chef — Cipher

The block modes of `services/chef/ops/cipher.rs`: padding, the chaining loops of `run_block`, and
their inverses.

* `unpad_pad`: padding is taken off again.
* `runBlock_round_trip`: what `run_block` encrypts, it decrypts.
-/

namespace RevBox.Chef

/-- `MODES`. -/
def modes : List String := ["cbc", "ecb", "ctr", "cfb8", "cfb128", "ofb"]

/-- What the code uses of a block cipher with its key: a permutation of the blocks and its
inverse. -/
structure BlockCipher where
  block : Nat
  encryptBlock : List UInt8 → List UInt8
  decryptBlock : List UInt8 → List UInt8
  length_encrypt : ∀ b, b.length = block → (encryptBlock b).length = block
  length_decrypt : ∀ b, b.length = block → (decryptBlock b).length = block
  decrypt_encrypt : ∀ b, b.length = block → decryptBlock (encryptBlock b) = b
  encrypt_decrypt : ∀ b, b.length = block → encryptBlock (decryptBlock b) = b

/-- `xor_into`. -/
def xorInto : List UInt8 → List UInt8 → List UInt8
  | t :: target, o :: other => (t ^^^ o) :: xorInto target other
  | target, _ => target

/-- Zeros pushed until the blocks are whole, at most `fuel` of them. -/
def pushZeros (block : Nat) : Nat → List UInt8 → List UInt8
  | 0, out => out
  | fuel + 1, out =>
      if out.length % block ≠ 0 then pushZeros block fuel (out ++ [0]) else out

/-- `pad`. -/
def pad (data : List UInt8) (block : Nat) (scheme : String) : ChefResult (List UInt8) :=
  let need := block - data.length % block
  match scheme with
  | "none" => .ok data
  | "pkcs7" => .ok (data ++ List.replicate need (.ofNat need))
  | "iso7816" => .ok (pushZeros block block (data ++ [0x80]))
  | "ansix923" => .ok (data ++ List.replicate (need - 1) 0 ++ [.ofNat need])
  | "zero" =>
      if data.length % block = 0 then .ok data else .ok (data ++ List.replicate need 0)
  | other => .error (fail s!"未知的填充方式「{other}」")

/-- `unpad`. -/
def unpad (data : List UInt8) (block : Nat) (scheme : String) : ChefResult (List UInt8) :=
  if scheme = "zero" then .ok (data.rdropWhile fun b => b = 0)
  else if scheme = "none" then .ok data
  else
    match data.getLast? with
    | none => .error (fail "密文长度不是分组的整数倍，解不了（密钥/IV/输入格式先核对一下）")
    | some last =>
        if data.length % block ≠ 0 then
          .error (fail "密文长度不是分组的整数倍，解不了（密钥/IV/输入格式先核对一下）")
        else
          match scheme with
          | "pkcs7" =>
              let count := last.toNat
              if count = 0 ∨ count > block ∨ count > data.length then
                .error (fail "PKCS7 填充不合法：多半是密钥或 IV 不对")
              else if (data.drop (data.length - count)).any fun b => b.toNat ≠ count then
                .error (fail "PKCS7 填充不合法：填充字节彼此不一致，密钥或 IV 不对")
              else .ok (data.take (data.length - count))
          | "iso7816" =>
              let kept := data.rdropWhile fun b => b = 0
              if kept.getLast? ≠ some 0x80 then
                .error (fail "ISO 7816-4 填充不合法（结尾不是 0x80 加若干 0x00）")
              else .ok kept.dropLast
          | "ansix923" =>
              let count := last.toNat
              if count = 0 ∨ count > block then .error (fail "ANSI X9.23 填充不合法")
              else .ok (data.take (data.length - count))
          | other => .error (fail s!"未知的填充方式「{other}」")

/-- `require_whole_blocks`. -/
def requireWholeBlocks (data : List UInt8) (block : Nat) : ChefResult Unit :=
  if data.length % block = 0 then .ok ()
  else .error (fail (s!"数据长度 {data.length} 不是分组 {block} 字节的整数倍。" ++
    "填充选 none 时必须是整数倍；正常密文请把 padding 调成 pkcs7"))

/-- A big-endian number from its last byte on, one higher. -/
def increaseRev : List UInt8 → List UInt8
  | [] => []
  | byte :: rest => if byte + 1 ≠ 0 then (byte + 1) :: rest else (byte + 1) :: increaseRev rest

/-- `increase_be`. -/
def increaseBe (counter : List UInt8) : List UInt8 := (increaseRev counter.reverse).reverse

/-- The bytes of a piece, each with its byte of the key stream. -/
def produced (chunk ks : List UInt8) : List UInt8 := List.zipWith (· ^^^ ·) chunk ks

/-! ### The turns of the loops, by mode and direction -/

/-- A turn of the `ecb` loop. -/
def ecbTurn (crypt : List UInt8 → List UInt8) (_ : Unit) (chunk : List UInt8) :
    List UInt8 × Unit :=
  (crypt chunk, ())

/-- A turn of the `cbc` loop that encrypts. -/
def cbcEncryptTurn (cipher : BlockCipher) (counter chunk : List UInt8) :
    List UInt8 × List UInt8 :=
  let b := cipher.encryptBlock (xorInto chunk counter)
  (b, b)

/-- A turn of the `cbc` loop that decrypts. -/
def cbcDecryptTurn (cipher : BlockCipher) (counter chunk : List UInt8) :
    List UInt8 × List UInt8 :=
  (xorInto (cipher.decryptBlock chunk) counter, chunk)

/-- A turn of the `ctr` loop. -/
def ctrTurn (cipher : BlockCipher) (counter chunk : List UInt8) : List UInt8 × List UInt8 :=
  (produced chunk (cipher.encryptBlock counter), increaseBe counter)

/-- A turn of the `cfb8` loop, on one byte. -/
def cfb8Turn (cipher : BlockCipher) (decrypt : Bool) (register : List UInt8) (byte : UInt8) :
    UInt8 × List UInt8 :=
  let out := byte ^^^ (cipher.encryptBlock register).headD 0
  (out, register.drop 1 ++ [if decrypt then byte else out])

/-- A turn of the `cfb128` loop. -/
def cfb128Turn (cipher : BlockCipher) (decrypt : Bool) (register chunk : List UInt8) :
    List UInt8 × List UInt8 :=
  let out := produced chunk (cipher.encryptBlock register)
  let next := if decrypt then chunk else out
  (out, next.take cipher.block ++ List.replicate (cipher.block - next.length) 0)

/-- A turn of the `ofb` loop. -/
def ofbTurn (cipher : BlockCipher) (register chunk : List UInt8) : List UInt8 × List UInt8 :=
  let ks := cipher.encryptBlock register
  (produced chunk ks, ks)

/-- A loop over the blocks of the data. -/
def overBlocks {σ : Type} (cipher : BlockCipher) (turn : σ → List UInt8 → List UInt8 × σ)
    (register : σ) (data : List UInt8) : List UInt8 :=
  (Chaining.run turn register (Chaining.chunks cipher.block data)).flatten

/-- The two modes that pad. -/
def runPadded {σ : Type} (cipher : BlockCipher) (padding : String)
    (encryptTurn decryptTurn : σ → List UInt8 → List UInt8 × σ) (register : σ)
    (data : List UInt8) (decrypt : Bool) : ChefResult (List UInt8) := do
  if decrypt then
    requireWholeBlocks data cipher.block
    unpad (overBlocks cipher decryptTurn register data) cipher.block padding
  else
    let buf ← pad data cipher.block padding
    requireWholeBlocks buf cipher.block
    pure (overBlocks cipher encryptTurn register buf)

/-- `run_block`. -/
def runBlock (newFromSlice : List UInt8 → Option BlockCipher) (mode padding : String)
    (key iv data : List UInt8) (decrypt : Bool) : ChefResult (List UInt8) :=
  match newFromSlice key with
  | none => .error (fail (s!"密钥长度 {key.length} 字节不被这个密码接受" ++
      "（先确认密钥写法 hex/base64/utf8 选对了）"))
  | some cipher =>
      if mode ≠ "ecb" ∧ iv.length ≠ cipher.block then
        .error (fail (s!"{mode} 需要 {cipher.block} 字节的 IV，当前 {iv.length} 字节" ++
          "（密钥写法选 hex 时别忘了少写一个字符就少半字节）"))
      else
        match mode with
        | "ecb" => runPadded cipher padding (ecbTurn cipher.encryptBlock)
            (ecbTurn cipher.decryptBlock) () data decrypt
        | "cbc" => runPadded cipher padding (cbcEncryptTurn cipher) (cbcDecryptTurn cipher) iv
            data decrypt
        | "ctr" => .ok (overBlocks cipher (ctrTurn cipher) iv data)
        | "cfb8" => .ok (Chaining.run (cfb8Turn cipher decrypt) iv data)
        | "cfb128" => .ok (overBlocks cipher (cfb128Turn cipher decrypt) iv data)
        | "ofb" => .ok (overBlocks cipher (ofbTurn cipher) iv data)
        | other => .error (fail s!"未知的分组模式「{other}」")

/-! ### Padding -/

variable {block : Nat}

/-- As many zeros are pushed as make the blocks whole. -/
theorem pushZeros_fill : ∀ {k fuel : Nat} {out : List UInt8}, (out.length + k) % block = 0 →
    k < block → k ≤ fuel → pushZeros block fuel out = out ++ List.replicate k 0
  | 0, 0, out, _, _, _ => (List.append_nil out).symm
  | 0, fuel + 1, out, hwhole, _, _ => by
      rw [pushZeros, if_neg fun h : out.length % block ≠ 0 => h hwhole, List.replicate_zero,
        List.append_nil]
  | k + 1, fuel + 1, out, hwhole, hk, hfuel => by
      have hopen : out.length % block ≠ 0 := fun hz => by
        rw [Nat.add_mod, hz, Nat.zero_add, Nat.mod_mod, Nat.mod_eq_of_lt hk] at hwhole
        exact absurd hwhole (Nat.succ_ne_zero k)
      have hlen : (out ++ [(0 : UInt8)]).length + k = out.length + (k + 1) := by
        rw [List.length_append, List.length_singleton, Nat.add_assoc, Nat.add_comm 1 k]
      rw [pushZeros, if_pos hopen, pushZeros_fill (hlen ▸ hwhole) (Nat.lt_of_succ_lt hk)
        (Nat.le_of_succ_le_succ hfuel), List.append_assoc, List.replicate_succ]
      rfl

/-- What `pad` adds: at least a byte, at most a block. -/
theorem need_bounds (hblock : 0 < block) (n : Nat) :
    0 < block - n % block ∧ block - n % block ≤ block ∧ (n + (block - n % block)) % block = 0 := by
  have hlt := Nat.mod_lt n hblock
  refine ⟨by omega, by omega, ?_⟩
  have hn := Nat.div_add_mod n block
  have heq : n + (block - n % block) = block * (n / block) + block := by omega
  rw [heq, Nat.mul_add_mod, Nat.mod_self]

theorem toNat_ofNat_need {need : Nat} (hle : need ≤ block) (hbyte : block < 256) :
    (UInt8.ofNat need).toNat = need := by
  rw [UInt8.toNat_ofNat']
  exact Nat.mod_eq_of_lt (Nat.lt_of_le_of_lt hle hbyte)

/-- The marker of ISO 7816-4 stands before less than a block of zeros. -/
theorem pad_iso7816 (hblock : 0 < block) (data : List UInt8) :
    ∃ k < block, (data.length + 1 + k) % block = 0 ∧
      pad data block "iso7816" = .ok (data ++ [0x80] ++ List.replicate k 0) := by
  obtain ⟨hpos, hle, hwhole⟩ := need_bounds hblock data.length
  have hk : block - data.length % block - 1 < block := by omega
  have hsum : data.length + 1 + (block - data.length % block - 1) =
      data.length + (block - data.length % block) := by omega
  have hfill : ((data ++ [(0x80 : UInt8)]).length + (block - data.length % block - 1)) % block =
      0 := by
    rw [List.length_append, List.length_singleton, hsum, hwhole]
  exact ⟨_, hk, hsum ▸ hwhole, congrArg Except.ok (pushZeros_fill hfill hk (Nat.le_of_lt hk))⟩

/-- The paddings that can be told from the data. -/
def markedPaddings : List String := ["pkcs7", "iso7816", "ansix923"]

theorem unpad_pkcs7 {data : List UInt8} {need : Nat} (hpos : 0 < need) (hle : need ≤ block)
    (hbyte : block < 256) (hwhole : (data.length + need) % block = 0) :
    unpad (data ++ List.replicate need (.ofNat need)) block "pkcs7" = .ok data := by
  have hneed : (UInt8.ofNat need).toNat = need := toNat_ofNat_need hle hbyte
  have hlast : (data ++ List.replicate need (UInt8.ofNat need)).getLast? = some (.ofNat need) := by
    rw [List.getLast?_append, List.getLast?_replicate, if_neg (by omega)]
    rfl
  have hlen : (data ++ List.replicate need (UInt8.ofNat need)).length = data.length + need := by
    rw [List.length_append, List.length_replicate]
  have hcount : ¬ (need = 0 ∨ need > block ∨ need > data.length + need) := by omega
  have hsame : ¬ ((List.replicate need (UInt8.ofNat need)).any fun b => b.toNat ≠ need) = true := by
    rw [List.any_replicate, hneed]
    simp
  simp only [unpad, hlast, hlen, hwhole, hneed, hcount, Nat.add_sub_cancel, List.drop_left,
    List.take_left, hsame]
  rfl

theorem unpad_iso7816 {data : List UInt8} {n : Nat} (hwhole : (data.length + 1 + n) % block = 0) :
    unpad (data ++ [0x80] ++ List.replicate n 0) block "iso7816" = .ok data := by
  have hkept : (data ++ [0x80] ++ List.replicate n 0).rdropWhile (fun b : UInt8 => b = 0) =
      data ++ [0x80] := by
    rw [List.rdropWhile, List.reverse_append, List.dropWhile_append_of_pos (by simp)]
    exact List.rdropWhile_concat_neg (fun b : UInt8 => decide (b = 0)) data 0x80 (by decide)
  have hlen : (data ++ [0x80] ++ List.replicate n (0 : UInt8)).length = data.length + 1 + n := by
    rw [List.length_append, List.length_append, List.length_replicate]
    rfl
  obtain ⟨last, hlast⟩ : ∃ last,
      (data ++ [0x80] ++ List.replicate n (0 : UInt8)).getLast? = some last :=
    ⟨_, List.getLast?_eq_some_getLast (by simp)⟩
  simp only [unpad, hlast, hlen, hwhole, hkept, List.getLast?_concat, List.dropLast_concat]
  rfl

/-- The filler of ANSI X9.23 is not looked at. -/
theorem unpad_ansix923 {data filler : List UInt8} {count : UInt8}
    (hfiller : filler.length + 1 = count.toNat) (hle : count.toNat ≤ block)
    (hwhole : (data.length + count.toNat) % block = 0) :
    unpad (data ++ filler ++ [count]) block "ansix923" = .ok data := by
  have hlen : (data ++ filler ++ [count]).length = data.length + count.toNat := by
    rw [List.length_append, List.length_append, List.length_singleton, Nat.add_assoc, hfiller]
  have hcount : ¬ (count.toNat = 0 ∨ count.toNat > block) := by omega
  have htake : (data ++ filler ++ [count]).take data.length = data := by
    rw [List.append_assoc, List.take_left]
  simp only [unpad, List.getLast?_concat, hlen, hwhole, hcount, Nat.add_sub_cancel, htake]
  rfl

/-- **Padding is taken off again.** -/
theorem unpad_pad (hblock : 0 < block) (hbyte : block < 256) {scheme : String}
    (hscheme : scheme ∈ markedPaddings) (data : List UInt8) : ∃ buf,
      pad data block scheme = .ok buf ∧ buf.length % block = 0 ∧ unpad buf block scheme = .ok data := by
  obtain ⟨hpos, hle, hwhole⟩ := need_bounds hblock data.length
  simp only [markedPaddings, List.mem_cons, List.not_mem_nil, or_false] at hscheme
  rcases hscheme with rfl | rfl | rfl
  · refine ⟨_, rfl, ?_, unpad_pkcs7 hpos hle hbyte hwhole⟩
    rw [List.length_append, List.length_replicate, hwhole]
  · obtain ⟨k, -, hk, hpad⟩ := pad_iso7816 hblock data
    refine ⟨_, hpad, ?_, unpad_iso7816 hk⟩
    rw [List.length_append, List.length_append, List.length_replicate]
    exact hk
  · have hneed := toNat_ofNat_need hle hbyte
    refine ⟨_, rfl, ?_, unpad_ansix923 ?_ (hneed.trans_le hle) (hneed.symm ▸ hwhole)⟩
    · rw [List.length_append, List.length_append, List.length_replicate, List.length_singleton,
        ← hwhole]
      congr 1
      omega
    · rw [List.length_replicate, hneed]
      exact Nat.sub_add_cancel hpos

/-! ### The loops undone -/

theorem xorInto_xorInto : ∀ a b : List UInt8, xorInto (xorInto a b) b = a
  | [], [] => rfl
  | [], _ :: _ => rfl
  | _ :: _, [] => rfl
  | a :: as, b :: bs => by
      rw [xorInto, xorInto, xorInto_xorInto as bs, UInt8.xor_assoc, UInt8.xor_self, UInt8.xor_zero]

theorem length_xorInto : ∀ a b : List UInt8, (xorInto a b).length = a.length
  | [], _ => rfl
  | _ :: _, [] => rfl
  | _ :: as, _ :: bs => congrArg Nat.succ (length_xorInto as bs)

theorem produced_produced : ∀ {chunk ks : List UInt8}, chunk.length ≤ ks.length →
    produced (produced chunk ks) ks = chunk
  | [], _, _ => rfl
  | _ :: _, [], h => absurd h (Nat.not_succ_le_zero _)
  | a :: as, b :: bs, h => by
      have ih : produced (produced as bs) bs = as := produced_produced (Nat.le_of_succ_le_succ h)
      have hcons : produced (produced (a :: as) (b :: bs)) (b :: bs) =
          (a ^^^ b ^^^ b) :: produced (produced as bs) bs := rfl
      rw [hcons, ih, UInt8.xor_assoc, UInt8.xor_self, UInt8.xor_zero]

theorem length_produced {chunk ks : List UInt8} (h : chunk.length ≤ ks.length) :
    (produced chunk ks).length = chunk.length := by
  rw [produced, List.length_zipWith, Nat.min_eq_left h]

theorem length_increaseBe (counter : List UInt8) :
    (increaseBe counter).length = counter.length := by
  have hrev : ∀ bytes : List UInt8, (increaseRev bytes).length = bytes.length := by
    intro bytes
    induction bytes with
    | nil => rfl
    | cons b bytes ih =>
        rw [increaseRev]
        split
        · rfl
        · exact congrArg Nat.succ ih
  rw [increaseBe, List.length_reverse, hrev, List.length_reverse]

variable {cipher : BlockCipher}

/-- The registers of the two directions: the same block. -/
def SameBlock (cipher : BlockCipher) (s t : List UInt8) : Prop := s = t ∧ s.length = cipher.block

/-- A turn that keeps the register a block and its output as long as its piece. -/
def KeepsLength (cipher : BlockCipher) (P : List UInt8 → Prop)
    (turn : List UInt8 → List UInt8 → List UInt8 × List UInt8) : Prop :=
  ∀ s chunk, s.length = cipher.block → P chunk →
    (turn s chunk).1.length = chunk.length ∧ (turn s chunk).2.length = cipher.block

theorem KeepsLength.lengths {P : List UInt8 → Prop}
    {turn : List UInt8 → List UInt8 → List UInt8 × List UInt8} (h : KeepsLength cipher P turn)
    {s : List UInt8} (hs : s.length = cipher.block) {chunks : List (List UInt8)}
    (hchunks : ∀ c ∈ chunks, P c) :
    List.Forall₂ (fun c c' => c'.length = c.length) chunks (Chaining.run turn s chunks) :=
  Chaining.forall_run (I := fun s : List UInt8 => s.length = cipher.block)
    (R := fun c c' : List UInt8 => c'.length = c.length) (fun s a hs ha => h s a hs ha) hs hchunks

/-- A loop over blocks is undone by the loop of the other direction. -/
theorem overBlocks_overBlocks {σ τ : Type} {R : σ → τ → Prop} {P : List UInt8 → Prop}
    {turn : σ → List UInt8 → List UInt8 × σ} {back : τ → List UInt8 → List UInt8 × τ}
    (hblock : 0 < cipher.block) (hundo : Chaining.Undoes R P turn back) {s : σ} {t : τ} (hr : R s t)
    {data : List UInt8} (hdata : ∀ c ∈ Chaining.chunks cipher.block data, P c)
    (hlen : List.Forall₂ (fun c c' => c'.length = c.length) (Chaining.chunks cipher.block data)
      (Chaining.run turn s (Chaining.chunks cipher.block data))) :
    overBlocks cipher back t (overBlocks cipher turn s data) = data := by
  rw [overBlocks, overBlocks, Chaining.chunks_flatten hblock data hlen,
    Chaining.run_run hundo hr hdata, Chaining.flatten_chunks hblock]

theorem length_overBlocks {σ : Type} {turn : σ → List UInt8 → List UInt8 × σ}
    (hblock : 0 < cipher.block) {s : σ} {data : List UInt8}
    (hlen : List.Forall₂ (fun c c' => c'.length = c.length) (Chaining.chunks cipher.block data)
      (Chaining.run turn s (Chaining.chunks cipher.block data))) :
    (overBlocks cipher turn s data).length = data.length := by
  have hsum : ∀ {cs cs' : List (List UInt8)},
      List.Forall₂ (fun c c' => c'.length = c.length) cs cs' →
        cs'.flatten.length = cs.flatten.length := by
    intro cs cs' h
    induction h with
    | nil => rfl
    | cons hc _ ih => rw [List.flatten_cons, List.flatten_cons, List.length_append,
        List.length_append, hc, ih]
  rw [overBlocks, hsum hlen, Chaining.flatten_chunks hblock]

theorem ecb_undoes : Chaining.Undoes (fun _ _ => True) (fun c => c.length = cipher.block)
    (ecbTurn cipher.encryptBlock) (ecbTurn cipher.decryptBlock) :=
  fun _ _ chunk _ hchunk => ⟨cipher.decrypt_encrypt chunk hchunk, trivial⟩

theorem cbc_undoes : Chaining.Undoes (SameBlock cipher) (fun c => c.length = cipher.block)
    (cbcEncryptTurn cipher) (cbcDecryptTurn cipher) := by
  rintro s _ chunk ⟨rfl, hs⟩ hchunk
  have hlen : (xorInto chunk s).length = cipher.block := (length_xorInto chunk s).trans hchunk
  refine ⟨?_, rfl, cipher.length_encrypt _ hlen⟩
  simp only [cbcEncryptTurn, cbcDecryptTurn]
  rw [cipher.decrypt_encrypt _ hlen, xorInto_xorInto]

theorem cbc_keepsLength :
    KeepsLength cipher (fun c => c.length = cipher.block) (cbcEncryptTurn cipher) := by
  intro s chunk hs hchunk
  have hlen : (xorInto chunk s).length = cipher.block := (length_xorInto chunk s).trans hchunk
  have henc := cipher.length_encrypt _ hlen
  exact ⟨henc.trans hchunk.symm, henc⟩

theorem ctr_keepsLength :
    KeepsLength cipher (fun c => c.length ≤ cipher.block) (ctrTurn cipher) := by
  intro s chunk hs hchunk
  refine ⟨length_produced ?_, (length_increaseBe s).trans hs⟩
  rwa [cipher.length_encrypt s hs]

theorem ofb_keepsLength :
    KeepsLength cipher (fun c => c.length ≤ cipher.block) (ofbTurn cipher) := by
  intro s chunk hs hchunk
  refine ⟨length_produced ?_, cipher.length_encrypt s hs⟩
  rwa [cipher.length_encrypt s hs]

theorem cfb128_keepsLength (decrypt : Bool) :
    KeepsLength cipher (fun c => c.length ≤ cipher.block) (cfb128Turn cipher decrypt) := by
  intro s chunk hs hchunk
  refine ⟨length_produced (by rwa [cipher.length_encrypt s hs]), ?_⟩
  simp only [cfb128Turn, List.length_append, List.length_take, List.length_replicate]
  omega

/-- A turn that is its own inverse, as its next register hangs on the register alone. -/
theorem stream_undoes {turn : List UInt8 → List UInt8 → List UInt8 × List UInt8}
    (hkeeps : KeepsLength cipher (fun c => c.length ≤ cipher.block) turn)
    (hout : ∀ s chunk, (turn s chunk).1 = produced chunk (cipher.encryptBlock s))
    (hnext : ∀ s chunk chunk', (turn s chunk).2 = (turn s chunk').2) :
    Chaining.Undoes (SameBlock cipher) (fun c => c.length ≤ cipher.block) turn turn := by
  rintro s _ chunk ⟨rfl, hs⟩ hchunk
  refine ⟨?_, hnext _ _ _, (hkeeps s chunk hs hchunk).2⟩
  rw [hout, hout, produced_produced (by rwa [cipher.length_encrypt s hs])]

theorem cfb128_undoes : Chaining.Undoes (SameBlock cipher) (fun c => c.length ≤ cipher.block)
    (cfb128Turn cipher false) (cfb128Turn cipher true) := by
  rintro s _ chunk ⟨rfl, hs⟩ hchunk
  refine ⟨?_, rfl, (cfb128_keepsLength false s chunk hs hchunk).2⟩
  exact produced_produced (by rwa [cipher.length_encrypt s hs])

theorem cfb8_undoes (hblock : 0 < cipher.block) : Chaining.Undoes (SameBlock cipher)
    (fun _ => True) (cfb8Turn cipher false) (cfb8Turn cipher true) := by
  rintro s _ byte ⟨rfl, hs⟩ -
  refine ⟨?_, rfl, ?_⟩
  · simp only [cfb8Turn]
    rw [UInt8.xor_assoc, UInt8.xor_self, UInt8.xor_zero]
  · simp only [cfb8Turn, List.length_append, List.length_drop, List.length_singleton]
    omega

/-! ### Round trips -/

/-- What a loop that pads encrypts, it decrypts, if the padding is taken off again. -/
theorem runPadded_round_trip {σ : Type} {R : σ → σ → Prop}
    {turn back : σ → List UInt8 → List UInt8 × σ} (hblock : 0 < cipher.block)
    (hundo : Chaining.Undoes R (fun c => c.length = cipher.block) turn back) {s : σ} (hr : R s s)
    (hlen : ∀ buf, cipher.block ∣ buf.length → List.Forall₂ (fun c c' => c'.length = c.length)
      (Chaining.chunks cipher.block buf) (Chaining.run turn s (Chaining.chunks cipher.block buf)))
    {padding : String} {data buf : List UInt8} (hpad : pad data cipher.block padding = .ok buf)
    (hwhole : buf.length % cipher.block = 0)
    (hunpad : unpad buf cipher.block padding = .ok data) :
    ∃ c, runPadded cipher padding turn back s data false = .ok c ∧
      runPadded cipher padding turn back s c true = .ok data := by
  have hlen := hlen buf (Nat.dvd_of_mod_eq_zero hwhole)
  have hback := overBlocks_overBlocks hblock hundo hr
    (Chaining.length_of_dvd hblock buf (Nat.dvd_of_mod_eq_zero hwhole)) hlen
  have hwhole' : (overBlocks cipher turn s buf).length % cipher.block = 0 := by
    rwa [length_overBlocks hblock hlen]
  refine ⟨overBlocks cipher turn s buf, ?_, ?_⟩
  · simp only [runPadded, hpad, requireWholeBlocks, hwhole, if_true, bind, Except.bind, pure,
      Except.pure]
    rfl
  · simp only [runPadded, requireWholeBlocks, hwhole', if_true, bind, Except.bind, hback, hunpad]

/-- What is not padded to whole blocks is not encrypted. -/
theorem runPadded_none_error {σ : Type} {turn back : σ → List UInt8 → List UInt8 × σ} {s : σ}
    {data : List UInt8} (h : ¬ cipher.block ∣ data.length) :
    ∃ e, runPadded cipher "none" turn back s data false = .error e := by
  have hmod : ¬ data.length % cipher.block = 0 := fun hmod => h (Nat.dvd_of_mod_eq_zero hmod)
  simp only [runPadded, pad, requireWholeBlocks, if_neg hmod, bind, Except.bind]
  exact ⟨_, rfl⟩

/-- The same data comes back from a pair of runs. -/
def RoundTrip (run : List UInt8 → Bool → ChefResult (List UInt8)) (data : List UInt8) : Prop :=
  ∃ c, run data false = .ok c ∧ run c true = .ok data

/-- The modes that pad their data. -/
def paddedModes : List String := ["ecb", "cbc"]

section Modes

variable {newFromSlice : List UInt8 → Option BlockCipher} {key iv : List UInt8}

theorem runBlock_ecb (hkey : newFromSlice key = some cipher) (padding : String) :
    runBlock newFromSlice "ecb" padding key iv = runPadded cipher padding
      (ecbTurn cipher.encryptBlock) (ecbTurn cipher.decryptBlock) () := by
  funext data decrypt
  simp only [runBlock, hkey, ne_eq, not_true_eq_false, false_and, if_false]

theorem runBlock_cbc (hkey : newFromSlice key = some cipher) (hiv : iv.length = cipher.block)
    (padding : String) : runBlock newFromSlice "cbc" padding key iv = runPadded cipher padding
      (cbcEncryptTurn cipher) (cbcDecryptTurn cipher) iv := by
  funext data decrypt
  simp only [runBlock, hkey, hiv, ne_eq, not_true_eq_false, and_false, if_false]

/-- The modes that pad, with a padding that is taken off again. -/
theorem padded_round_trip (hkey : newFromSlice key = some cipher) (hblock : 0 < cipher.block)
    (hiv : iv.length = cipher.block) {mode : String} (hmode : mode ∈ paddedModes) {padding : String}
    {data buf : List UInt8} (hpad : pad data cipher.block padding = .ok buf)
    (hwhole : buf.length % cipher.block = 0)
    (hunpad : unpad buf cipher.block padding = .ok data) :
    RoundTrip (runBlock newFromSlice mode padding key iv) data := by
  simp only [paddedModes, List.mem_cons, List.not_mem_nil, or_false] at hmode
  rcases hmode with rfl | rfl
  · rw [runBlock_ecb hkey]
    refine runPadded_round_trip hblock ecb_undoes trivial (fun buf hdvd => ?_) hpad hwhole hunpad
    refine Chaining.forall_run (I := fun _ => True) (fun s chunk _ hchunk => ⟨?_, trivial⟩) trivial
      (Chaining.length_of_dvd hblock buf hdvd)
    exact (cipher.length_encrypt chunk hchunk).trans hchunk.symm
  · rw [runBlock_cbc hkey hiv]
    exact runPadded_round_trip hblock cbc_undoes ⟨rfl, hiv⟩ (fun buf hdvd =>
      cbc_keepsLength.lengths hiv (Chaining.length_of_dvd hblock buf hdvd)) hpad hwhole
      hunpad

/-- The modes that do not pad. -/
theorem stream_round_trip (hkey : newFromSlice key = some cipher) (hblock : 0 < cipher.block)
    (hiv : iv.length = cipher.block) {mode : String} (hmode : mode ∈ modes)
    (hstream : mode ∉ paddedModes) (padding : String) (data : List UInt8) :
    RoundTrip (runBlock newFromSlice mode padding key iv) data := by
  have hpieces : ∀ c ∈ Chaining.chunks cipher.block data, c.length ≤ cipher.block :=
    fun c hc => (Chaining.length_of_mem_chunks hblock data c hc).2
  have hsame : SameBlock cipher iv iv := ⟨rfl, hiv⟩
  simp only [modes, paddedModes, List.mem_cons, List.not_mem_nil, or_false] at hmode hstream
  rcases hmode with rfl | rfl | rfl | rfl | rfl | rfl
  · exact absurd (.inr rfl) hstream
  · exact absurd (.inl rfl) hstream
  · have hback := overBlocks_overBlocks hblock (stream_undoes ctr_keepsLength (fun _ _ => rfl)
      fun _ _ _ => rfl) hsame hpieces (ctr_keepsLength.lengths hiv hpieces)
    refine ⟨overBlocks cipher (ctrTurn cipher) iv data, ?_, ?_⟩
    · simp only [runBlock, hkey, hiv, ne_eq, not_true_eq_false, and_false, if_false]
    · simp only [runBlock, hkey, hiv, ne_eq, not_true_eq_false, and_false, if_false, hback]
  · have hback := Chaining.run_run (cfb8_undoes hblock) hsame fun (_ : UInt8) (_ : _ ∈ data) => trivial
    refine ⟨Chaining.run (cfb8Turn cipher false) iv data, ?_, ?_⟩
    · simp only [runBlock, hkey, hiv, ne_eq, not_true_eq_false, and_false, if_false]
    · simp only [runBlock, hkey, hiv, ne_eq, not_true_eq_false, and_false, if_false, hback]
  · have hback := overBlocks_overBlocks hblock cfb128_undoes hsame hpieces
      ((cfb128_keepsLength false).lengths hiv hpieces)
    refine ⟨overBlocks cipher (cfb128Turn cipher false) iv data, ?_, ?_⟩
    · simp only [runBlock, hkey, hiv, ne_eq, not_true_eq_false, and_false, if_false]
    · simp only [runBlock, hkey, hiv, ne_eq, not_true_eq_false, and_false, if_false, hback]
  · have hback := overBlocks_overBlocks hblock (stream_undoes ofb_keepsLength (fun _ _ => rfl)
      fun _ _ _ => rfl) hsame hpieces (ofb_keepsLength.lengths hiv hpieces)
    refine ⟨overBlocks cipher (ofbTurn cipher) iv data, ?_, ?_⟩
    · simp only [runBlock, hkey, hiv, ne_eq, not_true_eq_false, and_false, if_false]
    · simp only [runBlock, hkey, hiv, ne_eq, not_true_eq_false, and_false, if_false, hback]

/-- **What `run_block` encrypts, it decrypts**, in every mode: with a padding that is taken off
again, and without padding where the mode needs none or the blocks are whole. -/
theorem runBlock_round_trip (hkey : newFromSlice key = some cipher)
    (hblock : cipher.block = 8 ∨ cipher.block = 16) (hiv : iv.length = cipher.block)
    {mode : String} (hmode : mode ∈ modes) :
    (∀ padding ∈ markedPaddings, ∀ data,
      RoundTrip (runBlock newFromSlice mode padding key iv) data) ∧
    (mode ∈ paddedModes → ∀ data,
      (cipher.block ∣ data.length → RoundTrip (runBlock newFromSlice mode "none" key iv) data) ∧
      (¬ cipher.block ∣ data.length →
        ∃ e, runBlock newFromSlice mode "none" key iv data false = .error e)) ∧
    (mode ∉ paddedModes → ∀ data, RoundTrip (runBlock newFromSlice mode "none" key iv) data) := by
  have hpos : 0 < cipher.block := by omega
  have hbyte : cipher.block < 256 := by omega
  refine ⟨fun padding hpadding data => ?_, fun hpadded data => ⟨fun hdvd => ?_, fun hdvd => ?_⟩,
    fun hstream data => stream_round_trip hkey hpos hiv hmode hstream "none" data⟩
  · by_cases hpadded : mode ∈ paddedModes
    · obtain ⟨buf, hpad, hwhole, hunpad⟩ := unpad_pad hpos hbyte hpadding data
      exact padded_round_trip hkey hpos hiv hpadded hpad hwhole hunpad
    · exact stream_round_trip hkey hpos hiv hmode hpadded padding data
  · exact padded_round_trip hkey hpos hiv hpadded rfl (Nat.mod_eq_zero_of_dvd hdvd) rfl
  · simp only [paddedModes, List.mem_cons, List.not_mem_nil, or_false] at hpadded
    rcases hpadded with rfl | rfl
    · rw [runBlock_ecb hkey]
      exact runPadded_none_error hdvd
    · rw [runBlock_cbc hkey hiv]
      exact runPadded_none_error hdvd

end Modes

/-- A permutation of blocks of eight bytes that is its own inverse. -/
def xorCipher : BlockCipher where
  block := 8
  encryptBlock := List.map (· ^^^ 0x5A)
  decryptBlock := List.map (· ^^^ 0x5A)
  length_encrypt b hb := (List.length_map _).trans hb
  length_decrypt b hb := (List.length_map _).trans hb
  decrypt_encrypt b _ := by
    rw [List.map_map]
    exact (List.map_congr_left fun c _ => by
      rw [Function.comp_apply, UInt8.xor_assoc, UInt8.xor_self, UInt8.xor_zero]; rfl).trans
        (List.map_id b)
  encrypt_decrypt b _ := by
    rw [List.map_map]
    exact (List.map_congr_left fun c _ => by
      rw [Function.comp_apply, UInt8.xor_assoc, UInt8.xor_self, UInt8.xor_zero]; rfl).trans
        (List.map_id b)

/-- Three bytes, padded with five. -/
theorem runBlock_three_bytes : RoundTrip
    (runBlock (fun _ => some xorCipher) "cbc" "pkcs7" [1] (List.replicate 8 0)) [1, 2, 3] :=
  (runBlock_round_trip rfl (.inl rfl) rfl
    (List.mem_cons_self)).1 "pkcs7" List.mem_cons_self [1, 2, 3]

end RevBox.Chef
