import RevBox.Support.Regions
import RevBox.Support.Text

/-!
# Desktop — ToolMarket

The installs of `services/tool_market.rs`, run interleaved over one cache directory: a file is
downloaded to a `.part` beside its place, checked by what was received, renamed, and pushed; an
archive is unpacked beside its place and renamed.  Files are told from their names: who has a file
open goes on writing to it when it is truncated or renamed.

* `Verified`: what holds of what is pushed.
* `pushes_verified`: it holds of every push, as long as no two installs that share files of the
  cache overlap, nobody else touches their files, and no flush of a download fails.
-/

namespace RevBox.ToolMarket

open Prog Tasks

abbrev Bytes := List UInt8

/-- `ToolEntry`, as far as an install looks at it. -/
structure ToolEntry where
  id : List Char
  version : List Char
  sizeBytes : Nat
  sha256 : List Char

/-- `FridaAsset`, as `resolve_frida_asset` has returned it. -/
structure FridaAsset where
  version : List Char
  sizeBytes : Nat
  sha256 : Option (List Char)

/-- An install: of a tool of the catalogue, or of a version of frida-server. -/
inductive Request where
  | install (tool : ToolEntry)
  | frida (asset : FridaAsset)

/-- `MAX_DOWNLOAD_BYTES`. -/
def maxDownloadBytes : Nat := 256 * 1024 * 1024

/-! ### The cache directory -/

/-- What was handed to `adb push`, and the digest that the report of the install gives. -/
structure Push where
  request : Request
  content : Option Bytes
  sha256 : List Char

/-- The names in the cache directory, the files they stand for, what has been pushed, and the
digests that were reported. -/
structure Store where
  names : List Char → Option Nat
  files : Nat → Bytes
  next : Nat
  pushes : List Push
  reports : List (Request × List Char)

inductive Op where
  /-- what does not concern the files: does it succeed? -/
  | ask
  | isFile (n : List Char)
  | size (n : List Char)
  /-- `sha256_file` -/
  | digest (n : List Char)
  | read (n : List Char)
  | remove (n : List Char)
  | create (n : List Char)
  | chunk
  | write (file pos : Nat) (bytes : Bytes)
  /-- `flush().await.ok()`; from `mark` on the bytes may not have been written yet -/
  | flush (file mark : Nat)
  | rename (n m : List Char)
  | push (q : Request) (n : List Char) (sha256 : List Char)
  | report (q : Request) (sha256 : List Char)

@[reducible] def Reply : Op → Type
  | .size _ => Option Nat
  | .digest _ => Option (List Char)
  | .read _ => Option Bytes
  | .create _ => Option Nat
  | .chunk => Option (Option Bytes)
  | .remove _ | .flush _ _ | .report _ _ => Unit
  | _ => Bool

/-- What the surroundings decide. -/
inductive Choice where
  | flag (b : Bool)
  | body (chunk : Option (Option Bytes))

/-- Someone outside gives a name a new file, or takes it away. -/
structure Tamper where
  name : List Char
  content : Option Bytes

/-- A write at a position of a file. -/
def writeAt (content : Bytes) (pos : Nat) (bytes : Bytes) : Bytes :=
  content.take pos ++ List.replicate (pos - content.length) 0 ++ bytes ++
    content.drop (pos + bytes.length)

namespace Store

variable (s : Store)

/-- The content of a name. -/
def content (n : List Char) : Option Bytes := (s.names n).map s.files

def setName (n : List Char) (file : Option Nat) : Store :=
  { s with names := Function.update s.names n file }

def setFile (i : Nat) (bytes : Bytes) : Store :=
  { s with files := Function.update s.files i bytes }

/-- A new file under a name. -/
def add (n : List Char) (bytes : Bytes) : Store :=
  { (s.setName n (some s.next)).setFile s.next bytes with next := s.next + 1 }

end Store

section Program

variable (sha256 : Bytes → List Char) (xz : Bytes → Option Bytes)

/-- What an operation does. -/
def exec (s : Store) : (o : Op) → Choice → Option (Reply o × Store)
  | .ask, .flag b => some (b, s)
  | .isFile n, _ => some ((s.names n).isSome, s)
  | .size n, .flag b => some (if b then (s.content n).map List.length else none, s)
  | .digest n, .flag b => some (if b then (s.content n).map sha256 else none, s)
  | .read n, .flag b => some (if b then s.content n else none, s)
  | .remove n, .flag b => some ((), if b then s.setName n none else s)
  | .create _, .flag false => some (none, s)
  | .create n, .flag true =>
      match s.names n with
      | some i => some (some i, s.setFile i [])
      | none => some (some s.next, s.add n [])
  | .chunk, .body c => some (c, s)
  | .write i pos bytes, .flag b =>
      some (b, if b then s.setFile i (writeAt (s.files i) pos bytes) else s)
  | .flush i mark, .flag b => some ((), if b then s else s.setFile i ((s.files i).take mark))
  | .rename _ _, .flag false => some (false, s)
  | .rename n m, .flag true =>
      match s.names n with
      | some i => some (true, (s.setName m (some i)).setName n none)
      | none => some (false, s)
  | .push q n sha, .flag b => some (b, { s with pushes := ⟨q, s.content n, sha⟩ :: s.pushes })
  | .report q sha, _ => some ((), { s with reports := (q, sha) :: s.reports })
  | _, _ => none

def tamper (s : Store) (e : Tamper) : Option Store :=
  match e.content with
  | some bytes => some (s.add e.name bytes)
  | none => some (s.setName e.name none)

abbrev Code (α : Type) : Type := Prog Op Reply α

def perform (o : Op) : Code (Reply o) := Prog.perform o

/-! ### `services/tool_market.rs` -/

/-- `part_path`. -/
def partPath (path : List Char) : List Char := path ++ ".part".toList

/-- `cache_path`. -/
def cachePath (tool : ToolEntry) : List Char :=
  tool.id ++ '-' :: tool.version ++ '-' :: tool.sha256.take 12

def fridaPrefix (asset : FridaAsset) : List Char :=
  "frida-server-".toList ++ asset.version ++ "-android-arm64".toList

/-- The archive of an asset. -/
def archivePath (asset : FridaAsset) : List Char :=
  fridaPrefix asset ++ '-' :: Text.decimal asset.sizeBytes ++ ".xz".toList

/-- The unpacked binary of an asset. -/
def binaryPath (asset : FridaAsset) : List Char := fridaPrefix asset

/-- The loop of `download_stream`; as no chunk is empty, the limit on the bytes is one on the
turns.  What has been received is what the digest is of. -/
def receive (tmp : List Char) (file : Nat) : Nat → Bytes → Nat → Code (Option Bytes)
  | 0, _, _ => pure none
  | turns + 1, received, mark => do
      match ← perform .chunk with
      | none => pure none
      | some none => do
          perform (.flush file mark)
          pure (some received)
      | some (some chunk) =>
          if maxDownloadBytes < received.length + chunk.length then do
            perform (.remove tmp)
            pure none
          else if ← perform (.write file received.length chunk) then
            receive tmp file turns (received ++ chunk) received.length
          else pure none

/-- `download_stream`. -/
def downloadStream (tmp : List Char) : Code (Option Bytes) := do
  -- the directory, the client, the response and its length
  if ← perform .ask then
    match ← perform (.create tmp) with
    | none => pure none
    | some file => receive tmp file (maxDownloadBytes + 1) [] 0
  else pure none

/-- `download`, and the same steps for an archive: the size, the digest if one is registered, and
the rename. -/
def download (path : List Char) (sizeBytes : Nat) (registered : Option (List Char)) :
    Code Bool := do
  -- `ensure_network_reachable`
  if ← perform .ask then
    let tmp := partPath path
    match ← downloadStream tmp with
    | none => pure false
    | some received =>
        if received.length ≠ sizeBytes then do
          perform (.remove tmp)
          pure false
        else if registered.any fun expected => sha256 received ≠ expected then do
          perform (.remove tmp)
          pure false
        else perform (.rename tmp path)
  else pure false

/-- `ensure_local`. -/
def ensureLocal (tool : ToolEntry) : Code (Option (List Char)) := do
  let path := cachePath tool
  let hit ← if ← perform (.isFile path) then do
      if (← perform (.digest path)) = some tool.sha256 then pure true
      else do
        perform (.remove path)
        pure false
    else pure false
  if hit then pure (some path)
  else if ← download sha256 path tool.sizeBytes (some tool.sha256) then pure (some path)
  else pure none

/-- `extract_xz`. -/
def extractXz (archive out : List Char) : Code (Option Nat) := do
  match ← perform (.read archive) with
  | none => pure none
  | some packed =>
      let tmp := partPath out
      match ← perform (.create tmp) with
      | none => pure none
      | some file =>
          match xz packed with
          | none => do
              perform (.remove tmp)
              pure none
          | some bytes =>
              if ← perform (.write file 0 bytes) then
                let size := (← perform (.size tmp)).getD 0
                if size = 0 then do
                  perform (.remove tmp)
                  pure none
                else if ← perform (.rename tmp out) then pure (some size)
                else pure none
              else do
                perform (.remove tmp)
                pure none

/-- Whether the cached archive is taken: it has the size, and the digest if one is registered. -/
def reusable (asset : FridaAsset) : Code Bool := do
  let archive := archivePath asset
  if (← perform (.size archive)) = some asset.sizeBytes then
    match asset.sha256 with
    | none => pure true
    | some expected =>
        if (← perform (.digest archive)) = some expected then pure true
        else do
          perform (.remove archive)
          pure false
  else pure false

/-- `ensure_frida_binary`: the path, and the digest of what is there. -/
def ensureFridaBinary (asset : FridaAsset) : Code (Option (List Char × List Char)) := do
  let archive := archivePath asset
  let reuse ← reusable asset
  let there ← if reuse then pure true
    else download sha256 archive asset.sizeBytes asset.sha256
  if there then
    let binary := binaryPath asset
    match ← extractXz xz archive binary with
    | none => pure none
    | some _ => pure ((← perform (.digest binary)).map fun sha => (binary, sha))
  else pure none

/-- `push_and_verify`: the digest it reports is the one it was given. -/
def pushAndVerify (q : Request) (path sha : List Char) : Code (Option (List Char)) := do
  if ← perform (.push q path sha) then
    -- `chmod`
    if ← perform .ask then
      perform (.report q sha)
      pure (some sha)
    else pure none
  else pure none

/-- `install`, and `install_frida` once the asset is known. -/
def install : Request → Code (Option (List Char))
  | .install tool => do
      match ← ensureLocal sha256 tool with
      | some path => pushAndVerify (.install tool) path tool.sha256
      | none => pure none
  | .frida asset => do
      match ← ensureFridaBinary sha256 xz asset with
      | some (path, sha) => pushAndVerify (.frida asset) path sha
      | none => pure none

def market : System Op Reply Request (Option (List Char)) Store Choice Tamper where
  handler := install sha256 xz
  exec := exec sha256
  env := tamper

/-- What is pushed is what was checked, and its digest is the one that is reported. -/
def Verified (p : Push) : Prop :=
  ∀ content, p.content = some content → sha256 content = p.sha256 ∧
    match p.request with
    | .install tool => sha256 content = tool.sha256
    | .frida asset => ∃ archive, archive.length = asset.sizeBytes ∧
        (∀ expected, asset.sha256 = some expected → sha256 archive = expected) ∧
        xz archive = some content

/-- **Only verified bytes reach the device**, and what is reported is of a push. -/
def AllVerified (s : Store) : Prop :=
  (∀ p ∈ s.pushes, Verified sha256 xz p) ∧
  ∀ r ∈ s.reports, ∃ p ∈ s.pushes, p.request = r.1 ∧ p.sha256 = r.2

/-- The names an install works with. -/
def region : Request → List (List Char)
  | .install tool => [cachePath tool, partPath (cachePath tool)]
  | .frida asset => [archivePath asset, partPath (archivePath asset), binaryPath asset,
      partPath (binaryPath asset)]

def regions : Regions Request Store where
  same q s s' := (∀ n ∈ region q, s'.names n = s.names n ∧
    ∀ i, s.names n = some i → s'.files i = s.files i) ∧ s.pushes ⊆ s'.pushes
  apart q q' := ∀ n ∈ region q, n ∉ region q'
  refl _ _ := ⟨fun _ _ => ⟨rfl, fun _ _ => rfl⟩, fun _ h => h⟩
  trans h h' := ⟨fun n hn => ⟨(h'.1 n hn).1.trans (h.1 n hn).1, fun i hi =>
      ((h'.1 n hn).2 i ((h.1 n hn).1.trans hi)).trans ((h.1 n hn).2 i hi)⟩,
    fun _ hp => h'.2 (h.2 hp)⟩
  symm h n hn hn' := h n hn' hn

/-- No file has two names, new files are new, and all is verified so far. -/
structure Sane (s : Store) : Prop where
  single : ∀ n m i, s.names n = some i → s.names m = some i → n = m
  fresh : ∀ n i, s.names n = some i → i < s.next
  verified : AllVerified sha256 xz s

/-- Flushes succeed. -/
def Flushes : Op → Choice → Prop
  | .flush _ _, x => x = .flag true
  | _, _ => True

instance (o : Op) (x : Choice) : Decidable (Flushes o x) :=
  match o, x with
  | .flush _ _, .flag true => .isTrue rfl
  | .flush _ _, .flag false => .isFalse (by simp [Flushes])
  | .flush _ _, .body _ => .isFalse (by simp [Flushes])
  | .ask, _ | .isFile _, _ | .size _, _ | .digest _, _ | .read _, _ | .remove _, _
  | .create _, _ | .chunk, _ | .write _ _ _, _ | .rename _ _, _ | .push _ _ _, _
  | .report _ _, _ => .isTrue trivial

/-! ### Operations within a region -/

section Works

variable {sha256 xz} {q : Request} {s s₁ s₂ : Store} {n m : List Char} {i : Nat} {b : Bytes}
  {α β : Type} {Q : β → Store → Prop}

/-- A change that keeps to a region: of its names, of their files, and of new files. -/
structure Within (q : Request) (s₁ s₂ : Store) : Prop where
  names : ∀ m, m ∉ region q → s₂.names m = s₁.names m
  files : ∀ j, j < s₁.next → (∀ n ∈ region q, s₁.names n ≠ some j) → s₂.files j = s₁.files j
  pushes : s₁.pushes ⊆ s₂.pushes

theorem Within.refl (q : Request) (s : Store) : Within q s s :=
  ⟨fun _ _ => rfl, fun _ _ _ => rfl, fun _ h => h⟩

/-- What keeps to a region is nothing to those apart from it. -/
theorem Within.same (h : Within q s₁ s₂) (hs : Sane sha256 xz s₁) {q' : Request}
    (hq : regions.apart q q') : regions.same q' s₁ s₂ := by
  refine ⟨fun n hn => ⟨h.names n fun hn' => hq n hn' hn, fun j hj => ?_⟩, h.pushes⟩
  refine h.files j (hs.fresh n j hj) fun k hk hkj => ?_
  rw [hs.single k n j hkj hj] at hk
  exact hq n hk hn

/-- A program of an install, alone with its region. -/
abbrev Works (sha256 : Bytes → List Char) (xz : Bytes → Option Bytes) (q : Request)
    (Q : α → Store → Prop) (s : Store) (c : Code α) : Prop :=
  Alone (exec sha256) regions (Sane sha256 xz) Flushes q Q s c

theorem works_bind {c : Code α} {f : α → Code β} :
    Works sha256 xz q (fun a s' => Works sha256 xz q Q s' (f a)) s c →
      Works sha256 xz q Q s (c >>= f) :=
  alone_bind.mpr

/-- An operation, and what comes after it. -/
theorem works_perform {o : Op} {f : Reply o → Code β}
    (h : ∀ s₁, regions.same q s s₁ → Sane sha256 xz s₁ → ∀ x, Flushes o x → ∀ r s₂,
      exec sha256 s₁ o x = some (r, s₂) →
        Sane sha256 xz s₂ ∧ Within q s₁ s₂ ∧ Works sha256 xz q Q s₂ (f r)) :
    Works sha256 xz q Q s (perform o >>= f) := fun s₁ hs hI x hx r s₂ hr =>
  have h := h s₁ hs hI x hx r s₂ hr
  ⟨h.1, fun _ hq => h.2.1.same hI hq, h.2.2⟩

/-- An operation that only looks. -/
theorem works_look {o : Op} {f : Reply o → Code β}
    (hlook : ∀ s x r s₂, exec sha256 s o x = some (r, s₂) → s₂ = s)
    (h : ∀ s₁ r, regions.same q s s₁ → (∃ x, exec sha256 s₁ o x = some (r, s₁)) →
      Works sha256 xz q Q s₁ (f r)) : Works sha256 xz q Q s (perform o >>= f) :=
  works_perform fun s₁ hs hI x _ r s₂ hr => by
    obtain rfl := hlook s₁ x r s₂ hr
    exact ⟨hI, .refl _ _, h _ r hs ⟨x, hr⟩⟩

/-- The file `i` is under the name `n` and has the content `b`. -/
def At (s : Store) (n : List Char) (i : Nat) (b : Bytes) : Prop :=
  s.names n = some i ∧ s.files i = b

theorem At.same (h : At s n i b) (hn : n ∈ region q) (hs : regions.same q s s₁) : At s₁ n i b :=
  ⟨(hs.1 n hn).1.trans h.1, ((hs.1 n hn).2 i h.1).trans h.2⟩

theorem At.content (h : At s n i b) : s.content n = some b := by
  rw [Store.content, h.1, Option.map_some, h.2]

/-- A name that has content stands for a file. -/
theorem at_of_content (h : s.content n = some b) : ∃ i, At s n i b := by
  obtain ⟨i, hi, rfl⟩ := Option.map_eq_some_iff.mp h
  exact ⟨i, hi, rfl⟩

theorem sane_setName_none (h : Sane sha256 xz s) : Sane sha256 xz (s.setName n none) where
  single k m i hk hm := by
    simp only [Store.setName, Function.update_apply] at hk hm
    split at hk
    · cases hk
    · split at hm
      · cases hm
      · exact h.single k m i hk hm
  fresh k i hk := by
    simp only [Store.setName, Function.update_apply] at hk
    split at hk
    · cases hk
    · exact h.fresh k i hk
  verified := h.verified

theorem sane_setFile (h : Sane sha256 xz s) : Sane sha256 xz (s.setFile i b) :=
  ⟨h.single, h.fresh, h.verified⟩

theorem sane_add (h : Sane sha256 xz s) : Sane sha256 xz (s.add n b) where
  single k m i hk hm := by
    simp only [Store.add, Store.setName, Store.setFile, Function.update_apply] at hk hm
    split at hk
    · cases hk
      split at hm
      · exact ‹k = n›.trans ‹m = n›.symm
      · exact absurd (h.fresh m _ hm) (Nat.lt_irrefl _)
    · split at hm
      · cases hm
        exact absurd (h.fresh k _ hk) (Nat.lt_irrefl _)
      · exact h.single k m i hk hm
  fresh k i hk := by
    simp only [Store.add, Store.setName, Store.setFile, Function.update_apply] at hk ⊢
    split at hk
    · cases hk
      exact Nat.lt_succ_self _
    · exact Nat.lt_succ_of_lt (h.fresh k i hk)
  verified := h.verified

/-- The file moves from one name to another. -/
theorem sane_rename (h : Sane sha256 xz s) (hn : s.names n = some i) :
    Sane sha256 xz ((s.setName m (some i)).setName n none) where
  single k l j hk hl := by
    simp only [Store.setName, Function.update_apply] at hk hl
    split at hk
    · cases hk
    · split at hl
      · cases hl
      · split at hk
        · cases hk
          split at hl
          · exact ‹k = m›.trans ‹l = m›.symm
          · exact absurd (h.single l n _ hl hn) ‹_›
        · split at hl
          · cases hl
            exact absurd (h.single k n _ hk hn) ‹_›
          · exact h.single k l j hk hl
  fresh k j hk := by
    simp only [Store.setName, Function.update_apply] at hk
    split at hk
    · cases hk
    · split at hk
      · cases hk
        exact h.fresh n _ hn
      · exact h.fresh k j hk
  verified := h.verified

theorem within_setName (hn : n ∈ region q) (file : Option Nat) : Within q s (s.setName n file) :=
  ⟨fun m hm => Function.update_of_ne (fun h => hm (by rw [h]; exact hn)) _ _, fun _ _ _ => rfl,
    fun _ h => h⟩

theorem within_setFile (hn : n ∈ region q) (hi : s.names n = some i) :
    Within q s (s.setFile i b) :=
  ⟨fun _ _ => rfl,
    fun j _ hj => Function.update_of_ne (fun h => hj n hn (by rw [h]; exact hi)) _ _, fun _ h => h⟩

theorem within_add (hn : n ∈ region q) : Within q s (s.add n b) :=
  ⟨fun m hm => Function.update_of_ne (fun h => hm (by rw [h]; exact hn)) _ _,
    fun _ hj _ => Function.update_of_ne (Nat.ne_of_lt hj) _ _, fun _ h => h⟩

theorem Within.trans {s₃ : Store} (h : Within q s₁ s₂) (hnames : ∀ m, m ∉ region q →
    s₃.names m = s₂.names m) (hfiles : s₃.files = s₂.files) (hpushes : s₂.pushes ⊆ s₃.pushes) :
    Within q s₁ s₃ :=
  ⟨fun m hm => (hnames m hm).trans (h.names m hm), fun j hj hne =>
    (congrFun hfiles j).trans (h.files j hj hne), fun _ hp => hpushes (h.pushes hp)⟩

/-! ### The operations of an install -/

theorem works_ask {f : Bool → Code β} (h : ∀ s₁ r, regions.same q s s₁ →
    Works sha256 xz q Q s₁ (f r)) : Works sha256 xz q Q s (perform .ask >>= f) :=
  works_look (fun s x r s₂ hr => by cases x <;> cases hr; rfl) fun s₁ r hs _ => h s₁ r hs

theorem works_remove (hn : n ∈ region q) {f : Unit → Code β}
    (h : ∀ s₁, Works sha256 xz q Q s₁ (f ())) :
    Works sha256 xz q Q s (perform (.remove n) >>= f) :=
  works_perform fun s₁ _ hI x _ r s₂ hr => by
    cases x with
    | body c => cases hr
    | flag ok =>
        cases hr
        cases ok with
        | false => exact ⟨hI, .refl _ _, h _⟩
        | true => exact ⟨sane_setName_none hI, within_setName hn none, h _⟩

theorem works_create (hn : n ∈ region q) {f : Option Nat → Code β}
    (hnone : ∀ s₁, Works sha256 xz q Q s₁ (f none))
    (hsome : ∀ s₁ i, At s₁ n i [] → Works sha256 xz q Q s₁ (f (some i))) :
    Works sha256 xz q Q s (perform (.create n) >>= f) :=
  works_perform fun s₁ _ hI x _ r s₂ hr => by
    cases x with
    | body c => cases hr
    | flag ok =>
        cases ok with
        | false =>
            cases hr
            exact ⟨hI, .refl _ _, hnone _⟩
        | true =>
            simp only [exec] at hr
            split at hr
            · rename_i i hi
              cases hr
              exact ⟨sane_setFile hI, within_setFile hn hi,
                hsome _ i ⟨hi, Function.update_self ..⟩⟩
            · cases hr
              exact ⟨sane_add hI, within_add hn,
                hsome _ _ ⟨Function.update_self .., Function.update_self ..⟩⟩

/-- A write at the end of what is there. -/
theorem works_write (hn : n ∈ region q) (hat : At s n i b) {bytes : Bytes} {f : Bool → Code β}
    (hfail : ∀ s₁, Works sha256 xz q Q s₁ (f false))
    (hdone : ∀ s₁, At s₁ n i (b ++ bytes) → Works sha256 xz q Q s₁ (f true)) :
    Works sha256 xz q Q s (perform (.write i b.length bytes) >>= f) :=
  works_perform fun s₁ hs hI x _ r s₂ hr => by
    have hat := hat.same hn hs
    cases x with
    | body c => cases hr
    | flag ok =>
        cases ok with
        | false =>
            cases hr
            exact ⟨hI, .refl _ _, hfail _⟩
        | true =>
            cases hr
            refine ⟨sane_setFile hI, within_setFile hn hat.1, hdone _ ⟨hat.1, ?_⟩⟩
            have hwrite : writeAt b b.length bytes = b ++ bytes := by simp [writeAt]
            simp only [if_true, Store.setFile, Function.update_self, hat.2, hwrite]

theorem works_flush (hn : n ∈ region q) (hat : At s n i b) {mark : Nat} {f : Unit → Code β}
    (h : ∀ s₁, At s₁ n i b → Works sha256 xz q Q s₁ (f ())) :
    Works sha256 xz q Q s (perform (.flush i mark) >>= f) :=
  works_perform fun s₁ hs hI x hx r s₂ hr => by
    obtain rfl : x = .flag true := hx
    cases hr
    exact ⟨hI, .refl _ _, h _ (hat.same hn hs)⟩

theorem works_rename (hn : n ∈ region q) (hm : m ∈ region q) (hne : n ≠ m) (hat : At s n i b)
    {f : Bool → Code β} (hfail : ∀ s₁, Works sha256 xz q Q s₁ (f false))
    (hdone : ∀ s₁, At s₁ m i b → Works sha256 xz q Q s₁ (f true)) :
    Works sha256 xz q Q s (perform (.rename n m) >>= f) :=
  works_perform fun s₁ hs hI x _ r s₂ hr => by
    have hat := hat.same hn hs
    cases x with
    | body c => cases hr
    | flag ok =>
        cases ok with
        | false =>
            cases hr
            exact ⟨hI, .refl _ _, hfail _⟩
        | true =>
            simp only [exec, hat.1] at hr
            cases hr
            refine ⟨sane_rename hI hat.1, (within_setName hm _).trans (fun k hk =>
              Function.update_of_ne (fun h => hk (by rw [h]; exact hn)) _ _) rfl (fun _ h => h),
              hdone _ ⟨?_, hat.2⟩⟩
            simp [Store.setName, hne.symm]

theorem works_push {sha : List Char} {f : Bool → Code β}
    (hv : ∀ s₁, regions.same q s s₁ → Verified sha256 xz ⟨q, s₁.content n, sha⟩)
    (h : ∀ s₁ r, (∃ p ∈ s₁.pushes, p.request = q ∧ p.sha256 = sha) →
      Works sha256 xz q Q s₁ (f r)) :
    Works sha256 xz q Q s (perform (.push q n sha) >>= f) :=
  works_perform fun s₁ hs hI x _ r s₂ hr => by
    cases x with
    | body c => cases hr
    | flag ok =>
        cases hr
        refine ⟨⟨hI.single, hI.fresh, fun p hp => ?_, fun r hr => ?_⟩, ⟨fun _ _ => rfl,
          fun _ _ _ => rfl, fun _ hp => List.mem_cons_of_mem _ hp⟩,
          h _ _ ⟨_, List.mem_cons_self, rfl, rfl⟩⟩
        · rcases List.mem_cons.mp hp with rfl | hp
          · exact hv s₁ hs
          · exact hI.verified.1 p hp
        · obtain ⟨p, hp, hpr⟩ := hI.verified.2 r hr
          exact ⟨p, List.mem_cons_of_mem _ hp, hpr⟩

theorem works_report {sha : List Char} {f : Unit → Code β}
    (hp : ∃ p ∈ s.pushes, p.request = q ∧ p.sha256 = sha)
    (h : ∀ s₁, Works sha256 xz q Q s₁ (f ())) :
    Works sha256 xz q Q s (perform (.report q sha) >>= f) :=
  works_perform fun s₁ hs hI x _ r s₂ hr => by
    obtain ⟨p, hp, hpq⟩ := hp
    have hr : s₂ = { s₁ with reports := (q, sha) :: s₁.reports } := by
      cases x <;> cases hr <;> rfl
    subst hr
    refine ⟨⟨hI.single, hI.fresh, hI.verified.1, fun r hr => ?_⟩, ⟨fun _ _ => rfl,
      fun _ _ _ => rfl, fun _ hp => hp⟩, h _⟩
    rcases List.mem_cons.mp hr with rfl | hr
    · exact ⟨p, hs.2 hp, hpq⟩
    · exact hI.verified.2 r hr

/-! ### The steps of an install -/

/-- The name has the content `b`. -/
def Has (s : Store) (n : List Char) (b : Bytes) : Prop := ∃ i, At s n i b

theorem Has.same (h : Has s n b) (hn : n ∈ region q) (hs : regions.same q s s₁) : Has s₁ n b :=
  h.imp fun _ hat => hat.same hn hs

theorem works_receive {file : Nat} (hn : n ∈ region q) : ∀ {turns : Nat} {received : Bytes}
    {mark : Nat} {s : Store}, At s n file received →
    Works sha256 xz q (fun r s' => ∀ bytes, r = some bytes → At s' n file bytes) s
      (receive n file turns received mark)
  | 0, _, _, _, _ => fun _ h => nomatch h
  | turns + 1, received, mark, s, hat => by
      refine works_look (fun s x r s₂ hr => by cases x <;> cases hr; rfl) fun s₁ r hs _ => ?_
      have hat := hat.same hn hs
      match r with
      | none => exact fun _ h => nomatch h
      | some none =>
          refine works_flush hn hat fun s₂ hat bytes hb => ?_
          cases hb
          exact hat
      | some (some chunk) =>
          dsimp only
          split
          · exact works_remove hn fun _ _ h => nomatch h
          · refine works_write hn hat (fun _ _ h => nomatch h) fun s₂ hat => ?_
            exact works_receive hn hat

theorem works_downloadStream (hn : n ∈ region q) :
    Works sha256 xz q (fun r s' => ∀ bytes, r = some bytes → Has s' n bytes) s
      (downloadStream n) := by
  refine works_ask fun s₁ r _ => ?_
  split
  · refine works_create hn (fun _ _ h => nomatch h) fun s₂ file hat => ?_
    exact (works_receive hn hat).mono fun r s' h bytes hb => ⟨file, h bytes hb⟩
  · exact fun _ h => nomatch h

/-- What is downloaded has the size, and the digest if one is registered. -/
def Fits (sha256 : Bytes → List Char) (sizeBytes : Nat) (registered : Option (List Char))
    (bytes : Bytes) : Prop :=
  bytes.length = sizeBytes ∧ ∀ expected, registered = some expected → sha256 bytes = expected

theorem ne_partPath (path : List Char) : partPath path ≠ path := fun h => by
  have := congrArg List.length h
  rw [partPath, List.length_append] at this
  have hlen : ".part".toList.length = 5 := rfl
  omega

theorem works_download {path : List Char} (hp : path ∈ region q) (ht : partPath path ∈ region q)
    {sizeBytes : Nat} {registered : Option (List Char)} :
    Works sha256 xz q (fun r s' => r = true →
        ∃ bytes, Has s' path bytes ∧ Fits sha256 sizeBytes registered bytes) s
      (download sha256 path sizeBytes registered) := by
  refine works_ask fun s₁ r _ => ?_
  split
  · refine works_bind ((works_downloadStream ht).mono fun received s₂ hreceived => ?_)
    cases received with
    | none => exact fun h => nomatch h
    | some received =>
        obtain ⟨file, hat⟩ := hreceived received rfl
        dsimp only
        split
        · exact works_remove ht fun _ h => nomatch h
        · rename_i hsize
          split
          · exact works_remove ht fun _ h => nomatch h
          · rename_i hdigest
            refine works_rename (f := pure) ht hp (ne_partPath path) hat (fun _ h => nomatch h)
              fun s₃ hat _ => ⟨received, ⟨file, hat⟩, not_not.mp hsize, fun expected he => ?_⟩
            subst he
            simpa using hdigest
  · exact fun h => nomatch h

/-- What a digest is of. -/
theorem has_of_digest {x : Choice} {d : List Char}
    (h : exec sha256 s (.digest n) x = some (some d, s₁)) : ∃ b, Has s n b ∧ sha256 b = d := by
  cases x with
  | body c => cases h
  | flag ok =>
      cases ok with
      | false => cases h
      | true =>
          obtain ⟨b, hb, hd⟩ := Option.map_eq_some_iff.mp (congrArg Prod.fst (Option.some.inj h))
          exact ⟨b, at_of_content hb, hd⟩

theorem has_of_size {x : Choice} {k : Nat}
    (h : exec sha256 s (.size n) x = some (some k, s₁)) : ∃ b, Has s n b ∧ b.length = k := by
  cases x with
  | body c => cases h
  | flag ok =>
      cases ok with
      | false => cases h
      | true =>
          obtain ⟨b, hb, hk⟩ := Option.map_eq_some_iff.mp (congrArg Prod.fst (Option.some.inj h))
          exact ⟨b, at_of_content hb, hk⟩

theorem has_of_read {x : Choice} {b : Bytes}
    (h : exec sha256 s (.read n) x = some (some b, s₁)) : Has s n b := by
  cases x with
  | body c => cases h
  | flag ok =>
      cases ok with
      | false => cases h
      | true => exact at_of_content (congrArg Prod.fst (Option.some.inj h))

theorem Has.unique {b' : Bytes} (h : Has s n b) (h' : Has s n b') : b = b' := by
  obtain ⟨i, hi, rfl⟩ := h
  obtain ⟨j, hj, rfl⟩ := h'
  rw [Option.some.inj (hi.symm.trans hj)]

theorem look_digest {s : Store} {x : Choice} {r : Option (List Char)} {s₂ : Store}
    (hr : exec sha256 s (.digest n) x = some (r, s₂)) : s₂ = s := by
  cases x <;> cases hr
  rfl

theorem look_size {s : Store} {x : Choice} {r : Option Nat} {s₂ : Store}
    (hr : exec sha256 s (.size n) x = some (r, s₂)) : s₂ = s := by
  cases x <;> cases hr
  rfl

theorem look_read {s : Store} {x : Choice} {r : Option Bytes} {s₂ : Store}
    (hr : exec sha256 s (.read n) x = some (r, s₂)) : s₂ = s := by
  cases x <;> cases hr
  rfl

theorem works_ensureLocal (tool : ToolEntry) :
    Works sha256 xz (.install tool) (fun r s' => ∀ path, r = some path →
        path = cachePath tool ∧ ∃ bytes, Has s' path bytes ∧ sha256 bytes = tool.sha256) s
      (ensureLocal sha256 tool) := by
  have hp : cachePath tool ∈ region (.install tool) := by simp [region]
  have ht : partPath (cachePath tool) ∈ region (.install tool) := by simp [region]
  have hdownload : ∀ s₁, Works sha256 xz (.install tool) (fun r s' => ∀ path, r = some path →
      path = cachePath tool ∧ ∃ bytes, Has s' path bytes ∧ sha256 bytes = tool.sha256) s₁ (do
        if ← download sha256 (cachePath tool) tool.sizeBytes (some tool.sha256) then
          pure (some (cachePath tool))
        else pure none) := fun s₁ => by
    refine works_bind ((works_download hp ht).mono fun done s₂ hdone => ?_)
    split
    · intro path hpath
      cases hpath
      obtain ⟨bytes, hhas, hfits⟩ := hdone ‹_›
      exact ⟨rfl, bytes, hhas, hfits.2 _ rfl⟩
    · exact fun _ h => nomatch h
  refine works_look (fun s x r s₂ hr => by cases x <;> cases hr <;> rfl) fun s₁ r _ _ => ?_
  split
  · refine works_look (fun s x r s₂ hr => look_digest hr) fun s₂ r _ hr => ?_
    obtain ⟨x, hr⟩ := hr
    split
    · rename_i hd
      rw [hd] at hr
      obtain ⟨bytes, hhas, hsha⟩ := has_of_digest hr
      intro path hpath
      cases hpath
      exact ⟨rfl, bytes, hhas, hsha⟩
    · exact works_remove hp hdownload
  · exact hdownload s₁

theorem works_reusable (asset : FridaAsset) :
    Works sha256 xz (.frida asset) (fun r s' => r = true → ∃ bytes,
        Has s' (archivePath asset) bytes ∧ Fits sha256 asset.sizeBytes asset.sha256 bytes) s
      (reusable asset) := by
  have ha : archivePath asset ∈ region (.frida asset) := by simp [region]
  refine works_look (fun s x r s₂ hr => look_size hr) fun s₁ r _ hr => ?_
  obtain ⟨x, hr⟩ := hr
  split
  · rename_i hsize
    rw [hsize] at hr
    obtain ⟨bytes, hhas, hlen⟩ := has_of_size hr
    split
    · rename_i hnone
      exact fun _ => ⟨bytes, hhas, hlen, fun expected he => by rw [hnone] at he; cases he⟩
    · rename_i expected hsome
      refine works_look (fun s x r s₂ hr => look_digest hr) fun s₂ r hs hr => ?_
      obtain ⟨x, hr⟩ := hr
      split
      · rename_i hd
        rw [hd] at hr
        obtain ⟨bytes', hhas', hsha⟩ := has_of_digest hr
        obtain rfl := (hhas.same ha hs).unique hhas'
        refine fun _ => ⟨bytes, hhas', hlen, fun e he => ?_⟩
        rw [hsome] at he
        cases he
        exact hsha
      · exact works_remove ha fun _ h => nomatch h
  · exact fun h => nomatch h

theorem works_extractXz {archive out : List Char} (ha : archive ∈ region q)
    (ho : out ∈ region q) (ht : partPath out ∈ region q) {packed : Bytes}
    (hhas : Has s archive packed) :
    Works sha256 xz q (fun r s' => r ≠ none → ∃ bytes, xz packed = some bytes ∧ Has s' out bytes) s
      (extractXz xz archive out) := by
  have hfail : ∀ s' : Store, (none : Option Nat) ≠ none →
      ∃ bytes, xz packed = some bytes ∧ Has s' out bytes := fun _ h => absurd rfl h
  refine works_look (fun s x r s₂ hr => look_read hr) fun s₁ r hs hr => ?_
  obtain ⟨x, hr⟩ := hr
  cases r with
  | none => exact hfail _
  | some packed' =>
      obtain rfl := (hhas.same ha hs).unique (has_of_read hr)
      refine works_create ht hfail fun s₂ file hat => ?_
      dsimp only
      split
      · exact works_remove ht hfail
      · rename_i bytes hxz
        refine works_write ht hat (fun s₃ => works_remove ht hfail)
          fun s₃ hat => ?_
        refine works_look (fun s x r s₂ hr => look_size hr) fun s₄ r hs _ => ?_
        have hat := hat.same ht hs
        split
        · exact works_remove ht hfail
        · exact works_rename ht ho (ne_partPath out) hat hfail
            fun s₅ hat _ => ⟨bytes, hxz, file, hat⟩

theorem works_ensureFridaBinary (asset : FridaAsset) :
    Works sha256 xz (.frida asset) (fun r s' => ∀ path sha, r = some (path, sha) →
        path = binaryPath asset ∧ ∃ bytes, Has s' path bytes ∧ sha256 bytes = sha ∧
          ∃ archive, Fits sha256 asset.sizeBytes asset.sha256 archive ∧ xz archive = some bytes) s
      (ensureFridaBinary sha256 xz asset) := by
  have ha : archivePath asset ∈ region (.frida asset) := by simp [region]
  have hap : partPath (archivePath asset) ∈ region (.frida asset) := by simp [region]
  have hb : binaryPath asset ∈ region (.frida asset) := by simp [region]
  have hbp : partPath (binaryPath asset) ∈ region (.frida asset) := by simp [region]
  have hthere : ∀ (there : Bool) s₁, (there = true → ∃ bytes, Has s₁ (archivePath asset) bytes ∧
      Fits sha256 asset.sizeBytes asset.sha256 bytes) →
      Works sha256 xz (.frida asset) (fun r s' => ∀ path sha, r = some (path, sha) →
        path = binaryPath asset ∧ ∃ bytes, Has s' path bytes ∧ sha256 bytes = sha ∧
          ∃ archive, Fits sha256 asset.sizeBytes asset.sha256 archive ∧ xz archive = some bytes) s₁
        (do
          if there then
            match ← extractXz xz (archivePath asset) (binaryPath asset) with
            | none => pure none
            | some _ => pure ((← perform (.digest (binaryPath asset))).map
                fun sha => (binaryPath asset, sha))
          else pure none) := fun there s₁ h => by
    split
    · obtain ⟨archive, hhas, hfits⟩ := h ‹_›
      refine works_bind ((works_extractXz ha hb hbp hhas).mono fun size s₂ hout => ?_)
      cases size with
      | none => exact fun _ _ h => nomatch h
      | some size =>
          obtain ⟨bytes, hxz, hhas⟩ := hout (Option.some_ne_none size)
          refine works_look (fun s x r s₂ hr => look_digest hr) fun s₃ r hs hr => ?_
          obtain ⟨x, hr⟩ := hr
          intro path sha hpath
          obtain ⟨d, rfl, hd⟩ := Option.map_eq_some_iff.mp hpath
          cases hd
          obtain ⟨bytes', hhas', hsha⟩ := has_of_digest hr
          obtain rfl := (hhas.same hb hs).unique hhas'
          exact ⟨rfl, bytes, hhas', hsha, archive, hfits, hxz⟩
    · exact fun _ _ h => nomatch h
  refine works_bind ((works_reusable asset).mono fun reuse s₁ hreuse => ?_)
  split
  · exact hthere true s₁ fun _ => hreuse ‹_›
  · exact works_bind ((works_download ha hap).mono hthere)

theorem works_pushAndVerify {path sha : List Char} (hp : path ∈ region q) {bytes : Bytes}
    (hhas : Has s path bytes) (hv : Verified sha256 xz ⟨q, some bytes, sha⟩) :
    Works sha256 xz q (fun _ _ => True) s (pushAndVerify q path sha) := by
  refine works_push (fun s₁ hs => ?_) fun s₁ r hpush => ?_
  · obtain ⟨i, hat⟩ := hhas.same hp hs
    rw [hat.content]
    exact hv
  · split
    · refine works_ask fun s₂ r hs => ?_
      split
      · obtain ⟨p, hp, hpq⟩ := hpush
        exact works_report ⟨p, hs.2 hp, hpq⟩ fun _ => trivial
      · trivial
    · trivial

/-- **An install alone with its files pushes what it has verified.** -/
theorem works_install (q : Request) (s : Store) :
    Works sha256 xz q (fun _ _ => True) s (install sha256 xz q) := by
  cases q with
  | install tool =>
      refine works_bind ((works_ensureLocal tool).mono fun path s₁ hpath => ?_)
      cases path with
      | none => trivial
      | some path =>
          obtain ⟨rfl, bytes, hhas, hsha⟩ := hpath path rfl
          refine works_pushAndVerify (by simp [region]) hhas fun content hc => ?_
          cases hc
          exact ⟨hsha, hsha⟩
  | frida asset =>
      refine works_bind ((works_ensureFridaBinary asset).mono fun r s₁ hr => ?_)
      match r with
      | none => trivial
      | some (path, sha) =>
          obtain ⟨rfl, bytes, hhas, hsha, archive, hfits, hxz⟩ := hr path sha rfl
          refine works_pushAndVerify (by simp [region]) hhas fun content hc => ?_
          cases hc
          exact ⟨hsha, archive, hfits.1, hfits.2, hxz⟩

end Works

/-- Any content of the cache directory, with nothing pushed yet. -/
def Fresh (s : Store) : Prop :=
  (∀ n m i, s.names n = some i → s.names m = some i → n = m) ∧
  (∀ n i, s.names n = some i → i < s.next) ∧ s.pushes = [] ∧ s.reports = []

/-- **Only verified bytes reach the device**, in every run in which installs that overlap share no
file of the cache, nobody else touches the files of an install at work, and flushes succeed. -/
theorem pushes_verified {p p' : Pool Op Reply Request (Option (List Char)) Store}
    {ls : List (Label Request Choice Tamper)}
    (h₀ : ((market sha256 xz).machine Fresh).init p)
    (hr : ((market sha256 xz).machine Fresh).Run
      (Orderly (market sha256 xz) regions (Sane sha256 xz) Flushes) p ls p') :
    AllVerified sha256 xz p'.shared := by
  have hinit : ∀ s, Fresh s → Sane sha256 xz s := fun s hs =>
    ⟨hs.1, hs.2.1, fun p hp => (by rw [hs.2.2.1] at hp; cases hp),
      fun r hr => (by rw [hs.2.2.2] at hr; cases hr)⟩
  exact (kept_run (fun q s _ => works_install q s) hinit h₀ hr).shared.verified

end Program

/-! ### Runs -/

/-- A digest, for the runs below. -/
def spelt (bytes : Bytes) : List Char := bytes.map fun b => Char.ofNat (0x61 + b.toNat)

/-- A tool of two bytes. -/
def smallTool : ToolEntry := ⟨['t'], ['1'], 2, ['b', 'c']⟩

def smallMarket : Machine (Pool Op Reply Request (Option (List Char)) Store)
    (Label Request Choice Tamper) :=
  (market spelt fun _ => none).machine Fresh

/-- A market with these files in the cache. -/
def opening (names : List Char → Option Nat) (files : Nat → Bytes) :
    Pool Op Reply Request (Option (List Char)) Store :=
  ⟨⟨names, files, 1, [], []⟩, fun _ => none, []⟩

/-- A cached file with the registered digest is pushed. -/
theorem cached_verified : ∃ p p' ls, smallMarket.init p ∧
    smallMarket.Run (Orderly (market spelt fun _ => none) regions (Sane spelt fun _ => none)
      Flushes) p ls p' ∧
    p'.shared.pushes = [⟨.install smallTool, some [1, 2], ['b', 'c']⟩] ∧
    AllVerified spelt (fun _ => none) p'.shared := by
  have hinit : smallMarket.init (opening
      (fun n => if n = cachePath smallTool then some 0 else none) fun _ => [1, 2]) := by
    refine ⟨⟨fun n m i hn hm => ?_, fun n i hn => ?_, rfl, rfl⟩, rfl, rfl⟩
    · simp only [opening] at hn hm
      split at hn
      · split at hm
        · exact ‹n = _›.trans ‹m = _›.symm
        · cases hm
      · cases hn
    · simp only [opening] at hn
      split at hn
      · cases hn
        exact Nat.one_pos
      · cases hn
  have hr : smallMarket.Run (Orderly (market spelt fun _ => none) regions (Sane spelt fun _ => none)
        Flushes)
      (opening (fun n => if n = cachePath smallTool then some 0 else none) fun _ => [1, 2])
      [.begin 0 (.install smallTool), .act 0 (.flag true), .act 0 (.flag true),
        .act 0 (.flag true)] _ :=
    .more (fun _ _ h => nomatch h) rfl <|
    .more (fun _ _ _ h => by cases h; trivial) rfl <|
    .more (fun _ _ _ h => by cases h; trivial) rfl <|
    .more (fun _ _ _ h => by cases h; trivial) rfl <|
    .refl _
  exact ⟨_, _, _, hinit, hr, rfl, pushes_verified spelt (fun _ => none) hinit hr⟩

/-- A second install of the same tool empties the file between the first one's check and its
rename. -/
def overlapping : List (Label Request Choice Tamper) :=
  [.begin 0 (.install smallTool), .begin 1 (.install smallTool), .act 0 (.flag true),
    .act 0 (.flag true), .act 0 (.flag true), .act 0 (.flag true),
    .act 0 (.body (some (some [1, 2]))), .act 0 (.flag true), .act 0 (.body (some none)), .act 0 (.flag true), .act 1 (.flag true),
    .act 1 (.flag true), .act 1 (.flag true), .act 1 (.flag true), .act 0 (.flag true),
    .act 0 (.flag true)]

/-- Two installs of one tool push a file that is not what was checked. -/
theorem overlap_pushes_unverified : ¬ ∀ (sha256 : Bytes → List Char) (xz : Bytes → Option Bytes) p,
    ((market sha256 xz).machine Fresh).Reach p → AllVerified sha256 xz p.shared := by
  intro hall
  have hexec : (smallMarket.exec (opening (fun _ => none) fun _ => []) overlapping).any (fun p =>
      p.shared.pushes.any fun push => push.content = some [] && push.sha256 = ['b', 'c']) =
        true := by
    rfl
  obtain ⟨p, hr, hp⟩ := Machine.run_of_exec_any Machine.guarded_any hexec
  obtain ⟨push, hpush, hempty⟩ := List.any_eq_true.mp hp
  simp only [Bool.and_eq_true, decide_eq_true_eq] at hempty
  have hreach : smallMarket.Reach p :=
    ⟨_, _, ⟨⟨fun _ _ _ h => (by cases h), fun _ _ h => (by cases h), rfl, rfl⟩, rfl, rfl⟩, hr⟩
  have hsha := ((hall spelt (fun _ => none) p hreach).1 push hpush [] hempty.1).1
  rw [hempty.2] at hsha
  exact absurd hsha (by decide)

end RevBox.ToolMarket
