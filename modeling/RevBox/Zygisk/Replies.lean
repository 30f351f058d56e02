import RevBox.Zygisk.Export

/-!
# Zygisk — Replies

What the module answers to a line (`serve_session`, after `judge` of Session): the status line, the
registry, frames, or an export; and what becomes of the fuse.

The clock is read when a line is checked, and again when a failure is noted.  A line finds a helper
that behaves in some way, and files that are there or not.
-/

namespace RevBox.Zygisk

open CText

/-! ### What is fixed when the module starts -/

/-- `g_version`, `g_version_code` and `g_locale`, as far as their buffers hold them. -/
structure ModuleMeta where
  version : Bytes
  versionCode : Int
  locale : Bytes
  version_le : version.length ≤ 63
  version_line : 10 ∉ version
  code_bounds : -2 ^ 63 ≤ versionCode ∧ versionCode < 2 ^ 63
  locale_le : locale.length ≤ 127

namespace Command

/-- `Handler::capability`. -/
def capability : Command → Option Bytes
  | s => none
  | l => some (lit "list")
  | m => some (lit "manifest")
  | e => some (lit "export")
  | p => some (lit "describe")
  | i => some (lit "handlers")

/-- `Handler::target`. -/
def target : Command → Bytes
  | s | i => lit "companion"
  | l | m | p => lit "system_server Java"
  | e => Utf8.encode "system_server Java + 文件读".toList

/-- `Handler::permission`. -/
def permission (_ : Command) : Bytes := lit "token"

/-- `Handler::timeout_ms`. -/
def timeoutMs : Command → Nat
  | s | i => 0
  | l | m | e | p => 8000

/-- `Handler::cancellable`. -/
def cancellable (_ : Command) : Bool := true

end Command

/-! ### The fuse -/

/-- `g_hstate`. -/
abbrev Fuse := Command → HandlerState

/-- `g_hstate` when the module starts. -/
def Fuse.fresh : Fuse := fun _ => ⟨0, 0⟩

/-- `handler_fused`. -/
def fusedAt (fuse : Fuse) (now : Nat) (h : Command) : Bool := now < (fuse h).fusedUntilMs

/-- The state of one method replaced. -/
def Fuse.set (fuse : Fuse) (h : Command) (st : HandlerState) : Fuse :=
  fun h' => if h' = h then st else fuse h'

/-! ### Status and registry -/

/-- What the status line says of a method. -/
def capabilityWord (fused : Command → Bool) (h : Command) : Bytes :=
  match h.capability with
  | some capability => if fused h then [] else 32 :: capability
  | none => []

/-- `%ld`. -/
def intText : Int → Bytes
  | .ofNat n => sizeText n
  | .negSucc n => 45 :: sizeText (n + 1)

/-- The text of `status_line`. -/
def statusText (m : ModuleMeta) (fused : Command → Bool) (word : Bytes) : Bytes :=
  word ++ 32 :: (lit "2" ++ 32 :: (m.version ++ 32 :: (intText m.versionCode ++ 32 :: (m.locale ++
    (handlers.flatMap (capabilityWord fused) ++ [10])))))

/-- `status_line`, as far as the buffer holds it: `OK` after the handshake, `STATUS` to `S`. -/
def statusLine (m : ModuleMeta) (fused : Command → Bool) (word : Bytes) : Bytes :=
  (statusText m fused word).take 511

/-- `true` and `false`. -/
def boolText (b : Bool) : Bytes := if b then lit "true" else lit "false"

/-- A string literal or `null`. -/
def capabilityJson : Option Bytes → Bytes
  | some capability => 34 :: (capability ++ [34])
  | none => lit "null"

/-- A method in the answer to `I`. -/
def registryEntry (fused : Command → Bool) (h : Command) : Bytes :=
  lit "\x7b\"cmd\":\"" ++ (h.word ++ (lit "\",\"capability\":" ++ (capabilityJson h.capability ++
  (lit ",\"target\":\"" ++ (h.target ++ (lit "\",\"permission\":\"" ++ (h.permission ++
  (lit "\",\"timeout_ms\":" ++ (sizeText h.timeoutMs ++ (lit ",\"max_response_bytes\":" ++
  (sizeText h.maxResponse ++ (lit ",\"cancellable\":" ++ (boolText h.cancellable ++
  (lit ",\"fused\":" ++ (boolText (fused h) ++ lit "\x7d")))))))))))))))

/-- The entries that fit, from `off` on. -/
def registryFrom (fused : Command → Bool) : Nat → List Command → Bytes
  | _, [] => []
  | off, h :: hs =>
      let entry := registryEntry fused h ++ [10]
      if 8 * 1024 ≤ off + entry.length then []
      else entry ++ registryFrom fused (off + entry.length) hs

/-- The last frame of the registry. -/
def registryEnd : Bytes := lit "\x7b\"final\":true,\"count\":6\x7d"

/-- The answer to `I`, before it is cut into frames. -/
def registry (fused : Command → Bool) : Bytes :=
  let entries := registryFrom fused 0 handlers
  entries ++ (registryEnd ++ [10]).take (8 * 1024 - entries.length - 1)

/-! ### Answers -/

/-- An answer, in one of the two modes. -/
inductive Reply where
  | frames (frames : List Bytes)
  | bare (parts : List Part)

/-- What a line finds. -/
structure Round where
  now : Nat
  later : Nat
  helper : Helper
  disk : Storage
  memory : Bool

/-- What a line comes to: what is answered, whether the session goes on, and the fuse, which is
there for the next session too. -/
structure Outcome where
  reply : Option Reply
  goesOn : Bool
  fuse : Fuse

/-- `L`, `P` and `M`, accepted: nothing comes while the helper stays without its output. -/
def respondFramed (beyond : Bytes) (w : Round) (fuse : Fuse) (h : Command) : Option Outcome :=
  (runFramed beyond w.later h w.helper (fuse h)).map fun r =>
    ⟨some (.frames r.1), true, fuse.set h r.2⟩

/-- `E`, accepted: the session ends where a file does not come to its end. -/
def respondExport (beyond : Bytes) (w : Round) (fuse : Fuse) (package : Bytes) : Option Outcome :=
  (runExport beyond w.later w.disk package w.helper (fuse .e)).map fun r =>
    ⟨some (.bare r.1), r.2.1, fuse.set .e r.2.2⟩

/-- What a line that was judged comes to. -/
def respond (m : ModuleMeta) (beyond : Bytes) (w : Round) (fuse : Fuse) : Verdict → Option Outcome
  | .close => some ⟨none, false, fuse⟩
  | .refuse true code message => some ⟨some (.frames [errFrame beyond code message]), true, fuse⟩
  | .refuse false code message =>
      some ⟨some (.bare [.line (sent beyond (errText code message))]), true, fuse⟩
  | .run .status =>
      some ⟨some (.bare [.line (statusLine m (fusedAt fuse w.now) (lit "STATUS"))]), true, fuse⟩
  | .run .registry =>
      some ⟨some (.frames (if w.memory then streamNdjson beyond (registry (fusedAt fuse w.now))
        else [errFrame beyond (lit "helper_failed") (lit "oom")])), true, fuse⟩
  | .run (.list _ _ _) => respondFramed beyond w fuse .l
  | .run (.one _) => respondFramed beyond w fuse .p
  | .run .manifest => respondFramed beyond w fuse .m
  | .run (.files package) => respondExport beyond w fuse package

/-- One line of a session: what it comes to, and what it leaves in `rest`. -/
def step (m : ModuleMeta) (beyond : Bytes) (w : Round) (line rest : Bytes) (fuse : Fuse) :
    Option Outcome × Bytes :=
  let verdict := judge (fusedAt fuse w.now) rest line
  (respond m beyond w fuse verdict.1, verdict.2)

end RevBox.Zygisk
