import RevBox.Desktop.ProcessService
import RevBox.Support.Utf8
import Mathlib.Data.List.Forall2

/-!
# Desktop — ProcessOutput

What the sink of `execute` gets of the two streams of a child (`services/process_service.rs`).
Each stream has a pump that reads line after line into the channel, and ends at the end of the
stream or at the first line that is not UTF-8; the loop hands on what the channel holds and returns
when the child has exited and both pumps have ended.

* `Inv`: what the pumps have read is in the sink or in the channel.
* `output_complete_iff`: when `execute` returns, the sink has got every line of both streams, whole
  or cut, when and only when all of them are UTF-8, unless a timeout's hard cap ended the loop.
-/

namespace RevBox.ProcessOutput

open ProcessService

abbrev Bytes := List UInt8

/-! ### The pumps -/

/-- One of the child's two pipes. -/
inductive Pipe where
  | stdout
  | stderr
  deriving DecidableEq

/-- What the lines of a pipe are marked with. -/
def Pipe.kind : Pipe → StreamKind
  | .stdout => .stdout
  | .stderr => .stderr

/-- Up to and with the first newline, and what is left. -/
def readUntilNewline : Bytes → Bytes × Bytes
  | [] => ([], [])
  | b :: bs =>
      if b = 10 then ([b], bs)
      else
        let (line, rest) := readUntilNewline bs
        (b :: line, rest)

/-- A line without the newline at its end, and the carriage return before that. -/
def withoutEnd (line : List Char) : List Char :=
  match line.reverse with
  | '\n' :: '\r' :: front => front.reverse
  | '\n' :: front => front.reverse
  | _ => line

/-- What reading a line comes to. -/
inductive Next where
  | line (text : List Char) (rest : Bytes)
  | end_
  | error

/-- `next_line`. -/
def nextLine (bytes : Bytes) : Next :=
  let (raw, rest) := readUntilNewline bytes
  if raw = [] then .end_
  else
    match Utf8.fromUtf8 raw with
    | some text => .line (withoutEnd text) rest
    | none => .error

/-- The loop, and what each pump has before it, as long as it has not ended. -/
structure Piped where
  run : Run
  rest : Pipe → Option Bytes

/-- Time passes, a pump reads, the child exits, or the loop takes a branch. -/
inductive Label where
  | pass (d : Nat)
  | pump (pipe : Pipe)
  | exit (code : Option Int)
  | poll

/-- The loop of `execute` makes a move. -/
def Piped.move (p : Piped) (l : ProcessService.Label) (rest : Pipe → Option Bytes) :
    Option Piped :=
  (ProcessService.step p.run l).map fun run => ⟨run, rest⟩

/-- `execute` and `spawn_pump`. -/
def step (p : Piped) : Label → Option Piped
  | .pass d => p.move (.pass d) p.rest
  | .exit code => p.move (.exit code) p.rest
  | .poll => p.move .poll p.rest
  | .pump pipe =>
      match p.rest pipe with
      | none => none
      | some bytes =>
          match nextLine bytes with
          | .line text rest =>
              -- the receiver is gone when the loop has returned
              if p.run.returned = none then
                p.move (.line pipe.kind text) (Function.update p.rest pipe (some rest))
              else p.move .eof (Function.update p.rest pipe none)
          | .end_ | .error => p.move .eof (Function.update p.rest pipe none)

/-- `execute`, of a child that writes these streams, and that nobody cancels. -/
def machine (streams : Pipe → Bytes) : Machine Piped Label where
  init p := ∃ timeout, p = ⟨start timeout, fun pipe => some (streams pipe)⟩
  step := step

/-! ### What is promised -/

/-- The lines of a stream, the first of them begun already. -/
def linesFrom (begun : Bytes) : Bytes → List Bytes
  | [] => if begun = [] then [] else [begun]
  | b :: bs =>
      if b = 10 then (begun ++ [b]) :: linesFrom [] bs else linesFrom (begun ++ [b]) bs

/-- The lines of a stream, with their newlines. -/
def linesOf (stream : Bytes) : List Bytes := linesFrom [] stream

/-- The text stands for a line: if it is UTF-8, it is that without its end. -/
def StandsFor (raw : Bytes) (text : List Char) : Prop :=
  ∀ s, Utf8.fromUtf8 raw = some s → text = withoutEnd s

/-- A text is shown, whole, or cut at a character to `MAX_LINE_BYTES` and marked. -/
def Shows (text shown : List Char) : Prop :=
  shown = text ∨ ∃ front, front <+: text ∧ (Utf8.encode front).length ≤ maxLineBytes ∧
    shown = front ++ "…[truncated]".toList

/-- What the sink has got of a pipe. -/
def Piped.got (p : Piped) (pipe : Pipe) : List (List Char) :=
  (p.run.sink.filter fun line => line.1 = pipe.kind).map Prod.snd

/-- **No output is lost**: the sink has got a text for every line, in order. -/
def Complete (streams : Pipe → Bytes) (p : Piped) : Prop :=
  ∀ pipe, ∃ texts, List.Forall₂ StandsFor (linesOf (streams pipe)) texts ∧
    List.Forall₂ Shows texts (p.got pipe)

/-- Every line of both streams is UTF-8. -/
def AllUtf8 (streams : Pipe → Bytes) : Prop :=
  ∀ pipe, ∀ raw ∈ linesOf (streams pipe), (Utf8.fromUtf8 raw).isSome = true

/-- The condition on a step: the hard cap of a timeout has not been reached. -/
def Within (p : Piped) : Label → Prop
  | .poll => ¬ p.run.Since hardCapAfterTerm
  | _ => True

instance (p : Piped) : ∀ l, Decidable (Within p l)
  | .poll => inferInstanceAs (Decidable (¬ _))
  | .pass _ | .pump _ | .exit _ => .isTrue trivial

/-! ### Lines -/

theorem linesFrom_eq (begun stream : Bytes) :
    linesFrom begun stream =
      if begun ++ (readUntilNewline stream).1 = [] then []
      else (begun ++ (readUntilNewline stream).1) :: linesOf (readUntilNewline stream).2 := by
  induction stream generalizing begun with
  | nil =>
      rw [linesFrom, readUntilNewline, List.append_nil]
      rfl
  | cons b bs ih =>
      rw [linesFrom, readUntilNewline]
      by_cases hb : b = 10
      · simp [hb, linesOf]
      · rw [if_neg hb, if_neg hb, ih]
        simp

/-- The lines of a stream are what is read first, and the lines of what is left. -/
theorem linesOf_eq (stream : Bytes) :
    linesOf stream =
      if (readUntilNewline stream).1 = [] then []
      else (readUntilNewline stream).1 :: linesOf (readUntilNewline stream).2 := by
  rw [linesOf, linesFrom_eq, List.nil_append]

/-- What a pump reads: nothing more, the next line, or no text. -/
theorem nextLine_cases (bytes : Bytes) :
    (linesOf bytes = [] ∧ nextLine bytes = .end_) ∨
      ∃ raw rest, linesOf bytes = raw :: linesOf rest ∧
        ((∃ s, Utf8.fromUtf8 raw = some s ∧ nextLine bytes = .line (withoutEnd s) rest) ∨
          Utf8.fromUtf8 raw = none ∧ nextLine bytes = .error) := by
  rw [linesOf_eq]
  unfold nextLine
  by_cases hraw : (readUntilNewline bytes).1 = []
  · exact .inl ⟨if_pos hraw, if_pos hraw⟩
  · refine .inr ⟨_, _, if_neg hraw, ?_⟩
    cases h : Utf8.fromUtf8 (readUntilNewline bytes).1 with
    | some s => exact .inl ⟨s, rfl, by simp only [hraw, if_false, h]⟩
    | none => exact .inr ⟨rfl, by simp only [hraw, if_false, h]⟩

theorem fitting_prefix (s : List Char) (max : Nat) : fitting s max <+: s := by
  induction s generalizing max with
  | nil => exact List.prefix_rfl
  | cons c s ih =>
      rw [fitting]
      split_ifs
      · exact List.cons_prefix_cons.mpr ⟨rfl, ih _⟩
      · exact List.nil_prefix

theorem length_fitting (s : List Char) (max : Nat) :
    (Utf8.encode (fitting s max)).length ≤ max := by
  induction s generalizing max with
  | nil => simp [fitting]
  | cons c s ih =>
      rw [fitting]
      split_ifs with hc
      · rw [Utf8.length_encode_cons]
        have := ih (max - c.utf8Size)
        omega
      · simp

theorem shows_truncateBytes (text : List Char) : Shows text (truncateBytes text maxLineBytes) := by
  unfold truncateBytes
  split_ifs
  · exact .inl rfl
  · exact .inr ⟨_, fitting_prefix _ _, length_fitting _ _, rfl⟩

/-- How a line is shown. -/
def shown (raw : Bytes) : List Char :=
  truncateBytes (withoutEnd ((Utf8.fromUtf8 raw).getD [])) maxLineBytes

/-! ### What the loop keeps -/

/-- What of a pipe's lines the sink and the channel hold, in order. -/
def flowing (run : Run) (pipe : Pipe) : List (List Char) :=
  ((run.sink ++ run.channel).filter fun line => line.1 = pipe.kind).map Prod.snd

/-- A pump has read some lines, all UTF-8, which are held; what is left is before it, or it has
ended, at the end or at a line that is not. -/
def Flow (stream : Bytes) (rest : Option Bytes) (held : List (List Char)) : Prop :=
  ∃ read left, linesOf stream = read ++ left ∧
    (∀ raw ∈ read, (Utf8.fromUtf8 raw).isSome = true) ∧ held = read.map shown ∧
    match rest with
    | some bytes => left = linesOf bytes
    | none => ∀ raw, left.head? = some raw → Utf8.fromUtf8 raw = none

/-- How many pumps have not ended. -/
def alive (rest : Pipe → Option Bytes) : Nat :=
  (if (rest .stdout).isSome then 1 else 0) + if (rest .stderr).isSome then 1 else 0

/-- What holds of the loop and its pumps. -/
structure Inv (streams : Pipe → Bytes) (p : Piped) : Prop where
  flows : ∀ pipe, Flow (streams pipe) (p.rest pipe) (flowing p.run pipe)
  pumps : p.run.pumps = alive p.rest
  closed : p.run.rxOpen = false → p.run.channel = [] ∧ p.run.pumps = 0
  returned : p.run.returned ≠ none → p.run.rxOpen = false

section Kept

variable {streams : Pipe → Bytes} {p p' : Piped} {l : Label} {run : Run} {b : Branch}

theorem alive_update_some {rest : Pipe → Option Bytes} {pipe : Pipe} {bytes bytes' : Bytes}
    (h : rest pipe = some bytes) :
    alive (Function.update rest pipe (some bytes')) = alive rest := by
  cases pipe <;> simp [alive, h]

theorem alive_update_none {rest : Pipe → Option Bytes} {pipe : Pipe} {bytes : Bytes}
    (h : rest pipe = some bytes) :
    alive (Function.update rest pipe none) + 1 = alive rest := by
  cases pipe <;> simp [alive, h, Nat.add_comm]

theorem rest_eq_none (h : alive p.rest = 0) (pipe : Pipe) : p.rest pipe = none := by
  by_contra hsome
  obtain ⟨bytes, hbytes⟩ := Option.ne_none_iff_exists'.mp hsome
  have := alive_update_none hbytes
  omega

/-- A branch takes a line from the channel to the sink, finds the channel closed, or leaves the
lines where they are. -/
theorem flowing_fire (hb : run.branch = some b) :
    (∀ pipe, flowing (run.fire b) pipe = flowing run pipe) ∧ (run.fire b).pumps = run.pumps ∧
      ((run.fire b).rxOpen = false → run.rxOpen = false ∧ (run.fire b).channel = run.channel ∨
        (run.fire b).channel = [] ∧ run.pumps = 0) := by
  have hterminate : ∀ reason text,
      (∀ pipe, flowing (run.terminate reason text) pipe = flowing run pipe) ∧
        (run.terminate reason text).pumps = run.pumps ∧
        ((run.terminate reason text).rxOpen = false →
          run.rxOpen = false ∧ (run.terminate reason text).channel = run.channel ∨
          (run.terminate reason text).channel = [] ∧ run.pumps = 0) := by
    intro reason text
    have hsystem : ∀ pipe : Pipe, StreamKind.system ≠ pipe.kind := by rintro ⟨⟩ <;> decide
    unfold Run.terminate
    refine ⟨fun pipe => ?_, ?_, ?_⟩
    · unfold flowing
      split_ifs <;> simp [hsystem pipe, Run.send]
    · split_ifs <;> rfl
    · split_ifs <;> exact fun h => .inl ⟨h, rfl⟩
  rcases branch_cases hb with ⟨rfl, hopen, hrecv⟩ | ⟨rfl, -, -⟩ | ⟨rfl, -, -⟩ | ⟨rfl, -, -⟩
  · cases hchannel : run.channel with
    | nil =>
        have hfire : run.fire .recv = { run with rxOpen := false } := by
          simp only [Run.fire, hchannel]
        rw [hfire]
        exact ⟨fun _ => rfl, rfl, fun _ => .inr ⟨hchannel, hrecv.resolve_left (absurd hchannel)⟩⟩
    | cons line rest =>
        have hfire : run.fire .recv = { run with channel := rest, sink := run.sink ++ [line] } := by
          simp only [Run.fire, hchannel]
        rw [hfire]
        refine ⟨fun pipe => ?_, rfl, fun hclosed => ?_⟩
        · simp only [flowing, hchannel, List.append_assoc, List.singleton_append]
        · rw [show run.rxOpen = false from hclosed] at hopen
          cases hopen
  · exact ⟨fun _ => rfl, rfl, fun h => .inl ⟨h, rfl⟩⟩
  · exact hterminate _ _
  · exact hterminate _ _

theorem since_fire (hb : run.branch = some b) {d : Nat} (hd : 0 < d) (h : ¬ run.Since d) :
    ¬ (run.fire b).Since d := by
  have hterminate : ∀ reason text, ¬ (run.terminate reason text).Since d := by
    intro reason text hsince
    unfold Run.terminate at hsince
    split_ifs at hsince
    · obtain ⟨t, ht, hle⟩ := since_iff.mp hsince
      obtain rfl : run.now = t := Option.some.inj ht
      exact absurd (show run.now + d ≤ run.now from hle) (by omega)
    · exact h hsince
  rcases branch_cases hb with ⟨rfl, -, -⟩ | ⟨rfl, -, -⟩ | ⟨rfl, -, -⟩ | ⟨rfl, -, -⟩
  · unfold Run.fire
    cases run.channel <;> exact h
  · exact h
  · exact hterminate _ _
  · exact hterminate _ _

/-- Looking at the clock moves no line, and within the hard cap the loop ends when it has got
everything. -/
theorem settle_spec (h : ¬ run.Since hardCapAfterTerm) :
    (∀ pipe, flowing run.escalate.settle pipe = flowing run pipe) ∧
      run.escalate.settle.pumps = run.pumps ∧ run.escalate.settle.channel = run.channel ∧
      run.escalate.settle.rxOpen = run.rxOpen ∧
      (run.escalate.settle.returned ≠ none → run.returned ≠ none ∨ run.rxOpen = false) := by
  have hsettle : ∀ q : Run, ¬ q.Since hardCapAfterTerm →
      q.settle.returned ≠ none → q.returned ≠ none ∨ q.rxOpen = false := by
    intro q hq hret
    unfold Run.settle at hret
    split_ifs at hret with hend
    · exact .inr (hend.resolve_right hq).2
    · exact .inl hret
  have hkeeps : ∀ q : Run, q.settle.sink = q.sink ∧ q.settle.channel = q.channel ∧
      q.settle.pumps = q.pumps ∧ q.settle.rxOpen = q.rxOpen := by
    intro q
    unfold Run.settle
    split_ifs <;> exact ⟨rfl, rfl, rfl, rfl⟩
  obtain ⟨hsink, hchannel, hpumps, hopen⟩ := hkeeps run.escalate
  have hreturned := hsettle run.escalate
  unfold flowing
  rw [hsink, hchannel, hpumps, hopen]
  unfold Run.escalate at hreturned ⊢
  split_ifs at hreturned ⊢ <;> exact ⟨fun _ => rfl, rfl, rfl, rfl, hreturned h⟩

/-- **What a branch preserves.** -/
theorem Inv.poll (h : Inv streams p) (hwithin : ¬ p.run.Since hardCapAfterTerm)
    (hret : p.run.returned = none) (hb : p.run.branch = some b) :
    Inv streams ⟨(p.run.fire b).escalate.settle, p.rest⟩ := by
  obtain ⟨hflowing, hpumps, hclosed⟩ := flowing_fire hb
  obtain ⟨hflowing', hpumps', hchannel', hopen', hreturned'⟩ :=
    settle_spec (since_fire hb (by decide) hwithin)
  refine ⟨fun pipe => ?_, (hpumps'.trans hpumps).trans h.pumps, fun hoff => ?_, fun hdone => ?_⟩
  · rw [hflowing', hflowing]
    exact h.flows pipe
  · rw [hopen'] at hoff
    rw [hchannel', hpumps', hpumps]
    rcases hclosed hoff with ⟨hoff, hsame⟩ | hboth
    · rw [hsame]
      exact h.closed hoff
    · exact hboth
  · rw [hopen']
    refine (hreturned' hdone).resolve_left fun hne => hne ?_
    rw [returned_fire, hret]

/-- **What a pump preserves** that has read a line. -/
theorem Inv.line (h : Inv streams p) {pipe : Pipe} {bytes rest raw : Bytes} {s : List Char}
    (hrest : p.rest pipe = some bytes) (hlines : linesOf bytes = raw :: linesOf rest)
    (hs : Utf8.fromUtf8 raw = some s) (hpumps : 0 < p.run.pumps) :
    Inv streams ⟨{ p.run with
      channel := p.run.channel ++ [(pipe.kind, truncateBytes (withoutEnd s) maxLineBytes)]
      woken := some p.run.now }, Function.update p.rest pipe (some rest)⟩ := by
  have hopen : p.run.rxOpen ≠ false := fun hoff => by
    have := (h.closed hoff).2
    omega
  refine ⟨fun other => ?_, ?_, fun hoff => absurd hoff hopen,
    fun hret => absurd (h.returned hret) hopen⟩
  · obtain ⟨read, left, hall, hutf8, hheld, hleft⟩ := h.flows other
    by_cases hother : other = pipe
    · subst hother
      rw [hrest] at hleft
      refine ⟨read ++ [raw], linesOf rest, ?_, ?_, ?_, ?_⟩
      · rw [hall, show left = linesOf bytes from hleft, hlines, List.append_assoc]
        rfl
      · intro line hline
        rcases List.mem_append.mp hline with hline | hline
        · exact hutf8 line hline
        · rw [List.mem_singleton.mp hline, hs]
          rfl
      · have hshown : shown raw = truncateBytes (withoutEnd s) maxLineBytes := by
          rw [shown, hs]
          rfl
        rw [List.map_append, ← hheld]
        simp [flowing, hshown]
      · simp
    · have hkind : pipe.kind ≠ other.kind := by
        cases pipe <;> cases other <;> first | exact absurd rfl hother | decide
      refine ⟨read, left, hall, hutf8, ?_, ?_⟩
      · rw [← hheld]
        simp [flowing, hkind]
      · simpa [Function.update_of_ne hother] using hleft
  · exact h.pumps.trans (alive_update_some hrest).symm

/-- **What a pump preserves** that ends. -/
theorem Inv.eof (h : Inv streams p) {pipe : Pipe} {bytes : Bytes} (hrest : p.rest pipe = some bytes)
    (hends : ∀ raw, (linesOf bytes).head? = some raw → Utf8.fromUtf8 raw = none)
    {woken : Option Nat} :
    Inv streams ⟨{ p.run with pumps := p.run.pumps - 1, woken := woken },
      Function.update p.rest pipe none⟩ := by
  have halive := alive_update_none hrest
  have hpumps := h.pumps
  refine ⟨fun other => ?_, ?_, fun hoff => ?_, h.returned⟩
  · obtain ⟨read, left, hall, hutf8, hheld, hleft⟩ := h.flows other
    refine ⟨read, left, hall, hutf8, hheld, ?_⟩
    by_cases hother : other = pipe
    · subst hother
      rw [hrest] at hleft
      rw [show left = linesOf bytes from hleft]
      simpa using hends
    · simpa [Function.update_of_ne hother] using hleft
  · show p.run.pumps - 1 = alive (Function.update p.rest pipe none)
    omega
  · obtain ⟨hchannel, hnone⟩ := h.closed hoff
    exact ⟨hchannel, by show p.run.pumps - 1 = 0; omega⟩

theorem Inv.pump (h : Inv streams p) {pipe : Pipe} (hs : step p (.pump pipe) = some p') :
    Inv streams p' := by
  have heof : ∀ {bytes : Bytes}, p.rest pipe = some bytes →
      (∀ raw, (linesOf bytes).head? = some raw → Utf8.fromUtf8 raw = none) →
      p.move .eof (Function.update p.rest pipe none) = some p' → Inv streams p' := by
    intro bytes hrest hends hmove
    obtain ⟨run, hrun, rfl⟩ := Option.map_eq_some_iff.mp hmove
    simp only [ProcessService.step] at hrun
    split at hrun
    · cases hrun
      exact h.eof hrest hends
    · cases hrun
  cases hrest : p.rest pipe with
  | none => simp [step, hrest] at hs
  | some bytes =>
      simp only [step, hrest] at hs
      rcases nextLine_cases bytes with ⟨hlines, hnext⟩ |
          ⟨raw, rest, hlines, ⟨s, hutf8, hnext⟩ | ⟨hutf8, hnext⟩⟩
      · rw [hnext] at hs
        refine heof hrest (fun raw hraw => ?_) hs
        rw [hlines] at hraw
        cases hraw
      · rw [hnext] at hs
        -- the loop has not returned while a pump is alive
        have hret : p.run.returned = none := by
          by_contra hret
          have hnone := h.pumps.symm.trans (h.closed (h.returned hret)).2
          rw [rest_eq_none hnone] at hrest
          cases hrest
        simp only [hret, if_true] at hs
        obtain ⟨run, hrun, rfl⟩ := Option.map_eq_some_iff.mp hs
        simp only [ProcessService.step] at hrun
        split_ifs at hrun with hpumps
        cases hrun
        exact h.line hrest hlines hutf8 hpumps
      · rw [hnext] at hs
        refine heof hrest (fun line hline => ?_) hs
        rw [hlines] at hline
        cases hline
        exact hutf8

/-- **What a step preserves.** -/
theorem inv_step (h : Inv streams p) (hc : Within p l)
    (hs : (machine streams).step p l = some p') : Inv streams p' := by
  cases l with
  | pass d =>
      cases hs
      exact ⟨h.flows, h.pumps, h.closed, h.returned⟩
  | exit code =>
      obtain ⟨run, hrun, rfl⟩ := Option.map_eq_some_iff.mp hs
      simp only [ProcessService.step] at hrun
      split_ifs at hrun
      cases hrun
      exact ⟨h.flows, h.pumps, h.closed, h.returned⟩
  | poll =>
      obtain ⟨run, hrun, rfl⟩ := Option.map_eq_some_iff.mp hs
      simp only [ProcessService.step] at hrun
      split_ifs at hrun with hret
      obtain ⟨b, hb, rfl⟩ := Option.map_eq_some_iff.mp hrun
      exact h.poll hc hret hb
  | pump pipe => exact h.pump hs

theorem inv_init (h₀ : (machine streams).init p) : Inv streams p := by
  obtain ⟨timeout, rfl⟩ := h₀
  exact ⟨fun pipe => ⟨[], linesOf (streams pipe), rfl, nofun, rfl, rfl⟩, rfl, nofun,
    fun h => absurd rfl h⟩

/-- What the sink has got of a pipe whose pump has ended, when nothing is in the channel. -/
theorem complete_iff (h : Inv streams p) (hoff : p.run.rxOpen = false) :
    Complete streams p ↔ AllUtf8 streams := by
  obtain ⟨hchannel, hpumps⟩ := h.closed hoff
  have hrest := rest_eq_none (h.pumps.symm.trans hpumps)
  have hflow : ∀ pipe, ∃ read left, linesOf (streams pipe) = read ++ left ∧
      (∀ raw ∈ read, (Utf8.fromUtf8 raw).isSome = true) ∧ p.got pipe = read.map shown ∧
      ∀ raw, left.head? = some raw → Utf8.fromUtf8 raw = none := by
    intro pipe
    obtain ⟨read, left, hall, hutf8, hheld, hleft⟩ := h.flows pipe
    rw [hrest] at hleft
    rw [flowing, hchannel, List.append_nil] at hheld
    exact ⟨read, left, hall, hutf8, hheld, hleft⟩
  constructor
  · intro hcomplete pipe
    obtain ⟨read, left, hall, hutf8, hgot, -⟩ := hflow pipe
    obtain ⟨texts, hstands, hshows⟩ := hcomplete pipe
    have hlen := hstands.length_eq.trans hshows.length_eq
    rw [hall, hgot, List.length_append, List.length_map] at hlen
    have hnil : left = [] := List.eq_nil_of_length_eq_zero (by omega)
    rw [hall, hnil, List.append_nil]
    exact hutf8
  · intro hutf8 pipe
    obtain ⟨read, left, hall, hread, hgot, hleft⟩ := hflow pipe
    have hnil : left = [] := by
      cases left with
      | nil => rfl
      | cons raw left =>
          have hsome := hutf8 pipe raw (by rw [hall]; simp)
          rw [hleft raw rfl] at hsome
          cases hsome
    rw [hall, hnil, List.append_nil, hgot]
    refine ⟨read.map fun raw => withoutEnd ((Utf8.fromUtf8 raw).getD []), ?_, ?_⟩
    · refine List.forall₂_map_right_iff.mpr (List.forall₂_same.mpr fun raw _ s hs => ?_)
      rw [hs]
      rfl
    · rw [List.forall₂_map_left_iff, List.forall₂_map_right_iff]
      exact List.forall₂_same.mpr fun raw _ => shows_truncateBytes _

end Kept

/-- **No output is lost**, of a child whose lines are all UTF-8 and of no other, when no timeout's
hard cap ends the loop. -/
theorem output_complete_iff {streams : Pipe → Bytes} {p₀ p : Piped} {ls : List Label}
    (h₀ : (machine streams).init p₀) (hr : (machine streams).Run Within p₀ ls p)
    (hret : p.run.returned ≠ none) : Complete streams p ↔ AllUtf8 streams := by
  have hinv : Inv streams p :=
    hr.invariant (fun _ _ _ h hc hs => inv_step h hc hs) (inv_init h₀)
  exact complete_iff hinv (hinv.returned hret)

/-- A child that writes to its standard output only. -/
def toStdout (stream : Bytes) : Pipe → Bytes
  | .stdout => stream
  | .stderr => []

/-- The start of a child that writes so, without a timeout. -/
def started (streams : Pipe → Bytes) : Piped := ⟨start none, fun pipe => some (streams pipe)⟩

/-- A line that has been read is in the sink when `execute` returns. -/
theorem line_shown : ∃ p, (machine (toStdout [97, 10])).Run Within (started (toStdout [97, 10]))
    [.pump .stdout, .poll, .pump .stdout, .pump .stderr, .poll, .exit (some 0), .poll] p ∧
      p.run.returned ≠ none ∧ Complete (toStdout [97, 10]) p := by
  obtain ⟨p, hr, hp⟩ : ∃ p, (machine (toStdout [97, 10])).Run Within (started (toStdout [97, 10]))
      [.pump .stdout, .poll, .pump .stdout, .pump .stderr, .poll, .exit (some 0), .poll] p ∧
        decide (p.run.returned ≠ none) = true :=
    Machine.run_of_exec_any (by decide) (by decide)
  have hret := of_decide_eq_true hp
  refine ⟨p, hr, hret, (output_complete_iff ⟨none, rfl⟩ hr hret).mpr fun pipe => ?_⟩
  cases pipe with
  | stdout => decide
  | stderr => exact nofun

/-- The line behind one that is not UTF-8 is lost, and that one too. -/
theorem invalid_line_ends_output : ¬ ∀ (streams : Pipe → Bytes) (p : Piped),
    (machine streams).Reach p → p.run.returned ≠ none → Complete streams p := by
  intro hall
  obtain ⟨p, hr, hp⟩ : ∃ p, (machine (toStdout [0xFF, 10, 97, 10])).Run Machine.Any
      (started (toStdout [0xFF, 10, 97, 10]))
      [.pump .stdout, .pump .stderr, .poll, .exit (some 0), .poll] p ∧
        decide (p.run.returned ≠ none ∧ p.got .stdout = []) = true :=
    Machine.run_of_exec_any Machine.guarded_any (by decide)
  obtain ⟨hret, hgot⟩ := of_decide_eq_true hp
  obtain ⟨texts, hstands, hshows⟩ := hall _ p ⟨_, _, ⟨none, rfl⟩, hr⟩ hret .stdout
  rw [hgot] at hshows
  have hlen := hstands.length_eq.trans hshows.length_eq
  cases hlen

end RevBox.ProcessOutput
