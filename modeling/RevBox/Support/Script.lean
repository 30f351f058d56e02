import Mathlib.Data.String.Basic
import Mathlib.Logic.Function.Basic

/-!
# Support — Script

Shell scripts over the simple commands `κ`: lists, `&&`, `||`, `if`, assignment by command
substitution, `set -e` and `exit`, as text and as what they do to a world.  A simple command says
whether it succeeded, what it printed, and what became of the world.

* `Script.text`: the script as it is handed to the shell.
* `Script.exec`: running it; under `set -e` a command that fails ends the shell, unless its status
  is tested.
-/

/-- A script. -/
inductive Script (κ : Type) where
  | cmd (c : κ)
  | echo (word : String)
  | exit (ok : Bool)
  | setE
  | set (x word : String)
  | capture (x : String) (body : Script κ)
  | seq (a b : Script κ)
  | and (a b : Script κ)
  | or (a b : Script κ)
  | ifThen (c t : Script κ)
  | ifElse (c t e : Script κ)

/-- What a simple command comes to. -/
structure Came (σ : Type) where
  ok : Bool
  out : List String
  world : σ

/-- A shell between two commands: the world, the variables, the lines printed and `set -e`. -/
structure ShellState (σ : Type) where
  world : σ
  vars : String → String
  out : List String
  errexit : Bool

/-- A shell after a script: the status of the script, and whether the shell has ended. -/
structure Ended (σ : Type) where
  shell : ShellState σ
  ok : Bool
  exited : Bool

/-- Go on with `next` unless the shell has ended. -/
def Ended.andThen {σ : Type} (r : Ended σ) (next : ShellState σ → Bool → Ended σ) : Ended σ :=
  if r.exited then r else next r.shell r.ok

namespace Script

variable {κ σ : Type}

/-- The script as it is handed to the shell; `word` writes out a simple command. -/
def text (word : κ → String) : Script κ → String
  | cmd c => word c
  | echo w => "echo " ++ if w = "" then "''" else w
  | exit ok => "exit " ++ if ok then "0" else "1"
  | setE => "set -e"
  | set x w => x ++ "=" ++ w
  | capture x body => x ++ "=$(" ++ body.text word ++ ")"
  | seq a b => a.text word ++ "; " ++ b.text word
  | and a b => a.text word ++ " && " ++ b.text word
  | or a b => a.text word ++ " || " ++ b.text word
  | ifThen c t => "if " ++ c.text word ++ "; then " ++ t.text word ++ "; fi"
  | ifElse c t e =>
      "if " ++ c.text word ++ "; then " ++ t.text word ++ "; else " ++ e.text word ++ "; fi"

/-- A simple command that has come to its status: under `set -e` an untested failure ends the
shell. -/
def settle (tested ok : Bool) (s : ShellState σ) : Ended σ :=
  ⟨s, ok, !ok && s.errexit && !tested⟩

/-- Run a script; `tested` where something looks at its status. -/
def exec (step : κ → (String → String) → σ → Came σ) : Bool → Script κ → ShellState σ → Ended σ
  | tested, cmd c, s =>
      let came := step c s.vars s.world
      settle tested came.ok { s with world := came.world, out := s.out ++ came.out }
  | _, echo w, s => ⟨{ s with out := s.out ++ [w] }, true, false⟩
  | _, exit ok, s => ⟨s, ok, true⟩
  | _, setE, s => ⟨{ s with errexit := true }, true, false⟩
  | _, set x w, s => ⟨{ s with vars := Function.update s.vars x w }, true, false⟩
  | tested, capture x body, s =>
      let r := exec step tested body { s with out := [] }
      settle tested r.ok { s with
        world := r.shell.world
        vars := Function.update s.vars x ("\n".intercalate r.shell.out) }
  | tested, seq a b, s => (exec step tested a s).andThen fun s' _ => exec step tested b s'
  | tested, and a b, s =>
      (exec step true a s).andThen fun s' ok =>
        if ok then exec step tested b s' else ⟨s', false, false⟩
  | tested, or a b, s =>
      (exec step true a s).andThen fun s' ok =>
        if ok then ⟨s', true, false⟩ else exec step tested b s'
  | tested, ifThen c t, s =>
      (exec step true c s).andThen fun s' ok =>
        if ok then exec step tested t s' else ⟨s', true, false⟩
  | tested, ifElse c t e, s =>
      (exec step true c s).andThen fun s' ok =>
        if ok then exec step tested t s' else exec step tested e s'

/-- A fresh shell runs the script. -/
def run (step : κ → (String → String) → σ → Came σ) (p : Script κ) (world : σ) : Ended σ :=
  p.exec step false ⟨world, fun _ => "", [], false⟩

variable {step : κ → (String → String) → σ → Came σ} {a b p q : Script κ} {c : κ} {x w : String}
variable {tested : Bool} {s : ShellState σ}

/-! ### One step of the shell -/

theorem exec_cmd : (cmd c).exec step tested s = settle tested (step c s.vars s.world).ok { s with
    world := (step c s.vars s.world).world
    out := s.out ++ (step c s.vars s.world).out } := rfl

theorem exec_echo :
    (echo w : Script κ).exec step tested s = ⟨{ s with out := s.out ++ [w] }, true, false⟩ := rfl

theorem exec_capture : (capture x p).exec step tested s =
    settle tested (p.exec step tested { s with out := [] }).ok { s with
      world := (p.exec step tested { s with out := [] }).shell.world
      vars := Function.update s.vars x
        ("\n".intercalate (p.exec step tested { s with out := [] }).shell.out) } := rfl

theorem exec_seq : (a.seq b).exec step tested s =
    (a.exec step tested s).andThen fun s' _ => b.exec step tested s' := rfl

theorem exec_and : (a.and b).exec step tested s = (a.exec step true s).andThen fun s' ok =>
    if ok then b.exec step tested s' else ⟨s', false, false⟩ := rfl

theorem exec_or : (a.or b).exec step tested s = (a.exec step true s).andThen fun s' ok =>
    if ok then ⟨s', true, false⟩ else b.exec step tested s' := rfl

theorem exec_ifThen : (ifThen a p).exec step tested s = (a.exec step true s).andThen fun s' ok =>
    if ok then p.exec step tested s' else ⟨s', true, false⟩ := rfl

theorem exec_ifElse : (ifElse a p q).exec step tested s = (a.exec step true s).andThen fun s' ok =>
    if ok then p.exec step tested s' else q.exec step tested s' := rfl

theorem exec_setE_seq :
    (setE.seq p).exec step tested s = p.exec step tested { s with errexit := true } := rfl

/-! ### Scripts that only set variables -/

/-- The script does nothing but set variables, and succeeds. -/
def Harmless (step : κ → (String → String) → σ → Came σ) (p : Script κ) : Prop :=
  ∀ tested s, ∃ vars, p.exec step tested s = ⟨{ s with vars := vars }, true, false⟩

/-- The script leaves the world, and the shell goes on if its status is tested. -/
def Looks (step : κ → (String → String) → σ → Came σ) (p : Script κ) : Prop :=
  ∀ s, (p.exec step true s).shell.world = s.world ∧ (p.exec step true s).exited = false

/-- The command does nothing but come to a status. -/
def Quiet (step : κ → (String → String) → σ → Came σ) (c : κ) : Prop :=
  ∀ vars w, (step c vars w).world = w ∧ (step c vars w).out = []

/-- The script does nothing but come to a status, if that is tested. -/
def Silent (step : κ → (String → String) → σ → Came σ) (p : Script κ) : Prop :=
  ∀ s, ∃ ok, p.exec step true s = ⟨s, ok, false⟩

@[simp] theorem settle_true (ok : Bool) : settle true ok s = ⟨s, ok, false⟩ := by
  simp [settle]

@[simp] theorem settle_ok : settle tested true s = ⟨s, true, false⟩ := by
  simp [settle]

theorem looks_cmd (h : ∀ vars w, (step c vars w).world = w) : Looks step (cmd c) := fun s => by
  rw [exec_cmd, settle_true]
  exact ⟨h _ _, rfl⟩

theorem Looks.or (ha : Looks step a) (hb : Looks step b) : Looks step (a.or b) := fun s => by
  obtain ⟨hw, he⟩ := ha s
  simp only [exec_or, Ended.andThen, he]
  cases (a.exec step true s).ok with
  | true => exact ⟨hw, rfl⟩
  | false =>
      obtain ⟨hw', he'⟩ := hb (a.exec step true s).shell
      exact ⟨hw'.trans hw, he'⟩

/-- A variable set to what a script prints or, if it fails, to a word. -/
theorem Looks.harmless_capture (h : Looks step a) : Harmless step (capture x (a.or (echo w))) :=
  fun tested s => by
    let r := a.exec step true { s with out := [] }
    obtain ⟨hw, he⟩ : r.shell.world = s.world ∧ r.exited = false := h _
    have hor : (a.or (echo w)).exec step tested { s with out := [] } =
        if r.ok then ⟨r.shell, true, false⟩
        else ⟨{ r.shell with out := r.shell.out ++ [w] }, true, false⟩ := by
      show r.andThen _ = _
      rw [Ended.andThen, he]
      rfl
    cases hok : r.ok with
    | true =>
        rw [if_pos hok] at hor
        exact ⟨_, by rw [exec_capture, hor, settle_ok, hw]⟩
    | false =>
        rw [if_neg (ne_true_of_eq_false hok)] at hor
        exact ⟨_, by rw [exec_capture, hor, settle_ok, hw]⟩

theorem exec_cmd_quiet (h : Quiet step c) :
    (cmd c).exec step tested s = settle tested (step c s.vars s.world).ok s := by
  obtain ⟨hw, ho⟩ := h s.vars s.world
  rw [exec_cmd, hw, ho, List.append_nil]

theorem silent_cmd (h : Quiet step c) : Silent step (cmd c) := fun s =>
  ⟨_, by rw [exec_cmd_quiet h, settle_true]⟩

theorem Silent.or (ha : Silent step a) (hb : Silent step b) : Silent step (a.or b) := fun s => by
  obtain ⟨ok, h⟩ := ha s
  rw [exec_or, h]
  cases ok with
  | true => exact ⟨true, rfl⟩
  | false => exact hb s

/-- A script whose failure is passed over. -/
theorem Silent.harmless_or (ha : Silent step a) (hb : Harmless step b) : Harmless step (a.or b) :=
  fun tested s => by
    obtain ⟨ok, h⟩ := ha s
    rw [exec_or, h]
    cases ok with
    | true => exact ⟨s.vars, rfl⟩
    | false => exact hb tested s

/-- A branch that only sets variables. -/
theorem Harmless.ifThen (hc : Quiet step c) (hp : Harmless step p) :
    Harmless step (Script.ifThen (cmd c) p) := fun tested s => by
  rw [exec_ifThen, exec_cmd_quiet hc, settle_true, Ended.andThen, if_neg Bool.false_ne_true]
  cases (step c s.vars s.world).ok with
  | true => exact hp tested s
  | false => exact ⟨s.vars, rfl⟩

/-- The variables after a script that only sets variables. -/
noncomputable def Harmless.vars (hp : Harmless step p) (tested : Bool) (s : ShellState σ) :
    String → String :=
  (hp tested s).choose

theorem Harmless.exec (hp : Harmless step p) :
    p.exec step tested s = ⟨{ s with vars := hp.vars tested s }, true, false⟩ :=
  (hp tested s).choose_spec

/-- What comes after a script that only sets variables. -/
theorem Harmless.seq (hp : Harmless step p) : (p.seq q).exec step tested s =
    q.exec step tested { s with vars := hp.vars tested s } := by
  rw [exec_seq, hp.exec]
  rfl

/-! ### Lists of commands -/

theorem exec_seq_of {s' : ShellState σ} {ok : Bool} (h : p.exec step tested s = ⟨s', ok, false⟩) :
    (p.seq q).exec step tested s = q.exec step tested s' := by
  rw [exec_seq, h]
  rfl

theorem exec_and_of {s' : ShellState σ} {ok : Bool} (h : a.exec step true s = ⟨s', ok, false⟩) :
    (a.and b).exec step tested s = if ok then b.exec step tested s' else ⟨s', false, false⟩ := by
  rw [exec_and, h]
  rfl

/-- A command that did its work, and what follows it. -/
theorem exec_cmd_seq (h : (step c s.vars s.world).ok = true) :
    ((cmd c).seq p).exec step tested s = p.exec step tested { s with
      world := (step c s.vars s.world).world
      out := s.out ++ (step c s.vars s.world).out } := by
  rw [exec_seq, exec_cmd, h, settle_ok]
  rfl

/-- The same of a command that does nothing else. -/
theorem Quiet.seq (hc : Quiet step c) (h : (step c s.vars s.world).ok = true) :
    ((cmd c).seq p).exec step tested s = p.exec step tested s := by
  rw [exec_seq, exec_cmd_quiet hc, h, settle_ok]
  rfl

theorem Quiet.seq_stop (hc : Quiet step c) (he : s.errexit = true)
    (h : (step c s.vars s.world).ok = false) :
    ((cmd c).seq p).exec step false s = ⟨s, false, true⟩ := by
  rw [exec_seq, exec_cmd_quiet hc, h, settle, Ended.andThen, he]
  rfl

theorem Quiet.ifElse (hc : Quiet step c) : (Script.ifElse (cmd c) p q).exec step tested s =
    if (step c s.vars s.world).ok then p.exec step tested s else q.exec step tested s := by
  rw [exec_ifElse, exec_cmd_quiet hc, settle_true, Ended.andThen, if_neg Bool.false_ne_true]

theorem Quiet.and (hc : Quiet step c) : ((cmd c).and p).exec step tested s =
    if (step c s.vars s.world).ok then p.exec step tested s else ⟨s, false, false⟩ := by
  rw [exec_and, exec_cmd_quiet hc, settle_true, Ended.andThen, if_neg Bool.false_ne_true]

/-- Without `set -e` what follows a command runs in any case. -/
theorem exec_cmd_seq_plain (he : s.errexit = false) :
    ((cmd c).seq p).exec step tested s = p.exec step tested { s with
      world := (step c s.vars s.world).world
      out := s.out ++ (step c s.vars s.world).out } := by
  rw [exec_seq, exec_cmd, settle, Ended.andThen]
  simp only [he, Bool.and_false, Bool.false_and, Bool.false_eq_true, if_false]

/-- Under `set -e` a command that fails is the last. -/
theorem exec_cmd_seq_stop (he : s.errexit = true) (h : (step c s.vars s.world).ok = false) :
    ((cmd c).seq p).exec step false s = ⟨{ s with
      world := (step c s.vars s.world).world
      out := s.out ++ (step c s.vars s.world).out }, false, true⟩ := by
  rw [exec_seq, exec_cmd, h, settle, Ended.andThen, he]
  rfl

end Script
