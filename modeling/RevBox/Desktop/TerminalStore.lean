import RevBox.Desktop.HostedRecords
import RevBox.Support.Leases
import RevBox.Support.Machine
import RevBox.Support.Trim
import Mathlib.Logic.Function.Basic

/-!
# Desktop — TerminalStore

The terminals of a page, `src/lib/terminalStore.ts` over `src/lib/terminalSession.ts`: a table of
tabs, each with a session that asks the transport for a terminal of the system, and holds its id
until the tab lets go of it or the process has left.  The page is one thread, so that what stands
between two `await`s is one step of the machine; which of the answers that are awaited comes next
is the surroundings' choice.

An entry outlives its place in the table, as the calls that are under way refer to it: `heap` is
what they refer to, and `entries` the table.
-/

namespace RevBox.Terminal

/-- A text of the page, by its characters. -/
abbrev Text := List Char

/-- `TerminalTabStatus`. -/
inductive TerminalTabStatus where
  | running
  | exited
  | stopped
  | starting
  | failed
  deriving DecidableEq

/-- The host of a tab. -/
inductive Kind where
  | «local»
  | device
  | frida
  deriving DecidableEq

/-- The renderer a terminal came up with. -/
inductive Renderer where
  | webgl
  | dom
  deriving DecidableEq

/-- `TerminalTab`. -/
structure TerminalTab where
  id : String
  kind : Kind
  /-- in UTF-16 units, as it is cut to so many of them -/
  title : Option (List Nat)
  index : Nat
  program : Text
  args : List Text
  ptyId : Option String
  status : TerminalTabStatus
  exitCode : Option Int
  exitSignal : Option String
  error : Option Text
  cols : Nat
  rows : Nat
  renderer : Renderer
  deriving DecidableEq

/-- `CreateTabInput`. -/
structure CreateTabInput where
  program : Text
  args : List Text
  cwd : Option Text
  kind : Option Kind

/-- `CreateTabResult`, of what `create` answers. -/
inductive CreateTabResult where
  | ok (id : String)
  | limit (max : Nat)
  | emptyProgram
  | storeDisposed
  deriving DecidableEq

/-- `TerminalSessionState`. -/
structure TerminalSessionState where
  running : Bool
  exitCode : Option Int
  cols : Nat
  rows : Nat
  deriving DecidableEq

/-- `Partial<TerminalSessionState>`. -/
structure Patch where
  running : Option Bool := none
  exitCode : Option (Option Int) := none
  cols : Option Nat := none
  rows : Option Nat := none

/-- What is written on the screen: the bytes of the process, or a line of the tool's own. -/
inductive Written where
  | bytes (b : List UInt8)
  | note (message : Text)
  deriving DecidableEq

/-- `TerminalSession`, with the size of its terminal and what is written on it. -/
structure TerminalSession where
  id : Option String
  lastCols : Nat
  lastRows : Nat
  disposed : Bool
  detachExit : Bool
  machineState : TerminalSessionState
  everStarted : Bool
  hostElement : Option Nat
  signal : Option String
  termCols : Nat
  termRows : Nat
  written : List Written
  deriving DecidableEq

/-- How far `begin`, with the `start` it calls, has come: the answer it waits for, or what it has
come to. -/
inductive Begin where
  | idle
  | opening
  | listening (cols rows : Nat)
  | returned
  | threw (message : Text)
  | finished
  deriving DecidableEq

/-- An `Entry`, with the calls that refer to it: `begun` is how far `begin` is, and the numbers
count the calls of the transport that it waits for, and the `stop`s that are to go on. -/
structure Entry where
  tab : TerminalTab
  session : TerminalSession
  beginning : Bool
  stopRequested : Bool
  args : List Text
  cwd : Option Text
  begun : Begin
  closing : Nat
  stopping : Nat
  resizing : Nat
  writing : Nat
  deriving DecidableEq

/-- What a terminal of the system is used for. -/
inductive Use where
  | write (bytes : Text)
  | resize (cols rows : Nat)
  deriving DecidableEq

/-- A call of `transport.open`, by an entry. -/
structure OpenCall where
  entry : Nat
  program : Text
  args : List Text
  cwd : Option Text
  cols : Nat
  rows : Nat
  deriving DecidableEq

/-- `TerminalSessionStore`, with the entries, what its owner was shown last, what the transport
was asked to open, and what has happened to the terminals it has opened. -/
structure Store where
  entries : List Nat
  heap : Nat → Option Entry
  disposed : Bool
  maxSessions : Nat
  idPrefix : String
  seq : Nat
  shown : List TerminalTab
  opens : List OpenCall
  trace : List (Leases.Event Nat String Use)

/-! ### The table -/

/-- `tabs`. -/
def Store.tabs (s : Store) : List TerminalTab :=
  s.entries.filterMap fun e => (s.heap e).map Entry.tab

/-- `deps.onChange`, as both of the pages hand it over: the tabs are shown. -/
def Store.onChange (s : Store) : Store := { s with shown := s.tabs }

/-- The entry is changed. -/
def Store.modify (s : Store) (e : Nat) (f : Entry → Entry) : Store :=
  { s with heap := Function.update s.heap e ((s.heap e).map f) }

/-- Something has happened to a terminal of the system. -/
def Store.happens (s : Store) (a : Leases.Event Nat String Use) : Store :=
  { s with trace := s.trace ++ [a] }

/-- `entries.find(item => item.tab.id === id)`. -/
def Store.find (s : Store) (id : String) : Option Nat :=
  s.entries.find? fun e => (s.heap e).any fun en => en.tab.id = id

/-- The head of `syncFromSession`: the tab with the id and the size of the session. -/
def Entry.synced (en : Entry) : TerminalTab :=
  { en.tab with
    ptyId := en.session.id
    cols := if en.session.machineState.cols = 0 then en.tab.cols else en.session.machineState.cols
    rows := if en.session.machineState.rows = 0 then en.tab.rows else en.session.machineState.rows }

/-- `syncFromSession`. -/
def syncFromSession (en : Entry) : Entry :=
  let state := en.session.machineState
  let tab := en.synced
  if state.running then { en with tab := { tab with status := .running, exitCode := none } }
  -- no process has been started yet: what has changed is the size
  else if ¬ en.session.everStarted then { en with tab := tab }
  else if tab.status ≠ .running ∧ tab.status ≠ .starting then { en with tab := tab }
  else
    let tab := { tab with exitCode := state.exitCode, exitSignal := en.session.signal }
    if state.exitCode.isSome then { en with tab := { tab with status := .exited } }
    else { en with tab := { tab with status := if en.stopRequested then .stopped else .exited } }

/-- `onSessionState`. -/
def onSessionState (s : Store) (e : Nat) : Store := (s.modify e syncFromSession).onChange

/-- The tab says what went wrong. -/
def Entry.fail (message : Text) (en : Entry) : Entry :=
  { en with tab := { en.tab with error := some message, status := .failed } }

/-- `onSessionError`. -/
def onSessionError (s : Store) (e : Nat) (message : Text) : Store :=
  (s.modify e (Entry.fail message)).onChange

/-! ### A session -/

/-- The patch of `update`, put over the state. -/
def Entry.patch (p : Patch) (en : Entry) : Entry :=
  { en with session := { en.session with
    everStarted := en.session.everStarted || p.running == some true
    machineState := {
      running := p.running.getD en.session.machineState.running
      exitCode := p.exitCode.getD en.session.machineState.exitCode
      cols := p.cols.getD en.session.machineState.cols
      rows := p.rows.getD en.session.machineState.rows } } }

/-- `TerminalSession.update`. -/
def update (s : Store) (e : Nat) (p : Patch) : Store := onSessionState (s.modify e (Entry.patch p)) e

/-- A line of the tool's own is written on the screen. -/
def Entry.note (message : Text) (en : Entry) : Entry :=
  { en with session := { en.session with
    written := en.session.written ++ [.note ("[本工具] ".toList ++ message ++ "\r\n".toList)] } }

/-- `note`. -/
def note (s : Store) (e : Nat) (message : Text) : Store := s.modify e (Entry.note message)

/-- `reportFailure`. -/
def reportFailure (s : Store) (e : Nat) (message : Text) : Store :=
  onSessionError (note s e message) e message

/-- What measuring the container gives. -/
inductive Measured where
  | size (cols rows : Nat)
  | hidden
  | throws (message : Text)

/-- A screen as one use of it finds it: what measuring gives, and what `term.resize` throws. -/
structure Screen where
  measure : Measured
  resize : Option Text

/-- The terminal and the session take the size. -/
def Entry.resized (cols rows : Nat) (en : Entry) : Entry :=
  { en with session := { en.session with
    termCols := cols, termRows := rows, lastCols := cols, lastRows := rows } }

/-- `TerminalSession.fit`: what it answers, or throws. -/
def fit (s : Store) (e : Nat) (x : Screen) : Store × Except Text Bool :=
  match s.heap e with
  | none => (s, .ok false)
  | some en =>
      match x.measure with
      | .hidden => (s, .ok false)
      | .throws m => (s, .error m)
      | .size cols rows =>
          if cols = en.session.lastCols ∧ rows = en.session.lastRows then (s, .ok true)
          else
            match x.resize with
            | some m => (s, .error m)
            | none =>
                let s := update (s.modify e (Entry.resized cols rows)) e
                  { cols := some cols, rows := some rows }
                match en.session.id with
                | none => (s, .ok true)
                | some p =>
                    ((s.happens (.used p (.resize cols rows))).modify e
                      fun en => { en with resizing := en.resizing + 1 }, .ok true)

/-- `fitSafely`. -/
def fitSafely (s : Store) (e : Nat) (x : Screen) : Store :=
  match fit s e x with
  | (s, .ok _) => s
  | (s, .error m) => reportFailure s e ("量终端尺寸时异常：".toList ++ m)

/-- `TerminalSession.mount`: what it throws, if it does. -/
def mountSession (s : Store) (e : Nat) (host : Nat) (opens : Option Text) (x : Screen) :
    Store × Option Text :=
  match s.heap e with
  | none => (s, none)
  | some en =>
      if en.session.disposed ∨ en.session.hostElement = some host then
        match fit s e x with
        | (s, .ok _) => (s, none)
        | (s, .error m) => (s, some m)
      else if en.session.hostElement.isSome then (s, none)
      else
        let s := s.modify e fun en =>
          { en with session := { en.session with hostElement := some host } }
        match opens with
        | some m => (reportFailure s e ("挂载终端失败：".toList ++ m), none)
        | none => (fitSafely s e x, none)

/-- `begin` has come this far. -/
def Store.comesTo (s : Store) (e : Nat) (b : Begin) : Store :=
  s.modify e fun en => { en with begun := b }

/-- `TerminalSession.start`, until it waits. -/
def start (s : Store) (e : Nat) (x : Screen) : Store :=
  match s.heap e with
  | none => s
  | some en =>
      if en.session.id.isSome then s.comesTo e .returned
      else
        let s := note s e "正在交给系统起进程…".toList
        let (s, cols, rows) :=
          match x.measure with
          | .size cols rows => (s, cols, rows)
          | .hidden => (s, en.session.termCols, en.session.termRows)
          | .throws m =>
              (reportFailure s e ("量终端尺寸时异常：".toList ++ m), en.session.termCols,
                en.session.termRows)
        match x.resize with
        | some m => (reportFailure s e ("起会话失败：".toList ++ m)).comesTo e .returned
        | none =>
            let s := s.modify e fun en =>
              { en with session := { en.session with termCols := cols, termRows := rows } }
            let call : OpenCall := ⟨e, en.tab.program, en.args, en.cwd, cols, rows⟩
            Store.comesTo { s with opens := s.opens ++ [call] } e .opening

/-- `begin`, until it waits. -/
def begin (s : Store) (e : Nat) (x y : Screen) : Store :=
  match s.heap e with
  | none => s
  | some en =>
      if en.beginning ∨ en.tab.status ≠ .starting then s
      else
        let s := s.modify e fun en => { en with beginning := true }
        match fit s e x with
        | (s, .error m) => s.comesTo e (.threw m)
        | (s, .ok _) => start s e y

/-- What a session is, of which nothing more is to come. -/
def Entry.dispose (en : Entry) : Entry :=
  { en with session := { en.session with disposed := true, hostElement := none, id := none } }

/-- `TerminalSession.dispose`. -/
def dispose (s : Store) (e : Nat) : Store :=
  match s.heap e with
  | none => s
  | some en =>
      if en.session.disposed then s
      else
        match en.session.id with
        | none => s.modify e Entry.dispose
        | some p => (s.modify e Entry.dispose).happens (.closed p)

/-! ### What the page asks for -/

/-- An `Entry` as `create` makes it, over a terminal as `createTerminal` makes it. -/
def newEntry (s : Store) (input : CreateTabInput) (renderer : Renderer) (program : Text) : Entry where
  tab := {
    id := s.idPrefix ++ "-" ++ Nat.repr (s.seq + 1)
    kind := input.kind.getD .local
    title := none
    index := s.seq + 1
    program := program
    args := input.args
    ptyId := none
    status := .starting
    exitCode := none
    exitSignal := none
    error := none
    cols := max 20 80
    rows := max 4 24
    renderer := renderer }
  session := {
    id := none
    lastCols := 0
    lastRows := 0
    disposed := false
    detachExit := false
    machineState := ⟨false, none, 0, 0⟩
    everStarted := false
    hostElement := none
    signal := none
    termCols := max 20 80
    termRows := max 4 24
    written := [] }
  beginning := false
  stopRequested := false
  args := input.args
  cwd := input.cwd
  begun := .idle
  closing := 0
  stopping := 0
  resizing := 0
  writing := 0

/-- `create`. -/
def create (s : Store) (input : CreateTabInput) (renderer : Renderer) : Store × CreateTabResult :=
  if s.disposed then (s, .storeDisposed)
  else if s.maxSessions ≤ s.entries.length then (s, .limit s.maxSessions)
  else
    let program := Text.jsTrim input.program
    if program = [] then (s, .emptyProgram)
    else
      let en := newEntry s input renderer program
      ({ s with
          seq := s.seq + 1
          heap := Function.update s.heap (s.seq + 1) (some en)
          entries := s.entries ++ [s.seq + 1] }.onChange, .ok en.tab.id)

/-- `mount`: `x` is the screen as `session.mount` finds it, `y` and `z` as `begin` and `start`
do. -/
def mount (s : Store) (id : String) (host : Option Nat) (opens : Option Text) (x y z : Screen) :
    Store :=
  match s.find id, host with
  | some e, some h =>
      let s :=
        match mountSession s e h opens x with
        | (s, none) => s
        | (s, some m) => onSessionError s e ("挂载终端时异常：".toList ++ m)
      if (s.heap e).any fun en => en.tab.status = .starting then begin s e y z else s
  | _, _ => s

/-- `fit` of the table: nothing that it throws is kept. -/
def fitTab (s : Store) (id : String) (x : Screen) : Store :=
  match s.find id with
  | none => s
  | some e => if (s.heap e).any fun en => en.session.hostElement.isSome then (fit s e x).1 else s

/-- `rename`. -/
def rename (s : Store) (id : String) (title : Text) : Store :=
  match s.find id with
  | none => s
  | some e =>
      let trimmed := Text.jsTrim title
      if trimmed = [] then s
      else
        (s.modify e fun en =>
          { en with tab := { en.tab with
            title := some ((HostedRecords.utf16 trimmed).take 40) } }).onChange

/-- `close`. -/
def close (s : Store) (id : String) (force : Bool) : Store :=
  match s.find id with
  | none => s
  | some e =>
      if ((s.heap e).any fun en => en.tab.status = .running ∨ en.tab.status = .starting) ∧ ¬ force
      then s
      else (dispose { s with entries := s.entries.erase e } e).onChange

/-- `stop`, until it waits. -/
def stop (s : Store) (id : String) : Store :=
  match s.find id with
  | none => s
  | some e =>
      match s.heap e with
      | none => s
      | some en =>
          match en.session.id with
          | none => s.modify e fun en => { en with stopRequested := true, stopping := en.stopping + 1 }
          | some p =>
              (s.modify e fun en => { en with
                stopRequested := true
                closing := en.closing + 1
                session := { en.session with id := none } }).happens (.closed p)

/-- `disposeAll`. -/
def disposeAll (s : Store) : Store :=
  if s.disposed then s
  else (s.entries.foldl dispose { s with disposed := true, entries := [] }).onChange

/-- `writeText`, of a key or of what is pasted, until it waits. -/
def writeText (s : Store) (e : Nat) (data : Text) : Store :=
  match (s.heap e).bind fun en => en.session.id with
  | none => s
  | some p =>
      (s.happens (.used p (.write data))).modify e fun en => { en with writing := en.writing + 1 }

/-! ### What the surroundings answer -/

/-- `start` goes on: `transport.open` has answered with an id and a size, or thrown. -/
def opened (s : Store) (e : Nat) : Except Text (String × Nat × Nat) → Store
  | .error m => (reportFailure s e ("起会话失败：".toList ++ m)).comesTo e .returned
  | .ok (p, cols, rows) =>
      (s.happens (.taken e p)).modify e fun en =>
        { en with
          begun := .listening cols rows
          session := { en.session with id := some p, lastCols := cols, lastRows := rows } }

/-- `start` goes on: `transport.onExit` has answered, or thrown. -/
def subscribed (s : Store) (e cols rows : Nat) : Except Text Unit → Store
  | .error m => (reportFailure s e ("起会话失败：".toList ++ m)).comesTo e .returned
  | .ok () =>
      update
        (s.modify e fun en =>
          { en with begun := .returned, session := { en.session with detachExit := true } }) e
        { running := some true, exitCode := some none, cols := some cols, rows := some rows }

/-- `begin` goes on after `start`. -/
def begun (s : Store) (e : Nat) : Store :=
  let s := s.comesTo e .finished
  if e ∉ s.entries then s else (s.modify e syncFromSession).onChange

/-- What `mount` does with what `begin` throws. -/
def caught (s : Store) (e : Nat) (m : Text) : Store :=
  onSessionError (s.comesTo e .finished) e ("起会话时异常：".toList ++ m)

/-- The handler of the exits, of the exit of `p`. -/
def exited (s : Store) (e : Nat) (p : String) (code : Option Int) : Store :=
  if (s.heap e).any fun en => en.session.id = some p then
    update
      ((s.modify e fun en => { en with session := { en.session with id := none } }).happens
        (.gone p)) e
      { running := some false, exitCode := some code }
  else s

/-- `TerminalSession.stop` goes on: `transport.close` has answered, or thrown. -/
def closed (s : Store) (e : Nat) (answer : Except Text Unit) : Store :=
  let s := s.modify e fun en =>
    { en with closing := en.closing - 1, stopping := en.stopping + 1 }
  let s := match answer with
    | .ok () => s
    | .error m => onSessionError s e m
  update s e { running := some false, exitCode := some none }

/-- `stop` of the table goes on. -/
def stopped (s : Store) (e : Nat) : Store :=
  ((s.modify e fun en => { en with stopping := en.stopping - 1 }).modify e
    syncFromSession).onChange

/-- A `transport.resize` has answered. -/
def sized (s : Store) (e : Nat) (answer : Except Text Unit) : Store :=
  let s := s.modify e fun en => { en with resizing := en.resizing - 1 }
  match answer with
  | .ok () => s
  | .error m => onSessionError s e m

/-- A `transport.write` has answered. -/
def wrote (s : Store) (e : Nat) (answer : Except Text Unit) : Store :=
  let s := s.modify e fun en => { en with writing := en.writing - 1 }
  match answer with
  | .ok () => s
  | .error m => reportFailure s e ("写入失败：".toList ++ m)

/-- `feed`. -/
def feed (s : Store) (e : Nat) (bytes : List UInt8) : Store :=
  s.modify e fun en =>
    { en with session := { en.session with written := en.session.written ++ [.bytes bytes] } }

/-! ### The machine -/

/-- What the page does, and what answers the calls it waits for; an entry is named by its number
in the answers, as the call that waits refers to the entry itself. -/
inductive Label where
  | create (input : CreateTabInput) (renderer : Renderer)
  | mount (id : String) (host : Option Nat) (opens : Option Text) (x y z : Screen)
  | fit (id : String) (x : Screen)
  | rename (id : String) (title : Text)
  | close (id : String) (force : Bool)
  | stop (id : String)
  | disposeAll
  | key (e : Nat) (data : Text)
  | opened (e : Nat) (answer : Except Text (String × Nat × Nat))
  | subscribed (e : Nat) (answer : Except Text Unit)
  | begun (e : Nat)
  | exited (e : Nat) (p : String) (code : Option Int)
  | closed (e : Nat) (answer : Except Text Unit)
  | stopped (e : Nat)
  | sized (e : Nat) (answer : Except Text Unit)
  | wrote (e : Nat) (answer : Except Text Unit)
  | feed (e : Nat) (bytes : List UInt8)

/-- The handler of the exits is there, or on its way there. -/
def Entry.Heeds (en : Entry) : Bool :=
  en.session.detachExit || match en.begun with | .listening _ _ => true | _ => false

/-- What `transport.open` answers is new: `PtyService` does not give an id out twice. -/
def New (trace : List (Leases.Event Nat String Use)) : Except Text (String × Nat × Nat) → Bool
  | .ok (p, _, _) => trace.all fun a => a.handle ≠ p
  | .error _ => true

/-- An answer to an entry's call, which waits for it. -/
def answer (s : Store) (e : Nat) : Entry → Label → Option Store
  | en, .key _ data => if en.session.disposed then none else some (writeText s e data)
  | en, .opened _ r =>
      if en.begun = .opening ∧ New s.trace r then some (opened s e r) else none
  | en, .subscribed _ r =>
      match en.begun with
      | .listening cols rows => some (subscribed s e cols rows r)
      | _ => none
  | en, .begun _ =>
      match en.begun with
      | .returned => some (begun s e)
      | .threw m => some (caught s e m)
      | _ => none
  | en, .exited _ p code => if en.Heeds then some (exited s e p code) else none
  | en, .closed _ r => if 0 < en.closing then some (closed s e r) else none
  | en, .stopped _ => if 0 < en.stopping then some (stopped s e) else none
  | en, .sized _ r => if 0 < en.resizing then some (sized s e r) else none
  | en, .wrote _ r => if 0 < en.writing then some (wrote s e r) else none
  | en, .feed _ bytes => if en.begun = .idle then none else some (feed s e bytes)
  | _, _ => none

/-- The entry that an answer is for. -/
def Label.entry : Label → Nat
  | .key e _ | .opened e _ | .subscribed e _ | .begun e | .exited e _ _ | .closed e _
  | .stopped e | .sized e _ | .wrote e _ | .feed e _ => e
  | _ => 0

/-- One step of the page. -/
def step (s : Store) : Label → Option Store
  | .create input renderer => some (create s input renderer).1
  | .mount id host opens x y z => some (mount s id host opens x y z)
  | .fit id x => some (fitTab s id x)
  | .rename id title => some (rename s id title)
  | .close id force => some (close s id force)
  | .stop id => some (stop s id)
  | .disposeAll => some (disposeAll s)
  | l => (s.heap l.entry).bind fun en => answer s l.entry en l

/-- A table of which nothing has been asked. -/
def fresh (maxSessions : Nat) (idPrefix : String) : Store where
  entries := []
  heap := fun _ => none
  disposed := false
  maxSessions := maxSessions
  idPrefix := idPrefix
  seq := 0
  shown := []
  opens := []
  trace := []

/-- The terminals of a page. -/
def page : Machine Store Label where
  init s := ∃ maxSessions idPrefix, s = fresh maxSessions idPrefix
  step := step

end RevBox.Terminal
