import RevBox.Agent.Router
import RevBox.Protocol.Frame
import RevBox.Support.Machine

/-!
# Agent — Server

`server.rs`: one connection from its first frame to its end, the handlers it spawns, and the
presence counter its connections share.

A connection is a machine of its own, whose moves are what its task and its handlers do between
two awaits; `agent` is any number of connections over one counter.  Each connection records the
frames it has read, the requests it has passed to `Router::dispatch` and the responses it has
written, each with the handler it comes from; the task itself, which answers the first frame, is
`none`.
-/

namespace RevBox.Server

open Routing

/-! ### `execute_request` -/

/-- How `tokio::time::timeout` around the dispatch ends. -/
inductive Outcome where
  | completed (result : Except AgentError Value)
  | expired

/-- The checks of `execute_request`. -/
def refusal (request : RequestEnvelope) : Option AgentError :=
  if request.protocolVersion ≠ protocolVersion then
    some (.new .incompatibleVersion
      (s!"request protocol version {request.protocolVersion} " ++
        s!"is incompatible with agent version {protocolVersion}"))
  else if request.timeoutMs = 0 then
    some (.new .invalidRequest "timeout_ms must be greater than zero")
  else none

/-- The response to a request that was dispatched. -/
def respond (request : RequestEnvelope) : Outcome → ResponseEnvelope
  | .completed (.ok result) => .success request.requestId result
  | .completed (.error error) => .failure request.requestId error
  | .expired =>
      .failure request.requestId (.new .deadlineExceeded "request deadline exceeded")

/-- `execute_request` of a request that passes its checks, up to the first await of the provider;
`timeout` polls the provider before it looks at the clock. -/
def executeRequest (router : Router) (world : World) (request : RequestEnvelope) :
    Option ResponseEnvelope :=
  (router.dispatch world request.method request.params).map fun result =>
    respond request (.completed result)

/-- The response to a first frame that is not `system.hello`. -/
def notHello (request : RequestEnvelope) : ResponseEnvelope :=
  .failure request.requestId (.new .permissionDenied "system.hello must be the first request")

/-- The response to a later `system.hello`. -/
def helloAgain (request : RequestEnvelope) : ResponseEnvelope :=
  .failure request.requestId
    (.new .invalidRequest "system.hello is only allowed as the first request")

/-- `ResponsePayload::Success`. -/
def isSuccess (response : ResponseEnvelope) : Bool :=
  match response.payload with
  | .success _ => true
  | .failure _ => false

/-! ### One connection -/

/-- What `read_message` comes back with: end of file stands for `UnexpectedEof`, inside a frame or
between two, and a failure for any other error, an oversized or malformed frame among them. -/
inductive Read where
  | request (request : RequestEnvelope)
  | eof
  | failed

/-- Where a handler stands. -/
inductive HandlerPhase where
  | spawned
  | awaiting
  | writing (response : ResponseEnvelope)
  | finished (response : ResponseEnvelope) (sent : Bool)
  | aborted

/-- A spawned handler. -/
structure Handler where
  request : RequestEnvelope
  phase : HandlerPhase

/-- Where the connection's task stands; `answering` is the answer to the first frame. -/
inductive Phase where
  | opened
  | answering (response : ResponseEnvelope) (authenticated : Bool)
  | serving
  | closing
  | ended

/-- A connection; `attendance` is the guard it holds. -/
structure Conn where
  phase : Phase
  received : List RequestEnvelope
  handlers : List Handler
  attendance : Bool
  dispatched : List (Option Nat × RequestEnvelope)
  sent : List (Option Nat × ResponseEnvelope)

/-- A move of the connection's task or of one of its handlers.  `world` is what the providers
report when the move dispatches a request, `written` whether the socket takes the frame. -/
inductive Move where
  | first (read : Read) (world : World)
  | answer (written : Bool)
  | next (read : Read)
  | start (h : Nat) (world : World)
  | finish (h : Nat) (result : Except AgentError Value)
  | expire (h : Nat)
  | write (h : Nat) (written : Bool)
  | abort (h : Nat)
  | leave
  | drop

/-- What a move does to the presence counter. -/
inductive Effect where
  | keep
  | attend
  | release

/-- A handler that has not come to its end. -/
def HandlerPhase.live : HandlerPhase → Bool
  | spawned | awaiting | writing _ => true
  | finished .. | aborted => false

/-- Where a handler stands after its first poll of a dispatch. -/
def HandlerPhase.polled : Option ResponseEnvelope → HandlerPhase
  | some response => writing response
  | none => awaiting

/-- The connection's task has returned. -/
def Phase.isEnded : Phase → Bool
  | ended => true
  | _ => false

namespace Conn

/-- A connection just accepted. -/
def new : Conn := ⟨.opened, [], [], false, [], []⟩

/-- The connection with handler `h` in another phase. -/
def setHandler (c : Conn) (h : Nat) (request : RequestEnvelope) (phase : HandlerPhase) : Conn :=
  { c with handlers := c.handlers.set h ⟨request, phase⟩ }

/-- A request goes to `Router::dispatch`. -/
def dispatch (c : Conn) (origin : Option Nat) (request : RequestEnvelope) : Conn :=
  { c with dispatched := c.dispatched ++ [(origin, request)] }

/-- The connection's task is over: the guard goes with it. -/
def finish (c : Conn) : Conn × Effect :=
  ({ c with phase := .ended, attendance := false }, if c.attendance then .release else .keep)

/-- `write_response`: a response that cannot be encoded is not written. -/
def writeResponse (c : Conn) (origin : Option Nat) (response : ResponseEnvelope)
    (written : Bool) : Conn × Bool :=
  match Frame.encodeJson response with
  | .error _ => (c, false)
  | .ok _ => if written then ({ c with sent := c.sent ++ [(origin, response)] }, true) else (c, false)

/-- One move. -/
def step (router : Router) (c : Conn) : Move → Option (Conn × Effect)
  | .first read world =>
      match c.phase with
      | .opened =>
          match read with
          | .request request =>
              let c := { c with received := c.received ++ [request] }
              if request.method ≠ systemHello then
                some ({ c with phase := .answering (notHello request) false }, .keep)
              else match refusal request with
                | some error =>
                    some ({ c with phase := .answering (.failure request.requestId error) false },
                      .keep)
                | none =>
                    -- the system provider never awaits
                    (executeRequest router world request).map fun response =>
                      ({ c.dispatch none request with
                        phase := .answering response (isSuccess response) }, .keep)
          | .eof | .failed => some c.finish
      | _ => none
  | .answer written =>
      match c.phase with
      | .answering response authenticated =>
          let (c, sent) := c.writeResponse none response written
          if sent && authenticated then
            some ({ c with phase := .serving, attendance := true }, .attend)
          else some c.finish
      | _ => none
  | .next read =>
      match c.phase with
      | .serving =>
          match read with
          | .request request =>
              some ({ c with
                received := c.received ++ [request]
                handlers := c.handlers ++ [⟨request, .spawned⟩] }, .keep)
          | .eof | .failed => some ({ c with phase := .closing }, .keep)
      | _ => none
  | .start h world =>
      match c.handlers[h]? with
      | some ⟨request, .spawned⟩ =>
          if request.method = systemHello then
            some (c.setHandler h request (.writing (helloAgain request)), .keep)
          else match refusal request with
            | some error =>
                some (c.setHandler h request (.writing (.failure request.requestId error)), .keep)
            | none =>
                some ((c.dispatch (some h) request).setHandler h request
                  (.polled (executeRequest router world request)), .keep)
      | _ => none
  | .finish h result =>
      match c.handlers[h]? with
      | some ⟨request, .awaiting⟩ =>
          some (c.setHandler h request (.writing (respond request (.completed result))), .keep)
      | _ => none
  | .expire h =>
      match c.handlers[h]? with
      | some ⟨request, .awaiting⟩ =>
          some (c.setHandler h request (.writing (respond request .expired)), .keep)
      | _ => none
  | .write h written =>
      match c.handlers[h]? with
      | some ⟨request, .writing response⟩ =>
          -- the handler's `io::Result` is dropped by `try_join_next`
          let (c, sent) := c.writeResponse (some h) response written
          some (c.setHandler h request (.finished response sent), .keep)
      | _ => none
  | .abort h =>
      match c.phase, c.handlers[h]? with
      | .closing, some ⟨request, phase⟩ | .ended, some ⟨request, phase⟩ =>
          if phase.live then some (c.setHandler h request .aborted, .keep) else none
      | _, _ => none
  | .leave =>
      match c.phase with
      | .closing =>
          -- `join_next` until the set is empty
          if c.handlers.all fun handler => !handler.phase.live then some c.finish else none
      | _ => none
  | .drop => if c.phase.isEnded then none else some c.finish

-- its equations are generated here, once for all the proofs about a move
attribute [grind =] step

/-- The hello of the connection was answered with success. -/
def passed (c : Conn) : Bool := c.sent.any fun e => e.1.isNone && isSuccess e.2

end Conn

/-! ### The Agent -/

/-- The connections of the Agent and `ClientPresence::live`. -/
structure Agent where
  conns : List Conn
  live : Nat

/-- `ClientPresence::attend`, and the drop of an `Attendance`. -/
def Effect.apply (live : Nat) : Effect → Nat
  | keep => live
  | attend => live + 1
  | release => live - 1

/-- A connection is accepted, or one of them moves. -/
inductive Label where
  | accept
  | move (c : Nat) (m : Move)

/-- One step of the Agent. -/
def Agent.step (router : Router) (s : Agent) : Label → Option Agent
  | .accept => some { s with conns := s.conns ++ [.new] }
  | .move c m =>
      match s.conns[c]? with
      | none => none
      | some conn => (conn.step router m).map fun (conn', effect) =>
          ⟨s.conns.set c conn', effect.apply s.live⟩

/-- One connection by itself. -/
def connection (router : Router) : Machine Conn Move where
  init c := c = .new
  step c m := (c.step router m).map Prod.fst

/-- The Agent, from its start. -/
def agent (router : Router) : Machine Agent Label where
  init s := s = ⟨[], 0⟩
  step := Agent.step router

end RevBox.Server
