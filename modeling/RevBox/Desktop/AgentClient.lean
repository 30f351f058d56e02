import RevBox.Protocol.Envelope
import RevBox.Support.Machine
import Mathlib.Algebra.Group.Nat.Defs
import Mathlib.Logic.Function.Basic

/-!
# Desktop — AgentClient

The request multiplexer of `services/agent_client.rs`: any number of requests share one
transport, a reader hands each response to the request that waits under its `request_id`, and a
`PendingGuard` takes a request out of the map however it ends.

A request is a task; the sender of its oneshot channel stands in `pending`, or in the hands of
whoever has taken it out and is about to send, or has been used or dropped.  Two things are added
for the statements: responses are numbered in the order they are received, and a task that
returns remembers the number of the response that completed it.
-/

namespace RevBox.AgentClient

/-- `AgentClientError`. -/
inductive AgentClientError where
  | transportLost (reason : String)
  | deadlineExceeded
  | cancelled
  | protocol (reason : String)
  | remote (error : AgentError)

/-- What `request_value_cancellable` returns. -/
abbrev Result := Except AgentClientError Value

/-- A response with its number. -/
structure Received where
  number : Nat
  response : ResponseEnvelope

/-- `PendingResult`. -/
abbrev PendingResult := Except AgentClientError Received

/-- The oneshot channel of a request: its sender unused, taken to send `r`, used, or dropped. -/
inductive Channel where
  | idle
  | sending (r : PendingResult)
  | sent (r : PendingResult)
  | closed

/-- Where a request stands.  `dropping` is the time between its last await and the drop of its
guard; no result means that its future was dropped. -/
inductive Phase where
  | allocated
  | registered
  | sending
  | waiting
  | dropping (result : Option Result)
  | returned (result : Option Result) (completedBy : Option Nat)

/-- A call of `request_value_cancellable`. -/
structure Call where
  method : String
  params : Value
  /-- the timeout, in nanoseconds -/
  timeout : Nat
  cancellable : Bool

/-- A request. -/
structure Task where
  request : RequestEnvelope
  cancellable : Bool
  phase : Phase
  channel : Channel

/-- The client, its requests, the responses received and the requests handed to
`transport.send`. -/
structure Client where
  nextRequestId : Nat
  pending : List (String × Nat)
  terminalError : Option AgentClientError
  reader : Bool
  tasks : Nat → Option Task
  received : List ResponseEnvelope
  sends : List (Nat × RequestEnvelope)

/-- A move. -/
inductive Label where
  | begin (i : Nat) (call : Call)
  | register (i : Nat)
  | send (i : Nat)
  | sendOk (i : Nat)
  | sendFailed (i : Nat) (reason : String)
  | receive (response : ResponseEnvelope)
  | receiveFailed (reason : String)
  | deliver (i : Nat)
  | wake (i : Nat)
  | deadline (i : Nat)
  | cancel (i : Nat)
  | abandon (i : Nat)
  | guardDrop (i : Nat)
  | disconnect (reason : String)
  | abortReader

/-- `timeout_ms` of the envelope. -/
def timeoutMs (timeout : Nat) : Nat := min (max (timeout / 1000000) 1) (2 ^ 64 - 1)

/-- What a response's payload is returned as. -/
def resultOf : ResponsePayload → Result
  | .success result => .ok result
  | .failure error => .error (.remote error)

namespace Client

/-- The client with task `i` replaced. -/
def set (s : Client) (i : Nat) (t : Task) : Client :=
  { s with tasks := Function.update s.tasks i (some t) }

/-- The client with task `i` moved to another phase. -/
def setPhase (s : Client) (i : Nat) (phase : Phase) : Client :=
  { s with tasks := Function.update s.tasks i ((s.tasks i).map fun t => { t with phase }) }

/-- `HashMap::remove`. -/
def removePending (s : Client) (id : String) : Client :=
  { s with pending := s.pending.filter fun e => decide (e.1 ≠ id) }

/-- The senders in `senders` are taken to send `r`. -/
def take (s : Client) (senders : List (String × Nat)) (channel : Channel) : Client :=
  { s with tasks := fun i => (s.tasks i).map fun t =>
      if (t.request.requestId, i) ∈ senders then { t with channel } else t }

/-- `fail_all`, up to the sends. -/
def failAll (s : Client) (error : AgentClientError) : Client :=
  { s.take s.pending (.sending (.error error)) with
    terminalError := some error
    pending := [] }

/-- `HashMap::insert`: a sender under the same id is dropped. -/
def insertPending (s : Client) (id : String) (i : Nat) : Client :=
  { s.take (s.pending.filter fun e => decide (e.1 = id)) .closed with
    pending := (id, i) :: s.pending.filter fun e => decide (e.1 ≠ id) }

/-- `AgentClient::new`. -/
def new : Client where
  nextRequestId := 1
  pending := []
  terminalError := none
  reader := true
  tasks := fun _ => none
  received := []
  sends := []

/-- The request of a call. -/
def envelope (s : Client) (call : Call) : RequestEnvelope where
  requestId := s!"desktop-{s.nextRequestId}"
  method := call.method
  params := call.params
  timeoutMs := timeoutMs call.timeout
  protocolVersion := protocolVersion

/-- One move. -/
def step (s : Client) : Label → Option Client
  | .begin i call =>
      match s.tasks i with
      | some _ => none
      | none =>
          if call.timeout = 0 then
            some (s.set i ⟨s.envelope call, call.cancellable,
              .returned (some (.error .deadlineExceeded)) none, .idle⟩)
          else
            some { s.set i ⟨s.envelope call, call.cancellable, .allocated, .idle⟩ with
              nextRequestId := (s.nextRequestId + 1) % 2 ^ 64 }
  | .register i =>
      match s.tasks i with
      | some ⟨q, _, .allocated, _⟩ =>
          match s.terminalError with
          | some error => some (s.setPhase i (.returned (some (.error error)) none))
          | none => some ((s.insertPending q.requestId i).setPhase i .registered)
      | _ => none
  | .send i =>
      match s.tasks i with
      | some ⟨q, _, .registered, _⟩ =>
          some { s.setPhase i .sending with sends := s.sends ++ [(i, q)] }
      | _ => none
  | .sendOk i =>
      match s.tasks i with
      | some ⟨_, _, .sending, _⟩ => some (s.setPhase i .waiting)
      | _ => none
  | .sendFailed i reason =>
      match s.tasks i with
      | some ⟨_, _, .sending, _⟩ =>
          some ((s.failAll (.transportLost reason)).setPhase i
            (.dropping (some (.error (.transportLost reason)))))
      | _ => none
  | .receive response =>
      if s.reader then
        let taken := s.pending.filter fun e => decide (e.1 = response.requestId)
        some { (s.take taken (.sending (.ok ⟨s.received.length, response⟩))).removePending
            response.requestId with
          received := s.received ++ [response] }
      else none
  | .receiveFailed reason =>
      if s.reader then some { s.failAll (.transportLost reason) with reader := false } else none
  | .deliver i =>
      match s.tasks i with
      | some ⟨q, c, ph, .sending r⟩ => some (s.set i ⟨q, c, ph, .sent r⟩)
      | _ => none
  | .wake i =>
      match s.tasks i with
      | some ⟨_, _, .waiting, .sent (.ok r)⟩ =>
          -- the guard is disarmed
          some (s.setPhase i (.returned (some (resultOf r.response.payload)) (some r.number)))
      | some ⟨_, _, .waiting, .sent (.error error)⟩ =>
          some (s.setPhase i (.dropping (some (.error error))))
      | some ⟨_, _, .waiting, .closed⟩ =>
          some (s.setPhase i
            (.dropping (some (.error (.transportLost "response waiter dropped")))))
      | _ => none
  | .deadline i =>
      match s.tasks i with
      | some ⟨_, _, .waiting, _⟩ => some (s.setPhase i (.dropping (some (.error .deadlineExceeded))))
      | _ => none
  | .cancel i =>
      match s.tasks i with
      | some ⟨_, true, .waiting, _⟩ => some (s.setPhase i (.dropping (some (.error .cancelled))))
      | _ => none
  | .abandon i =>
      match s.tasks i with
      | some ⟨_, _, .sending, _⟩ | some ⟨_, _, .waiting, _⟩ => some (s.setPhase i (.dropping none))
      | _ => none
  | .guardDrop i =>
      match s.tasks i with
      | some ⟨q, _, .dropping result, _⟩ =>
          -- a sender still in the map goes with its entry
          let gone := s.pending.filter fun e => decide (e.1 = q.requestId)
          some (((s.take gone .closed).removePending q.requestId).setPhase i
            (.returned result none))
      | _ => none
  | .disconnect reason => some (s.failAll (.transportLost reason))
  | .abortReader => some { s with reader := false }

end Client

/-- The client from its creation. -/
def client : Machine Client Label where
  init s := s = Client.new
  step := Client.step

end RevBox.AgentClient
