import RevBox.Agent.Server

/-!
# Agent — Server runs

What holds of the connections of an Agent in every state it reaches.

* `admitted_of_serving`: a connection that serves requests was opened by the right hello.
* `live_eq`: the presence counter is the number of connections that passed hello and have not
  ended.

`gate_and_attendance` puts the two together with what was dispatched.
-/

namespace RevBox.Server

open Routing

variable {router : Router} {p : SystemProvider} {m : Move}

/-! ### What a move can do -/

/-- The handler that moves, if one does. -/
def Move.handler : Move → Option Nat
  | start h _ | finish h _ | expire h | write h _ | abort h => some h
  | first .. | answer _ | next _ | leave | drop => none

/-- The socket takes what the move writes. -/
def Move.written : Move → Bool
  | write _ written => written
  | _ => true

/-- What a handler can do, and the responses it writes on the way. -/
inductive Advance (written : Bool) (request : RequestEnvelope) :
    HandlerPhase → HandlerPhase → List ResponseEnvelope → Prop where
  | again (h : request.method = systemHello) :
      Advance written request .spawned (.writing (helloAgain request)) []
  | refuse {error : AgentError} (h : refusal request = some error) :
      Advance written request .spawned (.writing (.failure request.requestId error)) []
  | answer (hm : request.method ≠ systemHello) (hr : refusal request = none) (outcome : Outcome) :
      Advance written request .spawned (.writing (respond request outcome)) []
  | await (hm : request.method ≠ systemHello) (hr : refusal request = none) :
      Advance written request .spawned .awaiting []
  | settle (outcome : Outcome) :
      Advance written request .awaiting (.writing (respond request outcome)) []
  | write {response : ResponseEnvelope} (h : Frame.Fits response) :
      Advance written request (.writing response) (.finished response true) [response]
  | lose {response : ResponseEnvelope} (h : Frame.Fits response → written = false) :
      Advance written request (.writing response) (.finished response false) []
  | abort {phase : HandlerPhase} (h : phase.live) :
      Advance written request phase .aborted []

/-- What a move does to a connection. -/
inductive Conn.Goes (router : Router) (m : Move) (c : Conn) : Conn → Effect → Prop where
  | greet {request : RequestEnvelope} {response : ResponseEnvelope} {authenticated : Bool}
      {log : List (Option Nat × RequestEnvelope)} (hm : m.handler = none) (h : c.phase = .opened)
      (hid : response.requestId = request.requestId)
      (hlog : log = [] ∨ log = [(none, request)] ∧ request.method = systemHello)
      (hauth : authenticated = true → isSuccess response = true ∧
        request.method = systemHello ∧ refusal request = none ∧
        ∃ world, executeRequest router world request = some response)
      (hfail : authenticated = false → isSuccess response = false) :
      Goes router m c { c with
        phase := .answering response authenticated
        received := c.received ++ [request]
        dispatched := c.dispatched ++ log } .keep
  | serve {response : ResponseEnvelope} (hm : m.handler = none)
      (h : c.phase = .answering response true) (hf : Frame.Fits response) :
      Goes router m c { c with
        phase := .serving
        attendance := true
        sent := c.sent ++ [(none, response)] } .attend
  | turnAway {response : ResponseEnvelope} (hm : m.handler = none)
      (h : c.phase = .answering response false) (hf : Frame.Fits response) :
      Goes router m c (Conn.finish { c with sent := c.sent ++ [(none, response)] }).1
        (Conn.finish { c with sent := c.sent ++ [(none, response)] }).2
  | finish (hm : m.handler = none) (h : c.phase.isEnded = false) :
      Goes router m c c.finish.1 c.finish.2
  | receive (request : RequestEnvelope) (hm : m.handler = none) (h : c.phase = .serving) :
      Goes router m c { c with
        received := c.received ++ [request]
        handlers := c.handlers ++ [⟨request, .spawned⟩] } .keep
  | close (hm : m.handler = none) (h : c.phase = .serving) :
      Goes router m c { c with phase := .closing } .keep
  | handle {h : Nat} {request : RequestEnvelope} {phase phase' : HandlerPhase}
      {log : List (Option Nat × RequestEnvelope)} {sent : List ResponseEnvelope}
      (hm : m.handler = some h) (hh : c.handlers[h]? = some ⟨request, phase⟩)
      (ha : Advance m.written request phase phase' sent)
      (hlog : log = [] ∨ log = [(some h, request)] ∧ request.method ≠ systemHello)
      (hab : phase' = .aborted → c.phase = .closing ∨ c.phase = .ended) :
      Goes router m c { c with
        handlers := c.handlers.set h ⟨request, phase'⟩
        dispatched := c.dispatched ++ log
        sent := c.sent ++ sent.map fun response => (some h, response) } .keep

theorem writeResponse_eq (c : Conn) (origin : Option Nat) (response : ResponseEnvelope)
    (written : Bool) :
    c.writeResponse origin response written =
      if Frame.Fits response ∧ written = true then
        ({ c with sent := c.sent ++ [(origin, response)] }, true)
      else (c, false) := by
  unfold Conn.writeResponse
  rw [Frame.encodeJson_eq]
  by_cases hf : Frame.Fits response
  · cases written <;> simp [hf]
  · simp [hf]

@[simp] theorem respond_requestId (request : RequestEnvelope) (outcome : Outcome) :
    (respond request outcome).requestId = request.requestId := by
  rcases outcome with (_ | _) | _ <;> rfl

/-- What `execute_request` returns at once answers the request. -/
theorem respond_of_executeRequest {world : World} {request : RequestEnvelope}
    {response : ResponseEnvelope} (h : executeRequest router world request = some response) :
    ∃ result, response = respond request (.completed result) := by
  obtain ⟨result, -, hr⟩ := Option.map_eq_some_iff.mp h
  exact ⟨result, hr.symm⟩

theorem goes_finish {c c' : Conn} {effect : Effect} (hm : m.handler = none)
    (h : c.phase.isEnded = false) (hc : c.finish = (c', effect)) : c.Goes router m c' effect := by
  have : c.Goes router m _ _ := .finish hm h
  rwa [hc] at this

/-- The handler moves without a dispatch. -/
theorem goes_handler {c : Conn} {h : Nat} {request : RequestEnvelope} {phase phase' : HandlerPhase}
    (hm : m.handler = some h) (hh : c.handlers[h]? = some ⟨request, phase⟩)
    (ha : Advance m.written request phase phase' [])
    (hab : phase' = .aborted → c.phase = .closing ∨ c.phase = .ended) :
    c.Goes router m (c.setHandler h request phase') .keep := by
  have : c.Goes router m _ _ := .handle hm hh ha (.inl rfl) hab
  simpa [Conn.setHandler] using this

/-- The first frame is refused before any dispatch. -/
theorem goes_refused {c : Conn} {request : RequestEnvelope} {response : ResponseEnvelope}
    (hm : m.handler = none) (hp : c.phase = .opened)
    (hid : response.requestId = request.requestId) (hs : isSuccess response = false) :
    c.Goes router m { c with
      phase := .answering response false
      received := c.received ++ [request] } .keep := by
  have : c.Goes router m { c with
      phase := .answering response false
      received := c.received ++ [request]
      dispatched := c.dispatched ++ [] } .keep :=
    .greet hm hp hid (.inl rfl) (fun h => by cases h) fun _ => hs
  simpa using this

/-- The first frame is read. -/
theorem step_first {c c' : Conn} {read : Read} {world : World} {effect : Effect}
    (h : c.step router (.first read world) = some (c', effect)) :
    c.Goes router (.first read world) c' effect := by
  cases hp : c.phase with
  | opened =>
      simp only [Conn.step, hp] at h
      cases read with
      | request request =>
          simp only at h
          split at h
          · cases h
            exact goes_refused rfl hp rfl rfl
          · next hm =>
              cases hr : refusal request with
              | some error =>
                  simp only [hr, Option.some.injEq, Prod.mk.injEq] at h
                  obtain ⟨rfl, rfl⟩ := h
                  exact goes_refused rfl hp rfl rfl
              | none =>
                  simp only [hr] at h
                  obtain ⟨response, he, hc⟩ := Option.map_eq_some_iff.mp h
                  cases hc
                  obtain ⟨result, rfl⟩ := respond_of_executeRequest he
                  exact .greet rfl hp (respond_requestId _ _)
                    (.inr ⟨rfl, not_not.mp hm⟩)
                    (fun ha => ⟨ha, not_not.mp hm, hr, world, he⟩) id
      | eof | failed =>
          simp only [Option.some.injEq] at h
          exact goes_finish rfl (by rw [hp]; rfl) h
  | answering | serving | closing | ended => simp [Conn.step, hp] at h

/-- The answer to the first frame is written, or not. -/
theorem step_answer {c c' : Conn} {written : Bool} {effect : Effect}
    (h : c.step router (.answer written) = some (c', effect)) :
    c.Goes router (.answer written) c' effect := by
  cases hp : c.phase with
  | answering response authenticated =>
      simp only [Conn.step, hp, writeResponse_eq] at h
      split_ifs at h with hw ha ha
      · cases h
        obtain rfl : authenticated = true := by simpa using ha
        exact .serve rfl hp hw.1
      · obtain rfl : authenticated = false := by simpa using ha
        have : c.Goes router (.answer written) _ _ := .turnAway rfl hp hw.1
        simp only [hp] at this
        rwa [Option.some.inj h] at this
      · simp at ha
      · exact goes_finish rfl (by rw [hp]; rfl) (Option.some.inj h)
  | opened | serving | closing | ended => simp [Conn.step, hp] at h

/-- The task reads on. -/
theorem step_next {c c' : Conn} {read : Read} {effect : Effect}
    (h : c.step router (.next read) = some (c', effect)) :
    c.Goes router (.next read) c' effect := by
  cases hp : c.phase with
  | serving =>
      cases read with
      | request request =>
          simp only [Conn.step, hp, Option.some.injEq, Prod.mk.injEq] at h
          obtain ⟨rfl, rfl⟩ := h
          have : c.Goes router (.next (.request request)) _ _ := .receive request rfl hp
          rwa [hp] at this
      | eof | failed =>
          simp only [Conn.step, hp, Option.some.injEq, Prod.mk.injEq] at h
          obtain ⟨rfl, rfl⟩ := h
          exact .close rfl hp
  | opened | answering | closing | ended => simp [Conn.step, hp] at h

/-- A handler is polled for the first time. -/
theorem step_start {c c' : Conn} {n : Nat} {world : World} {effect : Effect}
    (h : c.step router (.start n world) = some (c', effect)) :
    c.Goes router (.start n world) c' effect := by
  simp only [Conn.step] at h
  split at h
  · next request hh =>
      split at h
      · next hm =>
          cases h
          exact goes_handler rfl hh (.again hm) nofun
      · next hm =>
          cases hr : refusal request with
          | some error =>
              simp only [hr, Option.some.injEq, Prod.mk.injEq] at h
              obtain ⟨rfl, rfl⟩ := h
              exact goes_handler rfl hh (.refuse hr) nofun
          | none =>
              simp only [hr, Option.some.injEq, Prod.mk.injEq] at h
              obtain ⟨rfl, rfl⟩ := h
              have ha : Advance true request .spawned
                  (.polled (executeRequest router world request)) [] := by
                cases he : executeRequest router world request with
                | none => exact .await hm hr
                | some response =>
                    obtain ⟨result, rfl⟩ := respond_of_executeRequest he
                    exact .answer hm hr _
              have : c.Goes router (.start n world) _ _ := .handle rfl hh ha (.inr ⟨rfl, hm⟩)
                fun h => by cases he : executeRequest router world request <;> rw [he] at h <;> cases h
              simpa [Conn.setHandler, Conn.dispatch] using this
  · cases h

/-- A handler writes its response, or not. -/
theorem step_write {c c' : Conn} {n : Nat} {written : Bool} {effect : Effect}
    (h : c.step router (.write n written) = some (c', effect)) :
    c.Goes router (.write n written) c' effect := by
  simp only [Conn.step, writeResponse_eq] at h
  split at h
  · next request response hh =>
      split_ifs at h with hw
      · cases h
        have : c.Goes router (.write n written) _ _ := .handle rfl hh (.write hw.1) (.inl rfl) nofun
        simpa [Conn.setHandler] using this
      · cases h
        exact goes_handler rfl hh (.lose fun hf => by simpa [hf, Move.written] using hw) nofun
  · cases h

/-- **Every move does one of these things.** -/
theorem step_goes {c c' : Conn} {effect : Effect} (h : c.step router m = some (c', effect)) : c.Goes router m c' effect := by
  cases m with
  | first read world => exact step_first h
  | answer written => exact step_answer h
  | next read => exact step_next h
  | start n world => exact step_start h
  | finish n result =>
      simp only [Conn.step] at h
      split at h
      · next hh =>
          cases h
          exact goes_handler rfl hh (.settle _) nofun
      · cases h
  | expire n =>
      simp only [Conn.step] at h
      split at h
      · next hh =>
          cases h
          exact goes_handler rfl hh (.settle _) nofun
      · cases h
  | write n written => exact step_write h
  | abort n =>
      simp only [Conn.step] at h
      split at h
      · next hp hh =>
          split_ifs at h with hl
          cases h
          exact goes_handler rfl hh (.abort hl) fun _ => .inl hp
      · next hp hh =>
          split_ifs at h with hl
          cases h
          exact goes_handler rfl hh (.abort hl) fun _ => .inr hp
      · cases h
  | leave =>
      cases hp : c.phase with
      | closing =>
          simp only [Conn.step, hp] at h
          split_ifs at h
          exact goes_finish rfl (by rw [hp]; rfl) (Option.some.inj h)
      | opened | answering | serving | ended => simp [Conn.step, hp] at h
  | drop =>
      simp only [Conn.step] at h
      split_ifs at h with he
      exact goes_finish rfl (by simpa using he) (Option.some.inj h)

/-! ### The gate -/

/-- The first frame of the connection was the hello the gate asks for. -/
def Conn.Admitted (p : SystemProvider) (c : Conn) : Prop :=
  ∃ request hello, c.received.head? = some request ∧ request.method = systemHello ∧
    request.protocolVersion = protocolVersion ∧ request.timeoutMs ≠ 0 ∧
    HelloParams.ofValue request.params = some hello ∧ hello.authToken = p.authToken ∧
    protocolVersion ∈ hello.supportedProtocolVersions

/-- The invariant of a connection. -/
structure Conn.Inv (p : SystemProvider) (c : Conn) : Prop where
  opened : c.phase = .opened → c.received = [] ∧ c.handlers = [] ∧ c.dispatched = [] ∧ c.sent = []
  answering : ∀ response a, c.phase = .answering response a → c.handlers = [] ∧ c.sent = [] ∧
    a = isSuccess response ∧ (a = true → c.Admitted p)
  admitted : c.phase = .serving ∨ c.handlers ≠ [] → c.Admitted p
  dispatched : ∀ e ∈ c.dispatched, (e.1 = none → e.2.method = systemHello ∧
    c.received.head? = some e.2) ∧ (e.1 ≠ none → e.2.method ≠ systemHello ∧ c.handlers ≠ [])
  once : (c.dispatched.filter fun e => e.1.isNone).length ≤ 1
  attendance : c.attendance = (c.passed && !c.phase.isEnded)

variable {c c' : Conn} {effect : Effect}

theorem refusal_eq_none {request : RequestEnvelope} (h : refusal request = none) :
    request.protocolVersion = protocolVersion ∧ request.timeoutMs ≠ 0 := by
  unfold refusal at h
  split_ifs at h with hv ht
  exact ⟨not_not.mp hv, ht⟩

/-- **A hello answered with success is the one the gate asks for.** -/
theorem hello_admits (r : AgentRouter p) {world : World} {request : RequestEnvelope}
    {response : ResponseEnvelope} (hm : request.method = systemHello)
    (h : executeRequest r.router world request = some response) (hs : isSuccess response = true) :
    ∃ hello, HelloParams.ofValue request.params = some hello ∧ hello.authToken = p.authToken ∧
      protocolVersion ∈ hello.supportedProtocolVersions := by
  obtain ⟨result, hd, rfl⟩ := Option.map_eq_some_iff.mp h
  rw [Router.dispatch, hm, r.lookup_hello] at hd
  have hd : p.hello (r.router.context world) request.params = result := Option.some.inj hd
  cases result with
  | error e => cases hs
  | ok v => exact SystemProvider.hello_ok hd

/-- What the first frame was does not change. -/
theorem Conn.Admitted.of_head (h : c.Admitted p) (hr : c'.received.head? = c.received.head?) :
    c'.Admitted p := by
  obtain ⟨request, hello, hh, hrest⟩ := h
  exact ⟨request, hello, hr.trans hh, hrest⟩

theorem head?_append_of_ne_nil {α : Type} {xs ys : List α} (h : xs ≠ []) :
    (xs ++ ys).head? = xs.head? := by
  cases xs with
  | nil => exact absurd rfl h
  | cons x xs => rfl

theorem Conn.Admitted.received_ne_nil (h : c.Admitted p) : c.received ≠ [] := by
  obtain ⟨request, hello, hh, -⟩ := h
  intro hr
  rw [hr] at hh
  cases hh

theorem not_passed_of_sent_nil (h : c.sent = []) : c.passed = false := by simp [Conn.passed, h]

theorem Conn.inv_new : Conn.new.Inv p where
  opened _ := ⟨rfl, rfl, rfl, rfl⟩
  answering _ _ h := by cases h
  admitted h := by rcases h with h | h; cases h; exact absurd rfl h
  dispatched _ h := by cases h
  once := Nat.zero_le 1
  attendance := rfl

/-- The first frame is read, and answered. -/
theorem Conn.Inv.greet (r : AgentRouter p) (hi : c.Inv p) {request : RequestEnvelope}
    {response : ResponseEnvelope} {a : Bool} {log : List (Option Nat × RequestEnvelope)}
    (h : c.phase = .opened)
    (hlog : log = [] ∨ log = [(none, request)] ∧ request.method = systemHello)
    (hauth : a = true → isSuccess response = true ∧ request.method = systemHello ∧
      refusal request = none ∧ ∃ world, executeRequest r.router world request = some response)
    (hfail : a = false → isSuccess response = false) :
    Conn.Inv p { c with
      phase := .answering response a
      received := c.received ++ [request]
      dispatched := c.dispatched ++ log } := by
  obtain ⟨hr, hh, hd, hs⟩ := hi.opened h
  have ha : a = isSuccess response := by
    cases a with
    | false => exact (hfail rfl).symm
    | true => exact (hauth rfl).1.symm
  have hadm : a = true → Conn.Admitted p { c with
      phase := .answering response a
      received := c.received ++ [request]
      dispatched := c.dispatched ++ log } := by
    intro hat
    obtain ⟨hsucc, hm, href, world, he⟩ := hauth hat
    obtain ⟨hello, hp, ht, hv⟩ := hello_admits r hm he hsucc
    obtain ⟨hver, htime⟩ := refusal_eq_none href
    exact ⟨request, hello, by rw [hr]; rfl, hm, hver, htime, hp, ht, hv⟩
  constructor
  · exact fun h => by cases h
  · rintro response' a' h'
    cases h'
    exact ⟨hh, hs, ha, hadm⟩
  · rintro (h' | h')
    · cases h'
    · exact absurd hh h'
  · intro e he
    rw [hd, List.nil_append] at he
    rcases hlog with rfl | ⟨rfl, hm⟩
    · cases he
    · obtain rfl := List.mem_singleton.mp he
      exact ⟨fun _ => ⟨hm, by rw [hr]; rfl⟩, fun h => absurd rfl h⟩
  · rw [hd]
    rcases hlog with rfl | ⟨rfl, -⟩
    · exact Nat.zero_le 1
    · exact Nat.le_refl 1
  · have := hi.attendance
    rw [not_passed_of_sent_nil hs] at this
    simpa [Conn.passed, hs] using this

/-- The hello's success is written. -/
theorem Conn.Inv.serve (hi : c.Inv p) {response : ResponseEnvelope}
    (h : c.phase = .answering response true) :
    Conn.Inv p { c with
      phase := .serving
      attendance := true
      sent := c.sent ++ [(none, response)] } := by
  obtain ⟨hh, hs, ha, hadm⟩ := hi.answering _ _ h
  constructor
  · exact fun h => by cases h
  · exact fun _ _ h => by cases h
  · exact fun _ => (hadm rfl).of_head rfl
  · exact hi.dispatched
  · exact hi.once
  · simp [Conn.passed, hs, ← ha, Phase.isEnded]

/-- The task returns. -/
theorem Conn.Inv.finish (hi : c.Inv p) : Conn.Inv p c.finish.1 where
  opened h := by cases h
  answering _ _ h := by cases h
  admitted h := by
    rcases h with h | h
    · cases h
    · exact (hi.admitted (.inr h)).of_head rfl
  dispatched := hi.dispatched
  once := hi.once
  attendance := by simp [Conn.finish, Phase.isEnded]

/-- The task returns once the first frame is turned away. -/
theorem Conn.Inv.turnAway (hi : c.Inv p) (response : ResponseEnvelope) :
    Conn.Inv p (Conn.finish { c with sent := c.sent ++ [(none, response)] }).1 where
  opened h := by cases h
  answering _ _ h := by cases h
  admitted h := by
    rcases h with h | h
    · cases h
    · exact (hi.admitted (.inr h)).of_head rfl
  dispatched := hi.dispatched
  once := hi.once
  attendance := by simp [Conn.finish, Phase.isEnded]

/-- A further request is read. -/
theorem Conn.Inv.receive (hi : c.Inv p) (request : RequestEnvelope) (h : c.phase = .serving) :
    Conn.Inv p { c with
      received := c.received ++ [request]
      handlers := c.handlers ++ [⟨request, .spawned⟩] } := by
  have hadm := hi.admitted (.inl h)
  have hhead := @head?_append_of_ne_nil _ _ [request] hadm.received_ne_nil
  constructor
  · intro h'
    rw [h] at h'
    cases h'
  · intro response a h'
    rw [h] at h'
    cases h'
  · exact fun _ => hadm.of_head hhead
  · intro e he
    obtain ⟨h₁, h₂⟩ := hi.dispatched e he
    exact ⟨fun hn => ⟨(h₁ hn).1, hhead.trans (h₁ hn).2⟩, fun hn => ⟨(h₂ hn).1, by simp⟩⟩
  · exact hi.once
  · exact hi.attendance

/-- The task stops reading. -/
theorem Conn.Inv.close (hi : c.Inv p) (h : c.phase = .serving) :
    Conn.Inv p { c with phase := .closing } where
  opened h := by cases h
  answering _ _ h := by cases h
  admitted _ := (hi.admitted (.inl h)).of_head rfl
  dispatched := hi.dispatched
  once := hi.once
  attendance := by
    have := hi.attendance
    simpa [h, Phase.isEnded, Conn.passed] using this

/-- A handler moves. -/
theorem Conn.Inv.handle (hi : c.Inv p) {n : Nat} {request : RequestEnvelope}
    {phase phase' : HandlerPhase} {log : List (Option Nat × RequestEnvelope)}
    {sent : List ResponseEnvelope} (hh : c.handlers[n]? = some ⟨request, phase⟩)
    (hlog : log = [] ∨ log = [(some n, request)] ∧ request.method ≠ systemHello) :
    Conn.Inv p { c with
      handlers := c.handlers.set n ⟨request, phase'⟩
      dispatched := c.dispatched ++ log
      sent := c.sent ++ sent.map fun response => (some n, response) } := by
  have hne : c.handlers ≠ [] := by
    intro h
    rw [h] at hh
    cases hh
  have hadm := hi.admitted (.inr hne)
  constructor
  · exact fun h => absurd (hi.opened h).2.1 hne
  · exact fun response a h => absurd (hi.answering response a h).1 hne
  · exact fun _ => hadm.of_head rfl
  · intro e he
    have hne' : c.handlers.set n ⟨request, phase'⟩ ≠ [] := by simpa using hne
    rcases List.mem_append.mp he with he | he
    · obtain ⟨h₁, h₂⟩ := hi.dispatched e he
      exact ⟨h₁, fun hn => ⟨(h₂ hn).1, hne'⟩⟩
    · rcases hlog with rfl | ⟨rfl, hm⟩
      · cases he
      · obtain rfl := List.mem_singleton.mp he
        exact ⟨fun h => by (cases h), fun _ => ⟨hm, hne'⟩⟩
  · rcases hlog with rfl | ⟨rfl, -⟩
    · simpa using hi.once
    · simpa [List.filter_append] using hi.once
  · have hsent : (sent.map fun response => (some n, response)).any
        (fun e => e.1.isNone && isSuccess e.2) = false := by simp
    rw [Conn.passed, List.any_append, hsent, Bool.or_false]
    exact hi.attendance

/-- **The invariant of a connection is kept.** -/
theorem Conn.Inv.goes (r : AgentRouter p) (hi : c.Inv p) (h : c.Goes r.router m c' effect) :
    c'.Inv p := by
  cases h with
  | greet hm h hid hlog hauth hfail => exact hi.greet r h hlog hauth hfail
  | serve hm h hf => exact hi.serve h
  | turnAway hm h hf => exact hi.turnAway _
  | finish hm h => exact hi.finish
  | receive request hm h => exact hi.receive request h
  | close hm h => exact hi.close h
  | handle hm hh ha hlog hab => exact hi.handle hh hlog

/-! ### Attendance -/

/-- The effect is what the guard's coming or going does to the counter. -/
def Effect.Accounts (before after : Bool) : Effect → Prop
  | keep => after = before
  | attend => before = false ∧ after = true
  | release => before = true ∧ after = false

/-- A move counts its connection in or out as it takes or drops the guard. -/
theorem Conn.Inv.accounts (hi : c.Inv p) (h : c.Goes router m c' effect) :
    effect.Accounts c.attendance c'.attendance := by
  have hfin : ∀ c : Conn, c.finish.2.Accounts c.attendance c.finish.1.attendance := by
    intro c
    cases ha : c.attendance <;> simp [Conn.finish, ha, Effect.Accounts]
  cases h with
  | serve hm h hf =>
      have hs := (hi.answering _ _ h).2.1
      exact ⟨by rw [hi.attendance, not_passed_of_sent_nil hs]; rfl, rfl⟩
  | turnAway hm h hf => exact hfin _
  | finish hm h => exact hfin c
  | greet | receive | close | handle => rfl

/-- What holds of the Agent: every connection's own invariant, and the counter. -/
structure Agent.Inv (p : SystemProvider) (s : Agent) : Prop where
  conns : ∀ c ∈ s.conns, c.Inv p
  live : s.live = s.conns.countP Conn.attendance

/-- A guard taken or dropped moves the count by one. -/
theorem countP_set {conns : List Conn} {i : Nat} (h : conns[i]? = some c)
    (he : effect.Accounts c.attendance c'.attendance) :
    (conns.set i c').countP Conn.attendance = effect.apply (conns.countP Conn.attendance) := by
  obtain ⟨hi, hc⟩ := List.getElem?_eq_some_iff.mp h
  have hpos : c.attendance = true → 0 < conns.countP Conn.attendance := fun ha =>
    List.countP_pos_iff.mpr ⟨c, List.mem_of_getElem? h, ha⟩
  rw [List.countP_set hi, hc]
  cases effect with
  | keep =>
      have he : c'.attendance = c.attendance := he
      rw [he]
      cases ha : c.attendance
      · rfl
      · have := hpos ha
        simp [Effect.apply]
        omega
  | attend => simp [he.1, he.2, Effect.apply]
  | release => simp [he.1, he.2, Effect.apply]

theorem Agent.Inv.step (r : AgentRouter p) {s s' : Agent} {l : Label} (hi : s.Inv p)
    (h : s.step r.router l = some s') : s'.Inv p := by
  cases l with
  | accept =>
      cases h
      constructor
      · intro c hc
        rcases List.mem_append.mp hc with hc | hc
        · exact hi.conns c hc
        · obtain rfl := List.mem_singleton.mp hc
          exact Conn.inv_new
      · simp [hi.live, List.countP_append, Conn.new]
  | move i m =>
      simp only [Agent.step] at h
      split at h
      · cases h
      · next c hc =>
          obtain ⟨⟨c', effect⟩, hs, hs'⟩ := Option.map_eq_some_iff.mp h
          cases hs'
          have hg := step_goes hs
          have hic := hi.conns c (List.mem_of_getElem? hc)
          constructor
          · intro d hd
            rcases List.mem_or_eq_of_mem_set hd with hd | rfl
            · exact hi.conns d hd
            · exact hic.goes r hg
          · rw [hi.live]
            exact (countP_set hc (hic.accounts hg)).symm

theorem Agent.inv_of_reach (r : AgentRouter p) {s : Agent} (h : (agent r.router).Reach s) :
    s.Inv p := by
  refine h.invariant (I := Agent.Inv p) ?_ fun s l s' hi hs => hi.step r hs
  rintro s rfl
  exact ⟨fun c hc => by (cases hc), rfl⟩

/-! ### The main result -/

/-- **The gate and the presence counter.**  In every state an Agent reaches, whatever its
connections have read and however their handlers have interleaved: a request other than
`system.hello` has been dispatched only on a connection whose first frame was the right hello; at
most one `system.hello` of a connection has been dispatched, its first frame; and the counter is
the number of connections that passed hello and have not ended. -/
theorem gate_and_attendance (r : AgentRouter p) {s : Agent} (h : (agent r.router).Reach s) :
    (∀ c ∈ s.conns, ∀ e ∈ c.dispatched, e.2.method ≠ systemHello → c.Admitted p) ∧
      (∀ c ∈ s.conns, (c.dispatched.filter fun e => e.2.method = systemHello).length ≤ 1 ∧
        ∀ e ∈ c.dispatched, e.2.method = systemHello →
          e.1 = none ∧ c.received.head? = some e.2) ∧
      s.live = s.conns.countP fun c => c.passed && !c.phase.isEnded := by
  have hi := Agent.inv_of_reach r h
  refine ⟨?_, ?_, ?_⟩
  · intro c hc e he hm
    have hic := hi.conns c hc
    obtain ⟨h₁, h₂⟩ := hic.dispatched e he
    have hn : e.1 ≠ none := fun hn => hm (h₁ hn).1
    exact hic.admitted (.inr (h₂ hn).2)
  · intro c hc
    have hic := hi.conns c hc
    have hfirst : ∀ e ∈ c.dispatched, e.2.method = systemHello → e.1 = none := by
      intro e he hm
      by_contra hn
      exact ((hic.dispatched e he).2 hn).1 hm
    have hfilter : c.dispatched.filter (fun e => e.2.method = systemHello) =
        c.dispatched.filter fun e => e.1.isNone := by
      apply List.filter_congr
      intro e he
      have := hfirst e he
      have := (hic.dispatched e he).1
      cases h₁ : e.1 <;> simp_all
    rw [hfilter]
    exact ⟨hic.once, fun e he hm => ⟨hfirst e he hm, ((hic.dispatched e he).1 (hfirst e he hm)).2⟩⟩
  · rw [hi.live]
    apply List.countP_congr
    intro c hc
    rw [(hi.conns c hc).attendance]

/-! ### A run -/

/-- A system provider with the token `secret`. -/
def secretSystem : SystemProvider := ⟨"secret", ⟨true, false, true⟩, fun _ => "invalid type"⟩

/-- A provider whose one method waits for the device. -/
def deviceProvider : Provider := ⟨"device", ["device.info"], fun _ _ _ _ => none⟩

/-- The two providers. -/
def deviceRouter : AgentRouter secretSystem where
  router := ⟨[secretSystem.provider, deviceProvider],
    [(systemHello, secretSystem.provider), (systemHealth, secretSystem.provider),
      (capabilityList, secretSystem.provider), ("device.info", deviceProvider)]⟩
  built := .more (p := deviceProvider) (.system rfl) rfl

/-- What the providers report. -/
def readyWorld : World :=
  ⟨fun name => ⟨⟨name, agentVersion, .ready, [], none⟩, fun _ => none, false⟩, 0⟩

/-- A hello with a token. -/
def helloRequest (token : String) : RequestEnvelope :=
  ⟨"desktop-1", systemHello, .ofFields [("auth_token", .string token),
    ("desktop_version", .string "0.2.3"), ("supported_protocol_versions", .array [.nat 1])], 10000,
    protocolVersion⟩

/-- A request to the device. -/
def deviceRequest (id : String) : RequestEnvelope :=
  ⟨id, "device.info", .object [], 10000, protocolVersion⟩

/-- Two connections: one says hello, asks the device and hangs up, the other skips the hello. -/
def twoClients : List Label :=
  [.accept, .accept, .move 0 (.first (.request (helloRequest "secret")) readyWorld),
    .move 0 (.answer true), .move 0 (.next (.request (deviceRequest "desktop-2"))),
    .move 1 (.first (.request (deviceRequest "desktop-1")) readyWorld), .move 1 (.answer true),
    .move 0 (.start 0 readyWorld), .move 0 (.finish 0 (.ok .null)), .move 0 (.write 0 true)]

theorem twoClients_runs :
    ((agent deviceRouter.router).exec ⟨[], 0⟩ twoClients).map Agent.live = some 1 := by
  decide +kernel

/-- The two clients: one is present, and only its request was dispatched. -/
theorem twoClients_gated :
    ∃ s, (agent deviceRouter.router).exec ⟨[], 0⟩ twoClients = some s ∧ s.live = 1 ∧
      (∀ c ∈ s.conns, ∀ e ∈ c.dispatched, e.2.method ≠ systemHello → c.Admitted secretSystem) ∧
      s.live = s.conns.countP fun c => c.passed && !c.phase.isEnded := by
  obtain ⟨s, hs, hlive⟩ := Option.map_eq_some_iff.mp twoClients_runs
  have h := gate_and_attendance deviceRouter
    ⟨_, twoClients, rfl, Machine.run_of_exec Machine.guarded_any hs⟩
  exact ⟨s, hs, hlive, h.1, h.2.2⟩

end RevBox.Server
