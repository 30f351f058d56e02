import RevBox.Agent.ServerRuns
import RevBox.Agent.ProcRead
import RevBox.Support.Fairness
import Mathlib.Data.List.Count
import Mathlib.Data.List.Nodup

/-!
# Agent — Server answers

What becomes of the requests of a connection that stays open: each comes to a response, and the
response becomes one frame exactly if it fits into one.

* `frames_of_origin`: with distinct ids, the frames under a request's id are those of its handler.
* `settles`: a fairly scheduled handler comes to its end.
* `answered_iff_fits`: a request is answered once if its response fits, and not at all otherwise.
-/

namespace RevBox.Server

open Routing Machine

variable {router : Router} {c c' : Conn} {effect : Effect} {m : Move} {written : Bool}

/-! ### Requests, responses and frames -/

/-- The place among the frames read of the request that a handler serves; the task serves the
first. -/
def place : Option Nat → Nat
  | none => 0
  | some h => h + 1

theorem place_inj {o o' : Option Nat} (h : place o = place o') : o = o' := by
  cases o <;> cases o' <;> simp_all [place]

/-- The frames written under an id. -/
def Conn.framesFor (c : Conn) (id : String) : Nat := c.sent.countP fun e => e.2.requestId = id

/-- The response a request comes to: a refusal, or what became of its dispatch. -/
inductive Produced (request : RequestEnvelope) : ResponseEnvelope → Prop where
  | again (h : request.method = systemHello) : Produced request (helloAgain request)
  | refused {error : AgentError} (h : refusal request = some error) :
      Produced request (.failure request.requestId error)
  | settled (hm : request.method ≠ systemHello) (hr : refusal request = none)
      (outcome : Outcome) : Produced request (respond request outcome)

theorem Produced.requestId {request : RequestEnvelope} {response : ResponseEnvelope}
    (h : Produced request response) : response.requestId = request.requestId := by
  cases h with
  | again | refused => rfl
  | settled => exact respond_requestId _ _

/-- What is known of a handler from its phase. -/
def HandlerPhase.Sound (request : RequestEnvelope) : HandlerPhase → Prop
  | spawned | aborted => True
  | awaiting => request.method ≠ systemHello ∧ refusal request = none
  | writing response => Produced request response
  | finished response _ => Produced request response

/-- How a connection's requests, handlers and frames belong together. -/
structure Conn.Answers (c : Conn) : Prop where
  opened : c.phase = .opened → c.received = [] ∧ c.handlers = [] ∧ c.sent = []
  answering : ∀ response a, c.phase = .answering response a → c.handlers = [] ∧ c.sent = [] ∧
    ∃ request, c.received.head? = some request ∧ response.requestId = request.requestId
  serving : c.phase = .serving → c.received ≠ [] ∧ ∃ response, (none, response) ∈ c.sent
  asked : c.received.tail = c.handlers.map Handler.request
  origins : (c.sent.map Prod.fst).Nodup
  own : ∀ o response, (o, response) ∈ c.sent → ∃ request,
    c.received[place o]? = some request ∧ response.requestId = request.requestId
  finished : ∀ h response, (some h, response) ∈ c.sent ↔
    ∃ request, c.handlers[h]? = some ⟨request, .finished response true⟩
  fits : ∀ e ∈ c.sent, Frame.Fits e.2
  aborted : ∀ (h : Nat) (request : RequestEnvelope), c.handlers[h]? = some ⟨request, .aborted⟩ →
    c.phase = .closing ∨ c.phase = .ended
  sound : ∀ (h : Nat) (request : RequestEnvelope) (phase : HandlerPhase),
    c.handlers[h]? = some ⟨request, phase⟩ → phase.Sound request

theorem Advance.sound {request : RequestEnvelope} {phase phase' : HandlerPhase}
    {sent : List ResponseEnvelope} (h : Advance written request phase phase' sent)
    (hs : phase.Sound request) : phase'.Sound request := by
  cases h with
  | again h => exact .again h
  | refuse h => exact .refused h
  | answer hm hr outcome => exact .settled hm hr outcome
  | await hm hr => exact ⟨hm, hr⟩
  | settle outcome => exact .settled hs.1 hs.2 outcome
  | write | lose => exact hs
  | abort => trivial

/-- The request of handler `h` has its place among the frames read. -/
theorem Conn.Answers.received_handler (hc : c.Answers) {h : Nat} {handler : Handler}
    (hh : c.handlers[h]? = some handler) : c.received[h + 1]? = some handler.request := by
  have := congrArg (·[h]?) hc.asked
  simpa [hh] using this

/-- A frame after the first has its handler. -/
theorem Conn.Answers.handler_received (hc : c.Answers) {h : Nat} {request : RequestEnvelope}
    (hr : c.received[h + 1]? = some request) :
    ∃ handler, c.handlers[h]? = some handler ∧ handler.request = request := by
  have := congrArg (·[h]?) hc.asked
  simpa [hr] using this.symm

/-- **With distinct ids, the frames under a request's id are those of its handler.** -/
theorem Conn.Answers.frames_of_origin (hc : c.Answers)
    (hids : (c.received.map RequestEnvelope.requestId).Nodup) {o : Option Nat}
    {request : RequestEnvelope} (ho : c.received[place o]? = some request) :
    c.framesFor request.requestId = (c.sent.map Prod.fst).count o := by
  rw [Conn.framesFor, List.count_eq_countP, List.countP_map]
  apply List.countP_congr
  rintro ⟨o', response⟩ he
  obtain ⟨request', ho', hid⟩ := hc.own o' response he
  simp only [Function.comp, beq_iff_eq, decide_eq_true_eq, hid]
  constructor
  · intro heq
    obtain ⟨hlt, hget⟩ := List.getElem?_eq_some_iff.mp ho'
    have hplace : place o' = place o := by
      refine (List.getElem?_inj (by simpa using hlt) hids).mp ?_
      simp [List.getElem?_map, ho, ho', heq]
    exact place_inj hplace
  · rintro rfl
    rw [ho] at ho'
    cases ho'
    rfl

/-! ### The invariant is kept -/

theorem Conn.answers_new : Conn.new.Answers where
  opened _ := ⟨rfl, rfl, rfl⟩
  answering _ _ h := by cases h
  serving h := by cases h
  asked := rfl
  origins := List.nodup_nil
  own _ _ h := by cases h
  finished h response := by simp [Conn.new]
  fits _ h := by cases h
  aborted h request hh := by simp [Conn.new] at hh
  sound h request phase hh := by simp [Conn.new] at hh

/-- The task returns; what it has written last, if anything, answers the first frame. -/
theorem Conn.Answers.finish (hc : c.Answers) : Conn.Answers c.finish.1 where
  opened h := by cases h
  answering _ _ h := by cases h
  serving h := by cases h
  asked := hc.asked
  origins := hc.origins
  own := hc.own
  finished := hc.finished
  fits := hc.fits
  aborted _ _ _ := .inr rfl
  sound := hc.sound

/-- The answer to the first frame is written. -/
theorem Conn.Answers.answer (hc : c.Answers) {response : ResponseEnvelope} {a : Bool}
    (h : c.phase = .answering response a) (hf : Frame.Fits response) (phase : Phase)
    (attendance : Bool) (hphase : phase = .serving ∨ phase = .ended) :
    Conn.Answers { c with phase, attendance, sent := c.sent ++ [(none, response)] } := by
  obtain ⟨hh, hs, request, hr, hid⟩ := hc.answering response a h
  have hne : c.received ≠ [] := by
    intro hnil
    rw [hnil] at hr
    cases hr
  have h₀ : c.received[0]? = some request := by rwa [← List.head?_eq_getElem?]
  constructor
  · intro h'
    rcases hphase with hphase | hphase <;> cases hphase.symm.trans h'
  · intro _ _ h'
    rcases hphase with hphase | hphase <;> cases hphase.symm.trans h'
  · exact fun _ => ⟨hne, response, by simp⟩
  · exact hc.asked
  · simp [hs]
  · intro o response' he
    simp only [hs, List.nil_append, List.mem_singleton, Prod.mk.injEq] at he
    obtain ⟨rfl, rfl⟩ := he
    exact ⟨request, h₀, hid⟩
  · intro n response'
    simp [hs, hh]
  · intro e he
    rw [hs, List.nil_append, List.mem_singleton] at he
    exact he ▸ hf
  · intro n request' hn
    rw [hh] at hn
    cases hn
  · exact hc.sound

theorem Conn.Answers.greet (hc : c.Answers) {request : RequestEnvelope}
    {response : ResponseEnvelope} {a : Bool} {log : List (Option Nat × RequestEnvelope)}
    (h : c.phase = .opened) (hid : response.requestId = request.requestId) :
    Conn.Answers { c with
      phase := .answering response a
      received := c.received ++ [request]
      dispatched := c.dispatched ++ log } := by
  obtain ⟨hr, hh, hs⟩ := hc.opened h
  constructor
  · exact fun h => by cases h
  · rintro response' a' h'
    cases h'
    exact ⟨hh, hs, request, by simp [hr], hid⟩
  · exact fun h => by cases h
  · simp [hr, hh]
  · exact hc.origins
  · intro o response' he
    rw [hs] at he
    cases he
  · exact hc.finished
  · exact hc.fits
  · intro n request' hn
    rw [hh] at hn
    cases hn
  · exact hc.sound

theorem Conn.Answers.receive (hc : c.Answers) (request : RequestEnvelope)
    (h : c.phase = .serving) :
    Conn.Answers { c with
      received := c.received ++ [request]
      handlers := c.handlers ++ [⟨request, .spawned⟩] } := by
  obtain ⟨hne, hfirst⟩ := hc.serving h
  -- a handler of the longer list is an old one, or the new one, which has done nothing
  have hget : ∀ (n : Nat) (handler : Handler),
      (c.handlers ++ [(⟨request, .spawned⟩ : Handler)])[n]? = some handler →
        c.handlers[n]? = some handler ∨ handler = ⟨request, .spawned⟩ := by
    intro n handler hn
    rcases Nat.lt_or_ge n c.handlers.length with hlt | hge
    · rw [List.getElem?_append_left hlt] at hn
      exact .inl hn
    · rw [List.getElem?_append_right hge] at hn
      exact .inr (List.mem_singleton.mp (List.mem_of_getElem? hn))
  constructor
  · intro h'
    cases h.symm.trans h'
  · intro _ _ h'
    cases h.symm.trans h'
  · exact fun _ => ⟨by simp, hfirst⟩
  · obtain ⟨first, rest, hr⟩ := List.exists_cons_of_ne_nil hne
    have := hc.asked
    rw [hr] at this
    simp [hr] at this ⊢
    exact this
  · exact hc.origins
  · intro o response he
    obtain ⟨request', ho, hid⟩ := hc.own o response he
    obtain ⟨hlt, -⟩ := List.getElem?_eq_some_iff.mp ho
    exact ⟨request', by rwa [List.getElem?_append_left hlt], hid⟩
  · intro n response
    rw [hc.finished n response]
    constructor
    · rintro ⟨request', hn⟩
      obtain ⟨hlt, -⟩ := List.getElem?_eq_some_iff.mp hn
      exact ⟨request', by rwa [List.getElem?_append_left hlt]⟩
    · rintro ⟨request', hn⟩
      rcases hget n _ hn with hn | hn
      · exact ⟨request', hn⟩
      · cases hn
  · exact hc.fits
  · intro n request' hn
    rcases hget n _ hn with hn | hn
    · exact hc.aborted n request' hn
    · cases hn
  · intro n request' phase hn
    rcases hget n _ hn with hn | hn
    · exact hc.sound n request' phase hn
    · cases hn
      trivial

/-- What a handler writes fits. -/
theorem Advance.fits {request : RequestEnvelope} {phase phase' : HandlerPhase}
    {sent : List ResponseEnvelope} (h : Advance written request phase phase' sent) :
    ∀ r ∈ sent, Frame.Fits r := by
  intro r hr
  cases h with
  | write h =>
      obtain rfl := List.mem_singleton.mp hr
      exact h
  | again | refuse | answer | await | settle | lose | abort => cases hr

/-- A handler that moves had not finished; it writes its response once, as it finishes. -/
theorem Advance.sent {request : RequestEnvelope} {phase phase' : HandlerPhase}
    {sent : List ResponseEnvelope} (h : Advance written request phase phase' sent) :
    phase.live = true ∧ (sent = [] ∧ (∀ r, phase' ≠ .finished r true) ∨
      ∃ r, sent = [r] ∧ phase' = .finished r true) := by
  cases h with
  | write h => exact ⟨rfl, .inr ⟨_, rfl, rfl⟩⟩
  | abort h => exact ⟨h, .inl ⟨rfl, fun r hr => by cases hr⟩⟩
  | again | refuse | answer | await | settle | lose =>
      exact ⟨rfl, .inl ⟨rfl, fun r hr => by cases hr⟩⟩

theorem Conn.Answers.handle (hc : c.Answers) {n : Nat} {request : RequestEnvelope}
    {phase phase' : HandlerPhase} {log : List (Option Nat × RequestEnvelope)}
    {sent : List ResponseEnvelope} (hh : c.handlers[n]? = some ⟨request, phase⟩)
    (ha : Advance written request phase phase' sent)
    (hab : phase' = .aborted → c.phase = .closing ∨ c.phase = .ended) :
    Conn.Answers { c with
      handlers := c.handlers.set n ⟨request, phase'⟩
      dispatched := c.dispatched ++ log
      sent := c.sent ++ sent.map fun response => (some n, response) } := by
  obtain ⟨hlive, hsent⟩ := ha.sent
  obtain ⟨hlt, -⟩ := List.getElem?_eq_some_iff.mp hh
  have hne : c.handlers ≠ [] := by
    intro h
    rw [h] at hh
    cases hh
  -- the handler has written nothing so far
  have hfresh : ∀ response, (some n, response) ∉ c.sent := by
    intro response he
    obtain ⟨request', hn⟩ := (hc.finished n response).mp he
    rw [hh] at hn
    cases hn
    cases hlive
  have hmem : ∀ response, response ∈ sent ↔ phase' = .finished response true := by
    intro response
    rcases hsent with ⟨rfl, hnot⟩ | ⟨r, rfl, rfl⟩
    · simp [hnot response]
    · simp [eq_comm]
  constructor
  · exact fun h => absurd (hc.opened h).2.1 hne
  · exact fun response a h => absurd (hc.answering response a h).1 hne
  · intro h
    obtain ⟨hr, response, he⟩ := hc.serving h
    exact ⟨hr, response, List.mem_append_left _ he⟩
  · have hreq : (c.handlers.set n ⟨request, phase'⟩).map Handler.request =
        c.handlers.map Handler.request := by
      apply List.ext_getElem?
      intro i
      rw [List.getElem?_map, List.getElem?_map, List.getElem?_set]
      split_ifs with hi
      · subst hi
        simp [hh]
      · rfl
    exact hc.asked.trans hreq.symm
  · rw [List.map_append, List.nodup_append]
    refine ⟨hc.origins, ?_, ?_⟩
    · rcases hsent with ⟨rfl, -⟩ | ⟨r, rfl, -⟩ <;> simp
    · rintro o ho o' ho' rfl
      obtain ⟨e', he', rfl⟩ := List.mem_map.mp ho'
      obtain ⟨r, -, rfl⟩ := List.mem_map.mp he'
      obtain ⟨⟨_, response⟩, he, rfl⟩ := List.mem_map.mp ho
      exact hfresh response he
  · intro o response he
    rcases List.mem_append.mp he with he | he
    · exact hc.own o response he
    · obtain ⟨r, hr, heq⟩ := List.mem_map.mp he
      cases heq
      have hs := ha.sound (hc.sound n request phase hh)
      rw [(hmem response).mp hr] at hs
      exact ⟨request, hc.received_handler hh, hs.requestId⟩
  · intro m response
    rw [List.mem_append, List.getElem?_set]
    split_ifs with hmn
    · subst hmn
      constructor
      · rintro (he | he)
        · exact absurd he (hfresh response)
        · obtain ⟨r, hr, heq⟩ := List.mem_map.mp he
          cases heq
          exact ⟨request, by rw [(hmem response).mp hr]⟩
      · rintro ⟨request', hn⟩
        cases hn
        exact .inr (List.mem_map.mpr ⟨response, (hmem response).mpr rfl, rfl⟩)
    · rw [hc.finished m response]
      refine ⟨fun h => h.resolve_right fun he => ?_, .inl⟩
      obtain ⟨r, -, heq⟩ := List.mem_map.mp he
      cases heq
      exact hmn rfl
  · intro e he
    rcases List.mem_append.mp he with he | he
    · exact hc.fits e he
    · obtain ⟨r, hr, rfl⟩ := List.mem_map.mp he
      exact ha.fits r hr
  · intro m request' hm
    rw [List.getElem?_set] at hm
    split_ifs at hm with h₁
    · cases hm
      exact hab rfl
    · exact hc.aborted m request' hm
  · intro m request' phase₁ hm
    rw [List.getElem?_set] at hm
    split_ifs at hm with h₁
    · subst h₁
      cases hm
      exact ha.sound (hc.sound n request phase hh)
    · exact hc.sound m request' phase₁ hm

/-- **The requests, handlers and frames stay together.** -/
theorem Conn.Answers.goes (hc : c.Answers) (h : c.Goes router m c' effect) : c'.Answers := by
  cases h with
  | greet hm h hid => exact hc.greet h hid
  | serve hm h hf => exact hc.answer h hf _ _ (.inl rfl)
  | turnAway hm h hf => exact hc.answer h hf _ _ (.inr rfl)
  | finish hm h => exact hc.finish
  | receive request hm h => exact hc.receive request h
  | close hm h =>
      constructor
      · exact fun h => by cases h
      · exact fun _ _ h => by cases h
      · exact fun h => by cases h
      · exact hc.asked
      · exact hc.origins
      · exact hc.own
      · exact hc.finished
      · exact hc.fits
      · exact fun _ _ _ => .inl rfl
      · exact hc.sound
  | handle hm hh ha hlog hab => exact hc.handle hh ha hab

theorem answers (e : (connection router).Execution) (n : Nat) : (e.state n).Answers := by
  refine e.invariant (I := Conn.Answers) ?_ ?_ n
  · rintro c rfl
    exact Conn.answers_new
  · intro c m c' hc h
    obtain ⟨⟨c₁, effect⟩, hs, rfl⟩ := Option.map_eq_some_iff.mp h
    exact hc.goes (step_goes hs)

/-! ### Handlers come to their end -/

/-- A handler has something to do. -/
def Conn.CanMove (h : Nat) (c : Conn) : Prop :=
  ∃ handler, c.handlers[h]? = some handler ∧ handler.phase.live = true

/-- What a handler has left to do. -/
def HandlerPhase.todo : HandlerPhase → Nat
  | spawned => 3
  | awaiting => 2
  | writing _ => 1
  | finished .. | aborted => 0

/-- What handler `h` of the connection has left to do. -/
def Conn.todo (h : Nat) (c : Conn) : Nat :=
  match c.handlers[h]? with
  | some handler => handler.phase.todo
  | none => 0

theorem Advance.todo_lt {request : RequestEnvelope} {phase phase' : HandlerPhase}
    {sent : List ResponseEnvelope} (h : Advance written request phase phase' sent) :
    phase'.todo < phase.todo := by
  cases h with
  | abort h => cases phase <;> simp_all [HandlerPhase.live, HandlerPhase.todo]
  | _ => simp [HandlerPhase.todo]

/-- A handler stays, with its request; if it moves, it advances. -/
theorem Conn.Goes.handler (h : c.Goes router m c' effect) {n : Nat} {request : RequestEnvelope}
    {phase : HandlerPhase} (hn : c.handlers[n]? = some ⟨request, phase⟩) :
    ∃ phase', c'.handlers[n]? = some ⟨request, phase'⟩ ∧
      (m.handler ≠ some n ∧ phase' = phase ∨
        m.handler = some n ∧ ∃ sent, Advance m.written request phase phase' sent) := by
  obtain ⟨hlt, -⟩ := List.getElem?_eq_some_iff.mp hn
  have hstill : m.handler = none → m.handler ≠ some n := fun hm h => by cases hm.symm.trans h
  cases h with
  | greet hm | serve hm | turnAway hm | finish hm | close hm =>
      exact ⟨phase, hn, .inl ⟨hstill hm, rfl⟩⟩
  | receive request' hm h =>
      exact ⟨phase, by rwa [List.getElem?_append_left hlt], .inl ⟨hstill hm, rfl⟩⟩
  | @handle k request' phase₁ phase₂ log sent hm hh ha hlog =>
      by_cases hk : k = n
      · subst hk
        rw [hn] at hh
        cases hh
        exact ⟨phase₂, by simp [hlt], .inr ⟨hm, sent, ha⟩⟩
      · refine ⟨phase, by rwa [List.getElem?_set_ne hk], .inl ⟨fun h => hk ?_, rfl⟩⟩
        exact Option.some.inj (hm.symm.trans h)

/-- A handler that has done something was there before. -/
theorem Conn.Goes.handler_from (h : c.Goes router m c' effect) {n : Nat}
    {request : RequestEnvelope} {phase' : HandlerPhase}
    (hn : c'.handlers[n]? = some ⟨request, phase'⟩) (hp : phase' ≠ .spawned) :
    ∃ phase, c.handlers[n]? = some ⟨request, phase⟩ ∧
      (phase' = phase ∨ ∃ sent, Advance m.written request phase phase' sent) := by
  cases hc : c.handlers[n]? with
  | some handler =>
      obtain ⟨phase'', hp', hadv⟩ := h.handler hc
      rw [hn] at hp'
      cases hp'
      exact ⟨_, rfl, hadv.imp And.right And.right⟩
  | none =>
      exfalso
      have hge : c.handlers.length ≤ n := List.getElem?_eq_none_iff.mp hc
      cases h with
      | greet | serve | turnAway | finish | close => cases hc.symm.trans hn
      | receive request' hm h =>
          rw [List.getElem?_append_right hge] at hn
          cases List.mem_singleton.mp (List.mem_of_getElem? hn)
          exact hp rfl
      | handle hm hh =>
          rw [List.getElem?_eq_none (by simpa using hge)] at hn
          cases hn

/-- The frames read are never forgotten. -/
theorem Conn.Goes.received (h : c.Goes router m c' effect) : c.received <+: c'.received := by
  cases h with
  | greet | receive => exact List.prefix_append _ _
  | serve | turnAway | finish | close | handle => exact List.prefix_refl _

/-- What an execution does in a labelled moment. -/
theorem goes (e : (connection router).Execution) {n : Nat} {m : Move} (h : e.label n = some m) :
    ∃ effect, (e.state n).Goes router m (e.state (n + 1)) effect := by
  obtain ⟨⟨c, effect⟩, hs, hc⟩ := Option.map_eq_some_iff.mp (e.moves h)
  rw [← hc]
  exact ⟨effect, step_goes hs⟩

theorem received_grows (e : (connection router).Execution) {n k : Nat} (h : n ≤ k) :
    (e.state n).received <+: (e.state k).received := by
  refine e.stable (P := fun c => (e.state n).received <+: c.received) (List.prefix_refl _) ?_ k h
  intro j _ l hl hj
  obtain ⟨effect, hg⟩ := goes e hl
  exact hj.trans hg.received

/-- An execution serves its connection: it stays open once it is, the socket takes every frame,
the ids are distinct, and a handler with something to do moves some time. -/
structure Serves (e : (connection router).Execution) : Prop where
  stays : ∃ n₀, ∀ n ≥ n₀, (e.state n).phase = .serving
  writes : ∀ n h, e.label n ≠ some (.write h false)
  ids : ∀ n, ((e.state n).received.map RequestEnvelope.requestId).Nodup
  fair : ∀ h, e.WeaklyFair (Conn.CanMove h) fun m => m.handler = some h

/-- Handler `h`, of this request, has come to its end. -/
def Conn.Settled (h : Nat) (request : RequestEnvelope) (c : Conn) : Prop :=
  ∃ phase, c.handlers[h]? = some ⟨request, phase⟩ ∧ phase.live = false

variable {e : (connection router).Execution} {n h : Nat} {request : RequestEnvelope}
  {phase : HandlerPhase} {response : ResponseEnvelope}

/-- A handler stays. -/
theorem handler_stays (hn : (e.state n).handlers[h]? = some ⟨request, phase⟩) :
    ∀ m ≥ n, ∃ phase', (e.state m).handlers[h]? = some ⟨request, phase'⟩ := by
  refine e.stable (P := fun c => ∃ phase', c.handlers[h]? = some ⟨request, phase'⟩) ⟨phase, hn⟩ ?_
  rintro m - l hl ⟨phase', hp⟩
  obtain ⟨effect, hg⟩ := goes e hl
  obtain ⟨phase'', hp', -⟩ := hg.handler hp
  exact ⟨phase'', hp'⟩

/-- A handler that has come to its end stays as it is. -/
theorem settled_stays (hn : (e.state n).handlers[h]? = some ⟨request, phase⟩)
    (hp : phase.live = false) : ∀ m ≥ n, (e.state m).handlers[h]? = some ⟨request, phase⟩ := by
  refine e.stable (P := fun c => c.handlers[h]? = some ⟨request, phase⟩) hn ?_
  intro m _ l hl hm
  obtain ⟨effect, hg⟩ := goes e hl
  obtain ⟨phase', hp', ⟨-, rfl⟩ | ⟨-, sent, ha⟩⟩ := hg.handler hm
  · exact hp'
  · rw [ha.sent.1] at hp
    cases hp

/-- **A handler comes to its end.** -/
theorem settles (he : Serves e) (hn : (e.state n).handlers[h]? = some ⟨request, phase⟩) :
    ∃ m ≥ n, (e.state m).Settled h request := by
  have hstays := handler_stays hn
  refine e.eventually (he.fair h) (Conn.todo h) ?_ ?_ ?_
  · intro m hm hnot
    obtain ⟨phase', hp⟩ := hstays m hm
    refine ⟨_, hp, ?_⟩
    by_contra hlive
    exact hnot ⟨phase', hp, by simpa using hlive⟩
  · intro m hm l hl ho hnot
    obtain ⟨phase', hp⟩ := hstays m hm
    obtain ⟨effect, hg⟩ := goes e hl
    obtain ⟨phase'', hp', ⟨hne, -⟩ | ⟨-, sent, ha⟩⟩ := hg.handler hp
    · exact absurd ho hne
    · simpa [Conn.todo, hp, hp'] using ha.todo_lt
  · intro m hm l hl ho
    obtain ⟨phase', hp⟩ := hstays m hm
    obtain ⟨effect, hg⟩ := goes e hl
    obtain ⟨phase'', hp', ⟨-, rfl⟩ | ⟨h, -⟩⟩ := hg.handler hp
    · simp [Conn.todo, hp, hp']
    · exact absurd h ho

/-- A handler loses its response only if it does not fit. -/
theorem not_fits_of_lost (he : Serves e)
    (hn : (e.state n).handlers[h]? = some ⟨request, .finished response false⟩) :
    ¬ Frame.Fits response := by
  induction n with
  | zero =>
      rw [e.init] at hn
      cases hn
  | succ n ih =>
      cases hl : e.label n with
      | none =>
          rw [e.idle hl] at hn
          exact ih hn
      | some l =>
          obtain ⟨effect, hg⟩ := goes e hl
          obtain ⟨phase, hp, rfl | ⟨sent, ha⟩⟩ := hg.handler_from hn nofun
          · exact ih hp
          · cases ha with
            | lose hlost =>
                intro hf
                cases l with
                | write k written => exact he.writes n k (by rw [hl, ← hlost hf]; rfl)
                | _ => cases hlost hf

/-- What a handler finished with is what it set out to write. -/
theorem written_of_finished {sent : Bool}
    (hn : (e.state n).handlers[h]? = some ⟨request, .finished response sent⟩) :
    ∃ k, (e.state k).handlers[h]? = some ⟨request, .writing response⟩ := by
  induction n with
  | zero =>
      rw [e.init] at hn
      cases hn
  | succ n ih =>
      cases hl : e.label n with
      | none =>
          rw [e.idle hl] at hn
          exact ih hn
      | some l =>
          obtain ⟨effect, hg⟩ := goes e hl
          obtain ⟨phase, hp, rfl | ⟨sent, ha⟩⟩ := hg.handler_from hn nofun
          · exact ih hp
          · cases ha <;> exact ⟨n, hp⟩

/-- The frames under a request's id, once its handler has come to its end. -/
theorem frames_of_finished (he : Serves e) {sent : Bool}
    (hn : (e.state n).handlers[h]? = some ⟨request, .finished response sent⟩) :
    ∀ m ≥ n, (e.state m).framesFor request.requestId = if sent then 1 else 0 := by
  intro m hm
  have hfin := settled_stays hn rfl m hm
  have hc := answers e m
  rw [hc.frames_of_origin (o := some h) (he.ids m) (hc.received_handler hfin)]
  cases sent with
  | true =>
      have hmem := (hc.finished h response).mpr ⟨request, hfin⟩
      exact List.count_eq_one_of_mem hc.origins (List.mem_map.mpr ⟨_, hmem, rfl⟩)
  | false =>
      apply List.count_eq_zero_of_not_mem
      intro ho
      obtain ⟨⟨_, response'⟩, hr, rfl⟩ := List.mem_map.mp ho
      obtain ⟨request', hf⟩ := (hc.finished h response').mp hr
      cases hfin.symm.trans hf

/-- The hello of a connection that serves has its frame. -/
theorem frames_of_hello (he : Serves e) (hn : (e.state n).received.head? = some request) :
    ∃ N, ∀ m ≥ N, (e.state m).framesFor request.requestId = 1 := by
  obtain ⟨n₀, hserving⟩ := he.stays
  have hhead : ∀ m ≥ n, (e.state m).received.head? = some request := by
    intro m hm
    obtain ⟨rest, hrest⟩ := received_grows e hm
    rw [← hrest, List.head?_append, hn]
    rfl
  refine ⟨max n n₀, fun m hm => ?_⟩
  have hc := answers e m
  obtain ⟨-, response, hr⟩ := hc.serving (hserving m ((le_max_right n n₀).trans hm))
  have h₀ : (e.state m).received[place none]? = some request :=
    List.head?_eq_getElem?.symm.trans (hhead m ((le_max_left n n₀).trans hm))
  rw [hc.frames_of_origin (he.ids m) h₀]
  exact List.count_eq_one_of_mem hc.origins (List.mem_map.mpr ⟨_, hr, rfl⟩)

/-- **A request is answered once if its response fits into a frame, and not at all otherwise.**
On a connection that stays open and whose writes succeed, the hello has one frame; every later
request comes to a response, and has one frame for ever after if and only if the response fits. -/
theorem answered_iff_fits (he : Serves e) :
    (∀ n request, (e.state n).received.head? = some request →
      ∃ N, ∀ m ≥ N, (e.state m).framesFor request.requestId = 1) ∧
    ∀ n h request, (e.state n).received[h + 1]? = some request →
      ∃ response, Produced request response ∧
        (∃ k, (e.state k).handlers[h]? = some ⟨request, .writing response⟩) ∧
        ((∃ N, ∀ m ≥ N, (e.state m).framesFor request.requestId = 1) ↔ Frame.Fits response) ∧
        (¬ Frame.Fits response → ∃ N, ∀ m ≥ N, (e.state m).framesFor request.requestId = 0) := by
  refine ⟨fun n request hn => frames_of_hello he hn, ?_⟩
  intro n h request hn
  obtain ⟨⟨_, phase⟩, hh, rfl⟩ := (answers e n).handler_received hn
  obtain ⟨n₀, hserving⟩ := he.stays
  obtain ⟨phase', hp⟩ := handler_stays hh _ (le_max_left n n₀)
  obtain ⟨m, hm, phase'', hfin, hend⟩ := settles he hp
  have hopen := hserving m ((le_max_right n n₀).trans hm)
  cases phase'' with
  | spawned | awaiting | writing => cases hend
  | aborted =>
      rcases (answers e m).aborted h _ hfin with hc | hc <;> cases hopen.symm.trans hc
  | finished response sent =>
      have hframes := frames_of_finished he hfin
      refine ⟨response, (answers e m).sound h _ _ hfin, written_of_finished hfin, ?_⟩
      cases sent with
      | true =>
          have hf : Frame.Fits response :=
            (answers e m).fits _ (((answers e m).finished h response).mpr ⟨_, hfin⟩)
          exact ⟨⟨fun _ => hf, fun _ => ⟨m, hframes⟩⟩, fun hnf => absurd hf hnf⟩
      | false =>
          have hnf := not_fits_of_lost he hfin
          refine ⟨⟨fun ⟨N, hN⟩ => ?_, fun hf => absurd hf hnf⟩, fun _ => ⟨m, hframes⟩⟩
          have h₀ := hframes (max N m) (le_max_right N m)
          rw [hN (max N m) (le_max_left N m)] at h₀
          cases h₀

/-! ### A read too large to answer -/

/-- The provider of `process.proc_read` and its siblings, all of which wait for the device. -/
def processProvider : Provider where
  name := "process"
  methods := ["process.ports", "process.by_port", "process.kill", "process.proc_read"]
  handle _ _ _ _ := none

/-- The system provider and the process provider. -/
def processRouter : AgentRouter secretSystem where
  router := ⟨[secretSystem.provider, processProvider],
    [(systemHello, secretSystem.provider), (systemHealth, secretSystem.provider),
      (capabilityList, secretSystem.provider), ("process.ports", processProvider),
      ("process.by_port", processProvider), ("process.kill", processProvider),
      ("process.proc_read", processProvider)]⟩
  built := .more (p := processProvider) (.system rfl) rfl

/-- A request for the mappings of a process. -/
def mapsRequest : RequestEnvelope where
  requestId := "desktop-2"
  method := "process.proc_read"
  params := .ofFields [("pid", .nat 4321), ("file", .string "maps"), ("max_lines", .nat 100000)]
  timeoutMs := 30000
  protocolVersion := protocolVersion

/-- The client says hello and asks for the mappings; the provider comes back with `result`. -/
def mapsMoves (result : Except AgentError Value) : List Move :=
  [.first (.request (helloRequest "secret")) readyWorld, .answer true,
    .next (.request mapsRequest), .start 0 readyWorld, .finish 0 result, .write 0 true]

theorem hello_answered : ∃ response,
    executeRequest processRouter.router readyWorld (helloRequest "secret") = some response ∧
      isSuccess response = true ∧ Frame.Fits response := by
  have h : (executeRequest processRouter.router readyWorld (helloRequest "secret")).any
      (fun response => isSuccess response && decide (Frame.Fits response)) = true := by
    decide +kernel
  obtain ⟨response, hr, h⟩ := (Option.any_eq_true _ _).mp h
  obtain ⟨hs, hf⟩ := Bool.and_eq_true_iff.mp h
  exact ⟨response, hr, hs, of_decide_eq_true hf⟩

/-- Where the client's moves lead. -/
theorem mapsMoves_lead (result : Except AgentError Value) :
    ∃ c, (connection processRouter.router).exec .new (mapsMoves result) = some c ∧
      c.phase = .serving ∧ c.received = [helloRequest "secret", mapsRequest] ∧
      c.handlers = [⟨mapsRequest, .finished (respond mapsRequest (.completed result))
        (decide (Frame.Fits (respond mapsRequest (.completed result))))⟩] := by
  obtain ⟨response, hr, hs, hf⟩ := hello_answered
  have hello : (helloRequest "secret").method = systemHello := rfl
  have asks : mapsRequest.method ≠ systemHello := by decide
  have passes : refusal (helloRequest "secret") = none := rfl
  have passes' : refusal mapsRequest = none := rfl
  have awaits : executeRequest processRouter.router readyWorld mapsRequest = none := rfl
  by_cases hfit : Frame.Fits (respond mapsRequest (.completed result))
  · simp [mapsMoves, Machine.exec, connection, Conn.step, Conn.new, hello, asks, passes, passes',
      awaits, hr, hs, hf, hfit, writeResponse_eq, Conn.setHandler, Conn.dispatch,
      HandlerPhase.polled]
  · simp [mapsMoves, Machine.exec, connection, Conn.step, Conn.new, hello, asks, passes, passes',
      awaits, hr, hs, hf, hfit, writeResponse_eq, Conn.setHandler, Conn.dispatch,
      HandlerPhase.polled]

/-- The client's moves, and nothing after them. -/
def mapsExecution (result : Except AgentError Value) :
    (connection processRouter.router).Execution :=
  .ofRun _ .new (mapsMoves result) rfl
    ((mapsMoves_lead result).imp fun _ h => h.1)

/-- From the sixth moment on nothing changes. -/
theorem mapsExecution_last (result : Except AgentError Value) :
    ∃ c : Conn, (∀ n ≥ 6, (mapsExecution result).state n = c) ∧ c.phase = .serving ∧
      c.received = [helloRequest "secret", mapsRequest] ∧
      c.handlers = [⟨mapsRequest, .finished (respond mapsRequest (.completed result))
        (decide (Frame.Fits (respond mapsRequest (.completed result))))⟩] := by
  obtain ⟨c, hc, hp, hr, hh⟩ := mapsMoves_lead result
  exact ⟨c, fun n hn => visited_last hc hn, hp, hr, hh⟩

theorem mapsExecution_serves (result : Except AgentError Value) :
    Serves (mapsExecution result) := by
  obtain ⟨c, hlast, hp, hr, hh⟩ := mapsExecution_last result
  constructor
  · exact ⟨6, fun n hn => by rw [hlast n hn]; exact hp⟩
  · intro n h hl
    have hmem := List.mem_of_getElem? hl
    simp [mapsMoves] at hmem
  · intro n
    have hpre := received_grows (mapsExecution result) (le_max_left n 6)
    rw [hlast _ (le_max_right n 6), hr] at hpre
    exact (hpre.sublist.map _).nodup (by decide)
  · intro h n hmoves
    obtain ⟨handler, hget, hlive⟩ := hmoves (max n 6) (le_max_left n 6)
    rw [hlast _ (le_max_right n 6), hh] at hget
    cases List.mem_singleton.mp (List.mem_of_getElem? hget)
    cases hlive

/-- `width` hexadecimal digits. -/
def hex (width n : Nat) : List Char :=
  (List.range width).reverse.map fun k => Json.hexDigit (n / 16 ^ k % 16)

/-- The device, inode and path of a shared object. -/
def mappedObject : List Char :=
  (" fd:05 2764                         " ++
    "/data/app/~~Zm9vYmFyYmF6cXV4cXV1eA==/com.example.game-c3BhbmlzaGludGVyZXN0cw==" ++
    "/lib/arm64/libil2cpp.so").toList

/-- A line of `maps`: the `i`-th page of a shared object that is mapped page by page. -/
def mapping (i : Nat) : List Char :=
  hex 10 (0x7000000000 + 0x2000 * i) ++ ('-' :: (hex 10 (0x7000001000 + 0x2000 * i) ++
    (" r--p ".toList ++ (hex 8 (0x1000 * i) ++ mappedObject))))

/-- The mappings of a process with `n` of them. -/
def mappings (n : Nat) : List (List Char) := (List.range n).map mapping

/-- A character that may stand in a line. -/
def Plain (c : Char) : Prop := Utf8.isAscii c = true ∧ c ≠ '\n' ∧ c ≠ '\r'

instance (c : Char) : Decidable (Plain c) := inferInstanceAs (Decidable (_ ∧ _))

theorem hexDigit_plain : ∀ d < 16, Plain (Json.hexDigit d) := by decide

theorem hex_plain (width n : Nat) : ∀ c ∈ hex width n, Plain c := by
  intro c h
  obtain ⟨k, -, rfl⟩ := List.mem_map.mp h
  exact hexDigit_plain _ (Nat.mod_lt _ (by decide))

theorem mappedObject_plain : ∀ c ∈ mappedObject, Plain c := by
  have hall : (mappedObject.all fun c => decide (Plain c)) = true := by decide +kernel
  intro c hc
  exact of_decide_eq_true (List.all_eq_true.mp hall c hc)

theorem mappedObject_length : mappedObject.length = 137 := by decide +kernel

theorem mapping_length (i : Nat) : (mapping i).length = 172 := by
  simp [mapping, hex, mappedObject_length]

theorem mapping_isLine (i : Nat) : ProcRead.IsLine (mapping i) := by
  have plain : ∀ c ∈ mapping i, Plain c := by
    intro c hc
    rcases List.mem_append.mp hc with hc | hc
    · exact hex_plain _ _ c hc
    rcases List.mem_cons.mp hc with rfl | hc
    · decide
    rcases List.mem_append.mp hc with hc | hc
    · exact hex_plain _ _ c hc
    rcases List.mem_append.mp hc with hc | hc
    · have hall : (" r--p ".toList.all fun c => decide (Plain c)) = true := by decide +kernel
      exact of_decide_eq_true (List.all_eq_true.mp hall c hc)
    rcases List.mem_append.mp hc with hc | hc
    · exact hex_plain _ _ c hc
    · exact mappedObject_plain c hc
  exact ⟨List.all_eq_true.mpr fun c hc => (plain c hc).1, fun h => (plain _ h).2.1 rfl,
    fun h => (plain _ h).2.2 rfl⟩

theorem length_mappings (n : Nat) : (mappings n).length = n := by simp [mappings]

theorem sum_mappings (n : Nat) : ((mappings n).map List.length).sum = n * 172 := by
  simp [mappings, Function.comp_def, mapping_length]

/-- What `process.proc_read` finds of a process with `n` mappings. -/
def mapsEnv (n : Nat) : ProcRead.Env where
  content := some (Utf8.encode (ProcRead.ended (mappings n)))
  privileged := .error (.new .permissionDenied "su 不可用")
  parseError _ := ""

/-- **The mappings of a process may be within the limits of `process.proc_read` and not fit into a
frame.** -/
theorem procRead_too_large {n : Nat} (hn : n ≤ 100000) (hbytes : n * 172 + n ≤ ProcRead.maxProcBytes)
    (hframe : maxFrameSize < n * 172) :
    ∃ v, ProcRead.procRead (mapsEnv n) mapsRequest.params = .ok v ∧
      ¬ Frame.Fits (respond mapsRequest (.completed (.ok v))) := by
  have hparams : ProcRead.Params.ofValue mapsRequest.params = some ⟨4321, .maps, some 100000⟩ := rfl
  have hcontent : (mapsEnv n).content = some (Utf8.encode (ProcRead.ended (mappings n))) := rfl
  have hlines : ∀ l ∈ mappings n, ProcRead.IsLine l := by
    intro l hl
    obtain ⟨i, -, rfl⟩ := List.mem_map.mp hl
    exact mapping_isLine i
  have hne : mappings n ≠ [] := by
    intro h
    have := length_mappings n
    rw [h] at this
    subst this
    simp at hframe
  obtain ⟨path, total, returned, truncated, hv⟩ :=
    ProcRead.procRead_maps hparams rfl (by decide) hcontent hlines hne
      (by rwa [length_mappings]) (by rwa [ProcRead.length_ended, sum_mappings, length_mappings])
  refine ⟨_, hv, fun hf => ?_⟩
  have hjoin := Text.le_length_join '\n' (mappings n)
  rw [sum_mappings] at hjoin
  have htext := Json.size_renderStr (String.ofList (Text.join '\n' (mappings n)))
  rw [String.toList_ofList] at htext
  obtain ⟨fields, hfields, hmem⟩ := ProcRead.resultValue_text path .maps
    ⟨total, returned, truncated, Text.join '\n' (mappings n)⟩ "shell"
  have hvalue := Json.size_field hmem
  have hresponse := Json.size_le_toVec mapsRequest.requestId (.object fields)
  rw [hfields] at hf
  have hlarge := hjoin.trans ((Utf8.length_le_encode _).trans
    (htext.trans (hvalue.trans (hresponse.trans hf))))
  exact absurd hframe (Nat.not_lt.mpr hlarge)

/-- **The mappings of a process with sixty thousand of them are read, and never answered.** -/
theorem mappings_unanswered :
    ∃ v, ProcRead.procRead (mapsEnv 60000) mapsRequest.params = .ok v ∧
      Serves (mapsExecution (.ok v)) ∧
      ((mapsExecution (.ok v)).state 6).received[1]? = some mapsRequest ∧
      ¬ ∃ N, ∀ m ≥ N, ((mapsExecution (.ok v)).state m).framesFor mapsRequest.requestId = 1 := by
  obtain ⟨v, hv, hf⟩ := procRead_too_large (n := 60000) (by decide) (by decide) (by decide)
  have he := mapsExecution_serves (.ok v)
  obtain ⟨c, hlast, -, hr, hh⟩ := mapsExecution_last (.ok v)
  refine ⟨v, hv, he, by rw [hlast 6 (Nat.le_refl 6), hr]; rfl, ?_⟩
  rintro ⟨N, hN⟩
  have hfin : ((mapsExecution (.ok v)).state 6).handlers[0]? =
      some ⟨mapsRequest, .finished (respond mapsRequest (.completed (.ok v))) false⟩ := by
    rw [hlast 6 (Nat.le_refl 6), hh, decide_eq_false hf]
    rfl
  have h₀ := frames_of_finished he hfin (max N 6) (le_max_right N 6)
  rw [hN (max N 6) (le_max_left N 6)] at h₀
  cases h₀

/-- A read with an empty result: its connection is served, so the hello has its frame and the
request comes to a response. -/
theorem emptyRead_answered :
    (∃ N, ∀ m ≥ N, ((mapsExecution (.ok .null)).state m).framesFor "desktop-1" = 1) ∧
      ∃ response, Produced mapsRequest response ∧
        ((∃ N, ∀ m ≥ N, ((mapsExecution (.ok .null)).state m).framesFor "desktop-2" = 1) ↔
          Frame.Fits response) := by
  obtain ⟨c, hlast, -, hr, -⟩ := mapsExecution_last (.ok .null)
  have hrec : ((mapsExecution (.ok .null)).state 6).received =
      [helloRequest "secret", mapsRequest] := by rw [hlast 6 (Nat.le_refl 6), hr]
  obtain ⟨hello, later⟩ := answered_iff_fits (mapsExecution_serves (.ok .null))
  obtain ⟨response, hp, -, hiff, -⟩ := later 6 0 mapsRequest (by rw [hrec]; rfl)
  exact ⟨hello 6 (helloRequest "secret") (by rw [hrec]; rfl), response, hp, hiff⟩

end RevBox.Server
