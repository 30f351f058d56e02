import RevBox.Desktop.AgentClient
import Mathlib.Data.List.Nodup

/-!
# Desktop — AgentClient runs

What holds of the multiplexer in every state it can reach, whatever the order of the moves.

* `completed_by_own_response`: a request that returns a remote result returns the payload of a
  received response with its own id, and no two requests are completed by one response.
* `disconnected_for_good`: once `terminal_error` is set the map stays empty, and a request begun
  later never reaches `transport.send`.
* `pending_in_flight`: a request in the map has not returned.

`multiplexer_safety` puts the three together.
-/

namespace RevBox.AgentClient

open Client

/-- A request that has registered and not yet returned. -/
def Phase.Live : Phase → Prop
  | registered | sending | waiting | dropping _ => True
  | allocated | returned .. => False

/-- A result that only a response can bring. -/
def Remote (r : Option Result) : Prop :=
  (∃ v, r = some (.ok v)) ∨ ∃ e, r = some (.error (.remote e))

namespace Task

/-- The request's channel carries the response `r`. -/
def Carries (t : Task) (r : Received) : Prop :=
  t.channel = .sending (.ok r) ∨ t.channel = .sent (.ok r)

/-- The request's channel carries the error `e`. -/
def Fails (t : Task) (e : AgentClientError) : Prop :=
  t.channel = .sending (.error e) ∨ t.channel = .sent (.error e)

/-- Response number `n` is on its way to the request, or has completed it. -/
def Uses (t : Task) (n : Nat) : Prop :=
  (∃ r, t.Carries r ∧ r.number = n) ∨ ∃ result, t.phase = .returned result (some n)

end Task

/-- What a request may have returned with. -/
def Answered (received : List ResponseEnvelope) (id : String) (result : Option Result) :
    Option Nat → Prop
  | some n => ∃ response, received[n]? = some response ∧ response.requestId = id ∧
      result = some (resultOf response.payload)
  | none => ¬ Remote result

/-- The invariant of the multiplexer. -/
structure Inv (s : Client) : Prop where
  keys : (s.pending.map Prod.fst).Nodup
  owned : ∀ id i, (id, i) ∈ s.pending → ∃ t, s.tasks i = some t ∧ t.request.requestId = id ∧
    t.phase.Live ∧ t.channel = .idle
  terminal : s.terminalError ≠ none → s.pending = []
  terminal_lost : ∀ e, s.terminalError = some e → ∃ reason, e = .transportLost reason
  fresh : ∀ i t, s.tasks i = some t → t.phase = .allocated → t.channel = .idle
  carried : ∀ i t r, s.tasks i = some t → t.Carries r →
    s.received[r.number]? = some r.response ∧ r.response.requestId = t.request.requestId
  lost : ∀ i t e, s.tasks i = some t → t.Fails e → ∃ reason, e = .transportLost reason
  dropping : ∀ i t r, s.tasks i = some t → t.phase = .dropping r → ¬ Remote r
  answered : ∀ i t r n, s.tasks i = some t → t.phase = .returned r n →
    Answered s.received t.request.requestId r n
  unique : ∀ i j t u n, s.tasks i = some t → s.tasks j = some u → t.Uses n → u.Uses n → i = j

variable {s s' : Client} {i j : Nat} {t t' u : Task} {n : Nat} {q : RequestEnvelope} {c : Bool}
  {ph ph' : Phase} {ch : Channel} {l : Label}

/-! ### Reading the tasks -/

@[simp] theorem set_tasks_same (s : Client) (i : Nat) (t : Task) :
    (s.set i t).tasks i = some t := Function.update_self ..

theorem set_tasks_ne (s : Client) (h : j ≠ i) (t : Task) : (s.set i t).tasks j = s.tasks j :=
  Function.update_of_ne h ..

/-- A task of the client with task `i` replaced. -/
theorem of_set_tasks (h : (s.set i t).tasks j = some u) :
    (j = i ∧ u = t) ∨ (j ≠ i ∧ s.tasks j = some u) := by
  by_cases hj : j = i
  · subst hj
    rw [set_tasks_same] at h
    exact .inl ⟨rfl, (Option.some.inj h).symm⟩
  · exact .inr ⟨hj, set_tasks_ne s hj t ▸ h⟩

/-- A task of the client whose senders have been taken. -/
theorem of_take_tasks {senders : List (String × Nat)} (h : (s.take senders ch).tasks i = some u) :
    ∃ t, s.tasks i = some t ∧ u.request = t.request ∧ u.phase = t.phase ∧
      (((t.request.requestId, i) ∈ senders ∧ u.channel = ch) ∨
        ((t.request.requestId, i) ∉ senders ∧ u = t)) := by
  obtain ⟨t, ht, hu⟩ := Option.map_eq_some_iff.mp h
  refine ⟨t, ht, ?_⟩
  by_cases hm : (t.request.requestId, i) ∈ senders
  · rw [if_pos hm] at hu
    subst hu
    exact ⟨rfl, rfl, .inl ⟨hm, rfl⟩⟩
  · rw [if_neg hm] at hu
    subst hu
    exact ⟨rfl, rfl, .inr ⟨hm, rfl⟩⟩

theorem take_tasks_of_not_mem {senders : List (String × Nat)} (ht : s.tasks i = some t)
    (hm : (t.request.requestId, i) ∉ senders) : (s.take senders ch).tasks i = some t := by
  simp [take, ht, hm]

theorem exists_take_tasks (senders : List (String × Nat)) (ch : Channel)
    (ht : s.tasks i = some t) : ∃ u, (s.take senders ch).tasks i = some u :=
  ⟨_, congrArg (Option.map _) ht⟩

/-- A number in use is the number of a response received. -/
theorem Inv.number_lt (h : Inv s) (ht : s.tasks i = some t) (hn : t.Uses n) :
    n < s.received.length := by
  rcases hn with ⟨r, hr, rfl⟩ | ⟨result, hr⟩
  · exact (List.getElem?_eq_some_iff.mp (h.carried i t r ht hr).1).1
  · obtain ⟨response, hres, -⟩ := h.answered i t result (some n) ht hr
    exact (List.getElem?_eq_some_iff.mp hres).1

/-- In the map an id has one sender. -/
theorem Inv.eq_of_pending (h : Inv s) {id : String} (hi : (id, i) ∈ s.pending)
    (hj : (id, j) ∈ s.pending) : i = j :=
  congrArg Prod.snd (List.inj_on_of_nodup_map h.keys hi hj rfl)

/-! ### Senders taken -/

/-- What a taken sender may be about to send: an error of the transport, or a response just
received, to the one request it is for. -/
def Deliverable (s : Client) (senders : List (String × Nat)) (received : List ResponseEnvelope) :
    Channel → Prop
  | .closed => True
  | .sending (.error e) => ∃ reason, e = .transportLost reason
  | .sending (.ok r) => received[r.number]? = some r.response ∧ s.received.length ≤ r.number ∧
      ∀ e ∈ senders, e.1 = r.response.requestId
  | _ => False

/-- **Taking senders out of the map.** -/
theorem Inv.take (h : Inv s) {senders : List (String × Nat)} (pending : List (String × Nat))
    {received : List ResponseEnvelope} {terminal : Option AgentClientError}
    (hsenders : ∀ e ∈ senders, e ∈ s.pending)
    (hpending : ∀ e ∈ pending, e ∈ s.pending ∧ e ∉ senders)
    (hkeys : (pending.map Prod.fst).Nodup)
    (hterminal : terminal ≠ none → pending = [])
    (hlost : ∀ e, terminal = some e → ∃ reason, e = .transportLost reason)
    (hreceived : ∀ (n : Nat) response, s.received[n]? = some response →
      received[n]? = some response)
    (hch : Deliverable s senders received ch) :
    Inv { s.take senders ch with
      pending := pending, received := received, terminalError := terminal } := by
  have hanswer : ∀ id r n, Answered s.received id r n → Answered received id r n := by
    intro id r n ha
    cases n with
    | none => exact ha
    | some n =>
        obtain ⟨response, hr, hid⟩ := ha
        exact ⟨response, hreceived n response hr, hid⟩
  -- a taken sender uses a number only if the response is new
  have huses : ∀ i u n, (s.take senders ch).tasks i = some u → u.Uses n →
      (∃ t, s.tasks i = some t ∧ t.Uses n) ∨
        (s.received.length ≤ n ∧ ∃ r, ch = .sending (.ok r) ∧ r.number = n ∧
          (u.request.requestId, i) ∈ senders) := by
    intro i u n hu hn
    obtain ⟨t, ht, hq, hp, ⟨hm, hc⟩ | ⟨-, rfl⟩⟩ := of_take_tasks hu
    · rcases hn with ⟨r, hr, rfl⟩ | ⟨result, hr⟩
      · rcases hr with hr | hr <;> rw [hc] at hr <;> rw [hr] at hch
        · exact .inr ⟨hch.2.1, r, hr, rfl, hq ▸ hm⟩
        · exact hch.elim
      · exact .inl ⟨t, ht, .inr ⟨result, hp ▸ hr⟩⟩
    · exact .inl ⟨u, ht, hn⟩
  refine ⟨hkeys, fun id i hm => ?_, hterminal, hlost, fun i u hu hp => ?_, fun i u r hu hr => ?_,
    fun i u e hu he => ?_, fun i u r hu hr => ?_, fun i u r n hu hr => ?_,
    fun i j u v n hu hv hn hn' => ?_⟩
  · obtain ⟨hm, hns⟩ := hpending _ hm
    obtain ⟨t, ht, rfl, hl, hidle⟩ := h.owned id i hm
    exact ⟨t, take_tasks_of_not_mem ht hns, rfl, hl, hidle⟩
  · obtain ⟨t, ht, hq, hp', ⟨hm, hc⟩ | ⟨-, rfl⟩⟩ := of_take_tasks hu
    · -- a sender in the map belongs to a registered request
      obtain ⟨t', ht', -, hl, -⟩ := h.owned _ _ (hsenders _ hm)
      obtain rfl : t' = t := Option.some.inj (ht'.symm.trans ht)
      rw [← hp', hp] at hl
      exact hl.elim
    · exact h.fresh i u ht hp
  · obtain ⟨t, ht, hq, hp', ⟨hm, hc⟩ | ⟨-, rfl⟩⟩ := of_take_tasks hu
    · rcases hr with hr | hr <;> rw [hc] at hr <;> rw [hr] at hch
      · exact ⟨hch.1, by rw [hq]; exact (hch.2.2 _ hm).symm⟩
      · exact hch.elim
    · obtain ⟨h₁, h₂⟩ := h.carried i u r ht hr
      exact ⟨hreceived _ _ h₁, h₂⟩
  · obtain ⟨t, ht, hq, hp', ⟨hm, hc⟩ | ⟨-, rfl⟩⟩ := of_take_tasks hu
    · rcases he with he | he <;> rw [hc] at he <;> rw [he] at hch
      · exact hch
      · exact hch.elim
    · exact h.lost i u e ht he
  · obtain ⟨t, ht, hq, hp', -⟩ := of_take_tasks hu
    exact h.dropping i t r ht (hp' ▸ hr)
  · obtain ⟨t, ht, hq, hp', -⟩ := of_take_tasks hu
    rw [hq]
    exact hanswer _ _ _ (h.answered i t r n ht (hp' ▸ hr))
  · rcases huses i u n hu hn with ⟨t, ht, hn⟩ | ⟨hle, r, hr, hrn, hm⟩ <;>
      rcases huses j v n hv hn' with ⟨t', ht', hn'⟩ | ⟨hle', r', hr', hrn', hm'⟩
    · exact h.unique i j t t' n ht ht' hn hn'
    · exact absurd (h.number_lt ht hn) (Nat.not_lt.mpr hle')
    · exact absurd (h.number_lt ht' hn') (Nat.not_lt.mpr hle)
    · rw [hr] at hch
      have hid : u.request.requestId = v.request.requestId :=
        (hch.2.2 _ hm).trans (hch.2.2 _ hm').symm
      exact h.eq_of_pending (hsenders _ hm) (hid ▸ hsenders _ hm')

/-! ### Phases -/

theorem setPhase_tasks (s : Client) (i : Nat) (ph : Phase) : (s.setPhase i ph).tasks =
    Function.update s.tasks i ((s.tasks i).map fun t => { t with phase := ph }) := rfl

theorem of_setPhase_tasks (h : (s.setPhase i ph).tasks j = some u) :
    (j = i ∧ ∃ t, s.tasks i = some t ∧ u = { t with phase := ph }) ∨
      (j ≠ i ∧ s.tasks j = some u) := by
  by_cases hj : j = i
  · subst hj
    rw [setPhase_tasks, Function.update_self] at h
    obtain ⟨t, ht, hu⟩ := Option.map_eq_some_iff.mp h
    exact .inl ⟨rfl, t, ht, hu.symm⟩
  · rw [setPhase_tasks, Function.update_of_ne hj] at h
    exact .inr ⟨hj, h⟩

theorem setPhase_tasks_same (ht : s.tasks i = some t) :
    (s.setPhase i ph).tasks i = some { t with phase := ph } := by
  simp [setPhase, ht]

theorem setPhase_tasks_ne (h : j ≠ i) : (s.setPhase i ph).tasks j = s.tasks j :=
  Function.update_of_ne h ..

/-- **Moving a request to another phase.** -/
theorem Inv.setPhase (h : Inv s) (ph : Phase) (ht : s.tasks i = some t)
    (hlive : ph.Live ∨ ∀ id, (id, i) ∉ s.pending) (hfresh : ph ≠ .allocated)
    (hdrop : ∀ r, ph = .dropping r → ¬ Remote r)
    (hret : ∀ r n, ph = .returned r n → Answered s.received t.request.requestId r n ∧
      ∀ k, n = some k → t.Uses k) : Inv (s.setPhase i ph) := by
  have huses : ∀ j u n, (s.setPhase i ph).tasks j = some u → u.Uses n →
      ∃ t, s.tasks j = some t ∧ t.Uses n := by
    intro j u n hu hn
    rcases of_setPhase_tasks hu with ⟨rfl, t', ht', rfl⟩ | ⟨-, hu⟩
    · refine ⟨t', ht', ?_⟩
      rcases hn with hn | ⟨result, hr⟩
      · exact .inl hn
      · obtain rfl : t' = t := Option.some.inj (ht'.symm.trans ht)
        exact (hret _ _ hr).2 _ rfl
    · exact ⟨u, hu, hn⟩
  refine ⟨h.keys, fun id j hm => ?_, h.terminal, h.terminal_lost, fun j u hu hp => ?_,
    fun j u r hu hr => ?_, fun j u e hu he => ?_, fun j u r hu hr => ?_, fun j u r n hu hr => ?_,
    fun j j' u v n hu hv hn hn' => ?_⟩
  · obtain ⟨t', ht', hid, hl, hc⟩ := h.owned id j hm
    by_cases hj : j = i
    · subst hj
      refine ⟨_, setPhase_tasks_same ht', hid, ?_, hc⟩
      exact hlive.resolve_right fun hn => hn id hm
    · exact ⟨t', (setPhase_tasks_ne hj).trans ht', hid, hl, hc⟩
  · rcases of_setPhase_tasks hu with ⟨-, t', -, rfl⟩ | ⟨-, hu⟩
    · exact absurd hp hfresh
    · exact h.fresh j u hu hp
  · rcases of_setPhase_tasks hu with ⟨rfl, t', ht', rfl⟩ | ⟨-, hu⟩
    · exact h.carried j t' r ht' hr
    · exact h.carried j u r hu hr
  · rcases of_setPhase_tasks hu with ⟨rfl, t', ht', rfl⟩ | ⟨-, hu⟩
    · exact h.lost j t' e ht' he
    · exact h.lost j u e hu he
  · rcases of_setPhase_tasks hu with ⟨-, t', -, rfl⟩ | ⟨-, hu⟩
    · exact hdrop r hr
    · exact h.dropping j u r hu hr
  · rcases of_setPhase_tasks hu with ⟨rfl, t', ht', rfl⟩ | ⟨-, hu⟩
    · obtain rfl : t' = t := Option.some.inj (ht'.symm.trans ht)
      exact (hret r n hr).1
    · exact h.answered j u r n hu hr
  · obtain ⟨t', ht', hn⟩ := huses j u n hu hn
    obtain ⟨t'', ht'', hn'⟩ := huses j' v n hv hn'
    exact h.unique j j' t' t'' n ht' ht'' hn hn'

/-! ### The other moves -/

/-- The counter, the reader and the log of sends do not matter. -/
theorem Inv.frame (h : Inv s) (next : Nat) (reader : Bool) (sends : List (Nat × RequestEnvelope)) :
    Inv { s with nextRequestId := next, reader := reader, sends := sends } :=
  ⟨h.keys, h.owned, h.terminal, h.terminal_lost, h.fresh, h.carried, h.lost, h.dropping,
    h.answered, h.unique⟩

/-- A new request, allocated or refused. -/
theorem Inv.begin (h : Inv s) (hi : s.tasks i = none) (hidle : t.channel = .idle)
    (hp : t.phase = .allocated ∨ ∃ r, ¬ Remote r ∧ t.phase = .returned r none) :
    Inv (s.set i t) := by
  have hnone : ∀ {u : Task} {n : Nat}, u = t → ¬ u.Uses n := by
    rintro u n rfl (⟨r, hr | hr, -⟩ | ⟨result, hr⟩)
    · rw [hidle] at hr; cases hr
    · rw [hidle] at hr; cases hr
    · rcases hp with hp | ⟨r, -, hp⟩ <;> rw [hp] at hr <;> cases hr
  refine ⟨h.keys, fun id j hm => ?_, h.terminal, h.terminal_lost, fun j u hu hp' => ?_,
    fun j u r hu hr => ?_, fun j u e hu he => ?_, fun j u r hu hr => ?_, fun j u r n hu hr => ?_,
    fun j j' u v n hu hv hn hn' => ?_⟩
  · obtain ⟨t', ht', hid⟩ := h.owned id j hm
    have hj : j ≠ i := by rintro rfl; rw [hi] at ht'; cases ht'
    exact ⟨t', (set_tasks_ne s hj t).trans ht', hid⟩
  · rcases of_set_tasks hu with ⟨-, rfl⟩ | ⟨-, hu⟩
    · exact hidle
    · exact h.fresh j u hu hp'
  · rcases of_set_tasks hu with ⟨-, rfl⟩ | ⟨-, hu⟩
    · rcases hr with hr | hr <;> · rw [hidle] at hr; cases hr
    · exact h.carried j u r hu hr
  · rcases of_set_tasks hu with ⟨-, rfl⟩ | ⟨-, hu⟩
    · rcases he with he | he <;> · rw [hidle] at he; cases he
    · exact h.lost j u e hu he
  · rcases of_set_tasks hu with ⟨-, rfl⟩ | ⟨-, hu⟩
    · rcases hp with hp | ⟨r', -, hp⟩ <;> rw [hp] at hr <;> cases hr
    · exact h.dropping j u r hu hr
  · rcases of_set_tasks hu with ⟨-, rfl⟩ | ⟨-, hu⟩
    · rcases hp with hp | ⟨r', hr', hp⟩ <;> rw [hp] at hr <;> cases hr
      exact hr'
    · exact h.answered j u r n hu hr
  · rcases of_set_tasks hu with ⟨-, rfl⟩ | ⟨-, hu⟩
    · exact absurd hn (hnone rfl)
    · rcases of_set_tasks hv with ⟨-, rfl⟩ | ⟨-, hv⟩
      · exact absurd hn' (hnone rfl)
      · exact h.unique j j' u v n hu hv hn hn'

/-- A taken sender sends. -/
theorem Inv.deliver {r : PendingResult} (h : Inv s) (hi : s.tasks i = some ⟨q, c, ph, .sending r⟩) :
    Inv (s.set i ⟨q, c, ph, .sent r⟩) := by
  have huses : ∀ j u n, (s.set i ⟨q, c, ph, .sent r⟩).tasks j = some u → u.Uses n →
      ∃ t, s.tasks j = some t ∧ t.Uses n := by
    intro j u n hu hn
    rcases of_set_tasks hu with ⟨rfl, rfl⟩ | ⟨-, hu⟩
    · refine ⟨_, hi, ?_⟩
      rcases hn with ⟨r', hr | hr, hn⟩ | hn
      · cases hr
      · cases hr; exact .inl ⟨r', .inl rfl, hn⟩
      · exact .inr hn
    · exact ⟨u, hu, hn⟩
  refine ⟨h.keys, fun id j hm => ?_, h.terminal, h.terminal_lost, fun j u hu hp => ?_,
    fun j u r hu hr => ?_, fun j u e hu he => ?_, fun j u r hu hr => ?_, fun j u r n hu hr => ?_,
    fun j j' u v n hu hv hn hn' => ?_⟩
  · obtain ⟨t, ht, hid, hl, hidle⟩ := h.owned id j hm
    have hj : j ≠ i := by rintro rfl; rw [hi] at ht; cases ht; cases hidle
    exact ⟨t, (set_tasks_ne s hj _).trans ht, hid, hl, hidle⟩
  · rcases of_set_tasks hu with ⟨rfl, rfl⟩ | ⟨-, hu⟩
    · cases h.fresh _ _ hi hp
    · exact h.fresh j u hu hp
  · rcases of_set_tasks hu with ⟨rfl, rfl⟩ | ⟨-, hu⟩
    · rcases hr with hr | hr <;> cases hr
      exact h.carried _ ⟨q, c, ph, .sending _⟩ _ hi (.inl rfl)
    · exact h.carried j u r hu hr
  · rcases of_set_tasks hu with ⟨rfl, rfl⟩ | ⟨-, hu⟩
    · rcases he with he | he <;> cases he
      exact h.lost _ ⟨q, c, ph, .sending _⟩ _ hi (.inl rfl)
    · exact h.lost j u e hu he
  · rcases of_set_tasks hu with ⟨rfl, rfl⟩ | ⟨-, hu⟩
    · exact h.dropping _ _ r hi hr
    · exact h.dropping j u r hu hr
  · rcases of_set_tasks hu with ⟨rfl, rfl⟩ | ⟨-, hu⟩
    · exact h.answered _ ⟨q, c, ph, .sending _⟩ _ n hi hr
    · exact h.answered j u r n hu hr
  · obtain ⟨t', ht', hn⟩ := huses j u n hu hn
    obtain ⟨t'', ht'', hn'⟩ := huses j' v n hv hn'
    exact h.unique j j' t' t'' n ht' ht'' hn hn'

/-- A registered request's sender goes into the map. -/
theorem Inv.insert (h : Inv s) (ht : s.tasks i = some t) (hl : t.phase.Live)
    (hidle : t.channel = .idle) (hno : s.terminalError = none)
    (hkey : t.request.requestId ∉ s.pending.map Prod.fst) :
    Inv { s with pending := (t.request.requestId, i) :: s.pending } :=
  ⟨List.nodup_cons.mpr ⟨hkey, h.keys⟩,
    fun id j hm => by
      rcases List.mem_cons.mp hm with hm | hm
      · cases hm
        exact ⟨t, ht, rfl, hl, hidle⟩
      · exact h.owned id j hm,
    fun hne => absurd hno hne, h.terminal_lost, h.fresh, h.carried, h.lost, h.dropping,
    h.answered, h.unique⟩

/-- `fail_all`. -/
theorem Inv.failAll (h : Inv s) (reason : String) : Inv (s.failAll (.transportLost reason)) :=
  h.take [] (fun e he => he) (by simp) List.nodup_nil
    (fun _ => rfl) (fun e he => ⟨reason, (Option.some.inj he).symm⟩) (fun _ _ hr => hr)
    ⟨reason, rfl⟩

/-- The entries of an id, and the others. -/
theorem Inv.removeKey (h : Inv s) (id : String) (ch : Channel)
    {received : List ResponseEnvelope}
    (hreceived : ∀ (n : Nat) response, s.received[n]? = some response →
      received[n]? = some response)
    (hch : Deliverable s (s.pending.filter fun e => decide (e.1 = id)) received ch) :
    Inv { s.take (s.pending.filter fun e => decide (e.1 = id)) ch with
      pending := s.pending.filter fun e => decide (e.1 ≠ id), received := received } := by
  refine h.take _ (fun e he => List.mem_of_mem_filter he) (fun e he => ?_)
    (h.keys.sublist (List.filter_sublist.map _)) (fun hne => ?_) h.terminal_lost hreceived hch
  · obtain ⟨hm, hne⟩ := List.mem_filter.mp he
    exact ⟨hm, fun hm' => of_decide_eq_true hne (of_decide_eq_true (List.mem_filter.mp hm').2)⟩
  · rw [h.terminal hne]
    rfl

/-! ### Runs -/

theorem not_remote_error {e : AgentClientError} (h : ∀ a, e ≠ .remote a) :
    ¬ Remote (some (.error e)) := by
  rintro (⟨v, hv⟩ | ⟨a, ha⟩)
  · cases hv
  · cases ha
    exact h a rfl

theorem not_remote_lost (reason : String) :
    ¬ Remote (some (.error (.transportLost reason))) := not_remote_error (by simp)

theorem not_remote_none : ¬ Remote none := by
  rintro (⟨v, h⟩ | ⟨e, h⟩) <;> cases h

/-- A request that returns what it was dropping with, its guard having emptied its place. -/
theorem Inv.guardDrop {result : Option Result} (h : Inv s)
    (hi : s.tasks i = some ⟨q, c, .dropping result, ch⟩) :
    Inv (((s.take (s.pending.filter fun e => decide (e.1 = q.requestId)) .closed).removePending
      q.requestId).setPhase i (.returned result none)) := by
  have hr := h.dropping _ _ result hi rfl
  have h₁ := h.removeKey q.requestId .closed (fun _ _ hr => hr) trivial
  obtain ⟨t, ht⟩ := exists_take_tasks (s.pending.filter fun e => decide (e.1 = q.requestId))
    .closed hi
  refine h₁.setPhase _ ht (.inr fun id hm => ?_) (by simp) (by simp) fun r n hrn => ?_
  · obtain ⟨hm, hne⟩ := List.mem_filter.mp hm
    obtain ⟨t', ht', hid, -⟩ := h.owned id i hm
    obtain rfl := Option.some.inj (ht'.symm.trans hi)
    exact of_decide_eq_true hne hid.symm
  · cases hrn
    exact ⟨hr, by simp⟩

/-- A request that registers. -/
theorem Inv.register (h : Inv s) (hi : s.tasks i = some ⟨q, c, .allocated, ch⟩)
    (hno : s.terminalError = none) :
    Inv ((s.insertPending q.requestId i).setPhase i .registered) := by
  have hidle : ch = .idle := h.fresh i _ hi rfl
  subst hidle
  have h₁ := h.removeKey q.requestId .closed (fun _ _ hr => hr) trivial
  have ht : (s.take (s.pending.filter fun e => decide (e.1 = q.requestId)) .closed).tasks i =
      some ⟨q, c, .allocated, .idle⟩ := by
    refine take_tasks_of_not_mem hi fun hm => ?_
    obtain ⟨t, ht, -, hl, -⟩ := h.owned _ _ (List.mem_of_mem_filter hm)
    obtain rfl := Option.some.inj (ht.symm.trans hi)
    exact hl
  have h₂ := h₁.setPhase .registered ht (.inl trivial) (by simp) (by simp) (by simp)
  refine h₂.insert (t := ⟨q, c, .registered, .idle⟩) (setPhase_tasks_same ht) trivial rfl hno ?_
  intro hm
  obtain ⟨e, he, heq⟩ := List.mem_map.mp hm
  exact of_decide_eq_true (List.mem_filter.mp he).2 heq

/-- A response received. -/
theorem Inv.receive (h : Inv s) (response : ResponseEnvelope) :
    Inv { (s.take (s.pending.filter fun e => decide (e.1 = response.requestId))
      (.sending (.ok ⟨s.received.length, response⟩))).removePending response.requestId with
        received := s.received ++ [response] } := by
  refine h.removeKey response.requestId _ (fun n r hr => ?_)
    ⟨by simp, Nat.le_refl _, fun e he => of_decide_eq_true (List.mem_filter.mp he).2⟩
  rw [List.getElem?_append_left (List.getElem?_eq_some_iff.mp hr).1]
  exact hr

/-- **Every move keeps the invariant.** -/
theorem Inv.step (h : Inv s) (hs : s.step l = some s') : Inv s' := by
  cases l with
  | begin i call =>
      simp only [Client.step] at hs
      split at hs
      · cases hs
      · split at hs <;> cases hs
        · exact h.begin ‹_› rfl (.inr ⟨_, not_remote_error (by simp), rfl⟩)
        · exact (h.begin ‹_› rfl (.inl rfl)).frame _ _ _
  | register i =>
      simp only [Client.step] at hs
      split at hs
      · rename_i q c ch hi
        split at hs <;> cases hs
        · rename_i error herror
          obtain ⟨reason, rfl⟩ := h.terminal_lost _ herror
          refine h.setPhase _ hi (.inr ?_) (by simp) (by simp) fun r n hrn => ?_
          · rw [h.terminal (by simp [herror])]
            simp
          · cases hrn
            exact ⟨not_remote_lost reason, by simp⟩
        · exact h.register hi ‹_›
      · cases hs
  | send i =>
      simp only [Client.step] at hs
      split at hs
      · rename_i hi
        cases hs
        exact (h.setPhase .sending hi (.inl trivial) (by simp) (by simp) (by simp)).frame _ _ _
      · cases hs
  | sendOk i =>
      simp only [Client.step] at hs
      split at hs
      · rename_i hi
        cases hs
        exact h.setPhase _ hi (.inl trivial) (by simp) (by simp) (by simp)
      · cases hs
  | sendFailed i reason =>
      simp only [Client.step] at hs
      split at hs
      · rename_i hi
        cases hs
        obtain ⟨t, ht⟩ := exists_take_tasks s.pending
          (.sending (.error (.transportLost reason))) hi
        refine (h.failAll reason).setPhase _ ht (.inl trivial) (by simp) (fun r hr => ?_) (by simp)
        cases hr
        exact not_remote_lost reason
      · cases hs
  | receive response =>
      simp only [Client.step] at hs
      split at hs
      · cases hs
        exact h.receive response
      · cases hs
  | receiveFailed reason =>
      simp only [Client.step] at hs
      split at hs
      · cases hs
        exact (h.failAll reason).frame _ _ _
      · cases hs
  | deliver i =>
      simp only [Client.step] at hs
      split at hs
      · rename_i hi
        cases hs
        exact h.deliver hi
      · cases hs
  | wake i =>
      simp only [Client.step] at hs
      split at hs
      · rename_i q c r hi
        cases hs
        have hcarry : (⟨q, c, .waiting, .sent (.ok r)⟩ : Task).Carries r := .inr rfl
        obtain ⟨hr, hid⟩ := h.carried _ _ r hi hcarry
        refine h.setPhase _ hi (.inr fun id hm => ?_) (by simp) (by simp) fun r' n hrn => ?_
        · obtain ⟨t, ht, -, -, hidle⟩ := h.owned id i hm
          obtain rfl := Option.some.inj (ht.symm.trans hi)
          cases hidle
        · cases hrn
          exact ⟨⟨_, hr, hid, rfl⟩, fun k hk => by cases hk; exact .inl ⟨r, hcarry, rfl⟩⟩
      · rename_i q c error hi
        cases hs
        obtain ⟨reason, rfl⟩ := h.lost _ _ error hi (.inr rfl)
        refine h.setPhase _ hi (.inl trivial) (by simp) (fun r hr => ?_) (by simp)
        cases hr
        exact not_remote_lost reason
      · rename_i hi
        cases hs
        refine h.setPhase _ hi (.inl trivial) (by simp) (fun r hr => ?_) (by simp)
        cases hr
        exact not_remote_lost _
      · cases hs
  | deadline i | cancel i =>
      simp only [Client.step] at hs
      split at hs
      · rename_i hi
        cases hs
        refine h.setPhase _ hi (.inl trivial) (by simp) (fun r hr => ?_) (by simp)
        cases hr
        exact not_remote_error (by simp)
      · cases hs
  | abandon i =>
      simp only [Client.step] at hs
      split at hs
      · rename_i hi
        cases hs
        refine h.setPhase _ hi (.inl trivial) (by simp) (fun r hr => ?_) (by simp)
        cases hr
        exact not_remote_none
      · rename_i hi
        cases hs
        refine h.setPhase _ hi (.inl trivial) (by simp) (fun r hr => ?_) (by simp)
        cases hr
        exact not_remote_none
      · cases hs
  | guardDrop i =>
      simp only [Client.step] at hs
      split at hs
      · rename_i hi
        cases hs
        exact h.guardDrop hi
      · cases hs
  | disconnect reason =>
      cases hs
      exact h.failAll reason
  | abortReader =>
      cases hs
      exact h.frame _ _ _

theorem inv_new : Inv Client.new := by
  refine ⟨List.nodup_nil, ?_, fun _ => rfl, ?_, ?_, ?_, ?_, ?_, ?_, ?_⟩ <;> simp [Client.new]

theorem inv_of_reach (h : client.Reach s) : Inv s :=
  h.invariant (fun s (hs : s = Client.new) => hs ▸ inv_new) fun _ _ _ hi hs => hi.step hs

/-! ### What a request does after the connection is lost -/

/-- What one move can do to a request: only a request that is new or has returned is not live,
and none becomes live once `terminal_error` is set. -/
inductive Goes (s : Client) : Option Task → Option Task → Prop where
  | stays (o : Option Task) : Goes s o o
  | begins (t : Task) (h : ¬ t.phase.Live) : Goes s none (some t)
  | moves (t t' : Task) (h : t'.phase.Live → t.phase.Live ∨ s.terminalError = none) :
      Goes s (some t) (some t')

theorem goes_take (senders : List (String × Nat)) (ch : Channel) (j : Nat) :
    Goes s (s.tasks j) ((s.take senders ch).tasks j) := by
  cases ht : s.tasks j with
  | none =>
      rw [show (s.take senders ch).tasks j = none by simp [Client.take, ht]]
      exact .stays none
  | some t =>
      obtain ⟨u, hu⟩ := exists_take_tasks senders ch ht
      obtain ⟨t', ht', -, hp, -⟩ := of_take_tasks hu
      obtain rfl := Option.some.inj (ht'.symm.trans ht)
      exact hu ▸ .moves _ _ fun hl => .inl (hp ▸ hl)

theorem goes_set (hi : s.tasks i = some t) (h : t'.phase.Live → t.phase.Live) (j : Nat) :
    Goes s (s.tasks j) ((s.set i t').tasks j) := by
  by_cases hj : j = i
  · subst hj
    rw [hi, set_tasks_same]
    exact .moves _ _ fun hl => .inl (h hl)
  · rw [set_tasks_ne s hj]
    exact .stays _

theorem goes_setPhase {s₁ : Client} (hg : ∀ j, Goes s (s.tasks j) (s₁.tasks j))
    (hi : s.tasks i = some t) (h : ph.Live → t.phase.Live ∨ s.terminalError = none) (j : Nat) :
    Goes s (s.tasks j) ((s₁.setPhase i ph).tasks j) := by
  by_cases hj : j = i
  · subst hj
    have hg := hg j
    cases hu : s₁.tasks j with
    | none => rw [hi, hu] at hg; cases hg
    | some u =>
        rw [hi, setPhase_tasks_same hu]
        exact .moves _ _ h
  · rw [setPhase_tasks_ne hj]
    exact hg j

/-- **What a move does to each request, to `terminal_error` and to the sends.** -/
theorem step_goes (hs : s.step l = some s') :
    (∀ j, Goes s (s.tasks j) (s'.tasks j)) ∧
      (s.terminalError ≠ none → s'.terminalError ≠ none) ∧
      ∀ i q, (i, q) ∈ s'.sends → (i, q) ∈ s.sends ∨ ∃ t, s.tasks i = some t ∧ t.phase.Live := by
  have hstay : ∀ j, Goes s (s.tasks j) (s.tasks j) := fun j => .stays _
  cases l with
  | begin i call =>
      simp only [Client.step] at hs
      split at hs
      · cases hs
      · rename_i hi
        have hgo : ∀ t : Task, ¬ t.phase.Live → ∀ j, Goes s (s.tasks j) ((s.set i t).tasks j) := by
          intro t hn j
          by_cases hj : j = i
          · subst hj
            rw [hi, set_tasks_same]
            exact .begins t hn
          · rw [set_tasks_ne s hj]
            exact .stays _
        split at hs <;> cases hs
        · exact ⟨hgo _ id, id, fun _ _ => .inl⟩
        · exact ⟨hgo _ id, id, fun _ _ => .inl⟩
  | register i =>
      simp only [Client.step] at hs
      split at hs
      · rename_i hi
        split at hs <;> cases hs
        · exact ⟨goes_setPhase hstay hi False.elim, id, fun _ _ => .inl⟩
        · rename_i hno
          exact ⟨goes_setPhase (fun j => goes_take _ _ j) hi fun _ => .inr hno, id, fun _ _ => .inl⟩
      · cases hs
  | send i =>
      simp only [Client.step] at hs
      split at hs
      · rename_i q c ch hi
        cases hs
        refine ⟨goes_setPhase hstay hi fun _ => .inl trivial, id, fun j q' hm => ?_⟩
        rcases List.mem_append.mp hm with hm | hm
        · exact .inl hm
        · cases List.mem_singleton.mp hm
          exact .inr ⟨_, hi, trivial⟩
      · cases hs
  | sendOk i | deadline i | cancel i =>
      simp only [Client.step] at hs
      split at hs
      · rename_i hi
        cases hs
        exact ⟨goes_setPhase hstay hi fun _ => .inl trivial, id, fun _ _ => .inl⟩
      · cases hs
  | sendFailed i reason =>
      simp only [Client.step] at hs
      split at hs
      · rename_i hi
        cases hs
        exact ⟨goes_setPhase (fun j => goes_take _ _ j) hi fun _ => .inl trivial, nofun,
          fun _ _ => .inl⟩
      · cases hs
  | receive response =>
      simp only [Client.step] at hs
      split at hs
      · cases hs
        exact ⟨fun j => goes_take _ _ j, id, fun _ _ => .inl⟩
      · cases hs
  | receiveFailed reason =>
      simp only [Client.step] at hs
      split at hs
      · cases hs
        exact ⟨fun j => goes_take _ _ j, nofun, fun _ _ => .inl⟩
      · cases hs
  | deliver i =>
      simp only [Client.step] at hs
      split at hs
      · rename_i hi
        cases hs
        exact ⟨goes_set hi id, id, fun _ _ => .inl⟩
      · cases hs
  | wake i =>
      simp only [Client.step] at hs
      split at hs
      · rename_i hi
        cases hs
        exact ⟨goes_setPhase hstay hi False.elim, id, fun _ _ => .inl⟩
      · rename_i hi
        cases hs
        exact ⟨goes_setPhase hstay hi fun _ => .inl trivial, id, fun _ _ => .inl⟩
      · rename_i hi
        cases hs
        exact ⟨goes_setPhase hstay hi fun _ => .inl trivial, id, fun _ _ => .inl⟩
      · cases hs
  | abandon i =>
      simp only [Client.step] at hs
      split at hs
      · rename_i hi
        cases hs
        exact ⟨goes_setPhase hstay hi fun _ => .inl trivial, id, fun _ _ => .inl⟩
      · rename_i hi
        cases hs
        exact ⟨goes_setPhase hstay hi fun _ => .inl trivial, id, fun _ _ => .inl⟩
      · cases hs
  | guardDrop i =>
      simp only [Client.step] at hs
      split at hs
      · rename_i hi
        cases hs
        exact ⟨goes_setPhase (fun j => goes_take _ _ j) hi False.elim, id, fun _ _ => .inl⟩
      · cases hs
  | disconnect reason =>
      cases hs
      exact ⟨fun j => goes_take _ _ j, nofun, fun _ _ => .inl⟩
  | abortReader =>
      cases hs
      exact ⟨hstay, id, fun _ _ => .inl⟩

/-- Only requests that have begun have been handed to the transport. -/
theorem sends_begun (h : client.Reach s) : ∀ i q, (i, q) ∈ s.sends → s.tasks i ≠ none := by
  refine h.invariant (I := fun s => ∀ i q, (i, q) ∈ s.sends → s.tasks i ≠ none)
    (fun s (hs : s = Client.new) => ?_) fun s l s' hi hs i q hm hn => ?_
  · subst hs
    exact fun i q hm => by cases hm
  · obtain ⟨hgo, -, hsends⟩ := step_goes hs
    have hgo := hgo i
    rw [hn] at hgo
    have hnone : s.tasks i = none := by
      cases ht : s.tasks i with
      | none => rfl
      | some t => rw [ht] at hgo; cases hgo
    rcases hsends i q hm with hm | ⟨t, ht, -⟩
    · exact hi i q hm hnone
    · rw [hnone] at ht; cases ht

/-- What holds once the connection was lost, in `s₀`. -/
structure Shut (s₀ s : Client) : Prop where
  lost : s.terminalError ≠ none
  idle : ∀ i t, s₀.tasks i = none → s.tasks i = some t → ¬ t.phase.Live
  unsent : ∀ i q, s₀.tasks i = none → (i, q) ∉ s.sends

theorem Shut.step {s₀ : Client} (h : Shut s₀ s) (hs : s.step l = some s') : Shut s₀ s' := by
  obtain ⟨hgo, hlost, hsends⟩ := step_goes hs
  refine ⟨hlost h.lost, fun i t hi ht hl => ?_, fun i q hi hm => ?_⟩
  · have hgo := hgo i
    rw [ht] at hgo
    cases hb : s.tasks i with
    | none => rw [hb] at hgo; cases hgo with | begins _ hn => exact hn hl
    | some u =>
        rw [hb] at hgo
        cases hgo with
        | stays => exact h.idle i t hi hb hl
        | moves _ _ hm => exact (hm hl).elim (h.idle i u hi hb) h.lost
  · rcases hsends i q hm with hm | ⟨t, ht, hl⟩
    · exact h.unsent i q hi hm
    · exact h.idle i t hi ht hl

/-! ### The three guarantees -/

/-- **A remote result is the payload of a response with the request's own id.** -/
theorem completed_by_own_response (h : client.Reach s) {r : Result} {k : Option Nat}
    (ht : s.tasks i = some t) (hp : t.phase = .returned (some r) k) (hr : Remote (some r)) :
    ∃ n response, k = some n ∧ s.received[n]? = some response ∧
      response.requestId = t.request.requestId ∧ r = resultOf response.payload := by
  have ha := (inv_of_reach h).answered i t (some r) k ht hp
  cases k with
  | none => exact absurd hr ha
  | some n =>
      obtain ⟨response, hres, hid, heq⟩ := ha
      exact ⟨n, response, rfl, hres, hid, Option.some.inj heq⟩

/-- **A response completes at most one request.** -/
theorem completed_once (h : client.Reach s) {r r' : Option Result}
    (ht : s.tasks i = some t) (hp : t.phase = .returned r (some n))
    (hu : s.tasks j = some u) (hp' : u.phase = .returned r' (some n)) : i = j :=
  (inv_of_reach h).unique i j t u n ht hu (.inr ⟨r, hp⟩) (.inr ⟨r', hp'⟩)

/-- **Once `terminal_error` is set the client is shut**: the map stays empty, and no request begun
later reaches `transport.send`. -/
theorem disconnected_for_good (h : client.Reach s) (hlost : s.terminalError ≠ none)
    {ls : List Label} (hr : client.Run Machine.Any s ls s') :
    s'.pending = [] ∧ ∀ i q, s.tasks i = none → (i, q) ∉ s'.sends := by
  have hshut : Shut s s' := hr.invariant (fun _ _ _ hi _ hs => hi.step hs)
    ⟨hlost, fun i t hi ht => (by rw [hi] at ht; cases ht),
      fun i q hi hm => sends_begun h i q hm hi⟩
  exact ⟨(inv_of_reach (h.run hr)).terminal hshut.lost, hshut.unsent⟩

/-- **A request in the map has not returned.** -/
theorem pending_in_flight (h : client.Reach s) {id : String} (hm : (id, i) ∈ s.pending) :
    ∃ t, s.tasks i = some t ∧ t.request.requestId = id ∧ ∀ r k, t.phase ≠ .returned r k := by
  obtain ⟨t, ht, hid, hl, -⟩ := (inv_of_reach h).owned id i hm
  exact ⟨t, ht, hid, fun r k hp => by rw [hp] at hl; exact hl⟩

/-- **The request multiplexer is safe**, in every reachable state and for every order of the
moves that follow. -/
theorem multiplexer_safety {s : Client} (h : client.Reach s) :
    (∀ i t r k, s.tasks i = some t → t.phase = .returned (some r) k → Remote (some r) →
      ∃ n response, k = some n ∧ s.received[n]? = some response ∧
        response.requestId = t.request.requestId ∧ r = resultOf response.payload) ∧
    (∀ i j t u r r' n, s.tasks i = some t → t.phase = .returned r (some n) →
      s.tasks j = some u → u.phase = .returned r' (some n) → i = j) ∧
    (s.terminalError ≠ none → ∀ ls s', client.Run Machine.Any s ls s' →
      s'.pending = [] ∧ ∀ i q, s.tasks i = none → (i, q) ∉ s'.sends) ∧
    (∀ id i, (id, i) ∈ s.pending → ∃ t, s.tasks i = some t ∧ t.request.requestId = id ∧
      ∀ r k, t.phase ≠ .returned r k) ∧
    ((∀ i t, s.tasks i = some t → ∃ r k, t.phase = .returned r k) → s.pending = []) := by
  refine ⟨fun i t r k ht hp hr => completed_by_own_response h ht hp hr,
    fun i j t u r r' n ht hp hu hp' => completed_once h ht hp hu hp',
    fun hlost ls s' hr => disconnected_for_good h hlost hr,
    fun id i hm => pending_in_flight h hm, fun hall => ?_⟩
  refine List.eq_nil_iff_forall_not_mem.mpr fun ⟨id, i⟩ hm => ?_
  obtain ⟨t, ht, -, hn⟩ := pending_in_flight h hm
  obtain ⟨r, k, hp⟩ := hall i t ht
  exact hn r k hp

/-- A request that is answered. -/
def roundTrip : List Label :=
  [.begin 0 ⟨"system.health", .object [], 1000000000, false⟩, .register 0, .send 0, .sendOk 0,
    .receive (.success "desktop-1" .null), .deliver 0, .wake 0]

theorem roundTrip_runs : (client.exec Client.new roundTrip).isSome = true := rfl

/-- The client a round trip leaves. -/
def answered : Client := (client.exec Client.new roundTrip).get roundTrip_runs

/-- The request is completed by the one response received, and leaves the map empty. -/
theorem roundTrip_safe : (∃ response, answered.received[0]? = some response ∧
    response.requestId = "desktop-1" ∧ resultOf response.payload = .ok .null) ∧
    answered.pending = [] := by
  have hreach : client.Reach answered := ⟨Client.new, roundTrip, rfl,
    Machine.run_of_exec Machine.guarded_any (Option.some_get roundTrip_runs).symm⟩
  have htask : answered.tasks 0 = some ⟨⟨"desktop-1", "system.health", .object [], 1000, 1⟩, false,
      .returned (some (.ok .null)) (some 0), .sent (.ok ⟨0, .success "desktop-1" .null⟩)⟩ := rfl
  obtain ⟨hown, -, -, -, hempty⟩ := multiplexer_safety hreach
  refine ⟨?_, hempty fun i t ht => ?_⟩
  · obtain ⟨n, response, hn, hr, hid, hres⟩ := hown 0 _ _ _ htask rfl (.inl ⟨_, rfl⟩)
    cases hn
    exact ⟨response, hr, hid, hres.symm⟩
  · cases i with
    | zero => exact ⟨_, _, by rw [← Option.some.inj (htask.symm.trans ht)]⟩
    | succ i => cases ht

end RevBox.AgentClient
