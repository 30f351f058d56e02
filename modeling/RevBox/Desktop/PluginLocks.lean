import RevBox.Desktop.PluginService
import RevBox.Support.Waiting

/-!
# Desktop — PluginLocks

Who waits for whom among the threads of `PluginService`, when a call into a plugin may never
return.  Scanning, installing, rolling back, uninstalling and switching a plugin on or off take
the lock of the map and, with it, wait for the call lock.

* `Unspread`: nobody holds the map while it waits for a plugin that never returns, so that
  listing, process plugins and the end of a call that timed out stay possible.
* `stuck_plugin_unspread`: so it is in every run in which none of them begins its section
  while a plugin is stuck, and no plugin gets stuck while one of them waits in it.
-/

namespace RevBox.Plugins

open Threads Prog

/-- What a program does next is to wait for the lock. -/
def Awaits (k : Lock) : Code Unit → Prop
  | .op (.lock k') _ => k' = k
  | _ => False

/-- Thread `i` is inside a call of a plugin that never returns. -/
def Stuck (p : Pool) (i : Nat) : Prop := ∃ h, p.shared.inside i = some ⟨h, .call, false⟩

/-- Who is stuck, who waits for which lock, and who holds it. -/
def locks (p : Pool) : Waiting.Locks Nat Lock where
  stuck := Stuck p
  waits i k := ∃ t, p.threads[i]? = some t ∧ Awaits k t.rest
  holds i k := p.holder k = some i

/-- A thread that lists the plugins, or calls one. -/
def Request.Reads : Request → Prop
  | .list => True
  | .manifestOf _ => True
  | .call _ => True
  | _ => False

/-- **A stuck plugin does not block the others**: nobody holds the map while it waits for the
call lock of a plugin that never returns, and no call or listing waits because of one. -/
structure Unspread (p : Pool) : Prop where
  apart : ∀ i t, p.threads[i]? = some t → p.holder .loaded = some i → Awaits .call t.rest →
    ∀ j, p.holder .call = some j → ¬ Stuck p j
  possible : ∀ i t, p.threads[i]? = some t → t.request.Reads → ¬ (locks p).Stalled i

/-- No section that takes both locks begins while a plugin is stuck, and no plugin gets stuck
while the holder of the map waits for the call lock. -/
def Spares (p : Pool) : Label Request Choice → Prop
  | .act i x => ∀ t, p.threads[i]? = some t →
      match t.rest, x with
      | .op (.lock .loaded) c, _ => Awaits .call (c ()) → ∀ j, ¬ Stuck p j
      | .op (.op (.enter _ .call)) _, .flag false =>
          ∀ j u, p.holder .loaded = some j → p.threads[j]? = some u → ¬ Awaits .call u.rest
      | _, _ => True
  | _ => True

/-! ### Where a thread stands -/

/-- The locks a thread has, in the order it takes them; `inCall` is inside a call. -/
inductive Place where
  | free
  | called
  | inCall
  | loadedFirst
  | loadedThen
  | both
  deriving DecidableEq

/-- What a thread may come to do: nothing with the call lock, all but calls, or a call. -/
inductive Kind where
  | reader
  | manager
  | worker
  deriving DecidableEq

structure Stage where
  place : Place
  kind : Kind

def kindOf : Request → Kind
  | .list => .reader
  | .manifestOf _ => .reader
  | .call _ => .reader
  | .worker _ => .worker
  | _ => .manager

/-- The call lock is taken with nothing in hand, or right after the map's. -/
def allowed (s : Stage) : Act Lock Request Op → Prop
  | .lock .call => s.kind ≠ .reader ∧ (s.place = .free ∨ s.place = .loadedFirst)
  | .lock .loaded => s.place = .free
  | .tryLock .call => s.place = .loadedFirst
  | .tryLock .loaded => False
  | .unlock .call => s.place = .called ∨ s.place = .both
  | .unlock .loaded => s.place = .loadedFirst ∨ s.place = .loadedThen
  | .fork _ => s.place = .free
  | .op (.enter _ .call) => s.place = .called ∧ s.kind = .worker
  | .op (.leave _ .call) => s.place = .inCall
  | .op _ => s.place ≠ .inCall

/-- The call lock is taken. -/
def Place.enter : Place → Place
  | .free => .called
  | _ => .both

/-- The call lock is given back. -/
def Place.exit : Place → Place
  | .both => .loadedThen
  | _ => .free

/-- An operation is performed. -/
def Place.use : Place → Place
  | .loadedFirst => .loadedThen
  | place => place

def nextPlace (place : Place) : (a : Act Lock Request Op) → Answer Reply a → Place
  | .lock .call, _ => place.enter
  | .lock .loaded, _ => .loadedFirst
  | .tryLock _, true => .both
  | .tryLock _, false => .loadedThen
  | .unlock .call, _ => place.exit
  | .unlock .loaded, _ => .free
  | .fork _, _ => place
  | .op (.enter _ .call), _ => .inCall
  | .op (.leave _ .call), _ => .called
  | .op _, _ => place.use

/-- The locks a thread has. -/
def Place.Has : Place → Lock → Prop
  | .free, _ => False
  | .called, k => k = .call
  | .inCall, k => k = .call
  | .loadedFirst, k => k = .loaded
  | .loadedThen, k => k = .loaded
  | .both, _ => True

/-- The order of the locks. -/
def order : Plan Lock Request Op Reply Unit Stage where
  rules := ⟨allowed, fun s a r => { s with place := nextPlace s.place a r }⟩
  first q := ⟨.free, kindOf q⟩
  last s _ := s.place = .free

/-- An operation that is no call of a plugin. -/
def Plain : Act Lock Request Op → Prop
  | .op (.enter _ .call) => False
  | .op (.leave _ .call) => False
  | .op _ => True
  | _ => False

variable {s : Stage} {α : Type}

/-- Where plain operations change nothing. -/
def Place.Steady (place : Place) : Prop := place ≠ .inCall ∧ place ≠ .loadedFirst

theorem Place.Steady.use {place : Place} (h : place.Steady) : place.use = place := by
  cases place with
  | loadedFirst => exact absurd rfl h.2
  | _ => rfl

theorem follows_of_plain (hs : s.place.Steady) {c : Code α} (hc : Only Plain c) :
    Follows order.rules (fun s' _ => s' = s) s c := by
  refine hc.follows fun a ha => ?_
  cases a with
  | op o =>
      cases o with
      | enter h f =>
          cases f with
          | call => exact ha.elim
          | _ => exact ⟨hs.1, fun _ => congrArg (Stage.mk · s.kind) hs.use⟩
      | leave h f =>
          cases f with
          | call => exact ha.elim
          | _ => exact ⟨hs.1, fun _ => congrArg (Stage.mk · s.kind) hs.use⟩
      | _ => exact ⟨hs.1, fun _ => congrArg (Stage.mk · s.kind) hs.use⟩
  | _ => exact ha.elim

/-! ### The programs -/

theorem plain_dropHandle (h : Nat) : Only Plain (dropHandle h) :=
  ⟨trivial, fun last => match last with
    | true => ⟨trivial, fun _ => ⟨trivial, fun _ => ⟨trivial, fun _ => trivial⟩⟩⟩
    | false => trivial⟩

theorem plain_dropKind : ∀ kind : LoadedKind, Only Plain (dropKind kind)
  | .inProcess h => plain_dropHandle h
  | .process => trivial

theorem plain_dropOption : ∀ kind : Option LoadedKind, Only Plain (dropOption kind)
  | some kind => plain_dropKind kind
  | none => trivial

theorem plain_dropAll : ∀ kinds : List (String × LoadedKind), Only Plain (dropAll kinds)
  | [] => trivial
  | (_, kind) :: rest => (plain_dropKind kind).bind fun _ => plain_dropAll rest

/-- A program that leaves the thread where it was. -/
abbrev Steady (s : Stage) (c : Code α) : Prop := Follows order.rules (fun s' _ => s' = s) s c

theorem steady_plain {place : Place} {kind : Kind} (hs : place.Steady) {c : Code α}
    (hc : Only Plain c) : Steady ⟨place, kind⟩ c := follows_of_plain hs hc

theorem Steady.bind {β : Type} {c : Code α} {f : α → Code β} {Q : Stage → β → Prop}
    (hc : Steady s c) (hf : ∀ a, Follows order.rules Q s (f a)) :
    Follows order.rules Q s (c >>= f) :=
  (follows_bind f c).mpr (hc.mono fun _ a h => h ▸ hf a)

section Loading

variable {kind : Kind} {id : String}

theorem steady_loadOne (hk : kind ≠ .reader) : Steady ⟨.free, kind⟩ loadOne := by
  simp only [Steady, loadOne, visit, perform, follows_bind, follows_act]
  refine ⟨by rintro ⟨⟩, fun opened => ?_⟩
  cases opened with
  | none => rfl
  | some h =>
      simp only [follows_bind, follows_act]
      refine ⟨by rintro ⟨⟩, fun symbols => ?_⟩
      cases symbols with
      | false => exact ⟨by rintro ⟨⟩, fun _ => rfl⟩
      | true =>
          refine ⟨by rintro ⟨⟩, fun _ => ⟨by rintro ⟨⟩, fun _ => ⟨by rintro ⟨⟩, fun info => ?_⟩⟩⟩
          cases info with
          | false => exact ⟨by rintro ⟨⟩, fun _ => rfl⟩
          | true =>
              refine ⟨⟨hk, .inl rfl⟩, fun _ => ⟨by rintro ⟨⟩, fun _ => ⟨by rintro ⟨⟩, fun code => ?_⟩⟩⟩
              refine ⟨.inl rfl, fun _ => ?_⟩
              by_cases hcode : code = 0
              · rw [if_pos hcode]
                rfl
              · rw [if_neg hcode]
                exact ⟨by rintro ⟨⟩, fun _ => rfl⟩

theorem steady_loadDir (hk : kind ≠ .reader) : Steady ⟨.free, kind⟩ loadDir := by
  refine ⟨nofun, fun manifest => ?_⟩
  cases manifest with
  | false => rfl
  | true =>
      refine ⟨nofun, fun isProcess => ?_⟩
      cases isProcess with
      | false => exact (steady_loadOne hk).bind fun _ => rfl
      | true =>
          refine ⟨nofun, fun started => ?_⟩
          cases started <;> rfl

/-- A section that takes both locks, and what comes after it. -/
theorem section_then (hk : kind ≠ .reader) {o : Op} {f : Reply o → Code Unit} {g : Code Unit}
    (ho : Plain (.op o)) (hf : ∀ r, Only Plain (f r)) (hg : Steady ⟨.free, kind⟩ g) :
    Steady ⟨.free, kind⟩ (do
      lock .loaded
      lock .call
      f (← perform o)
      unlock .call
      unlock .loaded
      g) := by
  refine ⟨rfl, fun _ => ⟨⟨hk, .inr rfl⟩, fun _ => ?_⟩⟩
  have hboth : Place.both.Steady := ⟨nofun, nofun⟩
  have hop : Steady ⟨.both, kind⟩ (perform o) := steady_plain hboth (only_perform ho)
  have hrest : ∀ r, Steady ⟨.both, kind⟩ (f r) := fun r => steady_plain hboth (hf r)
  exact hop.bind fun r => (hrest r).bind fun _ => ⟨.inr rfl, fun _ => ⟨.inr rfl, fun _ => hg⟩⟩

theorem steady_pure (s : Stage) (a : α) : Steady s (pure a : Code α) := rfl

theorem steady_unloadHandle (hk : kind ≠ .reader) (id : String) :
    Steady ⟨.free, kind⟩ (unloadHandle id) :=
  section_then hk (o := .remove id) trivial plain_dropOption (steady_pure _ ())

theorem steady_putLoaded (hk : kind ≠ .reader) (id : String) (loaded : LoadedKind) :
    Steady ⟨.free, kind⟩ (putLoaded id loaded) :=
  section_then hk (o := .insert id loaded) trivial plain_dropOption (steady_pure _ ())

theorem steady_readLoaded : Steady ⟨.free, kind⟩ readLoaded :=
  ⟨rfl, fun _ => ⟨nofun, fun _ => ⟨.inr rfl, fun _ => rfl⟩⟩⟩

theorem free_steady : Place.free.Steady := ⟨nofun, nofun⟩

theorem steady_scanEach (hk : kind ≠ .reader) : ∀ (ids : List (Option String))
    (new : List (String × LoadedKind)), Steady ⟨.free, kind⟩ (scanEach ids new)
  | [], _ => rfl
  | none :: rest, new => steady_scanEach hk rest new
  | some id :: rest, new => by
      refine ⟨nofun, fun saved => ?_⟩
      cases saved with
      | false => exact (steady_plain free_steady (plain_dropAll new)).bind fun _ => rfl
      | true =>
          refine ⟨nofun, fun enabled => ?_⟩
          cases enabled with
          | false => exact steady_scanEach hk rest new
          | true =>
              refine (steady_loadDir hk).bind fun loaded => ?_
              cases loaded with
              | none => exact steady_scanEach hk rest new
              | some loaded =>
                  exact (steady_plain free_steady (plain_dropOption _)).bind fun _ =>
                    steady_scanEach hk rest _

theorem steady_scan (hk : kind ≠ .reader) : Steady ⟨.free, kind⟩ scan := by
  refine ⟨nofun, fun ids => (steady_scanEach hk ids []).bind fun new => ?_⟩
  cases new with
  | none => rfl
  | some new =>
      refine section_then hk (o := .swap new) trivial plain_dropAll ⟨nofun, fun kept => ?_⟩
      cases kept with
      | false => rfl
      | true => exact steady_readLoaded

theorem steady_register (hk : kind ≠ .reader) (id : String) (loaded : LoadedKind) :
    Steady ⟨.free, kind⟩ (register id loaded) := by
  refine ⟨nofun, fun saved => ?_⟩
  cases saved with
  | false => exact steady_plain free_steady (plain_dropKind loaded)
  | true =>
      refine (steady_putLoaded hk id loaded).bind fun _ => ⟨nofun, fun pruned => ?_⟩
      cases pruned with
      | false => rfl
      | true => exact steady_readLoaded

theorem steady_rollback (hk : kind ≠ .reader) (id : String) :
    Steady ⟨.free, kind⟩ (rollback id) := by
  refine (steady_unloadHandle hk id).bind fun _ => ⟨nofun, fun swapped => ?_⟩
  cases swapped with
  | false => rfl
  | true =>
      refine (steady_loadDir hk).bind fun loaded => ?_
      cases loaded with
      | none => rfl
      | some loaded => exact steady_register hk id loaded

theorem steady_install (hk : kind ≠ .reader) (id : String) : Steady ⟨.free, kind⟩ (install id) := by
  refine ⟨nofun, fun valid => ?_⟩
  cases valid with
  | false => rfl
  | true =>
      refine (steady_unloadHandle hk id).bind fun _ => ⟨nofun, fun swapped => ?_⟩
      cases swapped with
      | false => rfl
      | true =>
          refine (steady_loadDir hk).bind fun loaded => ?_
          cases loaded with
          | some loaded => exact steady_register hk id loaded
          | none =>
              refine ⟨nofun, fun restored => ?_⟩
              cases restored with
              | false => rfl
              | true =>
                  refine (steady_loadDir hk).bind fun old => ?_
                  cases old with
                  | none => rfl
                  | some old => exact steady_putLoaded hk id old

theorem steady_setEnabled (hk : kind ≠ .reader) (id : String) (enabled : Bool) :
    Steady ⟨.free, kind⟩ (setEnabled id enabled) := by
  refine ⟨nofun, fun row => ?_⟩
  cases row with
  | false => rfl
  | true =>
      cases enabled with
      | true =>
          refine (steady_loadDir hk).bind fun loaded => ?_
          cases loaded with
          | none => rfl
          | some loaded => exact steady_register hk id loaded
      | false =>
          refine (steady_unloadHandle hk id).bind fun _ => ⟨nofun, fun saved => ?_⟩
          cases saved with
          | false => rfl
          | true => exact steady_readLoaded

theorem steady_unloadAll : Steady ⟨.free, kind⟩ unloadAll := by
  refine ⟨rfl, fun _ => ⟨rfl, fun taken => ?_⟩⟩
  cases taken with
  | false => exact ⟨.inr rfl, fun _ => rfl⟩
  | true =>
      have hboth : Place.both.Steady := ⟨nofun, nofun⟩
      refine ⟨nofun, fun old => ?_⟩
      exact (steady_plain hboth (plain_dropAll old)).bind fun _ =>
        ⟨.inr rfl, fun _ => ⟨.inr rfl, fun _ => rfl⟩⟩

theorem steady_worker (h : Nat) : Steady ⟨.free, .worker⟩ (worker h) := by
  refine ⟨⟨nofun, .inl rfl⟩, fun _ => ⟨⟨rfl, rfl⟩, fun _ => ⟨rfl, fun _ => ⟨nofun, fun out => ?_⟩⟩⟩⟩
  cases out with
  | false => exact ⟨nofun, fun _ => ⟨.inl rfl, fun _ => rfl⟩⟩
  | true =>
      exact ⟨nofun, fun _ => ⟨nofun, fun _ => ⟨nofun, fun _ => ⟨.inl rfl, fun _ => rfl⟩⟩⟩⟩

/-- A call takes the map twice, and never waits for the call lock. -/
theorem steady_call (id : String) : Steady ⟨.free, .reader⟩ (call id) := by
  have hthen : Place.loadedThen.Steady := ⟨nofun, nofun⟩
  refine ⟨nofun, fun enabled => ?_⟩
  cases enabled with
  | false => rfl
  | true =>
      refine ⟨rfl, fun _ => ⟨nofun, fun found => ⟨.inr rfl, fun _ => ?_⟩⟩⟩
      match found with
      | none => rfl
      | some .process => rfl
      | some (.inProcess h) =>
          refine ⟨nofun, fun short => ?_⟩
          cases short with
          | false => exact steady_plain free_steady (plain_dropHandle h)
          | true =>
              refine ⟨rfl, fun w => ⟨nofun, fun answered => ?_⟩⟩
              cases answered with
              | true => exact steady_plain free_steady (plain_dropHandle h)
              | false =>
                  refine ⟨nofun, fun _ => ⟨rfl, fun _ => ⟨nofun, fun old => ?_⟩⟩⟩
                  exact (steady_plain hthen (plain_dropOption old)).bind fun _ =>
                    ⟨.inr rfl, fun _ => rfl⟩

end Loading

theorem manages : Kind.manager ≠ .reader := nofun

theorem steady_body (q : Request) : Steady ⟨.free, kindOf q⟩ (body q) := by
  cases q with
  | scan => exact steady_scan manages
  | list => exact steady_readLoaded
  | manifestOf id => exact steady_readLoaded
  | call id => exact steady_call id
  | install id => exact steady_install manages id
  | rollback id => exact steady_rollback manages id
  | uninstall id => exact steady_unloadHandle manages id
  | setEnabled id enabled => exact steady_setEnabled manages id enabled
  | unloadAll => exact steady_unloadAll
  | worker h => exact steady_worker h

theorem follows_body (q : Request) :
    Follows order.rules order.last (order.first q) (service.body q) :=
  (steady_body q).mono fun s' _ h => by
    rw [h]
    rfl

/-! ### One act -/

section Acts

variable {p p₁ : Pool} {i : Nat} {x : Choice} {a : Act Lock Request Op} {r : Answer Reply a}

theorem holder_lock {k : Lock} {r : Unit} (h : service.effect p i (.lock k) x = some (r, p₁)) :
    p.holder k = none ∧ p₁ = { p with holder := Function.update p.holder k (some i) } := by
  simp only [System.effect] at h
  split at h
  · exact ⟨‹_›, by cases h; rfl⟩
  · cases h

theorem holder_unlock {k : Lock} {r : Unit} (h : service.effect p i (.unlock k) x = some (r, p₁)) :
    p.holder k = some i ∧ p₁ = { p with holder := Function.update p.holder k none } := by
  simp only [System.effect] at h
  split at h
  · exact ⟨‹_›, by cases h; rfl⟩
  · cases h

theorem holder_op {o : Op} {r : Reply o} (h : service.effect p i (.op o) x = some (r, p₁)) :
    ∃ w, exec p.shared i o x = some (r, w) ∧ p₁ = { p with shared := w } := by
  obtain ⟨⟨r', w⟩, hx, hr⟩ := Option.map_eq_some_iff.mp h
  cases hr
  exact ⟨w, hx, rfl⟩

theorem holder_update (p : Pool) (k : Lock) (h : Option Nat) {j : Nat} (hh : h ≠ some j)
    (hk : p.holder k ≠ some j) (k' : Lock) :
    Function.update p.holder k h k' = some j ↔ p.holder k' = some j := by
  by_cases hkk : k' = k
  · subst hkk
    rw [Function.update_self]
    exact iff_of_false hh hk
  · rw [Function.update_of_ne hkk]

/-- What the thread has after the act, and what the others have. -/
theorem holder_effect {place : Place} {kind : Kind}
    (hhas : ∀ k, p.holder k = some i ↔ place.Has k) (ha : allowed ⟨place, kind⟩ a)
    (he : service.effect p i a x = some (r, p₁)) :
    (∀ k, p₁.holder k = some i ↔ (nextPlace place a r).Has k) ∧
      ∀ j k, j ≠ i → (p₁.holder k = some j ↔ p.holder k = some j) := by
  have hl := hhas .loaded
  have hc := hhas .call
  cases a with
  | lock k =>
      obtain ⟨hfree, rfl⟩ := holder_lock he
      refine ⟨fun k' => ?_, fun j k' hj =>
        holder_update p k _ (by simpa using hj.symm) (by simp [hfree]) k'⟩
      cases k <;> cases k' <;> cases place <;> simp_all [allowed, nextPlace, Place.Has, Place.enter]
  | unlock k =>
      obtain ⟨hmine, rfl⟩ := holder_unlock he
      refine ⟨fun k' => ?_, fun j k' hj =>
        holder_update p k none (by simp) (by simpa [hmine] using hj.symm) k'⟩
      cases k <;> cases k' <;> cases place <;> simp_all [allowed, nextPlace, Place.Has, Place.exit]
  | tryLock k =>
      simp only [System.effect] at he
      split at he
      · rename_i hfree
        cases he
        refine ⟨fun k' => ?_, fun j k' hj =>
        holder_update p k _ (by simpa using hj.symm) (by simp [hfree]) k'⟩
        cases k <;> cases k' <;> cases place <;> simp_all [allowed, nextPlace, Place.Has]
      · cases he
        refine ⟨fun k' => ?_, fun _ _ _ => Iff.rfl⟩
        cases k <;> cases k' <;> cases place <;> simp_all [allowed, nextPlace, Place.Has]
  | fork q =>
      cases he
      exact ⟨hhas, fun _ _ _ => Iff.rfl⟩
  | op o =>
      obtain ⟨w, -, rfl⟩ := holder_op he
      refine ⟨fun k => (hhas k).trans ?_, fun _ _ _ => Iff.rfl⟩
      cases o with
      | enter h f => cases f <;> cases place <;> simp_all [allowed, nextPlace, Place.Has, Place.use]
      | leave h f => cases f <;> cases place <;> simp_all [allowed, nextPlace, Place.Has, Place.use]
      | _ => cases place <;> simp_all [allowed, nextPlace, Place.Has, Place.use]

/-- Who an operation leaves inside a plugin. -/
theorem inside_exec {w w' : Host} {o : Op} {r : Reply o} (h : exec w i o x = some (r, w')) :
    (∀ j, j ≠ i → w'.inside j = w.inside j) ∧
      ((∃ h f b, o = .enter h f ∧ x = .flag b ∧ (b = true ∨ f = .call) ∧
          w'.inside i = some ⟨h, f, b⟩) ∨
        (∃ h f, o = .leave h f ∧ w.inside i = some ⟨h, f, true⟩ ∧ w'.inside i = none) ∨
        (∀ h f, o ≠ .enter h f ∧ o ≠ .leave h f) ∧ w'.inside i = w.inside i) := by
  cases o with
  | enter h' f =>
      cases x with
      | flag b =>
          simp only [exec] at h
          split at h
          · rename_i hb
            cases h
            exact ⟨fun j hj => Function.update_of_ne hj .., .inl ⟨h', f, b, rfl, rfl, hb,
              Function.update_self ..⟩⟩
          · cases h
      | _ => cases h
  | leave h' f =>
      cases x with
      | code n =>
          simp only [exec] at h
          split at h
          · rename_i hin
            cases h
            exact ⟨fun j hj => Function.update_of_ne hj .., .inr (.inl ⟨h', f, rfl, hin,
              Function.update_self ..⟩)⟩
          · cases h
      | _ => cases h
  | find id =>
      cases h
      refine ⟨fun j _ => ?_, .inr (.inr ⟨fun _ _ => ⟨nofun, nofun⟩, ?_⟩)⟩ <;>
        (unfold Host.clone; split <;> rfl)
  | openLibrary =>
      cases x with
      | library m =>
          cases m <;> cases h <;>
            exact ⟨fun _ _ => rfl, .inr (.inr ⟨fun _ _ => ⟨nofun, nofun⟩, rfl⟩)⟩
      | _ => cases h
  | await w' =>
      cases x with
      | flag b =>
          simp only [exec] at h
          split at h
          · cases h; exact ⟨fun _ _ => rfl, .inr (.inr ⟨fun _ _ => ⟨nofun, nofun⟩, rfl⟩)⟩
          · cases h
      | _ => cases h
  | ask =>
      cases x with
      | flag b => cases h; exact ⟨fun _ _ => rfl, .inr (.inr ⟨fun _ _ => ⟨nofun, nofun⟩, rfl⟩)⟩
      | _ => cases h
  | candidates =>
      cases x with
      | dirs ids => cases h; exact ⟨fun _ _ => rfl, .inr (.inr ⟨fun _ _ => ⟨nofun, nofun⟩, rfl⟩)⟩
      | _ => cases h
  | _ => cases h; exact ⟨fun _ _ => rfl, .inr (.inr ⟨fun _ _ => ⟨nofun, nofun⟩, rfl⟩)⟩

end Acts

/-! ### Every run -/

/-- Who has what, who is inside a call, and that no thread that waits with the map in hand
waits for a plugin that never returns. -/
structure Ordered (p : Pool) (st : Nat → Stage) : Prop where
  idle : ∀ i, p.threads.length ≤ i → (st i).place = .free
  kind : ∀ i t, p.threads[i]? = some t → (st i).kind = kindOf t.request
  has : ∀ i k, p.holder k = some i ↔ (st i).place.Has k
  inside : ∀ i v, p.shared.inside i = some v → v.function = .call →
    (st i).place = .inCall ∧ (st i).kind = .worker
  apart : ∀ i t, p.threads[i]? = some t → (st i).place = .loadedFirst → Awaits .call t.rest →
    ∀ j, ¬ Stuck p j

section Runs

variable {p p₁ : Pool} {st : Nat → Stage} {i : Nat} {x : Choice} {q : Request}
  {a : Act Lock Request Op} {r : Answer Reply a} {c : Answer Reply a → Code Unit}

theorem Ordered.begin (hp : Ordered p st) (q : Request) :
    Ordered (service.start p q) (Function.update st p.threads.length ⟨.free, kindOf q⟩) := by
  have hplace : ∀ i, (Function.update st p.threads.length ⟨.free, kindOf q⟩ i).place =
      (st i).place := fun i => by
    by_cases hi : i = p.threads.length
    · subst hi
      rw [Function.update_self, hp.idle _ (Nat.le_refl _)]
    · rw [Function.update_of_ne hi]
  have hthread : ∀ {i t}, (service.start p q).threads[i]? = some t → i ≠ p.threads.length →
      p.threads[i]? = some t := fun {i t} hi hne => by
    rw [System.start, List.getElem?_append] at hi
    split at hi
    · exact hi
    · rw [List.getElem?_eq_none (by simp only [List.length_singleton]; omega)] at hi
      cases hi
  constructor
  · intro i hi
    rw [hplace]
    exact hp.idle i (by simp only [System.start, List.length_append] at hi; omega)
  · intro i t hi
    by_cases hne : i = p.threads.length
    · subst hne
      rw [System.start, List.getElem?_concat_length] at hi
      cases hi
      rw [Function.update_self]
    · rw [Function.update_of_ne hne]
      exact hp.kind i t (hthread hi hne)
  · intro i k
    rw [hplace]
    exact hp.has i k
  · intro i v hv hf
    obtain ⟨hin, hkind⟩ := hp.inside i v hv hf
    have hne : i ≠ p.threads.length := by
      rintro rfl
      rw [hp.idle _ (Nat.le_refl _)] at hin
      cases hin
    rw [Function.update_of_ne hne]
    exact ⟨hin, hkind⟩
  · intro i t hi hplace' hawaits
    rw [hplace] at hplace'
    refine hp.apart i t (hthread hi ?_) hplace' hawaits
    rintro rfl
    rw [hp.idle _ (Nat.le_refl _)] at hplace'
    cases hplace'

/-- An act of thread `i`, from what it does to the locks and to the visits. -/
theorem Ordered.move (hp : Ordered p st) (hi : p.threads[i]? = some ⟨q, .op a c⟩)
    {rest : Code Unit} {place : Place} (hhas : ∀ k, p₁.holder k = some i ↔ place.Has k)
    (hothers : ∀ j k, j ≠ i → (p₁.holder k = some j ↔ p.holder k = some j))
    (ht : p₁.threads = p.threads)
    (hin : ∀ v, p₁.shared.inside i = some v → v.function = .call →
      place = .inCall ∧ (st i).kind = .worker)
    (hout : ∀ j, j ≠ i → p₁.shared.inside j = p.shared.inside j)
    (hself : place = .loadedFirst → Awaits .call rest → ∀ j, ¬ Stuck p₁ j)
    (hspare : Stuck p₁ i → ∀ j t, p.threads[j]? = some t → (st j).place = .loadedFirst →
      ¬ Awaits .call t.rest) :
    Ordered { p₁ with threads := p₁.threads.set i ⟨q, rest⟩ }
      (Function.update st i ⟨place, (st i).kind⟩) := by
  have hlt : i < p.threads.length := by
    by_contra hge
    rw [List.getElem?_eq_none (by omega)] at hi
    cases hi
  have hthread : ∀ {j}, j ≠ i → ∀ t, (p₁.threads.set i ⟨q, rest⟩)[j]? = some t →
      p.threads[j]? = some t := fun {j} hj t h => by
    rwa [List.getElem?_set_ne hj.symm, ht] at h
  have hsame : ∀ t, (p₁.threads.set i ⟨q, rest⟩)[i]? = some t → t = ⟨q, rest⟩ := fun t h => by
    rw [List.getElem?_set_self (by rw [ht]; exact hlt)] at h
    exact (Option.some.inj h).symm
  constructor
  · intro j hj
    simp only [List.length_set, ht] at hj
    rw [Function.update_of_ne (by omega)]
    exact hp.idle j hj
  · intro j t hj
    by_cases hji : j = i
    · subst hji
      rw [Function.update_self, hsame t hj]
      exact (show (st j).kind = kindOf q from hp.kind j ⟨q, .op a c⟩ hi)
    · rw [Function.update_of_ne hji]
      exact hp.kind j t (hthread hji t hj)
  · intro j k
    by_cases hji : j = i
    · subst hji
      rw [Function.update_self]
      exact hhas k
    · rw [Function.update_of_ne hji]
      exact (hothers j k hji).trans (hp.has j k)
  · intro j v hv hf
    by_cases hji : j = i
    · subst hji
      rw [Function.update_self]
      exact hin v hv hf
    · rw [Function.update_of_ne hji]
      exact hp.inside j v ((hout j hji).symm.trans hv) hf
  · intro j t hj hplace hawaits j' hstuck
    by_cases hji : j = i
    · subst hji
      rw [Function.update_self] at hplace
      rw [hsame t hj] at hawaits
      exact hself hplace hawaits j' hstuck
    · rw [Function.update_of_ne hji] at hplace
      have hj' := hthread hji t hj
      by_cases hji' : j' = i
      · subst hji'
        exact hspare hstuck j t hj' hplace hawaits
      · obtain ⟨h, hh⟩ := hstuck
        exact hp.apart j t hj' hplace hawaits j' ⟨h, (hout j' hji').symm.trans hh⟩

theorem place_ne_inCall {s : Stage} (ha : allowed s a)
    (hne : ∀ h, a ≠ .op (.leave h .call)) : s.place ≠ .inCall := by
  obtain ⟨place, kind⟩ := s
  rintro rfl
  match a, ha with
  | .lock .call, ha => exact ha.2.elim nofun nofun
  | .lock .loaded, ha => cases ha
  | .tryLock .call, ha => cases ha
  | .unlock .call, ha => exact ha.elim nofun nofun
  | .unlock .loaded, ha => exact ha.elim nofun nofun
  | .fork _, ha => cases ha
  | .op o, ha =>
      cases o with
      | enter h f =>
          cases f with
          | call => cases ha.1
          | _ => exact ha rfl
      | leave h f =>
          cases f with
          | call => exact hne h rfl
          | _ => exact ha rfl
      | _ => exact ha rfl

theorem use_ne_loadedFirst (place : Place) : place.use ≠ .loadedFirst := by
  cases place <;> exact nofun

theorem nextPlace_op_ne (place : Place) (o : Op) (r : Reply o) :
    nextPlace place (.op o) r ≠ .loadedFirst := by
  cases o with
  | enter h f =>
      cases f with
      | call => exact nofun
      | _ => exact use_ne_loadedFirst place
  | leave h f =>
      cases f with
      | call => exact nofun
      | _ => exact use_ne_loadedFirst place
  | _ => exact use_ne_loadedFirst place

/-- **What an act within the guard preserves.** -/
theorem Ordered.act (hp : Ordered p st) (hC : Spares p (.act i x))
    (hi : p.threads[i]? = some ⟨q, .op a c⟩) (ha : allowed (st i) a)
    (he : service.effect p i a x = some (r, p₁)) :
    Ordered { p₁ with threads := p₁.threads.set i ⟨q, c r⟩ }
      (after order st p.threads.length i a r) := by
  have hC := hC _ hi
  obtain ⟨hhas, hothers⟩ := holder_effect (fun k => hp.has i k) ha he
  -- who is not inside a call is not in the host's book of visits either
  have hcalm : (st i).place ≠ .inCall → ∀ v, p.shared.inside i = some v → v.function ≠ .call :=
    fun hne v hv hf => hne (hp.inside i v hv hf).1
  have hfree : (st i).place ≠ .inCall → ¬ Stuck p i := fun hne hs =>
    hs.elim fun _ hh => hcalm hne _ hh rfl
  cases a with
  | fork q' =>
      cases he
      have hplace : (st i).place = .free := ha
      have hlt : i ≠ p.threads.length := by
        rintro rfl
        rw [List.getElem?_eq_none (Nat.le_refl _)] at hi
        cases hi
      have hbegun := hp.begin q'
      have hi' : (service.start p q').threads[i]? = some ⟨q, .op (.fork q') c⟩ := by
        rw [System.start, List.getElem?_append_left]
        · exact hi
        · by_contra hge
          rw [List.getElem?_eq_none (by omega)] at hi
          cases hi
      have hst : Function.update st p.threads.length ⟨.free, kindOf q'⟩ i = st i :=
        Function.update_of_ne hlt ..
      have hmoved := @Ordered.move _ (service.start p q') _ i q _ c hbegun hi'
        (c p.threads.length) _ (fun k => by rw [hbegun.has, hst]) (fun _ _ _ => Iff.rfl) rfl
        (fun v hv hf => by rw [← hst]; exact hbegun.inside i v hv hf) (fun _ _ => rfl)
        (fun h => by rw [hplace] at h; cases h)
        (fun hs => absurd hs (hfree (by rw [hplace]; decide)))
      rw [hst, Function.update_comm hlt.symm] at hmoved
      exact hmoved
  | lock k =>
      obtain ⟨-, rfl⟩ := holder_lock he
      have hne := place_ne_inCall ha fun _ h => by cases h
      refine hp.move hi hhas hothers rfl (fun v hv hf => absurd hf (hcalm hne v hv))
        (fun _ _ => rfl) (fun hplace hawaits => ?_) (fun hs => absurd hs (hfree hne))
      cases k with
      | loaded => exact hC hawaits
      | call => cases hs : (st i).place <;> (rw [hs] at hplace; cases hplace)
  | unlock k =>
      obtain ⟨-, rfl⟩ := holder_unlock he
      have hne := place_ne_inCall ha fun _ h => by cases h
      refine hp.move hi hhas hothers rfl (fun v hv hf => absurd hf (hcalm hne v hv))
        (fun _ _ => rfl) (fun hplace => ?_) (fun hs => absurd hs (hfree hne))
      cases k with
      | loaded => cases hplace
      | call => cases hs : (st i).place <;> (rw [hs] at hplace; cases hplace)
  | tryLock k =>
      have hne := place_ne_inCall ha fun _ h => by cases h
      simp only [System.effect] at he
      split at he
      · cases he
        exact hp.move hi hhas hothers rfl (fun v hv hf => absurd hf (hcalm hne v hv))
          (fun _ _ => rfl) (fun h => by cases h) (fun hs => absurd hs (hfree hne))
      · cases he
        exact hp.move hi hhas hothers rfl (fun v hv hf => absurd hf (hcalm hne v hv))
          (fun _ _ => rfl) (fun h => by cases h) (fun hs => absurd hs (hfree hne))
  | op o =>
      obtain ⟨w, hx, rfl⟩ := holder_op he
      obtain ⟨hout, hin⟩ := inside_exec hx
      refine hp.move hi hhas hothers rfl (fun v hv hf => ?_) hout
        (fun h => absurd h (nextPlace_op_ne _ o r)) (fun hs => ?_)
      · rcases hin with ⟨h, f, b, rfl, rfl, hb, hin⟩ | ⟨h, f, rfl, -, hin⟩ | ⟨hno, hin⟩
        · obtain rfl := Option.some.inj (hin.symm.trans hv)
          obtain rfl : f = .call := hf
          exact ⟨rfl, ha.2⟩
        · cases hin.symm.trans hv
        · exact absurd hf (hcalm (place_ne_inCall ha fun h he => (hno h .call).2 (Act.op.inj he)) v
            (hin.symm.trans hv))
      · obtain ⟨h', hs⟩ := hs
        rcases hin with ⟨h, f, b, rfl, rfl, hb, hin⟩ | ⟨h, f, rfl, -, hin⟩ | ⟨hno, hin⟩
        · cases hin.symm.trans hs
          intro j t hj hplace
          exact hC j t ((hp.has j .loaded).mpr (by rw [hplace]; rfl)) hj
        · cases hin.symm.trans hs
        · exact absurd ⟨h', hin.symm.trans hs⟩
            (hfree (place_ne_inCall ha fun h he => (hno h .call).2 (Act.op.inj he)))

theorem Ordered.unspread (hst : Staged order p st) (hp : Ordered p st) : Unspread p := by
  have hawaits : ∀ {i t k}, p.threads[i]? = some t → Awaits k t.rest → allowed (st i) (.lock k) :=
    fun {i t k} hi hk => by
      have hallowed := hst i t hi
      obtain ⟨q, rest⟩ := t
      match rest, hk with
      | .op (.lock k') c, hk =>
          obtain rfl : k' = k := hk
          exact hallowed.1
  have hfirst : ∀ {i t}, p.threads[i]? = some t → Awaits .call t.rest →
      (st i).place = .free ∨ (st i).place = .loadedFirst := fun hi hk => (hawaits hi hk).2
  have hcall : ∀ {j k}, Stuck p j → p.holder k = some j → k = .call := fun {j k} ⟨h, hh⟩ hk => by
    have := (hp.has j k).mp hk
    rwa [(hp.inside j _ hh rfl).1] at this
  have hbehind : ∀ i, (locks p).Behind i → ∀ k, ¬ (locks p).holds i k := by
    rintro i ⟨k, j, ⟨t, hi, hk⟩, hholds, hstuck⟩ k' hk'
    obtain rfl := hcall hstuck hholds
    rcases hfirst hi hk with hplace | hplace
    · have := (hp.has i k').mp hk'
      rw [hplace] at this
      exact this
    · exact hp.apart i t hi hplace hk j hstuck
  constructor
  · intro i t hi hholds hk j _
    rcases hfirst hi hk with hplace | hplace
    · have := (hp.has i .loaded).mp hholds
      rw [hplace] at this
      exact this.elim
    · exact hp.apart i t hi hplace hk j
  · intro i t hi hreads hstalled
    have hkind : (st i).kind = .reader := by
      rw [hp.kind i t hi]
      cases hq : t.request <;> rw [hq] at hreads <;> first | rfl | exact hreads.elim
    rcases hstalled.direct hbehind with ⟨h, hh⟩ | ⟨k, j, ⟨t', hi', hk⟩, hholds, hstuck⟩
    · have hworks := (hp.inside i _ hh rfl).2
      rw [hkind] at hworks
      cases hworks
    · obtain rfl := hcall hstuck hholds
      exact (hawaits hi' hk).1 hkind

theorem ordered_init (h₀ : plugins.init p) : Ordered p fun _ => ⟨.free, .manager⟩ := by
  obtain ⟨hshared, hthreads, hholder⟩ := h₀
  constructor
  · exact fun _ _ => rfl
  · intro i t hi
    rw [hthreads] at hi
    cases hi
  · intro i k
    rw [hholder]
    exact ⟨nofun, False.elim⟩
  · intro i v hv
    rw [hshared] at hv
    cases hv
  · intro i t hi
    rw [hthreads] at hi
    cases hi

/-- **A stuck plugin does not block the others**, in a run that spares the map. -/
theorem stuck_plugin_unspread {p₀ p : Pool} {ls : List (Label Request Choice)}
    (h₀ : plugins.init p₀) (hr : plugins.Run Spares p₀ ls p) : Unspread p := by
  have hordered : Ordered p₀ fun _ => ⟨.free, .manager⟩ := ordered_init h₀
  obtain ⟨st, hst, hp⟩ := staged_run (R := Ordered) follows_body hordered
    (fun p st q hp _ => hp.begin q)
    (fun p st i x q a c r p₁ hp _ hC hi ha he => hp.act hC hi ha he) h₀ hr
  exact hp.unspread hst

end Runs

/-! ### A plugin that never returns -/

instance (k : Lock) : ∀ c : Code Unit, Decidable (Awaits k c)
  | .op (.lock k') _ => inferInstanceAs (Decidable (k' = k))
  | .op (.tryLock _) _ => .isFalse id
  | .op (.unlock _) _ => .isFalse id
  | .op (.fork _) _ => .isFalse id
  | .op (.op _) _ => .isFalse id
  | .ret _ => .isFalse id

/-- Thread `i` makes the choices in turn. -/
def acts (i : Nat) (xs : List Choice) : List (Label Request Choice) := xs.map (.act i)

/-- A plugin is switched on: it is loaded, initialised and registered. -/
def switchedOn : List (Label Request Choice) :=
  .begin (.setEnabled "a" true) :: acts 0
    [.flag true, .flag true, .flag false, .library (some 0), .flag true, .flag true, .code 0,
      .flag true, .flag true, .flag true, .code 0, .flag true, .flag true, .flag true, .flag true,
      .flag true, .flag true, .flag true, .flag false]

/-- It is called and does not come back; another plugin is uninstalled meanwhile. -/
def stuckCall : List (Label Request Choice) :=
  switchedOn ++ .begin (.call "a") ::
    acts 1 [.flag true, .flag true, .flag true, .flag true, .flag true, .flag true] ++
    acts 2 [.flag true, .flag false] ++ [.begin (.uninstall "b"), .act 3 (.flag true)]

/-- The uninstall holds the map and waits for the plugin, and whoever wants the map waits too. -/
theorem uninstall_waits_for_plugin : ¬ ∀ p : Pool, plugins.Reach p → Unspread p := by
  intro h
  have hexec : (plugins.exec ⟨boot, [], fun _ => none⟩ stuckCall).any (fun p =>
      decide (p.holder .loaded = some 3 ∧ p.holder .call = some 2 ∧
        p.shared.inside 2 = some ⟨0, .call, false⟩) &&
        (p.threads[3]?.any fun t => decide (Awaits .call t.rest))) = true := by
    decide +kernel
  obtain ⟨p, hr, hp⟩ := Machine.run_of_exec_any Machine.guarded_any hexec
  rw [Bool.and_eq_true, decide_eq_true_iff] at hp
  obtain ⟨⟨hmap, hcall, hin⟩, hawaits⟩ := hp
  obtain ⟨t, ht, hawaits⟩ := (Option.any_eq_true _ _).mp hawaits
  exact (h p ⟨_, _, ⟨rfl, rfl, rfl⟩, hr⟩).apart 3 t ht hmap (of_decide_eq_true hawaits) 2 hcall
    ⟨0, hin⟩

/-- A plugin is uninstalled. -/
def uninstalling : List (Label Request Choice) := [.begin (.uninstall "b"), .act 0 (.flag true)]

theorem uninstalling_spares : plugins.Guarded Spares ⟨boot, [], fun _ => none⟩ uninstalling := by
  refine ⟨trivial, fun p hp => ⟨fun t ht => ?_, fun _ _ => trivial⟩⟩
  obtain rfl := Option.some.inj hp
  obtain rfl := Option.some.inj ht
  intro _ j ⟨h, hh⟩
  cases hh

/-- An uninstall that has the map while no plugin is stuck. -/
theorem uninstall_unspread :
    ∃ p, plugins.exec ⟨boot, [], fun _ => none⟩ uninstalling = some p ∧ Unspread p :=
  ⟨_, rfl, stuck_plugin_unspread ⟨rfl, rfl, rfl⟩ (Machine.run_of_exec uninstalling_spares rfl)⟩

end RevBox.Plugins
