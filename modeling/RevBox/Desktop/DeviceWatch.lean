import Mathlib.Data.List.AList
import RevBox.Support.Machine
import RevBox.Support.Text

/-!
# Desktop — DeviceWatch

`poll_once` and `reprobe` of `services/device_service.rs`.  A poll takes the lock on `known` once,
for the difference between it and the list of devices; what it then has to report it reports
without the lock, so that the steps of two polls, or of a poll and `reprobe`, may come in any order.
-/

namespace RevBox.DeviceWatch

/-- A line of `adb devices -l`. -/
structure DeviceEntry where
  serial : List Char
  state : List Char
  transport : List Char

structure DeviceChangedPayload where
  serial : List Char
  transport : List Char
  present : Bool
  state : List Char
  lastSeen : Int
  deriving DecidableEq

/-- The devices known, with their states. -/
abbrev Known := AList fun _ : List Char => List Char

/-- What a poll makes of the devices. -/
structure Diff where
  known : Known
  events : List DeviceChangedPayload
  appeared : List (List Char)

/-- A device is there, or in another state. -/
def DeviceEntry.changed (d : DeviceEntry) (now : Int) : DeviceChangedPayload :=
  ⟨d.serial, d.transport, true, d.state, now⟩

/-- A device is gone. -/
def goneEvent (now : Int) (serial : List Char) : DeviceChangedPayload :=
  ⟨serial, [], false, "offline".toList, now⟩

/-- One device of the list. -/
def look (now : Int) (r : Diff) (d : DeviceEntry) : Diff :=
  let prev := r.known.lookup d.serial
  { known := r.known.insert d.serial d.state
    events := r.events ++ if prev = some d.state then [] else [d.changed now]
    appeared :=
      r.appeared ++ if d.state = "device".toList ∧ prev ≠ some d.state then [d.serial] else [] }

/-- The difference between what is known and the list, and what is known after.  The order in which
the source goes through the keys is not specified. -/
def diff (now : Int) (known : Known) (devices : List DeviceEntry) : Diff :=
  let r := devices.foldl (look now) ⟨known, [], []⟩
  let seen := devices.map (·.serial)
  let gone := r.known.keys.filter (· ∉ seen)
  { r with
    known := gone.foldl (fun k s => k.erase s) r.known
    events := r.events ++ gone.map (goneEvent now) }

/-- What a poll still has to do: the calls of `device_disconnected`, the events, and then the
devices that `kick_agent_auto` is given. -/
structure Poll where
  disconnects : List (List Char)
  events : List DeviceChangedPayload
  appeared : List (List Char)

/-- What is known, the polls under way, and what has been done. -/
structure Watch where
  known : Known
  polls : List Poll
  disconnected : List (List Char)
  emitted : List DeviceChangedPayload
  kicked : List (List Char)

/-- `DeviceService::new`. -/
def Watch.new : Watch := ⟨∅, [], [], [], []⟩

/-- What can happen: a poll that lists devices, one that finds no `adb`, one whose list fails,
`reprobe`, and the next thing that the `i`-th of the polls under way does. -/
inductive Action where
  | listed (devices : List DeviceEntry) (now : Int)
  | missing
  | failed
  | reprobe
  | go (i : Nat)

/-- What a poll has to do once it has listed devices. -/
def Diff.poll (d : Diff) : Poll where
  disconnects :=
    (d.events.filter fun e => !e.present || e.state ≠ "device".toList).map (·.serial)
  events := d.events
  appeared := d.appeared

/-- The next thing that a poll does; it is over after the last. -/
def Watch.go (w : Watch) (i : Nat) (p : Poll) : Watch :=
  match p with
  | ⟨s :: rest, events, appeared⟩ =>
      { w with polls := w.polls.set i ⟨rest, events, appeared⟩
               disconnected := w.disconnected ++ [s] }
  | ⟨[], e :: rest, appeared⟩ =>
      { w with polls := w.polls.set i ⟨[], rest, appeared⟩, emitted := w.emitted ++ [e] }
  | ⟨[], [], appeared⟩ =>
      { w with polls := w.polls.eraseIdx i, kicked := w.kicked ++ appeared }

/-- One step. -/
def Watch.step (w : Watch) : Action → Option Watch
  | .listed devices now =>
      let d := diff now w.known devices
      some { w with known := d.known, polls := w.polls ++ [d.poll] }
  | .missing => some { w with known := ∅, polls := w.polls ++ [⟨w.known.keys, [], []⟩] }
  | .failed => some w
  | .reprobe => some { w with known := ∅ }
  | .go i => w.polls[i]?.map (w.go i)

/-- The watch. -/
def watch : Machine Watch Action := ⟨(· = .new), Watch.step⟩

/-! ### What a poll makes of one device -/

/-- The lines about a device. -/
def lines (s : List Char) (devices : List DeviceEntry) : List DeviceEntry :=
  devices.filter (·.serial = s)

/-- The state in the last line about a device, if there is one. -/
def lastState (s : List Char) (devices : List DeviceEntry) : Option (List Char) :=
  (lines s devices).getLast?.map (·.state)

/-- What is reported of a device line by line. -/
def reports (now : Int) : Option (List Char) → List DeviceEntry → List DeviceChangedPayload
  | _, [] => []
  | prev, d :: rest =>
      (if prev = some d.state then [] else [d.changed now]) ++ reports now (some d.state) rest

variable {now : Int} {s : List Char}

theorem lines_cons_self {d : DeviceEntry} (h : d.serial = s) (devices : List DeviceEntry) :
    lines s (d :: devices) = d :: lines s devices :=
  List.filter_cons_of_pos (decide_eq_true h)

theorem lines_cons_ne {d : DeviceEntry} (h : d.serial ≠ s) (devices : List DeviceEntry) :
    lines s (d :: devices) = lines s devices :=
  List.filter_cons_of_neg (by simpa using h)

theorem mem_serials {devices : List DeviceEntry} :
    s ∈ devices.map (·.serial) ↔ lines s devices ≠ [] := by
  rw [lines, ne_eq, List.filter_eq_nil_iff]
  simp [eq_comm]

/-- The events about a device. -/
def about (s : List Char) (events : List DeviceChangedPayload) : List DeviceChangedPayload :=
  events.filter (·.serial = s)

theorem about_append (events more : List DeviceChangedPayload) :
    about s (events ++ more) = about s events ++ about s more := List.filter_append ..

/-- **Of a device the list is read line by line.** -/
theorem foldl_look (now : Int) (s : List Char) : ∀ (devices : List DeviceEntry) (r : Diff),
    (devices.foldl (look now) r).known.lookup s =
        (lastState s devices).or (r.known.lookup s) ∧
      about s (devices.foldl (look now) r).events =
        about s r.events ++ reports now (r.known.lookup s) (lines s devices)
  | [], r => ⟨rfl, (List.append_nil _).symm⟩
  | d :: devices, r => by
      obtain ⟨hknown, hevents⟩ := foldl_look now s devices (look now r d)
      rw [List.foldl_cons]
      by_cases hd : d.serial = s
      · have hlook : (look now r d).known.lookup s = some d.state := by
          rw [look, ← hd]
          exact AList.lookup_insert _
        have habout : about s (look now r d).events =
            about s r.events ++ if r.known.lookup s = some d.state then [] else [d.changed now] := by
          rw [look, ← hd, about_append]
          congr 1
          split
          · rfl
          · exact List.filter_cons_of_pos (decide_eq_true rfl)
        constructor
        · rw [hknown, hlook, lastState, lastState, lines_cons_self hd, List.getLast?_cons]
          cases (lines s devices).getLast?
          all_goals rfl
        · rw [hevents, hlook, habout, lines_cons_self hd, reports, List.append_assoc]
      · have hlook : (look now r d).known.lookup s = r.known.lookup s :=
          AList.lookup_insert_ne (Ne.symm hd)
        have habout : about s (look now r d).events = about s r.events := by
          rw [look, about_append]
          split
          · exact List.append_nil _
          · have hne : about s [d.changed now] = [] :=
              List.filter_cons_of_neg fun h => hd (of_decide_eq_true h)
            rw [hne, List.append_nil]
        rw [hknown, hevents, hlook, habout, lastState, lastState, lines_cons_ne hd]
        exact ⟨rfl, rfl⟩

theorem lookup_foldl_erase : ∀ (gone : List (List Char)) (k : Known),
    (gone.foldl (fun k s => k.erase s) k).lookup s = if s ∈ gone then none else k.lookup s
  | [], k => rfl
  | g :: gone, k => by
      rw [List.foldl_cons, lookup_foldl_erase gone]
      by_cases hg : s = g
      · subst hg
        rw [AList.lookup_erase, if_pos List.mem_cons_self, ite_self]
      · rw [AList.lookup_erase_ne hg]
        simp only [List.mem_cons, hg, false_or]

theorem lastState_eq_none {devices : List DeviceEntry} :
    lastState s devices = none ↔ lines s devices = [] := by
  rw [lastState, Option.map_eq_none_iff, List.getLast?_eq_none_iff]

/-- The devices that are gone. -/
theorem mem_gone {known : Known} {devices : List DeviceEntry} :
    s ∈ known.keys.filter (· ∉ devices.map (·.serial)) ↔
      (known.lookup s).isSome = true ∧ lastState s devices = none := by
  rw [List.mem_filter, decide_eq_true_iff, mem_serials, not_not, AList.mem_keys.symm,
    AList.lookup_isSome, lastState_eq_none]

/-- **After a poll that listed devices, known is what the list says.** -/
theorem diff_known (known : Known) (devices : List DeviceEntry) :
    (diff now known devices).known.lookup s = lastState s devices := by
  obtain ⟨hknown, -⟩ := foldl_look now s devices ⟨known, [], []⟩
  rw [diff, lookup_foldl_erase]
  simp only [mem_gone, hknown]
  cases hlast : lastState s devices with
  | some state => simp
  | none =>
      rw [Option.none_or]
      cases hlookup : known.lookup s
      all_goals simp

theorem about_map_gone (now : Int) (s : List Char) : ∀ {gone : List (List Char)}, gone.Nodup →
    about s (gone.map (goneEvent now)) = if s ∈ gone then [goneEvent now s] else []
  | [], _ => rfl
  | g :: gone, h => by
      obtain ⟨hg, hgone⟩ := List.nodup_cons.mp h
      have ih := about_map_gone now s hgone
      rw [List.map_cons]
      by_cases hs : g = s
      · subst hs
        rw [if_neg hg] at ih
        rw [if_pos List.mem_cons_self, ← ih]
        exact List.filter_cons_of_pos (decide_eq_true rfl)
      · have hskip : about s (goneEvent now g :: gone.map (goneEvent now)) =
            about s (gone.map (goneEvent now)) :=
          List.filter_cons_of_neg fun h => hs (of_decide_eq_true h)
        rw [hskip, ih]
        simp only [List.mem_cons, Ne.symm hs, false_or]

/-- **What a poll reports of a device**: each line that says another state than the one before, or
that the device is gone. -/
theorem diff_events (known : Known) (devices : List DeviceEntry) :
    about s (diff now known devices).events =
      if lines s devices = [] ∧ (known.lookup s).isSome = true then [goneEvent now s]
      else reports now (known.lookup s) (lines s devices) := by
  obtain ⟨hknown, hevents⟩ := foldl_look now s devices ⟨known, [], []⟩
  have hgone := about_map_gone now s
    ((devices.foldl (look now) ⟨known, [], []⟩).known.keys_nodup.filter
      (· ∉ devices.map (·.serial)))
  simp only [mem_gone, hknown] at hgone
  rw [diff]
  simp only [about_append]
  rw [hevents, hgone]
  by_cases hlines : lines s devices = []
  · have hlast := lastState_eq_none.mpr hlines
    simp only [hlast, hlines, Option.none_or, reports, about, List.filter_nil, List.nil_append,
      and_true, true_and]
  · have hlast := mt lastState_eq_none.mp hlines
    simp only [hlast, hlines, about, and_false, false_and, if_false, List.filter_nil,
      List.nil_append, List.append_nil]

/-- How often the state changes from line to line. -/
def flaps : Option (List Char) → List DeviceEntry → Nat
  | _, [] => 0
  | prev, d :: rest => (if prev = some d.state then 0 else 1) + flaps (some d.state) rest

/-- How many events a poll owes for a device: one for each change of state from line to line, and
one for a device without a line that was there. -/
def changes (prev : Option (List Char)) (ds : List DeviceEntry) : Nat :=
  if ds = [] ∧ prev.isSome = true then 1 else flaps prev ds

theorem length_reports : ∀ (ds : List DeviceEntry) (prev : Option (List Char)),
    (reports now prev ds).length = flaps prev ds
  | [], _ => rfl
  | d :: ds, prev => by
      rw [reports, flaps, List.length_append, length_reports ds]
      congr 1
      split
      all_goals rfl

theorem length_diff_events (known : Known) (devices : List DeviceEntry) :
    (about s (diff now known devices).events).length =
      changes (known.lookup s) (lines s devices) := by
  rw [diff_events, changes, apply_ite List.length, length_reports]
  rfl

/-- **Of a device listed once or not at all a poll owes one event for a change, and none without.** -/
theorem changes_of_single (prev : Option (List Char)) {ds : List DeviceEntry}
    (h : ds.length ≤ 1) :
    changes prev ds = if prev = ds.head?.map (·.state) then 0 else 1 := by
  match ds, h with
  | [], _ => cases prev <;> rfl
  | [d], _ =>
      rw [changes, if_neg fun h => List.cons_ne_nil _ _ h.1]
      rfl

end RevBox.DeviceWatch
