import Cairn.Canvas.Feed
import Cairn.Proofs.Device.Edges

/-!
# Releases that do not come through

A window tells of keys, buttons and touches; the canvas passes on what it heeds. A control is held after an update if
and only if the last event about it that was heeded is a press. Releases of buttons and touches are always heeded. The
release of a key is not while a text field has the focus, so a key pressed before that and released then stays held.
Nothing is assumed of what the window takes for a repeat, or for a place on the canvas.
-/

namespace Cairn.Canvas

/-! ## What a window tells of a control -/

namespace WindowEvent

/-- The control that an event is about, and whether it is a press. -/
def stroke? : WindowEvent → Option (Control × Bool)
  | .key name pressed _ => some (.key name, pressed)
  | .button _ which pressed => some (.mouse which.number, pressed)
  | .touch .start _ => some (.touch, true)
  | .touch .stop _ | .touch .cancel _ => some (.touch, false)
  | .moved _ | .touch .move _ | .other => none

def isRepeat : WindowEvent → Bool
  | .key _ _ repeated => repeated
  | _ => false

/-- Keys are heeded unless someone is typing, and presses of a button if they are on the canvas. -/
def isHeeded (contains : Area → Spot → Bool) (canvas : Area) (typing : Bool) : WindowEvent → Bool
  | .key _ _ _ => !typing
  | .button p _ pressed => contains canvas p || !pressed
  | _ => true

end WindowEvent

/-- An event about some control that is no repeat. -/
structure Notice where
  pressed : Bool
  heeded : Bool
deriving DecidableEq

/-- Is the control down after these notices? -/
def verdict (down : Bool) (notices : List Notice) : Bool :=
  ((notices.filter (·.heeded)).getLast?.map (·.pressed)).getD down

theorem verdict_append (down : Bool) (ns ns' : List Notice) :
    verdict down (ns ++ ns') = verdict (verdict down ns) ns' := by
  simp only [verdict, List.filter_append, List.getLast?_append]
  cases (ns'.filter (·.heeded)).getLast? with
  | none => simp
  | some n => simp

/-! ## Turns -/

/-- What a host does with a device: it feeds the events of a frame, with the canvas and the focus as they are then, or
brings the device up to date. -/
inductive Turn where
  | feed (canvas : Area) (typing : Bool) (events : List WindowEvent)
  | update (dt : Float)

section

variable (contains : Area → Spot → Bool) (c : Control)

def turn (device : Device) : Turn → Device
  | .feed canvas typing events => feed contains canvas typing device events
  | .update dt => device.update dt

def turns (device : Device) (ts : List Turn) : Device := ts.foldl (turn contains) device

def WindowEvent.notice? (canvas : Area) (typing : Bool) (e : WindowEvent) : Option Notice :=
  match e.stroke? with
  | some (c', pressed) =>
    if c'.folded = c.folded ∧ e.isRepeat = false then some ⟨pressed, e.isHeeded contains canvas typing⟩ else none
  | none => none

def Turn.notices : Turn → List Notice
  | .feed canvas typing events => events.filterMap (·.notice? contains c canvas typing)
  | .update _ => []

/-- All that the window tells of a control in the course of some turns, without repeats. -/
def notices (ts : List Turn) : List Notice := ts.flatMap (·.notices contains c)

end

variable {contains : Area → Spot → Bool} {c : Control}

/-- An event is passed on exactly if it is heeded and no repeat. -/
theorem stroke_deviceEvent (canvas : Area) (typing : Bool) (e : WindowEvent) :
    (deviceEvent? contains canvas typing e).bind Device.Event.stroke? =
      if e.isHeeded contains canvas typing = true ∧ e.isRepeat = false then e.stroke? else none := by
  cases e with
  | key name pressed repeated => cases pressed <;> cases repeated <;> cases typing <;>
      simp [deviceEvent?, WindowEvent.isHeeded, WindowEvent.isRepeat, WindowEvent.stroke?, Device.Event.stroke?]
  | button p which pressed => cases pressed <;> cases h : contains canvas p <;>
      simp [deviceEvent?, WindowEvent.isHeeded, WindowEvent.isRepeat, WindowEvent.stroke?, Device.Event.stroke?, h]
  | touch stage p => cases stage <;> rfl
  | moved p => rfl
  | other => rfl

theorem down_feedOne (canvas : Area) (typing : Bool) (device : Device) (e : WindowEvent) :
    ((feedOne contains canvas typing device e).switch c).down =
      verdict (device.switch c).down (e.notice? contains c canvas typing).toList := by
  -- The device is struck by what is passed on, which is an event that gives a heeded notice.
  have hpassed : ((feedOne contains canvas typing device e).switch c).down =
      match (deviceEvent? contains canvas typing e).bind Device.Event.stroke? with
      | some (c', pressed) => if c'.folded = c.folded then pressed else (device.switch c).down
      | none => (device.switch c).down := by
    unfold feedOne
    cases deviceEvent? contains canvas typing e with
    | none => rfl
    | some e' =>
        simp only [Device.switch_handle, Option.bind_some]
        cases e'.stroke? with
        | none => rfl
        | some stroke => simp only; split <;> simp
  rw [hpassed, stroke_deviceEvent]
  unfold WindowEvent.notice?
  cases e.stroke? with
  | none => simp [verdict]
  | some stroke =>
      by_cases hc : stroke.1.folded = c.folded <;> cases hr : e.isRepeat <;>
        cases e.isHeeded contains canvas typing <;> simp [verdict, hc]

theorem down_feed (canvas : Area) (typing : Bool) (device : Device) (events : List WindowEvent) :
    ((feed contains canvas typing device events).switch c).down =
      verdict (device.switch c).down (events.filterMap (·.notice? contains c canvas typing)) := by
  induction events generalizing device with
  | nil => rfl
  | cons e rest ih =>
      have hnotices : (e :: rest).filterMap (·.notice? contains c canvas typing) =
          (e.notice? contains c canvas typing).toList ++ rest.filterMap (·.notice? contains c canvas typing) := by
        rw [List.filterMap_cons]
        cases e.notice? contains c canvas typing with
        | none => rfl
        | some n => rfl
      rw [hnotices, verdict_append, ← down_feedOne]
      exact ih (feedOne contains canvas typing device e)

theorem down_turn (device : Device) (t : Turn) :
    ((turn contains device t).switch c).down = verdict (device.switch c).down (t.notices contains c) := by
  cases t with
  | feed canvas typing events => exact down_feed canvas typing device events
  | update dt => rw [turn, Device.switch_update]; rfl

theorem down_turns (device : Device) (ts : List Turn) :
    ((turns contains device ts).switch c).down = verdict (device.switch c).down (notices contains c ts) := by
  induction ts generalizing device with
  | nil => rfl
  | cons t rest ih =>
      rw [notices, List.flatMap_cons, verdict_append, ← down_turn]
      exact ih (turn contains device t)

/-! ## Releases -/

/-- Only the release of a key may be passed over. -/
theorem WindowEvent.key_of_unheeded {canvas : Area} {typing : Bool} {e : WindowEvent} {c' : Control}
    (h : e.stroke? = some (c', false)) (hheeded : e.isHeeded contains canvas typing = false) :
    ∃ name, c' = .key name := by
  cases e with
  | key name pressed repeated =>
      cases h
      exact ⟨name, rfl⟩
  | button p which pressed =>
      cases h
      simp [isHeeded] at hheeded
  | _ => cases hheeded

theorem key_of_folded {c' : Control} {name : String} (hkey : c' = .key name) (h : c'.folded = c.folded) :
    ∃ name, c = .key name := by
  subst hkey
  cases c with
  | key name' => exact ⟨name', rfl⟩
  | _ => cases h

theorem WindowEvent.key_of_notice {canvas : Area} {typing : Bool} {e : WindowEvent} {n : Notice}
    (hn : e.notice? contains c canvas typing = some n) (hup : n.pressed = false) (hheeded : n.heeded = false) :
    ∃ name, c = .key name := by
  unfold notice? at hn
  cases hstroke : e.stroke? with
  | none => simp [hstroke] at hn
  | some stroke =>
      obtain ⟨c', pressed⟩ := stroke
      simp only [hstroke, Option.ite_none_right_eq_some, Option.some.injEq] at hn
      obtain ⟨⟨hc, -⟩, rfl⟩ := hn
      cases hup
      obtain ⟨name, hname⟩ := key_of_unheeded hstroke hheeded
      exact key_of_folded hname hc

theorem key_of_notices {ts : List Turn} {n : Notice} (hn : n ∈ notices contains c ts) (hup : n.pressed = false)
    (hheeded : n.heeded = false) : ∃ name, c = .key name := by
  obtain ⟨t, -, hn⟩ := List.mem_flatMap.1 hn
  cases t with
  | feed canvas typing events =>
      obtain ⟨e, -, hnotice⟩ := List.mem_filterMap.1 hn
      exact e.key_of_notice hnotice hup hheeded
  | update dt => cases hn

theorem verdict_of_heeded {down : Bool} {ns : List Notice} {n : Notice} (hlast : ns.getLast? = some n)
    (hheeded : n.heeded = true) : verdict down ns = n.pressed := by
  obtain ⟨front, rfl⟩ := List.getLast?_eq_some_iff.1 hlast
  simp [verdict, hheeded]

/-- When the last event about a control was a release, the control is held after the next update exactly if it is a
key, that release was passed over since a text field had the focus, and the last event about it that was heeded is a
press. So buttons and touches do not stick, nor do keys released while nobody types. -/
theorem held_after_release_iff (contains : Area → Spot → Bool) (bindings : Dict String (List Binding)) (ts : List Turn)
    (dt : Float) (c : Control) {n : Notice} (hlast : (notices contains c ts).getLast? = some n)
    (hup : n.pressed = false) :
    ((turns contains { bindings } ts).update dt).reads c .held = true ↔
      (∃ name, c = .key name) ∧ n.heeded = false ∧
        ∃ m ∈ ((notices contains c ts).filter (·.heeded)).getLast?, m.pressed = true := by
  have hnew : (Device.switch { bindings } c).down = false := by
    cases c <;> rfl
  have hheld : ((turns contains { bindings } ts).update dt).reads c .held = verdict false (notices contains c ts) := by
    rw [Device.reads_eq_switch, Device.switch_update, Switch.held_commit, down_turns, hnew]
  rw [hheld]
  cases hheeded : n.heeded with
  | true =>
      rw [verdict_of_heeded hlast hheeded, hup]
      simp
  | false =>
      have hkey := key_of_notices (List.mem_of_getLast? hlast) hup hheeded
      unfold verdict
      cases ((notices contains c ts).filter (·.heeded)).getLast? with
      | none => simp
      | some m => simp [hkey]

def somewhere : Area := ⟨⟨0.0, 0.0⟩, ⟨100.0, 100.0⟩⟩

/-- A window that takes every place for one on the canvas. -/
def everywhere : Area → Spot → Bool := fun _ _ => true

/-- The key is pressed, and again as a repeat; it is released and pressed again while someone types, and released when
nobody does. -/
def typedInBetween : List Turn :=
  [.feed somewhere false [.key "A" true false, .key "A" true true], .update 0.5,
    .feed somewhere true [.key "A" false false, .key "A" true false], .update 0.5,
    .feed somewhere false [.key "A" false false]]

theorem held_after_release_iff_typed :
    (notices everywhere (.key "a") typedInBetween).getLast? = some ⟨false, true⟩ ∧
      ¬ ((turns everywhere {} typedInBetween).update 0.5).reads (.key "a") .held = true := by
  have hlast : (notices everywhere (.key "a") typedInBetween).getLast? = some ⟨false, true⟩ := by decide
  refine ⟨hlast, fun hheld => ?_⟩
  obtain ⟨-, hheeded, -⟩ := (held_after_release_iff everywhere {} typedInBetween 0.5 (.key "a") hlast rfl).1 hheld
  cases hheeded

/-- The key is pressed, and released while someone types. -/
def typedAtTheEnd : List Turn :=
  [.feed somewhere false [.key "A" true false], .update 0.5, .feed somewhere true [.key "A" false false]]

theorem key_sticks_after_typing :
    ¬ ∀ (contains : Area → Spot → Bool) (bindings : Dict String (List Binding)) (ts : List Turn) (dt : Float)
      (c : Control) (n : Notice), (notices contains c ts).getLast? = some n → n.pressed = false →
        ((turns contains { bindings } ts).update dt).reads c .held = false := by
  intro h
  have hlast : (notices everywhere (.key "A") typedAtTheEnd).getLast? = some ⟨false, false⟩ := by decide
  have hheld : ((turns everywhere {} typedAtTheEnd).update 0.5).reads (.key "A") .held = true := by decide
  rw [h everywhere {} typedAtTheEnd 0.5 (.key "A") _ hlast rfl] at hheld
  cases hheld

end Cairn.Canvas
