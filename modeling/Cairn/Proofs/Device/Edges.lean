import Cairn.Device.Basic
import Mathlib.Data.List.Chain

/-!
# Edges of buttons

Each button of a device is a switch of its own: an event strikes it or leaves it alone, and every frame commits it.
Whatever the events are, a switch goes down as often as it goes up, and once more if it is held in the end.
-/

namespace Cairn

/-! ## Switches -/

/-- What the sets of a kind of buttons say of one button. -/
@[ext]
structure Switch where
  down : Bool
  tapped : Bool
  held : Bool
  pressed : Bool
  released : Bool

namespace Switch

def strike (pressed : Bool) (s : Switch) : Switch :=
  if pressed then { s with down := true, tapped := true } else { s with down := false }

def commit (s : Switch) : Switch where
  down := s.down
  tapped := false
  held := s.down
  pressed := s.tapped && !s.held
  released := (s.held || s.tapped) && !s.down

def reads (s : Switch) : Phase → Bool
  | .pressed => s.pressed
  | .held => s.held
  | .released => s.released

/-- Whatever is down was held before or has been tapped since. -/
def Rooted (s : Switch) : Prop := s.down = true → s.held = true ∨ s.tapped = true

variable {s : Switch} {pressed : Bool} {phase : Phase}

@[simp] theorem reads_strike : (s.strike pressed).reads phase = s.reads phase := by
  cases pressed <;> cases phase <;> rfl

@[simp] theorem down_strike : (s.strike pressed).down = pressed := by
  cases pressed <;> rfl

@[simp] theorem held_commit : s.commit.reads .held = s.down := rfl

theorem rooted_strike : (s.strike pressed).Rooted := by
  cases pressed with
  | true => exact fun _ => .inr rfl
  | false => exact fun hdown => by simp at hdown

theorem rooted_commit : s.commit.Rooted := .inl

/-- What a commit reads as pressed and released is the difference in what is held. -/
theorem Rooted.edges (h : s.Rooted) :
    (s.commit.reads .pressed).toNat + (s.reads .held).toNat =
      (s.commit.reads .released).toNat + (s.commit.reads .held).toNat := by
  obtain ⟨down, tapped, held, pressed, released⟩ := s
  cases down <;> cases tapped <;> cases held <;> simp [Rooted, Switch.commit, reads] at h ⊢

theorem not_released_and_held : ¬ (s.commit.reads .released = true ∧ s.commit.reads .held = true) := by
  simp [commit, reads]

theorem not_pressed_of_held (h : s.reads .held = true) : s.commit.reads .pressed = false := by
  have hheld : s.held = true := h
  simp [commit, reads, hheld]

end Switch

namespace Buttons

variable {κ : Type} [DecidableEq κ]

def switch (s : Buttons κ) (b : κ) : Switch where
  down := b ∈ s.down
  tapped := b ∈ s.tapped
  held := b ∈ s.held
  pressed := b ∈ s.pressed
  released := b ∈ s.released

variable {s : Buttons κ} {b b' : κ}

theorem reads_eq_switch (phase : Phase) : s.reads b phase = (s.switch b).reads phase := by
  cases phase <;> rfl

theorem switch_press : (s.press b').switch b = if b' = b then (s.switch b).strike true else s.switch b := by
  split
  · next h => exact Switch.ext (by simp [switch, h]) (by simp [switch, press, Switch.strike, h]) rfl rfl rfl
  · next h =>
      have hne : b ≠ b' := Ne.symm h
      exact Switch.ext (by simp [switch, hne]) (by simp [switch, press, hne]) rfl rfl rfl

theorem switch_release : (s.release b').switch b = if b' = b then (s.switch b).strike false else s.switch b := by
  split
  · next h => exact Switch.ext (by simp [switch, h]) rfl rfl rfl rfl
  · next h =>
      have hne : b ≠ b' := Ne.symm h
      exact Switch.ext (by simp [switch, hne]) rfl rfl rfl rfl

theorem switch_commit : s.commit.switch b = (s.switch b).commit := by
  simp [switch, commit, Switch.commit, Bool.and_or_distrib_right]

end Buttons

/-! ## Devices -/

/-- Anything on a device that can be down; keys have names in any case. -/
inductive Control where
  | key (name : String)
  | mouse (button : Nat)
  | pad (button : Nat)
  | touch
deriving DecidableEq

/-- The control as the device keeps it. -/
def Control.folded : Control → Control
  | .key name => .key (Text.lowercase name)
  | c => c

namespace Device

def reads (d : Device) (c : Control) (phase : Phase) : Bool :=
  match c with
  | .key name => d.key name phase
  | .mouse button => d.mouse.reads button phase
  | .pad button => d.pad.reads button phase
  | .touch => d.touch.reads () phase

def switch (d : Device) : Control → Switch
  | .key name => d.keys.switch (Text.lowercase name)
  | .mouse button => d.mouse.switch button
  | .pad button => d.pad.switch button
  | .touch => d.touch.switch ()

/-- Which control an event strikes, and whether it is a press. -/
def Event.stroke? : Event → Option (Control × Bool)
  | .keyDown key => some (.key key, true)
  | .keyUp key => some (.key key, false)
  | .mouseDown button => some (.mouse button, true)
  | .mouseUp button => some (.mouse button, false)
  | .touchStart _ => some (.touch, true)
  | .touchEnd => some (.touch, false)
  | .padDown button => some (.pad button, true)
  | .padUp button => some (.pad button, false)
  | .mouseMove _ | .touchMove _ | .padAxis _ _ => none

variable {d : Device} {c : Control}

theorem reads_eq_switch (phase : Phase) : d.reads c phase = (d.switch c).reads phase := by
  cases c <;> exact Buttons.reads_eq_switch phase

theorem switch_update (dt : Float) : (d.update dt).switch c = (d.switch c).commit := by
  cases c <;> exact Buttons.switch_commit

/-- An event strikes the control it is about and no other. -/
theorem switch_handle (e : Event) :
    (d.handle e).switch c =
      match e.stroke? with
      | some (c', pressed) => if c'.folded = c.folded then (d.switch c).strike pressed else d.switch c
      | none => d.switch c := by
  cases e <;> cases c <;>
    simp [handle, switch, Event.stroke?, Control.folded, Buttons.switch_press, Buttons.switch_release]

theorem reads_handle (e : Event) (phase : Phase) : (d.handle e).reads c phase = d.reads c phase := by
  rw [reads_eq_switch, reads_eq_switch, switch_handle]
  split
  · split
    · exact Switch.reads_strike
    · rfl
  · rfl

theorem rooted_handle (h : (d.switch c).Rooted) (e : Event) : ((d.handle e).switch c).Rooted := by
  rw [switch_handle]
  split
  · split
    · exact Switch.rooted_strike
    · exact h
  · exact h

/-! ## Frames -/

/-- What happens to a device. -/
inductive Occurrence where
  | event (e : Event)
  | update (dt : Float)

/-- The device right after each update. -/
def frames (d : Device) : List Occurrence → List Device
  | [] => []
  | .event e :: rest => (d.handle e).frames rest
  | .update dt :: rest => d.update dt :: (d.update dt).frames rest

/-- The device in the latest frame, or as it was. -/
def latest (d : Device) (course : List Occurrence) : Device := (d.frames course).getLast?.getD d

theorem latest_update (dt : Float) (rest : List Occurrence) :
    d.latest (.update dt :: rest) = (d.update dt).latest rest := by
  simp [latest, frames, List.getLast?_cons]

/-- An event alone changes nothing that can be read. -/
theorem reads_latest_event (e : Event) (rest : List Occurrence) (phase : Phase) :
    (d.latest (.event e :: rest)).reads c phase = ((d.handle e).latest rest).reads c phase := by
  unfold latest
  rw [frames]
  cases ((d.handle e).frames rest).getLast? with
  | none => exact (reads_handle e phase).symm
  | some d' => rfl

/-- Over a run, presses are as many as releases, up to what is held before and after. -/
theorem frames_balance (h : (d.switch c).Rooted) (course : List Occurrence) :
    (d.frames course).countP (·.reads c .pressed) + (d.reads c .held).toNat =
      (d.frames course).countP (·.reads c .released) + ((d.latest course).reads c .held).toNat := by
  -- Events keep the switch rooted and every commit roots it anew, so each commit adds to both sides alike.
  induction course generalizing d with
  | nil => simp [frames, latest]
  | cons occurrence rest ih =>
      cases occurrence with
      | event e =>
          have hrest := ih (rooted_handle h e)
          rw [reads_handle] at hrest
          rw [reads_latest_event]
          exact hrest
      | update dt =>
          have hcommit := h.edges
          have hrest := ih (d := d.update dt) (by rw [switch_update]; exact Switch.rooted_commit)
          simp only [← switch_update dt, ← reads_eq_switch] at hcommit
          rw [latest_update, frames, List.countP_cons, List.countP_cons]
          have htoNat (b : Bool) : b.toNat = if b then 1 else 0 := by cases b <;> rfl
          simp only [htoNat] at hcommit hrest ⊢
          omega

theorem committed_of_mem_frames {d' : Device} {course : List Occurrence} (h : d' ∈ d.frames course) :
    ∃ s : Switch, d'.switch c = s.commit := by
  induction course generalizing d with
  | nil => simp [frames] at h
  | cons occurrence rest ih =>
      cases occurrence with
      | event e => exact ih h
      | update dt =>
          rcases List.mem_cons.1 h with rfl | h
          · exact ⟨_, switch_update dt⟩
          · exact ih h

/-- What is held in a frame is not pressed in the next one. -/
theorem isChain_frames (course : List Occurrence) :
    (d :: d.frames course).IsChain fun d d' => d.reads c .held = true → d'.reads c .pressed = false := by
  induction course generalizing d with
  | nil => simp [frames]
  | cons occurrence rest ih =>
      cases occurrence with
      | event e =>
          have hrest := List.isChain_cons.1 (ih (d := d.handle e))
          simp only [reads_handle] at hrest
          exact List.isChain_cons.2 hrest
      | update dt =>
          refine List.isChain_cons_cons.2 ⟨fun hheld => ?_, ih⟩
          rw [reads_eq_switch] at hheld
          rw [reads_eq_switch, switch_update]
          exact Switch.not_pressed_of_held hheld

end Device

/-- In the frames of a new device, a control reads as pressed as often as it reads as released, and once more if it is
held in the latest one. It is never released and held at once, and never pressed when it was held the frame before. -/
theorem edges_conserved (bindings : Dict String (List Binding)) (course : List Device.Occurrence) (c : Control) :
    let d : Device := { bindings }
    (((d.frames course).countP (·.reads c .pressed) : Int) - (d.frames course).countP (·.reads c .released) =
      if (d.latest course).reads c .held then 1 else 0) ∧
    (∀ d' ∈ d.frames course, ¬ (d'.reads c .released = true ∧ d'.reads c .held = true)) ∧
    (d.frames course).IsChain fun d d' => d.reads c .held = true → d'.reads c .pressed = false := by
  intro d
  have hnew : d.switch c = ⟨false, false, false, false, false⟩ := by
    cases c <;> rfl
  refine ⟨?_, fun d' hd' => ?_, ?_⟩
  · have hbalance := Device.frames_balance (d := d) (c := c) (by simp [hnew, Switch.Rooted]) course
    have hheld : d.reads c .held = false := by rw [Device.reads_eq_switch, hnew]; rfl
    cases hlatest : (d.latest course).reads c .held with
    | true =>
        simp only [hheld, hlatest, Bool.toNat_false, Bool.toNat_true] at hbalance
        simp only [↓reduceIte]
        omega
    | false =>
        simp only [hheld, hlatest, Bool.toNat_false] at hbalance
        simp only [Bool.false_eq_true, ↓reduceIte]
        omega
  · obtain ⟨s, hs⟩ := Device.committed_of_mem_frames (c := c) hd'
    rw [Device.reads_eq_switch, Device.reads_eq_switch, hs]
    exact Switch.not_released_and_held
  · exact (List.isChain_cons.1 (Device.isChain_frames course)).2

/-- A tap, a press that lasts, and its end between two more taps. -/
def tapAndHold : List Device.Occurrence :=
  [.event (.mouseDown 2), .event (.mouseUp 2), .update 0.5, .event (.mouseDown 2), .update 0.5, .update 0.5,
    .event (.mouseUp 2), .event (.mouseDown 2), .event (.mouseUp 2), .update 0.5]

theorem edges_conserved_tapAndHold :
    (Device.frames {} tapAndHold).map (fun d => (d.reads (.mouse 2) .pressed, d.reads (.mouse 2) .released)) =
        [(true, true), (true, false), (false, false), (false, true)] ∧
      ((Device.frames {} tapAndHold).countP (·.reads (.mouse 2) .pressed) : Int) -
        (Device.frames {} tapAndHold).countP (·.reads (.mouse 2) .released) = 0 ∧
      (Device.frames {} tapAndHold).IsChain fun d d' =>
        d.reads (.mouse 2) .held = true → d'.reads (.mouse 2) .pressed = false := by
  obtain ⟨hcount, -, hchain⟩ := edges_conserved {} tapAndHold (.mouse 2)
  exact ⟨by decide, hcount, hchain⟩

end Cairn
