import Cairn.Dict

/-!
# Timed buffer

An action is armed for some seconds and can be consumed while time is left.
-/

namespace Cairn

/-- The seconds left of each armed action. -/
structure TimedBuffer where
  left : Dict String Float := {}

namespace TimedBuffer

/-- Arms `action` anew, unless `seconds` is not positive. -/
def arm (b : TimedBuffer) (action : String) (seconds : Float) : TimedBuffer :=
  if 0.0 < seconds then ⟨b.left.insert action seconds⟩ else b

/-- Is `action` armed? -/
def isArmed (b : TimedBuffer) (action : String) : Bool := b.left.contains action

/-- The seconds left of `action`; none when it is not armed. -/
def remaining (b : TimedBuffer) (action : String) : Float := (b.left.get? action).getD 0.0

/-- Disarms `action`. -/
def disarm (b : TimedBuffer) (action : String) : TimedBuffer := ⟨b.left.erase action⟩

/-- Lets `dt` seconds pass; actions without time left are disarmed. -/
def age (b : TimedBuffer) (dt : Float) : TimedBuffer :=
  ⟨b.left.filterMap fun left => if 0.0 < left - dt then some (left - dt) else none⟩

/-! ## What is left -/

variable {b : TimedBuffer}

theorem get?_arm (b : TimedBuffer) (action other : String) (seconds : Float) :
    (b.arm action seconds).left.get? other
      = if action = other ∧ 0.0 < seconds then some seconds else b.left.get? other := by
  unfold arm
  split
  next h => simp [h]
  next h => simp [h]

theorem get?_age (h : b.left.keys.Nodup) (action : String) (dt : Float) :
    (b.age dt).left.get? action
      = (b.left.get? action).bind fun left => if 0.0 < left - dt then some (left - dt) else none :=
  Dict.get?_filterMap h _ action

theorem get?_arm_of_ne (b : TimedBuffer) {action other : String} (h : other ≠ action) (seconds : Float) :
    (b.arm action seconds).left.get? other = b.left.get? other := by
  rw [get?_arm, if_neg fun h' => h h'.1.symm]

theorem get?_disarm_of_ne (b : TimedBuffer) {action other : String} (h : other ≠ action) :
    (b.disarm action).left.get? other = b.left.get? other := by
  simp [disarm, h.symm]

end TimedBuffer

end Cairn
