import Cairn.Device.Basic
import Mathlib.Data.List.Induction
import Mathlib.Tactic.Common

/-!
# The timed buffer over time

An action that was armed stays armed until it is consumed or cleared, or an update leaves it no time. The time left is
what the latest call to arm it gave, less the times of the updates since, whatever floats these are.
-/

namespace Cairn

namespace Device

/-! ## Calls -/

/-- What is done to a device: events and frames, and what is asked of its timed buffer. -/
inductive Call where
  | event (e : Event)
  | update (dt : Float)
  | buffer (action : String) (seconds : Float)
  | consume (action : String)
  | clear (action : String)

def call (d : Device) : Call → Device
  | .event e => d.handle e
  | .update dt => d.update dt
  | .buffer action seconds => d.arm action seconds
  | .consume action => (d.consume action).2
  | .clear action => d.disarm action

/-- The device after all of these. -/
def calls (d : Device) (course : List Call) : Device := course.foldl call d

namespace Call

/-- The times that the updates let pass. -/
def times (course : List Call) : List Float :=
  course.filterMap fun | .update dt => some dt | _ => none

/-- `seconds` less the times of the updates, one by one. -/
def timeLeft (seconds : Float) (since : List Call) : Float := (times since).foldl (· - ·) seconds

def Arms (action : String) (c : Call) : Prop := ∃ seconds, c = .buffer action seconds ∧ 0.0 < seconds

/-- The latest call to arm `action` gave it `seconds`, and `since` is what came after it. -/
structure ArmedLast (action : String) (course : List Call) (seconds : Float) (since : List Call) : Prop where
  armed : ∃ before, course = before ++ .buffer action seconds :: since
  positive : 0.0 < seconds
  last : ∀ c ∈ since, ¬c.Arms action

/-- Nothing took `action` away, and no update left it without time. -/
structure Lasts (action : String) (seconds : Float) (since : List Call) : Prop where
  kept : .consume action ∉ since ∧ .clear action ∉ since
  inTime : ∀ front dt back, since = front ++ .update dt :: back → 0.0 < timeLeft seconds (front ++ [.update dt])

/-- `action` is armed, with `left` seconds to go. -/
def Running (action : String) (course : List Call) (left : Float) : Prop :=
  ∃ seconds since, ArmedLast action course seconds since ∧ Lasts action seconds since ∧ timeLeft seconds since = left

/-! ## One more call -/

variable {action : String} {course since : List Call} {c : Call} {seconds left dt : Float}

@[simp] theorem timeLeft_concat_update : timeLeft seconds (since ++ [.update dt]) = timeLeft seconds since - dt := by
  simp [timeLeft, times]

theorem timeLeft_concat (h : ∀ dt, c ≠ .update dt) : timeLeft seconds (since ++ [c]) = timeLeft seconds since := by
  cases c with
  | update dt => exact absurd rfl (h dt)
  | _ => simp [timeLeft, times]

theorem armedLast_concat :
    ArmedLast action (course ++ [c]) seconds since ↔
      (c = .buffer action seconds ∧ 0.0 < seconds ∧ since = []) ∨
        ∃ earlier, since = earlier ++ [c] ∧ ¬c.Arms action ∧ ArmedLast action course seconds earlier := by
  constructor
  · rintro ⟨⟨before, hcourse⟩, hpositive, hlast⟩
    cases since using List.reverseRecOn with
    | nil =>
        obtain ⟨-, hc⟩ := List.append_inj' hcourse rfl
        exact .inl ⟨List.singleton_inj.1 hc, hpositive, rfl⟩
    | append_singleton earlier c' =>
        rw [← List.cons_append, ← List.append_assoc] at hcourse
        obtain ⟨hearlier, hc⟩ := List.append_inj' hcourse rfl
        cases hc
        rw [List.forall_mem_append] at hlast
        exact .inr ⟨earlier, rfl, hlast.2 c (by simp), ⟨before, hearlier⟩, hpositive, hlast.1⟩
  · rintro (⟨rfl, hpositive, rfl⟩ | ⟨earlier, rfl, hc, ⟨before, rfl⟩, hpositive, hlast⟩)
    · exact ⟨⟨course, rfl⟩, hpositive, by simp⟩
    · refine ⟨⟨before, by simp⟩, hpositive, ?_⟩
      rw [List.forall_mem_append]
      exact ⟨hlast, by simpa using hc⟩

@[simp] theorem lasts_nil : Lasts action seconds [] := ⟨by simp, by simp⟩

theorem lasts_concat :
    Lasts action seconds (since ++ [c]) ↔
      Lasts action seconds since ∧ c ≠ .consume action ∧ c ≠ .clear action ∧
        ∀ dt, c = .update dt → 0.0 < timeLeft seconds since - dt := by
  constructor
  · rintro ⟨⟨hconsume, hclear⟩, htime⟩
    rw [List.mem_append, not_or, List.mem_singleton] at hconsume hclear
    refine ⟨⟨⟨hconsume.1, hclear.1⟩, fun front dt back hsince => ?_⟩, Ne.symm hconsume.2, Ne.symm hclear.2, ?_⟩
    · exact htime front dt (back ++ [c]) (by simp [hsince])
    · rintro dt rfl
      simpa using htime since dt [] rfl
  · rintro ⟨⟨⟨hconsume, hclear⟩, htime⟩, hc, hc', hnow⟩
    refine ⟨⟨by simp [hconsume, Ne.symm hc], by simp [hclear, Ne.symm hc']⟩, fun front dt back hsince => ?_⟩
    cases back using List.reverseRecOn with
    | nil =>
        obtain ⟨rfl, hc⟩ := List.append_inj' hsince rfl
        simpa using hnow dt (List.singleton_inj.1 hc)
    | append_singleton back c' =>
        rw [← List.cons_append, ← List.append_assoc] at hsince
        exact htime front dt back (List.append_inj' hsince rfl).1

theorem Lasts.positive (h : Lasts action seconds since) (hseconds : 0.0 < seconds) : 0.0 < timeLeft seconds since := by
  induction since using List.reverseRecOn with
  | nil => exact hseconds
  | append_singleton since c ih =>
      obtain ⟨hsince, -, -, hnow⟩ := lasts_concat.1 h
      cases c with
      | update dt => simpa using hnow dt rfl
      | _ =>
        rw [timeLeft_concat (by simp)]
        exact ih hsince

@[simp] theorem not_running_nil : ¬Running action [] left := by
  rintro ⟨seconds, since, ⟨⟨before, hcourse⟩, -, -⟩, -⟩
  simp at hcourse

theorem running_armed (hseconds : 0.0 < seconds) :
    Running action (course ++ [.buffer action seconds]) left ↔ seconds = left := by
  constructor
  · rintro ⟨seconds', since, harmed, -, rfl⟩
    rcases armedLast_concat.1 harmed with ⟨hc, -, rfl⟩ | ⟨earlier, -, hc, -⟩
    · cases hc
      rfl
    · exact absurd ⟨seconds, rfl, hseconds⟩ hc
  · rintro rfl
    exact ⟨seconds, [], armedLast_concat.2 (.inl ⟨rfl, hseconds, rfl⟩), lasts_nil, rfl⟩

/-- A call that does not arm the action only adds to what came after it was armed. -/
theorem running_concat (hc : ¬c.Arms action) :
    Running action (course ++ [c]) left ↔
      ∃ seconds since, ArmedLast action course seconds since ∧ Lasts action seconds (since ++ [c]) ∧
        timeLeft seconds (since ++ [c]) = left := by
  constructor
  · rintro ⟨seconds, since, harmed, hlasts, hleft⟩
    rcases armedLast_concat.1 harmed with ⟨rfl, hseconds, -⟩ | ⟨earlier, rfl, -, harmed⟩
    · exact absurd ⟨seconds, rfl, hseconds⟩ hc
    · exact ⟨seconds, earlier, harmed, hlasts, hleft⟩
  · rintro ⟨seconds, since, harmed, hlasts, hleft⟩
    exact ⟨seconds, since ++ [c], armedLast_concat.2 (.inr ⟨since, rfl, hc, harmed⟩), hlasts, hleft⟩

theorem not_running_disarmed (hc : c = .consume action ∨ c = .clear action) :
    ¬Running action (course ++ [c]) left := by
  rw [running_concat (by rcases hc with rfl | rfl <;> simp [Arms])]
  rintro ⟨seconds, since, -, hlasts, -⟩
  obtain ⟨-, hconsume, hclear, -⟩ := lasts_concat.1 hlasts
  exact hc.elim hconsume hclear

theorem running_update :
    Running action (course ++ [.update dt]) left ↔
      ∃ left', Running action course left' ∧ 0.0 < left' - dt ∧ left' - dt = left := by
  rw [running_concat (by simp [Arms])]
  constructor
  · rintro ⟨seconds, since, harmed, hlasts, rfl⟩
    obtain ⟨hlasts, -, -, hnow⟩ := lasts_concat.1 hlasts
    exact ⟨_, ⟨seconds, since, harmed, hlasts, rfl⟩, hnow dt rfl, by simp⟩
  · rintro ⟨_, ⟨seconds, since, harmed, hlasts, rfl⟩, hnow, rfl⟩
    refine ⟨seconds, since, harmed, lasts_concat.2 ⟨hlasts, by simp, by simp, ?_⟩, by simp⟩
    rintro _ ⟨⟩
    exact hnow

theorem running_other (hc : ¬c.Arms action) (hdisarm : c ≠ .consume action ∧ c ≠ .clear action)
    (hupdate : ∀ dt, c ≠ .update dt) : Running action (course ++ [c]) left ↔ Running action course left := by
  rw [running_concat hc, Running]
  simp [lasts_concat, timeLeft_concat hupdate, hdisarm, hupdate]

/-! ## What a call makes of the time left -/

def heed (action : String) (left? : Option Float) : Call → Option Float
  | .event _ => left?
  | .update dt => left?.bind fun left => if 0.0 < left - dt then some (left - dt) else none
  | .buffer other seconds => if other = action ∧ 0.0 < seconds then some seconds else left?
  | .consume other => if other = action then none else left?
  | .clear other => if other = action then none else left?

theorem disarmed_running {left? : Option Float} (h : ∀ left, left? = some left ↔ Running action course left)
    {other : String} (hc : c = .consume other ∨ c = .clear other) (left : Float) :
    (if other = action then none else left?) = some left ↔ Running action (course ++ [c]) left := by
  split
  next hother =>
    subst hother
    simp [not_running_disarmed hc]
  next hother =>
    rw [h]
    rcases hc with rfl | rfl <;> rw [running_other (by simp [Arms]) (by simpa using hother) (by simp)]

theorem heed_running {left? : Option Float} (h : ∀ left, left? = some left ↔ Running action course left) (c : Call)
    (left : Float) : c.heed action left? = some left ↔ Running action (course ++ [c]) left := by
  cases c with
  | event e => rw [heed, h, running_other (by simp [Arms]) (by simp) (by simp)]
  | update dt => simp [heed, Option.bind_eq_some_iff, running_update, h]
  | buffer other seconds =>
      rw [heed]
      split
      next hother =>
        obtain ⟨rfl, hseconds⟩ := hother
        rw [running_armed hseconds, Option.some.injEq]
      next hother => rw [h, running_other (by simpa [Arms] using hother) (by simp) (by simp)]
  | consume other => exact disarmed_running h (.inl rfl) left
  | clear other => exact disarmed_running h (.inr rfl) left

/-- Whatever is running has been armed since it was last consumed. -/
theorem Running.buffer_mem {before between : List Call}
    (h : Running action (before ++ .consume action :: between) left) :
    ∃ seconds, .buffer action seconds ∈ between ∧ 0.0 < seconds := by
  obtain ⟨seconds, since, ⟨⟨front, hcourse⟩, hseconds, -⟩, ⟨⟨hconsume, -⟩, -⟩, -⟩ := h
  refine ⟨seconds, ?_, hseconds⟩
  rcases List.append_eq_append_iff.1 hcourse with ⟨gap, -, hbetween⟩ | ⟨gap, -, hsince⟩
  · cases gap with
    | nil => cases hbetween
    | cons c gap =>
        cases hbetween
        simp
  · cases gap with
    | nil => cases hsince
    | cons c gap =>
        cases hsince
        simp at hconsume

end Call

/-! ## The device -/

open Call (ArmedLast Lasts Running timeLeft)

variable {d : Device}

theorem calls_concat (course : List Call) (c : Call) : d.calls (course ++ [c]) = (d.calls course).call c := by
  simp [calls]

theorem buffer_handle (e : Event) : (d.handle e).buffer = d.buffer := by
  cases e <;> rfl

theorem nodup_call (h : d.buffer.left.keys.Nodup) (c : Call) : (d.call c).buffer.left.keys.Nodup := by
  cases c with
  | event e =>
      rw [call, buffer_handle]
      exact h
  | update dt => exact Dict.nodup_keys_filterMap h _
  | buffer other seconds =>
      change (d.buffer.arm other seconds).left.keys.Nodup
      unfold TimedBuffer.arm
      split
      next => exact Dict.nodup_keys_insert h other seconds
      next => exact h
  | consume other => exact Dict.nodup_keys_erase h other
  | clear other => exact Dict.nodup_keys_erase h other

theorem get?_call (h : d.buffer.left.keys.Nodup) (c : Call) (action : String) :
    (d.call c).buffer.left.get? action = c.heed action (d.buffer.left.get? action) := by
  cases c with
  | event e => rw [call, buffer_handle, Call.heed]
  | update dt => exact TimedBuffer.get?_age h action dt
  | buffer other seconds => exact TimedBuffer.get?_arm d.buffer other action seconds
  | consume other => exact Dict.get?_erase d.buffer.left other action
  | clear other => exact Dict.get?_erase d.buffer.left other action

theorem nodup_calls (h : d.buffer.left.keys.Nodup) (course : List Call) :
    (d.calls course).buffer.left.keys.Nodup := by
  induction course using List.reverseRecOn with
  | nil => exact h
  | append_singleton course c ih =>
      rw [calls_concat]
      exact nodup_call ih c

/-- The buffer of a new device holds what is running, and nothing else. -/
theorem get?_calls (bindings : Dict String (List Binding)) (course : List Call) (action : String) (left : Float) :
    (({ bindings } : Device).calls course).buffer.left.get? action = some left ↔ Running action course left := by
  -- on the latest call, which makes the same of the entry and of what is running
  induction course using List.reverseRecOn generalizing left with
  | nil => exact iff_of_false nofun Call.not_running_nil
  | append_singleton course c ih =>
      have hnodup := nodup_calls (d := { bindings }) List.nodup_nil course
      rw [calls_concat, get?_call hnodup]
      exact Call.heed_running ih c left

end Device

open Device.Call (ArmedLast Lasts timeLeft)

/-- After any calls to a new device, an action is armed exactly if the latest call to arm it was followed by none that
takes it away and by no update that left it no time; then it has the time that is left, which is positive, and otherwise
none. An action that is consumed has been armed since any time it was consumed before. -/
theorem buffer_keeps_time (bindings : Dict String (List Binding)) (course : List Device.Call) (action : String) :
    let d := ({ bindings } : Device).calls course
    (d.buffer.isArmed action = true ↔
      ∃ seconds since, ArmedLast action course seconds since ∧ Lasts action seconds since) ∧
    (∀ seconds since, ArmedLast action course seconds since → Lasts action seconds since →
      d.buffer.remaining action = timeLeft seconds since ∧ 0.0 < d.buffer.remaining action) ∧
    (d.buffer.isArmed action = false → d.buffer.remaining action = 0.0) ∧
    ∀ before between, course = before ++ .consume action :: between → (d.consume action).1 = true →
      ∃ seconds, .buffer action seconds ∈ between ∧ 0.0 < seconds := by
  intro d
  have hget := Device.get?_calls bindings course action
  have harmed : d.buffer.isArmed action = true ↔ ∃ left, Device.Call.Running action course left := by
    simp only [← hget]
    exact Option.isSome_iff_exists
  refine ⟨harmed.trans ?_, fun seconds since hlast hlasts => ?_, fun hnot => ?_, ?_⟩
  · constructor
    · rintro ⟨left, seconds, since, hlast, hlasts, -⟩
      exact ⟨seconds, since, hlast, hlasts⟩
    · rintro ⟨seconds, since, hlast, hlasts⟩
      exact ⟨_, seconds, since, hlast, hlasts, rfl⟩
  · have hleft : d.buffer.left.get? action = some (timeLeft seconds since) :=
      (hget _).2 ⟨seconds, since, hlast, hlasts, rfl⟩
    have hremaining : d.buffer.remaining action = timeLeft seconds since := by
      rw [TimedBuffer.remaining, hleft, Option.getD_some]
    rw [hremaining]
    exact ⟨rfl, hlasts.positive hlast.positive⟩
  · have hnone : d.buffer.left.get? action = none := by
      simpa [TimedBuffer.isArmed, Dict.contains] using hnot
    rw [TimedBuffer.remaining, hnone, Option.getD_none]
  · rintro before between rfl hconsumed
    obtain ⟨left, hrunning⟩ := harmed.1 hconsumed
    exact hrunning.buffer_mem

/-- The jump is armed once more for a time below zero, which changes nothing, and a frame goes back in time. The dash has
no end. -/
def jumpAndDash : List Device.Call :=
  [.consume "dash", .buffer "jump" 0.5, .update 0.25, .buffer "dash" (1.0 / 0.0), .buffer "jump" (-1.0), .update (-0.5)]

theorem buffer_keeps_time_jump :
    let d := ({} : Device).calls jumpAndDash
    ArmedLast "jump" jumpAndDash 0.5 (jumpAndDash.drop 2) ∧ Lasts "jump" 0.5 (jumpAndDash.drop 2) ∧
      d.buffer.remaining "jump" = 0.75 ∧ (d.consume "dash").1 = true ∧
      ∃ seconds, .buffer "dash" seconds ∈ jumpAndDash.tail ∧ 0.0 < seconds := by
  obtain ⟨-, hremaining, -, -⟩ := buffer_keeps_time {} jumpAndDash "jump"
  obtain ⟨-, -, -, hconsumed⟩ := buffer_keeps_time {} jumpAndDash "dash"
  have hlast : ArmedLast "jump" jumpAndDash 0.5 (jumpAndDash.drop 2) := by
    have hnegative : ¬(0.0 < (-1.0 : Float)) := by decide
    refine ⟨⟨[.consume "dash"], rfl⟩, by decide, ?_⟩
    simp [jumpAndDash, Device.Call.Arms, hnegative]
  have hlasts : Lasts "jump" 0.5 ([] ++ [.update 0.25] ++ [.buffer "dash" (1.0 / 0.0)] ++ [.buffer "jump" (-1.0)] ++
      [.update (-0.5)]) := by
    simp only [Device.Call.lasts_concat]
    refine ⟨⟨⟨⟨Device.Call.lasts_nil, nofun, nofun, ?_⟩, nofun, nofun, nofun⟩, nofun, nofun, nofun⟩, nofun, nofun, ?_⟩
    all_goals
      rintro _ ⟨⟩
      decide
  have harmed : ((({} : Device).calls jumpAndDash).consume "dash").1 = true := by decide
  refine ⟨hlast, hlasts, ?_, harmed, hconsumed [] jumpAndDash.tail rfl harmed⟩
  rw [(hremaining 0.5 _ hlast hlasts).1]
  decide

end Cairn
