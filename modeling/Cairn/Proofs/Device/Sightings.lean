import Cairn.Proofs.Device.Edges

/-!
# Which edges are seen

A button goes down when it is pressed while it is up, and goes up when it is released while it is down. After a commit
it reads as pressed if it went down since the commit before and was up at that commit, and as released if it went up
since then and is up now. So a press is missed when the frame began with the button down, and a release when the frame
ends with it down.
-/

namespace Cairn

/-! ## The story of one button -/

/-- What can happen to a button. -/
inductive Beat where
  | press
  | release
  | commit
deriving DecidableEq

namespace Beat

/-- `x` came when `P` held of the beats before it, and `stop` has not come since. -/
def Since (x stop : Beat) (P : List Beat → Prop) (story : List Beat) : Prop :=
  ∃ front back, story = front ++ x :: back ∧ stop ∉ back ∧ P front

/-- Pressed, and not released since. -/
def IsDown : List Beat → Prop := Since press release fun _ => True

/-- Down at the last commit. -/
def BeganDown : List Beat → Prop := Since commit commit IsDown

/-- Since the last commit, pressed while it was up. -/
def WentDown : List Beat → Prop := Since press commit fun front => ¬ IsDown front

/-- Since the last commit, released while it was down. -/
def WentUp : List Beat → Prop := Since release commit IsDown

variable {x y stop : Beat} {P : List Beat → Prop} {story : List Beat}

@[simp] theorem not_since_nil : ¬ Since x stop P [] := by
  rintro ⟨front, back, hstory, -⟩
  simp at hstory

/-- The latest beat is the one looked for, or an earlier one is and the latest does not stop it. -/
theorem since_concat : Since x stop P (story ++ [y]) ↔ (y = x ∧ P story) ∨ (y ≠ stop ∧ Since x stop P story) := by
  constructor
  · rintro ⟨front, back, hstory, hstop, hP⟩
    cases back using List.reverseRecOn with
    | nil =>
        obtain ⟨rfl, hy⟩ := List.append_inj' hstory rfl
        exact .inl ⟨List.singleton_inj.1 hy, hP⟩
    | append_singleton back z =>
        rw [← List.cons_append, ← List.append_assoc] at hstory
        obtain ⟨hfront, hy⟩ := List.append_inj' hstory rfl
        cases hy
        rw [List.mem_append, not_or, List.mem_singleton] at hstop
        exact .inr ⟨Ne.symm hstop.2, front, back, hfront, hstop.1, hP⟩
  · rintro (⟨rfl, hP⟩ | ⟨hy, front, back, rfl, hstop, hP⟩)
    · exact ⟨story, [], rfl, List.not_mem_nil, hP⟩
    · refine ⟨front, back ++ [y], by simp, ?_, hP⟩
      rw [List.mem_append, not_or, List.mem_singleton]
      exact ⟨hstop, Ne.symm hy⟩

theorem not_isDown_released : ¬ IsDown (story ++ [release]) := by
  simp [IsDown, since_concat]

end Beat

open Beat (IsDown BeganDown WentDown WentUp since_concat not_isDown_released)

namespace Switch

/-- A switch that was never touched. -/
def untouched : Switch := ⟨false, false, false, false, false⟩

def beat (s : Switch) : Beat → Switch
  | .press => s.strike true
  | .release => s.strike false
  | .commit => s.commit

def beats (s : Switch) (story : List Beat) : Switch := story.foldl beat s

theorem beats_concat (s : Switch) (story : List Beat) (y : Beat) :
    s.beats (story ++ [y]) = (s.beats story).beat y := by
  simp [beats]

/-- Where every step is a beat of the switch in view or none, a run of steps is its story. -/
theorem beats_of_view {σ α : Type} (view : σ → Switch) {step : σ → α → σ} {beat? : α → Option Beat}
    (h : ∀ s a, view (step s a) = (view s).beats (beat? a).toList) (s : σ) (as : List α) :
    view (as.foldl step s) = (view s).beats (as.filterMap beat?) := by
  induction as generalizing s with
  | nil => rfl
  | cons a as ih =>
      rw [List.foldl_cons, ih, h, List.filterMap_cons]
      cases beat? a <;> rfl

/-- What the parts of a switch say of its story. A press counts as a tap even if the button is down already, so a tap
tells of a way down only where the button was up when the frame began. -/
structure Tells (s : Switch) (story : List Beat) : Prop where
  down : s.down = true ↔ IsDown story
  held : s.held = true ↔ BeganDown story
  rooted : s.Rooted
  tapped : s.tapped = true → BeganDown story ∨ WentDown story
  wentDown : WentDown story → s.tapped = true
  touched : s.held = true ∨ s.tapped = true → IsDown story ∨ WentUp story
  wentUp : WentUp story → s.held = true ∨ s.tapped = true

variable {s : Switch} {story : List Beat}

theorem Tells.press (h : s.Tells story) : (s.beat .press).Tells (story ++ [.press]) := by
  obtain ⟨hdown, hheld, hrooted, htapped, hwentDown, htouched, hwentUp⟩ := h
  have hisDown : IsDown (story ++ [.press]) := since_concat.2 (.inl ⟨rfl, trivial⟩)
  have hbegan : BeganDown (story ++ [.press]) ↔ BeganDown story := by simp [BeganDown, since_concat]
  have hway : WentDown (story ++ [.press]) ↔ ¬ IsDown story ∨ WentDown story := by simp [WentDown, since_concat]
  refine ⟨⟨fun _ => hisDown, fun _ => rfl⟩, hheld.trans hbegan.symm, rooted_strike, fun _ => ?_, fun _ => rfl,
    fun _ => .inl hisDown, fun _ => .inr rfl⟩
  rw [hbegan, hway]
  by_cases hwasDown : IsDown story
  · rcases hrooted (hdown.2 hwasDown) with hheld' | htap
    · exact .inl (hheld.1 hheld')
    · exact (htapped htap).imp_right .inr
  · exact .inr (.inl hwasDown)

theorem Tells.release (h : s.Tells story) : (s.beat .release).Tells (story ++ [.release]) := by
  obtain ⟨hdown, hheld, hrooted, htapped, hwentDown, htouched, hwentUp⟩ := h
  have hbegan : BeganDown (story ++ [.release]) ↔ BeganDown story := by simp [BeganDown, since_concat]
  have hway : WentDown (story ++ [.release]) ↔ WentDown story := by simp [WentDown, since_concat]
  have hback : WentUp (story ++ [.release]) ↔ IsDown story ∨ WentUp story := by simp [WentUp, since_concat]
  have hlifted : (s.beat .release).down = true ↔ IsDown (story ++ [.release]) := by
    simp [beat, not_isDown_released]
  refine ⟨hlifted, hheld.trans hbegan.symm, rooted_strike, ?_, ?_, ?_, ?_⟩
  · rw [hbegan, hway]
    exact htapped
  · rw [hway]
    exact hwentDown
  · rw [hback]
    exact fun htouch => .inr (htouched htouch)
  · rw [hback]
    rintro (hwasDown | hwent)
    · exact hrooted (hdown.2 hwasDown)
    · exact hwentUp hwent

theorem Tells.commit (h : s.Tells story) : (s.beat .commit).Tells (story ++ [.commit]) := by
  have hisDown : IsDown (story ++ [.commit]) ↔ IsDown story := by simp [IsDown, since_concat]
  have hbegan : BeganDown (story ++ [.commit]) ↔ IsDown story := by simp [BeganDown, since_concat]
  have hway : ¬ WentDown (story ++ [.commit]) := by simp [WentDown, since_concat]
  have hback : ¬ WentUp (story ++ [.commit]) := by simp [WentUp, since_concat]
  have htapped : ¬ (s.beat .commit).tapped = true := Bool.false_ne_true
  refine ⟨h.down.trans hisDown.symm, h.down.trans hbegan.symm, rooted_commit, fun htap => absurd htap htapped,
    fun hwent => absurd hwent hway, fun htouch => ?_, fun hwent => absurd hwent hback⟩
  have hheld : s.down = true := htouch.resolve_right htapped
  exact .inl (hisDown.2 (h.down.1 hheld))

theorem tells_beats (story : List Beat) : (untouched.beats story).Tells story := by
  -- on the latest beat: it is the one that changes the switch
  induction story using List.reverseRecOn with
  | nil =>
      constructor <;> simp [beats, untouched, IsDown, BeganDown, WentDown, WentUp, Rooted]
  | append_singleton story y ih =>
      rw [beats_concat]
      cases y with
      | press => exact ih.press
      | release => exact ih.release
      | commit => exact ih.commit

theorem Tells.reads_pressed (h : s.Tells story) :
    s.commit.reads .pressed = true ↔ WentDown story ∧ ¬ BeganDown story := by
  have hreads : s.commit.reads .pressed = true ↔ s.tapped = true ∧ ¬ s.held = true := by simp [Switch.commit, reads]
  rw [hreads, h.held]
  constructor
  · rintro ⟨htap, hup⟩
    exact ⟨(h.tapped htap).resolve_left hup, hup⟩
  · rintro ⟨hwent, hup⟩
    exact ⟨h.wentDown hwent, hup⟩

theorem Tells.reads_released (h : s.Tells story) :
    s.commit.reads .released = true ↔ WentUp story ∧ ¬ IsDown story := by
  have hreads : s.commit.reads .released = true ↔ (s.held = true ∨ s.tapped = true) ∧ ¬ s.down = true := by
    simp [Switch.commit, reads]
  rw [hreads, h.down]
  constructor
  · rintro ⟨htouch, hup⟩
    exact ⟨(h.touched htouch).resolve_left hup, hup⟩
  · rintro ⟨hwent, hup⟩
    exact ⟨h.wentUp hwent, hup⟩

end Switch

/-! ## All buttons of a kind -/

namespace Buttons

inductive Act (κ : Type) where
  | press (b : κ)
  | release (b : κ)
  | commit

variable {κ : Type} [DecidableEq κ]

def act (s : Buttons κ) : Act κ → Buttons κ
  | .press b => s.press b
  | .release b => s.release b
  | .commit => s.commit

def acts (s : Buttons κ) (as : List (Act κ)) : Buttons κ := as.foldl act s

/-- What an act means for one button. -/
def Act.beat? (b : κ) : Act κ → Option Beat
  | .press b' => if b' = b then some .press else none
  | .release b' => if b' = b then some .release else none
  | .commit => some .commit

def story (b : κ) (as : List (Act κ)) : List Beat := as.filterMap (Act.beat? b)

theorem switch_act (s : Buttons κ) (a : Act κ) (b : κ) :
    (s.act a).switch b = (s.switch b).beats (a.beat? b).toList := by
  cases a with
  | press b' => rw [act, switch_press, Act.beat?]; split <;> rfl
  | release b' => rw [act, switch_release, Act.beat?]; split <;> rfl
  | commit => exact switch_commit

theorem switch_acts (s : Buttons κ) (as : List (Act κ)) (b : κ) :
    (s.acts as).switch b = (s.switch b).beats (story b as) :=
  Switch.beats_of_view (·.switch b) (fun s a => switch_act s a b) s as

end Buttons

/-! ## Devices -/

namespace Device

/-- What an occurrence means for one control. -/
def Occurrence.beat? (c : Control) : Occurrence → Option Beat
  | .event e =>
    match e.stroke? with
    | some (c', pressed) => if c'.folded = c.folded then some (if pressed then .press else .release) else none
    | none => none
  | .update _ => some .commit

def story (c : Control) (course : List Occurrence) : List Beat := course.filterMap (Occurrence.beat? c)

def meet (d : Device) : Occurrence → Device
  | .event e => d.handle e
  | .update dt => d.update dt

/-- The device after all of these. -/
def follow (d : Device) (course : List Occurrence) : Device := course.foldl meet d

theorem switch_meet (d : Device) (o : Occurrence) (c : Control) :
    (d.meet o).switch c = (d.switch c).beats (o.beat? c).toList := by
  cases o with
  | update dt => exact switch_update dt
  | event e =>
      rw [meet, switch_handle, Occurrence.beat?]
      cases e.stroke? with
      | none => rfl
      | some stroke =>
          obtain ⟨c', pressed⟩ := stroke
          simp only
          split
          · cases pressed <;> rfl
          · rfl

theorem switch_follow (d : Device) (course : List Occurrence) (c : Control) :
    (d.follow course).switch c = (d.switch c).beats (story c course) :=
  Switch.beats_of_view (·.switch c) (fun d o => switch_meet d o c) d course

end Device

/-- After a commit a button reads as pressed exactly if it went down since the last commit and was up then, and as
released exactly if it went up since the last commit and is up now. So does every control of a device. -/
theorem edges_seen_iff {κ : Type} [DecidableEq κ] (as : List (Buttons.Act κ)) (b : κ)
    (bindings : Dict String (List Binding)) (course : List Device.Occurrence) (dt : Float) (c : Control) :
    ((({} : Buttons κ).acts as).commit.reads b .pressed = true ↔
      WentDown (Buttons.story b as) ∧ ¬ BeganDown (Buttons.story b as)) ∧
    ((({} : Buttons κ).acts as).commit.reads b .released = true ↔
      WentUp (Buttons.story b as) ∧ ¬ IsDown (Buttons.story b as)) ∧
    ((((({ bindings } : Device)).follow course).update dt).reads c .pressed = true ↔
      WentDown (Device.story c course) ∧ ¬ BeganDown (Device.story c course)) ∧
    ((((({ bindings } : Device)).follow course).update dt).reads c .released = true ↔
      WentUp (Device.story c course) ∧ ¬ IsDown (Device.story c course)) := by
  have hbutton := Switch.tells_beats (Buttons.story b as)
  rw [show Switch.untouched = ({} : Buttons κ).switch b from rfl, ← Buttons.switch_acts] at hbutton
  have hcontrol := Switch.tells_beats (Device.story c course)
  have hnew : Switch.untouched = ({ bindings } : Device).switch c := by cases c <;> rfl
  rw [hnew, ← Device.switch_follow] at hcontrol
  rw [Buttons.reads_eq_switch, Buttons.reads_eq_switch, Buttons.switch_commit, Device.reads_eq_switch,
    Device.reads_eq_switch, Device.switch_update]
  exact ⟨hbutton.reads_pressed, hbutton.reads_released, hcontrol.reads_pressed, hcontrol.reads_released⟩

/-- A button that is held, goes up and comes down again within a frame reads as neither. -/
theorem edges_missed :
    ¬ ∀ (as : List (Buttons.Act Nat)) (b : Nat),
      ((({} : Buttons Nat).acts as).commit.reads b .pressed = true ↔ WentDown (Buttons.story b as)) ∧
      ((({} : Buttons Nat).acts as).commit.reads b .released = true ↔ WentUp (Buttons.story b as)) := by
  intro h
  have hup : ¬ IsDown ([.press, .commit] ++ [.release]) := not_isDown_released
  have hwent : WentDown (Buttons.story 0 [.press 0, .commit, .release 0, .press 0]) :=
    ⟨[.press, .commit, .release], [], rfl, List.not_mem_nil, hup⟩
  have hreads := (h [.press 0, .commit, .release 0, .press 0] 0).1.2 hwent
  exact absurd hreads (by decide)

end Cairn
