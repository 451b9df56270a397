import Cairn.Proofs.Keeping
import Cairn.Proofs.Leaks
import Cairn.Proofs.Output.Conservation

/-!
# A restart forgets all but the device

Whatever a host did with a session, also where frames and restarts failed, a restart ends as a new session around the
device as it is now would begin, and from then on both give the same answers. What a restart makes of the world before
depends on its device, on what chance has not answered yet, and on whether its released scopes are used again. They
always are, and this is what has to be carried through a history.
-/

namespace Cairn

/-- Why a computation gives no value. -/
def Outcome.failure? {α : Type} : Outcome α → Option Failure
  | .ok _ _ => none
  | .fault f _ => some (.fault f)
  | .abort why => some (.abort why)

/-! ## What a host does with a session -/

namespace Session

inductive Operation where
  | request (r : Request)
  | reset
  | device (change : Device → Device)
  | global (name : String)
  | last
  | blocks

inductive Reply where
  | frame (frame : Frame)
  | restarted
  | device (device : Device)
  | value (value? : Option Value) (shown? : Option String)
  | blocks (draws updates : Bool)

def Operation.perform (fuel : Nat) (p : Program) : Operation → Run Reply
  | .request r => do return .frame (← r.perform fuel)
  | .reset => do
    Run.restart fuel p
    return .restarted
  | .device change => do
    Run.modify fun w => { w with host := { w.host with device := change w.host.device } }
    let w ← Run.world
    return .device w.host.device
  | .global name => do
    let w ← Run.world
    return .value (w.global? name) ((w.global? name).bind w.store.display)
  | .last => do
    let w ← Run.world
    return .value w.last (w.store.display w.last)
  | .blocks => do
    let w ← Run.world
    return .blocks w.draw?.isSome w.update?.isSome

/-- All operations, first to last, and their answers. A fault is an answer and does not end the session. -/
def operate (fuel : Nat) (p : Program) (operations : List Operation) : Run (List (Except Fault Reply)) :=
  Run.each (fun operation => (operation.perform fuel p).attempt) operations

end Session

/-! ## Tidy worlds -/

/-- A restart depends on the device and on chance only. -/
theorem World.Tidy.reset_eq {w : World} (h : w.Tidy) : w.reset = World.start w.host.device w.host.chances := by
  rw [World.reset, h.recycles]
  rfl

def tidy : Terms where
  InOrder := World.Tidy
  Admits _ := True

theorem Run.Undertaken.keeps_tidy {fuel : Nat} {α : Type} {r : Run α} (h : r.Undertaken fuel .global) :
    r.Keeps tidy fun _ => True := by
  intro w hw
  have hmoment : Moment.Tidy ⟨w, .global⟩ := ⟨hw, hw.sound.scopes.global_inUse⟩
  have hleaves := (hmoment.undertake h).2
  cases hr : r w with
  | ok a w' => exact ⟨trivial, (hleaves w' (by rw [hr]; rfl)).tidy⟩
  | fault f w' => exact ⟨trivial, (hleaves w' (by rw [hr]; rfl)).tidy⟩
  | abort why => trivial

/-- Changing the host leaves the scopes and all code alone. -/
theorem Run.keeps_tidy_of_beside {f : World → World} (h : ∀ w : World, w.Beside (f w)) :
    (Run.modify f).Keeps tidy fun _ => True :=
  .modify fun w hw => World.Tidy.beside hw (h w)

theorem Session.Request.keeps_tidy (fuel : Nat) (request : Request) :
    (request.perform fuel).Keeps tidy fun _ => True := by
  have htake : Run.takeOutput.Keeps tidy fun _ => True := fun w hw =>
    ⟨trivial, World.Tidy.beside hw ⟨rfl, rfl, rfl, rfl, .refl _⟩⟩
  cases request with
  | tick dt =>
      refine .bind (Run.keeps_tidy_of_beside fun _ => ⟨rfl, rfl, rfl, rfl, .refl _⟩) fun _ _ => ?_
      refine .bind (Run.Undertaken.update dt).keeps_tidy fun _ _ => ?_
      exact .bind Run.Undertaken.draw.keeps_tidy fun _ _ => htake
  | take => exact htake

theorem Run.keeps_tidy_restart (fuel : Nat) (p : Program) : (Run.restart fuel p).Keeps tidy fun _ => True := by
  refine .bind (.modify fun w hw => World.Tidy.reset hw) fun _ _ => ?_
  exact .bind (Run.Undertaken.program p).keeps_tidy fun _ _ => .pure trivial

theorem Session.Operation.keeps_tidy (fuel : Nat) (p : Program) (operation : Operation) :
    (operation.perform fuel p).Keeps tidy fun _ => True := by
  have hlook (f : World → Reply) : (Run.world >>= fun w => pure (f w)).Keeps tidy fun _ => True :=
    .world fun w _ => .pure trivial
  cases operation with
  | request r => exact .bind (r.keeps_tidy fuel) fun _ _ => .pure trivial
  | reset => exact .bind (Run.keeps_tidy_restart fuel p) fun _ _ => .pure trivial
  | device change =>
      exact .bind (Run.keeps_tidy_of_beside fun _ => ⟨rfl, rfl, rfl, rfl, .refl _⟩) fun _ _ => hlook _
  | global name => exact hlook _
  | last => exact hlook _
  | blocks => exact hlook _

theorem Session.tidy_start {fuel : Nat} {compiled : Compiled} {device : Device} {chances : Nat → Chance}
    {session : Session} (h : start fuel compiled device chances = .ok session) : session.world.Tidy := by
  have hprogram : (Run.program fuel compiled.program).Undertaken fuel .global := .program compiled.program
  have hends := hprogram.keeps_tidy _ (World.Tidy.of_start device chances)
  unfold start at h
  split at h
  case h_1 v w hr =>
    cases h
    exact (hr ▸ hends).2
  case h_2 => cases h
  case h_3 => cases h

theorem Session.tidy_operate {fuel : Nat} {p : Program} {operations : List Operation} {w w' : World}
    {answers : List (Except Fault Reply)} (hw : w.Tidy) (h : operate fuel p operations w = .ok answers w') :
    w'.Tidy := by
  have hends := Run.Keeps.each (fun operation (_ : operation ∈ operations) =>
    (operation.keeps_tidy fuel p).attempt) w hw
  unfold operate at h
  rw [h] at hends
  exact hends.2

/-! ## Restarts -/

/-- A restart is a run of the program in a new world around the same device. -/
theorem Run.restart_of_tidy {w : World} (h : w.Tidy) (fuel : Nat) (p : Program) :
    Run.restart fuel p w =
      (Run.program fuel p >>= fun _ => pure ()) (World.start w.host.device w.host.chances) := by
  rw [← h.reset_eq]
  rfl

/-- Whatever was done with a session before, and whatever chance answered in it, a restart succeeds if and only if a
new session around the same device would begin, where chance goes on to give the same answers; it fails otherwise as
that would, and from then on answers everything as the new session does. -/
theorem restart_forgets {fuel₀ fuel₁ : Nat} {compiled : Compiled} {device : Device} {chances : Nat → Chance}
    {session : Session} (hstart : Session.start fuel₀ compiled device chances = .ok session)
    {before : List Session.Operation}
    {answers : List (Except Fault Session.Reply)} {w : World}
    (hbefore : Session.operate fuel₁ compiled.program before session.world = .ok answers w) (fuel : Nat) :
    ((∃ w', Run.restart fuel compiled.program w = .ok () w') ↔
      ∃ new, Session.start fuel compiled w.host.device w.host.chances = .ok new) ∧
    (∀ failure, (Run.restart fuel compiled.program w).failure? = some failure ↔
      Session.start fuel compiled w.host.device w.host.chances = .error failure) ∧
    ∀ w' new, Run.restart fuel compiled.program w = .ok () w' →
      Session.start fuel compiled w.host.device w.host.chances = .ok new → ∀ fuel' after,
      Session.operate fuel' compiled.program after w' = Session.operate fuel' compiled.program after new.world := by
  have htidy : w.Tidy := Session.tidy_operate (Session.tidy_start hstart) hbefore
  -- From here on both sides are the same run of the program.
  rw [Run.restart_of_tidy htidy, Run.run_bind]
  unfold Session.start
  cases Run.program fuel compiled.program (World.start w.host.device w.host.chances) with
  | ok v w₁ =>
      refine ⟨⟨fun _ => ⟨_, rfl⟩, fun _ => ⟨_, rfl⟩⟩, fun failure => ⟨nofun, nofun⟩, ?_⟩
      intro w' new hw' hnew fuel' after
      cases hw'
      cases hnew
      rfl
  | fault f w₁ => simp [Outcome.failure?]
  | abort why => simp [Outcome.failure?]

/-- `n = "a"`, and `update { print(n)  n = null  print = null  null.x }`. -/
def spoilsItself : Compiled where
  program :=
    [.declare "n" (.text "a" .start) .start,
      .frame .update none
        [.expr (.call (.name "print" .start) [.name "n" .start] [] .start),
          .expr (.assign (.name "n" .start) none (.null .start) .start),
          .expr (.assign (.name "print" .start) none (.null .start) .start),
          .expr (.member (.null .start) "x" .start)] .start]
  fallen := []

set_option maxRecDepth 2000 in
theorem restart_forgets_spoilt :
    ∃ session answers w w' new, Session.start 5 spoilsItself {} Chance.least = .ok session ∧
      Session.operate 5 spoilsItself.program [.request (.tick 1.0), .device (·.handle (.keyDown "a"))]
        session.world = .ok (.error ⟨.noMember .null "x", 1⟩ :: answers) w ∧
      w.global? "n" = some .null ∧ w.global? "print" = some .null ∧ w.host.pending.printed = #["a"] ∧
      Run.restart 5 spoilsItself.program w = .ok () w' ∧
      Session.start 5 spoilsItself w.host.device w.host.chances = .ok new ∧
      ∀ fuel after, Session.operate fuel spoilsItself.program after w' =
        Session.operate fuel spoilsItself.program after new.world := by
  have hruns : ∃ session answers w new, Session.start 5 spoilsItself {} Chance.least = .ok session ∧
      Session.operate 5 spoilsItself.program [.request (.tick 1.0), .device (·.handle (.keyDown "a"))]
        session.world = .ok (.error ⟨.noMember .null "x", 1⟩ :: answers) w ∧
      w.global? "n" = some .null ∧ w.global? "print" = some .null ∧ w.host.pending.printed = #["a"] ∧
      Session.start 5 spoilsItself w.host.device w.host.chances = .ok new :=
    ⟨_, _, _, _, rfl, rfl, rfl, rfl, rfl, rfl⟩
  obtain ⟨session, answers, w, new, hstart, hbefore, hn, hprint, hwaits, hnew⟩ := hruns
  obtain ⟨hsucceeds, -, hlater⟩ := restart_forgets hstart hbefore 5
  obtain ⟨w', hw'⟩ := hsucceeds.2 ⟨new, hnew⟩
  exact ⟨session, answers, w, w', new, hstart, hbefore, hn, hprint, hwaits, hw', hnew, hlater w' new hw' hnew⟩

end Cairn
