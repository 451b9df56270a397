import Cairn.Proofs.Output.Backlog
import Cairn.Proofs.Output.Emission

/-!
# Output is conserved

No evaluation notices the output that waits already, and none of it is touched. Hence over a session, whatever
frames fail, the frames handed over and after them the output that still waits are what natives have put out.
-/

namespace Cairn

/-! ## Evaluations -/

/-- What an interpreter is asked to do. -/
inductive Run.Evaluation (fuel : Nat) : {α : Type} → Run α → Prop where
  | eval (e : Expr) (scope : ScopeId) : Evaluation fuel (eval fuel e scope)
  | exec (s : Stmt) (scope : ScopeId) : Evaluation fuel (exec fuel s scope)
  | call (callee : Value) (positional : List Value) (named : List (String × Value)) (line : Nat) :
      Evaluation fuel (Run.call fuel callee positional named line)
  | program (p : Program) : Evaluation fuel (Run.program fuel p)
  | update (dt : Float) : Evaluation fuel (Run.updateBlock fuel dt)
  | draw : Evaluation fuel (Run.drawBlock fuel)

theorem Run.Evaluation.behind {fuel : Nat} {α : Type} {m : Run α} (h : m.Evaluation fuel) (lead : Frame) (w : World) :
    m (w.behind lead) = (m w).behind lead := by
  refine Run.Alike.behind ?_
  cases h with
  | eval e scope => exact (evaluator_uniform fuel).eval e rfl
  | exec s scope => exact (evaluator_uniform fuel).exec s rfl
  | call callee positional named line => exact .call fuel callee positional named line
  | program p => exact .program fuel p
  | update dt => exact .updateBlock fuel dt
  | draw => exact .drawBlock fuel

/-! ## Sessions -/

namespace Session

theorem start_world {fuel : Nat} {compiled : Compiled} {device : Device} {chances : Nat → Chance} {session : Session}
    (h : start fuel compiled device chances = .ok session) :
    (Run.program fuel compiled.program (World.start device chances)).world? = some session.world := by
  unfold start at h
  cases hr : Run.program fuel compiled.program (World.start device chances) with
  | ok v w => rw [hr] at h; cases h; rfl
  | fault f w => rw [hr] at h; cases h
  | abort why => rw [hr] at h; cases h

inductive Request where
  | tick (dt : Float)
  | take

def Request.perform (fuel : Nat) : Request → Run Frame
  | .tick dt => Run.tick fuel dt
  | .take => Run.takeOutput

/-- All requests, first to last, and their answers. -/
def play (fuel : Nat) (requests : List Request) : Run (List (Except Fault Frame)) :=
  Run.each (fun request => (request.perform fuel).attempt) requests

/-- The frames among the answers, one behind the other. -/
def handedOver : List (Except Fault Frame) → Frame
  | [] => {}
  | .ok frame :: rest => (handedOver rest).after frame
  | .error _ :: rest => handedOver rest

/-- What a request does before it takes the output. -/
def Request.work (fuel : Nat) : Request → Run Unit
  | .tick dt => do
    Run.updateDevice dt
    Run.updateBlock fuel dt
    Run.drawBlock fuel
  | .take => pure ()

theorem Request.perform_eq (fuel : Nat) (request : Request) :
    request.perform fuel = request.work fuel >>= fun _ => Run.takeOutput := by
  cases request with
  | tick dt => simp [perform, work, Run.tick]
  | take => simp [perform, work]

theorem Request.work_emitting (fuel : Nat) (request : Request) : (request.work fuel).Emitting := by
  cases request with
  | tick dt =>
      refine .bind (.silent (.device dt)) fun _ => ?_
      exact .bind (.updateBlock fuel dt) fun _ => .drawBlock fuel
  | take => exact .pure ()

/-- A frame that fails takes nothing; the frame that is handed over is all that waited. -/
theorem Request.perform_emits {fuel : Nat} {request : Request} {w w' : World} {answer : Except Fault Frame}
    (h : (request.perform fuel).attempt w = .ok answer w') :
    ∃ emitted, (request.perform fuel).attempt.Emits w emitted (handedOver [answer]) := by
  obtain ⟨emitted, hwork⟩ := request.work_emitting fuel w
  simp only [Run.attempt] at h
  rw [request.perform_eq, Run.run_bind] at h
  rw [request.perform_eq]
  cases hr : request.work fuel w with
  | ok u w₁ =>
      rw [hr] at h
      cases h
      refine ⟨emitted, .attempt ?_⟩
      simpa [handedOver] using hwork.bind (k := fun _ => Run.takeOutput) hr (.take w₁)
  | fault f w₁ =>
      rw [hr] at h
      cases h
      exact ⟨emitted, .attempt (hwork.stop (by simp [hr]))⟩
  | abort why => rw [hr] at h; cases h

theorem play_emits {fuel : Nat} {requests : List Request} {w w' : World} {answers : List (Except Fault Frame)}
    (h : play fuel requests w = .ok answers w') :
    ∃ emitted, (play fuel requests).Emits w emitted (handedOver answers) := by
  induction requests generalizing w answers with
  | nil =>
      cases h
      exact ⟨{}, .pure [] _⟩
  | cons request rest ih =>
      obtain ⟨answer, w₁, hfirst, h⟩ := Run.of_bind_eq_ok h
      obtain ⟨later, w₂, hrest, h⟩ := Run.of_bind_eq_ok h
      cases h
      obtain ⟨e, he⟩ := Request.perform_emits hfirst
      obtain ⟨e', he'⟩ := ih hrest
      have hlater : (play fuel rest >>= fun later => pure (answer :: later)).Emits w₁ _ _ :=
        he'.bind hrest (.pure _ _)
      have hemits : (play fuel (request :: rest)).Emits w _ _ := he.bind hfirst hlater
      cases answer with
      | ok frame => exact ⟨_, by simpa [handedOver] using hemits⟩
      | error f => exact ⟨_, by simpa [handedOver] using hemits⟩

end Session

/-- Waiting output is not noticed; over a session none is lost, doubled or moved, whatever frames fail. -/
theorem output_conserved (fuel : Nat) :
    (∀ {α : Type} {m : Run α}, m.Evaluation fuel → ∀ (lead : Frame) (w : World),
      m (w.behind lead) = (m w).behind lead) ∧
    ∀ {compiled : Compiled} {device : Device} {chances : Nat → Chance} {session : Session}
      {requests : List Session.Request} {answers : List (Except Fault Frame)} {w : World},
      Session.start fuel compiled device chances = .ok session →
      Session.play fuel requests session.world = .ok answers w →
      ∃ atStart later, (Run.program fuel compiled.program).Emits (World.start device chances) atStart {} ∧
        (Session.play fuel requests).Emits session.world later (Session.handedOver answers) ∧
        w.host.pending.after (Session.handedOver answers) = later.after atStart := by
  refine ⟨Run.Evaluation.behind, ?_⟩
  intro compiled device chances session requests answers w hstart hplay
  obtain ⟨atStart, hatStart⟩ := Run.Emitting.program fuel compiled.program (World.start device chances)
  obtain ⟨later, hlater⟩ := Session.play_emits hplay
  have hwaits : session.world.host.pending = atStart := by
    simpa [World.start] using hatStart.conserved (Session.start_world hstart)
  refine ⟨atStart, later, hatStart, hlater, ?_⟩
  rw [hlater.conserved (by rw [hplay]; rfl), hwaits]

/-- `print("a")`, and `update { print("b")  null.x }`. -/
def printsAndFails : Compiled where
  program :=
    [.expr (.call (.name "print" .start) [.text "a" .start] [] .start),
      .frame .update none [.expr (.call (.name "print" .start) [.text "b" .start] [] .start),
        .expr (.member (.null .start) "x" .start)] .start]
  fallen := []

set_option maxRecDepth 2000 in
theorem output_conserved_when_frame_fails :
    ∃ session w, Session.start 5 printsAndFails {} Chance.least = .ok session ∧
      Session.play 5 [.tick 1.0, .take] session.world =
        .ok [.error ⟨.noMember .null "x", 1⟩, .ok { printed := #["a", "b"] }] w ∧
      Run.updateBlock 5 1.0 (session.world.behind { printed := #["z"] }) =
        (Run.updateBlock 5 1.0 session.world).behind { printed := #["z"] } ∧
      ∃ atStart later, (Run.program 5 printsAndFails.program).Emits (World.start {} Chance.least) atStart {} ∧
        (Session.play 5 [.tick 1.0, .take]).Emits session.world later { printed := #["a", "b"] } ∧
        w.host.pending.after { printed := #["a", "b"] } = later.after atStart := by
  have hruns : ∃ session w, Session.start 5 printsAndFails {} Chance.least = .ok session ∧
      Session.play 5 [.tick 1.0, .take] session.world =
        .ok [.error ⟨.noMember .null "x", 1⟩, .ok { printed := #["a", "b"] }] w := ⟨_, _, rfl, rfl⟩
  obtain ⟨session, w, hstart, hplay⟩ := hruns
  exact ⟨session, w, hstart, hplay, (output_conserved 5).1 (.update 1.0) _ _, (output_conserved 5).2 hstart hplay⟩

end Cairn
