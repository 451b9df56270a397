import Cairn.Proofs.Alike.Rules

/-!
# Histories

What a host does with a world, one act after another: it runs programs and frame blocks, calls values and
starts anew. A fault is the answer to an act and does not end the history. Two histories of the same acts,
begun at a stage, answer alike and end at a stage.
-/

namespace Cairn

inductive Act where
  | run (p : Program)
  | update (dt : Float)
  | draw
  | call (callee : Value) (positional : List Value) (named : List (String × Value)) (line : Nat)
  | reset

/-- Answers with the fault, where there is one. -/
def Run.attempt {α : Type} (m : Run α) : Run (Except Fault α) where
  run w :=
    match m w with
    | .ok a w => .ok (.ok a) w
    | .fault f w => .ok (.error f) w
    | .abort why => .abort why
  passes := m.passes

/-- One act; frame blocks and resets answer `null`. -/
def Act.perform (fuel : Nat) : Act → Run Value
  | .run p => Run.program fuel p
  | .update dt => do Run.updateBlock fuel dt; return .null
  | .draw => do Run.drawBlock fuel; return .null
  | .call callee positional named line => Run.call fuel callee positional named line
  | .reset => do Run.modify World.reset; return .null

/-- All acts, first to last, and their answers. Each begins in the global scope. -/
def history (fuel : Nat) (acts : List Act) : Run (List (Except Fault Value)) :=
  Run.within .global (Run.each (fun act => (act.perform fuel).attempt) acts)

/-- An act that runs no program but one of `Runs`. -/
def Act.Within (Runs : Program → Prop) : Act → Prop
  | .run p => Runs p
  | _ => True

/-- A world that a host can have between its acts, if all programs that it runs are of `Runs`. The device may change in
between, and waiting output may be taken. -/
inductive World.Reachable (Runs : Program → Prop) : World → Prop where
  | start (device : Device) (chances : Nat → Chance) : Reachable Runs (World.start device chances)
  | act {w w' : World} (h : Reachable Runs w) (fuel : Nat) {act : Act} (hact : act.Within Runs)
      (hw : (act.perform fuel w).world? = some w') : Reachable Runs w'
  | host {w : World} (h : Reachable Runs w) (device : Device) (pending : Frame) :
      Reachable Runs { w with host := { w.host with device, pending } }

/-! ## Histories side by side -/

open Sides

/-- The same answer, with some stage at the end of it. -/
inductive Outcome.Paired (S : Type) [Sides S] {α : Type} : Outcome α → Outcome α → Prop where
  | ok (τ : S) (a : α) : Outcome.Paired S (.ok a (left τ)) (.ok a (right τ))
  | abort (why : Abort) : Outcome.Paired S (.abort why) (.abort why)

variable {S : Type} [Simulation S]

namespace Run

/-- Computations that lead from `σ` to some stage, through sound moments. -/
structure Paired {α : Type} (σ : S) (m m' : Run α) : Prop where
  ends : Outcome.Paired S (m (left σ)) (m' (right σ))
  passes : ∀ y, m.passes ⟨left σ, .global⟩ y → Sound S y

variable {α β : Type} {σ : S} {m m' : Run α}

theorem Alike.attempt (h : Run.Alike σ m m') : Paired σ m.attempt m'.attempt := by
  refine ⟨?_, fun y hy => h.passes _ _ (Simulation.same_global σ) y hy⟩
  have hends := h.ends
  simp only [Run.attempt]
  generalize m (left σ) = o, m' (right σ) = o' at hends
  cases hends with
  | ok a _ => exact .ok _ (Except.ok a)
  | fault f _ => exact .ok _ (Except.error f)
  | abort why => exact .abort why

namespace Paired

theorem pure (σ : S) (a : α) : Paired σ (Pure.pure a) (Pure.pure a) :=
  ⟨.ok σ a, fun _ hy => hy.elim⟩

theorem bind {k k' : α → Run β} (hm : Paired σ m m') (hk : ∀ (τ : S) a, Paired τ (k a) (k' a)) :
    Paired σ (m >>= k) (m' >>= k') := by
  obtain ⟨hends, hpasses⟩ := hm
  constructor
  · simp only [Run.run_bind]
    generalize m (left σ) = o, m' (right σ) = o' at hends
    cases hends with
    | ok τ a => exact (hk τ a).ends
    | abort why => exact .abort why
  · rintro y (hy | ⟨a, w, hw, hy⟩)
    · exact hpasses y hy
    · generalize m (left σ) = o, m' (right σ) = o' at hends hw
      cases hends with
      | ok τ b =>
          cases hw
          exact (hk τ a).passes y hy
      | abort why => cases hw

theorem each {f g : α → Run β} (h : ∀ (τ : S) a, Paired τ (f a) (g a)) (items : List α) :
    Paired σ (Run.each f items) (Run.each g items) := by
  induction items generalizing σ with
  | nil => exact pure σ []
  | cons a rest ih => exact bind (h σ a) fun τ b => bind ih fun υ bs => pure υ (b :: bs)

end Paired

end Run

/-- Resetting the worlds of a stage gives the worlds of a stage. -/
def Resets (S : Type) [Sides S] : Prop :=
  ∀ σ : S, ∃ τ : S, left τ = (left σ).reset ∧ right τ = (right σ).reset

theorem Act.perform_paired (hreset : Resets S) (fuel : Nat) (act : Act) (σ : S) :
    Run.Paired σ (act.perform fuel).attempt (act.perform fuel).attempt := by
  cases act with
  | run p => exact (Run.Alike.program fuel p).attempt
  | update dt => exact (Run.Alike.bind (.updateBlock fuel dt) fun _ _ _ => .pure _).attempt
  | draw => exact (Run.Alike.bind (.drawBlock fuel) fun _ _ _ => .pure _).attempt
  | call callee positional named line => exact (Run.Alike.call fuel callee positional named line).attempt
  | reset =>
      obtain ⟨τ, hleft, hright⟩ := hreset σ
      constructor
      · have hend := Outcome.Paired.ok τ (Except.ok (ε := Fault) Value.null)
        rw [hleft, hright] at hend
        exact hend
      · rintro ⟨w, s⟩ (⟨hw, hs⟩ | ⟨_, _, _, hy⟩)
        · cases hs
          rw [show w = left τ from (Option.some.inj hw).symm.trans hleft.symm]
          exact Simulation.sound (Simulation.same_global τ)
        · exact hy.elim

theorem history_paired (hreset : Resets S) (fuel : Nat) (acts : List Act) (σ : S) :
    Run.Paired σ (history fuel acts) (history fuel acts) := by
  have h := Run.Paired.each (σ := σ) (fun τ act => act.perform_paired hreset fuel τ) acts
  refine ⟨h.ends, ?_⟩
  rintro y (rfl | hy)
  · exact Simulation.sound (Simulation.same_global σ)
  · exact h.passes y hy

end Cairn
