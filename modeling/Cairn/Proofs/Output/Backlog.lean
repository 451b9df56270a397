import Cairn.Proofs.Alike.Rules

/-!
# Output that waits already

A world is set beside the same world with more output waiting in front. No change that evaluation makes looks at
the output that waits, so both runs end alike, and what waited in front still does.
-/

namespace Cairn

/-- The world with the output of `lead` waiting in front of its own. -/
def World.behind (lead : Frame) (w : World) : World :=
  { w with host := { w.host with pending := w.host.pending.after lead } }

def Outcome.behind {α : Type} (lead : Frame) : Outcome α → Outcome α
  | .ok a w => .ok a (w.behind lead)
  | .fault f w => .fault f (w.behind lead)
  | .abort why => .abort why

/-! ## What is alike up to waiting output -/

theorem Closure.Alike.eq {c c' : Closure} (h : c.Alike Eq c') : c' = c := by
  cases c; cases c'
  simp only [Closure.mk.injEq]
  exact ⟨h.name, h.params, h.body, h.scope.symm⟩

theorem Registration.Alike.eq {r r' : Registration} (h : r.Alike Eq r') : r' = r := by
  cases r; cases r'
  simp only [Registration.mk.injEq]
  exact ⟨h.param, h.body, h.line, h.scope.symm⟩

theorem Store.Alike.rfl (s : Store) : s.Alike Eq s :=
  ⟨Eq.refl _, Eq.refl _, Eq.refl _, Eq.refl _, Eq.refl _, fun _ => ⟨Eq.refl _, Eq.refl _, Eq.refl _, Eq.refl _⟩⟩

theorem Store.Alike.eq {s s' : Store} (h : s.Alike Eq s') : s' = s := by
  have hclosures : s'.closures = s.closures := by
    refine Array.ext h.count fun i hi hi' => ?_
    have hclosure := (h.closure i).eq
    simpa [Store.closure, hi, hi'] using hclosure
  cases s; cases s'
  simp only [Store.mk.injEq]
  exact ⟨h.arrays, h.prototypes, hclosures, h.constructors, h.variants⟩

theorem Host.Alike.eq {lead : Frame} {h h' : Host} (hh : h.Alike Eq lead h') :
    h' = { h with pending := h.pending.after lead } := by
  have hstore := hh.store.eq
  cases h; cases h'
  simp only [Host.mk.injEq]
  exact ⟨hstore, hh.device, hh.pending, hh.chances⟩

theorem Registration.Alike.rel_self (r? : Option Registration) : Option.Rel (Registration.Alike Eq) r? r? := by
  cases r? with
  | none => exact .none
  | some r => exact .some ⟨rfl, rfl, rfl, rfl⟩

/-! ## Waiting output as stages -/

structure Backlog where
  lead : Frame
  world : World

namespace Backlog

instance : Preorder Backlog where
  le σ τ := τ.lead = σ.lead
  le_refl _ := rfl
  le_trans _ _ _ h h' := h'.trans h

instance : Sides Backlog where
  left := world
  right σ := σ.world.behind σ.lead
  Same _ := Eq
  Kept _ := Eq
  lead := lead
  Sound _ := True

theorem next (σ : Backlog) (w : World) : Sides.Next σ w (w.behind σ.lead) :=
  ⟨⟨σ.lead, w⟩, rfl, rfl, rfl⟩

instance : Simulation Backlog where
  same_mono _ h := h
  kept_mono _ h := h
  same_of_kept h := h
  same_global _ := rfl
  sound _ := trivial
  get?_eq name h := by cases h; rfl
  host σ := ⟨.rfl _, rfl, rfl, rfl⟩
  draw σ := Registration.Alike.rel_self _
  update σ := Registration.Alike.rel_self _
  define {σ i j} name v h := by
    cases h
    exact σ.next _
  set {σ i j} name v h := by
    cases h
    exact σ.next _
  capture {σ i j} h := by
    cases h
    exact ⟨⟨σ.lead, { σ.world with scopes := σ.world.scopes.capture i }⟩, rfl, rfl, rfl, rfl⟩
  setHost {σ h h'} hh := by
    rw [hh.eq]
    exact σ.next { σ.world with host := h }
  setDraw {σ r r'} hr := by
    rw [hr.eq]
    exact σ.next { σ.world with draw? := some r }
  setUpdate {σ r r'} hr := by
    rw [hr.eq]
    exact σ.next { σ.world with update? := some r }
  setLast σ v := σ.next { σ.world with last := v }
  enter {σ i j} h := by
    cases h
    refine ⟨⟨σ.lead, { σ.world with scopes := (σ.world.scopes.child i).2 }⟩, rfl, rfl, rfl, fun _ _ h => h, ?_⟩
    intro υ hυ
    have hlead : υ.lead = σ.lead := hυ
    exact ⟨⟨υ.lead, { υ.world with scopes := υ.world.scopes.release (σ.world.scopes.child i).1 }⟩, hlead, rfl, rfl⟩

end Backlog

theorem Run.Alike.behind {α : Type} {m : Run α} {lead : Frame} {w : World}
    (h : Run.Alike (S := Backlog) ⟨lead, w⟩ m m) : m (w.behind lead) = (m w).behind lead := by
  have hends := h.ends
  change Outcome.Alike (S := Backlog) ⟨lead, w⟩ (m w) (m (w.behind lead)) at hends
  generalize m w = o, m (w.behind lead) = o' at hends
  cases hends with
  | @ok τ a h => exact congrArg (fun l => Outcome.ok a (τ.world.behind l)) h
  | @fault τ f h => exact congrArg (fun l => Outcome.fault f (τ.world.behind l)) h
  | abort why => rfl

end Cairn
