import Cairn.Proofs.Alike.Host
import Cairn.Eval.Evaluator
import Mathlib.Order.Defs.PartialOrder
import Mathlib.Data.Option.Basic

/-!
# Two runs side by side

A stage sets two worlds side by side and says which of their scopes stand for each other. Computations are
alike at a stage when they end alike, at a later stage, and when the first passes through sound moments
only. What a particular comparison of worlds has to show is listed in `Simulation`: each change that the
rules of evaluation make by themselves leads from a stage to a later one.
-/

namespace Cairn

structure Registration.Alike (Kept : ScopeId → ScopeId → Prop) (r r' : Registration) : Prop where
  param : r'.param? = r.param?
  body : r'.body = r.body
  line : r'.line = r.line
  scope : Kept r.scope r'.scope

theorem Registration.Alike.mono {Kept Kept' : ScopeId → ScopeId → Prop} (h : ∀ i j, Kept i j → Kept' i j)
    {r r' : Registration} (hr : r.Alike Kept r') : r.Alike Kept' r' :=
  { hr with scope := h _ _ hr.scope }

theorem Registration.Alike.rel_mono {Kept Kept' : ScopeId → ScopeId → Prop} (h : ∀ i j, Kept i j → Kept' i j)
    {r? r'? : Option Registration} (hr : Option.Rel (Registration.Alike Kept) r? r'?) :
    Option.Rel (Registration.Alike Kept') r? r'? := by
  cases hr with
  | none => exact .none
  | some hr => exact .some (hr.mono h)

/-- Stages, from earlier to later ones. -/
class Sides (S : Type) extends Preorder S where
  left : S → World
  right : S → World
  /-- Scopes that may be worked in and stand for each other. -/
  Same : S → ScopeId → ScopeId → Prop
  /-- Scopes, among these, that functions and frame blocks may hold on to. -/
  Kept : S → ScopeId → ScopeId → Prop
  /-- Output that waited on the right side beforehand. -/
  lead : S → Frame
  /-- What has to hold at every moment on the left. -/
  Sound : Moment → Prop

open Sides

variable {S : Type}

/-- A stage after `σ` sets these worlds side by side. -/
def Sides.Next [Sides S] (σ : S) (w w' : World) : Prop := ∃ τ : S, σ ≤ τ ∧ left τ = w ∧ right τ = w'

class Simulation (S : Type) extends Sides S where
  same_mono {σ τ : S} {i j : ScopeId} : σ ≤ τ → Same σ i j → Same τ i j
  kept_mono {σ τ : S} {i j : ScopeId} : σ ≤ τ → Kept σ i j → Kept τ i j
  same_of_kept {σ : S} {i j : ScopeId} : Kept σ i j → Same σ i j
  same_global (σ : S) : Same σ .global .global
  sound {σ : S} {i j : ScopeId} : Same σ i j → Sound ⟨left σ, i⟩
  get?_eq {σ : S} {i j : ScopeId} (name : String) : Same σ i j →
    (right σ).scopes.get? j name = (left σ).scopes.get? i name
  host (σ : S) : (left σ).host.Alike (Kept σ) (lead σ) (right σ).host
  draw (σ : S) : Option.Rel (Registration.Alike (Kept σ)) (left σ).draw? (right σ).draw?
  update (σ : S) : Option.Rel (Registration.Alike (Kept σ)) (left σ).update? (right σ).update?
  define {σ : S} {i j : ScopeId} (name : String) (v : Value) : Same σ i j →
    Sides.Next σ { left σ with scopes := (left σ).scopes.define i name v }
      { right σ with scopes := (right σ).scopes.define j name v }
  set {σ : S} {i j : ScopeId} (name : String) (v : Value) : Same σ i j →
    Sides.Next σ { left σ with scopes := (left σ).scopes.set i name v }
      { right σ with scopes := (right σ).scopes.set j name v }
  capture {σ : S} {i j : ScopeId} : Same σ i j →
    ∃ τ : S, σ ≤ τ ∧ left τ = { left σ with scopes := (left σ).scopes.capture i } ∧
      right τ = { right σ with scopes := (right σ).scopes.capture j } ∧ Kept τ i j
  setHost {σ : S} {h h' : Host} : h.Alike (Kept σ) (lead σ) h' →
    Sides.Next σ { left σ with host := h } { right σ with host := h' }
  setDraw {σ : S} {r r' : Registration} : r.Alike (Kept σ) r' →
    Sides.Next σ { left σ with draw? := some r } { right σ with draw? := some r' }
  setUpdate {σ : S} {r r' : Registration} : r.Alike (Kept σ) r' →
    Sides.Next σ { left σ with update? := some r } { right σ with update? := some r' }
  setLast (σ : S) (v : Value) : Sides.Next σ { left σ with last := v } { right σ with last := v }
  /-- A scope can be opened; and released again, at any stage after that, with a stage after the first. -/
  enter {σ : S} {i j : ScopeId} : Same σ i j →
    ∃ τ : S, left τ = { left σ with scopes := ((left σ).scopes.child i).2 } ∧
      right τ = { right σ with scopes := ((right σ).scopes.child j).2 } ∧
      Same τ ((left σ).scopes.child i).1 ((right σ).scopes.child j).1 ∧ (∀ k l, Same σ k l → Same τ k l) ∧
      ∀ υ : S, τ ≤ υ →
        Sides.Next σ { left υ with scopes := (left υ).scopes.release ((left σ).scopes.child i).1 }
          { right υ with scopes := (right υ).scopes.release ((right σ).scopes.child j).1 }

/-! ## Computations that are alike -/

inductive Outcome.Alike [Sides S] {α : Type} (σ : S) : Outcome α → Outcome α → Prop where
  | ok {τ : S} (a : α) (h : σ ≤ τ) : Outcome.Alike σ (.ok a (left τ)) (.ok a (right τ))
  | fault {τ : S} (f : Fault) (h : σ ≤ τ) : Outcome.Alike σ (.fault f (left τ)) (.fault f (right τ))
  | abort (why : Abort) : Outcome.Alike σ (.abort why) (.abort why)

structure Run.Alike [Sides S] {α : Type} (σ : S) (m m' : Run α) : Prop where
  ends : Outcome.Alike σ (m (left σ)) (m' (right σ))
  passes : ∀ i j, Same σ i j → ∀ y, m.passes ⟨left σ, i⟩ y → Sound S y

theorem Outcome.Alike.mono [Sides S] {α : Type} {σ τ : S} (h : σ ≤ τ) {o o' : Outcome α}
    (ho : Outcome.Alike τ o o') : Outcome.Alike σ o o' := by
  cases ho with
  | ok a h' => exact .ok a (le_trans h h')
  | fault f h' => exact .fault f (le_trans h h')
  | abort why => exact .abort why

theorem Sides.Next.ok [Sides S] {α : Type} {σ : S} {w w' : World} (a : α) (h : Sides.Next σ w w') :
    Outcome.Alike σ (.ok a w) (.ok a w') := by
  obtain ⟨τ, hτ, rfl, rfl⟩ := h
  exact .ok a hτ

theorem Sides.Next.fault [Sides S] {α : Type} {σ : S} {w w' : World} (f : Fault) (h : Sides.Next σ w w') :
    Outcome.Alike (α := α) σ (.fault f w) (.fault f w') := by
  obtain ⟨τ, hτ, rfl, rfl⟩ := h
  exact .fault f hτ

theorem Sides.Next.sound [Simulation S] {σ : S} {w w' : World} (h : Sides.Next σ w w') {i j : ScopeId}
    (hij : Same σ i j) : Sound S ⟨w, i⟩ := by
  obtain ⟨τ, hτ, rfl, rfl⟩ := h
  exact Simulation.sound (Simulation.same_mono hτ hij)

namespace Run.Alike

variable [Simulation S] {α β : Type} {σ : S} {m m' : Run α}

open Simulation

theorem pure (a : α) : Run.Alike σ (Pure.pure a) (Pure.pure a) where
  ends := .ok a le_rfl
  passes _ _ _ _ h := h.elim

theorem bind {k k' : α → Run β} (hm : Run.Alike σ m m')
    (hk : ∀ τ : S, σ ≤ τ → ∀ a, Run.Alike τ (k a) (k' a)) : Run.Alike σ (m >>= k) (m' >>= k') := by
  obtain ⟨hends, hpasses⟩ := hm
  constructor
  · simp only [Run.run_bind]
    generalize m (left σ) = o, m' (right σ) = o' at hends
    cases hends with
    | ok a h => exact (hk _ h a).ends.mono h
    | fault f h => exact .fault f h
    | abort why => exact .abort why
  · rintro i j hij y (hy | ⟨a, w, hw, hy⟩)
    · exact hpasses i j hij y hy
    · generalize m (left σ) = o, m' (right σ) = o' at hends hw
      cases hends with
      | ok b h =>
          cases hw
          exact (hk _ h a).passes i j (same_mono h hij) y hy
      | fault f h => cases hw
      | abort why => cases hw

/-- Computations of one step are alike if they end alike. -/
theorem step {f g : World → Outcome α} (h : Outcome.Alike σ (f (left σ)) (g (right σ))) :
    Run.Alike σ (Run.step f) (Run.step g) where
  ends := h
  passes i j hij y hy := by
    obtain ⟨w, s⟩ := y
    obtain ⟨hw, rfl⟩ := hy
    generalize f (left σ) = o, g (right σ) = o' at h hw
    cases h with
    | ok a h => cases hw; exact sound (same_mono h hij)
    | fault f h => cases hw; exact sound (same_mono h hij)
    | abort why => cases hw

theorem fail (cause : Fault.Cause) (line : Nat) :
    Run.Alike σ (Run.fail cause line : Run α) (Run.fail cause line) :=
  step (.fault _ le_rfl)

theorem abort (why : Abort) : Run.Alike σ (Run.abort why : Run α) (Run.abort why) :=
  step (.abort why)

theorem world {k k' : World → Run β} (h : Run.Alike σ (k (left σ)) (k' (right σ))) :
    Run.Alike σ (Run.world >>= k) (Run.world >>= k') := by
  refine ⟨h.ends, ?_⟩
  rintro i j hij y (⟨hw, hs⟩ | ⟨w, w', hw, hy⟩)
  · obtain ⟨v, s⟩ := y
    cases hw; cases hs
    exact sound hij
  · cases hw
    exact h.passes i j hij y hy

theorem modify {f g : World → World} (h : Next σ (f (left σ)) (g (right σ))) :
    Run.Alike σ (Run.modify f) (Run.modify g) :=
  step (h.ok ())

theorem read (line : Nat) {f g : World → Except Fault.Cause α} (h : g (right σ) = f (left σ)) :
    Run.Alike σ (Run.read line f) (Run.read line g) := by
  refine step ?_
  simp only [h]
  cases f (left σ) with
  | ok a => exact .ok a le_rfl
  | error cause => exact .fault _ le_rfl

theorem text (v : Value) : Run.Alike σ (Run.text v) (Run.text v) := by
  refine world ?_
  simp only [World.store, (host σ).store.display]
  cases (left σ).host.store.display v with
  | some text => exact pure text
  | none => exact abort _

theorem write (line : Nat) {f g : World → Except Fault.Cause World}
    (h : Except.Alike (Next σ) (f (left σ)) (g (right σ))) :
    Run.Alike σ (Run.write line f) (Run.write line g) := by
  refine step ?_
  generalize f (left σ) = r, g (right σ) = r' at h
  cases h with
  | ok h => exact h.ok ()
  | error cause => exact .fault _ le_rfl

theorem setStore {s s' : Store} (h : s.Alike (Kept σ) s') :
    Next σ ((left σ).withStore s) ((right σ).withStore s') :=
  setHost ((host σ).setStore h)

theorem create {f g : Store → Value × Store}
    (h : Store.AlikeWith (Kept σ) (f (left σ).store) (g (right σ).store)) :
    Run.Alike σ (Run.create f) (Run.create g) := by
  obtain ⟨hv, hs⟩ := h
  refine step ?_
  simp only [hv]
  exact (setStore hs).ok _

theorem make (line : Nat) {f g : Store → Except Fault.Cause (Value × Store)}
    (h : Except.Alike (Store.AlikeWith (Kept σ)) (f (left σ).store) (g (right σ).store)) :
    Run.Alike σ (Run.make line f) (Run.make line g) := by
  refine step ?_
  generalize f (left σ).store = r, g (right σ).store = r' at h
  cases h with
  | @ok a b h =>
      obtain ⟨hv, hs⟩ := h
      simp only [hv]
      exact (setStore hs).ok _
  | error cause => exact .fault _ le_rfl

theorem native {n : Native} (hn : n.Uniform) : Run.Alike σ (Run.native n) (Run.native n) := by
  refine step ?_
  have h := hn _ _ _ _ (host σ)
  generalize n (left σ).host = r, n (right σ).host = r' at h
  obtain ⟨answer, _⟩ := r
  obtain ⟨answer', _⟩ := r'
  obtain ⟨hsame, hhost⟩ := h
  cases hsame
  cases answer with
  | ok v => exact (setHost hhost).ok v
  | error e =>
      cases e with
      | fault f => exact (setHost hhost).fault f
      | abort why => exact .abort why

theorem within {i j : ScopeId} (hij : Same σ i j) (h : Run.Alike σ m m') :
    Run.Alike σ (Run.within i m) (Run.within j m') where
  ends := h.ends
  passes _ _ _ y hy := by
    rcases hy with rfl | hy
    · exact sound hij
    · exact h.passes i j hij y hy

/-! ## Scopes and sequences -/

theorem define {i j : ScopeId} (hij : Same σ i j) (name : String) (v : Value) :
    Run.Alike σ (Run.modifyScopes (·.define i name v)) (Run.modifyScopes (·.define j name v)) :=
  modify (Simulation.define name v hij)

theorem captured {i j : ScopeId} (hij : Same σ i j) {k k' : Run α}
    (hk : ∀ τ : S, σ ≤ τ → Kept τ i j → Run.Alike τ k k') :
    Run.Alike σ (Run.modifyScopes (·.capture i) >>= fun _ => k)
      (Run.modifyScopes (·.capture j) >>= fun _ => k') := by
  obtain ⟨τ, hτ, hleft, hright, hkept⟩ := Simulation.capture hij
  have hrest := hk τ hτ hkept
  constructor
  · refine Outcome.Alike.mono hτ ?_
    have hends := hrest.ends
    rw [hleft, hright] at hends
    exact hends
  · rintro k l hkl y (⟨hw, hs⟩ | ⟨_, w, hw, hy⟩)
    · obtain ⟨w, s⟩ := y
      cases hs; cases hw
      exact hleft ▸ sound (same_mono hτ hkl)
    · cases hw
      exact hrest.passes k l (same_mono hτ hkl) y (hleft ▸ hy)

theorem bindAll {i j : ScopeId} (hij : Same σ i j) (bindings : List (String × Value)) :
    Run.Alike σ (Run.bindAll i bindings) (Run.bindAll j bindings) := by
  induction bindings generalizing σ with
  | nil => exact pure ()
  | cons binding rest ih => exact bind (define hij _ _) fun τ hτ _ => ih (same_mono hτ hij)

section

variable {τ : S} {i j k l : ScopeId}
  (hback : ∀ υ : S, τ ≤ υ → Next σ { left υ with scopes := (left υ).scopes.release k }
    { right υ with scopes := (right υ).scopes.release l })

include hback

theorem releasing_ends (hm : Run.Alike τ m m') :
    Outcome.Alike σ (Run.releasing k m (left τ)) (Run.releasing l m' (right τ)) := by
  have hends := hm.ends
  simp only [Run.releasing]
  generalize m (left τ) = o, m' (right τ) = o' at hends
  cases hends with
  | ok a h => exact (hback _ h).ok a
  | fault f h => exact (hback _ h).fault f
  | abort why => exact .abort why

theorem releasing_passes (hm : Run.Alike τ m m') (hij : Same σ i j) (hτ : Same τ i j) (y : Moment)
    (hy : (Run.releasing k m).passes ⟨left τ, i⟩ y) : Sound S y := by
  have hends := hm.ends
  rcases hy with hy | ⟨w, hw, rfl⟩
  · exact hm.passes i j hτ y hy
  · generalize m (left τ) = o, m' (right τ) = o' at hends hw
    cases hends with
    | ok a h => cases hw; exact (hback _ h).sound hij
    | fault f h => cases hw; exact (hback _ h).sound hij
    | abort why => cases hw

end

theorem inScope {i j : ScopeId} (hij : Same σ i j) (bindings : List (String × Value))
    {body body' : ScopeId → Run α} (hbody : ∀ (τ : S) k l, Same τ k l → Run.Alike τ (body k) (body' l)) :
    Run.Alike σ (Run.inScope i bindings body) (Run.inScope j bindings body') := by
  obtain ⟨τ, hleft, hright, hnew, hold, hback⟩ := enter hij
  have hinner := within hnew <| bind (bindAll hnew bindings) fun υ hυ _ => hbody υ _ _ (same_mono hυ hnew)
  have hopen : Run.openScope i (left σ) = .ok ((left σ).scopes.child i).1 (left τ) := by rw [hleft]; rfl
  have hopen' : Run.openScope j (right σ) = .ok ((right σ).scopes.child j).1 (right τ) := by rw [hright]; rfl
  constructor
  · simp only [Run.inScope, Run.run_bind, hopen, hopen']
    exact releasing_ends hback hinner
  · rintro k l hkl y (⟨hw, hs⟩ | ⟨s, w, hw, hy⟩)
    · obtain ⟨w, s⟩ := y
      cases hs
      rw [show w = left τ by rw [hleft]; exact (Option.some.inj hw).symm]
      exact sound (hold k l hkl)
    · rw [hopen] at hw
      cases hw
      exact releasing_passes hback hinner hkl (hold k l hkl) y hy

theorem each {f g : α → Run β} (h : ∀ τ : S, σ ≤ τ → ∀ a, Run.Alike τ (f a) (g a)) (items : List α) :
    Run.Alike σ (Run.each f items) (Run.each g items) := by
  induction items generalizing σ with
  | nil => exact pure []
  | cons a rest ih =>
      refine bind (h σ le_rfl a) fun τ hτ b => ?_
      exact bind (ih fun υ hυ => h υ (le_trans hτ hυ)) fun υ _ bs => pure (b :: bs)

theorem eachEntry {f g : α → Run β} (h : ∀ τ : S, σ ≤ τ → ∀ a, Run.Alike τ (f a) (g a))
    (entries : List (String × α)) : Run.Alike σ (Run.eachEntry f entries) (Run.eachEntry g entries) := by
  induction entries generalizing σ with
  | nil => exact pure []
  | cons entry rest ih =>
      obtain ⟨key, a⟩ := entry
      refine bind (h σ le_rfl a) fun τ hτ b => ?_
      exact bind (ih fun υ hυ => h υ (le_trans hτ hυ)) fun υ _ bs => pure ((key, b) :: bs)

end Run.Alike

end Cairn
