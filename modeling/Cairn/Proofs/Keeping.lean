import Cairn.Proofs.History
import Mathlib.Tactic.Common

/-!
# Computations that keep to terms

Terms say which worlds are in order and which faults may happen. A computation keeps to them if from a world in
order it comes to one again, also after a fault, and if it ends with a value of a given kind or with such a fault.
-/

namespace Cairn

structure Terms where
  InOrder : World → Prop
  Admits : Fault → Prop

def Outcome.Keeps {α : Type} (T : Terms) (Q : α → Prop) : Outcome α → Prop
  | .ok a w => Q a ∧ T.InOrder w
  | .fault f w => T.Admits f ∧ T.InOrder w
  | .abort _ => True

/-- From a world in order, the computation comes to a world in order, with a value of `Q` or an admitted fault. -/
def Run.Keeps {α : Type} (T : Terms) (Q : α → Prop) (m : Run α) : Prop :=
  ∀ w, T.InOrder w → (m w).Keeps T Q

namespace Run.Keeps

variable {T : Terms} {α β : Type} {P : α → Prop} {Q : β → Prop} {m : Run α} {k : α → Run β}

theorem pure {b : β} (h : Q b) : (Pure.pure b : Run β).Keeps T Q := fun _ hw => ⟨h, hw⟩

theorem bind (hm : m.Keeps T P) (hk : ∀ a, P a → (k a).Keeps T Q) : (m >>= k).Keeps T Q := by
  intro w hw
  have hends := hm w hw
  rw [Run.run_bind]
  cases h : m w with
  | ok a w' =>
      rw [h] at hends
      exact hk a hends.1 w' hends.2
  | fault f w' => rw [h] at hends; exact hends
  | abort why => trivial

theorem fail {cause : Fault.Cause} {line : Nat} (h : T.Admits ⟨cause, line⟩) :
    (Run.fail cause line : Run β).Keeps T Q := fun _ hw => ⟨h, hw⟩

theorem abort (why : Abort) : (Run.abort why : Run β).Keeps T Q := fun _ _ => trivial

theorem world {k : World → Run β} (h : ∀ w, T.InOrder w → (k w).Keeps T Q) : (Run.world >>= k).Keeps T Q :=
  fun w hw => h w hw w hw

theorem text (v : Value) : (Run.text v).Keeps T fun _ => True := by
  refine world fun w _ => ?_
  cases w.store.display v with
  | some text => exact pure trivial
  | none => exact abort _

theorem modify {f : World → World} (h : ∀ w, T.InOrder w → T.InOrder (f w)) :
    (Run.modify f).Keeps T fun _ => True := fun w hw => ⟨trivial, h w hw⟩

theorem create {f : Store → Value × Store} (h : ∀ w, T.InOrder w → T.InOrder (w.withStore (f w.store).2)) :
    (Run.create f).Keeps T fun _ => True := fun w hw => ⟨trivial, h w hw⟩

theorem make {line : Nat} {f : Store → Except Fault.Cause (Value × Store)}
    (hok : ∀ w v s, T.InOrder w → f w.store = .ok (v, s) → T.InOrder (w.withStore s))
    (herror : ∀ s cause, f s = .error cause → T.Admits ⟨cause, line⟩) :
    (Run.make line f).Keeps T fun _ => True := by
  intro w hw
  simp only [Run.make, Run.step]
  cases h : f w.store with
  | ok r => exact ⟨trivial, hok w r.1 r.2 hw h⟩
  | error cause => exact ⟨herror _ cause h, hw⟩

theorem read {line : Nat} {f : World → Except Fault.Cause β}
    (herror : ∀ w cause, f w = .error cause → T.Admits ⟨cause, line⟩) :
    (Run.read line f).Keeps T fun _ => True := by
  intro w hw
  simp only [Run.read, Run.step]
  cases h : f w with
  | ok a => exact ⟨trivial, hw⟩
  | error cause => exact ⟨herror w cause h, hw⟩

theorem write {line : Nat} {f : World → Except Fault.Cause World}
    (hok : ∀ w w', T.InOrder w → f w = .ok w' → T.InOrder w')
    (herror : ∀ w cause, f w = .error cause → T.Admits ⟨cause, line⟩) :
    (Run.write line f).Keeps T fun _ => True := by
  intro w hw
  simp only [Run.write, Run.step]
  cases h : f w with
  | ok w' => exact ⟨trivial, hok w w' hw h⟩
  | error cause => exact ⟨herror w cause h, hw⟩

theorem native {n : Native} (hhost : ∀ w, T.InOrder w → T.InOrder { w with host := (n w.host).2 })
    (herror : ∀ h f, (n h).1 = .error (.fault f) → T.Admits f) : (Run.native n).Keeps T fun _ => True := by
  intro w hw
  have hhost := hhost w hw
  simp only [Run.native, Run.step]
  rcases hr : n w.host with ⟨answer, h⟩
  rw [hr] at hhost
  cases answer with
  | ok v => exact ⟨trivial, hhost⟩
  | error e =>
      cases e with
      | fault f => exact ⟨herror w.host f (by rw [hr]), hhost⟩
      | abort why => trivial

theorem within {scope : ScopeId} (h : m.Keeps T P) : (Run.within scope m).Keeps T P := h

theorem each {f : α → Run β} {items : List α} (h : ∀ a ∈ items, (f a).Keeps T Q) :
    (Run.each f items).Keeps T fun bs => ∀ b ∈ bs, Q b := by
  induction items with
  | nil => exact pure (by simp)
  | cons a rest ih =>
      refine bind (h a (by simp)) fun b hb => ?_
      refine bind (ih fun a ha => h a (by simp [ha])) fun bs hbs => pure ?_
      simpa using ⟨hb, hbs⟩

theorem eachEntry {f : α → Run β} {entries : List (String × α)} (h : ∀ entry ∈ entries, (f entry.2).Keeps T Q) :
    (Run.eachEntry f entries).Keeps T fun _ => True := by
  induction entries with
  | nil => exact pure trivial
  | cons entry rest ih =>
      refine bind (h entry (by simp)) fun b _ => ?_
      exact bind (ih fun entry he => h entry (by simp [he])) fun bs _ => pure trivial

/-- An answer that is a fault is one that may happen. -/
theorem attempt (h : m.Keeps T P) : m.attempt.Keeps T fun answer => ∀ f, answer = .error f → T.Admits f := by
  intro w hw
  have hends := h w hw
  simp only [Run.attempt]
  cases hm : m w with
  | ok a w' =>
      rw [hm] at hends
      exact ⟨by simp, hends.2⟩
  | fault f w' =>
      rw [hm] at hends
      refine ⟨fun f' hf' => ?_, hends.2⟩
      cases hf'
      exact hends.1
  | abort why => trivial

/-! ## Scopes

Where the terms do not speak of the scopes.
-/

section

variable (hscopes : ∀ (w : World) (scopes : Arena), T.InOrder w → T.InOrder { w with scopes })

include hscopes

theorem modifyScopes (f : Arena → Arena) : (Run.modifyScopes f).Keeps T fun _ => True :=
  modify fun w hw => hscopes w _ hw

theorem bindAll (scope : ScopeId) (bindings : List (String × Value)) :
    (Run.bindAll scope bindings).Keeps T fun _ => True := by
  induction bindings with
  | nil => exact pure trivial
  | cons binding rest ih => exact bind (modifyScopes hscopes _) fun _ _ => ih

theorem releasing {scope : ScopeId} (h : m.Keeps T P) : (Run.releasing scope m).Keeps T P := by
  intro w hw
  have hends := h w hw
  simp only [Run.releasing]
  cases hm : m w with
  | ok a w' => rw [hm] at hends; exact ⟨hends.1, hscopes _ _ hends.2⟩
  | fault f w' => rw [hm] at hends; exact ⟨hends.1, hscopes _ _ hends.2⟩
  | abort why => trivial

theorem inScope {parent : ScopeId} {bindings : List (String × Value)} {body : ScopeId → Run α}
    (h : ∀ scope, (body scope).Keeps T P) : (Run.inScope parent bindings body).Keeps T P := by
  have hopen : (Run.openScope parent).Keeps T fun _ => True := fun w hw => ⟨trivial, hscopes _ _ hw⟩
  refine bind hopen fun scope _ => releasing hscopes (within ?_)
  exact bind (bindAll hscopes scope bindings) fun _ _ => h scope

end

/-- A fault that happens in a world in order is admitted. -/
theorem admits (h : m.Keeps T P) {w w' : World} {f : Fault} (hw : T.InOrder w) (hf : m w = .fault f w') :
    T.Admits f := by
  have hends := h w hw
  rw [hf] at hends
  exact hends.1

end Run.Keeps

/-- Where new worlds are in order, all acts keep to the terms, and these speak of neither device nor waiting output,
every world that a host can have is in order. -/
theorem World.Reachable.inOrder {T : Terms} {Runs : Program → Prop}
    (hstart : ∀ device chances, T.InOrder (World.start device chances))
    (hact : ∀ fuel {act : Act}, act.Within Runs → (act.perform fuel).Keeps T fun _ => True)
    (hhost : ∀ (w : World) device pending, T.InOrder w → T.InOrder { w with host := { w.host with device, pending } })
    {w : World} (h : w.Reachable Runs) : T.InOrder w := by
  induction h with
  | start device chances => exact hstart device chances
  | @act w w' _ fuel act hwithin hw ih =>
      have hends := hact fuel hwithin w ih
      cases hrun : act.perform fuel w with
      | ok v w₁ => rw [hrun] at hends hw; cases hw; exact hends.2
      | fault f w₁ => rw [hrun] at hends hw; cases hw; exact hends.2
      | abort why => rw [hrun] at hw; cases hw
  | @host w _ device pending ih => exact hhost w device pending ih

end Cairn
