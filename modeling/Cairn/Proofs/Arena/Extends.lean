import Cairn.Proofs.Arena.WellFormed

/-!
# What a computation leaves of the scopes before it

An arena extends another when the scopes in use before are still there, with the same parents, and every
scope in use besides them is captured. A computation ends in an extension of the arena that it began with:
the scopes that it opens are released in the reverse order, once nothing but captured scopes is left inside
of them.
-/

namespace Cairn.Arena

structure Extends (a b : Arena) : Prop where
  inUse : ∀ t, a.InUse t → b.InUse t
  parent : ∀ t, a.InUse t → (b.scope t).parent = (a.scope t).parent
  captured : ∀ t, a.InUse t → (a.scope t).captured = true → (b.scope t).captured = true
  opened : ∀ t, b.InUse t → ¬ a.InUse t → (b.scope t).captured = true

variable {a b c : Arena} {id t p : ScopeId} {name : String} {value : Value}

namespace Extends

theorem refl (a : Arena) : a.Extends a where
  inUse _ h := h
  parent _ _ := rfl
  captured _ _ h := h
  opened _ h hn := absurd h hn

theorem trans (h : a.Extends b) (h' : b.Extends c) : a.Extends c where
  inUse t ht := h'.inUse t (h.inUse t ht)
  parent t ht := (h'.parent t (h.inUse t ht)).trans (h.parent t ht)
  captured t ht hc := h'.captured t (h.inUse t ht) (h.captured t ht hc)
  opened t ht hn := by
    by_cases hb : b.InUse t
    · exact h'.captured t hb (h.opened t hb hn)
    · exact h'.opened t ht hb

theorem of_view (huse : ∀ t, b.InUse t ↔ a.InUse t) (hpar : ∀ t, (b.scope t).parent = (a.scope t).parent)
    (hcap : ∀ t, (a.scope t).captured = true → (b.scope t).captured = true) : a.Extends b where
  inUse t ht := (huse t).2 ht
  parent t _ := hpar t
  captured t _ := hcap t
  opened t ht hn := absurd ((huse t).1 ht) hn

theorem define : a.Extends (a.define id name value) :=
  of_view (fun _ => inUse_define) (fun _ => parent_define) fun t ht => by simpa using ht

theorem capture (h : a.WellFormed) (hid : a.InUse id) : a.Extends (a.capture id) := by
  obtain ⟨path, hpath, huse⟩ := h.way hid
  have hscope t := scope_capture (t := t) hpath (fun t ht => (huse t ht).1) (h.capturedOutward path)
  refine of_view (fun _ => inUse_capture) (fun t => ?_) fun t ht => ?_
  · rw [hscope]; split <;> rfl
  · rw [hscope]
    split
    · rfl
    · exact ht

/-! ## A scope that is opened and released again -/

section

variable (ha : a.WellFormed) (hp : a.InUse p) (h : (a.child p).2.Extends b)

include ha h

theorem inUse_of_child (ht : a.InUse t) : b.InUse t :=
  h.inUse t ((inUse_child ha.freeSlots).2 (.inr ht))

theorem parent_of_child (ht : a.InUse t) : (b.scope t).parent = (a.scope t).parent := by
  have hne : t ≠ (a.child p).1 := fun e => not_inUse_child (e ▸ ht)
  rw [h.parent t ((inUse_child ha.freeSlots).2 (.inr ht)), scope_child_of_ne hne]

theorem captured_of_child (ht : a.InUse t) (hc : (a.scope t).captured = true) : (b.scope t).captured = true := by
  have hne : t ≠ (a.child p).1 := fun e => not_inUse_child (e ▸ ht)
  exact h.captured t ((inUse_child ha.freeSlots).2 (.inr ht)) (by rw [scope_child_of_ne hne]; exact hc)

theorem opened_of_child (ht : b.InUse t) (hn : ¬ a.InUse t) :
    t = (a.child p).1 ∨ (b.scope t).captured = true := by
  by_cases hc : (a.child p).2.InUse t
  · exact .inl (((inUse_child ha.freeSlots).1 hc).resolve_right hn)
  · exact .inr (h.opened t ht hc)

include hp

/-- Nothing but captured scopes is left inside of a scope that is to be released. -/
theorem parent_ne_child (hb : b.WellFormed) (hc : (b.scope (a.child p).1).captured = false)
    (ht : b.InUse t) : (b.scope t).parent ≠ some (a.child p).1 := by
  intro hpar
  by_cases hta : a.InUse t
  · rw [parent_of_child ha h hta] at hpar
    exact not_inUse_child (ha.closed t _ hta hpar)
  · rcases opened_of_child ha h ht hta with rfl | hcap
    · rw [h.parent _ ((inUse_child ha.freeSlots).2 (.inl rfl)), scope_child_self ha.freeSlots] at hpar
      exact not_inUse_child (Option.some.inj hpar ▸ hp)
    · have hcap' := hb.captured_parent t _ hcap hpar
      simp [hc] at hcap'

omit hp

theorem release (hr : b.recycles = true) : a.Extends (b.release (a.child p).1) := by
  have hne t (ht : a.InUse t) : t ≠ (a.child p).1 := fun e => not_inUse_child (e ▸ ht)
  by_cases hc : (b.scope (a.child p).1).captured = true
  · rw [release_of_captured hc]
    refine ⟨fun t => inUse_of_child ha h, fun t => parent_of_child ha h, fun t => captured_of_child ha h, ?_⟩
    intro t ht hn
    rcases opened_of_child ha h ht hn with rfl | hcap
    · exact hc
    · exact hcap
  · have hc : (b.scope (a.child p).1).captured = false := by simpa using hc
    refine ⟨fun t ht => ?_, fun t ht => ?_, fun t ht htc => ?_, fun t ht hn => ?_⟩
    · exact (inUse_release hr hc).2 ⟨inUse_of_child ha h ht, hne t ht⟩
    · rw [scope_release_of_ne (hne t ht), parent_of_child ha h ht]
    · rw [captured_release]
      exact captured_of_child ha h ht htc
    · obtain ⟨ht, hne⟩ := (inUse_release hr hc).1 ht
      rw [captured_release]
      exact (opened_of_child ha h ht hn).resolve_left hne

end

end Extends

end Cairn.Arena
