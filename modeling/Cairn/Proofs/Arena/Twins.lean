import Cairn.Proofs.Arena.Extends
import Mathlib.Data.List.Find
import Mathlib.Logic.Function.Basic

/-!
# An arena that recycles and one that keeps

The scopes in use of an arena that recycles slots are found again, under other names, in an arena that
keeps every scope. Names are looked up with the same answers in both, and what is done to a scope of the one
is done to its namesake in the other.
-/

namespace Cairn

/-- The scope, inside of the scope that its parent is called now. -/
def Scope.rename (ρ : ScopeId → ScopeId) (s : Scope) : Scope := { s with parent := s.parent.map ρ }

namespace Arena

structure Twins (ρ : ScopeId → ScopeId) (a b : Arena) : Prop where
  wellFormed : a.WellFormed
  recycles : a.recycles = true
  keeps : b.recycles = false
  full : b.free = []
  global : ρ .global = .global
  injective : ∀ s t, a.InUse s → a.InUse t → ρ s = ρ t → s = t
  lt : ∀ t, a.InUse t → (ρ t).slot < b.scopes.size
  scope : ∀ t, a.InUse t → b.scope (ρ t) = (a.scope t).rename ρ

variable {a b : Arena} {ρ : ScopeId → ScopeId} {id t p : ScopeId} {path : List ScopeId} {name : String}
  {value : Value}

theorem Twins.fresh : Twins (fun t => t) (Arena.fresh true) (Arena.fresh false) where
  wellFormed := WellFormed.fresh true
  recycles := rfl
  keeps := rfl
  full := rfl
  global := rfl
  injective _ _ _ _ h := h
  lt _ h := h.1
  scope t _ := by simp [Arena.fresh, Arena.scope, Scope.rename]

namespace Twins

variable (h : a.Twins ρ b)

include h

/-! ## Looking up -/

theorem ne (hid : a.InUse id) (ht : a.InUse t) (hne : t ≠ id) : ρ t ≠ ρ id :=
  fun e => hne (h.injective t id ht hid e)

theorem leads (hid : a.InUse id) (hpath : a.Leads id path) : b.Leads (ρ id) (path.map ρ) :=
  hpath.map h.global fun t ht => by rw [h.scope t (h.wellFormed.inUse_of_leads hid hpath t ht)]; rfl

theorem lt_of_leads (hid : a.InUse id) (hpath : a.Leads id path) : ∀ t ∈ path.map ρ, t.slot < b.scopes.size := by
  intro t ht
  obtain ⟨s, hs, rfl⟩ := List.mem_map.1 ht
  exact h.lt s (h.wellFormed.inUse_of_leads hid hpath s hs)

theorem resolve (hid : a.InUse id) (name : String) : b.resolve (ρ id) name = (a.resolve id name).map ρ := by
  obtain ⟨path, hpath, huse⟩ := h.wellFormed.way hid
  rw [resolve_eq_find? hpath fun t ht => (huse t ht).1,
    resolve_eq_find? (h.leads hid hpath) (h.lt_of_leads hid hpath), List.find?_map]
  congr 1
  refine List.find?_congr fun t ht => ?_
  simp [h.scope t (huse t ht), Scope.rename]

theorem get? (hid : a.InUse id) (name : String) : b.get? (ρ id) name = a.get? id name := by
  simp only [Arena.get?, h.resolve hid]
  cases hr : a.resolve id name with
  | none => rfl
  | some t =>
      have ht := h.wellFormed.resolve_inUse hid hr
      simp [h.scope t ht, Scope.rename]

theorem owner (hid : a.InUse id) (name : String) :
    (b.resolve (ρ id) name).getD .global = ρ ((a.resolve id name).getD .global) := by
  rw [h.resolve hid]
  cases a.resolve id name with
  | none => exact h.global.symm
  | some t => rfl

theorem globals : b.globals = a.globals := by
  have hg := h.scope _ h.wellFormed.global_inUse
  rw [h.global] at hg
  simp only [Arena.globals, hg, Scope.rename]

/-! ## What is done to both -/

theorem define (hid : a.InUse id) : (a.define id name value).Twins ρ (b.define (ρ id) name value) where
  wellFormed := h.wellFormed.define
  recycles := h.recycles
  keeps := h.keeps
  full := h.full
  global := h.global
  injective s t hs ht := h.injective s t (inUse_define.1 hs) (inUse_define.1 ht)
  lt t ht := by simpa using h.lt t (inUse_define.1 ht)
  scope t ht := by
    have ht : a.InUse t := inUse_define.1 ht
    by_cases heq : t = id
    · subst heq
      rw [scope_define_self (h.lt t hid), scope_define_self hid.1, h.scope t hid]
      rfl
    · rw [scope_define_of_ne (h.ne hid ht heq), scope_define_of_ne heq, h.scope t ht]

theorem defineAll (hid : a.InUse id) (bindings : List (String × Value)) :
    (a.defineAll id bindings).Twins ρ (b.defineAll (ρ id) bindings) := by
  induction bindings generalizing a b with
  | nil => exact h
  | cons binding rest ih => exact ih (h.define hid) (inUse_define.2 hid)

theorem set (hid : a.InUse id) : (a.set id name value).Twins ρ (b.set (ρ id) name value) := by
  simp only [Arena.set, h.owner hid]
  exact h.define (h.wellFormed.owner_inUse hid)

theorem capture (hid : a.InUse id) : (a.capture id).Twins ρ (b.capture (ρ id)) := by
  obtain ⟨path, hpath, huse⟩ := h.wellFormed.way hid
  have hup : b.CapturedOutward (path.map ρ) := by
    intro t ht p hc hp
    obtain ⟨s, hs, rfl⟩ := List.mem_map.1 ht
    rw [h.scope s (huse s hs)] at hc hp
    obtain ⟨q, hq, rfl⟩ := Option.map_eq_some_iff.1 hp
    have hqc := h.wellFormed.captured_parent s q hc hq
    rw [h.scope q (h.wellFormed.closed s q (huse s hs) hq)]
    exact hqc
  have hmem {t : ScopeId} (ht : a.InUse t) : ρ t ∈ path.map ρ ↔ t ∈ path := by
    refine ⟨fun hm => ?_, List.mem_map_of_mem⟩
    obtain ⟨s, hs, he⟩ := List.mem_map.1 hm
    exact h.injective s t (huse s hs) ht he ▸ hs
  exact {
    wellFormed := h.wellFormed.capture hid
    recycles := by simpa using h.recycles
    keeps := by simpa using h.keeps
    full := by simpa using h.full
    global := h.global
    injective := fun s t hs ht => h.injective s t (inUse_capture.1 hs) (inUse_capture.1 ht)
    lt := fun t ht => by simpa using h.lt t (inUse_capture.1 ht)
    scope := fun t ht => by
      have ht := inUse_capture.1 ht
      rw [scope_capture (h.leads hid hpath) (h.lt_of_leads hid hpath) hup,
        scope_capture hpath (fun t ht => (huse t ht).1) (h.wellFormed.capturedOutward path), h.scope t ht]
      simp only [hmem ht]
      split <;> rfl }

/-- An arena that keeps every scope opens scopes at its end. -/
theorem child_right : b.child p = (⟨b.scopes.size⟩, { b with scopes := b.scopes.push { parent := some p } }) :=
  child_of_full h.full

theorem child (hid : a.InUse id) :
    (a.child id).2.Twins (Function.update ρ (a.child id).1 (b.child (ρ id)).1) (b.child (ρ id)).2 := by
  have hfree := h.wellFormed.freeSlots
  have hnew {t : ScopeId} (ht : a.InUse t) : t ≠ (a.child id).1 := fun e => not_inUse_child (e ▸ ht)
  have hold {t : ScopeId} (ht : a.InUse t) :
      Function.update ρ (a.child id).1 (b.child (ρ id)).1 t = ρ t := Function.update_of_ne (hnew ht) _ _
  have hsize : (b.child (ρ id)).2.scopes.size = b.scopes.size + 1 := by simp [h.child_right]
  have hfirst : (b.child (ρ id)).1.slot = b.scopes.size := by simp [h.child_right]
  have hlt {t : ScopeId} (ht : a.InUse t) : ρ t ≠ (b.child (ρ id)).1 := by
    intro e
    have hslot := h.lt t ht
    rw [e, hfirst] at hslot
    exact Nat.lt_irrefl _ hslot
  refine ⟨h.wellFormed.child hid, by simpa using h.recycles, by simpa using h.keeps, ?_, ?_, ?_, ?_, ?_⟩
  · simp [h.child_right, h.full]
  · rw [hold h.wellFormed.global_inUse, h.global]
  · intro s t hs ht he
    rcases (inUse_child hfree).1 hs with rfl | hs <;> rcases (inUse_child hfree).1 ht with rfl | ht
    · rfl
    · rw [Function.update_self, hold ht] at he
      exact absurd he.symm (hlt ht)
    · rw [Function.update_self, hold hs] at he
      exact absurd he (hlt hs)
    · rw [hold hs, hold ht] at he
      exact h.injective s t hs ht he
  · intro t ht
    rcases (inUse_child hfree).1 ht with rfl | ht
    · rw [Function.update_self, hsize, hfirst]
      exact Nat.lt_succ_self _
    · rw [hold ht, hsize]
      exact Nat.lt_succ_of_lt (h.lt t ht)
  · intro t ht
    have hbfree : b.FreeSlots := ⟨by simp [h.full], by simp [h.full]⟩
    rcases (inUse_child hfree).1 ht with rfl | ht
    · rw [Function.update_self, scope_child_self hbfree, scope_child_self hfree]
      simp [Scope.rename, hold hid]
    · rw [hold ht, scope_child_of_ne (hlt ht), scope_child_of_ne (hnew ht), h.scope t ht]
      -- the parents of scopes in use are in use, so they are called as before
      cases hpar : (a.scope t).parent with
      | none => simp [Scope.rename, hpar]
      | some q => simp [Scope.rename, hpar, hold (h.wellFormed.closed t q ht hpar)]

theorem release (hid : a.InUse id)
    (hinner : (a.scope id).captured = false → ∀ t, a.InUse t → (a.scope t).parent ≠ some id) :
    (a.release id).Twins ρ (b.release (ρ id)) := by
  have hwf := h.wellFormed.release hid hinner
  rw [release_of_keeps h.keeps]
  by_cases hc : (a.scope id).captured = true
  · rwa [release_of_captured hc]
  have huse t : (a.release id).InUse t ↔ a.InUse t ∧ t ≠ id := inUse_release h.recycles (by simpa using hc)
  refine ⟨hwf, by simpa using h.recycles, h.keeps, h.full, h.global, ?_, ?_, ?_⟩
  · intro s t hs ht
    exact h.injective s t ((huse s).1 hs).1 ((huse t).1 ht).1
  · intro t ht
    exact h.lt t ((huse t).1 ht).1
  · intro t ht
    obtain ⟨ht, hne⟩ := (huse t).1 ht
    rw [scope_release_of_ne hne, h.scope t ht]

end Twins

end Arena

end Cairn
