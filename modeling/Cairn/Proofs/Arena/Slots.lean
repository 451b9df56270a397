import Cairn.Value.Arena
import Mathlib.Data.List.Basic
import Mathlib.Tactic.Tauto

/-!
# The slots of an arena

Which slots are in use, and what each operation does to every slot. The proofs about arenas use these
equations and do not look into the tables behind them.
-/

namespace Cairn

theorem ScopeId.slot_injective : Function.Injective ScopeId.slot := by
  rintro ⟨i⟩ ⟨j⟩ h
  exact congrArg ScopeId.mk h

namespace Arena

variable {a : Arena} {id t p : ScopeId} {name : String} {value : Value}

/-- A slot that holds a scope which has not been released. -/
def InUse (a : Arena) (id : ScopeId) : Prop := id.slot < a.scopes.size ∧ id.slot ∉ a.free

/-- Every released slot is a slot of the arena, and no slot was released twice. -/
structure FreeSlots (a : Arena) : Prop where
  nodup : a.free.Nodup
  lt : ∀ slot ∈ a.free, slot < a.scopes.size

/-! ## Changing one scope -/

@[simp] theorem size_modify (f : Scope → Scope) : (a.modify id f).scopes.size = a.scopes.size := by
  simp [modify]

@[simp] theorem free_modify (f : Scope → Scope) : (a.modify id f).free = a.free := rfl

@[simp] theorem inUse_modify (f : Scope → Scope) : (a.modify id f).InUse t ↔ a.InUse t := by
  simp [InUse]

theorem scope_modify_of_ne (f : Scope → Scope) (h : t ≠ id) : (a.modify id f).scope t = a.scope t := by
  have hslot : id.slot ≠ t.slot := fun e => h (ScopeId.slot_injective e.symm)
  simp [modify, scope, Array.getElem?_modify, hslot]

theorem scope_modify_self (f : Scope → Scope) (h : id.slot < a.scopes.size) :
    (a.modify id f).scope id = f (a.scope id) := by
  simp [modify, scope, Array.getElem_modify, h]

/-- What `f` leaves alone in a scope, changing any scope by `f` leaves alone in all of them. -/
theorem view_modify {β : Type} (view : Scope → β) {f : Scope → Scope} (hf : ∀ s, view (f s) = view s) :
    view ((a.modify id f).scope t) = view (a.scope t) := by
  by_cases h : t = id
  · subst h
    by_cases hlt : t.slot < a.scopes.size
    · rw [scope_modify_self f hlt, hf]
    · simp [modify, scope, hlt]
  · rw [scope_modify_of_ne f h]

@[simp] theorem size_define : (a.define id name value).scopes.size = a.scopes.size := size_modify _

@[simp] theorem free_define : (a.define id name value).free = a.free := rfl

@[simp] theorem inUse_define : (a.define id name value).InUse t ↔ a.InUse t := inUse_modify _

theorem scope_define_of_ne (h : t ≠ id) : (a.define id name value).scope t = a.scope t :=
  scope_modify_of_ne _ h

theorem scope_define_self (h : id.slot < a.scopes.size) :
    (a.define id name value).scope id
      = { a.scope id with vars := (a.scope id).vars.insert name value } :=
  scope_modify_self _ h

@[simp] theorem parent_define : ((a.define id name value).scope t).parent = (a.scope t).parent :=
  view_modify Scope.parent fun _ => rfl

@[simp] theorem captured_define : ((a.define id name value).scope t).captured = (a.scope t).captured :=
  view_modify Scope.captured fun _ => rfl

/-! ## Opening a scope -/

theorem child_of_free {slot : Nat} {free : List Nat} (h : a.free = slot :: free) :
    a.child p = (⟨slot⟩, { a with scopes := a.scopes.setIfInBounds slot { parent := some p }, free }) := by
  simp [child, h]

theorem child_of_full (h : a.free = []) :
    a.child p = (⟨a.scopes.size⟩, { a with scopes := a.scopes.push { parent := some p } }) := by
  simp [child, h]

@[simp] theorem recycles_child : (a.child p).2.recycles = a.recycles := by
  rw [child]; split <;> rfl

theorem not_inUse_child : ¬ a.InUse (a.child p).1 := by
  cases h : a.free with
  | nil => simp [child_of_full h, InUse]
  | cons slot free => simp [child_of_free h, InUse, h]

theorem scope_child_self (h : a.FreeSlots) : (a.child p).2.scope (a.child p).1 = { parent := some p } := by
  cases hf : a.free with
  | nil => simp [child_of_full hf, scope]
  | cons slot free =>
      have hlt : slot < a.scopes.size := h.lt slot (by simp [hf])
      simp [child_of_free hf, scope, hlt]

theorem scope_child_of_ne (h : t ≠ (a.child p).1) : (a.child p).2.scope t = a.scope t := by
  cases hf : a.free with
  | nil =>
      rw [child_of_full hf] at h ⊢
      have hslot : t.slot ≠ a.scopes.size := fun e => h (ScopeId.slot_injective e)
      simp [scope, Array.getElem?_push, hslot]
  | cons slot free =>
      rw [child_of_free hf] at h ⊢
      have hslot : slot ≠ t.slot := fun e => h (ScopeId.slot_injective e.symm)
      simp [scope, hslot]

theorem inUse_child (h : a.FreeSlots) : (a.child p).2.InUse t ↔ t = (a.child p).1 ∨ a.InUse t := by
  obtain ⟨i⟩ := t
  cases hf : a.free with
  | nil =>
      simp only [child_of_full hf, InUse, hf, Array.size_push, ScopeId.mk.injEq]
      simp; omega
  | cons slot free =>
      have hlt := h.lt slot (by simp [hf])
      have hnd := h.nodup
      simp only [child_of_free hf, InUse, hf, Array.size_setIfInBounds, ScopeId.mk.injEq]
      grind

theorem FreeSlots.child (h : a.FreeSlots) : (a.child p).2.FreeSlots := by
  obtain ⟨hnd, hlt⟩ := h
  cases hf : a.free with
  | nil => simpa [child_of_full hf] using ⟨by simp [hf], by simp [hf]⟩
  | cons slot free =>
      rw [hf] at hnd hlt
      rw [child_of_free hf]
      exact ⟨hnd.of_cons, fun s hs => by simpa using hlt s (List.mem_cons_of_mem _ hs)⟩

/-! ## Releasing a scope -/

theorem release_of_captured (h : (a.scope id).captured = true) : a.release id = a := by
  simp [release, h]

theorem release_of_keeps (h : a.recycles = false) : a.release id = a := by
  simp [release, h]

theorem release_of_recycles (hr : a.recycles = true) (hc : (a.scope id).captured = false) :
    a.release id
      = { a.modify id (fun s => { s with vars := {}, parent := none }) with free := id.slot :: a.free } := by
  simp [release, hr, hc]

@[simp] theorem recycles_release : (a.release id).recycles = a.recycles := by
  rw [release]; split <;> rfl

theorem scope_release_of_ne (h : t ≠ id) : (a.release id).scope t = a.scope t := by
  rw [release]
  split
  · rfl
  · exact scope_modify_of_ne _ h

@[simp] theorem captured_release : ((a.release id).scope t).captured = (a.scope t).captured := by
  rw [release]
  split
  · rfl
  · exact view_modify Scope.captured fun _ => rfl

theorem inUse_release (hr : a.recycles = true) (hc : (a.scope id).captured = false) :
    (a.release id).InUse t ↔ a.InUse t ∧ t ≠ id := by
  have hslot : t.slot = id.slot ↔ t = id := ScopeId.slot_injective.eq_iff
  simp only [release_of_recycles hr hc, InUse, size_modify, List.mem_cons, hslot]
  tauto

theorem FreeSlots.release (h : a.FreeSlots) (hid : a.InUse id) : (a.release id).FreeSlots := by
  rw [Arena.release]
  split
  · exact h
  · refine ⟨List.nodup_cons.2 ⟨hid.2, h.nodup⟩, fun slot hslot => ?_⟩
    rcases List.mem_cons.1 hslot with rfl | hslot
    · simpa using hid.1
    · simpa using h.lt slot hslot

end Arena

end Cairn
