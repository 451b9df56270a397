import Cairn.Proofs.Arena.Chain

/-!
# The names in a scope

Which names every scope binds, in the order in which they came, and what each operation does to them. A scope gets a
new name only when the name is bound in that very scope, or when a name that is bound nowhere is set and the scope is
the global one.
-/

namespace Cairn.Arena

/-- The names that are bound in exactly this scope, first bound first. -/
def names (a : Arena) (t : ScopeId) : List String := (a.scope t).vars.keys

/-- The scopes in use are still there, and all scopes have the names they had. -/
structure SameNames (a b : Arena) : Prop where
  inUse : ∀ t, a.InUse t → b.InUse t
  names : ∀ t, b.names t = a.names t

variable {a b : Arena} {id t s p : ScopeId} {name : String} {value : Value}

theorem SameNames.refl (a : Arena) : a.SameNames a := ⟨fun _ ht => ht, fun _ => rfl⟩

/-! ## Binding a name -/

theorem names_define_of_ne (h : t ≠ id) : (a.define id name value).names t = a.names t := by
  rw [names, scope_define_of_ne h, names]

theorem names_define_self (h : a.InUse id) :
    (a.define id name value).names id = if name ∈ a.names id then a.names id else a.names id ++ [name] := by
  rw [names, scope_define_self h.1]
  exact Dict.keys_insert _ _ _

theorem names_define_of_mem (h : name ∈ a.names id) : (a.define id name value).names t = a.names t := by
  by_cases ht : t = id
  · subst ht
    by_cases hlt : t.slot < a.scopes.size
    · rw [names, scope_define_self hlt]
      exact (Dict.keys_insert _ _ _).trans (if_pos h)
    · simp [names, define, modify, scope, hlt]
  · exact names_define_of_ne ht

/-! ## Looking a name up -/

theorem mem_names_of_resolveWithin {limit : Nat} (h : a.resolveWithin name id limit = some s) : name ∈ a.names s := by
  induction limit generalizing id with
  | zero => cases h
  | succ limit ih =>
      rw [resolveWithin] at h
      split at h
      next hcontains =>
        cases h
        exact (Dict.contains_iff_mem_keys _ _).1 hcontains
      next =>
        split at h
        · cases h
        · exact ih h

theorem mem_names_of_resolve (h : a.resolve id name = some s) : name ∈ a.names s := mem_names_of_resolveWithin h

theorem SameNames.set (h : (a.get? id name).isSome) : a.SameNames (a.set id name value) := by
  cases hs : a.resolve id name with
  | none => simp [get?, hs] at h
  | some s =>
      rw [Arena.set, hs]
      exact ⟨fun t ht => inUse_define.2 ht, fun t => names_define_of_mem (mem_names_of_resolve hs)⟩

/-! ## Capturing, opening and releasing -/

theorem names_captureWithin {limit : Nat} : (a.captureWithin id limit).names t = a.names t := by
  have hmodify (a : Arena) (id : ScopeId) : (a.modify id fun s => { s with captured := true }).names t = a.names t :=
    congrArg Dict.keys (view_modify Scope.vars fun _ => rfl)
  fun_induction captureWithin a id limit with
  | case1 => rfl
  | case2 => rfl
  | case3 => exact hmodify _ _
  | case4 _ _ _ _ _ _ _ ih => exact ih.trans (hmodify _ _)

theorem SameNames.capture : a.SameNames (a.capture id) := ⟨fun _ ht => inUse_capture.2 ht, fun _ => names_captureWithin⟩

theorem inUse_child_of_inUse (h : a.InUse t) : (a.child p).2.InUse t := by
  obtain ⟨hlt, hfree⟩ := h
  cases hf : a.free with
  | nil =>
      rw [child_of_full hf]
      exact ⟨by simp only [Array.size_push]; omega, by simp [hf]⟩
  | cons slot free =>
      rw [child_of_free hf]
      rw [hf] at hfree
      exact ⟨by simpa using hlt, fun hmem => hfree (List.mem_cons_of_mem _ hmem)⟩

theorem names_child_of_inUse (h : a.InUse t) : (a.child p).2.names t = a.names t := by
  rw [names, scope_child_of_ne fun heq => not_inUse_child (heq ▸ h), names]

theorem inUse_release_of_ne (h : a.InUse t) (hne : t ≠ id) : (a.release id).InUse t := by
  rw [release]
  split
  · exact h
  · have hslot : t.slot ≠ id.slot := fun heq => hne (ScopeId.slot_injective heq)
    exact ⟨by simpa using h.1, by simpa [hslot] using h.2⟩

theorem names_release_of_ne (h : t ≠ id) : (a.release id).names t = a.names t := by
  rw [names, scope_release_of_ne h, names]

end Cairn.Arena
