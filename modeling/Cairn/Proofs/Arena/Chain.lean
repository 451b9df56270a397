import Cairn.Proofs.Arena.Slots
import Mathlib.Data.List.Perm.Subperm
import Mathlib.Data.List.Nodup

/-!
# Chains of scopes

The way from a scope outward to the global one, as a list. Such a way visits no scope twice, so it is no
longer than the arena has slots, and the bounded loops that look a name up or capture a scope walk all
of it.
-/

namespace Cairn

/-- The scope, captured. -/
def Scope.pin (s : Scope) : Scope := { s with captured := true }

theorem Scope.pin_of_captured {s : Scope} (h : s.captured = true) : s.pin = s := by
  cases s; simp_all [Scope.pin]

namespace Arena

/-- `path` lists the scopes from `id` outward, up to the global one. -/
inductive Leads (a : Arena) : ScopeId → List ScopeId → Prop where
  | global (h : (a.scope .global).parent = none) : Leads a .global [.global]
  | outward {id p : ScopeId} {path : List ScopeId} (hp : (a.scope id).parent = some p)
      (h : Leads a p path) : Leads a id (id :: path)

variable {a b : Arena} {id t p : ScopeId} {path path' : List ScopeId} {name : String}

namespace Leads

theorem self_mem (h : a.Leads id path) : id ∈ path := by
  cases h <;> simp

theorem unique (h : a.Leads id path) (h' : a.Leads id path') : path = path' := by
  induction h generalizing path' with
  | global hn =>
      cases h' with
      | global _ => rfl
      | outward hp _ => simp [hn] at hp
  | outward hp _ ih =>
      cases h' with
      | global hn => simp [hn] at hp
      | outward hp' h' =>
          obtain rfl : _ = _ := Option.some.inj (hp.symm.trans hp')
          rw [ih h']

/-- From every scope on the way the rest of the way leads on. -/
theorem rest (h : a.Leads id path) (ht : t ∈ path) :
    ∃ rest, a.Leads t rest ∧ rest.length ≤ path.length ∧ rest ⊆ path := by
  induction h with
  | global hn =>
      obtain rfl := List.mem_singleton.1 ht
      exact ⟨_, .global hn, Nat.le_refl _, fun _ h => h⟩
  | outward hp h ih =>
      rcases List.mem_cons.1 ht with rfl | ht
      · exact ⟨_, .outward hp h, Nat.le_refl _, fun _ h => h⟩
      · obtain ⟨rest, hrest, hlen, hsub⟩ := ih ht
        exact ⟨rest, hrest, by simp; omega, fun x hx => List.mem_cons_of_mem _ (hsub hx)⟩

/-- No scope comes twice on its way: from its second place the way would be shorter than from its first. -/
theorem nodup (h : a.Leads id path) : path.Nodup := by
  induction h with
  | global _ => simp
  | @outward id p path hp h ih =>
      refine List.nodup_cons.2 ⟨fun hmem => ?_, ih⟩
      obtain ⟨rest, hrest, hlen, -⟩ := h.rest hmem
      have heq := congrArg List.length ((Leads.outward hp h).unique hrest)
      simp only [List.length_cons] at heq
      omega

theorem parent_mem (h : a.Leads id path) (ht : t ∈ path) (hp : (a.scope t).parent = some p) :
    p ∈ path := by
  obtain ⟨rest, hrest, -, hsub⟩ := h.rest ht
  cases hrest with
  | global hn => simp [hn] at hp
  | outward hp' h' =>
      obtain rfl : _ = _ := Option.some.inj (hp'.symm.trans hp)
      exact hsub (List.mem_cons_of_mem _ h'.self_mem)

/-- A way enters a scope only from the scopes inside of it. -/
theorem notMem (h : a.Leads id path) (hid : id ≠ t) (hinner : ∀ s ∈ path, (a.scope s).parent ≠ some t) :
    t ∉ path := by
  induction h with
  | global _ => simpa using hid.symm
  | @outward id p path hp _ ih =>
      intro ht
      rcases List.mem_cons.1 ht with rfl | ht
      · exact hid rfl
      · have hpt : p ≠ t := fun e => hinner id (by simp) (e ▸ hp)
        exact ih hpt (fun s hs => hinner s (List.mem_cons_of_mem _ hs)) ht

theorem length_le (h : a.Leads id path) (hlt : ∀ t ∈ path, t.slot < a.scopes.size) :
    path.length ≤ a.scopes.size := by
  have hsub : path.map ScopeId.slot ⊆ List.range a.scopes.size := by
    intro slot hslot
    obtain ⟨t, ht, rfl⟩ := List.mem_map.1 hslot
    exact List.mem_range.2 (hlt t ht)
  have hnd : (path.map ScopeId.slot).Nodup := h.nodup.map ScopeId.slot_injective
  simpa using (hnd.subperm hsub).length_le

/-- A way depends on nothing but the parents of the scopes on it. -/
theorem congr (h : a.Leads id path) (hp : ∀ t ∈ path, (b.scope t).parent = (a.scope t).parent) :
    b.Leads id path := by
  induction h with
  | global hn => exact .global ((hp _ (by simp)).trans hn)
  | outward hpar _ ih =>
      exact .outward ((hp _ (by simp)).trans hpar) (ih fun t ht => hp t (List.mem_cons_of_mem _ ht))

/-- A renaming that carries parents to parents carries ways to ways. -/
theorem map {ρ : ScopeId → ScopeId} (hg : ρ .global = .global) (h : a.Leads id path)
    (hp : ∀ t ∈ path, (b.scope (ρ t)).parent = (a.scope t).parent.map ρ) :
    b.Leads (ρ id) (path.map ρ) := by
  induction h with
  | global hn =>
      have hb := hp .global (by simp)
      rw [hg, hn] at hb
      simpa [hg] using Leads.global hb
  | @outward id p path hpar _ ih =>
      have hb := hp id (by simp)
      rw [hpar] at hb
      exact .outward hb (ih fun t ht => hp t (List.mem_cons_of_mem _ ht))

end Leads

/-! ## Looking a name up -/

theorem resolveWithin_eq_find? (h : a.Leads id path) {limit : Nat} (hl : path.length ≤ limit) :
    a.resolveWithin name id limit = path.find? fun t => (a.scope t).vars.contains name := by
  induction h generalizing limit with
  | global hn =>
      obtain ⟨n, rfl⟩ : ∃ n, limit = n + 1 := ⟨limit - 1, by simp at hl; omega⟩
      by_cases hv : (a.scope .global).vars.contains name = true
      · simp [resolveWithin, hv]
      · simp [resolveWithin, hv, hn]
  | @outward id p path hp _ ih =>
      obtain ⟨n, rfl⟩ : ∃ n, limit = n + 1 := ⟨limit - 1, by simp at hl; omega⟩
      by_cases hv : (a.scope id).vars.contains name = true
      · simp [resolveWithin, hv]
      · have hn : path.length ≤ n := by simp at hl; omega
        simp [resolveWithin, hv, hp, ih hn]

/-- Where a name is looked up: in the first scope of the way outward that binds it. -/
theorem resolve_eq_find? (h : a.Leads id path) (hlt : ∀ t ∈ path, t.slot < a.scopes.size) :
    a.resolve id name = path.find? fun t => (a.scope t).vars.contains name :=
  resolveWithin_eq_find? h (h.length_le hlt)

/-! ## Capturing a scope -/

/-- The parents of captured scopes on `path` are captured. -/
def CapturedOutward (a : Arena) (path : List ScopeId) : Prop :=
  ∀ t ∈ path, ∀ p, (a.scope t).captured = true → (a.scope t).parent = some p → (a.scope p).captured = true

theorem Leads.captured (h : a.Leads id path) (hup : a.CapturedOutward path)
    (hid : (a.scope id).captured = true) : ∀ t ∈ path, (a.scope t).captured = true := by
  induction h with
  | global _ => simpa using hid
  | @outward id p path hp _ ih =>
      have hpc := hup id (by simp) p hid hp
      have htail := ih (fun t ht => hup t (List.mem_cons_of_mem _ ht)) hpc
      intro t ht
      rcases List.mem_cons.1 ht with rfl | ht
      · exact hid
      · exact htail t ht

/-- Capturing keeps what changing a single scope keeps. -/
theorem view_captureWithin {β : Type} (view : Arena → β) (hv : ∀ a id f, view (modify a id f) = view a)
    {limit : Nat} : view (a.captureWithin id limit) = view a := by
  fun_induction captureWithin a id limit with
  | case1 => rfl
  | case2 => rfl
  | case3 => exact hv _ _ _
  | case4 _ _ _ _ _ _ _ ih => exact ih.trans (hv _ _ _)

section

variable {n : Nat}

theorem captureWithin_of_captured (hc : (a.scope id).captured = true) : a.captureWithin id (n + 1) = a := by
  simp [captureWithin, hc]

theorem captureWithin_last (hc : (a.scope id).captured = false) (hn : (a.scope id).parent = none) :
    a.captureWithin id (n + 1) = a.modify id Scope.pin := by
  simp [captureWithin, hc, hn]
  rfl

theorem captureWithin_outward (hc : (a.scope id).captured = false) (hp : (a.scope id).parent = some p) :
    a.captureWithin id (n + 1) = (a.modify id Scope.pin).captureWithin p n := by
  simp [captureWithin, hc, hp]
  rfl

end

-- The early exit at a captured scope skips nothing: everything further out is captured already.
theorem scope_captureWithin (h : a.Leads id path) (hlt : ∀ t ∈ path, t.slot < a.scopes.size)
    (hup : a.CapturedOutward path) {limit : Nat} (hl : path.length ≤ limit) :
    (a.captureWithin id limit).scope t = if t ∈ path then (a.scope t).pin else a.scope t := by
  induction path generalizing a id limit with
  | nil => cases h
  | cons s path ih =>
      obtain ⟨n, rfl⟩ : ∃ n, limit = n + 1 := ⟨limit - 1, by simp at hl; omega⟩
      by_cases hc : (a.scope id).captured = true
      · have hall := h.captured hup hc
        rw [captureWithin_of_captured hc]
        split
        · exact (Scope.pin_of_captured (hall t ‹_›)).symm
        · rfl
      · have hc : (a.scope id).captured = false := by simpa using hc
        have hid : id.slot < a.scopes.size := hlt id h.self_mem
        have hnd := h.nodup
        cases h with
        | global hn =>
            rw [captureWithin_last hc hn]
            by_cases ht : t = .global
            · subst ht; simp [scope_modify_self _ hid]
            · simp [scope_modify_of_ne _ ht, ht]
        | @outward _ p _ hp h =>
            have hnot : s ∉ path := (List.nodup_cons.1 hnd).1
            have hsame : ∀ t ∈ path, (a.modify s Scope.pin).scope t = a.scope t :=
              fun t ht => scope_modify_of_ne _ fun e => hnot (e ▸ ht)
            have hn : path.length ≤ n := by simp at hl; omega
            have hrest := ih (a := a.modify s Scope.pin)
              (h.congr fun t ht => by rw [hsame t ht])
              (fun t ht => by simpa using hlt t (List.mem_cons_of_mem _ ht))
              (fun t ht q hq hpar => by
                rw [hsame t ht] at hq hpar
                rw [hsame q (h.parent_mem ht hpar)]
                exact hup t (List.mem_cons_of_mem _ ht) q hq hpar)
              hn
            rw [captureWithin_outward hc hp, hrest]
            by_cases ht : t = s
            · subst ht; simp [hnot, scope_modify_self _ hid]
            · simp [ht, scope_modify_of_ne _ ht]

/-- Capturing a scope captures the whole way outward and changes nothing else. -/
theorem scope_capture (h : a.Leads id path) (hlt : ∀ t ∈ path, t.slot < a.scopes.size)
    (hup : a.CapturedOutward path) :
    (a.capture id).scope t = if t ∈ path then (a.scope t).pin else a.scope t :=
  scope_captureWithin h hlt hup (h.length_le hlt)

@[simp] theorem size_capture : (a.capture id).scopes.size = a.scopes.size :=
  view_captureWithin (·.scopes.size) fun _ _ _ => size_modify _

@[simp] theorem free_capture : (a.capture id).free = a.free :=
  view_captureWithin (·.free) fun _ _ _ => rfl

@[simp] theorem recycles_capture : (a.capture id).recycles = a.recycles :=
  view_captureWithin (·.recycles) fun _ _ _ => rfl

@[simp] theorem inUse_capture : (a.capture id).InUse t ↔ a.InUse t := by
  simp [InUse]

end Arena

end Cairn
