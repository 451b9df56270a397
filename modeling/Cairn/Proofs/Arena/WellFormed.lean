import Cairn.Proofs.Arena.Chain

/-!
# Well-formed arenas

What holds of the scopes at every moment of a run: from every scope in use a way through scopes in use
leads to the global one, released slots are released once and hold nothing that is captured, and whatever
is around a captured scope is captured. Every operation keeps this, except that a scope may be released
only when no scope in use has it as its parent.
-/

namespace Cairn.Arena

/-- The order among the scopes of an arena. -/
structure WellFormed (a : Arena) : Prop where
  freeSlots : a.FreeSlots
  leads : ∀ id, a.InUse id → ∃ path, a.Leads id path
  closed : ∀ id p, a.InUse id → (a.scope id).parent = some p → a.InUse p
  global : (a.scope .global).captured = true
  inUse_of_captured : ∀ id, (a.scope id).captured = true → a.InUse id
  captured_parent : ∀ id p, (a.scope id).captured = true → (a.scope id).parent = some p →
    (a.scope p).captured = true

variable {a b : Arena} {id t p : ScopeId} {path : List ScopeId} {name : String} {value : Value}

namespace WellFormed

theorem global_inUse (h : a.WellFormed) : a.InUse .global :=
  h.inUse_of_captured _ h.global

theorem capturedOutward (h : a.WellFormed) (path : List ScopeId) : a.CapturedOutward path :=
  fun t _ p => h.captured_parent t p

theorem inUse_of_leads (h : a.WellFormed) (hid : a.InUse id) (hpath : a.Leads id path) :
    ∀ t ∈ path, a.InUse t := by
  induction hpath with
  | global _ => simpa using hid
  | @outward id p path hp _ ih =>
      have hrest := ih (h.closed _ _ hid hp)
      intro t ht
      rcases List.mem_cons.1 ht with rfl | ht
      · exact hid
      · exact hrest t ht

/-- From a scope in use, a way through scopes in use leads to the global one. -/
theorem way (h : a.WellFormed) (hid : a.InUse id) :
    ∃ path, a.Leads id path ∧ ∀ t ∈ path, a.InUse t := by
  obtain ⟨path, hpath⟩ := h.leads id hid
  exact ⟨path, hpath, h.inUse_of_leads hid hpath⟩

theorem resolve_inUse (h : a.WellFormed) (hid : a.InUse id) (ht : a.resolve id name = some t) :
    a.InUse t := by
  obtain ⟨path, hpath, huse⟩ := h.way hid
  rw [resolve_eq_find? hpath fun s hs => (huse s hs).1] at ht
  exact huse t (List.mem_of_find?_eq_some ht)

/-- The scope that an assignment to `name` writes to. -/
theorem owner_inUse (h : a.WellFormed) (hid : a.InUse id) :
    a.InUse ((a.resolve id name).getD .global) := by
  cases hr : a.resolve id name with
  | none => exact h.global_inUse
  | some t => exact h.resolve_inUse hid hr

/-! ## What the operations keep -/

/-- Well-formedness asks only which slots are in use, for parents, and for what is captured. -/
theorem congr (h : a.WellFormed) (hfree : b.FreeSlots) (huse : ∀ t, b.InUse t ↔ a.InUse t)
    (hpar : ∀ t, (b.scope t).parent = (a.scope t).parent)
    (hcap : ∀ t, (b.scope t).captured = (a.scope t).captured) : b.WellFormed where
  freeSlots := hfree
  leads id hid := by
    obtain ⟨path, hpath⟩ := h.leads id ((huse id).1 hid)
    exact ⟨path, hpath.congr fun t _ => hpar t⟩
  closed id p hid hp := by
    rw [huse] at hid ⊢
    rw [hpar] at hp
    exact h.closed id p hid hp
  global := by rw [hcap]; exact h.global
  inUse_of_captured id hid := by
    rw [hcap] at hid
    exact (huse id).2 (h.inUse_of_captured id hid)
  captured_parent id p hid hp := by
    rw [hcap] at hid ⊢
    rw [hpar] at hp
    exact h.captured_parent id p hid hp

theorem define (h : a.WellFormed) : (a.define id name value).WellFormed :=
  h.congr ⟨h.freeSlots.nodup, by simpa using h.freeSlots.lt⟩ (fun _ => inUse_define)
    (fun _ => parent_define) fun _ => captured_define

theorem fresh (recycles : Bool) : (Arena.fresh recycles).WellFormed := by
  have hscope : ∀ t, ((Arena.fresh recycles).scope t).parent = none := by
    rintro ⟨i⟩
    cases i <;> simp [Arena.fresh, scope]
  have hglobal : ∀ t, (Arena.fresh recycles).InUse t → t = .global := by
    rintro ⟨i⟩ ⟨hlt, -⟩
    simp only [Arena.fresh, List.size_toArray, List.length_singleton, Nat.lt_one_iff] at hlt
    rw [hlt]; rfl
  refine ⟨⟨by simp [Arena.fresh], by simp [Arena.fresh]⟩, ?_, ?_, by simp [Arena.fresh, scope, ScopeId.global],
    ?_, ?_⟩
  · intro id hid
    rw [hglobal id hid]
    exact ⟨_, .global (hscope _)⟩
  · intro id p _ hp
    simp [hscope] at hp
  · rintro ⟨i⟩ hid
    cases i with
    | zero => exact ⟨by simp [Arena.fresh], by simp [Arena.fresh]⟩
    | succ i => simp [Arena.fresh, scope] at hid
  · intro id p _ hp
    simp [hscope] at hp

theorem set (h : a.WellFormed) : (a.set id name value).WellFormed := h.define

theorem capture (h : a.WellFormed) (hid : a.InUse id) : (a.capture id).WellFormed := by
  obtain ⟨path, hpath, huse⟩ := h.way hid
  have hscope : ∀ t, (a.capture id).scope t = if t ∈ path then (a.scope t).pin else a.scope t :=
    fun t => scope_capture hpath (fun t ht => (huse t ht).1) (h.capturedOutward path)
  have hpar : ∀ t, ((a.capture id).scope t).parent = (a.scope t).parent := by
    intro t
    rw [hscope]
    split <;> rfl
  have hcap : ∀ t, ((a.capture id).scope t).captured = true ↔ t ∈ path ∨ (a.scope t).captured = true := by
    intro t
    rw [hscope]
    split
    · simp [Scope.pin, *]
    · simp [*]
  refine ⟨⟨by simpa using h.freeSlots.nodup, by simpa using h.freeSlots.lt⟩, ?_, ?_, ?_, ?_, ?_⟩
  · intro s hs
    obtain ⟨way, hway⟩ := h.leads s (inUse_capture.1 hs)
    exact ⟨way, hway.congr fun t _ => hpar t⟩
  · intro s q hs hq
    rw [inUse_capture] at hs ⊢
    exact h.closed s q hs (hpar s ▸ hq)
  · exact (hcap _).2 (.inr h.global)
  · intro s hs
    rw [inUse_capture]
    rcases (hcap s).1 hs with hs | hs
    · exact huse s hs
    · exact h.inUse_of_captured s hs
  · intro s q hs hq
    rw [hpar] at hq
    rw [hcap]
    rcases (hcap s).1 hs with hs | hs
    · exact .inl (hpath.parent_mem hs hq)
    · exact .inr (h.captured_parent s q hs hq)

theorem captured_capture (h : a.WellFormed) (hid : a.InUse id) :
    ((a.capture id).scope id).captured = true := by
  obtain ⟨path, hpath, huse⟩ := h.way hid
  rw [scope_capture hpath (fun t ht => (huse t ht).1) (h.capturedOutward path), if_pos hpath.self_mem]
  rfl

theorem child (h : a.WellFormed) (hp : a.InUse p) : (a.child p).2.WellFormed := by
  have hnew : ¬ a.InUse (a.child p).1 := not_inUse_child
  have hne : ∀ t, a.InUse t → t ≠ (a.child p).1 := fun t ht e => hnew (e ▸ ht)
  have hself := scope_child_self (p := p) h.freeSlots
  have hways : ∀ t, a.InUse t → ∃ path, (a.child p).2.Leads t path := by
    intro t ht
    obtain ⟨path, hpath, huse⟩ := h.way ht
    exact ⟨path, hpath.congr fun s hs => by rw [scope_child_of_ne (hne s (huse s hs))]⟩
  refine ⟨h.freeSlots.child, ?_, ?_, ?_, ?_, ?_⟩
  · intro t ht
    rcases (inUse_child h.freeSlots).1 ht with rfl | ht
    · obtain ⟨path, hpath⟩ := hways p hp
      exact ⟨_, .outward (by rw [hself]) hpath⟩
    · exact hways t ht
  · intro t q ht hq
    rw [inUse_child h.freeSlots] at ht ⊢
    rcases ht with rfl | ht
    · rw [hself] at hq
      exact .inr (Option.some.inj hq ▸ hp)
    · rw [scope_child_of_ne (hne t ht)] at hq
      exact .inr (h.closed t q ht hq)
  · rw [scope_child_of_ne (hne _ h.global_inUse)]
    exact h.global
  · intro t ht
    by_cases heq : t = (a.child p).1
    · subst heq; simp [hself] at ht
    · rw [scope_child_of_ne heq] at ht
      exact (inUse_child h.freeSlots).2 (.inr (h.inUse_of_captured t ht))
  · intro t q ht hq
    by_cases heq : t = (a.child p).1
    · subst heq; simp [hself] at ht
    · rw [scope_child_of_ne heq] at ht hq
      have hqc := h.captured_parent t q ht hq
      rw [scope_child_of_ne (hne q (h.inUse_of_captured q hqc))]
      exact hqc

/-- A scope may be released once nothing in use lies inside of it. -/
theorem release (h : a.WellFormed) (hid : a.InUse id)
    (hinner : (a.scope id).captured = false → ∀ t, a.InUse t → (a.scope t).parent ≠ some id) :
    (a.release id).WellFormed := by
  by_cases hc : (a.scope id).captured = true
  · rwa [release_of_captured hc]
  by_cases hr : a.recycles = true
  swap
  · rwa [release_of_keeps (by simpa using hr)]
  have hc : (a.scope id).captured = false := by simpa using hc
  have hinner := hinner hc
  have huse : ∀ t, (a.release id).InUse t ↔ a.InUse t ∧ t ≠ id := fun t => inUse_release hr hc
  have hcap : ∀ t, ((a.release id).scope t).captured = true → t ≠ id := by
    rintro t ht rfl
    simp [hc] at ht
  refine ⟨h.freeSlots.release hid, ?_, ?_, by simpa using h.global, ?_, ?_⟩
  · intro t ht
    obtain ⟨ht, hne⟩ := (huse t).1 ht
    obtain ⟨path, hpath, hall⟩ := h.way ht
    -- the released scope is not on the way: nothing in use has it as its parent
    have hnot : id ∉ path := hpath.notMem hne fun s hs => hinner s (hall s hs)
    have hother : ∀ s ∈ path, s ≠ id := fun s hs e => hnot (e ▸ hs)
    exact ⟨path, hpath.congr fun s hs => by rw [scope_release_of_ne (hother s hs)]⟩
  · intro t q ht hq
    obtain ⟨ht, hne⟩ := (huse t).1 ht
    rw [scope_release_of_ne hne] at hq
    exact (huse q).2 ⟨h.closed t q ht hq, fun e => hinner t ht (e ▸ hq)⟩
  · intro t ht
    exact (huse t).2 ⟨h.inUse_of_captured t (by simpa using ht), hcap t ht⟩
  · intro t q ht hq
    rw [scope_release_of_ne (hcap t ht)] at hq
    rw [captured_release] at ht ⊢
    exact h.captured_parent t q ht hq

end WellFormed

end Cairn.Arena
