import Cairn.Proofs.Arena.Names
import Cairn.Proofs.Arena.WellFormed

/-!
# Who sees a name

A name is looked up from a scope outward. Binding it in one scope is seen by the scopes whose way outward comes to that
one before any other that binds the name, and by nobody else; what is seen of other names stays. Setting a name binds
it in the nearest scope that has it, or in the global one, to which every way leads. Within a scope no name comes twice,
and each keeps the place that it got when it was first bound.
-/

namespace Cairn.Arena

variable {a b : Arena} {i j s t : ScopeId} {x y : String} {v : Value} {path : List ScopeId}

/-! ## Looking up after a name was bound -/

theorem mem_names_define (hs : s.slot < a.scopes.size) :
    y ∈ (a.define s x v).names t ↔ t = s ∧ y = x ∨ y ∈ a.names t := by
  by_cases ht : t = s
  · subst ht
    rw [names, scope_define_self hs]
    simp only [Dict.keys_insert, names]
    split <;> simp_all [or_comm]
  · simp [names_define_of_ne ht, ht]

/-- Looking up asks only for parents and for the scopes that bind the name. -/
theorem resolveWithin_congr (hpar : ∀ t, (b.scope t).parent = (a.scope t).parent)
    (hnames : ∀ t, x ∈ b.names t ↔ x ∈ a.names t) (limit : Nat) :
    b.resolveWithin x j limit = a.resolveWithin x j limit := by
  induction limit generalizing j with
  | zero => rfl
  | succ limit ih =>
      have hcontains : (b.scope j).vars.contains x = (a.scope j).vars.contains x := by
        rw [Bool.eq_iff_iff, Dict.contains_iff_mem_keys, Dict.contains_iff_mem_keys]
        exact hnames j
      simp only [resolveWithin, hcontains, hpar, ih]

theorem resolve_define_of_ne (hs : s.slot < a.scopes.size) (h : y ≠ x) :
    (a.define s x v).resolve j y = a.resolve j y := by
  rw [resolve, resolve, size_define]
  exact resolveWithin_congr (fun _ => parent_define) (fun t => by simp [mem_names_define hs, h]) _

theorem resolveWithin_define_self (hs : s.slot < a.scopes.size) (limit : Nat) :
    (a.define s x v).resolveWithin x j limit = some s ∨
      (a.define s x v).resolveWithin x j limit = a.resolveWithin x j limit := by
  induction limit generalizing j with
  | zero => exact .inr rfl
  | succ limit ih =>
      by_cases hj : j = s
      · subst hj
        simp [resolveWithin, scope_define_self hs, Dict.contains]
      · simp only [resolveWithin, scope_define_of_ne hj]
        split
        · exact .inr rfl
        · split
          · exact .inr rfl
          · exact ih

theorem resolve_define_self (hs : s.slot < a.scopes.size) :
    (a.define s x v).resolve j x = some s ∨ (a.define s x v).resolve j x = a.resolve j x := by
  rw [resolve, resolve, size_define]
  exact resolveWithin_define_self hs _

theorem vars_define_of_ne (hs : s.slot < a.scopes.size) (h : t ≠ s ∨ y ≠ x) :
    ((a.define s x v).scope t).vars.get? y = (a.scope t).vars.get? y := by
  by_cases ht : t = s
  · subst ht
    have hy : x ≠ y := (h.resolve_left fun hne => hne rfl).symm
    simp [scope_define_self hs, hy]
  · rw [scope_define_of_ne ht]

/-- What is seen from any scope, once a name is bound: the new value where the name is found in the scope that it was
bound in, and what was seen before everywhere else. -/
theorem get?_define (hs : s.slot < a.scopes.size) :
    (a.define s x v).get? j y
      = if y = x ∧ (a.define s x v).resolve j x = some s then some v else a.get? j y := by
  split
  next hfound => simp [get?, hfound, scope_define_self hs]
  next hother =>
      have hsame : (a.define s x v).resolve j y = a.resolve j y := by
        by_cases hy : y = x
        · subst hy
          exact (resolve_define_self hs).resolve_left fun hr => hother ⟨rfl, hr⟩
        · exact resolve_define_of_ne hs hy
      rw [get?, get?, hsame]
      cases hr : a.resolve j y with
      | none => rfl
      | some t =>
          refine vars_define_of_ne hs ?_
          by_contra hne
          rw [not_or, not_not, not_not] at hne
          obtain ⟨rfl, rfl⟩ := hne
          exact hother ⟨rfl, hsame.trans hr⟩

theorem get?_define_self (hs : s.slot < a.scopes.size) : (a.define s x v).get? s x = some v := by
  have hfound : (a.define s x v).resolve s x = some s := by
    obtain ⟨limit, hlimit⟩ := Nat.exists_eq_succ_of_ne_zero (Nat.ne_zero_of_lt hs)
    rw [resolve, size_define, hlimit, resolveWithin, if_pos]
    simp [scope_define_self hs, Dict.contains]
  rw [get?_define hs, if_pos ⟨rfl, hfound⟩]

/-! ## The way outward -/

/-- The way outward comes to `s`, and no scope before it binds `x`. -/
def Reaches (a : Arena) (path : List ScopeId) (x : String) (s : ScopeId) : Prop :=
  ∃ inner outer, path = inner ++ s :: outer ∧ ∀ t ∈ inner, x ∉ a.names t

/-- Where `x` is set: in the nearest scope of the way outward that binds it, or in the global one if none does. -/
def Owns (a : Arena) (path : List ScopeId) (x : String) (s : ScopeId) : Prop :=
  a.Reaches path x s ∧ x ∈ a.names s ∨ s = .global ∧ ∀ t ∈ path, x ∉ a.names t

theorem Leads.global_last (h : a.Leads i path) : ∃ inner, path = inner ++ [.global] := by
  induction h with
  | global _ => exact ⟨[], rfl⟩
  | outward _ _ ih =>
      obtain ⟨inner, rfl⟩ := ih
      exact ⟨_ :: inner, rfl⟩

/-- Behind the global scope no way goes on. -/
theorem Reaches.free_of_global (h : a.Reaches path x .global) (hpath : a.Leads i path) (hfree : x ∉ a.names .global) :
    ∀ t ∈ path, x ∉ a.names t := by
  obtain ⟨inner, outer, rfl, hinner⟩ := h
  obtain ⟨before, hlast⟩ := hpath.global_last
  have houter : outer = [] := by
    obtain rfl | ⟨rest, t, rfl⟩ := outer.eq_nil_or_concat'
    · rfl
    · rw [← List.cons_append, ← List.append_assoc] at hlast
      obtain rfl : t = .global := List.singleton_inj.1 (List.append_inj' hlast rfl).2
      have htwice := (List.nodup_append.1 hpath.nodup).2.1
      simp at htwice
  subst houter
  intro t ht
  obtain ht | ht := List.mem_append.1 ht
  · exact hinner t ht
  · exact List.mem_singleton.1 ht ▸ hfree

theorem Owns.reaches (h : a.Owns path x s) (hpath : a.Leads i path) : a.Reaches path x s := by
  obtain ⟨hreaches, -⟩ | ⟨rfl, hfree⟩ := h
  · exact hreaches
  · obtain ⟨inner, rfl⟩ := hpath.global_last
    exact ⟨inner, [], rfl, fun t ht => hfree t (List.mem_append_left _ ht)⟩

theorem resolve_eq_some_iff (hpath : a.Leads i path) (hlt : ∀ t ∈ path, t.slot < a.scopes.size) :
    a.resolve i x = some s ↔ a.Reaches path x s ∧ x ∈ a.names s := by
  have hbinds (t : ScopeId) : (a.scope t).vars.contains x = true ↔ x ∈ a.names t := Dict.contains_iff_mem_keys _ _
  rw [resolve_eq_find? hpath hlt, List.find?_eq_some_iff_append]
  simp only [hbinds, Bool.not_eq_true', ← Bool.not_eq_true, Reaches]
  rw [and_comm]

theorem resolve_eq_none_iff (hpath : a.Leads i path) (hlt : ∀ t ∈ path, t.slot < a.scopes.size) :
    a.resolve i x = none ↔ ∀ t ∈ path, x ∉ a.names t := by
  simp only [resolve_eq_find? hpath hlt, List.find?_eq_none, Dict.contains_iff_mem_keys, names]

/-- A name that is bound in a scope is found there from where no scope on the way before it binds the name. -/
theorem resolve_define_iff (hpath : a.Leads j path) (hlt : ∀ t ∈ path, t.slot < a.scopes.size)
    (hs : s.slot < a.scopes.size) :
    (a.define s x v).resolve j x = some s ↔ a.Reaches path x s := by
  have hpath' : (a.define s x v).Leads j path := hpath.congr fun _ _ => parent_define
  rw [resolve_eq_some_iff hpath' (by simpa using hlt)]
  simp only [Reaches, mem_names_define hs, true_or, and_true]
  constructor
  · rintro ⟨inner, outer, heq, hfree⟩
    exact ⟨inner, outer, heq, fun t ht hmem => hfree t ht (.inr hmem)⟩
  · rintro ⟨inner, outer, rfl, hfree⟩
    refine ⟨inner, outer, rfl, fun t ht => ?_⟩
    rintro (⟨rfl, -⟩ | hmem)
    · exact (List.nodup_append.1 hpath.nodup).2.2 _ ht _ List.mem_cons_self rfl
    · exact hfree t ht hmem

/-! ## Setting a name -/

/-- The scope in which a name is set from `i`. -/
def owner (a : Arena) (i : ScopeId) (x : String) : ScopeId := (a.resolve i x).getD .global

theorem set_eq_define : a.set i x v = a.define (a.owner i x) x v := rfl

theorem owns_owner (hpath : a.Leads i path) (hlt : ∀ t ∈ path, t.slot < a.scopes.size) :
    a.Owns path x (a.owner i x) := by
  rw [owner]
  cases hr : a.resolve i x with
  | some s => exact .inl ((resolve_eq_some_iff hpath hlt).1 hr)
  | none => exact .inr ⟨rfl, (resolve_eq_none_iff hpath hlt).1 hr⟩

/-- A way outward has one owner of a name. -/
theorem Owns.unique (hpath : a.Leads i path) (hlt : ∀ t ∈ path, t.slot < a.scopes.size) (hs : a.Owns path x s) :
    a.owner i x = s := by
  obtain hbound | ⟨rfl, hfree⟩ := hs
  · rw [owner, (resolve_eq_some_iff hpath hlt).2 hbound, Option.getD_some]
  · rw [owner, (resolve_eq_none_iff hpath hlt).2 hfree, Option.getD_none]

/-- Once a name is set from `i`, it is found in the same scope from where it would have been set there, too. -/
theorem WellFormed.resolve_set_iff (h : a.WellFormed) (hi : a.InUse i) (hj : a.InUse j) :
    (a.set i x v).resolve j x = some (a.owner i x) ↔ a.owner j x = a.owner i x := by
  obtain ⟨path, hpath, huse⟩ := h.way hi
  obtain ⟨path', hpath', huse'⟩ := h.way hj
  have hlt t (ht : t ∈ path) := (huse t ht).1
  have hlt' t (ht : t ∈ path') := (huse' t ht).1
  have hs : a.InUse (a.owner i x) := h.owner_inUse hi
  rw [set_eq_define, resolve_define_iff hpath' hlt' hs.1]
  constructor
  · intro hreaches
    refine Owns.unique hpath' hlt' ?_
    obtain ⟨-, hbound⟩ | ⟨hglobal, hfree⟩ := owns_owner (x := x) hpath hlt
    · exact .inl ⟨hreaches, hbound⟩
    · -- the name is not bound in the global scope, which comes last on both ways
      rw [hglobal] at hreaches ⊢
      obtain ⟨before, rfl⟩ := hpath.global_last
      exact .inr ⟨rfl, hreaches.free_of_global hpath' (hfree _ (by simp))⟩
  · intro heq
    rw [← heq]
    exact (owns_owner hpath' hlt').reaches hpath'

/-- Setting names moves no owner. -/
theorem WellFormed.owner_set (h : a.WellFormed) (hi : a.InUse i) (hj : a.InUse j) :
    (a.set i x v).owner j y = a.owner j y := by
  have hs : a.InUse (a.owner i x) := h.owner_inUse hi
  by_cases hy : y = x
  · subst hy
    obtain hfound | hsame : (a.set i y v).resolve j y = _ ∨ (a.set i y v).resolve j y = _ := resolve_define_self hs.1
    · rw [(h.resolve_set_iff hi hj).1 hfound, owner, hfound]
      rfl
    · rw [owner, owner, hsame]
  · rw [owner, owner, set_eq_define, resolve_define_of_ne hs.1 hy]

/-- A name has the value that its owner gives it. -/
theorem WellFormed.get?_eq_owner (h : a.WellFormed) (hi : a.InUse i) :
    a.get? i x = (a.scope (a.owner i x)).vars.get? x := by
  rw [get?, owner]
  cases hr : a.resolve i x with
  | some s => rfl
  | none =>
      obtain ⟨path, hpath, huse⟩ := h.way hi
      obtain ⟨inner, rfl⟩ := hpath.global_last
      have hfree := (resolve_eq_none_iff hpath fun t ht => (huse t ht).1).1 hr .global (by simp)
      rw [names, ← Dict.contains_iff_mem_keys, Dict.contains, Option.not_isSome_iff_eq_none] at hfree
      exact hfree.symm

/-! ## The order of names -/

/-- What can be done to an arena. -/
inductive Op where
  | child (parent : ScopeId)
  | define (id : ScopeId) (name : String) (value : Value)
  | set (id : ScopeId) (name : String) (value : Value)
  | capture (id : ScopeId)
  | release (id : ScopeId)

/-- A name keeps its place in the list; a new one goes last. -/
def enlist (names : List String) (x : String) : List String := if x ∈ names then names else names ++ [x]

theorem nodup_enlist {names : List String} (h : names.Nodup) (x : String) : (enlist names x).Nodup := by
  unfold enlist
  split
  next => exact h
  next hnew => simpa using h.concat hnew

theorem nodup_foldl_enlist {names : List String} (h : names.Nodup) (xs : List String) :
    (xs.foldl enlist names).Nodup := by
  induction xs generalizing names with
  | nil => exact h
  | cons x xs ih => exact ih (nodup_enlist h x)

theorem names_child_self {p : ScopeId} : (a.child p).2.names (a.child p).1 = [] := by
  cases hf : a.free with
  | nil => simp [child_of_full hf, names, scope, Dict.keys]
  | cons slot free =>
      rw [child_of_free hf]
      by_cases hlt : slot < a.scopes.size <;> simp [names, scope, hlt, Dict.keys]

theorem names_release_self : (a.release t).names t = a.names t ∨ (a.release t).names t = [] := by
  rw [release]
  split
  · exact .inl rfl
  · right
    by_cases hlt : t.slot < a.scopes.size
    · exact congrArg (fun s : Scope => s.vars.keys) (scope_modify_self _ hlt)
    · simp [names, modify, scope, hlt, Dict.keys]

/-- A scope that is in use after a release was in use before; if it is the one to be released, it was kept. -/
theorem inUse_of_inUse_release (h : (a.release i).InUse t) : a.InUse t ∧ (t = i → a.release i = a) := by
  rw [release] at h ⊢
  split
  next hkept =>
    rw [if_pos hkept] at h
    exact ⟨h, fun _ => rfl⟩
  next hrecycled =>
    rw [if_neg hrecycled] at h
    obtain ⟨hlt, hfree⟩ := h
    rw [size_modify] at hlt
    refine ⟨⟨hlt, fun hmem => hfree (List.mem_cons_of_mem _ hmem)⟩, ?_⟩
    rintro rfl
    exact absurd List.mem_cons_self hfree

namespace Op

def apply (a : Arena) : Op → Arena
  | .child parent => (a.child parent).2
  | .define id name value => a.define id name value
  | .set id name value => a.set id name value
  | .capture id => a.capture id
  | .release id => a.release id

/-- The operations in turn, first to last. -/
def applyAll (a : Arena) (ops : List Op) : Arena := ops.foldl apply a

/-- The names that an operation binds in the scope `t`. -/
def binds (a : Arena) (t : ScopeId) : Op → List String
  | .define id name _ => if id = t then [name] else []
  | .set id name _ => if (a.resolve id name).getD .global = t then [name] else []
  | _ => []

/-- The names that operations bind in the scope `t`, in the order in which they do. -/
def bindsAll (t : ScopeId) : Arena → List Op → List String
  | _, [] => []
  | a, op :: ops => op.binds a t ++ bindsAll t (op.apply a) ops

theorem names_of_define (ht : t.slot < a.scopes.size) (id : ScopeId) (name : String) (value : Value) :
    (a.define id name value).names t = (if id = t then [name] else []).foldl enlist (a.names t) := by
  split
  next heq =>
    subst heq
    rw [names, scope_define_self ht]
    exact Dict.keys_insert _ _ _
  next hne => exact names_define_of_ne (Ne.symm hne)

/-- While a scope is in use, the names that are bound in it join those that it has. -/
theorem names_apply (op : Op) (ht : a.InUse t) (ht' : (op.apply a).InUse t) :
    (op.apply a).names t = (op.binds a t).foldl enlist (a.names t) := by
  cases op with
  | child parent => exact names_child_of_inUse ht
  | define id name value => exact names_of_define ht.1 id name value
  | set id name value => exact names_of_define ht.1 _ name value
  | capture id => exact names_captureWithin
  | release id =>
      by_cases hid : t = id
      · rw [apply, (inUse_of_inUse_release ht').2 hid]
        rfl
      · exact names_release_of_ne hid

/-- A scope that an operation opens has no names yet. -/
theorem names_apply_of_opened (op : Op) (ha : a.FreeSlots) (ht : ¬ a.InUse t) (ht' : (op.apply a).InUse t) :
    (op.apply a).names t = [] := by
  cases op with
  | child parent =>
      obtain rfl | hold := (inUse_child ha).1 ht'
      · rw [apply, names, scope_child_self ha]
        rfl
      · exact absurd hold ht
  | define id name value => exact absurd (inUse_define.1 ht') ht
  | set id name value => exact absurd (inUse_define.1 ht') ht
  | capture id => exact absurd (inUse_capture.1 ht') ht
  | release id => exact absurd (inUse_of_inUse_release ht').1 ht

/-- Whatever is done, a scope keeps its names in their order, with the one that is bound in it, or has none left. -/
theorem names_apply_cases (op : Op) (a : Arena) (t : ScopeId) :
    (op.apply a).names t = (op.binds a t).foldl enlist (a.names t) ∨ (op.apply a).names t = [] := by
  by_cases hlt : t.slot < (op.apply a).scopes.size
  swap
  · exact .inr (by simp [names, scope, hlt, Dict.keys])
  cases op with
  | child parent =>
      by_cases ht : t = (a.child parent).1
      · exact .inr (ht ▸ names_child_self)
      · rw [apply, names, scope_child_of_ne ht]
        exact .inl rfl
  | define id name value => exact .inl (names_of_define (by simpa [apply] using hlt) id name value)
  | set id name value => exact .inl (names_of_define (by simpa [apply, Arena.set] using hlt) _ name value)
  | capture id => exact .inl names_captureWithin
  | release id =>
      by_cases ht : t = id
      · exact ht ▸ names_release_self
      · exact .inl (names_release_of_ne ht)

theorem nodup_names_applyAll (h : ∀ t, (a.names t).Nodup) (ops : List Op) (t : ScopeId) :
    ((applyAll a ops).names t).Nodup := by
  induction ops generalizing a with
  | nil => exact h t
  | cons op ops ih =>
      refine ih fun t => ?_
      obtain heq | heq := op.names_apply_cases a t
      · rw [heq]
        exact nodup_foldl_enlist (h t) _
      · rw [heq]
        exact List.nodup_nil

/-- As long as a scope is in use, its names stand in the order in which they were first bound. -/
theorem names_applyAll {ops : List Op} (h : ∀ before, before <+: ops → (applyAll a before).InUse t) :
    (applyAll a ops).names t = (bindsAll t a ops).foldl enlist (a.names t) := by
  induction ops generalizing a with
  | nil => rfl
  | cons op ops ih =>
      have hfirst : (op.apply a).names t = (op.binds a t).foldl enlist (a.names t) :=
        op.names_apply (h [] List.nil_prefix) (h [op] (List.prefix_append [op] ops))
      rw [bindsAll, List.foldl_append, ← hfirst]
      exact ih fun before hbefore => h (op :: before) (List.cons_prefix_cons.2 ⟨rfl, hbefore⟩)

end Op

/-! ## The laws -/

/-- From a scope in use: setting a name binds it in the nearest scope outward that has it, or else in the global one, so
that the value is seen from here; binding a name changes its scope alone. Either is seen where the name is now found in
that scope, and nowhere else. Names are distinct and in the order in which they were first bound, whatever is done. -/
theorem lookup_laws (h : a.WellFormed) (hi : a.InUse i) (x : String) (v : Value) :
    (∃ path s, a.Leads i path ∧ a.Owns path x s ∧ a.set i x v = a.define s x v ∧
      (a.set i x v).get? i x = some v ∧
      ∀ j y, (a.set i x v).get? j y
        = if y = x ∧ (a.set i x v).resolve j x = some s then some v else a.get? j y) ∧
    ((a.define i x v).scope i = { a.scope i with vars := (a.scope i).vars.insert x v } ∧
      (∀ t, t ≠ i → (a.define i x v).scope t = a.scope t) ∧
      (a.define i x v).free = a.free ∧ (a.define i x v).scopes.size = a.scopes.size ∧
      ∀ j path, a.InUse j → a.Leads j path →
        (a.Reaches path x i → (a.define i x v).get? j x = some v) ∧
        (¬ a.Reaches path x i → (a.define i x v).get? j x = a.get? j x) ∧
        ∀ y, y ≠ x → (a.define i x v).get? j y = a.get? j y) ∧
    (∀ (op : Op) t, (op.apply a).InUse t →
      (a.InUse t → (op.apply a).names t = (op.binds a t).foldl enlist (a.names t)) ∧
      (¬ a.InUse t → (op.apply a).names t = [])) ∧
    ∀ ops t, ((∀ t, (a.names t).Nodup) → ((Op.applyAll a ops).names t).Nodup) ∧
      ((∀ before, before <+: ops → (Op.applyAll a before).InUse t) →
        (Op.applyAll a ops).names t = (Op.bindsAll t a ops).foldl enlist (a.names t)) := by
  have hways {j : ScopeId} {path : List ScopeId} (hj : a.InUse j) (hpath : a.Leads j path) (t : ScopeId)
      (ht : t ∈ path) := (h.inUse_of_leads hj hpath t ht).1
  refine ⟨?_, ⟨scope_define_self hi.1, fun t ht => scope_define_of_ne ht, rfl, size_define, fun j path hj hpath => ?_⟩,
    fun op t ht' => ⟨fun ht => op.names_apply ht ht', fun ht => op.names_apply_of_opened h.freeSlots ht ht'⟩,
    fun ops t => ⟨fun hnames => Op.nodup_names_applyAll hnames ops t, Op.names_applyAll⟩⟩
  · obtain ⟨path, hpath⟩ := h.leads i hi
    have hs : a.InUse (a.owner i x) := h.owner_inUse hi
    have hfound := (h.resolve_set_iff (x := x) (v := v) hi hi).2 rfl
    refine ⟨path, a.owner i x, hpath, owns_owner hpath (hways hi hpath), rfl, ?_, fun j y => get?_define hs.1⟩
    rw [set_eq_define, get?_define hs.1, if_pos ⟨rfl, hfound⟩]
  · have hfound := resolve_define_iff (x := x) (v := v) hpath (hways hj hpath) hi.1
    refine ⟨fun hreaches => ?_, fun hnot => ?_, fun y hy => ?_⟩
    · rw [get?_define hi.1, if_pos ⟨rfl, hfound.2 hreaches⟩]
    · rw [get?_define hi.1, if_neg fun hseen => hnot (hfound.1 hseen.2)]
    · rw [get?_define hi.1, if_neg fun hseen => hy hseen.1]

/-- A scope inside of the global one. -/
def inner : Arena := ((fresh true).child .global).2

/-- A name that is set there is seen there, though it was bound nowhere; one that is bound there is not seen from the
global scope. -/
theorem lookup_laws_inner : inner.WellFormed ∧ inner.InUse ⟨1⟩ ∧ inner.get? ⟨1⟩ "x" = none ∧
    (inner.set ⟨1⟩ "x" (.bool true)).get? ⟨1⟩ "x" = some (.bool true) ∧
    (inner.define ⟨1⟩ "x" (.bool true)).get? ⟨1⟩ "x" = some (.bool true) ∧
    (inner.define ⟨1⟩ "x" (.bool true)).get? .global "x" = none := by
  have hwf : inner.WellFormed := (WellFormed.fresh true).child (WellFormed.fresh true).global_inUse
  have hi : inner.InUse ⟨1⟩ := ⟨by decide, by decide⟩
  have hglobal : inner.Leads .global [.global] := .global rfl
  obtain ⟨⟨-, -, -, -, -, hset, -⟩, ⟨-, -, -, -, hdefine⟩, -⟩ := lookup_laws hwf hi "x" (.bool true)
  have houter : ¬ inner.Reaches [.global] "x" ⟨1⟩ := by
    rintro ⟨before, outer, heq, -⟩
    have hmem : (⟨1⟩ : ScopeId) ∈ [ScopeId.global] := heq ▸ by simp
    cases List.mem_singleton.1 hmem
  refine ⟨hwf, hi, by decide, hset, (hdefine ⟨1⟩ _ hi (.outward rfl hglobal)).1 ⟨[], _, rfl, by simp⟩, ?_⟩
  exact (hdefine .global _ hwf.global_inUse hglobal).2.1 houter

end Cairn.Arena
