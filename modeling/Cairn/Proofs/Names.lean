import Cairn.Proofs.Arena.Names
import Cairn.Proofs.Leaks

/-!
# Whose names change

Parameters, what patterns bind, functions, enumerations and variants get their names in the scope at hand. A call, an
arm and a frame block open a scope of their own for them, so nobody else's scope gets a name. The global scope gets one
at its end when a plain assignment sets a name that is bound nowhere; no other assignment comes that far, for it has to
read the name first.
-/

namespace Cairn

/-! ## In the course of a computation -/

/-- In its course from `w` on, the computation comes to `s` in the world `w'`. -/
inductive Run.ComesTo {β : Type} (s : Run β) (w' : World) : {α : Type} → Run α → World → Prop where
  | self : ComesTo s w' s w'
  | first {α γ : Type} {m : Run α} {k : α → Run γ} {w : World} (h : ComesTo s w' m w) : ComesTo s w' (m >>= k) w
  | later {α γ : Type} {m : Run α} {k : α → Run γ} {w w₁ : World} {a : α} (hm : m w = .ok a w₁)
      (h : ComesTo s w' (k a) w₁) : ComesTo s w' (m >>= k) w
  | within {α : Type} {m : Run α} {w : World} (i : ScopeId) (h : ComesTo s w' m w) : ComesTo s w' (Run.within i m) w
  | releasing {α : Type} {m : Run α} {w : World} (i : ScopeId) (h : ComesTo s w' m w) :
      ComesTo s w' (Run.releasing i m) w

/-- In the course of the computation the plain assignment `name = value` is evaluated in the scope `i`, and `w'` is the
world when its value is known. -/
def Run.Assigns {α : Type} (r : Run α) (w : World) (name : String) (i : ScopeId) (w' : World) : Prop :=
  ∃ fuel namePos value pos v w₁,
    Run.ComesTo (eval (fuel + 1) (.assign (.name name namePos) none value pos) i) w₁ r w ∧
      eval fuel value i w₁ = .ok v w'

/-- A plain assignment sets the name where it is not to be found. -/
def Run.Introduces {α : Type} (r : Run α) (w : World) (name : String) : Prop :=
  ∃ i w', r.Assigns w name i w' ∧ w'.scopes.resolve i name = none

section

variable {α β γ : Type} {u : Run γ} {s : Run β} {r : Run α} {w w₁ w₂ : World} {name : String}

theorem Run.ComesTo.trans (h : s.ComesTo w₁ r w) (hu : u.ComesTo w₂ s w₁) : u.ComesTo w₂ r w := by
  induction h with
  | self => exact hu
  | first _ ih => exact .first ih
  | later hm _ ih => exact .later hm ih
  | within i _ ih => exact .within i ih
  | releasing i _ ih => exact .releasing i ih

theorem Run.Introduces.of_part (h : s.Introduces w₁ name) (hs : s.ComesTo w₁ r w) : r.Introduces w name := by
  obtain ⟨i, w', ⟨fuel, namePos, value, pos, v, w₂, hcomes, hvalue⟩, hfree⟩ := h
  exact ⟨i, w', ⟨fuel, namePos, value, pos, v, w₂, hs.trans hcomes, hvalue⟩, hfree⟩

/-- What passes in a part passes in the whole. -/
theorem Run.ComesTo.passes (h : s.ComesTo w₁ r w) (i : ScopeId) :
    ∃ j, ∀ y, s.passes ⟨w₁, j⟩ y → r.passes ⟨w, i⟩ y := by
  induction h generalizing i with
  | self => exact ⟨i, fun _ hy => hy⟩
  | first h ih =>
      obtain ⟨j, hj⟩ := ih i
      exact ⟨j, fun y hy => .inl (hj y hy)⟩
  | later hm h ih =>
      obtain ⟨j, hj⟩ := ih i
      exact ⟨j, fun y hy => .inr ⟨_, _, hm, hj y hy⟩⟩
  | within scope h ih =>
      obtain ⟨j, hj⟩ := ih scope
      exact ⟨j, fun y hy => .inr (hj y hy)⟩
  | releasing scope h ih =>
      obtain ⟨j, hj⟩ := ih i
      exact ⟨j, fun y hy => .inl (hj y hy)⟩

end

/-! ## What a computation does to names -/

/-- From `w` to `w'`: the scopes in use stay in use. Those outside of `K` have the names they had, but for the global
one, which may have others after them that the computation introduces. -/
structure Run.Names {α : Type} (K : ScopeId → Prop) (r : Run α) (w w' : World) : Prop where
  inUse : ∀ t, w.scopes.InUse t → w'.scopes.InUse t
  others : ∀ t, w.scopes.InUse t → t ≠ .global → ¬ K t → w'.scopes.names t = w.scopes.names t
  global : ∃ new, w'.scopes.names .global = w.scopes.names .global ++ new ∧ ∀ name ∈ new, r.Introduces w name

/-- Where the global scope is in use, the computation gives names to no scope outside of `K` but the global one. -/
def Run.Spares {α : Type} (K : ScopeId → Prop) (r : Run α) : Prop :=
  ∀ w w', w.scopes.InUse .global → (r w).world? = some w' → r.Names K w w'

namespace Run.Names

variable {K : ScopeId → Prop} {α β γ : Type} {r : Run α} {s : Run β} {s' : Run γ} {w w₁ w' : World}

theorem same (h : w.scopes.SameNames w'.scopes) : r.Names K w w' :=
  ⟨h.inUse, fun t _ _ _ => h.names t, [], by simpa using h.names .global, by simp⟩

theorem of_part (h : s.Names K w w') (hs : s.ComesTo w r w) : r.Names K w w' := by
  obtain ⟨new, hnames, hnew⟩ := h.global
  exact ⟨h.inUse, h.others, new, hnames, fun name hmem => (hnew name hmem).of_part hs⟩

theorem of_parts (h : s.Names K w w₁) (hs : s.ComesTo w r w) (h' : s'.Names K w₁ w') (hs' : s'.ComesTo w₁ r w) :
    r.Names K w w' := by
  obtain ⟨new, hnames, hnew⟩ := h.global
  obtain ⟨new', hnames', hnew'⟩ := h'.global
  refine ⟨fun t ht => h'.inUse t (h.inUse t ht), fun t ht hne hK => ?_, new ++ new', ?_, fun name hmem => ?_⟩
  · rw [h'.others t (h.inUse t ht) hne hK, h.others t ht hne hK]
  · rw [hnames', hnames, List.append_assoc]
  · obtain hmem | hmem := List.mem_append.1 hmem
    · exact (hnew name hmem).of_part hs
    · exact (hnew' name hmem).of_part hs'

theorem set (h : r.Names K w w₁) (hglobal : w.scopes.InUse .global) {i : ScopeId} {name : String} {v : Value}
    (hnew : w₁.scopes.resolve i name = none → r.Introduces w name) :
    r.Names K w { w₁ with scopes := w₁.scopes.set i name v } := by
  obtain ⟨new, hnames, hnames'⟩ := h.global
  rw [Arena.set]
  cases hs : w₁.scopes.resolve i name with
  | some s =>
      have hkept (t : ScopeId) : (w₁.scopes.define s name v).names t = w₁.scopes.names t :=
        Arena.names_define_of_mem (Arena.mem_names_of_resolve hs)
      exact ⟨fun t ht => Arena.inUse_define.2 (h.inUse t ht), fun t ht hne hK => (hkept t).trans (h.others t ht hne hK),
        new, (hkept .global).trans hnames, hnames'⟩
  | none =>
      refine ⟨fun t ht => Arena.inUse_define.2 (h.inUse t ht), fun t ht hne hK => ?_, ?_⟩
      · exact (Arena.names_define_of_ne hne).trans (h.others t ht hne hK)
      · have hdefined : (w₁.scopes.define .global name v).names .global = _ :=
          Arena.names_define_self (h.inUse _ hglobal)
        split at hdefined
        · exact ⟨new, hdefined.trans hnames, hnames'⟩
        · refine ⟨new ++ [name], ?_, fun n hmem => ?_⟩
          · rw [← List.append_assoc, ← hnames]
            exact hdefined
          · obtain hmem | hmem := List.mem_append.1 hmem
            · exact hnames' n hmem
            · exact List.mem_singleton.1 hmem ▸ hnew hs

end Run.Names

/-! ## Ways of composing -/

/-- A place that was read is there to be written. -/
theorem Place.sameNames {p : Place} {w w' : World} {i : ScopeId} {old new : Value} (hread : p.read w i = .ok old)
    (hwrite : p.write w i new = .ok w') : w.scopes.SameNames w'.scopes := by
  have hstore (hp : ∀ name, p ≠ .var name) : w.scopes.SameNames w'.scopes := by
    obtain ⟨arrays, prototypes, rfl⟩ := Place.write_store hp hwrite
    exact .refl _
  cases p with
  | var name =>
      cases hwrite
      refine .set ?_
      cases hget : w.scopes.get? i name with
      | none => simp [read, hget] at hread
      | some v => rfl
  | index object key => exact hstore (by simp)
  | member object property => exact hstore (by simp)

/-- However the computation ends, the world is as it was. -/
def Run.Idle {α : Type} (m : Run α) : Prop := ∀ w w', (m w).world? = some w' → w' = w

namespace Run.Idle

variable {α β : Type}

theorem pure (a : α) : (Pure.pure a : Run α).Idle := fun _ _ hw => (Option.some.inj hw).symm

theorem bind {m : Run α} {k : α → Run β} (hm : m.Idle) (hk : ∀ a, (k a).Idle) : (m >>= k).Idle := by
  intro w w' hw
  rw [Run.run_bind] at hw
  cases h : m w with
  | ok a w₁ =>
      obtain rfl := hm w w₁ (by rw [h]; rfl)
      rw [h] at hw
      exact hk a w₁ w' hw
  | fault f w₁ => rw [h] at hw; exact hm w w' (by rw [h]; exact hw)
  | abort why => rw [h] at hw; cases hw

theorem read (line : Nat) (f : World → Except Fault.Cause α) : (Run.read line f).Idle := by
  intro w w' hw
  simp only [Run.read, Run.step] at hw
  cases h : f w with
  | ok a => rw [h] at hw; exact (Option.some.inj hw).symm
  | error cause => rw [h] at hw; exact (Option.some.inj hw).symm

theorem text (v : Value) : (Run.text v).Idle := by
  refine bind (fun _ _ hw => (Option.some.inj hw).symm) fun w => ?_
  cases w.store.display v with
  | some text => exact pure text
  | none => exact fun _ _ hw => by cases hw

theorem operate (op : BinaryOp) (l r : Value) (line : Nat) : (Evaluator.operate op l r line).Idle := by
  unfold Evaluator.operate
  split
  · exact bind (text l) fun _ => bind (text r) fun _ => pure _
  · exact read _ _

end Run.Idle

namespace Run.Spares

variable {K : ScopeId → Prop} {α β : Type} {i : ScopeId}

theorem same {r : Run α} (h : ∀ w w', (r w).world? = some w' → w.scopes.SameNames w'.scopes) : Spares K r :=
  fun w w' _ hw => .same (h w w' hw)

theorem step {f : World → Outcome α} (h : ∀ w w', (f w).world? = some w' → w'.scopes = w.scopes) :
    Spares K (Run.step f) := same fun w w' hw => h w w' hw ▸ .refl _

theorem pure (a : α) : Spares K (Pure.pure a : Run α) := same fun _ _ hw => Option.some.inj hw ▸ .refl _

theorem fail (cause : Fault.Cause) (line : Nat) : Spares K (Run.fail cause line : Run α) :=
  step fun _ _ hw => Option.some.inj hw ▸ rfl

theorem fail_bind (cause : Fault.Cause) (line : Nat) (k : α → Run β) : Spares K (Run.fail cause line >>= k) :=
  same fun _ _ hw => Option.some.inj hw ▸ .refl _

theorem abort (why : Abort) : Spares K (Run.abort why : Run α) := step fun _ _ hw => by cases hw

theorem world : Spares K Run.world := step fun _ _ hw => Option.some.inj hw ▸ rfl

theorem create (f : Store → Value × Store) : Spares K (Run.create f) := step fun _ _ hw => Option.some.inj hw ▸ rfl

theorem idle {m : Run α} (h : m.Idle) : Spares K m := same fun w w' hw => h w w' hw ▸ .refl _

theorem read (line : Nat) (f : World → Except Fault.Cause α) : Spares K (Run.read line f) := idle (.read line f)

theorem make (line : Nat) (f : Store → Except Fault.Cause (Value × Store)) : Spares K (Run.make line f) := by
  refine step fun w w' hw => ?_
  cases h : f w.store with
  | ok r => rw [h] at hw; cases hw; rfl
  | error cause => rw [h] at hw; cases hw; rfl

theorem native (n : Native) : Spares K (Run.native n) := by
  refine step fun w w' hw => ?_
  rcases h : n w.host with ⟨⟨f | why⟩ | v, host⟩ <;> rw [h] at hw <;> cases hw
  · rfl
  · rfl

theorem capture (i : ScopeId) : Spares K (Run.modifyScopes (·.capture i)) :=
  same fun _ _ hw => Option.some.inj hw ▸ .capture

theorem bind {m : Run α} {k : α → Run β} (hm : Spares K m) (hk : ∀ a, Spares K (k a)) : Spares K (m >>= k) := by
  intro w w' hglobal hw
  rw [Run.run_bind] at hw
  cases h : m w with
  | abort why => rw [h] at hw; cases hw
  | fault f w₁ =>
      rw [h] at hw
      exact (hm w w' hglobal (by rw [h]; exact hw)).of_part (.first .self)
  | ok a w₁ =>
      rw [h] at hw
      have hfirst := hm w w₁ hglobal (by rw [h]; rfl)
      exact hfirst.of_parts (.first .self) (hk a w₁ w' (hfirst.inUse _ hglobal) hw) (.later h .self)

theorem define (hi : K i) (hne : i ≠ .global) (name : String) (v : Value) :
    Spares K (Run.modifyScopes (·.define i name v)) := by
  intro w w' _ hw
  cases hw
  refine ⟨fun t ht => Arena.inUse_define.2 ht, fun t _ _ hK => ?_, [], ?_, by simp⟩
  · exact Arena.names_define_of_ne fun heq => hK (heq ▸ hi)
  · simpa using Arena.names_define_of_ne hne.symm

/-- A scope that is opened on the way has names of its own, and is nobody else's. -/
theorem opened {parent : ScopeId} {m : ScopeId → Run α} (hm : ∀ i, i ≠ .global → Spares (Eq i) (m i)) :
    Spares K (Run.openScope parent >>= fun i => Run.releasing i (Run.within i (m i))) := by
  intro w w' hglobal hw
  rw [Run.world?_opened] at hw
  obtain ⟨w₁, hw₁, rfl⟩ := Option.map_eq_some_iff.1 hw
  have hne (t : ScopeId) (ht : w.scopes.InUse t) : t ≠ (w.scopes.child parent).1 :=
    fun heq => Arena.not_inUse_child (heq ▸ ht)
  have hbody := hm _ (hne _ hglobal).symm (w.enter parent) w₁ (Arena.inUse_child_of_inUse hglobal) hw₁
  have hpart : (m (w.scopes.child parent).1).ComesTo (w.enter parent)
      (Run.openScope parent >>= fun i => Run.releasing i (Run.within i (m i))) w :=
    .later rfl (.releasing _ (.within _ .self))
  obtain ⟨new, hnames, hnew⟩ := hbody.global
  refine ⟨fun t ht => ?_, fun t ht hglobal _ => ?_, new, ?_, fun name hmem => (hnew name hmem).of_part hpart⟩
  · exact Arena.inUse_release_of_ne (hbody.inUse t (Arena.inUse_child_of_inUse ht)) (hne t ht)
  · calc (w₁.scopes.release _).names t
        = w₁.scopes.names t := Arena.names_release_of_ne (hne t ht)
      _ = (w.enter parent).scopes.names t := hbody.others t (Arena.inUse_child_of_inUse ht) hglobal (hne t ht).symm
      _ = w.scopes.names t := Arena.names_child_of_inUse ht
  · calc (w₁.scopes.release _).names .global
        = w₁.scopes.names .global := Arena.names_release_of_ne (hne _ hglobal)
      _ = (w.enter parent).scopes.names .global ++ new := hnames
      _ = w.scopes.names .global ++ new := by rw [World.enter, Arena.names_child_of_inUse hglobal]

theorem within (i : ScopeId) {m : Run α} (hm : Spares K m) : Spares K (Run.within i m) :=
  fun w w' hglobal hw => (hm w w' hglobal hw).of_part (.within i .self)

/-! ### Places that are read and written -/

theorem of_read {line : Nat} {f : World → Except Fault.Cause α} {k : α → Run β}
    (h : ∀ a w w', f w = .ok a → (k a w).world? = some w' → w.scopes.SameNames w'.scopes) :
    Spares K (Run.read line f >>= k) := by
  refine same fun w w' hw => ?_
  rw [Run.run_bind] at hw
  simp only [Run.read, Run.step] at hw
  cases hf : f w with
  | ok a => rw [hf] at hw; exact h a w w' hf hw
  | error cause => rw [hf] at hw; cases hw; exact .refl _

theorem sameNames_of_write {line : Nat} {p : Place} {w w' : World} {old new : Value} {b : β}
    (hread : p.read w i = .ok old)
    (hw : ((do Run.write line (p.write · i new); return b : Run β) w).world? = some w') :
    w.scopes.SameNames w'.scopes := by
  rw [Run.run_bind] at hw
  simp only [Run.write, Run.step] at hw
  cases hp : p.write w i new with
  | ok w₁ => rw [hp] at hw; cases hw; exact Place.sameNames hread hp
  | error cause => rw [hp] at hw; cases hw; exact .refl _

theorem write {line : Nat} {p : Place} (hp : ∀ name, p ≠ .var name) (new : Value) :
    Spares K (Run.write line (p.write · i new)) := by
  refine step fun w w' hw => ?_
  simp only at hw
  cases h : p.write w i new with
  | ok w₁ =>
      rw [h] at hw
      cases hw
      obtain ⟨arrays, prototypes, rfl⟩ := Place.write_store hp h
      rfl
  | error cause => rw [h] at hw; cases hw; rfl

/-! ### Lists and scopes -/

theorem each {f : α → Run β} (h : ∀ a, Spares K (f a)) (items : List α) : Spares K (Run.each f items) := by
  induction items with
  | nil => exact pure []
  | cons a rest ih => exact bind (h a) fun b => bind ih fun bs => pure (b :: bs)

theorem eachEntry {f : α → Run β} (h : ∀ a, Spares K (f a)) (entries : List (String × α)) :
    Spares K (Run.eachEntry f entries) := by
  induction entries with
  | nil => exact pure []
  | cons entry rest ih => exact bind (h entry.2) fun b => bind ih fun bs => pure ((entry.1, b) :: bs)

theorem bindAll (hi : K i) (hne : i ≠ .global) (bindings : List (String × Value)) :
    Spares K (Run.bindAll i bindings) := by
  induction bindings with
  | nil => exact pure ()
  | cons binding rest ih => exact bind (define hi hne binding.1 binding.2) fun _ => ih

theorem inScope (parent : ScopeId) (bindings : List (String × Value)) {body : ScopeId → Run α}
    (h : ∀ i, i ≠ .global → Spares (Eq i) (body i)) : Spares K (Run.inScope parent bindings body) :=
  opened fun i hne => bind (bindAll rfl hne bindings) fun _ => h i hne

end Run.Spares

/-! ## The rules -/

/-- What is nested spares all scopes; a statement may name things in its own, which is not the global one. -/
structure Evaluator.Spares (ev : Evaluator) : Prop where
  eval : ∀ {K : ScopeId → Prop} (e : Expr) (i : ScopeId), Run.Spares K (ev.eval e i)
  exec : ∀ {K : ScopeId → Prop} (s : Stmt) {i : ScopeId}, K i → i ≠ .global → Run.Spares K (ev.exec s i)

namespace Evaluator.Spares

variable {ev : Evaluator} {K : ScopeId → Prop} {i : ScopeId}

theorem block (h : ev.Spares) (hi : K i) (hne : i ≠ .global) (last : Value) (stmts : List Stmt) :
    Run.Spares K (ev.block i last stmts) := by
  induction stmts generalizing last with
  | nil => exact .pure _
  | cons s rest ih =>
      refine .bind (h.exec s hi hne) fun flow => ?_
      cases flow with
      | normal v => exact ih v
      | ret v => exact .pure _
      | leave => exact .pure _

/-! ### Calls -/

theorem callClosure (h : ev.Spares) (f : Closure) (positional : List Value) (named : List (String × Value))
    (line : Nat) : Run.Spares K (ev.callClosure f positional named line) := by
  refine .bind (.read _ _) fun args => .bind (.inScope _ _ fun j hne => h.block rfl hne _ _) fun flow => ?_
  cases flow with
  | normal v => exact .pure _
  | ret v => exact .pure _
  | leave => exact .fail _ _

theorem construct (c : Constructor) (positional : List Value) (named : List (String × Value)) (line : Nat) :
    Run.Spares K (Evaluator.construct c positional named line) := .bind (.read _ _) fun _ => .create _

theorem callNative (sig : Signature) (positional : List Value) (named : List (String × Value)) (line : Nat) :
    Run.Spares K (Evaluator.callNative sig positional named line) := by
  refine .bind (.read _ _) fun args => ?_
  cases Native.find? ⟨sig.name, args, line⟩ with
  | some n => exact .native n
  | none => exact .fail _ _

theorem call (h : ev.Spares) (callee : Value) (positional : List Value) (named : List (String × Value)) (line : Nat) :
    Run.Spares K (ev.call callee positional named line) := by
  refine .bind .world fun w => ?_
  cases callee with
  | native sig => exact callNative sig positional named line
  | function ref => exact h.callClosure _ positional named line
  | constructor ref => exact construct _ positional named line
  | _ => exact .fail _ _

/-! ### Matches -/

theorem armBody (h : ev.Spares) (hi : K i) (hne : i ≠ .global) (body : ArmBody) : Run.Spares K (ev.armBody i body) := by
  cases body with
  | block stmts pos =>
      refine .bind (h.block hi hne _ stmts) fun flow => ?_
      cases flow with
      | normal v => exact .pure _
      | ret v => exact .pure _
      | leave => exact .pure _
  | expr e => exact .bind (h.eval e i) fun _ => .pure _

theorem choose (h : ev.Spares) (subject : Expr) (arms : List Arm) (pos : Position) (i : ScopeId) :
    Run.Spares K (ev.choose subject arms pos i) := by
  refine .bind (h.eval subject i) fun v => .bind .world fun w => ?_
  cases Evaluator.firstArm? w.store v arms with
  | some arm => exact .inScope _ _ fun j hne => h.armBody rfl hne arm.2
  | none => exact .bind (.idle (.text v)) fun _ => .fail _ _

/-! ### Expressions -/

theorem place (h : ev.Spares) (target : Expr) (i : ScopeId) : Run.Spares K (ev.place target i) := by
  cases target with
  | name name pos => exact .pure _
  | index object key pos => exact .bind (h.eval object i) fun _ => .bind (h.eval key i) fun _ => .pure _
  | member object property pos => exact .bind (h.eval object i) fun _ => .pure _
  | _ => exact .fail _ _

/-- With an operator the place is read before it is written. -/
theorem assignWith (h : ev.Spares) (target : Expr) (op : BinaryOp) (value : Expr) (line : Nat) (i : ScopeId) :
    Run.Spares K (ev.assign target (some op) value line i) := by
  refine .bind (h.place target i) fun p => .bind (h.eval value i) fun right => ?_
  refine .of_read fun current w w' hread hw => ?_
  have hidle := Run.Idle.operate op current right line w
  rw [Run.run_bind] at hw
  cases hop : Evaluator.operate op current right line w with
  | ok new w₁ =>
      rw [hop] at hw
      obtain rfl := hidle w₁ (by rw [hop]; rfl)
      exact Run.Spares.sameNames_of_write hread hw
  | fault f w₁ =>
      rw [hop] at hw
      obtain rfl := hidle w' (by rw [hop]; exact hw)
      exact .refl _
  | abort why => rw [hop] at hw; cases hw

/-- A plain assignment to a part of a value writes to no scope. -/
theorem assignPart (h : ev.Spares) {target : Expr} (htarget : ∀ name pos, target ≠ .name name pos) (value : Expr)
    (line : Nat) (i : ScopeId) : Run.Spares K (ev.assign target none value line i) := by
  have hend (p : Place) (hp : ∀ name, p ≠ .var name) : Run.Spares K (do
      let new ← ev.eval value i
      Run.write line (p.write · i new)
      return new) :=
    .bind (h.eval value i) fun new => .bind (.write hp new) fun _ => .pure _
  unfold Evaluator.assign
  cases target with
  | name name pos => exact absurd rfl (htarget name pos)
  | index object key pos =>
      simp only [Evaluator.place, bind_assoc, pure_bind]
      exact .bind (h.eval object i) fun o => .bind (h.eval key i) fun k => hend (.index o k) (by simp)
  | member object property pos =>
      simp only [Evaluator.place, bind_assoc, pure_bind]
      exact .bind (h.eval object i) fun o => hend (.member o property) (by simp)
  | _ => exact .fail_bind _ _ _

theorem step (h : ev.Spares) (direction : Direction) (early : Bool) (target : Expr) (line : Nat) (i : ScopeId) :
    Run.Spares K (ev.step direction early target line i) := by
  refine .bind (h.place target i) fun p => .of_read fun old w w' hread hw => ?_
  cases old with
  | number n => exact Run.Spares.sameNames_of_write hread hw
  | _ => cases hw; exact .refl _

theorem bound (h : ev.Spares) (e? : Option Expr) (i : ScopeId) : Run.Spares K (ev.bound e? i) := by
  cases e? with
  | none => exact .pure _
  | some e => exact h.eval e i

theorem evalExpr (h : ev.Spares) (e : Expr) (i : ScopeId)
    (hplain : ∀ name namePos value pos, e ≠ .assign (.name name namePos) none value pos) :
    Run.Spares K (ev.evalExpr e i) := by
  cases e with
  | number n pos => exact .pure _
  | text s pos => exact .pure _
  | bool b pos => exact .pure _
  | null pos => exact .pure _
  | fresh pos =>
      simp only [Evaluator.evalExpr]
      exact .create _
  | name name pos => exact .read _ _
  | array items pos => exact .bind (.each (h.eval · i) items) fun _ => .create _
  | object entries pos => exact .bind (.eachEntry (h.eval · i) entries) fun _ => .create _
  | assign target op? value pos =>
      cases op? with
      | none => exact h.assignPart (by rintro name namePos rfl; exact hplain name namePos value pos rfl) value _ i
      | some op => exact h.assignWith target op value _ i
  | logical op left right pos =>
      refine .bind (h.eval left i) fun l => ?_
      cases op <;> cases l.isTruthy
      · exact .pure _
      · exact h.eval right i
      · exact h.eval right i
      · exact .pure _
  | binary op left right pos =>
      exact .bind (h.eval left i) fun l => .bind (h.eval right i) fun r => .idle (.operate op l r _)
  | unary op operand pos => exact .bind (h.eval operand i) fun _ => .read _ _
  | step direction early target pos => exact h.step direction early target _ i
  | call callee args named pos =>
      refine .bind (h.eval callee i) fun f => .bind (.each (h.eval · i) args) fun vs => ?_
      exact .bind (.eachEntry (h.eval · i) named) fun ks => h.call f vs ks _
  | member object property pos => exact .bind (h.eval object i) fun _ => .read _ _
  | index object key pos => exact .bind (h.eval object i) fun _ => .bind (h.eval key i) fun _ => .read _ _
  | slice object start? stop? pos =>
      refine .bind (h.eval object i) fun _ => .bind (h.bound start? i) fun _ => ?_
      exact .bind (h.bound stop? i) fun _ => .make _ _
  | choose subject arms pos =>
      refine .bind (h.choose subject arms pos i) fun flow => ?_
      cases flow with
      | normal v => exact .pure _
      | ret v => exact .fail _ _
      | leave => exact .fail _ _

/-! ### Statements -/

theorem declareVariants (hi : K i) (hne : i ≠ .global) (enum : String) (members : Dict String Value)
    (variants : List VariantDecl) : Run.Spares K (Evaluator.declareVariants enum i members variants) := by
  induction variants generalizing members with
  | nil => exact .pure _
  | cons v rest ih => exact .bind (.create _) fun _ => .bind (.define hi hne _ _) fun _ => ih _

theorem declareEnum (hi : K i) (hne : i ≠ .global) (name : String) (variants : List VariantDecl) :
    Run.Spares K (Evaluator.declareEnum name variants i) :=
  .bind (declareVariants hi hne name {} variants) fun _ => .bind (.create _) fun _ => .define hi hne _ _

theorem declareFunction (hi : K i) (hne : i ≠ .global) (name : String) (params : List String) (body : List Stmt) :
    Run.Spares K (Evaluator.declareFunction name params body i) :=
  .bind (.capture i) fun _ => .bind (.create _) fun _ => .bind (.define hi hne _ _) fun _ => .pure _

theorem register (kind : FrameKind) (r : Registration) : Run.Spares K (Evaluator.register kind r) := by
  refine .bind (.capture _) fun _ => .step fun w w' hw => ?_
  cases kind with
  | draw => cases hw; rfl
  | update => cases hw; rfl

theorem execStmt (h : ev.Spares) (s : Stmt) (hi : K i) (hne : i ≠ .global) : Run.Spares K (ev.execStmt s i) := by
  cases s with
  | declare name value pos => exact .bind (h.eval value i) fun _ => .bind (.define hi hne _ _) fun _ => .pure _
  | function name params body pos => exact .bind (declareFunction hi hne name params body) fun _ => .pure _
  | ret value? pos =>
      cases value? with
      | none => exact .pure _
      | some e => exact .bind (h.eval e i) fun _ => .pure _
  | cond test body bodyPos other? pos =>
      refine .bind (h.eval test i) fun v => ?_
      split
      · exact h.block hi hne _ body
      · cases other? with
        | none => exact .pure _
        | some other => exact h.exec other hi hne
  | loop body bodyPos pos =>
      refine .bind (h.block hi hne _ body) fun flow => ?_
      cases flow with
      | normal v => exact h.exec _ hi hne
      | ret v => exact .pure _
      | leave => exact .pure _
  | leave pos => exact .pure _
  | block stmts pos => exact h.block hi hne _ stmts
  | enum name variants pos => exact .bind (declareEnum hi hne name variants) fun _ => .pure _
  | frame kind param? body pos => exact .bind (register kind _) fun _ => .pure _
  | expr e =>
      cases e with
      | choose subject arms pos => exact h.choose subject arms pos i
      | _ => exact .bind (h.eval _ i) fun _ => .pure _

end Evaluator.Spares

/-! ## Whole runs -/

/-- The one assignment that can give the global scope a new name. -/
theorem Run.Spares.assignName {fuel : Nat} (h : (evaluator fuel).Spares) {K : ScopeId → Prop} (name : String)
    (namePos : Position) (value : Expr) (pos : Position) (i : ScopeId) :
    Run.Spares K (eval (fuel + 1) (.assign (.name name namePos) none value pos) i) := by
  intro w w' hglobal hw
  have hrun : eval (fuel + 1) (.assign (.name name namePos) none value pos) i w =
      match eval fuel value i w with
      | .ok v w₁ => .ok v { w₁ with scopes := w₁.scopes.set i name v }
      | .fault f w₁ => .fault f w₁
      | .abort why => .abort why := by
    change (eval fuel value i >>= fun v => _) w = _
    rw [Run.run_bind]
    cases eval fuel value i w <;> rfl
  have hpart : (eval fuel value i).ComesTo w (eval (fuel + 1) (.assign (.name name namePos) none value pos) i) w :=
    .within i (.later (a := Place.var name) rfl (.first .self))
  have hvalue := h.eval (K := K) value i w
  rw [hrun] at hw
  cases hv : eval fuel value i w with
  | abort why => rw [hv] at hw; cases hw
  | fault f w₁ =>
      rw [hv] at hw
      cases hw
      exact (hvalue w' hglobal (congrArg Outcome.world? hv)).of_part hpart
  | ok v w₁ =>
      rw [hv] at hw
      cases hw
      have hnames := (hvalue w₁ hglobal (congrArg Outcome.world? hv)).of_part hpart
      exact hnames.set hglobal fun hfree => ⟨i, w₁, ⟨fuel, namePos, value, pos, v, w, .self, hv⟩, hfree⟩

theorem evaluator_spares (fuel : Nat) : (evaluator fuel).Spares := by
  induction fuel with
  | zero => exact ⟨fun _ _ => .abort _, fun _ _ _ _ => .abort _⟩
  | succ fuel ih =>
      refine ⟨fun e i => ?_, fun s i hi hne => .within i (ih.execStmt s hi hne)⟩
      by_cases hplain : ∃ name namePos value pos, e = .assign (.name name namePos) none value pos
      · obtain ⟨name, namePos, value, pos, rfl⟩ := hplain
        exact .assignName ih name namePos value pos i
      · refine .within i (ih.evalExpr e i fun name namePos value pos he => hplain ⟨name, namePos, value, pos, he⟩)

theorem Run.Spares.frameBlock (fuel : Nat) (r : Registration) (bindings : List (String × Value))
    {K : ScopeId → Prop} : Run.Spares K (Run.frameBlock fuel r bindings) := by
  refine .bind (.inScope _ _ fun j hne => (evaluator_spares fuel).block rfl hne _ _) fun flow => ?_
  cases flow with
  | normal v => exact .pure _
  | ret v => exact .pure _
  | leave => exact .fail _ _

/-- What is undertaken in nobody's own scope: an expression, a call, and the frame blocks. -/
inductive Run.Visiting (fuel : Nat) (i : ScopeId) : {α : Type} → Run α → Prop where
  | eval (e : Expr) : Visiting fuel i (eval fuel e i)
  | call (callee : Value) (positional : List Value) (named : List (String × Value)) (line : Nat) :
      Visiting fuel i (Run.call fuel callee positional named line)
  | update (dt : Float) : Visiting fuel i (Run.updateBlock fuel dt)
  | draw : Visiting fuel i (Run.drawBlock fuel)

namespace Run.Visiting

variable {fuel : Nat} {i : ScopeId} {α : Type} {r : Run α}

theorem undertaken (h : r.Visiting fuel i) : r.Undertaken fuel i := by
  cases h with
  | eval e => exact .eval e
  | call callee positional named line => exact .call callee positional named line
  | update dt => exact .update dt
  | draw => exact .draw

theorem spares (h : r.Visiting fuel i) (K : ScopeId → Prop) : r.Spares K := by
  cases h with
  | eval e => exact (evaluator_spares fuel).eval e i
  | call callee positional named line => exact (evaluator_spares fuel).call callee positional named line
  | update dt =>
      refine .bind .world fun w => ?_
      cases w.update? with
      | none => exact .pure _
      | some r => exact .frameBlock fuel r _
  | draw =>
      refine .bind .world fun w => ?_
      cases w.draw? with
      | none => exact .pure _
      | some r => exact .frameBlock fuel r _

end Run.Visiting

/-- Where a name is not found from a scope in use, no scope from there outward binds it. -/
theorem Arena.WellFormed.free_of_resolve {a : Arena} (h : a.WellFormed) {i : ScopeId} {name : String} (hi : a.InUse i)
    (hfree : a.resolve i name = none) : ∃ path, a.Leads i path ∧ ∀ t ∈ path, name ∉ a.names t := by
  obtain ⟨path, hpath, hinUse⟩ := h.way hi
  rw [Arena.resolve_eq_find? hpath fun t ht => (hinUse t ht).1, List.find?_eq_none] at hfree
  exact ⟨path, hpath, fun t ht hmem => hfree t ht ((Dict.contains_iff_mem_keys _ _).2 hmem)⟩

/-- An assignment in the course of what is undertaken at a tidy moment ends its value at one. -/
theorem Run.Assigns.tidy {α : Type} {r : Run α} {m : Moment} {fuel : Nat} {name : String} {i : ScopeId} {w : World}
    (h : r.Assigns m.world name i w) (hm : m.Tidy) (hr : r.Undertaken fuel m.scope) :
    w.Tidy ∧ w.scopes.InUse i := by
  obtain ⟨fuel', namePos, value, pos, v, w₁, hcomes, hvalue⟩ := h
  obtain ⟨j, hpasses⟩ := hcomes.passes m.scope
  have hbegun : Moment.Tidy ⟨w₁, i⟩ := (hm.undertake hr).1 _ (hpasses _ (.inl rfl))
  have hended := (hbegun.undertake (.eval value : Run.Undertaken fuel' i (eval fuel' value i))).2 w
    (congrArg Outcome.world? hvalue)
  exact ⟨hended.tidy, hended.scopes.inUse i hbegun.scope⟩

/-- Expressions, calls and frame blocks add names to nobody else's scope, whether they end with a value or with a
fault: all scopes in use stay in use, and have the names they had in the same order. The global scope has further names
after those it had; each comes from a plain assignment to a name that no scope from the assigning one outward bound. -/
theorem only_assignments_add_globals {m : Moment} (hm : m.Reachable) {fuel : Nat} {α : Type} {r : Run α}
    (hr : r.Visiting fuel m.scope) {w : World} (hw : (r m.world).world? = some w) :
    (∀ t, t ≠ .global → m.world.scopes.InUse t →
      w.scopes.InUse t ∧ w.scopes.names t = m.world.scopes.names t) ∧
    ∃ new, w.scopes.names .global = m.world.scopes.names .global ++ new ∧
      ∀ name ∈ new, ∃ i w', r.Assigns m.world name i w' ∧
        ∃ path, w'.scopes.Leads i path ∧ ∀ t ∈ path, name ∉ w'.scopes.names t := by
  have htidy := hm.tidy
  obtain ⟨hinUse, hothers, new, hnames, hnew⟩ :=
    hr.spares (fun _ => False) m.world w htidy.world.sound.scopes.global_inUse hw
  refine ⟨fun t hne ht => ⟨hinUse t ht, hothers t ht hne id⟩, new, hnames, fun name hmem => ?_⟩
  obtain ⟨i, w', hassigns, hfree⟩ := hnew name hmem
  obtain ⟨hw', hi⟩ := hassigns.tidy htidy hr.undertaken
  exact ⟨i, w', hassigns, hw'.sound.scopes.free_of_resolve hi hfree⟩

/-- `match null { x => z = x }` -/
def assignInArm : Expr :=
  .choose (.null .start)
    [.mk (.binding "x" .start) (.expr (.assign (.name "z" .start) none (.name "x" .start) .start)) .start] .start

set_option maxRecDepth 2000 in
/-- The name that the pattern binds stays in the arm; the one that is assigned there becomes global. -/
theorem only_assignments_add_globals_in_arm : ∃ w,
    (eval 3 assignInArm .global (World.start {} Chance.least)).world? = some w ∧
    w.scopes.names .global = (World.start {} Chance.least).scopes.names .global ++ ["z"] ∧
    ∃ i w', Run.Assigns (eval 3 assignInArm .global) (World.start {} Chance.least) "z" i w' ∧
      ∃ path, w'.scopes.Leads i path ∧ ∀ t ∈ path, "z" ∉ w'.scopes.names t := by
  have hrun : (eval 3 assignInArm .global (World.start {} Chance.least)).world?.map (·.scopes.names .global) =
      some ((World.start {} Chance.least).scopes.names .global ++ ["z"]) := by decide +kernel
  obtain ⟨w, hw, hnames⟩ := Option.map_eq_some_iff.1 hrun
  have hvisits : (eval 3 assignInArm .global).Visiting 3 .global := .eval assignInArm
  obtain ⟨-, new, hnames', hnew⟩ := only_assignments_add_globals (.start {} Chance.least) hvisits hw
  obtain rfl : ["z"] = new := List.append_cancel_left (hnames.symm.trans hnames')
  exact ⟨w, hw, hnames, hnew "z" List.mem_cons_self⟩

end Cairn
