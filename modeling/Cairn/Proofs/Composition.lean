import Cairn.Eval.Evaluator
import Cairn.Proofs.Flow.Causes
import Cairn.Proofs.Native.Effects
import Cairn.Proofs.Tree.Nodes

/-!
# What evaluation is composed of

Evaluation looks at the world, takes quiet steps, binds names, declares functions and frame blocks, and opens scopes
that it releases again. Which nodes it comes upon and which scopes it works in is kept beside: all code that runs is
code of the program or of what the world holds, and every scope is one that was handed over or opened on the way. What
holds of these few ways of composing holds of all of evaluation.
-/

namespace Cairn

/-! ## Code that a world holds -/

/-- A world holds the bodies of functions and the frame blocks, each with the scope it was declared in. -/
inductive World.Holds (w : World) : (body : List Stmt) → (scope : ScopeId) → Prop where
  | function {c : Closure} (h : c ∈ w.store.closures) : Holds w c.body c.scope
  | draw {r : Registration} (h : w.draw? = some r) : Holds w r.body r.scope
  | update {r : Registration} (h : w.update? = some r) : Holds w r.body r.scope

/-- All code of the world is made of nodes with `P`. -/
def World.HoldsOnly (P : Node → Prop) (w : World) : Prop :=
  ∀ body i, w.Holds body i → ∀ s ∈ body, (Node.stmt s).Every P

/-- `w'` has the scopes and the code of `w`, and all that was made there. -/
structure World.Beside (w w' : World) : Prop where
  scopes : w'.scopes = w.scopes
  closures : w'.store.closures = w.store.closures
  draw : w'.draw? = w.draw?
  update : w'.update? = w.update?
  store : w.store.Extends w'.store

namespace World

variable {w w' : World} {body : List Stmt} {i : ScopeId}

theorem Beside.refl (w : World) : w.Beside w := ⟨rfl, rfl, rfl, rfl, .refl w.store⟩

theorem Holds.congr (h : w'.Holds body i) (hclosures : w'.store.closures = w.store.closures)
    (hdraw : w'.draw? = w.draw?) (hupdate : w'.update? = w.update?) : w.Holds body i := by
  cases h with
  | function h => exact .function (hclosures ▸ h)
  | draw h => exact .draw (hdraw ▸ h)
  | update h => exact .update (hupdate ▸ h)

theorem Beside.holds (h : w.Beside w') (hbody : w'.Holds body i) : w.Holds body i :=
  hbody.congr h.closures h.draw h.update

theorem Holds.of_closures_push {c : Closure} (h : w'.Holds body i)
    (hclosures : w'.store.closures = w.store.closures.push c) (hdraw : w'.draw? = w.draw?)
    (hupdate : w'.update? = w.update?) : w.Holds body i ∨ body = c.body ∧ i = c.scope := by
  cases h with
  | function h =>
      rw [hclosures] at h
      obtain h | rfl := Array.mem_push.1 h
      · exact .inl (.function h)
      · exact .inr ⟨rfl, rfl⟩
  | draw h => exact .inl (.draw (hdraw ▸ h))
  | update h => exact .inl (.update (hupdate ▸ h))

/-- The function behind a reference is one of the world, or has no body and stands in the global scope. -/
theorem closure_cases (w : World) (ref : Nat) :
    w.Holds (w.store.closure ref).body (w.store.closure ref).scope ∨
      (w.store.closure ref).body = [] ∧ (w.store.closure ref).scope = .global := by
  unfold Store.closure
  cases h : w.store.closures[ref]? with
  | none => exact .inr ⟨rfl, rfl⟩
  | some c => exact .inl (.function (Array.mem_of_getElem? h))

end World

/-! ## Ways of composing -/

/-- The target of an assignment or of `++` and `--`. -/
def Node.target? : Node → Option Expr
  | .expr (.assign target _ _ _) | .expr (.step _ _ target _) => some target
  | _ => none

/-- Scopes and code stay, and a fault is not for want of a place. -/
def Outcome.Quiet {α : Type} (w : World) : Outcome α → Prop
  | .ok _ w' => w.Beside w'
  | .fault f w' => f.cause ≠ .invalidTarget ∧ w' = w
  | .abort _ => True

/-- The computation is composed of these steps; it comes upon nodes with `P` and works in scopes of `K`. -/
inductive Run.Composed (P : Node → Prop) : (K : ScopeId → Prop) → {α : Type} → Run α → Prop where
  | pure {K : ScopeId → Prop} {α : Type} (a : α) : Composed P K (Pure.pure a)
  | bind {K : ScopeId → Prop} {α β : Type} {m : Run α} {k : α → Run β} (hm : Composed P K m)
      (hk : ∀ a, Composed P K (k a)) : Composed P K (m >>= k)
  /-- The scopes that the world holds code in may be worked in. -/
  | look {K : ScopeId → Prop} {α : Type} {k : World → Run α}
      (hk : ∀ w, w.HoldsOnly P → Composed P (fun i => K i ∨ i = .global ∨ ∃ body, w.Holds body i) (k w)) :
      Composed P K (Run.world >>= k)
  | quiet {K : ScopeId → Prop} {α : Type} {f : World → Outcome α} (h : ∀ w, (f w).Quiet w) :
      Composed P K (Run.step f)
  | misplaced {K : ScopeId → Prop} {α : Type} {n : Node} {target : Expr} {line : Nat} (hn : P n)
      (htarget : n.target? = some target) (hplace : target.isPlace = false) :
      Composed P K (Run.fail .invalidTarget line : Run α)
  | define {K : ScopeId → Prop} {i : ScopeId} (hi : K i) (name : String) (v : Value) :
      Composed P K (Run.modifyScopes (·.define i name v))
  | set {K : ScopeId → Prop} {i : ScopeId} (hi : K i) (name : String) (v : Value) :
      Composed P K (Run.modifyScopes (·.set i name v))
  | function {K : ScopeId → Prop} {c : Closure} (hi : K c.scope) (hbody : ∀ s ∈ c.body, (Node.stmt s).Every P) :
      Composed P K (do Run.modifyScopes (·.capture c.scope); Run.create (·.newClosure c))
  | register {K : ScopeId → Prop} {r : Registration} (kind : FrameKind) (hi : K r.scope)
      (hbody : ∀ s ∈ r.body, (Node.stmt s).Every P) : Composed P K (Evaluator.register kind r)
  | opened {K : ScopeId → Prop} {α : Type} {parent : ScopeId} {m : ScopeId → Run α} (hi : K parent)
      (hm : ∀ i, Composed P (fun j => j = i ∨ K j) (m i)) :
      Composed P K (Run.openScope parent >>= fun i => Run.releasing i (Run.within i (m i)))
  | within {K : ScopeId → Prop} {α : Type} {i : ScopeId} {m : Run α} (hi : K i) (hm : Composed P K m) :
      Composed P K (Run.within i m)

namespace Run.Composed

variable {P : Node → Prop} {K : ScopeId → Prop} {α β : Type} {i : ScopeId}

/-! ## Quiet steps -/

theorem fail {cause : Fault.Cause} {line : Nat} (h : cause ≠ .invalidTarget) :
    Composed P K (Run.fail cause line : Run α) :=
  .quiet fun _ => ⟨h, rfl⟩

theorem abort (why : Abort) : Composed P K (Run.abort why : Run α) := .quiet fun _ => trivial

theorem read {line : Nat} {f : World → Except Fault.Cause α} (h : ∀ w, OfValues (f w)) :
    Composed P K (Run.read line f) := by
  refine .quiet fun w => ?_
  cases hf : f w with
  | ok a => exact World.Beside.refl w
  | error cause => exact ⟨(h w).ne_invalidTarget hf, rfl⟩

theorem text (v : Value) : Composed P K (Run.text v) := by
  refine .look fun w _ => ?_
  cases w.store.display v with
  | some text => exact .pure text
  | none => exact abort _

theorem create {f : Store → Value × Store} (h : ∀ s, (f s).2.closures = s.closures)
    (hextends : ∀ s : Store, s.Extends (f s).2) : Composed P K (Run.create f) :=
  .quiet fun w => ⟨rfl, h w.store, rfl, rfl, hextends w.store⟩

theorem make {line : Nat} {f : Store → Except Fault.Cause (Value × Store)} (herror : ∀ s, OfValues (f s))
    (hok : ∀ s v s', f s = .ok (v, s') → s'.closures = s.closures ∧ s.Extends s') : Composed P K (Run.make line f) := by
  refine .quiet fun w => ?_
  cases h : f w.store with
  | ok r => exact ⟨rfl, (hok _ r.1 r.2 h).1, rfl, rfl, (hok _ r.1 r.2 h).2⟩
  | error cause => exact ⟨(herror _).ne_invalidTarget h, rfl⟩

theorem native {c : NativeCall} {n : Native} (hn : Native.find? c = some n) : Composed P K (Run.native n) := by
  refine .quiet fun w => ?_
  have hobeys := Native.find?_obeys hn w.host
  rcases h : n w.host with ⟨answer, host⟩
  rw [h] at hobeys
  cases answer with
  | ok v => exact ⟨rfl, hobeys.closures, rfl, rfl, hobeys.store⟩
  | error e =>
      cases e with
      | abort why => trivial
      | fault f =>
          obtain ⟨⟨why, rfl⟩, rfl⟩ := hobeys
          exact ⟨by simp, rfl⟩

theorem write {line : Nat} {f : World → Except Fault.Cause World} (herror : ∀ w, OfValues (f w))
    (hok : ∀ w w', f w = .ok w' → w.Beside w') : Composed P K (Run.write line f) := by
  refine .quiet fun w => ?_
  cases h : f w with
  | ok w' => exact hok w w' h
  | error cause => exact ⟨(herror w).ne_invalidTarget h, rfl⟩

/-- A name is set where it is bound; all other places lie in the store. -/
theorem assign (line : Nat) (p : Place) (hi : K i) (v : Value) :
    Composed P K (Run.write line fun w => p.write w i v) := by
  have hstore (hp : ∀ name, p ≠ .var name) : Composed P K (Run.write line fun w => p.write w i v) := by
    refine .write (fun w => Place.write_ofValues w i v p) fun w w' h => ?_
    obtain ⟨arrays, prototypes, rfl⟩ := Place.write_store hp h
    exact ⟨rfl, rfl, rfl, rfl, .changed w.store arrays prototypes⟩
  cases p with
  | var name => exact .set hi name v
  | index object key => exact hstore (by simp)
  | member object property => exact hstore (by simp)

/-! ## Lists and scopes -/

theorem each {f : α → Run β} {items : List α} (h : ∀ a ∈ items, Composed P K (f a)) :
    Composed P K (Run.each f items) := by
  induction items with
  | nil => exact .pure []
  | cons a rest ih =>
      refine .bind (h a List.mem_cons_self) fun b => ?_
      exact .bind (ih fun a ha => h a (List.mem_cons_of_mem _ ha)) fun bs => .pure (b :: bs)

theorem eachEntry {f : α → Run β} {entries : List (String × α)} (h : ∀ entry ∈ entries, Composed P K (f entry.2)) :
    Composed P K (Run.eachEntry f entries) := by
  induction entries with
  | nil => exact .pure []
  | cons entry rest ih =>
      refine .bind (h entry List.mem_cons_self) fun b => ?_
      exact .bind (ih fun entry he => h entry (List.mem_cons_of_mem _ he)) fun bs => .pure ((entry.1, b) :: bs)

theorem bindAll (hi : K i) (bindings : List (String × Value)) : Composed P K (Run.bindAll i bindings) := by
  induction bindings with
  | nil => exact .pure ()
  | cons binding rest ih => exact .bind (.define hi binding.1 binding.2) fun _ => ih

theorem inScope (hi : K i) (bindings : List (String × Value)) {body : ScopeId → Run α}
    (h : ∀ j, Composed P (fun k => k = j ∨ K k) (body j)) : Composed P K (Run.inScope i bindings body) :=
  .opened hi fun j => .bind (.bindAll (.inl rfl) bindings) fun _ => h j

end Run.Composed

/-! ## The rules -/

/-- What is nested is composed, whatever scopes there are besides the one at hand. -/
structure Evaluator.Composed (P : Node → Prop) (ev : Evaluator) : Prop where
  eval : ∀ {K : ScopeId → Prop} {i : ScopeId} {e : Expr}, K i → (Node.expr e).Every P →
    Run.Composed P K (ev.eval e i)
  exec : ∀ {K : ScopeId → Prop} {i : ScopeId} {s : Stmt}, K i → (Node.stmt s).Every P →
    Run.Composed P K (ev.exec s i)

namespace Evaluator.Composed

variable {P : Node → Prop} {ev : Evaluator} {K : ScopeId → Prop} {i : ScopeId}

theorem block (h : ev.Composed P) (hi : K i) {stmts : List Stmt} (hs : ∀ s ∈ stmts, (Node.stmt s).Every P)
    (last : Value) : Run.Composed P K (ev.block i last stmts) := by
  induction stmts generalizing last with
  | nil => exact .pure _
  | cons s rest ih =>
      refine .bind (h.exec hi (hs s List.mem_cons_self)) fun flow => ?_
      cases flow with
      | normal v => exact ih (fun s hmem => hs s (List.mem_cons_of_mem _ hmem)) v
      | ret v => exact .pure _
      | leave => exact .pure _

/-! ### Calls -/

theorem callClosure (h : ev.Composed P) {f : Closure} (hi : K f.scope) (hbody : ∀ s ∈ f.body, (Node.stmt s).Every P)
    (positional : List Value) (named : List (String × Value)) (line : Nat) :
    Run.Composed P K (ev.callClosure f positional named line) := by
  refine .bind (.read fun _ => bindArgs_ofValues _ _ _ _ _) fun args => ?_
  refine .bind (.inScope hi _ fun j => h.block (.inl rfl) hbody _) fun flow => ?_
  cases flow with
  | normal v => exact .pure _
  | ret v => exact .pure _
  | leave => exact .fail (by simp)

theorem construct (c : Constructor) (positional : List Value) (named : List (String × Value)) (line : Nat) :
    Run.Composed P K (Evaluator.construct c positional named line) :=
  .bind (.read fun _ => bindArgs_ofValues _ _ _ _ _) fun _ => .create (fun _ => rfl) fun s => .newVariant s _

theorem callNative (sig : Signature) (positional : List Value) (named : List (String × Value)) (line : Nat) :
    Run.Composed P K (Evaluator.callNative sig positional named line) := by
  refine .bind (.read fun _ => bindArgs_ofValues _ _ _ _ _) fun args => ?_
  cases hn : Native.find? ⟨sig.name, args, line⟩ with
  | some n => exact .native hn
  | none => exact .fail (by simp)

theorem call (h : ev.Composed P) (callee : Value) (positional : List Value) (named : List (String × Value))
    (line : Nat) : Run.Composed P K (ev.call callee positional named line) := by
  refine .look fun w hw => ?_
  cases callee with
  | native sig => exact callNative sig positional named line
  | function ref =>
      obtain hheld | ⟨hbody, hscope⟩ := w.closure_cases ref
      · exact h.callClosure (.inr (.inr ⟨_, hheld⟩)) (hw _ _ hheld) positional named line
      · exact h.callClosure (.inr (.inl hscope)) (by simp [hbody]) positional named line
  | constructor ref => exact construct _ positional named line
  | _ => exact .fail (by simp)

/-! ### Matches -/

theorem armBody (h : ev.Composed P) (hi : K i) {body : ArmBody} {p : Pattern} {pos : Position}
    (hbody : ∀ n ∈ (Arm.mk p body pos).children, n.Every P) : Run.Composed P K (ev.armBody i body) := by
  cases body with
  | block stmts blockPos =>
      have hstmts : ∀ s ∈ stmts, (Node.stmt s).Every P := fun s hs => hbody _ (by simp [Arm.children, hs])
      refine .bind (h.block hi hstmts _) fun flow => ?_
      cases flow with
      | normal v => exact .pure _
      | ret v => exact .pure _
      | leave => exact .pure _
  | expr e => exact .bind (h.eval hi (hbody _ (by simp [Arm.children]))) fun _ => .pure _

theorem mem_of_firstArm? {store : Store} {v : Value} {arms : List Arm} {bindings : List (String × Value)}
    {body : ArmBody} (h : Evaluator.firstArm? store v arms = some (bindings, body)) :
    ∃ p pos, Arm.mk p body pos ∈ arms := by
  induction arms with
  | nil => cases h
  | cons arm rest ih =>
      obtain ⟨p, body', pos⟩ := arm
      rw [Evaluator.firstArm?] at h
      split at h
      · cases h
        exact ⟨p, pos, List.mem_cons_self⟩
      · obtain ⟨p, pos, hmem⟩ := ih h
        exact ⟨p, pos, List.mem_cons_of_mem _ hmem⟩

theorem choose (h : ev.Composed P) (hi : K i) {subject : Expr} {arms : List Arm} {pos : Position}
    (hnode : (Node.expr (.choose subject arms pos)).Every P) : Run.Composed P K (ev.choose subject arms pos i) := by
  obtain ⟨-, hchildren⟩ := Node.every_iff.1 hnode
  simp only [Node.children, Expr.children, List.mem_cons, List.mem_flatMap] at hchildren
  refine .bind (h.eval hi (hchildren _ (.inl rfl))) fun v => .look fun w _ => ?_
  cases hfirst : Evaluator.firstArm? w.store v arms with
  | none => exact .bind (.text v) fun _ => .fail (by simp)
  | some found =>
      obtain ⟨p, armPos, hmem⟩ := mem_of_firstArm? hfirst
      have hbody : ∀ n ∈ (Arm.mk p found.2 armPos).children, n.Every P :=
        fun n hn => hchildren n (.inr ⟨_, hmem, hn⟩)
      exact .inScope (.inl hi) _ fun j => h.armBody (.inl rfl) hbody

/-! ### Expressions -/

/-- Where the target is no place, the node of the assignment is to blame. -/
theorem place (h : ev.Composed P) (hi : K i) {n : Node} {target : Expr} (hn : P n) (htarget : n.target? = some target)
    (hnode : (Node.expr target).Every P) : Run.Composed P K (ev.place target i) := by
  obtain ⟨-, hchildren⟩ := Node.every_iff.1 hnode
  cases target with
  | name name pos => exact .pure _
  | index owner key pos =>
      refine .bind (h.eval hi (hchildren _ (by simp [Node.children, Expr.children]))) fun _ => ?_
      exact .bind (h.eval hi (hchildren _ (by simp [Node.children, Expr.children]))) fun _ => .pure _
  | member owner property pos =>
      exact .bind (h.eval hi (hchildren _ (by simp [Node.children, Expr.children]))) fun _ => .pure _
  | _ => exact .misplaced hn htarget rfl

theorem operate (op : BinaryOp) (l r : Value) (line : Nat) :
    Run.Composed P K (Evaluator.operate op l r line) := by
  unfold Evaluator.operate
  split
  · exact .bind (.text l) fun _ => .bind (.text r) fun _ => .pure _
  · exact .read fun _ => op.apply_ofValues l r

theorem assign (h : ev.Composed P) (hi : K i) {target : Expr} {op? : Option BinaryOp} {value : Expr} {pos : Position}
    (hnode : (Node.expr (.assign target op? value pos)).Every P) (line : Nat) :
    Run.Composed P K (ev.assign target op? value line i) := by
  obtain ⟨hself, hchildren⟩ := Node.every_iff.1 hnode
  simp only [Node.children, Expr.children, List.mem_cons, List.not_mem_nil, or_false, forall_eq_or_imp, forall_eq]
    at hchildren
  refine .bind (h.place hi hself rfl hchildren.1) fun p => .bind (h.eval hi hchildren.2) fun right => ?_
  have hend (new : Value) : Run.Composed P K (do Run.write line (p.write · i new); return new) :=
    .bind (.assign line p hi new) fun _ => .pure _
  cases op? with
  | none => exact .bind (.pure right) hend
  | some op =>
      refine .bind (.read fun w => p.read_ofValues w i) fun current => ?_
      exact .bind (operate op current right line) hend

theorem step (h : ev.Composed P) (hi : K i) {direction : Direction} {early : Bool} {target : Expr} {pos : Position}
    (hnode : (Node.expr (.step direction early target pos)).Every P) (line : Nat) :
    Run.Composed P K (ev.step direction early target line i) := by
  obtain ⟨hself, hchildren⟩ := Node.every_iff.1 hnode
  refine .bind (h.place hi hself rfl (hchildren _ (by simp [Node.children, Expr.children]))) fun p => ?_
  refine .bind (.read fun w => p.read_ofValues w i) fun old => ?_
  cases old with
  | number n => exact .bind (.assign line p hi _) fun _ => .pure _
  | _ => exact .fail (by simp)

theorem bound (h : ev.Composed P) (hi : K i) {e? : Option Expr} (he : ∀ e ∈ e?, (Node.expr e).Every P) :
    Run.Composed P K (ev.bound e? i) := by
  cases e? with
  | none => exact .pure _
  | some e => exact h.eval hi (he e rfl)

theorem evalExpr (h : ev.Composed P) (hi : K i) {e : Expr} (hnode : (Node.expr e).Every P) :
    Run.Composed P K (ev.evalExpr e i) := by
  obtain ⟨-, hchildren⟩ := Node.every_iff.1 hnode
  simp only [Node.children] at hchildren
  cases e with
  | number n pos => exact .pure _
  | text s pos => exact .pure _
  | bool b pos => exact .pure _
  | null pos => exact .pure _
  | fresh pos =>
      simp only [Evaluator.evalExpr]
      exact .create (fun _ => rfl) fun s => .newPrototype s _
  | name name pos => exact .read fun w => (Place.var name).read_ofValues w i
  | array items pos =>
      refine .bind (.each fun e he => h.eval hi (hchildren _ ?_)) fun _ => .create (fun _ => rfl) fun s => .newArray s _
      simpa [Expr.children] using he
  | object entries pos =>
      refine .bind (.eachEntry fun entry he => h.eval hi (hchildren _ ?_)) fun _ => ?_
      · exact List.mem_map_of_mem he
      · exact .create (fun _ => rfl) fun s => .newPrototype s _
  | assign target op? value pos => exact h.assign hi hnode _
  | logical op left right pos =>
      refine .bind (h.eval hi (hchildren _ (by simp [Expr.children]))) fun l => ?_
      have hright : Run.Composed P K (ev.eval right i) := h.eval hi (hchildren _ (by simp [Expr.children]))
      cases op <;> cases l.isTruthy
      · exact .pure _
      · exact hright
      · exact hright
      · exact .pure _
  | binary op left right pos =>
      refine .bind (h.eval hi (hchildren _ (by simp [Expr.children]))) fun l => ?_
      exact .bind (h.eval hi (hchildren _ (by simp [Expr.children]))) fun r => operate op l r _
  | unary op operand pos =>
      exact .bind (h.eval hi (hchildren _ (by simp [Expr.children]))) fun v => .read fun _ => op.apply_ofValues v
  | step direction early target pos => exact h.step hi hnode _
  | call callee args named pos =>
      simp only [Expr.children, List.mem_cons, List.mem_append, List.mem_map] at hchildren
      refine .bind (h.eval hi (hchildren _ (.inl rfl))) fun f => ?_
      refine .bind (.each fun e he => h.eval hi (hchildren _ (.inr (.inl ⟨e, he, rfl⟩)))) fun vs => ?_
      refine .bind (.eachEntry fun entry he => h.eval hi (hchildren _ (.inr (.inr ⟨entry, he, rfl⟩)))) fun ks => ?_
      exact h.call f vs ks _
  | member owner property pos =>
      refine .bind (h.eval hi (hchildren _ (by simp [Expr.children]))) fun o => ?_
      exact .read fun w => w.store.member_ofValues o property
  | index owner key pos =>
      refine .bind (h.eval hi (hchildren _ (by simp [Expr.children]))) fun o => ?_
      refine .bind (h.eval hi (hchildren _ (by simp [Expr.children]))) fun k => ?_
      exact .read fun w => w.store.index_ofValues o k
  | slice owner start? stop? pos =>
      simp only [Expr.children, List.mem_cons, List.mem_append, List.mem_map, Option.mem_toList] at hchildren
      refine .bind (h.eval hi (hchildren _ (.inl rfl))) fun o => ?_
      refine .bind (h.bound hi fun e he => hchildren _ (.inr (.inl ⟨e, he, rfl⟩))) fun s => ?_
      refine .bind (h.bound hi fun e he => hchildren _ (.inr (.inr ⟨e, he, rfl⟩))) fun t => ?_
      refine .make (fun store => store.slice_ofValues o s t) fun store v store' hslice => ?_
      obtain ⟨arrays, rfl⟩ := Store.slice_cases hslice
      exact ⟨rfl, .changed store arrays _⟩
  | choose subject arms pos =>
      refine .bind (h.choose hi hnode) fun flow => ?_
      cases flow with
      | normal v => exact .pure _
      | ret v => exact .fail (by simp)
      | leave => exact .fail (by simp)

/-! ### Statements -/

theorem declareVariants (enum : String) (hi : K i) (members : Dict String Value) (variants : List VariantDecl) :
    Run.Composed P K (Evaluator.declareVariants enum i members variants) := by
  induction variants generalizing members with
  | nil => exact .pure _
  | cons v rest ih =>
      have hnew : Run.Composed P K (Run.create (Evaluator.newVariant enum v)) := by
        refine .create (fun s => ?_) fun s => .newVariantDecl s enum v
        unfold Evaluator.newVariant
        split
        · rfl
        · rfl
      exact .bind hnew fun value => .bind (.define hi _ _) fun _ => ih _

theorem declareEnum (name : String) (variants : List VariantDecl) (hi : K i) :
    Run.Composed P K (Evaluator.declareEnum name variants i) := by
  refine .bind (declareVariants name hi {} variants) fun _ => ?_
  exact .bind (.create (fun _ => rfl) fun s => .newPrototype s _) fun _ => .define hi _ _

theorem declareFunction (name : String) (params : List String) {body : List Stmt} (hi : K i)
    (hbody : ∀ s ∈ body, (Node.stmt s).Every P) :
    Run.Composed P K (Evaluator.declareFunction name params body i) := by
  have hsplit : Evaluator.declareFunction name params body i =
      (do Run.modifyScopes (·.capture i); Run.create (·.newClosure ⟨name, params, body, i⟩)) >>= fun f => do
        Run.modifyScopes (·.define i name f)
        return f := by
    rw [bind_assoc]
    rfl
  rw [hsplit]
  exact .bind (.function (c := ⟨name, params, body, i⟩) hi hbody) fun f => .bind (.define hi _ _) fun _ => .pure _

theorem execStmt (h : ev.Composed P) (hi : K i) {s : Stmt} (hnode : (Node.stmt s).Every P) :
    Run.Composed P K (ev.execStmt s i) := by
  obtain ⟨-, hchildren⟩ := Node.every_iff.1 hnode
  simp only [Node.children] at hchildren
  cases s with
  | declare name value pos =>
      exact .bind (h.eval hi (hchildren _ (by simp [Stmt.children]))) fun _ => .bind (.define hi _ _) fun _ => .pure _
  | function name params body pos =>
      refine .bind (declareFunction name params hi fun s hs => hchildren _ ?_) fun _ => .pure _
      exact List.mem_map_of_mem hs
  | ret value? pos =>
      cases value? with
      | none => exact .pure _
      | some e => exact .bind (h.eval hi (hchildren _ (by simp [Stmt.children]))) fun _ => .pure _
  | cond test body bodyPos other? pos =>
      simp only [Stmt.children, List.mem_cons, List.mem_append, List.mem_map, Option.mem_toList] at hchildren
      refine .bind (h.eval hi (hchildren _ (.inl rfl))) fun v => ?_
      split
      · exact h.block hi (fun s hs => hchildren _ (.inr (.inl ⟨s, hs, rfl⟩))) _
      · cases other? with
        | none => exact .pure _
        | some other => exact h.exec hi (hchildren _ (.inr (.inr ⟨other, rfl, rfl⟩)))
  | loop body bodyPos pos =>
      refine .bind (h.block hi (fun s hs => hchildren _ (List.mem_map_of_mem hs)) _) fun flow => ?_
      cases flow with
      | normal v => exact h.exec hi hnode
      | ret v => exact .pure _
      | leave => exact .pure _
  | leave pos => exact .pure _
  | block stmts pos => exact h.block hi (fun s hs => hchildren _ (List.mem_map_of_mem hs)) _
  | enum name variants pos => exact .bind (declareEnum name variants hi) fun _ => .pure _
  | frame kind param? body pos =>
      exact .bind (.register kind hi fun s hs => hchildren _ (List.mem_map_of_mem hs)) fun _ => .pure _
  | expr e =>
      have he : (Node.expr e).Every P := hchildren _ (by simp [Stmt.children])
      cases e with
      | choose subject arms pos => exact h.choose hi he
      | _ => exact .bind (h.eval hi he) fun _ => .pure _

end Evaluator.Composed

/-! ## Whole runs -/

theorem evaluator_composed (P : Node → Prop) (fuel : Nat) : (evaluator fuel).Composed P := by
  induction fuel with
  | zero => exact ⟨fun _ _ => .abort _, fun _ _ => .abort _⟩
  | succ fuel ih => exact ⟨fun hi he => .within hi (ih.evalExpr hi he), fun hi hs => .within hi (ih.execStmt hi hs)⟩

namespace Run.Composed

variable {P : Node → Prop} {K : ScopeId → Prop}

theorem topLevel (fuel : Nat) (hglobal : K .global) {p : Program} (hp : ∀ s ∈ p, (Node.stmt s).Every P)
    (last : Value) : Composed P K (Run.topLevel (evaluator fuel) last p) := by
  induction p generalizing last with
  | nil => exact .pure _
  | cons s rest ih =>
      refine .bind ((evaluator_composed P fuel).exec hglobal (hp s List.mem_cons_self)) fun flow => ?_
      cases flow with
      | normal v => exact ih (fun s hs => hp s (List.mem_cons_of_mem _ hs)) v
      | ret v => exact .fail (by simp)
      | leave => exact .fail (by simp)

theorem program (fuel : Nat) (hglobal : K .global) {p : Program} (hp : ∀ s ∈ p, (Node.stmt s).Every P) :
    Composed P K (Run.program fuel p) := by
  refine .bind (topLevel fuel hglobal hp .null) fun v => ?_
  exact .bind (.quiet fun w => ⟨rfl, rfl, rfl, rfl, .refl w.store⟩) fun _ => .pure _

theorem frameBlock (fuel : Nat) {r : Registration} (hi : K r.scope) (hbody : ∀ s ∈ r.body, (Node.stmt s).Every P)
    (bindings : List (String × Value)) : Composed P K (Run.frameBlock fuel r bindings) := by
  refine .bind (.inScope hi _ fun j => (evaluator_composed P fuel).block (.inl rfl) hbody _) fun flow => ?_
  cases flow with
  | normal v => exact .pure _
  | ret v => exact .pure _
  | leave => exact .fail (by simp)

theorem updateBlock (fuel : Nat) (dt : Float) : Composed P K (Run.updateBlock fuel dt) := by
  refine .look fun w hw => ?_
  cases hr : w.update? with
  | none => exact .pure _
  | some r => exact .frameBlock fuel (.inr (.inr ⟨_, .update hr⟩)) (hw _ _ (.update hr)) _

theorem drawBlock (fuel : Nat) : Composed P K (Run.drawBlock fuel) := by
  refine .look fun w hw => ?_
  cases hr : w.draw? with
  | none => exact .pure _
  | some r => exact .frameBlock fuel (.inr (.inr ⟨_, .draw hr⟩)) (hw _ _ (.draw hr)) _

end Run.Composed

end Cairn
