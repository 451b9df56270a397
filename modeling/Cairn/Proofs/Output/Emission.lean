import Cairn.Proofs.History
import Cairn.Proofs.Native.Effects
import Cairn.Session

/-!
# What a computation puts out

The emissions of the natives that a computation calls, first to last, and the output that it takes meanwhile. Both
are told from the calls and the takings alone, without a look at the output that waits; yet what is taken, and after
it what waits in the end, is what waited in the beginning and after it the emissions.
-/

namespace Cairn

/-! ## Steps of evaluation that call no native -/

inductive Run.Silent : {α : Type} → Run α → Prop where
  | fail {α : Type} (cause : Fault.Cause) (line : Nat) : Silent (Run.fail cause line : Run α)
  | abort {α : Type} (why : Abort) : Silent (Run.abort why : Run α)
  | world : Silent Run.world
  | scopes (f : Arena → Arena) : Silent (Run.modifyScopes f)
  | openScope (parent : ScopeId) : Silent (Run.openScope parent)
  | create (f : Store → Value × Store) : Silent (Run.create f)
  | make (line : Nat) (f : Store → Except Fault.Cause (Value × Store)) : Silent (Run.make line f)
  | read {α : Type} (line : Nat) (f : World → Except Fault.Cause α) : Silent (Run.read line f)
  | assign (line : Nat) (p : Place) (scope : ScopeId) (v : Value) :
      Silent (Run.write line fun w => p.write w scope v)
  | draw (r : Registration) : Silent (Run.modify fun w => { w with draw? := some r })
  | update (r : Registration) : Silent (Run.modify fun w => { w with update? := some r })
  | last (v : Value) : Silent (Run.modify fun w => { w with last := v })
  | device (dt : Float) : Silent (Run.updateDevice dt)

theorem Run.Silent.pending {α : Type} {m : Run α} (h : m.Silent) {w w' : World} (hw : (m w).world? = some w') :
    w'.host.pending = w.host.pending := by
  cases h with
  | fail cause line => cases hw; rfl
  | abort why => cases hw
  | world => cases hw; rfl
  | scopes f => cases hw; rfl
  | openScope parent => cases hw; rfl
  | create f => cases hw; rfl
  | make line f =>
      simp only [Run.make, Run.step] at hw
      cases hf : f w.store with
      | ok r => rw [hf] at hw; cases hw; rfl
      | error cause => rw [hf] at hw; cases hw; rfl
  | read line f =>
      simp only [Run.read, Run.step] at hw
      cases hf : f w with
      | ok r => rw [hf] at hw; cases hw; rfl
      | error cause => rw [hf] at hw; cases hw; rfl
  | assign line p scope v =>
      simp only [Run.write, Run.step] at hw
      cases hp : p.write w scope v with
      | ok w₁ =>
          rw [hp] at hw
          cases hw
          obtain ⟨scopes, rfl⟩ | ⟨arrays, prototypes, rfl⟩ := Place.write_cases hp
          · rfl
          · rfl
      | error cause => rw [hp] at hw; cases hw; rfl
  | draw r => cases hw; rfl
  | update r => cases hw; rfl
  | last v => cases hw; rfl
  | device dt => cases hw; rfl

/-! ## Emissions and takings -/

/-- Started in `w`, the computation calls natives that put out `emitted`, and takes the output `taken`. -/
inductive Run.Emits : {α : Type} → Run α → World → (emitted taken : Frame) → Prop where
  | pure {α : Type} (a : α) (w : World) : Emits (Pure.pure a) w {} {}
  | silent {α : Type} {m : Run α} (h : m.Silent) (w : World) : Emits m w {} {}
  | answered {c : NativeCall} {n : Native} {w : World} {v : Value} (hn : Native.find? c = some n)
      (h : (n w.host).1 = .ok v) : Emits (Run.native n) w (Native.emission c w.store) {}
  | refused {c : NativeCall} {n : Native} {w : World} {e : Failure} (hn : Native.find? c = some n)
      (h : (n w.host).1 = .error e) : Emits (Run.native n) w {} {}
  | take (w : World) : Emits Run.takeOutput w {} w.host.pending
  | bind {α β : Type} {m : Run α} {k : α → Run β} {w w' : World} {a : α} {e e' t t' : Frame}
      (hm : Emits m w e t) (h : m w = .ok a w') (hk : Emits (k a) w' e' t') :
      Emits (m >>= k) w (e'.after e) (t'.after t)
  | stop {α β : Type} {m : Run α} {k : α → Run β} {w : World} {e t : Frame}
      (hm : Emits m w e t) (h : ∀ a w', m w ≠ .ok a w') : Emits (m >>= k) w e t
  | within {α : Type} {m : Run α} {w : World} {e t : Frame} (scope : ScopeId)
      (hm : Emits m w e t) : Emits (Run.within scope m) w e t
  | releasing {α : Type} {m : Run α} {w : World} {e t : Frame} (scope : ScopeId)
      (hm : Emits m w e t) : Emits (Run.releasing scope m) w e t
  | attempt {α : Type} {m : Run α} {w : World} {e t : Frame} (hm : Emits m w e t) : Emits m.attempt w e t

theorem Run.native_pending {c : NativeCall} {n : Native} (hn : Native.find? c = some n) {w w' : World}
    (hw : (Run.native n w).world? = some w') {v : Value} (h : (n w.host).1 = .ok v) :
    w'.host.pending = (Native.emission c w.store).after w.host.pending := by
  have hobeys := Native.find?_obeys hn w.host
  simp only [Run.native, Run.step] at hw
  rcases hr : n w.host with ⟨answer, host⟩
  rw [hr] at h hw hobeys
  cases h
  cases hw
  exact hobeys.pending

/-- A native that fails has put out nothing. -/
theorem Run.native_pending_of_error {c : NativeCall} {n : Native} (hn : Native.find? c = some n) {w w' : World}
    (hw : (Run.native n w).world? = some w') {e : Failure} (h : (n w.host).1 = .error e) :
    w'.host.pending = w.host.pending := by
  have hobeys := Native.find?_obeys hn w.host
  simp only [Run.native, Run.step] at hw
  rcases hr : n w.host with ⟨answer, host⟩
  rw [hr] at h hw hobeys
  cases h
  cases e with
  | fault f =>
      cases hw
      exact congrArg Host.pending hobeys.2
  | abort why => cases hw

/-- Nothing that is put out is lost, doubled or moved. -/
theorem Run.Emits.conserved {α : Type} {m : Run α} {w : World} {e t : Frame} (h : m.Emits w e t) {w' : World}
    (hw : (m w).world? = some w') : w'.host.pending.after t = e.after w.host.pending := by
  induction h generalizing w' with
  | pure a w => cases hw; simp
  | silent h w => simp [h.pending hw]
  | answered hn h => simp [Run.native_pending hn hw h]
  | refused hn h => simp [Run.native_pending_of_error hn hw h]
  | take w => cases hw; simp
  | @bind α β m k w w₁ a e e' t t' hm h hk ihm ihk =>
      rw [Run.run_bind, h] at hw
      have hfirst : w₁.host.pending.after t = e.after w.host.pending := ihm (by rw [h]; rfl)
      calc w'.host.pending.after (t'.after t)
          = (w'.host.pending.after t').after t := (Frame.after_after _ _ _).symm
        _ = (e'.after w₁.host.pending).after t := by rw [ihk hw]
        _ = e'.after (w₁.host.pending.after t) := Frame.after_after _ _ _
        _ = e'.after (e.after w.host.pending) := by rw [hfirst]
        _ = (e'.after e).after w.host.pending := (Frame.after_after _ _ _).symm
  | @stop α β m k w e t hm h ihm =>
      refine ihm ?_
      rw [Run.run_bind] at hw
      cases hr : m w with
      | ok a w₁ => exact (h a w₁ hr).elim
      | fault f w₁ => rw [hr] at hw; exact hw
      | abort why => rw [hr] at hw; exact hw
  | within scope hm ih => exact ih hw
  | @releasing α m w e t scope hm ih =>
      simp only [Run.releasing] at hw
      cases hr : m w with
      | ok a w₁ => rw [hr] at hw ih; cases hw; exact @ih w₁ rfl
      | fault f w₁ => rw [hr] at hw ih; cases hw; exact @ih w₁ rfl
      | abort why => rw [hr] at hw; cases hw
  | @attempt α m w e t hm ih =>
      simp only [Run.attempt] at hw
      cases hr : m w with
      | ok a w₁ => rw [hr] at hw ih; cases hw; exact ih rfl
      | fault f w₁ => rw [hr] at hw ih; cases hw; exact ih rfl
      | abort why => rw [hr] at hw; cases hw

/-! ## Evaluation takes nothing -/

/-- From every world, the computation puts out something, or nothing, and takes none of it. -/
def Run.Emitting {α : Type} (m : Run α) : Prop := ∀ w, ∃ emitted, m.Emits w emitted {}

namespace Run.Emitting

variable {α β : Type} {m : Run α} {k : α → Run β}

theorem pure (a : α) : (Pure.pure a : Run α).Emitting := fun w => ⟨{}, .pure a w⟩

theorem silent (h : m.Silent) : m.Emitting := fun w => ⟨{}, .silent h w⟩

theorem native {c : NativeCall} {n : Native} (hn : Native.find? c = some n) : (Run.native n).Emitting := by
  intro w
  cases h : (n w.host).1 with
  | ok v => exact ⟨_, .answered hn h⟩
  | error e => exact ⟨{}, .refused hn h⟩

theorem bind (hm : m.Emitting) (hk : ∀ a, (k a).Emitting) : (m >>= k).Emitting := by
  intro w
  obtain ⟨e, he⟩ := hm w
  cases h : m w with
  | ok a w' =>
      obtain ⟨e', he'⟩ := hk a w'
      exact ⟨_, by simpa using he.bind h he'⟩
  | fault f w' => exact ⟨e, he.stop (by simp [h])⟩
  | abort why => exact ⟨e, he.stop (by simp [h])⟩

theorem text (v : Value) : (Run.text v).Emitting := by
  refine bind (silent .world) fun w => ?_
  cases w.store.display v with
  | some text => exact pure text
  | none => exact silent (.abort _)

theorem within (scope : ScopeId) (h : m.Emitting) : (Run.within scope m).Emitting := by
  intro w
  obtain ⟨e, he⟩ := h w
  exact ⟨e, he.within scope⟩

theorem releasing (scope : ScopeId) (h : m.Emitting) : (Run.releasing scope m).Emitting := by
  intro w
  obtain ⟨e, he⟩ := h w
  exact ⟨e, he.releasing scope⟩

theorem define (scope : ScopeId) (name : String) (v : Value) :
    (Run.modifyScopes (·.define scope name v)).Emitting := silent (.scopes _)

theorem bindAll (scope : ScopeId) (bindings : List (String × Value)) : (Run.bindAll scope bindings).Emitting := by
  induction bindings with
  | nil => exact pure ()
  | cons binding rest ih => exact bind (define scope _ _) fun _ => ih

theorem inScope (parent : ScopeId) (bindings : List (String × Value)) {body : ScopeId → Run α}
    (h : ∀ scope, (body scope).Emitting) : (Run.inScope parent bindings body).Emitting := by
  refine bind (silent (.openScope parent)) fun scope => releasing scope (within scope ?_)
  exact bind (bindAll scope bindings) fun _ => h scope

theorem each {f : α → Run β} (h : ∀ a, (f a).Emitting) (items : List α) : (Run.each f items).Emitting := by
  induction items with
  | nil => exact pure []
  | cons a rest ih => exact bind (h a) fun b => bind ih fun bs => pure (b :: bs)

theorem eachEntry {f : α → Run β} (h : ∀ a, (f a).Emitting) (entries : List (String × α)) :
    (Run.eachEntry f entries).Emitting := by
  induction entries with
  | nil => exact pure []
  | cons entry rest ih =>
      obtain ⟨key, a⟩ := entry
      exact bind (h a) fun b => bind ih fun bs => pure ((key, b) :: bs)

end Run.Emitting

structure Evaluator.Emitting (ev : Evaluator) : Prop where
  eval : ∀ e i, (ev.eval e i).Emitting
  exec : ∀ s i, (ev.exec s i).Emitting

namespace Evaluator.Emitting

variable {ev : Evaluator}

theorem block (h : ev.Emitting) (i : ScopeId) (last : Value) (stmts : List Stmt) :
    (ev.block i last stmts).Emitting := by
  induction stmts generalizing last with
  | nil => exact .pure _
  | cons s rest ih =>
      refine .bind (h.exec s i) fun flow => ?_
      cases flow with
      | normal v => exact ih v
      | ret v => exact .pure _
      | leave => exact .pure _

/-! ## Calls -/

theorem callClosure (h : ev.Emitting) (f : Closure) (positional : List Value) (named : List (String × Value))
    (line : Nat) : (ev.callClosure f positional named line).Emitting := by
  refine .bind (.silent (.read _ _)) fun args => ?_
  refine .bind (.inScope _ _ fun scope => h.block scope _ _) fun flow => ?_
  cases flow with
  | normal v => exact .pure _
  | ret v => exact .pure _
  | leave => exact .silent (.fail _ _)

theorem construct (c : Constructor) (positional : List Value) (named : List (String × Value)) (line : Nat) :
    (Evaluator.construct c positional named line).Emitting :=
  .bind (.silent (.read _ _)) fun _ => .silent (.create _)

theorem callNative (sig : Signature) (positional : List Value) (named : List (String × Value)) (line : Nat) :
    (Evaluator.callNative sig positional named line).Emitting := by
  refine .bind (.silent (.read _ _)) fun args => ?_
  cases hn : Native.find? ⟨sig.name, args, line⟩ with
  | some n => exact .native hn
  | none => exact .silent (.fail _ _)

theorem call (h : ev.Emitting) (callee : Value) (positional : List Value) (named : List (String × Value))
    (line : Nat) : (ev.call callee positional named line).Emitting := by
  refine .bind (.silent .world) fun w => ?_
  cases callee with
  | native sig => exact callNative sig positional named line
  | function ref => exact h.callClosure _ positional named line
  | constructor ref => exact construct _ positional named line
  | _ => exact .silent (.fail _ _)

/-! ## Matches -/

theorem armBody (h : ev.Emitting) (i : ScopeId) (body : ArmBody) : (ev.armBody i body).Emitting := by
  cases body with
  | block stmts pos =>
      refine .bind (h.block i _ stmts) fun flow => ?_
      cases flow with
      | normal v => exact .pure _
      | ret v => exact .pure _
      | leave => exact .pure _
  | expr e => exact .bind (h.eval e i) fun _ => .pure _

theorem choose (h : ev.Emitting) (subject : Expr) (arms : List Arm) (pos : Position) (i : ScopeId) :
    (ev.choose subject arms pos i).Emitting := by
  refine .bind (h.eval subject i) fun v => .bind (.silent .world) fun w => ?_
  cases Evaluator.firstArm? w.store v arms with
  | some arm => exact .inScope _ _ fun scope => h.armBody scope arm.2
  | none => exact .bind (.text v) fun _ => .silent (.fail _ _)

/-! ## Expressions -/

theorem place (h : ev.Emitting) (target : Expr) (i : ScopeId) : (ev.place target i).Emitting := by
  cases target with
  | name name pos => exact .pure _
  | index object key pos => exact .bind (h.eval object i) fun _ => .bind (h.eval key i) fun _ => .pure _
  | member object property pos => exact .bind (h.eval object i) fun _ => .pure _
  | _ => exact .silent (.fail _ _)

theorem operate (op : BinaryOp) (l r : Value) (line : Nat) : (Evaluator.operate op l r line).Emitting := by
  unfold Evaluator.operate
  split
  · exact .bind (.text l) fun _ => .bind (.text r) fun _ => .pure _
  · exact .silent (.read _ _)

theorem assign (h : ev.Emitting) (target : Expr) (op? : Option BinaryOp) (value : Expr) (line : Nat)
    (i : ScopeId) : (ev.assign target op? value line i).Emitting := by
  refine .bind (h.place target i) fun p => .bind (h.eval value i) fun right => ?_
  have hend (new : Value) : Run.Emitting (do Run.write line (p.write · i new); return new) :=
    .bind (.silent (.assign line p i new)) fun _ => .pure _
  cases op? with
  | none => exact .bind (.pure right) hend
  | some op => exact .bind (.silent (.read _ _)) fun current => .bind (operate op current right line) hend

theorem step (h : ev.Emitting) (direction : Direction) (early : Bool) (target : Expr) (line : Nat)
    (i : ScopeId) : (ev.step direction early target line i).Emitting := by
  refine .bind (h.place target i) fun p => .bind (.silent (.read _ _)) fun old => ?_
  cases old with
  | number n => exact .bind (.silent (.assign _ _ _ _)) fun _ => .pure _
  | _ => exact .silent (.fail _ _)

theorem bound (h : ev.Emitting) (e? : Option Expr) (i : ScopeId) : (ev.bound e? i).Emitting := by
  cases e? with
  | none => exact .pure _
  | some e => exact h.eval e i

theorem evalExpr (h : ev.Emitting) (e : Expr) (i : ScopeId) : (ev.evalExpr e i).Emitting := by
  cases e with
  | number n pos => exact .pure _
  | text s pos => exact .pure _
  | bool b pos => exact .pure _
  | null pos => exact .pure _
  | fresh pos =>
      simp only [Evaluator.evalExpr]
      exact .silent (.create _)
  | name name pos => exact .silent (.read _ _)
  | array items pos => exact .bind (.each (h.eval · i) items) fun _ => .silent (.create _)
  | object entries pos => exact .bind (.eachEntry (h.eval · i) entries) fun _ => .silent (.create _)
  | assign target op? value pos => exact h.assign target op? value _ i
  | logical op left right pos =>
      refine .bind (h.eval left i) fun l => ?_
      cases op <;> cases l.isTruthy
      · exact .pure _
      · exact h.eval right i
      · exact h.eval right i
      · exact .pure _
  | binary op left right pos =>
      exact .bind (h.eval left i) fun l => .bind (h.eval right i) fun r => operate op l r _
  | unary op operand pos => exact .bind (h.eval operand i) fun _ => .silent (.read _ _)
  | step direction early target pos => exact h.step direction early target _ i
  | call callee args named pos =>
      refine .bind (h.eval callee i) fun f => .bind (.each (h.eval · i) args) fun vs => ?_
      exact .bind (.eachEntry (h.eval · i) named) fun ks => h.call f vs ks _
  | member object property pos => exact .bind (h.eval object i) fun _ => .silent (.read _ _)
  | index object key pos =>
      exact .bind (h.eval object i) fun _ => .bind (h.eval key i) fun _ => .silent (.read _ _)
  | slice object start? stop? pos =>
      refine .bind (h.eval object i) fun _ => .bind (h.bound start? i) fun _ => ?_
      exact .bind (h.bound stop? i) fun _ => .silent (.make _ _)
  | choose subject arms pos =>
      refine .bind (h.choose subject arms pos i) fun flow => ?_
      cases flow with
      | normal v => exact .pure _
      | ret v => exact .silent (.fail _ _)
      | leave => exact .silent (.fail _ _)

/-! ## Statements -/

theorem declareVariants (enum : String) (i : ScopeId) (members : Dict String Value) (variants : List VariantDecl) :
    (Evaluator.declareVariants enum i members variants).Emitting := by
  induction variants generalizing members with
  | nil => exact .pure _
  | cons v rest ih => exact .bind (.silent (.create _)) fun _ => .bind (.define i _ _) fun _ => ih _

theorem declareEnum (name : String) (variants : List VariantDecl) (i : ScopeId) :
    (Evaluator.declareEnum name variants i).Emitting := by
  refine .bind (declareVariants name i {} variants) fun _ => ?_
  exact .bind (.silent (.create _)) fun _ => .define i _ _

theorem declareFunction (name : String) (params : List String) (body : List Stmt) (i : ScopeId) :
    (Evaluator.declareFunction name params body i).Emitting := by
  refine .bind (.silent (.scopes _)) fun _ => .bind (.silent (.create _)) fun _ => ?_
  exact .bind (.define i _ _) fun _ => .pure _

theorem register (kind : FrameKind) (r : Registration) : (Evaluator.register kind r).Emitting := by
  refine .bind (.silent (.scopes _)) fun _ => ?_
  cases kind with
  | draw => exact .silent (.draw r)
  | update => exact .silent (.update r)

theorem execStmt (h : ev.Emitting) (s : Stmt) (i : ScopeId) : (ev.execStmt s i).Emitting := by
  cases s with
  | declare name value pos => exact .bind (h.eval value i) fun _ => .bind (.define i _ _) fun _ => .pure _
  | function name params body pos => exact .bind (declareFunction name params body i) fun _ => .pure _
  | ret value? pos =>
      cases value? with
      | none => exact .pure _
      | some e => exact .bind (h.eval e i) fun _ => .pure _
  | cond test body bodyPos other? pos =>
      refine .bind (h.eval test i) fun v => ?_
      split
      · exact h.block i _ body
      · cases other? with
        | none => exact .pure _
        | some other => exact h.exec other i
  | loop body bodyPos pos =>
      refine .bind (h.block i _ body) fun flow => ?_
      cases flow with
      | normal v => exact h.exec _ i
      | ret v => exact .pure _
      | leave => exact .pure _
  | leave pos => exact .pure _
  | block stmts pos => exact h.block i _ stmts
  | enum name variants pos => exact .bind (declareEnum name variants i) fun _ => .pure _
  | frame kind param? body pos => exact .bind (register kind _) fun _ => .pure _
  | expr e =>
      cases e with
      | choose subject arms pos => exact h.choose subject arms pos i
      | _ => exact .bind (h.eval _ i) fun _ => .pure _

end Evaluator.Emitting

/-! ## Whole runs -/

theorem evaluator_emitting (fuel : Nat) : (evaluator fuel).Emitting := by
  induction fuel with
  | zero => exact ⟨fun _ _ => .silent (.abort _), fun _ _ => .silent (.abort _)⟩
  | succ fuel ih => exact ⟨fun e i => .within i (ih.evalExpr e i), fun s i => .within i (ih.execStmt s i)⟩

namespace Run.Emitting

theorem topLevel (fuel : Nat) (last : Value) (p : Program) :
    (Run.topLevel (evaluator fuel) last p).Emitting := by
  induction p generalizing last with
  | nil => exact pure _
  | cons s rest ih =>
      refine bind ((evaluator_emitting fuel).exec s .global) fun flow => ?_
      cases flow with
      | normal v => exact ih v
      | ret v => exact silent (.fail _ _)
      | leave => exact silent (.fail _ _)

theorem program (fuel : Nat) (p : Program) : (Run.program fuel p).Emitting :=
  bind (topLevel fuel .null p) fun v => bind (silent (.last v)) fun _ => pure _

theorem frameBlock (fuel : Nat) (r : Registration) (bindings : List (String × Value)) :
    (Run.frameBlock fuel r bindings).Emitting := by
  refine bind (inScope _ _ fun scope => (evaluator_emitting fuel).block scope _ _) fun flow => ?_
  cases flow with
  | normal v => exact pure _
  | ret v => exact pure _
  | leave => exact silent (.fail _ _)

theorem updateBlock (fuel : Nat) (dt : Float) : (Run.updateBlock fuel dt).Emitting := by
  refine bind (silent .world) fun w => ?_
  cases w.update? with
  | none => exact pure _
  | some r => exact frameBlock fuel r _

theorem drawBlock (fuel : Nat) : (Run.drawBlock fuel).Emitting := by
  refine bind (silent .world) fun w => ?_
  cases w.draw? with
  | none => exact pure _
  | some r => exact frameBlock fuel r _

end Run.Emitting

end Cairn
