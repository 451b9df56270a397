import Cairn.Proofs.Alike.Simulation

/-!
# Evaluation side by side

An evaluator is uniform when it cannot tell apart the worlds of a stage: in scopes that stand for each
other it gives computations that are alike. Each rule of evaluation is uniform if the evaluator for what is
nested in it is, so `evaluator fuel` is uniform by induction on the fuel.
-/

namespace Cairn

open Sides

variable {S : Type} [Simulation S]

structure Evaluator.Uniform (S : Type) [Simulation S] (ev : Evaluator) : Prop where
  eval : ∀ {σ : S} {i j : ScopeId} (e : Expr), Same σ i j → Run.Alike σ (ev.eval e i) (ev.eval e j)
  exec : ∀ {σ : S} {i j : ScopeId} (s : Stmt), Same σ i j → Run.Alike σ (ev.exec s i) (ev.exec s j)

theorem Simulation.store (σ : S) : (left σ).store.Alike (Kept σ) (right σ).store := (host σ).store

/-! ## Places -/

namespace Place

variable {σ : S} {i j : ScopeId}

theorem read_alike (hij : Same σ i j) (p : Place) : p.read (right σ) j = p.read (left σ) i := by
  cases p with
  | var name => simp only [Place.read, Simulation.get?_eq name hij]
  | index object key => exact (Simulation.store σ).index object key
  | member object property => exact (Simulation.store σ).member object property

theorem write_alike (hij : Same σ i j) (v : Value) (p : Place) :
    Except.Alike (Next σ) (p.write (left σ) i v) (p.write (right σ) j v) := by
  have hs := Simulation.store σ
  cases p with
  | var name => exact .ok (Simulation.set name v hij)
  | index object key =>
      cases object with
      | array ref =>
          simp only [Place.write, hs.items]
          exact .bind _ fun p => .ok (Run.Alike.setStore (hs.modifyItems ref _))
      | prototype ref =>
          cases key with
          | text k => exact .ok (Run.Alike.setStore (hs.modifyEntries ref _))
          | _ => exact .error _
      | _ => exact .error _
  | member object property =>
      cases object with
      | prototype ref => exact .ok (Run.Alike.setStore (hs.modifyEntries ref _))
      | _ => exact .error _

end Place

namespace Evaluator.Uniform

open Simulation

variable {ev : Evaluator} {σ : S} {i j : ScopeId}

theorem block (h : ev.Uniform S) (hij : Same σ i j) (last : Value) (stmts : List Stmt) :
    Run.Alike σ (ev.block i last stmts) (ev.block j last stmts) := by
  induction stmts generalizing σ last with
  | nil => exact .pure _
  | cons s rest ih =>
      refine .bind (h.exec s hij) fun τ hτ flow => ?_
      cases flow with
      | normal v => exact ih (same_mono hτ hij) v
      | ret v => exact .pure _
      | leave => exact .pure _

/-! ## Calls -/

theorem callClosure (h : ev.Uniform S) {f f' : Closure} (hf : f.Alike (Kept σ) f') (positional : List Value)
    (named : List (String × Value)) (line : Nat) :
    Run.Alike σ (ev.callClosure f positional named line) (ev.callClosure f' positional named line) := by
  simp only [Evaluator.callClosure, hf.name, hf.params, hf.body]
  refine .bind (.read line rfl) fun τ hτ args => ?_
  have hscope := same_of_kept (kept_mono hτ hf.scope)
  refine .bind (.inScope hscope _ fun υ k l hkl => h.block hkl _ _) fun υ _ flow => ?_
  cases flow with
  | normal v => exact .pure _
  | ret v => exact .pure _
  | leave => exact .fail _ _

theorem construct (c : Constructor) (positional : List Value) (named : List (String × Value)) (line : Nat) :
    Run.Alike σ (Evaluator.construct c positional named line) (Evaluator.construct c positional named line) :=
  .bind (.read line rfl) fun τ _ _ => .create ((store τ).newVariant _)

theorem callNative (sig : Signature) (positional : List Value) (named : List (String × Value)) (line : Nat) :
    Run.Alike σ (Evaluator.callNative sig positional named line)
      (Evaluator.callNative sig positional named line) := by
  refine .bind (.read line rfl) fun τ _ args => ?_
  cases hn : Native.find? ⟨sig.name, args, line⟩ with
  | some n => exact .native (Native.find?_uniform hn)
  | none => exact .fail _ _

theorem call (h : ev.Uniform S) (callee : Value) (positional : List Value) (named : List (String × Value))
    (line : Nat) :
    Run.Alike σ (ev.call callee positional named line) (ev.call callee positional named line) := by
  refine .world ?_
  cases callee with
  | native sig => exact callNative sig positional named line
  | function ref => exact h.callClosure ((store σ).closure ref) positional named line
  | constructor ref =>
      simp only [(store σ).constructor]
      exact construct _ positional named line
  | _ => exact .fail _ _

/-! ## Matches -/

theorem armBody (h : ev.Uniform S) (hij : Same σ i j) (body : ArmBody) :
    Run.Alike σ (ev.armBody i body) (ev.armBody j body) := by
  cases body with
  | block stmts pos =>
      refine .bind (h.block hij _ _) fun τ _ flow => ?_
      cases flow with
      | normal v => exact .pure _
      | ret v => exact .pure _
      | leave => exact .pure _
  | expr e => exact .bind (h.eval e hij) fun τ _ v => .pure _

theorem choose (h : ev.Uniform S) (hij : Same σ i j) (subject : Expr) (arms : List Arm) (pos : Position) :
    Run.Alike σ (ev.choose subject arms pos i) (ev.choose subject arms pos j) := by
  refine .bind (h.eval subject hij) fun τ hτ v => .world ?_
  simp only [(store τ).firstArm?]
  cases Evaluator.firstArm? (left τ).store v arms with
  | some arm => exact .inScope (same_mono hτ hij) arm.1 fun υ k l hkl => h.armBody hkl arm.2
  | none => exact .bind (.text v) fun _ _ _ => .fail _ _

/-! ## Expressions -/

theorem place (h : ev.Uniform S) (hij : Same σ i j) (target : Expr) :
    Run.Alike σ (ev.place target i) (ev.place target j) := by
  cases target with
  | name name pos => exact .pure _
  | index object key pos =>
      refine .bind (h.eval object hij) fun τ hτ o => ?_
      exact .bind (h.eval key (same_mono hτ hij)) fun υ _ k => .pure _
  | member object property pos => exact .bind (h.eval object hij) fun τ _ o => .pure _
  | _ => exact .fail _ _

theorem operate (op : BinaryOp) (l r : Value) (line : Nat) :
    Run.Alike σ (Evaluator.operate op l r line) (Evaluator.operate op l r line) := by
  unfold Evaluator.operate
  split
  · exact .bind (.text l) fun _ _ a => .bind (.text r) fun _ _ b => .pure _
  · exact .read line rfl

theorem assign (h : ev.Uniform S) (hij : Same σ i j) (target : Expr) (op? : Option BinaryOp) (value : Expr)
    (line : Nat) :
    Run.Alike σ (ev.assign target op? value line i) (ev.assign target op? value line j) := by
  refine .bind (h.place hij target) fun τ hτ p => ?_
  refine .bind (h.eval value (same_mono hτ hij)) fun υ hυ right => ?_
  have hplace {ω : S} (hω : υ ≤ ω) := same_mono (le_trans (le_trans hτ hυ) hω) hij
  have hend {ω : S} (hω : υ ≤ ω) (new : Value) :
      Run.Alike ω (do Run.write line (p.write · i new); return new)
        (do Run.write line (p.write · j new); return new) :=
    .bind (.write line (p.write_alike (hplace hω) new)) fun _ _ _ => .pure _
  cases op? with
  | none => exact .bind (.pure right) fun ω hω new => hend hω new
  | some op =>
      refine .bind (.read line (p.read_alike (hplace le_rfl))) fun ω hω current => ?_
      exact .bind (operate op current right line) fun ω' hω' new => hend (le_trans hω hω') new

theorem step (h : ev.Uniform S) (hij : Same σ i j) (direction : Direction) (early : Bool) (target : Expr)
    (line : Nat) :
    Run.Alike σ (ev.step direction early target line i) (ev.step direction early target line j) := by
  refine .bind (h.place hij target) fun τ hτ p => ?_
  refine .bind (.read line (p.read_alike (same_mono hτ hij))) fun υ hυ old => ?_
  cases old with
  | number n =>
      refine .bind (.write line (p.write_alike (same_mono (le_trans hτ hυ) hij) _)) fun _ _ _ => .pure _
  | _ => exact .fail _ _

theorem bound (h : ev.Uniform S) (hij : Same σ i j) (e? : Option Expr) :
    Run.Alike σ (ev.bound e? i) (ev.bound e? j) := by
  cases e? with
  | none => exact .pure _
  | some e => exact h.eval e hij

theorem evalExpr (h : ev.Uniform S) (hij : Same σ i j) (e : Expr) :
    Run.Alike σ (ev.evalExpr e i) (ev.evalExpr e j) := by
  cases e with
  | number n pos => exact .pure _
  | text s pos => exact .pure _
  | bool b pos => exact .pure _
  | null pos => exact .pure _
  | fresh pos =>
      simp only [Evaluator.evalExpr]
      exact .create ((store σ).newPrototype _)
  | name name pos => exact .read _ (Place.read_alike hij (.var name))
  | array items pos =>
      refine .bind (.each (fun τ hτ e => h.eval e (same_mono hτ hij)) items) fun τ _ vs => ?_
      exact .create ((store τ).newArray _)
  | object entries pos =>
      refine .bind (.eachEntry (fun τ hτ e => h.eval e (same_mono hτ hij)) entries) fun τ _ vs => ?_
      exact .create ((store τ).newPrototype _)
  | assign target op? value pos => exact h.assign hij target op? value _
  | logical op left right pos =>
      refine .bind (h.eval left hij) fun τ hτ l => ?_
      -- the left operand decides alone, or the value is that of the right one
      cases op <;> cases l.isTruthy
      · exact .pure _
      · exact h.eval right (same_mono hτ hij)
      · exact h.eval right (same_mono hτ hij)
      · exact .pure _
  | binary op left right pos =>
      refine .bind (h.eval left hij) fun τ hτ l => ?_
      exact .bind (h.eval right (same_mono hτ hij)) fun υ _ r => operate op l r _
  | unary op operand pos => exact .bind (h.eval operand hij) fun τ _ v => .read _ rfl
  | step direction early target pos => exact h.step hij direction early target _
  | call callee args named pos =>
      refine .bind (h.eval callee hij) fun τ hτ f => ?_
      refine .bind (.each (fun υ hυ e => h.eval e (same_mono (le_trans hτ hυ) hij)) args) fun υ hυ vs => ?_
      have hle := le_trans hτ hυ
      refine .bind (.eachEntry (fun ω hω e => h.eval e (same_mono (le_trans hle hω) hij)) named) fun ω _ ks => ?_
      exact h.call f vs ks _
  | member object property pos =>
      refine .bind (h.eval object hij) fun τ _ o => ?_
      exact .read _ ((store τ).member o property)
  | index object key pos =>
      refine .bind (h.eval object hij) fun τ hτ o => ?_
      refine .bind (h.eval key (same_mono hτ hij)) fun υ _ k => ?_
      exact .read _ ((store υ).index o k)
  | slice object start? stop? pos =>
      refine .bind (h.eval object hij) fun τ hτ o => ?_
      refine .bind (h.bound (same_mono hτ hij) start?) fun υ hυ s => ?_
      refine .bind (h.bound (same_mono (le_trans hτ hυ) hij) stop?) fun ω _ e => ?_
      exact .make _ ((store ω).slice o s e)
  | choose subject arms pos =>
      refine .bind (h.choose hij subject arms pos) fun τ _ flow => ?_
      cases flow with
      | normal v => exact .pure _
      | ret v => exact .fail _ _
      | leave => exact .fail _ _

/-! ## Statements -/

theorem declareVariants (enum : String) (hij : Same σ i j) (members : Dict String Value)
    (variants : List VariantDecl) :
    Run.Alike σ (Evaluator.declareVariants enum i members variants)
      (Evaluator.declareVariants enum j members variants) := by
  induction variants generalizing σ members with
  | nil => exact .pure _
  | cons v rest ih =>
      refine .bind (.create ((store σ).newVariantDecl enum v)) fun τ hτ value => ?_
      refine .bind (.define (same_mono hτ hij) v.name value) fun υ hυ _ => ?_
      exact ih (same_mono (le_trans hτ hυ) hij) _

theorem declareEnum (name : String) (variants : List VariantDecl) (hij : Same σ i j) :
    Run.Alike σ (Evaluator.declareEnum name variants i) (Evaluator.declareEnum name variants j) := by
  refine .bind (declareVariants name hij {} variants) fun τ hτ members => ?_
  refine .bind (.create ((store τ).newPrototype members)) fun υ hυ value => ?_
  exact .define (same_mono (le_trans hτ hυ) hij) name value

theorem declareFunction (name : String) (params : List String) (body : List Stmt) (hij : Same σ i j) :
    Run.Alike σ (Evaluator.declareFunction name params body i)
      (Evaluator.declareFunction name params body j) := by
  refine .captured hij fun τ hτ hkept => ?_
  refine .bind (.create ((store τ).newClosure ⟨rfl, rfl, rfl, hkept⟩)) fun υ hυ f => ?_
  exact .bind (.define (same_mono (le_trans hτ hυ) hij) name f) fun _ _ _ => .pure _

theorem register (kind : FrameKind) (param? : Option String) (body : List Stmt) (line : Nat) (hij : Same σ i j) :
    Run.Alike σ (Evaluator.register kind ⟨param?, body, line, i⟩)
      (Evaluator.register kind ⟨param?, body, line, j⟩) := by
  refine .captured hij fun τ _ hkept => ?_
  cases kind with
  | draw => exact .modify (setDraw ⟨rfl, rfl, rfl, hkept⟩)
  | update => exact .modify (setUpdate ⟨rfl, rfl, rfl, hkept⟩)

theorem execStmt (h : ev.Uniform S) (hij : Same σ i j) (s : Stmt) :
    Run.Alike σ (ev.execStmt s i) (ev.execStmt s j) := by
  cases s with
  | declare name value pos =>
      refine .bind (h.eval value hij) fun τ hτ v => ?_
      exact .bind (.define (same_mono hτ hij) name v) fun _ _ _ => .pure _
  | function name params body pos => exact .bind (declareFunction name params body hij) fun _ _ _ => .pure _
  | ret value? pos =>
      cases value? with
      | none => exact .pure _
      | some e => exact .bind (h.eval e hij) fun _ _ _ => .pure _
  | cond test body bodyPos other? pos =>
      refine .bind (h.eval test hij) fun τ hτ v => ?_
      have hτij := same_mono hτ hij
      cases other? with
      | none =>
          cases hv : v.isTruthy <;> simp only [Bool.false_eq_true, if_true, if_false]
          · exact .pure _
          · exact h.block hτij _ body
      | some other =>
          cases hv : v.isTruthy <;> simp only [Bool.false_eq_true, if_true, if_false]
          · exact h.exec other hτij
          · exact h.block hτij _ body
  | loop body bodyPos pos =>
      refine .bind (h.block hij _ body) fun τ hτ flow => ?_
      cases flow with
      | normal v => exact h.exec (.loop body bodyPos pos) (same_mono hτ hij)
      | ret v => exact .pure _
      | leave => exact .pure _
  | leave pos => exact .pure _
  | block stmts pos => exact h.block hij _ stmts
  | enum name variants pos => exact .bind (declareEnum name variants hij) fun _ _ _ => .pure _
  | frame kind param? body pos => exact .bind (register kind param? body _ hij) fun _ _ _ => .pure _
  | expr e =>
      cases e with
      | choose subject arms pos => exact h.choose hij subject arms pos
      | _ => exact .bind (h.eval _ hij) fun _ _ _ => .pure _

end Evaluator.Uniform

/-! ## Whole runs -/

theorem evaluator_uniform (fuel : Nat) : (evaluator fuel).Uniform S := by
  induction fuel with
  | zero => exact ⟨fun e _ => .abort _, fun s _ => .abort _⟩
  | succ fuel ih =>
      exact ⟨fun e hij => .within hij (ih.evalExpr hij e), fun s hij => .within hij (ih.execStmt hij s)⟩

namespace Run.Alike

open Simulation

variable {σ : S}

theorem topLevel (fuel : Nat) (last : Value) (p : Program) :
    Run.Alike σ (Run.topLevel (evaluator fuel) last p) (Run.topLevel (evaluator fuel) last p) := by
  induction p generalizing σ last with
  | nil => exact pure _
  | cons s rest ih =>
      refine bind ((evaluator_uniform fuel).exec s (same_global σ)) fun τ _ flow => ?_
      cases flow with
      | normal v => exact ih v
      | ret v => exact fail _ _
      | leave => exact fail _ _

theorem program (fuel : Nat) (p : Program) : Run.Alike σ (Run.program fuel p) (Run.program fuel p) := by
  refine bind (topLevel fuel .null p) fun τ _ v => ?_
  exact bind (modify (setLast τ v)) fun _ _ _ => pure _

theorem frameBlock (fuel : Nat) {r r' : Registration} (hr : r.Alike (Kept σ) r')
    (bindings : List (String × Value)) :
    Run.Alike σ (Run.frameBlock fuel r bindings) (Run.frameBlock fuel r' bindings) := by
  simp only [Run.frameBlock, hr.body, hr.line]
  have hbody := inScope (same_of_kept hr.scope) bindings fun τ k l hkl =>
    (evaluator_uniform fuel).block hkl .null r.body
  refine bind hbody fun τ _ flow => ?_
  cases flow with
  | normal v => exact pure _
  | ret v => exact pure _
  | leave => exact fail _ _

theorem updateBlock (fuel : Nat) (dt : Float) :
    Run.Alike σ (Run.updateBlock fuel dt) (Run.updateBlock fuel dt) := by
  refine world ?_
  have hr := update σ
  generalize (left σ).update? = r?, (right σ).update? = r'? at hr
  cases hr with
  | none => exact pure _
  | some hr =>
      simp only [hr.param]
      exact frameBlock fuel hr _

theorem drawBlock (fuel : Nat) : Run.Alike σ (Run.drawBlock fuel) (Run.drawBlock fuel) := by
  refine world ?_
  have hr := draw σ
  generalize (left σ).draw? = r?, (right σ).draw? = r'? at hr
  cases hr with
  | none => exact pure _
  | some hr => exact frameBlock fuel hr _

theorem call (fuel : Nat) (callee : Value) (positional : List Value) (named : List (String × Value))
    (line : Nat) :
    Run.Alike σ (Run.call fuel callee positional named line) (Run.call fuel callee positional named line) :=
  (evaluator_uniform fuel).call callee positional named line

end Run.Alike

end Cairn
