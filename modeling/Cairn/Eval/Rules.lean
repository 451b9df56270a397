import Cairn.Eval.Binding
import Cairn.Eval.Operators
import Cairn.Eval.Places

/-!
# The rules of evaluation

Each rule says how one construct is evaluated, given an evaluator for whatever is nested in it or comes
after it. Tying the rules together is left to `Cairn.Eval.Evaluator`.
-/

namespace Cairn

/-- How a statement ends. -/
inductive Flow where
  | normal (value : Value)
  | ret (value : Value)
  | leave

/-- How nested expressions and statements are evaluated. -/
structure Evaluator where
  eval : Expr → ScopeId → Run Value
  exec : Stmt → ScopeId → Run Flow

namespace Evaluator

variable (self : Evaluator)

/-- Statements in order; the value of the last, or how the first that does not end normally ends. -/
def block (scope : ScopeId) : (last : Value) → List Stmt → Run Flow
  | last, [] => pure (.normal last)
  | _, s :: rest => do
    match ← self.exec s scope with
    | .normal v => block scope v rest
    | flow => pure flow

/-! ## Calls -/

/-- Calls a function: its parameters are bound in a scope inside of the one it was declared in. -/
def callClosure (f : Closure) (positional : List Value) (named : List (String × Value)) (line : Nat) :
    Run Value := do
  let args ← Run.read line fun _ => bindArgs f.name f.params positional named false
  let flow ← Run.inScope f.scope (f.params.zip args) fun scope => self.block scope .null f.body
  match flow with
  | .normal _ => return .null
  | .ret v => return v
  | .leave => Run.fail (.escapedBreak f.name) line

/-- Makes a variant of the arguments. -/
def construct (c : Constructor) (positional : List Value) (named : List (String × Value)) (line : Nat) :
    Run Value := do
  let args ← Run.read line fun _ => bindArgs c.name c.fields positional named false
  Run.create fun store => store.newVariant ⟨c.enum, c.name, c.fields.zip args⟩

/-- Calls a native. -/
def callNative (sig : Signature) (positional : List Value) (named : List (String × Value)) (line : Nat) :
    Run Value := do
  let args ← Run.read line fun _ => bindArgs sig.name sig.params positional named sig.variadic
  match Native.find? ⟨sig.name, args, line⟩ with
  | some native => Run.native native
  | none => Run.fail (.notImplemented sig.name) line

/-- Calls a value. -/
def call (callee : Value) (positional : List Value) (named : List (String × Value)) (line : Nat) :
    Run Value := do
  let w ← Run.world
  match callee with
  | .native sig => callNative sig positional named line
  | .function ref => self.callClosure (w.store.closure ref) positional named line
  | .constructor ref => construct (w.store.constructor ref) positional named line
  | v => Run.fail (.notCallable v.kind) line

/-! ## Matches -/

/-- The body of an arm, in the scope of its bindings. A block is run for its effect only. -/
def armBody (scope : ScopeId) : ArmBody → Run Flow
  | .block stmts _ => do
    match ← self.block scope .null stmts with
    | .normal _ => return .normal .null
    | flow => return flow
  | .expr e => do return .normal (← self.eval e scope)

/-- The first arm that accepts the subject. -/
def firstArm? (store : Store) (subject : Value) : List Arm → Option (List (String × Value) × ArmBody)
  | [] => none
  | .mk pattern body _ :: rest =>
    match pattern.accept? store subject with
    | some bindings => some (bindings, body)
    | none => firstArm? store subject rest

/-- Runs the first arm that accepts the subject. -/
def choose (subject : Expr) (arms : List Arm) (pos : Position) (scope : ScopeId) : Run Flow := do
  let v ← self.eval subject scope
  let w ← Run.world
  match firstArm? w.store v arms with
  | some (bindings, body) => Run.inScope scope bindings fun inner => self.armBody inner body
  | none => do Run.fail (.noArm (← Run.text v)) pos.line

/-! ## Expressions -/

/-- Works out the object and the key of a place. -/
def place (target : Expr) (scope : ScopeId) : Run Place :=
  match target with
  | .name name _ => pure (.var name)
  | .index object key _ => do
    let o ← self.eval object scope
    let k ← self.eval key scope
    return .index o k
  | .member object property _ => do
    let o ← self.eval object scope
    return .member o property
  | e => Run.fail .invalidTarget e.pos.line

/-- The value of `left op right`. -/
def operate (op : BinaryOp) (left right : Value) (line : Nat) : Run Value :=
  if op.joins left right then do
    let l ← Run.text left
    let r ← Run.text right
    return .text (l ++ r)
  else Run.read line fun _ => op.apply left right

/-- Assigns to a place. With an operator the place is read after the right side is evaluated. -/
def assign (target : Expr) (op? : Option BinaryOp) (value : Expr) (line : Nat) (scope : ScopeId) :
    Run Value := do
  let p ← self.place target scope
  let right ← self.eval value scope
  let new ←
    match op? with
    | none => pure right
    | some op => do
      let current ← Run.read line fun w => p.read w scope
      operate op current right line
  Run.write line fun w => p.write w scope new
  return new

/-- Adds or takes one at a place; gives the new value if `early` and the old one otherwise. -/
def step (direction : Direction) (early : Bool) (target : Expr) (line : Nat) (scope : ScopeId) :
    Run Value := do
  let p ← self.place target scope
  match ← Run.read line fun w => p.read w scope with
  | .number old => do
    let new := match direction with | .up => old + 1.0 | .down => old - 1.0
    Run.write line fun w => p.write w scope (.number new)
    return .number (if early then new else old)
  | v => Run.fail (.cannotStep direction v.kind) line

/-- A bound of a slice; `null` if it is absent. -/
def bound (e? : Option Expr) (scope : ScopeId) : Run Value :=
  match e? with
  | none => pure .null
  | some e => self.eval e scope

/-- The value of an expression. -/
def evalExpr (e : Expr) (scope : ScopeId) : Run Value :=
  match e with
  | .number n _ => pure (.number n)
  | .text s _ => pure (.text s)
  | .bool b _ => pure (.bool b)
  | .null _ => pure .null
  | .fresh _ => Run.create (·.newPrototype {})
  | .name name pos => Run.read pos.line fun w => (Place.var name).read w scope
  | .array items _ => do
    let vs ← Run.each (self.eval · scope) items
    Run.create (·.newArray vs.toArray)
  | .object entries _ => do
    let vs ← Run.eachEntry (self.eval · scope) entries
    Run.create (·.newPrototype (Dict.empty.insertAll vs))
  | .assign target op? value pos => self.assign target op? value pos.line scope
  | .logical op left right _ => do
    let l ← self.eval left scope
    match op, l.isTruthy with
    | .and, false | .or, true => return l
    | _, _ => self.eval right scope
  | .binary op left right pos => do
    let l ← self.eval left scope
    let r ← self.eval right scope
    operate op l r pos.line
  | .unary op operand pos => do
    let v ← self.eval operand scope
    Run.read pos.line fun _ => op.apply v
  | .step direction early target pos => self.step direction early target pos.line scope
  | .call callee args named pos => do
    let f ← self.eval callee scope
    let positional ← Run.each (self.eval · scope) args
    let keywords ← Run.eachEntry (self.eval · scope) named
    self.call f positional keywords pos.line
  | .member object property pos => do
    let o ← self.eval object scope
    Run.read pos.line fun w => w.store.member o property
  | .index object key pos => do
    let o ← self.eval object scope
    let k ← self.eval key scope
    Run.read pos.line fun w => w.store.index o k
  | .slice object start? stop? pos => do
    let o ← self.eval object scope
    let s ← self.bound start? scope
    let e ← self.bound stop? scope
    Run.make pos.line (·.slice o s e)
  | .choose subject arms pos => do
    match ← self.choose subject arms pos scope with
    | .normal v => return v
    | .ret _ => Run.fail .returnInValue pos.line
    | .leave => Run.fail .breakInValue pos.line

/-! ## Statements -/

/-- The value that a variant declaration stands for: the variant itself, or its constructor. -/
def newVariant (enum : String) (v : VariantDecl) (store : Store) : Value × Store :=
  if v.fields.isEmpty then store.newVariant ⟨enum, v.name, []⟩
  else store.newConstructor ⟨enum, v.name, v.fields⟩

/-- Declares variants in a scope and collects them under their names. -/
def declareVariants (enum : String) (scope : ScopeId) (members : Dict String Value) :
    List VariantDecl → Run (Dict String Value)
  | [] => pure members
  | v :: rest => do
    let value ← Run.create (newVariant enum v)
    Run.modifyScopes (·.define scope v.name value)
    declareVariants enum scope (members.insert v.name value) rest

/-- Declares the variants of an enumeration, and its name as a prototype of them. -/
def declareEnum (name : String) (variants : List VariantDecl) (scope : ScopeId) : Run Unit := do
  let members ← declareVariants name scope {} variants
  let value ← Run.create (·.newPrototype members)
  Run.modifyScopes (·.define scope name value)

/-- Declares a function; it captures the scope. -/
def declareFunction (name : String) (params : List String) (body : List Stmt) (scope : ScopeId) :
    Run Value := do
  Run.modifyScopes (·.capture scope)
  let f ← Run.create (·.newClosure ⟨name, params, body, scope⟩)
  Run.modifyScopes (·.define scope name f)
  return f

/-- Registers a frame block in place of the one before; it captures the scope. -/
def register (kind : FrameKind) (r : Registration) : Run Unit := do
  Run.modifyScopes (·.capture r.scope)
  Run.modify fun w =>
    match kind with
    | .draw => { w with draw? := some r }
    | .update => { w with update? := some r }

/-- Runs a statement. Branches, loops and blocks open no scope of their own. -/
def execStmt (s : Stmt) (scope : ScopeId) : Run Flow :=
  match s with
  | .declare name value _ => do
    let v ← self.eval value scope
    Run.modifyScopes (·.define scope name v)
    return .normal v
  | .function name params body _ => do
    let f ← declareFunction name params body scope
    return .normal f
  | .ret none _ => return .ret .null
  | .ret (some e) _ => do return .ret (← self.eval e scope)
  | .cond test body _ other? _ => do
    let v ← self.eval test scope
    if v.isTruthy then self.block scope .null body
    else
      match other? with
      | some other => self.exec other scope
      | none => return .normal .null
  | .loop body bodyPos pos => do
    match ← self.block scope .null body with
    | .normal _ => self.exec (.loop body bodyPos pos) scope
    | .leave => return .normal .null
    | .ret v => return .ret v
  | .leave _ => return .leave
  | .block stmts _ => self.block scope .null stmts
  | .enum name variants _ => do
    declareEnum name variants scope
    return .normal .null
  | .frame kind param? body pos => do
    register kind ⟨param?, body, pos.line, scope⟩
    return .normal .null
  | .expr (.choose subject arms pos) => self.choose subject arms pos scope
  | .expr e => do return .normal (← self.eval e scope)

end Evaluator

end Cairn
