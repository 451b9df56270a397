import Cairn.Eval.Rules

/-!
# Running programs

The rules of evaluation, with a number of steps that may be nested in one another or follow one another
in a loop. An answer that was found does not change when more steps are allowed.
-/

namespace Cairn

mutual

/-- The value of an expression, within `fuel` steps. -/
def eval : (fuel : Nat) → Expr → ScopeId → Run Value
  | 0, _, _ => Run.abort .outOfFuel
  | fuel + 1, e, scope => Run.within scope (Evaluator.evalExpr ⟨eval fuel, exec fuel⟩ e scope)

/-- Runs a statement, within `fuel` steps. -/
def exec : (fuel : Nat) → Stmt → ScopeId → Run Flow
  | 0, _, _ => Run.abort .outOfFuel
  | fuel + 1, s, scope => Run.within scope (Evaluator.execStmt ⟨eval fuel, exec fuel⟩ s scope)

end

/-- The evaluator with `fuel` steps. -/
def evaluator (fuel : Nat) : Evaluator := ⟨eval fuel, exec fuel⟩

namespace Run

/-- Runs top-level statements; the value of the last. -/
def topLevel (self : Evaluator) : (last : Value) → List Stmt → Run Value
  | last, [] => pure last
  | _, s :: rest => do
    match ← self.exec s .global with
    | .normal v => topLevel self v rest
    | .ret _ => fail .strayReturn s.pos.line
    | .leave => fail .strayBreak s.pos.line

/-- Runs a program in the global scope and remembers its value. -/
def program (fuel : Nat) (p : Program) : Run Value := do
  let v ← topLevel (evaluator fuel) .null p
  modify fun w => { w with last := v }
  return v

/-- Runs a frame block with bindings. A `return` ends it early. -/
def frameBlock (fuel : Nat) (r : Registration) (bindings : List (String × Value)) : Run Unit := do
  let flow ← inScope r.scope bindings fun scope => (evaluator fuel).block scope .null r.body
  match flow with
  | .normal _ | .ret _ => return ()
  | .leave => fail .strayBreak r.line

/-- Runs the update block, if there is one, with the elapsed seconds under the name it asks for. -/
def updateBlock (fuel : Nat) (dt : Float) : Run Unit := do
  let w ← world
  match w.update? with
  | none => return ()
  | some r => frameBlock fuel r [(r.param?.getD "dt", .number dt)]

/-- Runs the draw block, if there is one. -/
def drawBlock (fuel : Nat) : Run Unit := do
  let w ← world
  match w.draw? with
  | none => return ()
  | some r => frameBlock fuel r []

/-- Calls a value with arguments. -/
def call (fuel : Nat) (callee : Value) (positional : List Value) (named : List (String × Value))
    (line : Nat) : Run Value :=
  (evaluator fuel).call callee positional named line

end Run

end Cairn
