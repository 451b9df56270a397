import Cairn.Eval.Rules

/-!
# Where `return` and `break` may stand

A `return` leaves the nearest function or frame block, a `break` the nearest loop inside of it. A `match` that is a
statement lets both through. A `match` whose value is used lets neither through, and the arm of an expression is
such a use too.
-/

namespace Cairn

/-- Which ways out there are from where a statement stands, besides its end. -/
structure Exits where
  ret : Bool
  leave : Bool

namespace Exits

def none : Exits := ⟨false, false⟩

/-- In the body of a function or of a frame block. -/
def body : Exits := ⟨true, false⟩

def inLoop (x : Exits) : Exits := { x with leave := true }

/-- A statement may end so. -/
def Allows (x : Exits) : Flow → Prop
  | .normal _ => True
  | .ret _ => x.ret = true
  | .leave => x.leave = true

end Exits

mutual

/-- No `return` and no `break` leaves a `match` in the expression. -/
def Expr.placed : Expr → Bool
  | .number _ _ | .text _ _ | .bool _ _ | .null _ | .fresh _ | .name _ _ => true
  | .array items _ => Expr.allPlaced items
  | .object entries _ => Expr.entriesPlaced entries
  | .assign target _ value _ => target.placed && value.placed
  | .logical _ left right _ | .binary _ left right _ => left.placed && right.placed
  | .unary _ operand _ => operand.placed
  | .step _ _ target _ => target.placed
  | .call callee args named _ => callee.placed && Expr.allPlaced args && Expr.entriesPlaced named
  | .member object _ _ => object.placed
  | .index object key _ => object.placed && key.placed
  | .slice object start? stop? _ => object.placed && Expr.boundPlaced start? && Expr.boundPlaced stop?
  | .choose subject arms _ => subject.placed && Arm.allPlaced .none arms

def Expr.allPlaced : List Expr → Bool
  | [] => true
  | e :: rest => e.placed && Expr.allPlaced rest

def Expr.entriesPlaced : List (String × Expr) → Bool
  | [] => true
  | (_, e) :: rest => e.placed && Expr.entriesPlaced rest

def Expr.boundPlaced : Option Expr → Bool
  | none => true
  | some e => e.placed

/-- Each `return` and `break` in the arms has a way out, given those from the `match`. -/
def Arm.allPlaced (x : Exits) : List Arm → Bool
  | [] => true
  | .mk _ body _ :: rest => body.placed x && Arm.allPlaced x rest

def ArmBody.placed (x : Exits) : ArmBody → Bool
  | .block stmts _ => Stmt.allPlaced x stmts
  | .expr value => value.placed

/-- Each `return` and `break` in the statement has a way out, given those from the statement. -/
def Stmt.placed (x : Exits) : Stmt → Bool
  | .declare _ value _ => value.placed
  | .function _ _ body _ | .frame _ _ body _ => Stmt.allPlaced .body body
  | .ret value? _ => x.ret && Expr.boundPlaced value?
  | .cond test body _ other? _ => test.placed && Stmt.allPlaced x body && Stmt.otherPlaced x other?
  | .loop body _ _ => Stmt.allPlaced x.inLoop body
  | .leave _ => x.leave
  | .block stmts _ => Stmt.allPlaced x stmts
  | .enum _ _ _ => true
  | .expr (.choose subject arms _) => subject.placed && Arm.allPlaced x arms
  | .expr value => value.placed

def Stmt.allPlaced (x : Exits) : List Stmt → Bool
  | [] => true
  | s :: rest => s.placed x && Stmt.allPlaced x rest

def Stmt.otherPlaced (x : Exits) : Option Stmt → Bool
  | none => true
  | some s => s.placed x

end

/-- There is no way out of the top level. -/
def Program.wellPlaced (p : Program) : Bool := Stmt.allPlaced .none p

end Cairn
