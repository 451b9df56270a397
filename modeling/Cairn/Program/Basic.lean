import Cairn.Token.Basic

/-!
# Programs

A program is a list of statements. Every node carries the position it was read at. `match` makes
expressions and statements depend on each other: an arm is an expression or a block.
-/

namespace Cairn

/-- Operators on two values. -/
inductive BinaryOp where
  | add | sub | mul | div | mod | pow
  | eq | ne | lt | le | gt | ge
  | bitAnd | bitOr | bitXor | shl | shr
deriving DecidableEq, Repr

/-- How an operator is written. -/
def BinaryOp.symbol : BinaryOp → String
  | .add => "+"
  | .sub => "-"
  | .mul => "*"
  | .div => "/"
  | .mod => "%"
  | .pow => "**"
  | .eq => "=="
  | .ne => "!="
  | .lt => "<"
  | .le => "<="
  | .gt => ">"
  | .ge => ">="
  | .bitAnd => "&"
  | .bitOr => "|"
  | .bitXor => "^"
  | .shl => "<<"
  | .shr => ">>"

/-- Operators that may leave their right operand alone. -/
inductive LogicalOp where
  | and
  | or
deriving DecidableEq, Repr

/-- Operators on one value. -/
inductive UnaryOp where
  | neg
  | not
  | bitNot
deriving DecidableEq, Repr

/-- The way `++` and `--` go. -/
inductive Direction where
  | up
  | down
deriving DecidableEq, Repr

/-- The two blocks that run once a frame. -/
inductive FrameKind where
  | draw
  | update
deriving DecidableEq, Repr

/-- Constants that a pattern can ask for. -/
inductive Literal where
  | number (value : Float)
  | text (value : String)
  | bool (value : Bool)
  | null
deriving DecidableEq

/-- What an arm of a `match` accepts. -/
inductive Pattern where
  /-- Anything. -/
  | wildcard (pos : Position)
  | literal (value : Literal) (pos : Position)
  /-- Anything, under a name. -/
  | binding (name : String) (pos : Position)
  /-- A variant, its first fields under names; an underscore names nothing. -/
  | variant (enum? : Option String) (name : String) (bindings : List String) (pos : Position)
deriving DecidableEq

/-- A variant of an enumeration, with the names of its fields. -/
structure VariantDecl where
  name : String
  fields : List String
deriving DecidableEq, Repr

mutual

/-- Expressions. -/
inductive Expr where
  | number (value : Float) (pos : Position)
  | text (value : String) (pos : Position)
  | bool (value : Bool) (pos : Position)
  | null (pos : Position)
  /-- `prototype()`, a fresh object. -/
  | fresh (pos : Position)
  | name (name : String) (pos : Position)
  | array (items : List Expr) (pos : Position)
  | object (entries : List (String × Expr)) (pos : Position)
  /-- `target = value`, or with an operator `target op= value`. -/
  | assign (target : Expr) (op? : Option BinaryOp) (value : Expr) (pos : Position)
  | logical (op : LogicalOp) (left right : Expr) (pos : Position)
  | binary (op : BinaryOp) (left right : Expr) (pos : Position)
  | unary (op : UnaryOp) (operand : Expr) (pos : Position)
  /-- `++target` when `early`, `target++` otherwise. -/
  | step (direction : Direction) (early : Bool) (target : Expr) (pos : Position)
  | call (callee : Expr) (args : List Expr) (named : List (String × Expr)) (pos : Position)
  | member (object : Expr) (property : String) (pos : Position)
  | index (object : Expr) (key : Expr) (pos : Position)
  | slice (object : Expr) (start? : Option Expr) (stop? : Option Expr) (pos : Position)
  | choose (subject : Expr) (arms : List Arm) (pos : Position)

/-- One arm of a `match`. -/
inductive Arm where
  | mk (pattern : Pattern) (body : ArmBody) (pos : Position)

/-- What an arm does: a block for its effect, or an expression for its value. -/
inductive ArmBody where
  | block (stmts : List Stmt) (pos : Position)
  | expr (value : Expr)

/-- Statements. -/
inductive Stmt where
  /-- A top-level `name = value`. -/
  | declare (name : String) (value : Expr) (pos : Position)
  | function (name : String) (params : List String) (body : List Stmt) (pos : Position)
  | ret (value? : Option Expr) (pos : Position)
  /-- `if`, whose other branch is an `if` or a block. -/
  | cond (test : Expr) (body : List Stmt) (bodyPos : Position) (other? : Option Stmt) (pos : Position)
  | loop (body : List Stmt) (bodyPos : Position) (pos : Position)
  | leave (pos : Position)
  | block (stmts : List Stmt) (pos : Position)
  | enum (name : String) (variants : List VariantDecl) (pos : Position)
  /-- The registration of a block that runs once a frame. -/
  | frame (kind : FrameKind) (param? : Option String) (body : List Stmt) (pos : Position)
  | expr (value : Expr)

end

instance : Inhabited Expr := ⟨.null .start⟩

instance : Inhabited Stmt := ⟨.leave .start⟩

/-- A program, top to bottom. -/
abbrev Program := List Stmt

/-- Where an expression was read. -/
def Expr.pos : Expr → Position
  | .number _ pos | .text _ pos | .bool _ pos | .null pos | .fresh pos | .name _ pos => pos
  | .array _ pos | .object _ pos | .assign _ _ _ pos | .logical _ _ _ pos | .binary _ _ _ pos => pos
  | .unary _ _ pos | .step _ _ _ pos | .call _ _ _ pos | .member _ _ pos | .index _ _ pos => pos
  | .slice _ _ _ pos | .choose _ _ pos => pos

/-- Can the expression stand to the left of `=` or beside `++`? -/
def Expr.isPlace : Expr → Bool
  | .name _ _ | .member _ _ _ | .index _ _ _ => true
  | _ => false

/-- Where a statement was read. -/
def Stmt.pos : Stmt → Position
  | .declare _ _ pos | .function _ _ _ pos | .ret _ pos | .cond _ _ _ _ pos | .loop _ _ pos => pos
  | .leave pos | .block _ pos | .enum _ _ pos | .frame _ _ _ pos => pos
  | .expr value => value.pos

end Cairn
