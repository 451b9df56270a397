import Cairn.Program.Basic

/-!
# Names in patterns

A bare name in a pattern binds anything, unless some `enum` of the program declares a variant of that
name without fields; then it stands for that variant. Enumerations are looked for in the statements of
function, frame, branch, loop and block bodies.
-/

namespace Cairn

/-! ## The variants that a program declares -/

/-- The variants without fields. -/
def plainVariants (variants : List VariantDecl) : List String :=
  (variants.filter (·.fields.isEmpty)).map (·.name)

mutual

/-- The plain variants that a statement declares at any depth. -/
def Stmt.variantNames : Stmt → List String
  | .enum _ variants _ => plainVariants variants
  | .function _ _ body _ => Stmt.variantNamesAll body
  | .cond _ body _ other? _ => Stmt.variantNamesAll body ++ Stmt.variantNamesOther other?
  | .loop body _ _ => Stmt.variantNamesAll body
  | .block stmts _ => Stmt.variantNamesAll stmts
  | .frame _ _ body _ => Stmt.variantNamesAll body
  | .declare _ _ _ | .ret _ _ | .leave _ | .expr _ => []

/-- The plain variants that statements declare. -/
def Stmt.variantNamesAll : List Stmt → List String
  | [] => []
  | s :: rest => s.variantNames ++ Stmt.variantNamesAll rest

/-- The plain variants that a branch declares. -/
def Stmt.variantNamesOther : Option Stmt → List String
  | none => []
  | some s => s.variantNames

end

/-! ## Resolution -/

/-- A bare name among `names` becomes the variant of that name. -/
def Pattern.resolve (names : List String) : Pattern → Pattern
  | .binding name pos => if name ∈ names then .variant none name [] pos else .binding name pos
  | p => p

mutual

/-- Resolves the patterns in an expression. -/
def Expr.resolve (names : List String) : Expr → Expr
  | .number value pos => .number value pos
  | .text value pos => .text value pos
  | .bool value pos => .bool value pos
  | .null pos => .null pos
  | .fresh pos => .fresh pos
  | .name name pos => .name name pos
  | .array items pos => .array (Expr.resolveAll names items) pos
  | .object entries pos => .object (Expr.resolveEntries names entries) pos
  | .assign target op? value pos => .assign (target.resolve names) op? (value.resolve names) pos
  | .logical op left right pos => .logical op (left.resolve names) (right.resolve names) pos
  | .binary op left right pos => .binary op (left.resolve names) (right.resolve names) pos
  | .unary op operand pos => .unary op (operand.resolve names) pos
  | .step direction early target pos => .step direction early (target.resolve names) pos
  | .call callee args named pos =>
    .call (callee.resolve names) (Expr.resolveAll names args) (Expr.resolveEntries names named) pos
  | .member object property pos => .member (object.resolve names) property pos
  | .index object key pos => .index (object.resolve names) (key.resolve names) pos
  | .slice object start? stop? pos =>
    .slice (object.resolve names) (Expr.resolveBound names start?) (Expr.resolveBound names stop?) pos
  | .choose subject arms pos => .choose (subject.resolve names) (Arm.resolveAll names arms) pos

/-- Resolves the patterns in expressions. -/
def Expr.resolveAll (names : List String) : List Expr → List Expr
  | [] => []
  | e :: rest => e.resolve names :: Expr.resolveAll names rest

/-- Resolves the patterns in entries. -/
def Expr.resolveEntries (names : List String) : List (String × Expr) → List (String × Expr)
  | [] => []
  | (key, e) :: rest => (key, e.resolve names) :: Expr.resolveEntries names rest

/-- Resolves the patterns in a bound that may be absent. -/
def Expr.resolveBound (names : List String) : Option Expr → Option Expr
  | none => none
  | some e => some (e.resolve names)

/-- Resolves the pattern of an arm and the patterns in its body. -/
def Arm.resolve (names : List String) : Arm → Arm
  | .mk pattern body pos => .mk (pattern.resolve names) (body.resolve names) pos

/-- Resolves arms. -/
def Arm.resolveAll (names : List String) : List Arm → List Arm
  | [] => []
  | arm :: rest => arm.resolve names :: Arm.resolveAll names rest

/-- Resolves the patterns in the body of an arm. -/
def ArmBody.resolve (names : List String) : ArmBody → ArmBody
  | .block stmts pos => .block (Stmt.resolveAll names stmts) pos
  | .expr value => .expr (value.resolve names)

/-- Resolves the patterns in a statement. -/
def Stmt.resolve (names : List String) : Stmt → Stmt
  | .declare name value pos => .declare name (value.resolve names) pos
  | .function name params body pos => .function name params (Stmt.resolveAll names body) pos
  | .ret value? pos => .ret (Expr.resolveBound names value?) pos
  | .cond test body bodyPos other? pos =>
    .cond (test.resolve names) (Stmt.resolveAll names body) bodyPos (Stmt.resolveOther names other?) pos
  | .loop body bodyPos pos => .loop (Stmt.resolveAll names body) bodyPos pos
  | .leave pos => .leave pos
  | .block stmts pos => .block (Stmt.resolveAll names stmts) pos
  | .enum name variants pos => .enum name variants pos
  | .frame kind param? body pos => .frame kind param? (Stmt.resolveAll names body) pos
  | .expr value => .expr (value.resolve names)

/-- Resolves the patterns in statements. -/
def Stmt.resolveAll (names : List String) : List Stmt → List Stmt
  | [] => []
  | s :: rest => s.resolve names :: Stmt.resolveAll names rest

/-- Resolves the patterns in a branch that may be absent. -/
def Stmt.resolveOther (names : List String) : Option Stmt → Option Stmt
  | none => none
  | some s => some (s.resolve names)

end

/-- The program with its bare names resolved. -/
def Program.resolve (program : Program) : Program :=
  Stmt.resolveAll (Stmt.variantNamesAll program) program

end Cairn
