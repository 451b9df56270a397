import Cairn.Program.Basic
import Cairn.Program.Cursor

/-!
# The grammar

Every rule is given the rules for whatever is nested in it, which it uses only after it has taken a
token; `grammar n` is the grammar for programs nested at most `n` deep. Binary operators stand in a table
of levels, from the loosest to the tightest.
-/

namespace Cairn

open Token (Keyword Symbol Kind)
open Parse

/-- The rules that others refer to. -/
structure Grammar where
  expr : Parse Expr
  power : Parse Expr
  unary : Parse Expr
  stmt : Parse Stmt
  cond : Parse Stmt

namespace Grammar

/-! ## Operators -/

/-- An operator between two operands. -/
inductive Infix where
  | logical (op : LogicalOp)
  | binary (op : BinaryOp)
deriving DecidableEq

/-- The operator that a token stands for. -/
def Infix.ofKind? : Kind → Option Infix
  | .symbol .pipePipe | .keyword .or => some (.logical .or)
  | .symbol .ampAmp | .keyword .and => some (.logical .and)
  | .symbol .pipe => some (.binary .bitOr)
  | .symbol .caret => some (.binary .bitXor)
  | .symbol .amp => some (.binary .bitAnd)
  | .symbol .eqEq => some (.binary .eq)
  | .symbol .bangEq => some (.binary .ne)
  | .symbol .lt => some (.binary .lt)
  | .symbol .ltEq => some (.binary .le)
  | .symbol .gt => some (.binary .gt)
  | .symbol .gtEq => some (.binary .ge)
  | .symbol .ltLt => some (.binary .shl)
  | .symbol .gtGt => some (.binary .shr)
  | .symbol .plus => some (.binary .add)
  | .symbol .minus => some (.binary .sub)
  | .symbol .star => some (.binary .mul)
  | .symbol .slash => some (.binary .div)
  | .symbol .percent => some (.binary .mod)
  | _ => none

/-- The operators of each level, loosest first. All of them associate to the left. -/
def levels : List (List Infix) :=
  [[.logical .or], [.logical .and], [.binary .bitOr], [.binary .bitXor], [.binary .bitAnd],
   [.binary .eq, .binary .ne], [.binary .lt, .binary .le, .binary .gt, .binary .ge],
   [.binary .shl, .binary .shr], [.binary .add, .binary .sub], [.binary .mul, .binary .div, .binary .mod]]

/-- An application is found where its left operand begins. -/
def Infix.apply (op : Infix) (left right : Expr) : Expr :=
  match op with
  | .logical op => .logical op left right left.pos
  | .binary op => .binary op left right left.pos

/-- The assignment that a token stands for: plain, or with an operator. -/
def assignment? : Kind → Option (Option BinaryOp)
  | .symbol .eq => some none
  | .symbol .plusEq => some (some .add)
  | .symbol .minusEq => some (some .sub)
  | .symbol .starEq => some (some .mul)
  | .symbol .slashEq => some (some .div)
  | .symbol .percentEq => some (some .mod)
  | .symbol .ampEq => some (some .bitAnd)
  | .symbol .pipeEq => some (some .bitOr)
  | .symbol .caretEq => some (some .bitXor)
  | _ => none

/-- The operator in front of an operand. -/
def unaryOp? : Kind → Option UnaryOp
  | .symbol .bang => some .not
  | .symbol .minus => some .neg
  | .symbol .tilde => some .bitNot
  | _ => none

/-- The way of a `++` or `--`. -/
def direction? : Kind → Option Direction
  | .symbol .plusPlus => some .up
  | .symbol .minusMinus => some .down
  | _ => none

/-! ## Statements -/

variable (g : Grammar)

/-- One statement of a block; stray semicolons count for nothing. -/
def blockRound (stmts : List Stmt) : Parse (Turn (List Stmt)) := do
  if ← closes (.symbol .rbrace) then
    return .stop stmts
  if ← accepts (.symbol .semicolon) then
    return .again stmts
  return .again (stmts ++ [← g.stmt])

/-- Statements in braces, and where the opening brace stands. -/
def block : Parse (List Stmt × Position) := do
  let pos ← position
  expect (.symbol .lbrace)
  let stmts ← repeated g.blockRound []
  expect (.symbol .rbrace)
  return (stmts, pos)

/-- `fun name(params) { … }` -/
def function : Parse Stmt := do
  let pos ← position
  expect (.keyword .function)
  let name ← identifier
  expect (.symbol .lparen)
  let params ← listUntil .rparen identifier
  let (body, _) ← g.block
  return .function name params body pos

/-- Does this kind show that a `return` has no value? -/
def endsReturn (kind : Kind) : Bool :=
  kind = .symbol .rbrace || kind = .symbol .semicolon || kind = .eof || kind.startsStatement

/-- `return`, or `return value` -/
def ret : Parse Stmt := do
  let pos ← position
  expect (.keyword .result)
  if endsReturn (← kind) then
    return .ret none pos
  return .ret (some (← g.expr)) pos

/-- `if test { … }`, then perhaps `else` with another `if` or a block. -/
def conditional : Parse Stmt := do
  let pos ← position
  expect (.keyword .when)
  let test ← g.expr
  let (body, bodyPos) ← g.block
  if ← accepts (.keyword .otherwise) then
    if ← sees (.keyword .when) then
      return .cond test body bodyPos (some (← g.cond)) pos
    let (stmts, blockPos) ← g.block
    return .cond test body bodyPos (some (.block stmts blockPos)) pos
  return .cond test body bodyPos none pos

/-- `loop { … }` -/
def loop : Parse Stmt := do
  let pos ← position
  expect (.keyword .loop)
  let (body, bodyPos) ← g.block
  return .loop body bodyPos pos

/-- A variant, with the names of its fields in parentheses if it has any. -/
def variantDecl : Parse VariantDecl := do
  let name ← identifier
  if ← accepts (.symbol .lparen) then
    return ⟨name, ← listUntil .rparen identifier⟩
  return ⟨name, []⟩

/-- `enum Name { A, B(x, y) }` -/
def enum : Parse Stmt := do
  let pos ← position
  expect (.keyword .enum)
  let name ← identifier
  expect (.symbol .lbrace)
  let variants ← listUntil .rbrace variantDecl
  return .enum name variants pos

/-- `draw { … }` -/
def draw : Parse Stmt := do
  let pos ← position
  expect (.keyword .draw)
  let (body, _) ← g.block
  return .frame .draw none body pos

/-- `update { … }`, or `update(name) { … }` -/
def update : Parse Stmt := do
  let pos ← position
  expect (.keyword .update)
  if ← accepts (.symbol .lparen) then
    let param ← identifier
    expect (.symbol .rparen)
    let (body, _) ← g.block
    return .frame .update (some param) body pos
  let (body, _) ← g.block
  return .frame .update none body pos

/-! ## Primary expressions -/

/-- The key of an object entry: quoted text, a name or a keyword. -/
def entryKey : Parse String := do
  match ← kind with
  | .text value => do
    let _ ← next
    return value
  | _ => propertyName

/-- `key: value` -/
def entry : Parse (String × Expr) := do
  let key ← entryKey
  expect (.symbol .colon)
  return (key, ← g.expr)

/-- `{ key: value, … }` -/
def object : Parse Expr := do
  let pos ← position
  expect (.symbol .lbrace)
  return .object (← listUntil .rbrace g.entry) pos

/-- A name in a variant pattern, or the underscore that names nothing. -/
def patternName : Parse String := do
  if ← accepts (.keyword .underscore) then return "_" else identifier

/-- What may follow the name in a pattern: names for the fields of a variant. -/
def patternFields (enum? : Option String) (name : String) (pos : Position) : Parse Pattern := do
  if ← accepts (.symbol .lparen) then
    return .variant enum? name (← listUntil .rparen patternName) pos
  if enum?.isSome then
    return .variant enum? name [] pos
  return .binding name pos

/-- The rest of a pattern that begins with a name. -/
def namedPattern (first : String) (pos : Position) : Parse Pattern := do
  if ← accepts (.symbol .dot) then
    let name ← identifier
    patternFields (some first) name pos
  else patternFields none first pos

/-- A pattern: underscore, literal, negative number, name or variant. -/
def pattern : Parse Pattern := do
  let pos ← position
  match ← kind with
  | .keyword .underscore => do
    let _ ← next
    return .wildcard pos
  | .number value => do
    let _ ← next
    return .literal (.number value) pos
  | .text value => do
    let _ ← next
    return .literal (.text value) pos
  | .bool value => do
    let _ ← next
    return .literal (.bool value) pos
  | .null => do
    let _ ← next
    return .literal .null pos
  | .symbol .minus => do
    let sign ← next
    match (← next).kind with
    | .number value => return .literal (.number (-value)) pos
    | _ => fail (.missingNumber sign.lexeme) sign.position
  | .name first => do
    let _ ← next
    namedPattern first pos
  | _ => unexpected .pattern

/-- After `=>`, a brace opens an object if a key and a colon follow it, and a block otherwise. -/
def opensObject (c : Cursor) : Bool :=
  (match c.later? 0 with
    | some (.name _) | some (.text _) => true
    | _ => false)
    && c.later? 1 = some (.symbol .colon)

/-- What an arm does. -/
def armBody : Parse ArmBody := do
  let c ← cursor
  if c.kind = .symbol .lbrace && !opensObject c then
    let (stmts, pos) ← g.block
    return .block stmts pos
  return .expr (← g.expr)

/-- Takes commas and semicolons. -/
def separatorRound (_ : Unit) : Parse (Turn Unit) := do
  if ← accepts (.symbol .comma) then
    return .again ()
  if ← accepts (.symbol .semicolon) then return .again () else return .stop ()

/-- One arm and the separators after it. -/
def armRound (arms : List Arm) : Parse (Turn (List Arm)) := do
  if ← closes (.symbol .rbrace) then
    return .stop arms
  let pos ← position
  let p ← pattern
  expect (.symbol .fatArrow)
  let body ← g.armBody
  repeated separatorRound ()
  return .again (arms ++ [.mk p body pos])

/-- `match subject { pattern => body, … }` -/
def choose : Parse Expr := do
  let pos ← position
  expect (.keyword .select)
  let subject ← g.expr
  expect (.symbol .lbrace)
  let arms ← repeated g.armRound []
  expect (.symbol .rbrace)
  return .choose subject arms pos

/-- Literals, names, `prototype()`, parentheses, arrays, objects and matches. -/
def primary : Parse Expr := do
  let pos ← position
  match ← kind with
  | .number value => do
    let _ ← next
    return .number value pos
  | .text value => do
    let _ ← next
    return .text value pos
  | .bool value => do
    let _ ← next
    return .bool value pos
  | .null => do
    let _ ← next
    return .null pos
  | .name name => do
    let _ ← next
    return .name name pos
  | .keyword .prototype => do
    let _ ← next
    expect (.symbol .lparen)
    expect (.symbol .rparen)
    return .fresh pos
  | .symbol .lparen => do
    let _ ← next
    let e ← g.expr
    expect (.symbol .rparen)
    return e
  | .symbol .lbracket => do
    let _ ← next
    return .array (← listUntil .rbracket g.expr) pos
  | .symbol .lbrace => g.object
  | .keyword .select => g.choose
  | _ => unexpected .expression

/-! ## Calls, members, indices -/

/-- The arguments read so far. -/
structure Arguments where
  positional : List Expr := []
  named : List (String × Expr) := []

/-- The name of a keyword argument, if one begins here: a name and then `=`. -/
def keyword? (c : Cursor) : Option String :=
  match c.kind with
  | .name name => if c.later? 0 = some (.symbol .eq) then some name else none
  | _ => none

/-- One argument. Once a keyword argument was read, only keyword arguments may follow. -/
def argumentRound (args : Arguments) : Parse (Turn Arguments) := do
  if ← closes (.symbol .rparen) then
    return .stop args
  let c ← cursor
  match keyword? c with
  | some name => do
    let _ ← next
    let _ ← next
    let value ← g.expr
    afterItem { args with named := args.named ++ [(name, value)] }
  | none =>
    if args.named.isEmpty then do
      let value ← g.expr
      afterItem { args with positional := args.positional ++ [value] }
    else fail .lateArgument c.token.position

/-- The end of a slice, unless the bracket closes at once. -/
def sliceStop : Parse (Option Expr) := do
  if ← sees (.symbol .rbracket) then return none else return some (← g.expr)

/-- What stands in brackets after `object`: an index or the bounds of a slice. -/
def subscript (object : Expr) : Parse Expr := do
  if ← accepts (.symbol .colon) then
    let stop? ← g.sliceStop
    expect (.symbol .rbracket)
    return .slice object none stop? object.pos
  let first ← g.expr
  if ← accepts (.symbol .colon) then
    let stop? ← g.sliceStop
    expect (.symbol .rbracket)
    return .slice object (some first) stop? object.pos
  expect (.symbol .rbracket)
  return .index object first object.pos

/-- One call, member or subscript after `e`. -/
def chainRound (e : Expr) : Parse (Turn Expr) := do
  match ← kind with
  | .symbol .lparen => do
    let _ ← next
    let args ← repeated g.argumentRound {}
    expect (.symbol .rparen)
    return .again (.call e args.positional args.named e.pos)
  | .symbol .dot => do
    let _ ← next
    let property ← propertyName
    return .again (.member e property e.pos)
  | .symbol .lbracket => do
    let _ ← next
    return .again (← g.subscript e)
  | _ => return .stop e

/-- A primary expression and what hangs on it. -/
def chain : Parse Expr := do
  repeated g.chainRound (← g.primary)

/-! ## Operators around operands -/

/-- A chain, perhaps with `++` or `--` after it. -/
def postfixed : Parse Expr := do
  let e ← g.chain
  match direction? (← kind) with
  | none => return e
  | some direction =>
    let t ← next
    if e.isPlace then return .step direction false e e.pos
    else fail (.invalidOperand .after t.lexeme) t.position

/-- Operators in front of an operand. -/
def unaryExpr : Parse Expr := do
  let pos ← position
  let k ← kind
  match unaryOp? k with
  | some op => do
    let _ ← next
    return .unary op (← g.unary) pos
  | none =>
    match direction? k with
    | some direction => do
      let t ← next
      let target ← g.unary
      if target.isPlace then return .step direction true target pos
      else fail (.invalidOperand .before t.lexeme) t.position
    | none => g.postfixed

/-- `base ** exponent`, which associates to the right. -/
def powerExpr : Parse Expr := do
  let base ← g.unaryExpr
  if ← accepts (.symbol .starStar) then
    return .binary .pow base (← g.power) base.pos
  return base

/-- One more operand of a level. -/
def levelRound (ops : List Infix) (operand : Parse Expr) (left : Expr) : Parse (Turn Expr) := do
  match (Infix.ofKind? (← kind)).filter (· ∈ ops) with
  | none => return .stop left
  | some op => do
    let _ ← next
    return .again (op.apply left (← operand))

/-- Operands with the operators of one level between them. -/
def level (ops : List Infix) (operand : Parse Expr) : Parse Expr := do
  repeated (levelRound ops operand) (← operand)

/-- Operands with operators of any level between them. -/
def infixExpr : Parse Expr :=
  levels.foldr level g.powerExpr

/-- An expression, perhaps an assignment, which associates to the right. -/
def assignExpr : Parse Expr := do
  let target ← g.infixExpr
  match assignment? (← kind) with
  | none => return target
  | some op? => do
    let t ← next
    if target.isPlace then return .assign target op? (← g.expr) target.pos
    else fail (.invalidTarget t.lexeme) t.position

/-- A statement without the semicolon that may follow it. -/
def bareStmt : Parse Stmt := do
  match ← kind with
  | .keyword .function => g.function
  | .keyword .result => g.ret
  | .keyword .when => g.conditional
  | .keyword .loop => g.loop
  | .keyword .leave => do
    let t ← next
    return .leave t.position
  | .keyword .enum => enum
  | .keyword .draw => g.draw
  | .keyword .update => g.update
  | .symbol .lbrace => do
    let (stmts, pos) ← g.block
    return .block stmts pos
  | _ => return .expr (← g.assignExpr)

/-- A statement and the semicolon after it. -/
def statement : Parse Stmt := do
  let s ← g.bareStmt
  let _ ← accepts (.symbol .semicolon)
  return s

/-- The grammar for one more level of nesting. -/
def next (g : Grammar) : Grammar where
  expr := g.assignExpr
  power := g.powerExpr
  unary := g.unaryExpr
  stmt := g.statement
  cond := g.conditional

end Grammar

/-- The grammar for programs nested at most `depth` deep. -/
def grammar : (depth : Nat) → Grammar
  | 0 => ⟨exhausted, exhausted, exhausted, exhausted, exhausted⟩
  | depth + 1 =>
    { expr := fun c => (grammar depth).next.expr c
      power := fun c => (grammar depth).next.power c
      unary := fun c => (grammar depth).next.unary c
      stmt := fun c => (grammar depth).next.stmt c
      cond := fun c => (grammar depth).next.cond c }

end Cairn
