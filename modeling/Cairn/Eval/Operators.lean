import Cairn.Number.Integer
import Cairn.Fault

/-!
# Operators

Arithmetic is on numbers; comparison is on two numbers or two texts; bit operators are on 32-bit words. If
either side of `+` is a text, the texts of both are joined; for this the store is wanted, so it is a rule of
evaluation.
-/

namespace Cairn

/-- Operators that take two numbers. -/
def BinaryOp.onNumbers (op : BinaryOp) (a b : Float) : Value :=
  match op with
  | .add => .number (a + b)
  | .sub => .number (a - b)
  | .mul => .number (a * b)
  | .div => .number (a / b)
  | .mod => .number (Number.remainder a b)
  | .pow => .number (a ^ b)
  | .eq => .bool (a == b)
  | .ne => .bool (a != b)
  | .lt => .bool (a < b)
  | .le => .bool (a ≤ b)
  | .gt => .bool (b < a)
  | .ge => .bool (b ≤ a)
  | .bitAnd => .number (Number.ofWord (Number.toWord a &&& Number.toWord b))
  | .bitOr => .number (Number.ofWord (Number.toWord a ||| Number.toWord b))
  | .bitXor => .number (Number.ofWord (Number.toWord a ^^^ Number.toWord b))
  | .shl => .number (Number.ofWord (Number.toWord a <<< Number.toWord b))
  | .shr => .number (Number.ofWord (Number.toWord a >>> Number.toWord b))

/-- Operators that compare two texts, by code points. -/
def BinaryOp.onTexts? (op : BinaryOp) (a b : String) : Option Bool :=
  match op with
  | .lt => some (decide (a < b))
  | .le => some (!decide (b < a))
  | .gt => some (decide (b < a))
  | .ge => some (!decide (a < b))
  | _ => none

/-- Whether the texts of both sides are joined. -/
def BinaryOp.joins : BinaryOp → (left right : Value) → Bool
  | .add, .text _, _ | .add, _, .text _ => true
  | _, _, _ => false

/-- The value of `left op right` where no texts are joined. -/
def BinaryOp.apply (op : BinaryOp) (left right : Value) : Except Fault.Cause Value :=
  let mismatch := .error (.badOperands op left.kind right.kind)
  match op, left, right with
  | .eq, _, _ => .ok (.bool (left.same right))
  | .ne, _, _ => .ok (.bool (!left.same right))
  | op, .number a, .number b => .ok (op.onNumbers a b)
  | op, .text a, .text b =>
    match op.onTexts? a b with
    | some result => .ok (.bool result)
    | none => mismatch
  | _, _, _ => mismatch

/-- The value of an operator before an operand. -/
def UnaryOp.apply (op : UnaryOp) (operand : Value) : Except Fault.Cause Value :=
  match op, operand with
  | .not, v => .ok (.bool !v.isTruthy)
  | .neg, .number n => .ok (.number (-n))
  | .bitNot, .number n => .ok (.number (Number.ofWord (~~~Number.toWord n)))
  | .neg, v => .error (.cannotNegate v.kind)
  | .bitNot, v => .error (.cannotInvert v.kind)

end Cairn
