import Cairn.Program.Parser
import Mathlib.Tactic.Common

/-!
# The same at other positions

Tokens, faults and programs with their positions changed by a map. Two programs that become equal when all their
positions do are the same up to positions.
-/

namespace Cairn

/-- Something with positions in it, which a map can change. -/
class Located (α : Type) where
  relocate : (Position → Position) → α → α

open Located (relocate)

instance : Located Position := ⟨fun f pos => f pos⟩

instance : Located Unit := ⟨fun _ u => u⟩

instance : Located String := ⟨fun _ s => s⟩

instance : Located VariantDecl := ⟨fun _ v => v⟩

instance : Located Token := ⟨fun f t => { t with position := f t.position }⟩

instance : Located Diagnostic := ⟨fun f d => { d with position := f d.position }⟩

variable {α β : Type} [Located α] [Located β]

instance : Located (List α) := ⟨fun f => List.map (relocate f)⟩

theorem Located.relocate_concat (f : Position → Position) (items : List α) (a : α) :
    relocate f (items ++ [a]) = relocate f items ++ [relocate f a] := List.map_append (f := relocate f)

theorem Located.relocate_fixed {f : Position → Position} (h : ∀ a : α, relocate f a = a) (items : List α) :
    relocate f items = items := by
  induction items with
  | nil => rfl
  | cons a items ih => exact congrArg₂ List.cons (h a) ih

instance : Located (Option α) := ⟨fun f => Option.map (relocate f)⟩

instance : Located (α × β) := ⟨fun f => Prod.map (relocate f) (relocate f)⟩

instance : Located Cursor := ⟨fun f c => ⟨relocate f c.token, relocate f c.rest⟩⟩

/-! ## Programs -/

def Pattern.moved (f : Position → Position) : Pattern → Pattern
  | .wildcard pos => .wildcard (f pos)
  | .literal value pos => .literal value (f pos)
  | .binding name pos => .binding name (f pos)
  | .variant enum? name bindings pos => .variant enum? name bindings (f pos)

instance : Located Pattern := ⟨Pattern.moved⟩

mutual

def Expr.moved (f : Position → Position) : Expr → Expr
  | .number value pos => .number value (f pos)
  | .text value pos => .text value (f pos)
  | .bool value pos => .bool value (f pos)
  | .null pos => .null (f pos)
  | .fresh pos => .fresh (f pos)
  | .name name pos => .name name (f pos)
  | .array items pos => .array (Expr.movedAll f items) (f pos)
  | .object entries pos => .object (Expr.movedEntries f entries) (f pos)
  | .assign target op? value pos => .assign (target.moved f) op? (value.moved f) (f pos)
  | .logical op left right pos => .logical op (left.moved f) (right.moved f) (f pos)
  | .binary op left right pos => .binary op (left.moved f) (right.moved f) (f pos)
  | .unary op operand pos => .unary op (operand.moved f) (f pos)
  | .step direction early target pos => .step direction early (target.moved f) (f pos)
  | .call callee args named pos =>
    .call (callee.moved f) (Expr.movedAll f args) (Expr.movedEntries f named) (f pos)
  | .member object property pos => .member (object.moved f) property (f pos)
  | .index object key pos => .index (object.moved f) (key.moved f) (f pos)
  | .slice object start? stop? pos =>
    .slice (object.moved f) (Expr.movedBound f start?) (Expr.movedBound f stop?) (f pos)
  | .choose subject arms pos => .choose (subject.moved f) (Arm.movedAll f arms) (f pos)

def Expr.movedAll (f : Position → Position) : List Expr → List Expr
  | [] => []
  | e :: rest => e.moved f :: Expr.movedAll f rest

def Expr.movedEntries (f : Position → Position) : List (String × Expr) → List (String × Expr)
  | [] => []
  | (key, e) :: rest => (key, e.moved f) :: Expr.movedEntries f rest

def Expr.movedBound (f : Position → Position) : Option Expr → Option Expr
  | none => none
  | some e => some (e.moved f)

def Arm.moved (f : Position → Position) : Arm → Arm
  | .mk pattern body pos => .mk (pattern.moved f) (body.moved f) (f pos)

def Arm.movedAll (f : Position → Position) : List Arm → List Arm
  | [] => []
  | arm :: rest => arm.moved f :: Arm.movedAll f rest

def ArmBody.moved (f : Position → Position) : ArmBody → ArmBody
  | .block stmts pos => .block (Stmt.movedAll f stmts) (f pos)
  | .expr value => .expr (value.moved f)

def Stmt.moved (f : Position → Position) : Stmt → Stmt
  | .declare name value pos => .declare name (value.moved f) (f pos)
  | .function name params body pos => .function name params (Stmt.movedAll f body) (f pos)
  | .ret value? pos => .ret (Expr.movedBound f value?) (f pos)
  | .cond test body bodyPos other? pos =>
    .cond (test.moved f) (Stmt.movedAll f body) (f bodyPos) (Stmt.movedOther f other?) (f pos)
  | .loop body bodyPos pos => .loop (Stmt.movedAll f body) (f bodyPos) (f pos)
  | .leave pos => .leave (f pos)
  | .block stmts pos => .block (Stmt.movedAll f stmts) (f pos)
  | .enum name variants pos => .enum name variants (f pos)
  | .frame kind param? body pos => .frame kind param? (Stmt.movedAll f body) (f pos)
  | .expr value => .expr (value.moved f)

def Stmt.movedAll (f : Position → Position) : List Stmt → List Stmt
  | [] => []
  | s :: rest => s.moved f :: Stmt.movedAll f rest

def Stmt.movedOther (f : Position → Position) : Option Stmt → Option Stmt
  | none => none
  | some s => some (s.moved f)

end

instance : Located Expr := ⟨Expr.moved⟩

instance : Located Arm := ⟨Arm.moved⟩

instance : Located ArmBody := ⟨ArmBody.moved⟩

instance : Located Stmt := ⟨Stmt.moved⟩

instance : Located Grammar.Arguments := ⟨fun f args => ⟨relocate f args.positional, relocate f args.named⟩⟩

variable (f : Position → Position)

theorem Expr.movedAll_eq (es : List Expr) : Expr.movedAll f es = relocate f es := by
  induction es with
  | nil => rfl
  | cons e es ih => rw [Expr.movedAll, ih]; rfl

theorem Expr.movedEntries_eq (entries : List (String × Expr)) : Expr.movedEntries f entries = relocate f entries := by
  induction entries with
  | nil => rfl
  | cons entry entries ih => rw [Expr.movedEntries, ih]; rfl

theorem Expr.movedBound_eq (e? : Option Expr) : Expr.movedBound f e? = relocate f e? := by
  cases e? <;> rfl

theorem Arm.movedAll_eq (arms : List Arm) : Arm.movedAll f arms = relocate f arms := by
  induction arms with
  | nil => rfl
  | cons arm arms ih => rw [Arm.movedAll, ih]; rfl

theorem Stmt.movedAll_eq (stmts : List Stmt) : Stmt.movedAll f stmts = relocate f stmts := by
  induction stmts with
  | nil => rfl
  | cons s stmts ih => rw [Stmt.movedAll, ih]; rfl

theorem Expr.pos_relocate (e : Expr) : (relocate f e).pos = f e.pos := by
  cases e <;> rfl

theorem Expr.isPlace_relocate (e : Expr) : (relocate f e).isPlace = e.isPlace := by
  cases e <;> rfl

theorem Program.foldDeclaration_relocate (s : Stmt) :
    foldDeclaration (relocate f s) = relocate f (foldDeclaration s) := by
  cases s with
  | expr e =>
      cases e with
      | assign target op? value pos =>
          cases target with
          | name name namePos => cases op? <;> rfl
          | _ => rfl
      | _ => rfl
  | _ => rfl

end Cairn
