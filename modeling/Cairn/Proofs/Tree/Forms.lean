import Cairn.Proofs.Tree.Nodes

/-!
# Nodes in form

Not every tree of statements and expressions is one that can run: an assignment needs a place to assign to, the other
branch of an `if` is an `if` or a block, a draw block has no parameter. A node is in form if it is so by itself; it is
regular if it is no declaration either, which only the top of a program may have.
-/

namespace Cairn

/-- Can the statement stand after `else`? -/
def Stmt.isBranch : Stmt → Bool
  | .cond _ _ _ _ _ | .block _ _ => true
  | _ => false

namespace Node

/-- Is the node in form, whatever is below it? -/
def inForm : Node → Bool
  | .expr (.assign target _ _ _) | .expr (.step _ _ target _) => target.isPlace
  | .stmt (.cond _ _ _ other? _) => other?.all Stmt.isBranch
  | .stmt (.frame .draw param? _ _) => param?.isNone
  | _ => true

def isDeclaration : Node → Bool
  | .stmt (.declare _ _ _) => true
  | _ => false

/-- In form and no declaration, and so is all below it. -/
def Regular (n : Node) : Prop := n.Every fun m => m.inForm = true ∧ m.isDeclaration = false

theorem Regular.of_children {n : Node} (hform : n.inForm = true) (hdeclares : n.isDeclaration = false)
    (h : ∀ child ∈ n.children, child.Regular) : n.Regular :=
  every_iff.2 ⟨⟨hform, hdeclares⟩, h⟩

theorem Regular.inForm_every {n : Node} (h : n.Regular) : n.Every fun m => m.inForm = true := h.imp fun _ => And.left

end Node

def Expr.Regular (e : Expr) : Prop := (Node.expr e).Regular

def Stmt.Regular (s : Stmt) : Prop := (Node.stmt s).Regular

@[simp] theorem Node.regular_expr {e : Expr} : (Node.expr e).Regular ↔ e.Regular := Iff.rfl

@[simp] theorem Node.regular_stmt {s : Stmt} : (Node.stmt s).Regular ↔ s.Regular := Iff.rfl

def Arm.Regular (arm : Arm) : Prop := ∀ child ∈ arm.children, child.Regular

def ArmBody.Regular : ArmBody → Prop
  | .block stmts _ => ∀ s ∈ stmts, s.Regular
  | .expr value => value.Regular

theorem Pattern.regular (p : Pattern) : (Node.pattern p).Regular :=
  .of_children rfl rfl fun _ h => absurd h List.not_mem_nil

theorem Arm.Regular.mk {p : Pattern} {body : ArmBody} {pos : Position} (h : body.Regular) :
    (Arm.mk p body pos).Regular := by
  cases body with
  | block stmts _ => simpa [Arm.Regular, Arm.children, p.regular, ArmBody.Regular] using h
  | expr value => simpa [Arm.Regular, Arm.children, p.regular, ArmBody.Regular] using h

/-! ## Resolution -/

section

variable (names : List String)

theorem Expr.isPlace_resolve (e : Expr) : (e.resolve names).isPlace = e.isPlace := by
  cases e <;> rfl

theorem Stmt.isBranch_resolve (s : Stmt) : (s.resolve names).isBranch = s.isBranch := by
  cases s <;> rfl

theorem Node.isDeclaration_resolve (n : Node) : (n.resolve names).isDeclaration = n.isDeclaration := by
  cases n with
  | stmt s => cases s <;> rfl
  | expr e => rfl
  | pattern p => rfl

theorem Node.inForm_resolve (n : Node) : (n.resolve names).inForm = n.inForm := by
  cases n with
  | pattern p => rfl
  | expr e =>
      cases e with
      | assign target op? value pos => exact target.isPlace_resolve names
      | step direction early target pos => exact target.isPlace_resolve names
      | _ => rfl
  | stmt s =>
      cases s with
      | cond test body bodyPos other? pos =>
          cases other? with
          | none => rfl
          | some other => exact other.isBranch_resolve names
      | frame kind param? body pos => cases kind <;> rfl
      | _ => rfl

end

end Cairn
