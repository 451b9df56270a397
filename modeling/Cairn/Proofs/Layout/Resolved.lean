import Cairn.Program.Resolve
import Cairn.Proofs.Layout.Moved

/-!
# Resolution at other positions

Resolution looks at names and never at positions, so it makes no difference whether positions are changed before it or
after it.
-/

namespace Cairn

open Located (relocate)

variable (f : Position → Position)

/-! ## The variants that are declared -/

mutual

theorem Stmt.variantNames_moved : (s : Stmt) → (s.moved f).variantNames = s.variantNames
  | .enum _ _ _ | .declare _ _ _ | .ret _ _ | .leave _ | .expr _ => rfl
  | .function _ _ body _ => by simp only [Stmt.moved, Stmt.variantNames, Stmt.variantNamesAll_moved body]
  | .cond _ body _ other? _ => by
      simp only [Stmt.moved, Stmt.variantNames, Stmt.variantNamesAll_moved body, Stmt.variantNamesOther_moved other?]
  | .loop body _ _ => by simp only [Stmt.moved, Stmt.variantNames, Stmt.variantNamesAll_moved body]
  | .block stmts _ => by simp only [Stmt.moved, Stmt.variantNames, Stmt.variantNamesAll_moved stmts]
  | .frame _ _ body _ => by simp only [Stmt.moved, Stmt.variantNames, Stmt.variantNamesAll_moved body]

theorem Stmt.variantNamesAll_moved : (stmts : List Stmt) →
    Stmt.variantNamesAll (Stmt.movedAll f stmts) = Stmt.variantNamesAll stmts
  | [] => rfl
  | s :: rest => by
      simp only [Stmt.movedAll, Stmt.variantNamesAll, Stmt.variantNames_moved s, Stmt.variantNamesAll_moved rest]

theorem Stmt.variantNamesOther_moved : (s? : Option Stmt) →
    Stmt.variantNamesOther (Stmt.movedOther f s?) = Stmt.variantNamesOther s?
  | none => rfl
  | some s => by simp only [Stmt.movedOther, Stmt.variantNamesOther, Stmt.variantNames_moved s]

end

/-! ## Patterns -/

variable (names : List String)

theorem Pattern.resolve_moved (pattern : Pattern) :
    (pattern.moved f).resolve names = (pattern.resolve names).moved f := by
  cases pattern with
  | binding name pos =>
      simp only [Pattern.moved, Pattern.resolve]
      split <;> rfl
  | _ => rfl

mutual

theorem Expr.resolve_moved : (e : Expr) → (e.moved f).resolve names = (e.resolve names).moved f
  | .number _ _ | .text _ _ | .bool _ _ | .null _ | .fresh _ | .name _ _ => rfl
  | .array items _ => by
      simp only [Expr.moved, Expr.resolve, Expr.resolveAll_moved items]
  | .object entries _ => by
      simp only [Expr.moved, Expr.resolve, Expr.resolveEntries_moved entries]
  | .assign target _ value _ => by
      simp only [Expr.moved, Expr.resolve, Expr.resolve_moved target, Expr.resolve_moved value]
  | .logical _ left right _ => by
      simp only [Expr.moved, Expr.resolve, Expr.resolve_moved left, Expr.resolve_moved right]
  | .binary _ left right _ => by
      simp only [Expr.moved, Expr.resolve, Expr.resolve_moved left, Expr.resolve_moved right]
  | .unary _ operand _ => by
      simp only [Expr.moved, Expr.resolve, Expr.resolve_moved operand]
  | .step _ _ target _ => by
      simp only [Expr.moved, Expr.resolve, Expr.resolve_moved target]
  | .call callee args named _ => by
      simp only [Expr.moved, Expr.resolve, Expr.resolve_moved callee, Expr.resolveAll_moved args,
        Expr.resolveEntries_moved named]
  | .member object _ _ => by
      simp only [Expr.moved, Expr.resolve, Expr.resolve_moved object]
  | .index object key _ => by
      simp only [Expr.moved, Expr.resolve, Expr.resolve_moved object, Expr.resolve_moved key]
  | .slice object start? stop? _ => by
      simp only [Expr.moved, Expr.resolve, Expr.resolve_moved object, Expr.resolveBound_moved start?,
        Expr.resolveBound_moved stop?]
  | .choose subject arms _ => by
      simp only [Expr.moved, Expr.resolve, Expr.resolve_moved subject, Arm.resolveAll_moved arms]

theorem Expr.resolveAll_moved : (es : List Expr) →
    Expr.resolveAll names (Expr.movedAll f es) = Expr.movedAll f (Expr.resolveAll names es)
  | [] => rfl
  | e :: rest => by
      simp only [Expr.movedAll, Expr.resolveAll, Expr.resolve_moved e, Expr.resolveAll_moved rest]

theorem Expr.resolveEntries_moved : (entries : List (String × Expr)) →
    Expr.resolveEntries names (Expr.movedEntries f entries) = Expr.movedEntries f (Expr.resolveEntries names entries)
  | [] => rfl
  | (_, e) :: rest => by
      simp only [Expr.movedEntries, Expr.resolveEntries, Expr.resolve_moved e, Expr.resolveEntries_moved rest]

theorem Expr.resolveBound_moved : (e? : Option Expr) →
    Expr.resolveBound names (Expr.movedBound f e?) = Expr.movedBound f (Expr.resolveBound names e?)
  | none => rfl
  | some e => by simp only [Expr.movedBound, Expr.resolveBound, Expr.resolve_moved e]

theorem Arm.resolve_moved : (arm : Arm) → (arm.moved f).resolve names = (arm.resolve names).moved f
  | .mk pattern body _ => by
      simp only [Arm.moved, Arm.resolve, Pattern.resolve_moved f names pattern, ArmBody.resolve_moved body]

theorem Arm.resolveAll_moved : (arms : List Arm) →
    Arm.resolveAll names (Arm.movedAll f arms) = Arm.movedAll f (Arm.resolveAll names arms)
  | [] => rfl
  | arm :: rest => by
      simp only [Arm.movedAll, Arm.resolveAll, Arm.resolve_moved arm, Arm.resolveAll_moved rest]

theorem ArmBody.resolve_moved : (body : ArmBody) → (body.moved f).resolve names = (body.resolve names).moved f
  | .block stmts _ => by simp only [ArmBody.moved, ArmBody.resolve, Stmt.resolveAll_moved stmts]
  | .expr value => by simp only [ArmBody.moved, ArmBody.resolve, Expr.resolve_moved value]

theorem Stmt.resolve_moved : (s : Stmt) → (s.moved f).resolve names = (s.resolve names).moved f
  | .leave _ | .enum _ _ _ => rfl
  | .declare _ value _ => by simp only [Stmt.moved, Stmt.resolve, Expr.resolve_moved value]
  | .function _ _ body _ => by simp only [Stmt.moved, Stmt.resolve, Stmt.resolveAll_moved body]
  | .ret value? _ => by simp only [Stmt.moved, Stmt.resolve, Expr.resolveBound_moved value?]
  | .cond test body _ other? _ => by
      simp only [Stmt.moved, Stmt.resolve, Expr.resolve_moved test, Stmt.resolveAll_moved body,
        Stmt.resolveOther_moved other?]
  | .loop body _ _ => by simp only [Stmt.moved, Stmt.resolve, Stmt.resolveAll_moved body]
  | .block stmts _ => by simp only [Stmt.moved, Stmt.resolve, Stmt.resolveAll_moved stmts]
  | .frame _ _ body _ => by simp only [Stmt.moved, Stmt.resolve, Stmt.resolveAll_moved body]
  | .expr value => by simp only [Stmt.moved, Stmt.resolve, Expr.resolve_moved value]

theorem Stmt.resolveAll_moved : (stmts : List Stmt) →
    Stmt.resolveAll names (Stmt.movedAll f stmts) = Stmt.movedAll f (Stmt.resolveAll names stmts)
  | [] => rfl
  | s :: rest => by
      simp only [Stmt.movedAll, Stmt.resolveAll, Stmt.resolve_moved s, Stmt.resolveAll_moved rest]

theorem Stmt.resolveOther_moved : (s? : Option Stmt) →
    Stmt.resolveOther names (Stmt.movedOther f s?) = Stmt.movedOther f (Stmt.resolveOther names s?)
  | none => rfl
  | some s => by simp only [Stmt.movedOther, Stmt.resolveOther, Stmt.resolve_moved s]

end

theorem Program.resolve_relocate (p : Program) : Program.resolve (relocate f p) = relocate f p.resolve := by
  rw [Program.resolve, Program.resolve, ← Stmt.movedAll_eq, ← Stmt.movedAll_eq, Stmt.variantNamesAll_moved,
    Stmt.resolveAll_moved]

end Cairn
