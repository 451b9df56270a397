import Cairn.Program.Resolve
import Mathlib.Tactic.Common

/-!
# The nodes of a program

Statements, expressions and patterns are the nodes of a program. Every node has its children, in the order in which
they are read, and a path of child numbers leads to each node at any depth. Resolution leaves every node where it
stands.
-/

namespace Cairn

inductive Node where
  | stmt (s : Stmt)
  | expr (e : Expr)
  | pattern (p : Pattern)

def Arm.children : Arm → List Node
  | .mk p (.block stmts _) _ => .pattern p :: stmts.map .stmt
  | .mk p (.expr value) _ => [.pattern p, .expr value]

def Expr.children : Expr → List Node
  | .number _ _ | .text _ _ | .bool _ _ | .null _ | .fresh _ | .name _ _ => []
  | .array items _ => items.map .expr
  | .object entries _ => entries.map fun entry => .expr entry.2
  | .assign target _ value _ => [.expr target, .expr value]
  | .logical _ left right _ | .binary _ left right _ => [.expr left, .expr right]
  | .unary _ operand _ => [.expr operand]
  | .step _ _ target _ => [.expr target]
  | .call callee args named _ => .expr callee :: (args.map .expr ++ named.map fun entry => .expr entry.2)
  | .member owner _ _ => [.expr owner]
  | .index owner key _ => [.expr owner, .expr key]
  | .slice owner start? stop? _ => .expr owner :: (start?.toList.map .expr ++ stop?.toList.map .expr)
  | .choose subject arms _ => .expr subject :: arms.flatMap Arm.children

def Stmt.children : Stmt → List Node
  | .declare _ value _ => [.expr value]
  | .function _ _ body _ | .frame _ _ body _ | .loop body _ _ | .block body _ => body.map .stmt
  | .ret value? _ => value?.toList.map .expr
  | .cond test body _ other? _ => .expr test :: (body.map .stmt ++ other?.toList.map .stmt)
  | .leave _ | .enum _ _ _ => []
  | .expr value => [.expr value]

namespace Node

/-- The nodes right below a node. -/
def children : Node → List Node
  | .stmt s => s.children
  | .expr e => e.children
  | .pattern _ => []

/-- The node that a path of child numbers leads to. -/
def at? (n : Node) : List Nat → Option Node
  | [] => some n
  | i :: path =>
    match n.children[i]? with
    | some child => child.at? path
    | none => none

end Node

/-- The node that a path leads to from the top of a program. -/
def Program.at? (p : Program) : List Nat → Option Node
  | [] => none
  | i :: path =>
    match p[i]? with
    | some s => (Node.stmt s).at? path
    | none => none

/-! ## What holds at every depth -/

/-- `P` holds of the node and of all nodes below it. -/
def Node.Every (P : Node → Prop) (n : Node) : Prop := ∀ path m, n.at? path = some m → P m

section

variable {P Q : Node → Prop} {n : Node}

theorem Node.every_iff : n.Every P ↔ P n ∧ ∀ child ∈ n.children, child.Every P := by
  constructor
  · refine fun h => ⟨h [] n rfl, fun child hchild path m hm => ?_⟩
    obtain ⟨i, hi⟩ := List.getElem?_of_mem hchild
    exact h (i :: path) m (by rw [at?, hi]; exact hm)
  · rintro ⟨hself, hbelow⟩ path m hm
    cases path with
    | nil => cases hm; exact hself
    | cons i path =>
        rw [at?] at hm
        split at hm
        next child hi => exact hbelow child (List.mem_of_getElem? hi) path m hm
        next => cases hm

theorem Node.Every.imp (h : n.Every P) (hPQ : ∀ m, P m → Q m) : n.Every Q := fun path m hm => hPQ m (h path m hm)

theorem Program.every_iff {p : Program} :
    (∀ path m, p.at? path = some m → P m) ↔ ∀ s ∈ p, (Node.stmt s).Every P := by
  constructor
  · intro h s hs path m hm
    obtain ⟨i, hi⟩ := List.getElem?_of_mem hs
    exact h (i :: path) m (by rw [at?, hi]; exact hm)
  · intro h path m hm
    cases path with
    | nil => cases hm
    | cons i path =>
        rw [at?] at hm
        split at hm
        next s hi => exact h s (List.mem_of_getElem? hi) path m hm
        next => cases hm

end

/-! ## Resolution -/

section

variable (names : List String)

theorem Expr.resolveAll_eq_map (items : List Expr) : Expr.resolveAll names items = items.map (·.resolve names) := by
  induction items with
  | nil => rfl
  | cons e rest ih => rw [Expr.resolveAll, ih]; rfl

theorem Expr.resolveEntries_eq_map (entries : List (String × Expr)) :
    Expr.resolveEntries names entries = entries.map fun entry => (entry.1, entry.2.resolve names) := by
  induction entries with
  | nil => rfl
  | cons entry rest ih => rw [Expr.resolveEntries, ih]; rfl

theorem Arm.resolveAll_eq_map (arms : List Arm) : Arm.resolveAll names arms = arms.map (·.resolve names) := by
  induction arms with
  | nil => rfl
  | cons arm rest ih => rw [Arm.resolveAll, ih]; rfl

theorem Stmt.resolveAll_eq_map (stmts : List Stmt) : Stmt.resolveAll names stmts = stmts.map (·.resolve names) := by
  induction stmts with
  | nil => rfl
  | cons s rest ih => rw [Stmt.resolveAll, ih]; rfl

namespace Node

def resolve : Node → Node
  | .stmt s => .stmt (s.resolve names)
  | .expr e => .expr (e.resolve names)
  | .pattern p => .pattern (p.resolve names)

theorem children_resolve (n : Node) : (n.resolve names).children = n.children.map (resolve names) := by
  have harm (arm : Arm) : (arm.resolve names).children = arm.children.map (resolve names) := by
    obtain ⟨p, body, pos⟩ := arm
    cases body <;>
      simp [Arm.resolve, ArmBody.resolve, Arm.children, resolve, Stmt.resolveAll_eq_map, Function.comp_def]
  have hbound (bound? : Option Expr) : (Expr.resolveBound names bound?).toList.map .expr
      = (bound?.toList.map .expr).map (resolve names) := by
    cases bound? <;> rfl
  have hother (other? : Option Stmt) : (Stmt.resolveOther names other?).toList.map .stmt
      = (other?.toList.map .stmt).map (resolve names) := by
    cases other? <;> rfl
  cases n with
  | pattern p => rfl
  | expr e =>
      cases e <;>
        simp [resolve, children, Expr.resolve, Expr.children, Expr.resolveAll_eq_map, Expr.resolveEntries_eq_map,
          Arm.resolveAll_eq_map, hbound, harm, List.flatMap_map, List.map_flatMap, Function.comp_def]
  | stmt s =>
      cases s <;>
        simp [resolve, children, Stmt.resolve, Stmt.children, Stmt.resolveAll_eq_map, hbound, hother,
          Function.comp_def]

/-- Each node is resolved where it stands. -/
theorem at?_resolve (n : Node) (path : List Nat) : (n.resolve names).at? path = (n.at? path).map (resolve names) := by
  induction path generalizing n with
  | nil => rfl
  | cons i path ih =>
      rw [at?, at?, children_resolve, List.getElem?_map]
      cases n.children[i]? with
      | none => rfl
      | some child => exact ih child

end Node

end

theorem Program.at?_resolve (p : Program) (path : List Nat) :
    p.resolve.at? path = (p.at? path).map (Node.resolve (Stmt.variantNamesAll p)) := by
  cases path with
  | nil => rfl
  | cons i path =>
      rw [Program.resolve, Stmt.resolveAll_eq_map, at?, at?, List.getElem?_map]
      cases p[i]? with
      | none => rfl
      | some s => exact Node.at?_resolve _ (.stmt s) path

end Cairn
