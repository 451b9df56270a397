import Cairn.Proofs.Tree.Nodes

/-!
# Resolution changes patterns only

A map of patterns is applied to every pattern of a program at once, and everything else stays. Resolution is such a
map, so two programs that differ in nothing but their patterns are what it is given and what it gives. The names that
it looks for are declared outside of patterns, and it finds them again in its own result.
-/

namespace Cairn

/-! ## A map of all patterns -/

mutual

def Expr.mapPatterns (f : Pattern → Pattern) : Expr → Expr
  | .number value pos => .number value pos
  | .text value pos => .text value pos
  | .bool value pos => .bool value pos
  | .null pos => .null pos
  | .fresh pos => .fresh pos
  | .name name pos => .name name pos
  | .array items pos => .array (Expr.mapPatternsAll f items) pos
  | .object entries pos => .object (Expr.mapPatternsEntries f entries) pos
  | .assign target op? value pos => .assign (target.mapPatterns f) op? (value.mapPatterns f) pos
  | .logical op left right pos => .logical op (left.mapPatterns f) (right.mapPatterns f) pos
  | .binary op left right pos => .binary op (left.mapPatterns f) (right.mapPatterns f) pos
  | .unary op operand pos => .unary op (operand.mapPatterns f) pos
  | .step direction early target pos => .step direction early (target.mapPatterns f) pos
  | .call callee args named pos =>
    .call (callee.mapPatterns f) (Expr.mapPatternsAll f args) (Expr.mapPatternsEntries f named) pos
  | .member object property pos => .member (object.mapPatterns f) property pos
  | .index object key pos => .index (object.mapPatterns f) (key.mapPatterns f) pos
  | .slice object start? stop? pos =>
    .slice (object.mapPatterns f) (Expr.mapPatternsBound f start?) (Expr.mapPatternsBound f stop?) pos
  | .choose subject arms pos => .choose (subject.mapPatterns f) (Arm.mapPatternsAll f arms) pos

def Expr.mapPatternsAll (f : Pattern → Pattern) : List Expr → List Expr
  | [] => []
  | e :: rest => e.mapPatterns f :: Expr.mapPatternsAll f rest

def Expr.mapPatternsEntries (f : Pattern → Pattern) : List (String × Expr) → List (String × Expr)
  | [] => []
  | (key, e) :: rest => (key, e.mapPatterns f) :: Expr.mapPatternsEntries f rest

def Expr.mapPatternsBound (f : Pattern → Pattern) : Option Expr → Option Expr
  | none => none
  | some e => some (e.mapPatterns f)

def Arm.mapPatterns (f : Pattern → Pattern) : Arm → Arm
  | .mk pattern body pos => .mk (f pattern) (body.mapPatterns f) pos

def Arm.mapPatternsAll (f : Pattern → Pattern) : List Arm → List Arm
  | [] => []
  | arm :: rest => arm.mapPatterns f :: Arm.mapPatternsAll f rest

def ArmBody.mapPatterns (f : Pattern → Pattern) : ArmBody → ArmBody
  | .block stmts pos => .block (Stmt.mapPatternsAll f stmts) pos
  | .expr value => .expr (value.mapPatterns f)

def Stmt.mapPatterns (f : Pattern → Pattern) : Stmt → Stmt
  | .declare name value pos => .declare name (value.mapPatterns f) pos
  | .function name params body pos => .function name params (Stmt.mapPatternsAll f body) pos
  | .ret value? pos => .ret (Expr.mapPatternsBound f value?) pos
  | .cond test body bodyPos other? pos =>
    .cond (test.mapPatterns f) (Stmt.mapPatternsAll f body) bodyPos (Stmt.mapPatternsOther f other?) pos
  | .loop body bodyPos pos => .loop (Stmt.mapPatternsAll f body) bodyPos pos
  | .leave pos => .leave pos
  | .block stmts pos => .block (Stmt.mapPatternsAll f stmts) pos
  | .enum name variants pos => .enum name variants pos
  | .frame kind param? body pos => .frame kind param? (Stmt.mapPatternsAll f body) pos
  | .expr value => .expr (value.mapPatterns f)

def Stmt.mapPatternsAll (f : Pattern → Pattern) : List Stmt → List Stmt
  | [] => []
  | s :: rest => s.mapPatterns f :: Stmt.mapPatternsAll f rest

def Stmt.mapPatternsOther (f : Pattern → Pattern) : Option Stmt → Option Stmt
  | none => none
  | some s => some (s.mapPatterns f)

end

/-- The program with every pattern blotted out: its statements, expressions, names and positions, and nothing of what
its arms accept. -/
def Program.bare (p : Program) : Program := Stmt.mapPatternsAll (fun _ => .wildcard .start) p

/-! ## One map after another -/

section

variable (f g : Pattern → Pattern)

mutual

theorem Expr.mapPatterns_mapPatterns : (e : Expr) →
    (e.mapPatterns f).mapPatterns g = e.mapPatterns (g ∘ f)
  | .number _ _ | .text _ _ | .bool _ _ | .null _ | .fresh _ | .name _ _ => rfl
  | .array items _ => by simp only [Expr.mapPatterns, Expr.mapPatternsAll_mapPatternsAll items]
  | .object entries _ => by simp only [Expr.mapPatterns, Expr.mapPatternsEntries_mapPatternsEntries entries]
  | .assign target _ value _ => by
      simp only [Expr.mapPatterns, Expr.mapPatterns_mapPatterns target, Expr.mapPatterns_mapPatterns value]
  | .logical _ left right _ => by
      simp only [Expr.mapPatterns, Expr.mapPatterns_mapPatterns left, Expr.mapPatterns_mapPatterns right]
  | .binary _ left right _ => by
      simp only [Expr.mapPatterns, Expr.mapPatterns_mapPatterns left, Expr.mapPatterns_mapPatterns right]
  | .unary _ operand _ => by simp only [Expr.mapPatterns, Expr.mapPatterns_mapPatterns operand]
  | .step _ _ target _ => by simp only [Expr.mapPatterns, Expr.mapPatterns_mapPatterns target]
  | .call callee args named _ => by
      simp only [Expr.mapPatterns, Expr.mapPatterns_mapPatterns callee, Expr.mapPatternsAll_mapPatternsAll args,
        Expr.mapPatternsEntries_mapPatternsEntries named]
  | .member object _ _ => by simp only [Expr.mapPatterns, Expr.mapPatterns_mapPatterns object]
  | .index object key _ => by
      simp only [Expr.mapPatterns, Expr.mapPatterns_mapPatterns object, Expr.mapPatterns_mapPatterns key]
  | .slice object start? stop? _ => by
      simp only [Expr.mapPatterns, Expr.mapPatterns_mapPatterns object,
        Expr.mapPatternsBound_mapPatternsBound start?, Expr.mapPatternsBound_mapPatternsBound stop?]
  | .choose subject arms _ => by
      simp only [Expr.mapPatterns, Expr.mapPatterns_mapPatterns subject, Arm.mapPatternsAll_mapPatternsAll arms]

theorem Expr.mapPatternsAll_mapPatternsAll : (es : List Expr) →
    Expr.mapPatternsAll g (Expr.mapPatternsAll f es) = Expr.mapPatternsAll (g ∘ f) es
  | [] => rfl
  | e :: rest => by
      simp only [Expr.mapPatternsAll, Expr.mapPatterns_mapPatterns e, Expr.mapPatternsAll_mapPatternsAll rest]

theorem Expr.mapPatternsEntries_mapPatternsEntries : (entries : List (String × Expr)) →
    Expr.mapPatternsEntries g (Expr.mapPatternsEntries f entries) = Expr.mapPatternsEntries (g ∘ f) entries
  | [] => rfl
  | (_, e) :: rest => by
      simp only [Expr.mapPatternsEntries, Expr.mapPatterns_mapPatterns e,
        Expr.mapPatternsEntries_mapPatternsEntries rest]

theorem Expr.mapPatternsBound_mapPatternsBound : (e? : Option Expr) →
    Expr.mapPatternsBound g (Expr.mapPatternsBound f e?) = Expr.mapPatternsBound (g ∘ f) e?
  | none => rfl
  | some e => by simp only [Expr.mapPatternsBound, Expr.mapPatterns_mapPatterns e]

theorem Arm.mapPatterns_mapPatterns : (arm : Arm) →
    (arm.mapPatterns f).mapPatterns g = arm.mapPatterns (g ∘ f)
  | .mk _ body _ => by simp only [Arm.mapPatterns, ArmBody.mapPatterns_mapPatterns body, Function.comp_apply]

theorem Arm.mapPatternsAll_mapPatternsAll : (arms : List Arm) →
    Arm.mapPatternsAll g (Arm.mapPatternsAll f arms) = Arm.mapPatternsAll (g ∘ f) arms
  | [] => rfl
  | arm :: rest => by
      simp only [Arm.mapPatternsAll, Arm.mapPatterns_mapPatterns arm, Arm.mapPatternsAll_mapPatternsAll rest]

theorem ArmBody.mapPatterns_mapPatterns : (body : ArmBody) →
    (body.mapPatterns f).mapPatterns g = body.mapPatterns (g ∘ f)
  | .block stmts _ => by simp only [ArmBody.mapPatterns, Stmt.mapPatternsAll_mapPatternsAll stmts]
  | .expr value => by simp only [ArmBody.mapPatterns, Expr.mapPatterns_mapPatterns value]

theorem Stmt.mapPatterns_mapPatterns : (s : Stmt) →
    (s.mapPatterns f).mapPatterns g = s.mapPatterns (g ∘ f)
  | .leave _ | .enum _ _ _ => rfl
  | .declare _ value _ => by simp only [Stmt.mapPatterns, Expr.mapPatterns_mapPatterns value]
  | .function _ _ body _ => by simp only [Stmt.mapPatterns, Stmt.mapPatternsAll_mapPatternsAll body]
  | .ret value? _ => by simp only [Stmt.mapPatterns, Expr.mapPatternsBound_mapPatternsBound value?]
  | .cond test body _ other? _ => by
      simp only [Stmt.mapPatterns, Expr.mapPatterns_mapPatterns test, Stmt.mapPatternsAll_mapPatternsAll body,
        Stmt.mapPatternsOther_mapPatternsOther other?]
  | .loop body _ _ => by simp only [Stmt.mapPatterns, Stmt.mapPatternsAll_mapPatternsAll body]
  | .block stmts _ => by simp only [Stmt.mapPatterns, Stmt.mapPatternsAll_mapPatternsAll stmts]
  | .frame _ _ body _ => by simp only [Stmt.mapPatterns, Stmt.mapPatternsAll_mapPatternsAll body]
  | .expr value => by simp only [Stmt.mapPatterns, Expr.mapPatterns_mapPatterns value]

theorem Stmt.mapPatternsAll_mapPatternsAll : (stmts : List Stmt) →
    Stmt.mapPatternsAll g (Stmt.mapPatternsAll f stmts) = Stmt.mapPatternsAll (g ∘ f) stmts
  | [] => rfl
  | s :: rest => by
      simp only [Stmt.mapPatternsAll, Stmt.mapPatterns_mapPatterns s, Stmt.mapPatternsAll_mapPatternsAll rest]

theorem Stmt.mapPatternsOther_mapPatternsOther : (s? : Option Stmt) →
    Stmt.mapPatternsOther g (Stmt.mapPatternsOther f s?) = Stmt.mapPatternsOther (g ∘ f) s?
  | none => rfl
  | some s => by simp only [Stmt.mapPatternsOther, Stmt.mapPatterns_mapPatterns s]

end

/-! ## The variants that are declared -/

mutual

theorem Stmt.variantNames_mapPatterns : (s : Stmt) → (s.mapPatterns f).variantNames = s.variantNames
  | .enum _ _ _ | .declare _ _ _ | .ret _ _ | .leave _ | .expr _ => rfl
  | .function _ _ body _ | .loop body _ _ | .block body _ | .frame _ _ body _ => by
      simp only [Stmt.mapPatterns, Stmt.variantNames, Stmt.variantNamesAll_mapPatternsAll body]
  | .cond _ body _ other? _ => by
      simp only [Stmt.mapPatterns, Stmt.variantNames, Stmt.variantNamesAll_mapPatternsAll body,
        Stmt.variantNamesOther_mapPatternsOther other?]

theorem Stmt.variantNamesAll_mapPatternsAll : (stmts : List Stmt) →
    Stmt.variantNamesAll (Stmt.mapPatternsAll f stmts) = Stmt.variantNamesAll stmts
  | [] => rfl
  | s :: rest => by
      simp only [Stmt.mapPatternsAll, Stmt.variantNamesAll, Stmt.variantNames_mapPatterns s,
        Stmt.variantNamesAll_mapPatternsAll rest]

theorem Stmt.variantNamesOther_mapPatternsOther : (s? : Option Stmt) →
    Stmt.variantNamesOther (Stmt.mapPatternsOther f s?) = Stmt.variantNamesOther s?
  | none => rfl
  | some s => by simp only [Stmt.mapPatternsOther, Stmt.variantNamesOther, Stmt.variantNames_mapPatterns s]

end

end

/-! ## Resolution is a map of patterns -/

section

variable (names : List String)

mutual

theorem Expr.resolve_eq_mapPatterns : (e : Expr) → e.resolve names = e.mapPatterns (Pattern.resolve names)
  | .number _ _ | .text _ _ | .bool _ _ | .null _ | .fresh _ | .name _ _ => rfl
  | .array items _ => by simp only [Expr.resolve, Expr.mapPatterns, Expr.resolveAll_eq_mapPatternsAll items]
  | .object entries _ => by
      simp only [Expr.resolve, Expr.mapPatterns, Expr.resolveEntries_eq_mapPatternsEntries entries]
  | .assign target _ value _ => by
      simp only [Expr.resolve, Expr.mapPatterns, Expr.resolve_eq_mapPatterns target,
        Expr.resolve_eq_mapPatterns value]
  | .logical _ left right _ => by
      simp only [Expr.resolve, Expr.mapPatterns, Expr.resolve_eq_mapPatterns left, Expr.resolve_eq_mapPatterns right]
  | .binary _ left right _ => by
      simp only [Expr.resolve, Expr.mapPatterns, Expr.resolve_eq_mapPatterns left, Expr.resolve_eq_mapPatterns right]
  | .unary _ operand _ => by simp only [Expr.resolve, Expr.mapPatterns, Expr.resolve_eq_mapPatterns operand]
  | .step _ _ target _ => by simp only [Expr.resolve, Expr.mapPatterns, Expr.resolve_eq_mapPatterns target]
  | .call callee args named _ => by
      simp only [Expr.resolve, Expr.mapPatterns, Expr.resolve_eq_mapPatterns callee,
        Expr.resolveAll_eq_mapPatternsAll args, Expr.resolveEntries_eq_mapPatternsEntries named]
  | .member object _ _ => by simp only [Expr.resolve, Expr.mapPatterns, Expr.resolve_eq_mapPatterns object]
  | .index object key _ => by
      simp only [Expr.resolve, Expr.mapPatterns, Expr.resolve_eq_mapPatterns object, Expr.resolve_eq_mapPatterns key]
  | .slice object start? stop? _ => by
      simp only [Expr.resolve, Expr.mapPatterns, Expr.resolve_eq_mapPatterns object,
        Expr.resolveBound_eq_mapPatternsBound start?, Expr.resolveBound_eq_mapPatternsBound stop?]
  | .choose subject arms _ => by
      simp only [Expr.resolve, Expr.mapPatterns, Expr.resolve_eq_mapPatterns subject,
        Arm.resolveAll_eq_mapPatternsAll arms]

theorem Expr.resolveAll_eq_mapPatternsAll : (es : List Expr) →
    Expr.resolveAll names es = Expr.mapPatternsAll (Pattern.resolve names) es
  | [] => rfl
  | e :: rest => by
      simp only [Expr.resolveAll, Expr.mapPatternsAll, Expr.resolve_eq_mapPatterns e,
        Expr.resolveAll_eq_mapPatternsAll rest]

theorem Expr.resolveEntries_eq_mapPatternsEntries : (entries : List (String × Expr)) →
    Expr.resolveEntries names entries = Expr.mapPatternsEntries (Pattern.resolve names) entries
  | [] => rfl
  | (_, e) :: rest => by
      simp only [Expr.resolveEntries, Expr.mapPatternsEntries, Expr.resolve_eq_mapPatterns e,
        Expr.resolveEntries_eq_mapPatternsEntries rest]

theorem Expr.resolveBound_eq_mapPatternsBound : (e? : Option Expr) →
    Expr.resolveBound names e? = Expr.mapPatternsBound (Pattern.resolve names) e?
  | none => rfl
  | some e => by simp only [Expr.resolveBound, Expr.mapPatternsBound, Expr.resolve_eq_mapPatterns e]

theorem Arm.resolve_eq_mapPatterns : (arm : Arm) → arm.resolve names = arm.mapPatterns (Pattern.resolve names)
  | .mk _ body _ => by simp only [Arm.resolve, Arm.mapPatterns, ArmBody.resolve_eq_mapPatterns body]

theorem Arm.resolveAll_eq_mapPatternsAll : (arms : List Arm) →
    Arm.resolveAll names arms = Arm.mapPatternsAll (Pattern.resolve names) arms
  | [] => rfl
  | arm :: rest => by
      simp only [Arm.resolveAll, Arm.mapPatternsAll, Arm.resolve_eq_mapPatterns arm,
        Arm.resolveAll_eq_mapPatternsAll rest]

theorem ArmBody.resolve_eq_mapPatterns : (body : ArmBody) →
    body.resolve names = body.mapPatterns (Pattern.resolve names)
  | .block stmts _ => by simp only [ArmBody.resolve, ArmBody.mapPatterns, Stmt.resolveAll_eq_mapPatternsAll stmts]
  | .expr value => by simp only [ArmBody.resolve, ArmBody.mapPatterns, Expr.resolve_eq_mapPatterns value]

theorem Stmt.resolve_eq_mapPatterns : (s : Stmt) → s.resolve names = s.mapPatterns (Pattern.resolve names)
  | .leave _ | .enum _ _ _ => rfl
  | .declare _ value _ | .expr value => by
      simp only [Stmt.resolve, Stmt.mapPatterns, Expr.resolve_eq_mapPatterns value]
  | .function _ _ body _ | .loop body _ _ | .block body _ | .frame _ _ body _ => by
      simp only [Stmt.resolve, Stmt.mapPatterns, Stmt.resolveAll_eq_mapPatternsAll body]
  | .ret value? _ => by simp only [Stmt.resolve, Stmt.mapPatterns, Expr.resolveBound_eq_mapPatternsBound value?]
  | .cond test body _ other? _ => by
      simp only [Stmt.resolve, Stmt.mapPatterns, Expr.resolve_eq_mapPatterns test,
        Stmt.resolveAll_eq_mapPatternsAll body, Stmt.resolveOther_eq_mapPatternsOther other?]

theorem Stmt.resolveAll_eq_mapPatternsAll : (stmts : List Stmt) →
    Stmt.resolveAll names stmts = Stmt.mapPatternsAll (Pattern.resolve names) stmts
  | [] => rfl
  | s :: rest => by
      simp only [Stmt.resolveAll, Stmt.mapPatternsAll, Stmt.resolve_eq_mapPatterns s,
        Stmt.resolveAll_eq_mapPatternsAll rest]

theorem Stmt.resolveOther_eq_mapPatternsOther : (s? : Option Stmt) →
    Stmt.resolveOther names s? = Stmt.mapPatternsOther (Pattern.resolve names) s?
  | none => rfl
  | some s => by simp only [Stmt.resolveOther, Stmt.mapPatternsOther, Stmt.resolve_eq_mapPatterns s]

end

variable {names}

theorem Pattern.resolve_resolve (pattern : Pattern) :
    (pattern.resolve names).resolve names = pattern.resolve names := by
  cases pattern with
  | binding name pos => by_cases h : name ∈ names <;> simp [Pattern.resolve, h]
  | _ => rfl

theorem Pattern.resolve_binding_eq_variant {name : String} {pos : Position} :
    (Pattern.binding name pos).resolve names = .variant none name [] pos ↔ name ∈ names := by
  by_cases h : name ∈ names <;> simp [Pattern.resolve, h]

theorem Pattern.resolve_binding_eq_self {name : String} {pos : Position} :
    (Pattern.binding name pos).resolve names = .binding name pos ↔ name ∉ names := by
  by_cases h : name ∈ names <;> simp [Pattern.resolve, h]

theorem Pattern.resolve_of_ne_binding {pattern : Pattern} (h : ∀ name pos, pattern ≠ .binding name pos) :
    pattern.resolve names = pattern := by
  cases pattern with
  | binding name pos => exact absurd rfl (h name pos)
  | _ => rfl

end

namespace Program

theorem resolve_eq_mapPatterns (p : Program) :
    p.resolve = Stmt.mapPatternsAll (Pattern.resolve (Stmt.variantNamesAll p)) p :=
  Stmt.resolveAll_eq_mapPatternsAll _ p

theorem bare_resolve (p : Program) : p.resolve.bare = p.bare := by
  rw [bare, resolve_eq_mapPatterns, Stmt.mapPatternsAll_mapPatternsAll]
  rfl

theorem variantNamesAll_resolve (p : Program) : Stmt.variantNamesAll p.resolve = Stmt.variantNamesAll p := by
  rw [resolve_eq_mapPatterns, Stmt.variantNamesAll_mapPatternsAll]

theorem resolve_resolve (p : Program) : p.resolve.resolve = p.resolve := by
  have hpatterns : Pattern.resolve (Stmt.variantNamesAll p) ∘ Pattern.resolve (Stmt.variantNamesAll p)
      = Pattern.resolve (Stmt.variantNamesAll p) := funext Pattern.resolve_resolve
  rw [resolve_eq_mapPatterns p.resolve, variantNamesAll_resolve, resolve_eq_mapPatterns p,
    Stmt.mapPatternsAll_mapPatternsAll, hpatterns]

theorem at?_resolve_pattern {p : Program} {path : List Nat} {pattern : Pattern}
    (h : p.at? path = some (.pattern pattern)) :
    p.resolve.at? path = some (.pattern (pattern.resolve (Stmt.variantNamesAll p))) := by
  rw [at?_resolve, h]
  rfl

/-- Resolution rewrites the bare names that it collected and nothing else: with all patterns blotted out the program is
the one before; at every place where a pattern stood, a pattern stands, and it is another one just if it was a bare name
among those collected; the names are collected again from the result, and a second pass changes nothing. -/
theorem resolve_rewrites_collected_names (p : Program) :
    p.resolve.bare = p.bare ∧
    (∀ path pattern, p.at? path = some (.pattern pattern) →
      ∃ resolved, p.resolve.at? path = some (.pattern resolved) ∧
        (∀ name pos, pattern = .binding name pos →
          (resolved = .variant none name [] pos ↔ name ∈ Stmt.variantNamesAll p) ∧
          (resolved = .binding name pos ↔ name ∉ Stmt.variantNamesAll p)) ∧
        ((∀ name pos, pattern ≠ .binding name pos) → resolved = pattern)) ∧
    Stmt.variantNamesAll p.resolve = Stmt.variantNamesAll p ∧
    p.resolve.resolve = p.resolve := by
  refine ⟨bare_resolve p, fun path pattern h => ?_, variantNamesAll_resolve p, resolve_resolve p⟩
  refine ⟨_, at?_resolve_pattern h, ?_, Pattern.resolve_of_ne_binding⟩
  rintro name pos rfl
  exact ⟨Pattern.resolve_binding_eq_variant, Pattern.resolve_binding_eq_self⟩

end Program

end Cairn
