import Cairn.Program.Parser
import Cairn.Proofs.Tree.Nodes
import Cairn.Token.Lexer
import Mathlib

/-!
# Which enumerations resolution sees

A bare name in a pattern becomes a variant just if an enumeration declares it that is reached from statement to
statement. An enumeration in the block of an arm stands below an expression, and resolution does not see it.
-/

namespace Cairn

/-! ## Enumerations -/

/-- The statement declares a variant of this name without fields. -/
def Stmt.Introduces (name : String) : Stmt → Prop
  | .enum _ variants _ => ∃ v ∈ variants, v.name = name ∧ v.fields = []
  | _ => False

/-- The statement `c` stands right below `s`, with no expression in between. -/
def Stmt.Above (s c : Stmt) : Prop := .stmt c ∈ s.children

namespace Program

/-- Somewhere in the program, at any depth, a plain variant of this name is declared. -/
def Declares (p : Program) (name : String) : Prop := ∃ path s, p.at? path = some (.stmt s) ∧ s.Introduces name

/-- The same, in a place that is reached from statement to statement. -/
def DeclaresOpenly (p : Program) (name : String) : Prop :=
  ∃ s ∈ p, ∃ t, Relation.ReflTransGen Stmt.Above s t ∧ t.Introduces name

end Program

variable {name : String} {s c t : Stmt}

theorem mem_plainVariants {variants : List VariantDecl} :
    name ∈ plainVariants variants ↔ ∃ v ∈ variants, v.name = name ∧ v.fields = [] := by
  simp [plainVariants, and_comm, and_assoc]

theorem Stmt.mem_variantNamesAll {stmts : List Stmt} :
    name ∈ Stmt.variantNamesAll stmts ↔ ∃ s ∈ stmts, name ∈ s.variantNames := by
  induction stmts with
  | nil => simp [Stmt.variantNamesAll]
  | cons s rest ih => simp [Stmt.variantNamesAll, ih]

theorem Stmt.mem_variantNamesOther {other? : Option Stmt} :
    name ∈ Stmt.variantNamesOther other? ↔ ∃ s ∈ other?, name ∈ s.variantNames := by
  cases other? <;> simp [Stmt.variantNamesOther]

/-- The names of a statement are its own and those of the statements right below it. -/
theorem Stmt.mem_variantNames :
    name ∈ s.variantNames ↔ s.Introduces name ∨ ∃ c, s.Above c ∧ name ∈ c.variantNames := by
  cases s <;> simp [Stmt.variantNames, Stmt.Introduces, Stmt.Above, Stmt.children, mem_plainVariants,
    Stmt.mem_variantNamesAll, Stmt.mem_variantNamesOther, or_and_right, exists_or]

theorem Stmt.sizeOf_above (h : s.Above c) : sizeOf c < sizeOf s := by
  have hbody {body : List Stmt} (hc : c ∈ body) : sizeOf c < sizeOf body := List.sizeOf_lt_of_mem hc
  cases s with
  | cond test body bodyPos other? pos =>
      simp only [Stmt.Above, Stmt.children, List.mem_cons, List.mem_append, List.mem_map, Option.mem_toList,
        reduceCtorEq, Node.stmt.injEq, exists_eq_right, false_or] at h
      obtain h | rfl := h
      · have := hbody h
        simp only [Stmt.cond.sizeOf_spec]
        omega
      · simp only [Stmt.cond.sizeOf_spec, Option.some.sizeOf_spec]
        omega
  | _ =>
      simp [Stmt.Above, Stmt.children] at h
      all_goals
        have := hbody h
        simp +arith
        omega

/-- A collected name is declared by a statement that is reached from statement to statement. -/
theorem Stmt.exists_of_mem_variantNames (s : Stmt) (h : name ∈ s.variantNames) :
    ∃ t, Relation.ReflTransGen Stmt.Above s t ∧ t.Introduces name := by
  obtain hown | ⟨c, hc, hbelow⟩ := Stmt.mem_variantNames.1 h
  · exact ⟨s, .refl, hown⟩
  · have hless := Stmt.sizeOf_above hc
    obtain ⟨t, ht, hown⟩ := Stmt.exists_of_mem_variantNames c hbelow
    exact ⟨t, ht.head hc, hown⟩
termination_by s

theorem Stmt.mem_variantNames_of_reaches (h : Relation.ReflTransGen Stmt.Above s t) (ht : t.Introduces name) :
    name ∈ s.variantNames := by
  induction h using Relation.ReflTransGen.head_induction_on with
  | refl => exact Stmt.mem_variantNames.2 (.inl ht)
  | head hc _ ih => exact Stmt.mem_variantNames.2 (.inr ⟨_, hc, ih⟩)

namespace Program

variable {p : Program}

theorem mem_variantNamesAll_iff : name ∈ Stmt.variantNamesAll p ↔ p.DeclaresOpenly name := by
  rw [Stmt.mem_variantNamesAll]
  constructor
  · rintro ⟨s, hs, h⟩
    exact ⟨s, hs, s.exists_of_mem_variantNames h⟩
  · rintro ⟨s, hs, t, hst, ht⟩
    exact ⟨s, hs, Stmt.mem_variantNames_of_reaches hst ht⟩

theorem DeclaresOpenly.declares (h : p.DeclaresOpenly name) : p.Declares name := by
  obtain ⟨s, hs, t, hst, ht⟩ := h
  obtain ⟨i, hi⟩ := List.getElem?_of_mem hs
  have hpath : ∃ path, (Node.stmt s).at? path = some (.stmt t) := by
    clear hs hi
    induction hst using Relation.ReflTransGen.head_induction_on with
    | refl => exact ⟨[], rfl⟩
    | head hc _ ih =>
        obtain ⟨path, hpath⟩ := ih
        obtain ⟨j, hj⟩ := List.getElem?_of_mem hc
        exact ⟨j :: path, by rw [Node.at?, Node.children, hj]; exact hpath⟩
  obtain ⟨path, hpath⟩ := hpath
  exact ⟨i :: path, t, by rw [at?, hi]; exact hpath, ht⟩

/-! ## Bare names -/

/-- At its place, a bare name has become a variant if it is declared openly, and is the same binding if it is not. -/
theorem resolve_sees_open_enums (p : Program) (path : List Nat) (name : String) (pos : Position)
    (h : p.at? path = some (.pattern (.binding name pos))) :
    (p.resolve.at? path = some (.pattern (.variant none name [] pos)) ↔ p.DeclaresOpenly name) ∧
    (p.resolve.at? path = some (.pattern (.binding name pos)) ↔ ¬ p.DeclaresOpenly name) ∧
    (p.DeclaresOpenly name → p.Declares name) := by
  have hplace : p.resolve.at? path
      = some (.pattern (Pattern.resolve (Stmt.variantNamesAll p) (.binding name pos))) := by
    rw [at?_resolve, h]
    rfl
  rw [hplace, ← mem_variantNamesAll_iff]
  refine ⟨?_, ?_, fun hmem => (mem_variantNamesAll_iff.1 hmem).declares⟩
  · by_cases hmem : name ∈ Stmt.variantNamesAll p <;> simp [Pattern.resolve, hmem]
  · by_cases hmem : name ∈ Stmt.variantNamesAll p <;> simp [Pattern.resolve, hmem]

/-- `fun f() { enum E { A } } match null { A => null }` -/
def enumInFunction : Program :=
  [.function "f" [] [.enum "E" [⟨"A", []⟩] .start] .start,
    .expr (.choose (.null .start) [.mk (.binding "A" .start) (.expr (.null .start)) .start] .start)]

theorem resolve_sees_open_enums_in_function :
    enumInFunction.at? [1, 0, 1] = some (.pattern (.binding "A" .start)) ∧
      enumInFunction.resolve.at? [1, 0, 1] = some (.pattern (.variant none "A" [] .start)) := by
  have hname : enumInFunction.at? [1, 0, 1] = some (.pattern (.binding "A" .start)) := rfl
  have hopen : enumInFunction.DeclaresOpenly "A" :=
    ⟨_, List.mem_cons_self, .enum "E" [⟨"A", []⟩] .start, .single (by simp [Stmt.Above, Stmt.children]),
      ⟨"A", []⟩, by simp, rfl, rfl⟩
  exact ⟨hname, (resolve_sees_open_enums enumInFunction [1, 0, 1] "A" .start hname).1.2 hopen⟩

/-- `match null { _ => { enum E { A } } } match null { A => null }` -/
def enumInArm : List Char := "match null \x7b _ => \x7b enum E \x7b A \x7d \x7d \x7d match null \x7b A => null \x7d".toList

theorem resolve_misses_enum_in_arm :
    ¬ ∀ (text : List Char) (tokens : List Token) (p : Program), Token.tokenize text = .ok tokens →
      parse tokens = .ok p → ∀ path name pos, p.at? path = some (.pattern (.binding name pos)) →
        (p.resolve.at? path = some (.pattern (.variant none name [] pos)) ↔ p.Declares name) := by
  intro h
  have hread : ∃ tokens p pos, Token.tokenize enumInArm = .ok tokens ∧ parse tokens = .ok p ∧
      p.at? [0, 0, 2] = some (.stmt (.enum "E" [⟨"A", []⟩] ⟨1, 21⟩)) ∧
      p.at? [1, 0, 1] = some (.pattern (.binding "A" pos)) ∧
      p.resolve.at? [1, 0, 1] = some (.pattern (.binding "A" pos)) :=
    ⟨_, _, _, by cbv, by cbv, by cbv, by cbv, by cbv⟩
  obtain ⟨tokens, p, pos, htokens, hp, henum, hname, hresolved⟩ := hread
  have hdeclares : p.Declares "A" := ⟨_, _, henum, ⟨"A", []⟩, by simp, rfl, rfl⟩
  rw [(h _ tokens p htokens hp _ _ pos hname).2 hdeclares] at hresolved
  cases hresolved

end Program

end Cairn
