import Cairn.Program.Grammar
import Cairn.Proofs.Reading.Steps

/-!
# Rules that move on

Every rule of the grammar uses the rules for what is nested in it only after it has taken a token. So if those
are steady where fewer than `n` tokens are left, the rule itself is steady where there is one more, and the
grammar for `n` levels of nesting is steady where fewer than `n` tokens are left. A form that opens with a word
of its own takes that word before any fault.
-/

namespace Cairn

open Token (Keyword Symbol Kind)
open Parse

/-- The rules for what is nested finish where fewer than `n` tokens are left, and take one with their value. -/
structure Grammar.Steady (n : Nat) (g : Grammar) : Prop where
  expr : g.expr.Steady n fun _ => 1
  power : g.power.Steady n fun _ => 1
  unary : g.unary.Steady n fun _ => 1
  stmt : g.stmt.Steady n fun _ => 1
  cond : g.cond.Steady n fun _ => 1

/-- Steady, with one token at least, and a fault that is found where `opening` stands comes after it. -/
def Parse.Opens {α : Type} (opening : Kind) (n : Nat) (p : Parse α) : Prop :=
  ∀ c, c.Closed → c.rest.length < n → p.Ends c c (fun _ => 1) (if c.kind = opening then 1 else 0)

namespace Parse.Opens

variable {α : Type} {opening : Kind} {n : Nat} {p : Parse α}

theorem intro {q : Position → Parse α} (hne : opening ≠ .eof)
    (h : ∀ pos o c, Beyond 1 o c → o.rest.length < n → (q pos).Ends c o (fun _ => 1) 1) :
    (position >>= fun pos => expect opening >>= fun _ => q pos).Opens opening n := by
  intro o ho hn
  refine .position (.expect hne (.refl ho) ?_ fun c hc => ?_)
  · by_cases hk : o.kind = opening <;> simp [hk]
  · refine (h _ o c hc hn).mono_fault ?_
    split <;> simp

theorem steady (h : p.Opens opening n) : p.Steady n fun _ => 1 :=
  fun c hc hn => (h c hc hn).mono_fault (Nat.zero_le _)

end Parse.Opens

namespace Grammar.Steady

variable {n : Nat} {g : Grammar}

/-! ## Statements -/

theorem blockRound (h : g.Steady n) (stmts : List Stmt) : (g.blockRound stmts).Steady n Turn.cost := by
  intro c hc hn
  refine .ifCloses (.pure (.refl hc)) fun _ => .ifAccepts (by simp) (.refl hc) (fun c' hc' => .pure hc') fun _ => ?_
  exact .bind h.stmt (.refl hc) hn (Nat.le_refl 0) fun s c' hc' => .pure hc'

theorem block (h : g.Steady n) : g.block.Steady (n + 1) fun _ => 1 := by
  intro o ho hn
  refine .position (.expect (by simp) (.refl ho) (.inl (Nat.le_refl 0)) fun c hc => ?_)
  refine .bind (repeated_steady h.blockRound []) hc hn (Nat.zero_le _) fun stmts c hc => ?_
  exact .expect (by simp) hc (.inl (Nat.zero_le _)) fun c hc => .pure (hc.mono (by omega))

theorem function (h : g.Steady n) : g.function.Opens (.keyword .function) (n + 1) := by
  refine .intro (by simp) fun pos o c hc hn => ?_
  refine .word identifier_steady hc (Nat.le_refl 1) fun name c hc => ?_
  refine .expect (by simp) hc (.inl (by omega)) fun c hc => ?_
  refine .word (fun n => listUntil_steady (identifier_steady n)) hc (by omega) fun params c hc => ?_
  exact .bind h.block hc (by omega) (by omega) fun body c hc => .pure (hc.mono (by omega))

theorem ret (h : g.Steady n) : g.ret.Opens (.keyword .result) (n + 1) := by
  refine .intro (by simp) fun pos o c hc hn => .kind ?_
  split
  · exact .pure hc
  · exact .bind h.expr hc hn (Nat.le_refl 1) fun value c hc => .pure (hc.mono (by omega))

theorem conditional (h : g.Steady n) : g.conditional.Opens (.keyword .when) (n + 1) := by
  refine .intro (by simp) fun pos o c hc hn => ?_
  refine .bind h.expr hc hn (Nat.le_refl 1) fun test c hc => ?_
  refine .bind h.block hc (by omega) (by omega) fun body c hc => ?_
  refine .ifAccepts (by simp) hc (fun c hc => ?_) fun _ => .pure (hc.mono (by omega))
  refine .ifSees (fun _ => ?_) fun _ => ?_
  · exact .bind h.cond hc (by omega) (by omega) fun other c hc => .pure (hc.mono (by omega))
  · exact .bind h.block hc (by omega) (by omega) fun other c hc => .pure (hc.mono (by omega))

theorem loop (h : g.Steady n) : g.loop.Opens (.keyword .loop) (n + 1) := by
  refine .intro (by simp) fun pos o c hc hn => ?_
  exact .bind h.block hc (by omega) (by omega) fun body c hc => .pure (hc.mono (by omega))

theorem draw (h : g.Steady n) : g.draw.Opens (.keyword .draw) (n + 1) := by
  refine .intro (by simp) fun pos o c hc hn => ?_
  exact .bind h.block hc (by omega) (by omega) fun body c hc => .pure (hc.mono (by omega))

theorem update (h : g.Steady n) : g.update.Opens (.keyword .update) (n + 1) := by
  refine .intro (by simp) fun pos o c hc hn => ?_
  refine .ifAccepts (by simp) hc (fun c hc => ?_) fun _ => ?_
  · refine .word identifier_steady hc (by omega) fun param c hc => ?_
    refine .expect (by simp) hc (.inl (by omega)) fun c hc => ?_
    exact .bind h.block hc (by omega) (by omega) fun body c hc => .pure (hc.mono (by omega))
  · exact .bind h.block hc (by omega) (by omega) fun body c hc => .pure (hc.mono (by omega))

end Grammar.Steady

namespace Grammar

theorem variantDecl_steady (n : Nat) : variantDecl.Steady n fun _ => 1 := by
  intro o ho hn
  refine .word identifier_steady (.refl ho) (Nat.le_refl 0) fun name c hc => ?_
  refine .ifAccepts (by simp) hc (fun c hc => ?_) fun _ => .pure hc
  refine .word (fun n => listUntil_steady (identifier_steady n)) hc (by omega) fun fields c hc => ?_
  exact .pure (hc.mono (by omega))

theorem enum_opens (n : Nat) : enum.Opens (.keyword .enum) n := by
  refine .intro (by simp) fun pos o c hc hn => ?_
  refine .word identifier_steady hc (Nat.le_refl 1) fun name c hc => ?_
  refine .expect (by simp) hc (.inl (by omega)) fun c hc => ?_
  refine .word (fun n => listUntil_steady (variantDecl_steady n)) hc (by omega) fun variants c hc => ?_
  exact .pure (hc.mono (by omega))

/-! ## Patterns -/

theorem patternName_steady (n : Nat) : patternName.Steady n fun _ => 1 := by
  intro o ho hn
  refine .ifAccepts (by simp) (.refl ho) (fun c hc => .pure hc) fun _ => ?_
  exact .last (identifier_steady n) (.refl ho) hn (Nat.le_refl 0) (by simp)

theorem patternFields_steady (enum? : Option String) (name : String) (pos : Position) (n : Nat) :
    (patternFields enum? name pos).Steady n fun _ => 0 := by
  intro o ho hn
  refine .ifAccepts (by simp) (.refl ho) (fun c hc => ?_) fun _ => ?_
  · refine .word (fun n => listUntil_steady (patternName_steady n)) hc (by omega) fun _ c hc => ?_
    exact .pure (hc.mono (by omega))
  · split
    · exact .pure (.refl ho)
    · exact .pure (.refl ho)

theorem namedPattern_steady (first : String) (pos : Position) (n : Nat) :
    (namedPattern first pos).Steady n fun _ => 0 := by
  intro o ho hn
  refine .ifAccepts (by simp) (.refl ho) (fun c hc => ?_) fun _ => patternFields_steady none first pos n o ho hn
  refine .word identifier_steady hc (by omega) fun name c hc => ?_
  exact .last (patternFields_steady (some first) name pos n) hc (by omega) (by omega) (by simp)

theorem pattern_steady (n : Nat) : pattern.Steady n fun _ => 1 := by
  intro o ho hn
  refine .position (.kind ?_)
  split
  all_goals rename_i hk
  · exact .next (.refl ho) (by simp [hk]) fun c hc => .pure hc
  · exact .next (.refl ho) (by simp [hk]) fun c hc => .pure hc
  · exact .next (.refl ho) (by simp [hk]) fun c hc => .pure hc
  · exact .next (.refl ho) (by simp [hk]) fun c hc => .pure hc
  · exact .next (.refl ho) (by simp [hk]) fun c hc => .pure hc
  · refine .next (.refl ho) (by simp [hk]) fun c hc => ?_
    refine .word next_steady hc (by omega) fun t c hc => ?_
    split
    · exact .pure hc
    · exact .fail (hc.mono (by omega))
  · refine .next (.refl ho) (by simp [hk]) fun c hc => ?_
    exact .last (namedPattern_steady _ _ n) hc (by omega) (by omega) (by simp)
  · exact .unexpected (.refl ho)

/-! ## Primary expressions -/

theorem entryKey_steady (n : Nat) : entryKey.Steady n fun _ => 0 := by
  intro o ho hn
  refine .kind ?_
  split
  · rename_i hk
    exact .next (.refl ho) (by simp [hk]) fun c hc => .pure (hc.mono (by omega))
  · exact .last (propertyName_steady n) (.refl ho) hn (Nat.le_refl 0) (by simp)

theorem separatorRound_steady (state : Unit) (n : Nat) : (separatorRound state).Steady n Turn.cost := by
  intro o ho hn
  refine .ifAccepts (by simp) (.refl ho) (fun c hc => .pure hc) fun _ => ?_
  exact .ifAccepts (by simp) (.refl ho) (fun c hc => .pure hc) fun _ => .pure (.refl ho)

namespace Steady

variable {n : Nat} {g : Grammar}

theorem entry (h : g.Steady n) : g.entry.Steady (n + 1) fun _ => 1 := by
  intro o ho hn
  refine .word entryKey_steady (.refl ho) (Nat.le_refl 0) fun key c hc => ?_
  refine .expect (by simp) hc (.inl (by omega)) fun c hc => ?_
  exact .bind h.expr hc (by omega) (by omega) fun value c hc => .pure (hc.mono (by omega))

theorem object (h : g.Steady n) : g.object.Steady (n + 1) fun _ => 1 := by
  intro o ho hn
  refine .position (.expect (by simp) (.refl ho) (.inl (Nat.le_refl 0)) fun c hc => ?_)
  exact .bind (listUntil_steady h.entry) hc (by omega) (by omega) fun entries c hc => .pure (hc.mono (by omega))

theorem armBody (h : g.Steady n) : g.armBody.Steady n fun _ => 1 := by
  intro o ho hn
  refine .cursor ?_
  split
  · exact .bind h.block (.refl ho) (by omega) (Nat.le_refl 0) fun body c hc => .pure hc
  · exact .bind h.expr (.refl ho) hn (Nat.le_refl 0) fun value c hc => .pure hc

theorem armRound (h : g.Steady n) (arms : List Arm) : (g.armRound arms).Steady n Turn.cost := by
  intro o ho hn
  refine .ifCloses (.pure (.refl ho)) fun _ => .position ?_
  refine .word pattern_steady (.refl ho) (Nat.le_refl 0) fun p c hc => ?_
  refine .expect (by simp) hc (.inl (by omega)) fun c hc => ?_
  refine .bind h.armBody hc (by omega) (by omega) fun body c hc => ?_
  refine .word (fun n => repeated_steady (separatorRound_steady · n) ()) hc (by omega) fun _ c hc => ?_
  exact .pure (hc.mono (by simp [Turn.cost]))

theorem choose (h : g.Steady n) : g.choose.Steady (n + 1) fun _ => 1 := by
  intro o ho hn
  refine .position (.expect (by simp) (.refl ho) (.inl (Nat.le_refl 0)) fun c hc => ?_)
  refine .bind h.expr hc hn (by omega) fun subject c hc => ?_
  refine .expect (by simp) hc (.inl (by omega)) fun c hc => ?_
  refine .bind (repeated_steady h.armRound []) hc (by omega) (by omega) fun arms c hc => ?_
  exact .expect (by simp) hc (.inl (by omega)) fun c hc => .pure (hc.mono (by omega))

theorem primary (h : g.Steady n) : g.primary.Steady (n + 1) fun _ => 1 := by
  intro o ho hn
  have hc := Beyond.refl ho
  refine .position (.kind ?_)
  split
  all_goals rename_i hk
  · exact .next hc (by simp [hk]) fun c hc => .pure hc
  · exact .next hc (by simp [hk]) fun c hc => .pure hc
  · exact .next hc (by simp [hk]) fun c hc => .pure hc
  · exact .next hc (by simp [hk]) fun c hc => .pure hc
  · exact .next hc (by simp [hk]) fun c hc => .pure hc
  · refine .next hc (by simp [hk]) fun c hc => ?_
    refine .expect (by simp) hc (.inl (by omega)) fun c hc => ?_
    exact .expect (by simp) hc (.inl (by omega)) fun c hc => .pure (hc.mono (by omega))
  · refine .next hc (by simp [hk]) fun c hc => ?_
    refine .bind h.expr hc (by omega) (by omega) fun e c hc => ?_
    exact .expect (by simp) hc (.inl (by omega)) fun c hc => .pure (hc.mono (by omega))
  · refine .next hc (by simp [hk]) fun c hc => ?_
    exact .bind (listUntil_steady h.expr) hc (by omega) (by omega) fun items c hc => .pure (hc.mono (by omega))
  · exact h.object o ho hn
  · exact h.choose o ho hn
  · exact .unexpected hc

/-! ## Calls, members, indices -/

theorem argumentRound (h : g.Steady n) (args : Arguments) : (g.argumentRound args).Steady n Turn.cost := by
  intro o ho hn
  refine .ifCloses (.pure (.refl ho)) fun hne => .cursor ?_
  split
  · refine .next (.refl ho) hne fun c hc => .word next_steady hc (by omega) fun _ c hc => ?_
    exact .bind h.expr hc (by omega) (by omega) fun value c hc => afterItem_ends hc
  · split
    · exact .bind h.expr (.refl ho) hn (Nat.le_refl 0) fun value c hc => afterItem_ends hc
    · exact .fail (.refl ho)

theorem sliceStop (h : g.Steady n) : g.sliceStop.Steady n fun _ => 0 := by
  intro o ho hn
  refine .ifSees (fun _ => .pure (.refl ho)) fun _ => ?_
  exact .bind h.expr (.refl ho) hn (Nat.le_refl 0) fun value c hc => .pure (hc.mono (by omega))

theorem subscript (h : g.Steady n) (object : Expr) : (g.subscript object).Steady n fun _ => 1 := by
  intro o ho hn
  refine .ifAccepts (by simp) (.refl ho) (fun c hc => ?_) fun _ => ?_
  · refine .bind h.sliceStop hc (by omega) (by omega) fun stop c hc => ?_
    exact .expect (by simp) hc (.inl (by omega)) fun c hc => .pure (hc.mono (by omega))
  · refine .bind h.expr (.refl ho) hn (Nat.le_refl 0) fun first c hc => ?_
    refine .ifAccepts (by simp) hc (fun c hc => ?_) fun _ => ?_
    · refine .bind h.sliceStop hc (by omega) (by omega) fun stop c hc => ?_
      exact .expect (by simp) hc (.inl (by omega)) fun c hc => .pure (hc.mono (by omega))
    · exact .expect (by simp) hc (.inl (by omega)) fun c hc => .pure (hc.mono (by omega))

theorem chainRound (h : g.Steady n) (e : Expr) : (g.chainRound e).Steady (n + 1) Turn.cost := by
  intro o ho hn
  have hc := Beyond.refl ho
  refine .kind ?_
  split
  all_goals rename_i hk
  · refine .next hc (by simp [hk]) fun c hc => ?_
    refine .bind (repeated_steady h.argumentRound {}) hc (by omega) (by omega) fun args c hc => ?_
    exact .expect (by simp) hc (.inl (by omega)) fun c hc => .pure (hc.mono (by simp [Turn.cost]))
  · refine .next hc (by simp [hk]) fun c hc => ?_
    exact .word propertyName_steady hc (by omega) fun property c hc => .pure hc
  · refine .next hc (by simp [hk]) fun c hc => ?_
    exact .bind (h.subscript e) hc (by omega) (by omega) fun e c hc => .pure (hc.mono (by simp [Turn.cost]))
  · exact .pure hc

theorem chain (h : g.Steady n) : g.chain.Steady (n + 1) fun _ => 1 := by
  intro o ho hn
  refine .bind h.primary (.refl ho) hn (Nat.le_refl 0) fun e c hc => ?_
  exact .last (repeated_steady h.chainRound e) hc (by omega) (by omega) (by simp)

/-! ## Operators around operands -/

theorem postfixed (h : g.Steady n) : g.postfixed.Steady (n + 1) fun _ => 1 := by
  intro o ho hn
  refine .bind h.chain (.refl ho) hn (Nat.le_refl 0) fun e c hc => .kind ?_
  split
  · exact .pure hc
  · refine .word next_steady hc (by omega) fun t c hc => ?_
    split
    · exact .pure hc
    · exact .fail (hc.mono (by omega))

theorem unaryExpr (h : g.Steady n) : g.unaryExpr.Steady (n + 1) fun _ => 1 := by
  intro o ho hn
  have hc := Beyond.refl ho
  refine .position (.kind ?_)
  split
  · rename_i op hop
    refine .next hc (by rintro hk; simp [hk, unaryOp?] at hop) fun c hc => ?_
    exact .bind h.unary hc (by omega) (by omega) fun operand c hc => .pure (hc.mono (by omega))
  · split
    · rename_i direction hd
      refine .next hc (by rintro hk; simp [hk, direction?] at hd) fun c hc => ?_
      refine .bind h.unary hc (by omega) (by omega) fun target c hc => ?_
      split
      · exact .pure (hc.mono (by omega))
      · exact .fail (hc.mono (by omega))
    · exact h.postfixed o ho hn

theorem powerExpr (h : g.Steady n) : g.powerExpr.Steady (n + 1) fun _ => 1 := by
  intro o ho hn
  refine .bind h.unaryExpr (.refl ho) hn (Nat.le_refl 0) fun base c hc => ?_
  refine .ifAccepts (by simp) hc (fun c hc => ?_) fun _ => .pure hc
  exact .bind h.power hc (by omega) (by omega) fun exponent c hc => .pure (hc.mono (by omega))

end Steady

theorem level_steady {n : Nat} {operand : Parse Expr} (h : operand.Steady n fun _ => 1) (ops : List Infix) :
    (level ops operand).Steady n fun _ => 1 := by
  have hround left : (levelRound ops operand left).Steady n Turn.cost := by
    intro o ho hn
    refine .kind ?_
    split
    · exact .pure (.refl ho)
    · rename_i op hop
      refine .next (.refl ho) (by rintro hk; simp [hk, Infix.ofKind?] at hop) fun c hc => ?_
      exact .bind h hc (by omega) (by omega) fun right c hc => .pure (hc.mono (by simp [Turn.cost]))
  intro o ho hn
  refine .bind h (.refl ho) hn (Nat.le_refl 0) fun left c hc => ?_
  exact .last (repeated_steady hround left) hc (by omega) (by omega) (by simp)

namespace Steady

variable {n : Nat} {g : Grammar}

theorem levels (h : g.Steady n) (table : List (List Infix)) :
    (table.foldr level g.powerExpr).Steady (n + 1) fun _ => 1 := by
  induction table with
  | nil => exact h.powerExpr
  | cons ops table ih => exact level_steady ih ops

theorem assignExpr (h : g.Steady n) : g.assignExpr.Steady (n + 1) fun _ => 1 := by
  intro o ho hn
  refine .bind (h.levels Grammar.levels) (.refl ho) hn (Nat.le_refl 0) fun target c hc => .kind ?_
  split
  · exact .pure hc
  · rename_i op hop
    refine .next hc (by rintro hk; simp [hk, assignment?] at hop) fun c hc => ?_
    split
    · exact .bind h.expr hc (by omega) (by omega) fun value c hc => .pure (hc.mono (by omega))
    · exact .fail (hc.mono (by omega))

/-- Where a word stands that can only begin a statement, it is taken before any fault. -/
theorem bareStmt (h : g.Steady n) {c : Cursor} (hc : c.Closed) (hn : c.rest.length < n + 1) {e : Nat}
    (he : e ≤ if c.kind.startsStatement then 1 else 0) : g.bareStmt.Ends c c (fun _ => 1) e := by
  refine .kind ?_
  generalize hk : c.kind = k at he
  split
  · exact (h.function c hc hn).mono_fault (by rw [if_pos hk]; exact he)
  · exact (h.ret c hc hn).mono_fault (by rw [if_pos hk]; exact he)
  · exact (h.conditional c hc hn).mono_fault (by rw [if_pos hk]; exact he)
  · exact (h.loop c hc hn).mono_fault (by rw [if_pos hk]; exact he)
  · exact .next (.refl hc) (by simp [hk]) fun c hc => .pure hc
  · exact (enum_opens (n + 1) c hc hn).mono_fault (by rw [if_pos hk]; exact he)
  · exact (h.draw c hc hn).mono_fault (by rw [if_pos hk]; exact he)
  · exact (h.update c hc hn).mono_fault (by rw [if_pos hk]; exact he)
  · exact .bind h.block (.refl hc) hn he fun body c hc => .pure hc
  · -- An expression may fail where it stands, but not at a word that begins a statement.
    have hs : k.startsStatement = false := by
      cases k with
      | keyword word => cases word <;> simp_all [Kind.startsStatement]
      | _ => rfl
    rw [hs] at he
    exact .bind h.assignExpr (.refl hc) hn he fun value c hc => .pure hc

theorem statement_ends (h : g.Steady n) {c : Cursor} (hc : c.Closed) (hn : c.rest.length < n + 1) :
    g.statement.Ends c c (fun _ => 1) (if c.kind.startsStatement then 1 else 0) := by
  refine .andThen (h.bareStmt hc hn (Nat.le_refl _)) fun s c' hc' => ?_
  refine .word accepts_steady hc' ?_ fun _ c' hc' => .pure hc'
  split <;> simp

theorem statement (h : g.Steady n) : g.statement.Steady (n + 1) fun _ => 1 :=
  fun _ hc hn => (h.statement_ends hc hn).mono_fault (Nat.zero_le _)

theorem next (h : g.Steady n) : g.next.Steady (n + 1) where
  expr := h.assignExpr
  power := h.powerExpr
  unary := h.unaryExpr
  stmt := h.statement
  cond := h.conditional.steady

end Steady

end Grammar

/-- The rules and the words they are made of, every one with what it is read with. -/
inductive Grammar.Rule (g : Grammar) : {α : Type} → Parse α → Prop where
  | next : Rule g Parse.next
  | accepts (wanted : Kind) : Rule g (accepts wanted)
  | expect (needed : Kind) : Rule g (expect needed)
  | identifier : Rule g identifier
  | propertyName : Rule g propertyName
  | statement : Rule g g.statement
  | block : Rule g g.block
  | function : Rule g g.function
  | ret : Rule g g.ret
  | conditional : Rule g g.conditional
  | loop : Rule g g.loop
  | enum : Rule g enum
  | draw : Rule g g.draw
  | update : Rule g g.update
  | assignment : Rule g g.assignExpr
  | level {table : List (List Infix)} (part : table <:+ levels) : Rule g (table.foldr Grammar.level g.powerExpr)
  | power : Rule g g.powerExpr
  | unary : Rule g g.unaryExpr
  | postfixed : Rule g g.postfixed
  | chain : Rule g g.chain
  | primary : Rule g g.primary
  | object : Rule g g.object
  | arguments : Rule g (repeated g.argumentRound {})
  | sliceStop : Rule g g.sliceStop
  | choose : Rule g g.choose
  | pattern : Rule g pattern

theorem Grammar.Steady.rule {n : Nat} {g : Grammar} (h : g.Steady n) {α : Type} {p : Parse α} (hp : g.Rule p) :
    p.Steady n fun _ => 0 := by
  -- Most rules use what is nested only after a token, and take one with their value.
  have weaken {β : Type} {q : Parse β} (hq : q.Steady (n + 1) fun _ => 1) : q.Steady n fun _ => 0 :=
    hq.mono (Nat.le_succ n) fun _ => Nat.zero_le 1
  cases hp with
  | next => exact next_steady _
  | accepts wanted => exact accepts_steady _
  | expect needed => exact expect_steady _
  | identifier => exact weaken (identifier_steady _)
  | propertyName => exact propertyName_steady _
  | statement => exact weaken h.statement
  | block => exact weaken h.block
  | function => exact weaken h.function.steady
  | ret => exact weaken h.ret.steady
  | conditional => exact weaken h.conditional.steady
  | loop => exact weaken h.loop.steady
  | enum => exact weaken (enum_opens _).steady
  | draw => exact weaken h.draw.steady
  | update => exact weaken h.update.steady
  | assignment => exact weaken h.assignExpr
  | level part => exact weaken (h.levels _)
  | power => exact weaken h.powerExpr
  | unary => exact weaken h.unaryExpr
  | postfixed => exact weaken h.postfixed
  | chain => exact weaken h.chain
  | primary => exact weaken h.primary
  | object => exact weaken h.object
  | arguments => exact repeated_steady h.argumentRound {}
  | sliceStop => exact h.sliceStop
  | choose => exact weaken h.choose
  | pattern => exact weaken (pattern_steady _)

/-- One level of nesting for every token is enough. -/
theorem grammar_steady (depth : Nat) : (grammar depth).Steady depth := by
  induction depth with
  | zero =>
      have hnone {α : Type} {p : Parse α} {k : α → Nat} : p.Steady 0 k := fun c _ hn => absurd hn (Nat.not_lt_zero _)
      exact ⟨hnone, hnone, hnone, hnone, hnone⟩
  | succ depth ih => exact ih.next

end Cairn
