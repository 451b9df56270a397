import Cairn.Program.Grammar
import Cairn.Proofs.Reading.Yields
import Cairn.Proofs.Tree.Forms

/-!
# Rules yield regular trees

If the rules for what is nested yield regular trees and faults at tokens, then so does every rule of the grammar, and
so do the rules of the grammar for any depth. A statement that begins with a word that can only begin a statement has
its faults behind that word.
-/

namespace Cairn

open Token (Keyword Symbol Kind)
open Parse

/-- The rules for what is nested yield regular trees. -/
structure Grammar.Sound (g : Grammar) : Prop where
  expr : g.expr.Sound Expr.Regular
  power : g.power.Sound Expr.Regular
  unary : g.unary.Sound Expr.Regular
  stmt : g.stmt.Sound Stmt.Regular
  cond : g.cond.Sound fun s => s.Regular ∧ s.isBranch = true

namespace Grammar

/-! ## Words of rules -/

theorem variantDecl_sound : variantDecl.Sound fun _ => True := by
  refine fun o => .bind identifier_sound List.suffix_rfl fun name c _ hc => ?_
  refine .ifAccepts hc (fun c hc => ?_) (.pure trivial hc)
  exact .bind (listUntil_sound identifier_sound) hc fun fields c _ hc => .pure trivial hc

theorem entryKey_sound : entryKey.Sound fun _ => True := by
  refine fun o => .kind ?_
  split
  · exact .take List.suffix_rfl fun c hc _ => .pure trivial hc
  · exact propertyName_sound o

theorem patternName_sound : patternName.Sound fun _ => True := fun o =>
  .ifAccepts List.suffix_rfl (fun _ hc => .pure trivial hc) (identifier_sound o)

theorem patternFields_sound (enum? : Option String) (name : String) (pos : Position) :
    (patternFields enum? name pos).Sound fun _ => True := by
  refine fun o => .ifAccepts List.suffix_rfl (fun c hc => ?_) ?_
  · exact .bind (listUntil_sound patternName_sound) hc fun bindings c _ hc => .pure trivial hc
  · split
    · exact .pure trivial List.suffix_rfl
    · exact .pure trivial List.suffix_rfl

theorem namedPattern_sound (first : String) (pos : Position) : (namedPattern first pos).Sound fun _ => True := by
  refine fun o => .ifAccepts List.suffix_rfl (fun c hc => ?_) (patternFields_sound none first pos o)
  exact .bind identifier_sound hc fun name c _ hc => .last (patternFields_sound (some first) name pos) hc

theorem pattern_sound : pattern.Sound fun _ => True := by
  refine fun o => .position (.kind ?_)
  split
  · exact .take List.suffix_rfl fun c hc _ => .pure trivial hc
  · exact .take List.suffix_rfl fun c hc _ => .pure trivial hc
  · exact .take List.suffix_rfl fun c hc _ => .pure trivial hc
  · exact .take List.suffix_rfl fun c hc _ => .pure trivial hc
  · exact .take List.suffix_rfl fun c hc _ => .pure trivial hc
  · -- The fault is reported at the sign, though the token after it is gone too.
    refine .take List.suffix_rfl fun c hc _ => .take hc fun c _ hc => ?_
    split
    · exact .pure trivial hc
    · exact .fail List.suffix_rfl hc rfl
  · exact .take List.suffix_rfl fun c hc _ => .last (namedPattern_sound _ _) hc
  · exact .unexpected List.suffix_rfl

theorem separatorRound_sound (state : Unit) : (separatorRound state).Sound (Turn.All fun _ => True) := fun _ =>
  .ifAccepts List.suffix_rfl (fun _ hc => .pure trivial hc)
    (.ifAccepts List.suffix_rfl (fun _ hc => .pure trivial hc) (.pure trivial List.suffix_rfl))

theorem enum_sound : enum.SoundAfter (.keyword .enum) Stmt.Regular := by
  refine .intro fun pos o => .bind identifier_sound List.suffix_rfl fun name c _ hc => ?_
  refine .expect hc fun c hc => .bind (listUntil_sound variantDecl_sound) hc fun variants c _ hc => ?_
  exact .pure (Node.Regular.of_children rfl rfl (by simp [Node.children, Stmt.children])) hc

namespace Sound

variable {g : Grammar}

/-! ## Statements -/

theorem blockRound (h : g.Sound) (stmts : List Stmt) (hstmts : ∀ s ∈ stmts, s.Regular) :
    (g.blockRound stmts).Sound (Turn.All fun stmts => ∀ s ∈ stmts, s.Regular) := by
  refine fun o => .ifCloses (.pure hstmts List.suffix_rfl) ?_
  refine .ifAccepts List.suffix_rfl (fun c hc => .pure hstmts hc) ?_
  refine .bind h.stmt List.suffix_rfl fun s c hs hc => .pure ?_ hc
  simpa [Turn.All, or_imp, forall_and, hs] using hstmts

theorem block (h : g.Sound) : g.block.Sound fun body => ∀ s ∈ body.1, s.Regular := by
  refine fun o => .position (.expect List.suffix_rfl fun c hc => ?_)
  refine .bind (repeated_sound h.blockRound (by simp)) hc fun stmts c hstmts hc => ?_
  exact .expect hc fun c hc => .pure hstmts hc

theorem function (h : g.Sound) : g.function.SoundAfter (.keyword .function) Stmt.Regular := by
  refine .intro fun pos o => .bind identifier_sound List.suffix_rfl fun name c _ hc => ?_
  refine .expect hc fun c hc => .bind (listUntil_sound identifier_sound) hc fun params c _ hc => ?_
  refine .bind h.block hc fun body c hbody hc => .pure (Node.Regular.of_children rfl rfl ?_) hc
  simpa [Node.children, Stmt.children] using hbody

theorem ret (h : g.Sound) : g.ret.SoundAfter (.keyword .result) Stmt.Regular := by
  refine .intro fun pos o => .kind ?_
  split
  · exact .pure (Node.Regular.of_children rfl rfl (by simp [Node.children, Stmt.children])) List.suffix_rfl
  · refine .bind h.expr List.suffix_rfl fun value c hvalue hc => .pure (Node.Regular.of_children rfl rfl ?_) hc
    simpa [Node.children, Stmt.children] using hvalue

theorem conditional (h : g.Sound) :
    g.conditional.SoundAfter (.keyword .when) fun s => s.Regular ∧ s.isBranch = true := by
  have hcond {test : Expr} {body : List Stmt} {bodyPos pos : Position} {other? : Option Stmt} (htest : test.Regular)
      (hbody : ∀ s ∈ body, s.Regular) (hother : ∀ s ∈ other?, s.Regular ∧ s.isBranch = true) :
      (Stmt.cond test body bodyPos other? pos).Regular ∧ (Stmt.cond test body bodyPos other? pos).isBranch = true := by
    refine ⟨Node.Regular.of_children ?_ rfl ?_, rfl⟩
    · cases other? with
      | none => rfl
      | some other => exact (hother other rfl).2
    · intro child hchild
      simp only [Node.children, Stmt.children, List.mem_cons, List.mem_append, List.mem_map, Option.mem_toList]
        at hchild
      obtain rfl | ⟨s, hs, rfl⟩ | ⟨s, hs, rfl⟩ := hchild
      · exact htest
      · exact hbody s hs
      · exact (hother s hs).1
  refine .intro fun pos o => .bind h.expr List.suffix_rfl fun test c htest hc => ?_
  refine .bind h.block hc fun body c hbody hc => ?_
  refine .ifAccepts hc (fun c hc => .ifSees ?_ ?_) (.pure (hcond htest hbody (by simp)) hc)
  · exact .bind h.cond hc fun other c hother hc => .pure (hcond htest hbody (by simpa using hother)) hc
  · refine .bind h.block hc fun other c hother hc => .pure (hcond htest hbody ?_) hc
    have hblock : (Stmt.block other.1 other.2).Regular :=
      Node.Regular.of_children rfl rfl (by simpa [Node.children, Stmt.children] using hother)
    simpa [Stmt.isBranch] using hblock

theorem loop (h : g.Sound) : g.loop.SoundAfter (.keyword .loop) Stmt.Regular := by
  refine .intro fun pos o => .bind h.block List.suffix_rfl fun body c hbody hc => ?_
  exact .pure (Node.Regular.of_children rfl rfl (by simpa [Node.children, Stmt.children] using hbody)) hc

theorem draw (h : g.Sound) : g.draw.SoundAfter (.keyword .draw) Stmt.Regular := by
  refine .intro fun pos o => .bind h.block List.suffix_rfl fun body c hbody hc => ?_
  exact .pure (Node.Regular.of_children rfl rfl (by simpa [Node.children, Stmt.children] using hbody)) hc

theorem update (h : g.Sound) : g.update.SoundAfter (.keyword .update) Stmt.Regular := by
  have hframe {param? : Option String} {body : List Stmt} {pos : Position} (hbody : ∀ s ∈ body, s.Regular) :
      (Stmt.frame .update param? body pos).Regular :=
    Node.Regular.of_children rfl rfl (by simpa [Node.children, Stmt.children] using hbody)
  refine .intro fun pos o => .ifAccepts List.suffix_rfl (fun c hc => ?_) ?_
  · refine .bind identifier_sound hc fun param c _ hc => .expect hc fun c hc => ?_
    exact .bind h.block hc fun body c hbody hc => .pure (hframe hbody) hc
  · exact .bind h.block List.suffix_rfl fun body c hbody hc => .pure (hframe hbody) hc

/-! ## Primary expressions -/

theorem entry (h : g.Sound) : g.entry.Sound fun entry => entry.2.Regular := by
  refine fun o => .bind entryKey_sound List.suffix_rfl fun key c _ hc => .expect hc fun c hc => ?_
  exact .bind h.expr hc fun value c hvalue hc => .pure hvalue hc

theorem object (h : g.Sound) : g.object.Sound Expr.Regular := by
  refine fun o => .position (.expect List.suffix_rfl fun c hc => ?_)
  refine .bind (listUntil_sound h.entry) hc fun entries c hentries hc => ?_
  refine .pure (Node.Regular.of_children rfl rfl ?_) hc
  intro child hchild
  obtain ⟨entry, hentry, rfl⟩ := List.mem_map.1 hchild
  exact hentries entry hentry

theorem armBody (h : g.Sound) : g.armBody.Sound ArmBody.Regular := by
  refine fun o => .cursor ?_
  split
  · exact .bind h.block List.suffix_rfl fun body c hbody hc => .pure hbody hc
  · exact .bind h.expr List.suffix_rfl fun value c hvalue hc => .pure hvalue hc

theorem armRound (h : g.Sound) (arms : List Arm) (harms : ∀ arm ∈ arms, arm.Regular) :
    (g.armRound arms).Sound (Turn.All fun arms => ∀ arm ∈ arms, arm.Regular) := by
  refine fun o => .ifCloses (.pure harms List.suffix_rfl) (.position ?_)
  refine .bind pattern_sound List.suffix_rfl fun p c _ hc => .expect hc fun c hc => ?_
  refine .bind h.armBody hc fun body c hbody hc => ?_
  refine .bind (repeated_sound (fun s _ => separatorRound_sound s) trivial) hc fun _ c _ hc => .pure ?_ hc
  simpa [Turn.All, or_imp, forall_and, Arm.Regular.mk hbody] using harms

theorem choose (h : g.Sound) : g.choose.Sound Expr.Regular := by
  refine fun o => .position (.expect List.suffix_rfl fun c hc => ?_)
  refine .bind h.expr hc fun subject c hsubject hc => .expect hc fun c hc => ?_
  refine .bind (repeated_sound h.armRound (by simp)) hc fun arms c harms hc => .expect hc fun c hc => ?_
  refine .pure (Node.Regular.of_children rfl rfl ?_) hc
  intro child hchild
  simp only [Node.children, Expr.children, List.mem_cons, List.mem_flatMap] at hchild
  obtain rfl | ⟨arm, harm, hchild⟩ := hchild
  · exact hsubject
  · exact harms arm harm child hchild

theorem primary (h : g.Sound) : g.primary.Sound Expr.Regular := by
  have hleaf {e : Expr} (hform : (Node.expr e).inForm = true) (hchildren : e.children = []) : e.Regular :=
    Node.Regular.of_children hform rfl (by simp [Node.children, hchildren])
  refine fun o => .position (.kind ?_)
  split
  · exact .take List.suffix_rfl fun c hc _ => .pure (hleaf rfl rfl) hc
  · exact .take List.suffix_rfl fun c hc _ => .pure (hleaf rfl rfl) hc
  · exact .take List.suffix_rfl fun c hc _ => .pure (hleaf rfl rfl) hc
  · exact .take List.suffix_rfl fun c hc _ => .pure (hleaf rfl rfl) hc
  · exact .take List.suffix_rfl fun c hc _ => .pure (hleaf rfl rfl) hc
  · refine .take List.suffix_rfl fun c hc _ => .expect hc fun c hc => ?_
    exact .expect hc fun c hc => .pure (hleaf rfl rfl) hc
  · refine .take List.suffix_rfl fun c hc _ => .bind h.expr hc fun e c he hc => ?_
    exact .expect hc fun c hc => .pure he hc
  · refine .take List.suffix_rfl fun c hc _ => .bind (listUntil_sound h.expr) hc fun items c hitems hc => ?_
    exact .pure (Node.Regular.of_children rfl rfl (by simpa [Node.children, Expr.children] using hitems)) hc
  · exact h.object o
  · exact h.choose o
  · exact .unexpected List.suffix_rfl

/-! ## Calls, members, indices -/

theorem argumentRound (h : g.Sound) (args : Arguments)
    (hargs : (∀ e ∈ args.positional, e.Regular) ∧ ∀ entry ∈ args.named, entry.2.Regular) :
    (g.argumentRound args).Sound (Turn.All fun args =>
      (∀ e ∈ args.positional, e.Regular) ∧ ∀ entry ∈ args.named, entry.2.Regular) := by
  refine fun o => .ifCloses (.pure hargs List.suffix_rfl) (.cursor ?_)
  split
  · refine .take List.suffix_rfl fun c hc _ => .take hc fun c _ hc => ?_
    refine .bind h.expr hc fun value c hvalue hc => afterItem_yields ⟨hargs.1, ?_⟩ hc
    simpa [or_imp, forall_and, hvalue] using hargs.2
  · split
    · refine .bind h.expr List.suffix_rfl fun value c hvalue hc => afterItem_yields ⟨?_, hargs.2⟩ hc
      simpa [or_imp, forall_and, hvalue] using hargs.1
    · exact .fail List.suffix_rfl List.suffix_rfl rfl

theorem sliceStop (h : g.Sound) : g.sliceStop.Sound fun stop? => ∀ e ∈ stop?, e.Regular := by
  refine fun o => .ifSees (.pure (by simp) List.suffix_rfl) ?_
  exact .bind h.expr List.suffix_rfl fun value c hvalue hc => .pure (by simpa using hvalue) hc

theorem subscript (h : g.Sound) {owner : Expr} (howner : owner.Regular) : (g.subscript owner).Sound Expr.Regular := by
  have hslice {start? stop? : Option Expr} {pos : Position} (hstart : ∀ e ∈ start?, e.Regular)
      (hstop : ∀ e ∈ stop?, e.Regular) : (Expr.slice owner start? stop? pos).Regular := by
    refine Node.Regular.of_children rfl rfl fun child hchild => ?_
    simp only [Node.children, Expr.children, List.mem_cons, List.mem_append, List.mem_map, Option.mem_toList] at hchild
    obtain rfl | ⟨e, he, rfl⟩ | ⟨e, he, rfl⟩ := hchild
    · exact howner
    · exact hstart e he
    · exact hstop e he
  refine fun o => .ifAccepts List.suffix_rfl (fun c hc => ?_) ?_
  · refine .bind h.sliceStop hc fun stop? c hstop hc => ?_
    exact .expect hc fun c hc => .pure (hslice (by simp) hstop) hc
  · refine .bind h.expr List.suffix_rfl fun first c hfirst hc => .ifAccepts hc (fun c hc => ?_) ?_
    · refine .bind h.sliceStop hc fun stop? c hstop hc => ?_
      exact .expect hc fun c hc => .pure (hslice (by simpa using hfirst) hstop) hc
    · refine .expect hc fun c hc => .pure (Node.Regular.of_children rfl rfl ?_) hc
      simpa [Node.children, Expr.children] using And.intro howner hfirst

theorem chainRound (h : g.Sound) (e : Expr) (he : e.Regular) : (g.chainRound e).Sound (Turn.All Expr.Regular) := by
  refine fun o => .kind ?_
  split
  · refine .take List.suffix_rfl fun c hc _ => ?_
    refine .bind (repeated_sound h.argumentRound (by simp)) hc fun args c hargs hc => .expect hc fun c hc => ?_
    refine .pure (Node.Regular.of_children rfl rfl fun child hchild => ?_) hc
    simp only [Node.children, Expr.children, List.mem_cons, List.mem_append, List.mem_map] at hchild
    obtain rfl | ⟨arg, harg, rfl⟩ | ⟨entry, hentry, rfl⟩ := hchild
    · exact he
    · exact hargs.1 arg harg
    · exact hargs.2 entry hentry
  · refine .take List.suffix_rfl fun c hc _ => .bind propertyName_sound hc fun property c _ hc => ?_
    exact .pure (Node.Regular.of_children rfl rfl (by simpa [Node.children, Expr.children] using he)) hc
  · exact .take List.suffix_rfl fun c hc _ => .bind (h.subscript he) hc fun e c he hc => .pure he hc
  · exact .pure he List.suffix_rfl

theorem chain (h : g.Sound) : g.chain.Sound Expr.Regular := fun _ =>
  .bind h.primary List.suffix_rfl fun _ _ he hc => .last (repeated_sound h.chainRound he) hc

/-! ## Operators around operands -/

theorem postfixed (h : g.Sound) : g.postfixed.Sound Expr.Regular := by
  refine fun o => .bind h.chain List.suffix_rfl fun e c he hc => .kind ?_
  split
  · exact .pure he hc
  · refine .take hc fun c' hc' hco => ?_
    split
    next hplace =>
      exact .pure (Node.Regular.of_children hplace rfl (by simpa [Node.children, Expr.children] using he)) hco
    next => exact .fail hc hc' rfl

theorem unaryExpr (h : g.Sound) : g.unaryExpr.Sound Expr.Regular := by
  refine fun o => .position (.kind ?_)
  split
  · refine .take List.suffix_rfl fun c hc _ => .bind h.unary hc fun operand c hoperand hc => ?_
    exact .pure (Node.Regular.of_children rfl rfl (by simpa [Node.children, Expr.children] using hoperand)) hc
  · split
    · -- The fault is reported at the operator, which stands before the operand.
      refine .take List.suffix_rfl fun c hc _ => .bind h.unary hc fun target c htarget hc => ?_
      split
      next hplace =>
        exact .pure (Node.Regular.of_children hplace rfl (by simpa [Node.children, Expr.children] using htarget)) hc
      next => exact .fail List.suffix_rfl hc rfl
    · exact h.postfixed o

theorem powerExpr (h : g.Sound) : g.powerExpr.Sound Expr.Regular := by
  refine fun o => .bind h.unaryExpr List.suffix_rfl fun base c hbase hc => .ifAccepts hc (fun c hc => ?_) (.pure hbase hc)
  refine .bind h.power hc fun exponent c hexponent hc => .pure (Node.Regular.of_children rfl rfl ?_) hc
  simpa [Node.children, Expr.children] using And.intro hbase hexponent

end Sound

theorem Infix.apply_regular (op : Infix) {left right : Expr} (hleft : left.Regular) (hright : right.Regular) :
    (op.apply left right).Regular := by
  have hoperands : ∀ child ∈ [Node.expr left, Node.expr right], child.Regular := by
    simpa using And.intro hleft hright
  cases op with
  | logical op => exact Node.Regular.of_children rfl rfl hoperands
  | binary op => exact Node.Regular.of_children rfl rfl hoperands

theorem level_sound {operand : Parse Expr} (h : operand.Sound Expr.Regular) (ops : List Infix) :
    (level ops operand).Sound Expr.Regular := by
  have hround left (hleft : Expr.Regular left) : (levelRound ops operand left).Sound (Turn.All Expr.Regular) := by
    refine fun o => .kind ?_
    split
    · exact .pure hleft List.suffix_rfl
    · rename_i op _
      refine .take List.suffix_rfl fun c hc _ => .bind h hc fun right c hright hc => ?_
      exact .pure (op.apply_regular hleft hright) hc
  exact fun o => .bind h List.suffix_rfl fun left c hleft hc => .last (repeated_sound hround hleft) hc

namespace Sound

variable {g : Grammar}

theorem levels (h : g.Sound) (table : List (List Infix)) : (table.foldr level g.powerExpr).Sound Expr.Regular := by
  induction table with
  | nil => exact h.powerExpr
  | cons ops table ih => exact level_sound ih ops

theorem assignExpr (h : g.Sound) : g.assignExpr.Sound Expr.Regular := by
  refine fun o => .bind (h.levels Grammar.levels) List.suffix_rfl fun target c htarget hc => .kind ?_
  split
  · exact .pure htarget hc
  · refine .take hc fun c' hc' hco => ?_
    split
    next hplace =>
      refine .bind h.expr hco fun value c hvalue hc => .pure (Node.Regular.of_children hplace rfl ?_) hc
      simpa [Node.children, Expr.children] using And.intro htarget hvalue
    next => exact .fail hc hc' rfl

/-- Where a word stands that can only begin a statement, every fault stands behind it. -/
theorem bareStmt (h : g.Sound) (c : Cursor) :
    g.bareStmt.Yields c (if c.kind.startsStatement then c.advance else c) Stmt.Regular := by
  have hopens {opening : Kind} {p : Parse Stmt} (hp : p.SoundAfter opening Stmt.Regular) (hk : c.kind = opening)
      (hs : opening.startsStatement = true) :
      p.Yields c (if c.kind.startsStatement then c.advance else c) Stmt.Regular := by
    rw [hk, if_pos hs]
    simpa [hk] using hp c
  have hcond : g.conditional.SoundAfter (.keyword .when) Stmt.Regular := fun c =>
    (h.conditional c).imp fun _ => And.left
  generalize ho : (if c.kind.startsStatement then c.advance else c) = o at hopens ⊢
  refine .kind ?_
  split
  all_goals rename_i hk
  · exact hopens h.function hk rfl
  · exact hopens h.ret hk rfl
  · exact hopens hcond hk rfl
  · exact hopens h.loop hk rfl
  · rw [hk] at ho
    subst ho
    exact ⟨Node.Regular.of_children rfl rfl (by simp [Node.children, Stmt.children]), List.suffix_rfl⟩
  · exact hopens enum_sound hk rfl
  · exact hopens h.draw hk rfl
  · exact hopens h.update hk rfl
  · rw [hk] at ho
    subst ho
    refine .bind h.block List.suffix_rfl fun body c hbody hc => .pure (Node.Regular.of_children rfl rfl ?_) hc
    simpa [Node.children, Stmt.children] using hbody
  · -- An expression may fail where it stands, but not at a word that begins a statement.
    have hs : c.kind.startsStatement = false := by
      generalize c.kind = k at *
      cases k with
      | keyword word => cases word <;> simp_all [Kind.startsStatement]
      | _ => rfl
    rw [hs] at ho
    subst ho
    refine .bind h.assignExpr List.suffix_rfl fun value c hvalue hc => .pure (Node.Regular.of_children rfl rfl ?_) hc
    simpa [Node.children, Stmt.children] using hvalue

theorem statement_yields (h : g.Sound) (c : Cursor) :
    g.statement.Yields c (if c.kind.startsStatement then c.advance else c) Stmt.Regular :=
  .andThen (h.bareStmt c) fun _ _ hs hc => .bind (accepts_sound _) hc fun _ _ _ hc => .pure hs hc

theorem next (h : g.Sound) : g.next.Sound where
  expr := h.assignExpr
  power := h.powerExpr
  unary := h.unaryExpr
  stmt c := (h.statement_yields c).since (by split <;> simp [Cursor.tokens_advance])
  cond := h.conditional.sound

end Sound

end Grammar

theorem grammar_sound (depth : Nat) : (grammar depth).Sound := by
  induction depth with
  | zero => exact ⟨fun _ => trivial, fun _ => trivial, fun _ => trivial, fun _ => trivial, fun _ => trivial⟩
  | succ depth ih => exact ih.next

theorem grammar_stmt_yields (depth : Nat) (c : Cursor) :
    (grammar depth).stmt.Yields c (if c.kind.startsStatement then c.advance else c) Stmt.Regular := by
  cases depth with
  | zero => trivial
  | succ depth => exact (grammar_sound depth).statement_yields c

end Cairn
