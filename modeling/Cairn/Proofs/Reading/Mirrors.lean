import Cairn.Proofs.Reading.Joint

/-!
# The grammar reads twins alike

Every rule of a grammar is mirrored by the same rule of another one, if the rules for what is nested are. A statement
takes a semicolon behind it and is loose; blocks, lists, arguments and arms need a closing mark, which the end of a text
is not, and so they are tight again. A deeper grammar mirrors every grammar that is less deep.
-/

namespace Cairn

open Token (Keyword Symbol Kind)
open Parse
open Joint (Mirrors MirrorsAhead Rounds Twin)

/-- The rules for what is nested are mirrored. -/
structure Grammar.Mirrored (J : Joint) (g g' : Grammar) : Prop where
  expr : J.Mirrors .tight g.expr g'.expr
  power : J.Mirrors .tight g.power g'.power
  unary : J.Mirrors .tight g.unary g'.unary
  stmt : J.Mirrors .loose g.stmt g'.stmt
  cond : J.Mirrors .tight g.cond g'.cond

variable {J : Joint}

namespace Grammar

theorem variantDecl_mirrored : J.Mirrors .tight variantDecl variantDecl := by
  refine .bind .identifier fun name => .ifAccepts (by simp) (by simp) ?_ (.pure _)
  exact .bind (.listUntil .identifier) fun fields => .pure _

theorem enum_mirrored : J.Mirrors .tight enum enum := by
  refine .opening (by simp) fun pos => .bind .identifier fun name => .bind (.expect (by simp)) fun _ => ?_
  exact .bind (.listUntil variantDecl_mirrored) fun variants => .pure _

theorem entryKey_mirrored : J.Mirrors .tight entryKey entryKey := by
  refine .kind (fun kind => ?_) .propertyName
  cases kind with
  | text value => exact .next fun _ => .pure _
  | _ => exact Mirrors.propertyName.ahead

/-! ## Patterns -/

theorem patternName_mirrored : J.Mirrors .tight patternName patternName :=
  .ifAccepts (by simp) (by simp) (.pure _) .identifier

theorem patternFields_mirrored (enum? : Option String) (name : String) (pos : Position) :
    J.Mirrors .tight (patternFields enum? name pos) (patternFields enum? name pos) := by
  refine .ifAccepts (by simp) (by simp) (.bind (.listUntil patternName_mirrored) fun names => .pure _) ?_
  split
  · exact .pure _
  · exact .pure _

theorem namedPattern_mirrored (first : String) (pos : Position) :
    J.Mirrors .tight (namedPattern first pos) (namedPattern first pos) := by
  refine .ifAccepts (by simp) (by simp) ?_ (patternFields_mirrored _ first pos)
  exact .bind .identifier fun name => patternFields_mirrored _ name pos

theorem pattern_mirrored : J.Mirrors .tight pattern pattern := by
  refine .position (fun a c => ?_) fun pos => .kind fun kind => ?_
  · simp [Bind.bind, Parse.position, Parse.kind, Joint.kind_ended, Parse.unexpected]
  cases kind with
  | number value => exact .next fun _ => .pure _
  | text value => exact .next fun _ => .pure _
  | bool value => exact .next fun _ => .pure _
  | null => exact .next fun _ => .pure _
  | name first => exact .next fun _ => namedPattern_mirrored first pos
  | keyword word =>
      cases word with
      | underscore => exact .next fun _ => .pure _
      | _ => exact (Mirrors.unexpected _).ahead
  | symbol mark =>
      cases mark with
      | minus =>
          refine .next fun sign => .of_ahead (fun a c => ?_) (.next fun t => ?_)
          · simp [Bind.bind, Parse.next, Joint.ended, J.eof_kind, Parse.fail]
          · obtain ⟨kind, lexeme, tokenPos⟩ := t
            cases kind with
            | number value => exact .pure _
            | _ => exact .fail _ _
      | _ => exact (Mirrors.unexpected _).ahead
  | _ => exact (Mirrors.unexpected _).ahead

theorem separatorRound_mirrored : J.Rounds separatorRound separatorRound where
  stop state := by simp [separatorRound, Bind.bind, Parse.accepts, Joint.kind_ended]; rfl
  mirrors state := by
    refine .loose_of_ahead (a := .stop ()) ?_ ?_
    · simp [separatorRound, Bind.bind, Parse.accepts, Joint.kind_ended]; rfl
    · exact .ifAccepts (.pure _) (.ifAccepts (.pure _) (Mirrors.pure _).ahead)

/-! ## Expressions at the end -/

theorem primary_ended (g : Grammar) (a : Expr) (c : Cursor) : g.primary J.ended ≠ .done a c := by
  simp [primary, Bind.bind, Parse.position, Parse.kind, Joint.kind_ended, Parse.unexpected]

theorem unaryExpr_ended (g : Grammar) (a : Expr) (c : Cursor) : g.unaryExpr J.ended ≠ .done a c := by
  have hprimary := primary_ended (J := J) g
  simp only [unaryExpr, Bind.bind, Parse.position, Parse.kind, Joint.kind_ended, unaryOp?, direction?, postfixed, chain]
  cases hp : g.primary J.ended with
  | done a c => exact absurd hp (hprimary a c)
  | failed fault c => simp
  | exhausted => simp

theorem kind_of_keyword? {c : Cursor} {name : String} (h : keyword? c = some name) : c.advance.kind = .symbol .eq := by
  obtain ⟨t, rest⟩ := c
  unfold keyword? at h
  split at h
  · split at h
    · rename_i hlater
      cases rest with
      | nil => cases hlater
      | cons u rest => exact Option.some.inj hlater
    · cases h
  · cases h

namespace Mirrored

variable {g g' : Grammar}

/-! ## Statements -/

theorem blockRound (h : g.Mirrored J g') : J.Rounds g.blockRound g'.blockRound := by
  refine .of_closes fun stmts => .ifAccepts (.pure _) ?_
  exact (h.stmt.map fun s => Turn.again (stmts ++ [s])).ahead

theorem block (h : g.Mirrored J g') : J.Mirrors .tight g.block g'.block :=
  .opening (by simp) fun _ => h.blockRound.closed (by simp) [] fun _ => .pure _

theorem function (h : g.Mirrored J g') : J.Mirrors .tight g.function g'.function := by
  refine .opening (by simp) fun pos => .bind .identifier fun name => .bind (.expect (by simp)) fun _ => ?_
  exact .bind (.listUntil .identifier) fun params => .bind h.block fun body => .pure _

theorem ret (h : g.Mirrored J g') : J.Mirrors .tight g.ret g'.ret := by
  refine .opening (by simp) fun pos => .kind (fun kind => ?_) (.pure _)
  split
  · exact (Mirrors.pure _).ahead
  · exact (Mirrors.bind h.expr fun value => .pure _).ahead

theorem conditional (h : g.Mirrored J g') : J.Mirrors .tight g.conditional g'.conditional := by
  refine .opening (by simp) fun pos => .bind h.expr fun test => .bind h.block fun body => ?_
  refine .ifAccepts (by simp) (by simp) (.ifSees (by simp) (by simp) ?_ ?_) (.pure _)
  · exact .bind h.cond fun other => .pure _
  · exact .bind h.block fun other => .pure _

theorem loop (h : g.Mirrored J g') : J.Mirrors .tight g.loop g'.loop :=
  .opening (by simp) fun _ => .bind h.block fun _ => .pure _

theorem draw (h : g.Mirrored J g') : J.Mirrors .tight g.draw g'.draw :=
  .opening (by simp) fun _ => .bind h.block fun _ => .pure _

theorem update (h : g.Mirrored J g') : J.Mirrors .tight g.update g'.update := by
  refine .opening (by simp) fun pos => .ifAccepts (by simp) (by simp) ?_ (.bind h.block fun body => .pure _)
  exact .bind .identifier fun param => .bind (.expect (by simp)) fun _ => .bind h.block fun body => .pure _

/-! ## Primary expressions -/

theorem entry (h : g.Mirrored J g') : J.Mirrors .tight g.entry g'.entry :=
  .bind entryKey_mirrored fun _ => .bind (.expect (by simp)) fun _ => .bind h.expr fun _ => .pure _

theorem object (h : g.Mirrored J g') : J.Mirrors .tight g.object g'.object :=
  .opening (by simp) fun _ => .bind (.listUntil h.entry) fun _ => .pure _

theorem armBody (h : g.Mirrored J g') : J.Mirrors .tight g.armBody g'.armBody := by
  refine .ifCursor (fun pairing c d hc => ?_) (.bind h.block fun _ => .pure _) (.bind h.expr fun _ => .pure _)
  obtain ⟨ht, -⟩ | ⟨-, rfl, rfl⟩ := hc.cases
  · rw [hc.opensObject ht, Joint.kind_of_token ht]
  · simp [Joint.kind_ended, Joint.kind_goesOn]

theorem armRound (h : g.Mirrored J g') : J.Rounds g.armRound g'.armRound := by
  refine .of_closes fun arms => .position fun pos => Mirrors.ahead ?_
  refine .bind pattern_mirrored fun p => .bind (.expect (by simp)) fun _ => .bind h.armBody fun body => ?_
  exact (separatorRound_mirrored.repeated ()).map fun _ => Turn.again (arms ++ [.mk p body pos])

theorem choose (h : g.Mirrored J g') : J.Mirrors .tight g.choose g'.choose := by
  refine .opening (by simp) fun pos => .bind h.expr fun subject => .bind (.expect (by simp)) fun _ => ?_
  exact h.armRound.closed (by simp) [] fun arms => .pure _

theorem primary (h : g.Mirrored J g') : J.Mirrors .tight g.primary g'.primary := by
  refine .position (primary_ended g) fun pos => .kind fun kind => ?_
  cases kind with
  | number value => exact .next fun _ => .pure _
  | text value => exact .next fun _ => .pure _
  | bool value => exact .next fun _ => .pure _
  | null => exact .next fun _ => .pure _
  | name name => exact .next fun _ => .pure _
  | keyword word =>
      cases word with
      | prototype =>
          exact .next fun _ => .bind (.expect (by simp)) fun _ => .bind (.expect (by simp)) fun _ => .pure _
      | select => exact h.choose.ahead
      | _ => exact (Mirrors.unexpected _).ahead
  | symbol mark =>
      cases mark with
      | lparen => exact .next fun _ => .bind h.expr fun _ => .bind (.expect (by simp)) fun _ => .pure _
      | lbracket => exact .next fun _ => .bind (.listUntil h.expr) fun items => .pure _
      | lbrace => exact h.object.ahead
      | _ => exact (Mirrors.unexpected _).ahead
  | _ => exact (Mirrors.unexpected _).ahead

/-! ## Calls, members, indices -/

theorem argumentRound (h : g.Mirrored J g') : J.Rounds g.argumentRound g'.argumentRound := by
  refine .of_closes fun args => .cursor fun pairing c d hc ht hnext => ?_
  rw [hc.keyword?, ht]
  cases hword : keyword? d with
  | some name =>
      -- A keyword argument goes on with its equals sign, where no text ends.
      have hvalue : J.MirrorsAhead .loose
          (do let _ ← Parse.next; afterItem { args with named := args.named ++ [(name, ← g.expr)] })
          (do let _ ← Parse.next; afterItem { args with named := args.named ++ [(name, ← g'.expr)] }) :=
        .next fun _ => .bind h.expr fun value => .afterItem _
      obtain ⟨ht', hnext'⟩ | ⟨rfl, hended, -⟩ := hnext.cases
      · exact hvalue pairing _ _ hnext ht' hnext'
      · have heq := kind_of_keyword? (hc.keyword?.trans hword)
        rw [hended, Joint.kind_ended] at heq
        cases heq
  | none =>
      have hplain : J.Mirrors .loose
          (do afterItem { args with positional := args.positional ++ [← g.expr] })
          (do afterItem { args with positional := args.positional ++ [← g'.expr] }) :=
        .bind h.expr fun value => .afterItem _
      cases args.named.isEmpty with
      | true => exact hplain pairing c d hc
      | false => exact Mirrors.fail _ _ pairing c d hc

theorem sliceStop (h : g.Mirrored J g') : J.Mirrors .tight g.sliceStop g'.sliceStop :=
  .ifSees (by simp) (by simp) (.pure _) (.bind h.expr fun _ => .pure _)

theorem subscript (h : g.Mirrored J g') (object : Expr) :
    J.Mirrors .tight (g.subscript object) (g'.subscript object) := by
  have hslice (start? : Option Expr) : J.Mirrors .tight
      (do let stop? ← g.sliceStop; expect (.symbol .rbracket); return Expr.slice object start? stop? object.pos)
      (do let stop? ← g'.sliceStop; expect (.symbol .rbracket); return Expr.slice object start? stop? object.pos) :=
    .bind h.sliceStop fun _ => .bind (.expect (by simp)) fun _ => .pure _
  refine .ifAccepts (by simp) (by simp) (hslice none) (.bind h.expr fun first => ?_)
  exact .ifAccepts (by simp) (by simp) (hslice (some first)) (.bind (.expect (by simp)) fun _ => .pure _)

theorem chainRound (h : g.Mirrored J g') (e : Expr) : J.Mirrors .tight (g.chainRound e) (g'.chainRound e) := by
  refine .kind (fun kind => ?_) (.pure _)
  cases kind with
  | symbol mark =>
      cases mark with
      | lparen => exact .next fun _ => h.argumentRound.closed (by simp) {} fun args => .pure _
      | dot => exact .next fun _ => .bind .propertyName fun property => .pure _
      | lbracket => exact .next fun _ => .bind (h.subscript e) fun _ => .pure _
      | _ => exact (Mirrors.pure _).ahead
  | _ => exact (Mirrors.pure _).ahead

theorem chain (h : g.Mirrored J g') : J.Mirrors .tight g.chain g'.chain :=
  .bind h.primary fun e => .repeated h.chainRound e

/-! ## Operators around operands -/

theorem postfixed (h : g.Mirrored J g') : J.Mirrors .tight g.postfixed g'.postfixed := by
  refine .bind h.chain fun e => .kind (fun kind => ?_) (.pure _)
  cases direction? kind with
  | none => exact (Mirrors.pure _).ahead
  | some direction =>
      refine .next fun t => ?_
      split
      · exact .pure _
      · exact .fail _ _

theorem unaryExpr (h : g.Mirrored J g') : J.Mirrors .tight g.unaryExpr g'.unaryExpr := by
  refine .position (unaryExpr_ended g) fun pos => .kind fun kind => ?_
  cases unaryOp? kind with
  | some op => exact .next fun _ => .bind h.unary fun _ => .pure _
  | none =>
      cases direction? kind with
      | none => exact h.postfixed.ahead
      | some direction =>
          refine .next fun t => .bind h.unary fun target => ?_
          split
          · exact .pure _
          · exact .fail _ _

theorem powerExpr (h : g.Mirrored J g') : J.Mirrors .tight g.powerExpr g'.powerExpr := by
  refine .bind h.unaryExpr fun base => .ifAccepts (by simp) (by simp) ?_ (.pure _)
  exact .bind h.power fun exponent => .pure _

end Mirrored

theorem level_mirrored {operand operand' : Parse Expr} (h : J.Mirrors .tight operand operand') (ops : List Infix) :
    J.Mirrors .tight (level ops operand) (level ops operand') := by
  refine .bind h fun left => .repeated (fun left => .kind (fun kind => ?_) (.pure _)) left
  cases (Infix.ofKind? kind).filter (· ∈ ops) with
  | none => exact (Mirrors.pure _).ahead
  | some op => exact .next fun _ => .bind h fun right => .pure _

namespace Mirrored

variable {g g' : Grammar}

theorem levels (h : g.Mirrored J g') (table : List (List Infix)) :
    J.Mirrors .tight (table.foldr level g.powerExpr) (table.foldr level g'.powerExpr) := by
  induction table with
  | nil => exact h.powerExpr
  | cons ops table ih => exact level_mirrored ih ops

theorem assignExpr (h : g.Mirrored J g') : J.Mirrors .tight g.assignExpr g'.assignExpr := by
  refine .bind (h.levels Grammar.levels) fun target => .kind (fun kind => ?_) (.pure _)
  cases assignment? kind with
  | none => exact (Mirrors.pure _).ahead
  | some op? =>
      refine .next fun t => ?_
      split
      · exact .bind h.expr fun _ => .pure _
      · exact .fail _ _

theorem bareStmt (h : g.Mirrored J g') : J.Mirrors .tight g.bareStmt g'.bareStmt := by
  have hexpr : J.Mirrors .tight (do return Stmt.expr (← g.assignExpr)) (do return Stmt.expr (← g'.assignExpr)) :=
    .bind h.assignExpr fun _ => .pure _
  refine .kind (fun kind => ?_) hexpr
  cases kind with
  | keyword word =>
      cases word with
      | function => exact h.function.ahead
      | result => exact h.ret.ahead
      | when => exact h.conditional.ahead
      | loop => exact h.loop.ahead
      | leave => exact .next fun _ => .pure _
      | enum => exact enum_mirrored.ahead
      | draw => exact h.draw.ahead
      | update => exact h.update.ahead
      | _ => exact hexpr.ahead
  | symbol mark =>
      cases mark with
      | lbrace => exact (Mirrors.bind h.block fun body => .pure _).ahead
      | _ => exact hexpr.ahead
  | _ => exact hexpr.ahead

theorem statement (h : g.Mirrored J g') : J.Mirrors .loose g.statement g'.statement := by
  refine .bind h.bareStmt fun s => .loose_of_ahead (a := s) ?_ (.accepts fun _ => .pure _)
  simp [Bind.bind, Parse.accepts, Joint.kind_ended]
  rfl

theorem next (h : g.Mirrored J g') : g.next.Mirrored J g'.next where
  expr := h.assignExpr
  power := h.powerExpr
  unary := h.unaryExpr
  stmt := h.statement
  cond := h.conditional

end Mirrored

end Grammar

theorem grammar_mirrored {depth depth' : Nat} (hle : depth ≤ depth') : (grammar depth).Mirrored J (grammar depth') := by
  induction depth generalizing depth' with
  | zero => exact ⟨.none, .none, .none, .none, .none⟩
  | succ depth ih =>
      obtain ⟨depth', rfl⟩ := Nat.exists_eq_add_of_lt hle
      exact (ih (by omega)).next

end Cairn
