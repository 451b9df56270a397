import Cairn.Proofs.Layout.Moved

/-!
# Reading is blind to positions

If the positions of all tokens are changed by a map, every rule of the grammar reads them as before: its value, its
fault and the cursor after it have their positions changed by the map, and nothing else is different.
-/

namespace Cairn

open Token (Keyword Symbol Kind)
open Located (relocate relocate_concat relocate_fixed)
open Parse

instance : Located Kind := ⟨fun _ kind => kind⟩

instance : Located Bool := ⟨fun _ b => b⟩

instance {α : Type} [Located α] : Located (Turn α) where
  relocate f
    | .again state => .again (relocate f state)
    | .stop state => .stop (relocate f state)

/-! ## Steps -/

variable {f : Position → Position} {α β : Type} [Located α] [Located β]

/-- The second reading is the first one with its positions changed; a fault in it is one of the grammar. -/
inductive Reading.Follows (f : Position → Position) : Reading α → Reading α → Prop where
  | done (a : α) (c : Cursor) : Reading.Follows f (.done a c) (.done (relocate f a) (relocate f c))
  | failed (fault : Diagnostic) (c : Cursor) (h : fault.cause.phase = .syntactic) :
      Reading.Follows f (.failed fault c) (.failed (relocate f fault) (relocate f c))
  | exhausted : Reading.Follows f .exhausted .exhausted

/-- Where positions are changed, the second step reads as the first one does where they are not. -/
def Parse.Follows (f : Position → Position) (p q : Parse α) : Prop := ∀ c, Reading.Follows f (p c) (q (relocate f c))

theorem Cursor.kind_relocate (c : Cursor) : (relocate f c).kind = c.kind := rfl

theorem Cursor.advance_relocate (c : Cursor) : (relocate f c).advance = relocate f c.advance := by
  obtain ⟨t, rest⟩ := c
  cases rest <;> rfl

theorem Cursor.later?_relocate (c : Cursor) (n : Nat) : (relocate f c).later? n = c.later? n := by
  simp only [Cursor.later?, relocate, List.getElem?_map, Option.map_map]
  rfl

theorem Cursor.length_relocate (c : Cursor) : (relocate f c).rest.length = c.rest.length := List.length_map _

namespace Parse.Follows

variable {p q : Parse α} {k l : α → Parse β} {x y x' y' : Parse β}

theorem pure {a b : α} (h : relocate f a = b) : Follows f (Pure.pure a) (Pure.pure b) := by
  intro c
  subst h
  exact .done a c

theorem bind (h : Follows f p q) (hk : ∀ a, Follows f (k a) (l (relocate f a))) : Follows f (p >>= k) (q >>= l) := by
  intro c
  have hc := h c
  simp only [Bind.bind]
  generalize p c = r, q (relocate f c) = r' at hc
  cases hc with
  | done a c => exact hk a c
  | failed fault c h => exact .failed fault c h
  | exhausted => exact .exhausted

theorem none : Follows f (Parse.exhausted : Parse α) Parse.exhausted := fun _ => .exhausted

theorem fail {cause : Diagnostic.Cause} (h : cause.phase = .syntactic) (pos : Position) :
    Follows f (Parse.fail cause pos : Parse α) (Parse.fail cause (f pos)) := fun c => .failed ⟨cause, pos⟩ c h

theorem position {k l : Position → Parse β} (h : ∀ pos, Follows f (k pos) (l (f pos))) :
    Follows f (Parse.position >>= k) (Parse.position >>= l) := fun c => h c.token.position c

theorem kind {k l : Kind → Parse β} (h : ∀ kind, Follows f (k kind) (l kind)) :
    Follows f (Parse.kind >>= k) (Parse.kind >>= l) := fun c => h c.kind c

theorem cursor {k l : Cursor → Parse β} (h : ∀ c, Follows f (k c) (l (relocate f c))) :
    Follows f (Parse.cursor >>= k) (Parse.cursor >>= l) := fun c => h c c

theorem next {k l : Token → Parse β} (h : ∀ t, Follows f (k t) (l (relocate f t))) :
    Follows f (Parse.next >>= k) (Parse.next >>= l) := by
  intro c
  have hc := h c.token c.advance
  rw [← Cursor.advance_relocate] at hc
  exact hc

theorem expect (needed : Kind) : Follows f (Parse.expect needed) (Parse.expect needed) := by
  intro c
  simp only [Parse.expect, Cursor.kind_relocate, Cursor.advance_relocate]
  split
  · exact .done () c.advance
  · exact .failed ⟨.missingToken needed c.kind, c.token.position⟩ c rfl

theorem unexpected (form : Diagnostic.Form) : Follows f (Parse.unexpected form : Parse α) (Parse.unexpected form) :=
  fun c => .failed ⟨.missingForm form c.kind, c.token.position⟩ c rfl

theorem accepts (wanted : Kind) : Follows f (Parse.accepts wanted) (Parse.accepts wanted) := by
  intro c
  simp only [Parse.accepts, Cursor.kind_relocate, Cursor.advance_relocate]
  split
  · exact .done true c.advance
  · exact .done false c

theorem ifAccepts {wanted : Kind} (hx : Follows f x x') (hy : Follows f y y') :
    Follows f (Parse.accepts wanted >>= fun taken => if taken = true then x else y)
      (Parse.accepts wanted >>= fun taken => if taken = true then x' else y') := by
  refine bind (accepts wanted) fun taken => ?_
  cases taken with
  | true => exact hx
  | false => exact hy

theorem ifSees {wanted : Kind} (hx : Follows f x x') (hy : Follows f y y') :
    Follows f (Parse.sees wanted >>= fun seen => if seen = true then x else y)
      (Parse.sees wanted >>= fun seen => if seen = true then x' else y') := by
  refine bind (fun c => .done _ c) fun seen => ?_
  cases seen with
  | true => exact hx
  | false => exact hy

theorem ifCloses {close : Kind} (hx : Follows f x x') (hy : Follows f y y') :
    Follows f (Parse.closes close >>= fun closed => if closed = true then x else y)
      (Parse.closes close >>= fun closed => if closed = true then x' else y') := by
  refine bind (fun c => .done _ c) fun closed => ?_
  cases closed with
  | true => exact hx
  | false => exact hy

theorem identifier : Follows f Parse.identifier Parse.identifier := by
  refine next fun t => ?_
  obtain ⟨kind, lexeme, pos⟩ := t
  cases kind with
  | name value => exact pure rfl
  | _ => exact fail rfl pos

theorem propertyName : Follows f Parse.propertyName Parse.propertyName := by
  refine next fun t => ?_
  obtain ⟨kind, lexeme, pos⟩ := t
  have hword : Follows f (if isWord lexeme then Pure.pure lexeme
      else Parse.fail (.missingWord .propertyName lexeme) pos)
      (if isWord lexeme then Pure.pure lexeme else Parse.fail (.missingWord .propertyName lexeme) (f pos)) := by
    split
    · exact pure rfl
    · exact fail rfl pos
  cases kind with
  | name value => exact pure rfl
  | _ => exact hword

/-! ## Rounds -/

theorem rounds {round round' : α → Parse (Turn α)} (h : ∀ state, Follows f (round state) (round' (relocate f state)))
    (allowance : Nat) (state : α) :
    Follows f (Parse.rounds round allowance state) (Parse.rounds round' allowance (relocate f state)) := by
  induction allowance generalizing state with
  | zero => exact none
  | succ allowance ih =>
      refine bind (h state) fun turn => ?_
      cases turn with
      | stop state => exact pure rfl
      | again state => exact ih state

theorem repeated {round round' : α → Parse (Turn α)} (h : ∀ state, Follows f (round state) (round' (relocate f state)))
    {state state' : α} (hstate : relocate f state = state') :
    Follows f (Parse.repeated round state) (Parse.repeated round' state') := by
  intro c
  subst hstate
  rw [Parse.repeated, Parse.repeated, Cursor.length_relocate]
  exact rounds h _ state c

theorem afterItem (state : α) : Follows f (Parse.afterItem state) (Parse.afterItem (relocate f state)) :=
  ifAccepts (pure rfl) (pure rfl)

theorem listUntil {close : Symbol} (h : Follows f p q) :
    Follows f (Parse.listUntil close p) (Parse.listUntil close q) := by
  refine bind (repeated (fun items => ?_) rfl) fun items => bind (expect _) fun _ => pure rfl
  refine ifCloses (pure rfl) (bind h fun x => ?_)
  rw [← relocate_concat]
  exact afterItem _

end Parse.Follows

/-! ## Rules -/

structure Grammar.Blind (f : Position → Position) (g : Grammar) : Prop where
  expr : Follows f g.expr g.expr
  power : Follows f g.power g.power
  unary : Follows f g.unary g.unary
  stmt : Follows f g.stmt g.stmt
  cond : Follows f g.cond g.cond

namespace Grammar

theorem variantDecl_blind : Follows f variantDecl variantDecl := by
  refine .bind .identifier fun name => .ifAccepts (.bind (.listUntil .identifier) fun fields => .pure ?_) (.pure rfl)
  rw [relocate_fixed (fun _ => rfl) fields]
  rfl

theorem enum_blind : Follows f enum enum := by
  refine .position fun pos => .bind (.expect _) fun _ => .bind .identifier fun name => .bind (.expect _) fun _ => ?_
  refine .bind (.listUntil variantDecl_blind) fun variants => .pure ?_
  rw [relocate_fixed (fun _ => rfl) variants]
  rfl

theorem entryKey_blind : Follows f entryKey entryKey := by
  refine .kind fun kind => ?_
  cases kind with
  | text value => exact .next fun _ => .pure rfl
  | _ => exact .propertyName

theorem patternName_blind : Follows f patternName patternName := .ifAccepts (.pure rfl) .identifier

theorem patternFields_blind (enum? : Option String) (name : String) (pos : Position) :
    Follows f (patternFields enum? name pos) (patternFields enum? name (f pos)) := by
  refine .ifAccepts (.bind (.listUntil patternName_blind) fun names => .pure ?_) ?_
  · rw [relocate_fixed (fun _ => rfl) names]
    rfl
  · split
    · exact .pure rfl
    · exact .pure rfl

theorem namedPattern_blind (first : String) (pos : Position) :
    Follows f (namedPattern first pos) (namedPattern first (f pos)) :=
  .ifAccepts (.bind .identifier fun name => patternFields_blind _ name pos) (patternFields_blind _ first pos)

theorem pattern_blind : Follows f pattern pattern := by
  refine .position fun pos => .kind fun kind => ?_
  cases kind with
  | number value => exact .next fun _ => .pure rfl
  | text value => exact .next fun _ => .pure rfl
  | bool value => exact .next fun _ => .pure rfl
  | null => exact .next fun _ => .pure rfl
  | name first => exact .next fun _ => namedPattern_blind first pos
  | keyword word =>
      cases word with
      | underscore => exact .next fun _ => .pure rfl
      | _ => exact .unexpected _
  | symbol mark =>
      cases mark with
      | minus =>
          refine .next fun sign => .next fun t => ?_
          obtain ⟨kind, lexeme, tokenPos⟩ := t
          cases kind with
          | number value => exact .pure rfl
          | _ => exact .fail rfl sign.position
      | _ => exact .unexpected _
  | _ => exact .unexpected _

theorem separatorRound_blind (state : Unit) : Follows f (separatorRound state) (separatorRound state) :=
  .ifAccepts (.pure rfl) (.ifAccepts (.pure rfl) (.pure rfl))

theorem opensObject_relocate (c : Cursor) : opensObject (relocate f c) = opensObject c := by
  simp only [opensObject, Cursor.later?_relocate]

theorem keyword?_relocate (c : Cursor) : keyword? (relocate f c) = keyword? c := by
  simp only [keyword?, Cursor.kind_relocate, Cursor.later?_relocate]

namespace Blind

variable {g : Grammar}

/-! ## Statements -/

theorem blockRound (h : g.Blind f) (stmts : List Stmt) :
    Follows f (g.blockRound stmts) (g.blockRound (relocate f stmts)) := by
  refine .ifCloses (.pure rfl) (.ifAccepts (.pure rfl) (.bind h.stmt fun s => ?_))
  rw [← relocate_concat]
  exact .pure rfl

theorem block (h : g.Blind f) : Follows f g.block g.block := by
  refine .position fun pos => .bind (.expect _) fun _ => .bind (.repeated h.blockRound rfl) fun stmts => ?_
  exact .bind (.expect _) fun _ => .pure rfl

theorem function (h : g.Blind f) : Follows f g.function g.function := by
  refine .position fun pos => .bind (.expect _) fun _ => .bind .identifier fun name => .bind (.expect _) fun _ => ?_
  refine .bind (.listUntil .identifier) fun params => .bind h.block fun body => .pure ?_
  rw [relocate_fixed (fun _ => rfl) params]
  exact congrArg (Stmt.function name params · (f pos)) (Stmt.movedAll_eq f body.1)

theorem ret (h : g.Blind f) : Follows f g.ret g.ret := by
  refine .position fun pos => .bind (.expect _) fun _ => .kind fun kind => ?_
  split
  · exact .pure rfl
  · exact .bind h.expr fun value => .pure rfl

theorem conditional (h : g.Blind f) : Follows f g.conditional g.conditional := by
  refine .position fun pos => .bind (.expect _) fun _ => .bind h.expr fun test => .bind h.block fun body => ?_
  have hbody (other? : Option Stmt) : relocate f (Stmt.cond test body.1 body.2 other? pos) =
      .cond (relocate f test) (relocate f body.1) (f body.2) (Stmt.movedOther f other?) (f pos) :=
    congrArg (Stmt.cond (relocate f test) · (f body.2) (Stmt.movedOther f other?) (f pos)) (Stmt.movedAll_eq f body.1)
  refine .ifAccepts (.ifSees ?_ ?_) (.pure (hbody none))
  · exact .bind h.cond fun other => .pure (hbody (some other))
  · refine .bind h.block fun other => .pure ((hbody (some (.block other.1 other.2))).trans ?_)
    exact congrArg (fun stmts => Stmt.cond (relocate f test) (relocate f body.1) (f body.2)
      (some (.block stmts (f other.2))) (f pos)) (Stmt.movedAll_eq f other.1)

theorem loop (h : g.Blind f) : Follows f g.loop g.loop := by
  refine .position fun pos => .bind (.expect _) fun _ => .bind h.block fun body => .pure ?_
  exact congrArg (Stmt.loop · (f body.2) (f pos)) (Stmt.movedAll_eq f body.1)

theorem draw (h : g.Blind f) : Follows f g.draw g.draw := by
  refine .position fun pos => .bind (.expect _) fun _ => .bind h.block fun body => .pure ?_
  exact congrArg (Stmt.frame .draw none · (f pos)) (Stmt.movedAll_eq f body.1)

theorem update (h : g.Blind f) : Follows f g.update g.update := by
  refine .position fun pos => .bind (.expect _) fun _ => .ifAccepts ?_ ?_
  · refine .bind .identifier fun param => .bind (.expect _) fun _ => .bind h.block fun body => .pure ?_
    exact congrArg (Stmt.frame .update (some param) · (f pos)) (Stmt.movedAll_eq f body.1)
  · refine .bind h.block fun body => .pure ?_
    exact congrArg (Stmt.frame .update none · (f pos)) (Stmt.movedAll_eq f body.1)

/-! ## Primary expressions -/

theorem entry (h : g.Blind f) : Follows f g.entry g.entry :=
  .bind entryKey_blind fun _ => .bind (.expect _) fun _ => .bind h.expr fun _ => .pure rfl

theorem object (h : g.Blind f) : Follows f g.object g.object := by
  refine .position fun pos => .bind (.expect _) fun _ => .bind (.listUntil h.entry) fun entries => .pure ?_
  exact congrArg (Expr.object · (f pos)) (Expr.movedEntries_eq f entries)

theorem armBody (h : g.Blind f) : Follows f g.armBody g.armBody := by
  refine .cursor fun c => ?_
  rw [opensObject_relocate, Cursor.kind_relocate]
  split
  · refine .bind h.block fun body => .pure ?_
    exact congrArg (ArmBody.block · (f body.2)) (Stmt.movedAll_eq f body.1)
  · exact .bind h.expr fun _ => .pure rfl

theorem armRound (h : g.Blind f) (arms : List Arm) : Follows f (g.armRound arms) (g.armRound (relocate f arms)) := by
  refine .ifCloses (.pure rfl) (.position fun pos => .bind pattern_blind fun p => .bind (.expect _) fun _ => ?_)
  refine .bind h.armBody fun body => .bind (.repeated separatorRound_blind rfl) fun _ => .pure ?_
  exact congrArg Turn.again (relocate_concat f arms (.mk p body pos))

theorem choose (h : g.Blind f) : Follows f g.choose g.choose := by
  refine .position fun pos => .bind (.expect _) fun _ => .bind h.expr fun subject => .bind (.expect _) fun _ => ?_
  refine .bind (.repeated h.armRound rfl) fun arms => .bind (.expect _) fun _ => .pure ?_
  exact congrArg (Expr.choose (relocate f subject) · (f pos)) (Arm.movedAll_eq f arms)

theorem primary (h : g.Blind f) : Follows f g.primary g.primary := by
  refine .position fun pos => .kind fun kind => ?_
  cases kind with
  | number value => exact .next fun _ => .pure rfl
  | text value => exact .next fun _ => .pure rfl
  | bool value => exact .next fun _ => .pure rfl
  | null => exact .next fun _ => .pure rfl
  | name name => exact .next fun _ => .pure rfl
  | keyword word =>
      cases word with
      | prototype => exact .next fun _ => .bind (.expect _) fun _ => .bind (.expect _) fun _ => .pure rfl
      | select => exact h.choose
      | _ => exact .unexpected _
  | symbol mark =>
      cases mark with
      | lparen => exact .next fun _ => .bind h.expr fun _ => .bind (.expect _) fun _ => .pure rfl
      | lbracket =>
          refine .next fun _ => .bind (.listUntil h.expr) fun items => .pure ?_
          exact congrArg (Expr.array · (f pos)) (Expr.movedAll_eq f items)
      | lbrace => exact h.object
      | _ => exact .unexpected _
  | _ => exact .unexpected _

/-! ## Calls, members, indices -/

theorem argumentRound (h : g.Blind f) (args : Arguments) :
    Follows f (g.argumentRound args) (g.argumentRound (relocate f args)) := by
  refine .ifCloses (.pure rfl) (.cursor fun c => ?_)
  rw [keyword?_relocate]
  cases keyword? c with
  | some name =>
      refine .next fun _ => .next fun _ => .bind h.expr fun value => ?_
      have hnamed : relocate f ({ args with named := args.named ++ [(name, value)] } : Arguments) =
          { relocate f args with named := relocate f args.named ++ [(name, relocate f value)] } :=
        congrArg (Arguments.mk _) (relocate_concat f args.named (name, value))
      exact hnamed ▸ .afterItem _
  | none =>
      have hempty : (relocate f args).named.isEmpty = args.named.isEmpty := List.isEmpty_map
      simp only [hempty]
      split
      · refine .bind h.expr fun value => ?_
        have hpositional : relocate f ({ args with positional := args.positional ++ [value] } : Arguments) =
            { relocate f args with positional := relocate f args.positional ++ [relocate f value] } :=
          congrArg (Arguments.mk · _) (relocate_concat f args.positional value)
        exact hpositional ▸ .afterItem _
      · exact .fail rfl c.token.position

theorem sliceStop (h : g.Blind f) : Follows f g.sliceStop g.sliceStop :=
  .ifSees (.pure rfl) (.bind h.expr fun _ => .pure rfl)

theorem subscript (h : g.Blind f) (object : Expr) :
    Follows f (g.subscript object) (g.subscript (relocate f object)) := by
  have hslice (start? stop? : Option Expr) : relocate f (Expr.slice object start? stop? object.pos) =
      .slice (relocate f object) (relocate f start?) (relocate f stop?) (relocate f object).pos := by
    rw [Expr.pos_relocate, ← Expr.movedBound_eq, ← Expr.movedBound_eq]
    rfl
  refine .ifAccepts ?_ (.bind h.expr fun first => .ifAccepts ?_ ?_)
  · exact .bind h.sliceStop fun stop? => .bind (.expect _) fun _ => .pure (hslice none stop?)
  · exact .bind h.sliceStop fun stop? => .bind (.expect _) fun _ => .pure (hslice (some first) stop?)
  · refine .bind (.expect _) fun _ => .pure ?_
    rw [Expr.pos_relocate]
    rfl

theorem chainRound (h : g.Blind f) (e : Expr) : Follows f (g.chainRound e) (g.chainRound (relocate f e)) := by
  refine .kind fun kind => ?_
  cases kind with
  | symbol mark =>
      cases mark with
      | lparen =>
          refine .next fun _ => .bind (.repeated h.argumentRound rfl) fun args => .bind (.expect _) fun _ => .pure ?_
          rw [Expr.pos_relocate]
          refine congrArg Turn.again ?_
          exact congrArg₂ (Expr.call (relocate f e) · · (f e.pos)) (Expr.movedAll_eq f args.positional)
            (Expr.movedEntries_eq f args.named)
      | dot =>
          refine .next fun _ => .bind .propertyName fun property => .pure ?_
          rw [Expr.pos_relocate]
          rfl
      | lbracket => exact .next fun _ => .bind (h.subscript e) fun _ => .pure rfl
      | _ => exact .pure rfl
  | _ => exact .pure rfl

theorem chain (h : g.Blind f) : Follows f g.chain g.chain :=
  .bind h.primary fun _ => .repeated h.chainRound rfl

/-! ## Operators around operands -/

theorem postfixed (h : g.Blind f) : Follows f g.postfixed g.postfixed := by
  refine .bind h.chain fun e => .kind fun kind => ?_
  cases direction? kind with
  | none => exact .pure rfl
  | some direction =>
      refine .next fun t => ?_
      rw [Expr.isPlace_relocate, Expr.pos_relocate]
      split
      · exact .pure rfl
      · exact .fail rfl t.position

theorem unaryExpr (h : g.Blind f) : Follows f g.unaryExpr g.unaryExpr := by
  refine .position fun pos => .kind fun kind => ?_
  cases unaryOp? kind with
  | some op => exact .next fun _ => .bind h.unary fun _ => .pure rfl
  | none =>
      cases direction? kind with
      | none => exact h.postfixed
      | some direction =>
          refine .next fun t => .bind h.unary fun target => ?_
          rw [Expr.isPlace_relocate]
          split
          · exact .pure rfl
          · exact .fail rfl t.position

theorem powerExpr (h : g.Blind f) : Follows f g.powerExpr g.powerExpr := by
  refine .bind h.unaryExpr fun base => .ifAccepts (.bind h.power fun exponent => .pure ?_) (.pure rfl)
  rw [Expr.pos_relocate]
  rfl

end Blind

theorem Infix.apply_relocate (op : Infix) (left right : Expr) :
    relocate f (op.apply left right) = op.apply (relocate f left) (relocate f right) := by
  cases op with
  | logical op => simp only [Infix.apply, Expr.pos_relocate]; rfl
  | binary op => simp only [Infix.apply, Expr.pos_relocate]; rfl

theorem level_blind {operand : Parse Expr} (h : Follows f operand operand) (ops : List Infix) :
    Follows f (level ops operand) (level ops operand) := by
  refine .bind h fun left => .repeated (fun left => .kind fun kind => ?_) rfl
  cases (Infix.ofKind? kind).filter (· ∈ ops) with
  | none => exact .pure rfl
  | some op =>
      refine .next fun _ => .bind h fun right => .pure ?_
      exact congrArg Turn.again (op.apply_relocate left right)

namespace Blind

variable {g : Grammar}

theorem levels (h : g.Blind f) (table : List (List Infix)) :
    Follows f (table.foldr level g.powerExpr) (table.foldr level g.powerExpr) := by
  induction table with
  | nil => exact h.powerExpr
  | cons ops table ih => exact level_blind ih ops

theorem assignExpr (h : g.Blind f) : Follows f g.assignExpr g.assignExpr := by
  refine .bind (h.levels Grammar.levels) fun target => .kind fun kind => ?_
  cases assignment? kind with
  | none => exact .pure rfl
  | some op? =>
      refine .next fun t => ?_
      rw [Expr.isPlace_relocate, Expr.pos_relocate]
      split
      · exact .bind h.expr fun _ => .pure rfl
      · exact .fail rfl t.position

theorem bareStmt (h : g.Blind f) : Follows f g.bareStmt g.bareStmt := by
  have hexpr : Follows f (do return Stmt.expr (← g.assignExpr)) (do return Stmt.expr (← g.assignExpr)) :=
    .bind h.assignExpr fun _ => .pure rfl
  refine .kind fun kind => ?_
  cases kind with
  | keyword word =>
      cases word with
      | function => exact h.function
      | result => exact h.ret
      | when => exact h.conditional
      | loop => exact h.loop
      | leave => exact .next fun _ => .pure rfl
      | enum => exact enum_blind
      | draw => exact h.draw
      | update => exact h.update
      | _ => exact hexpr
  | symbol mark =>
      cases mark with
      | lbrace =>
          refine .bind h.block fun body => .pure ?_
          exact congrArg (Stmt.block · (f body.2)) (Stmt.movedAll_eq f body.1)
      | _ => exact hexpr
  | _ => exact hexpr

theorem statement (h : g.Blind f) : Follows f g.statement g.statement :=
  .bind h.bareStmt fun _ => .bind (.accepts _) fun _ => .pure rfl

theorem next (h : g.Blind f) : g.next.Blind f where
  expr := h.assignExpr
  power := h.powerExpr
  unary := h.unaryExpr
  stmt := h.statement
  cond := h.conditional

end Blind

end Grammar

theorem grammar_blind (depth : Nat) : (grammar depth).Blind f := by
  induction depth with
  | zero => exact ⟨.none, .none, .none, .none, .none⟩
  | succ depth ih => exact ih.next

end Cairn
