import Cairn.Program.Basic
import Cairn.Program.Cursor

/-!
# Writing expressions

How tokens spell an expression. Every form has a level, from assignment, the loosest, to literals and names; an
operand stands bare where its level is tight enough and in parentheses where it is not. Expressions without
`match` can all be written. What a node is found at is part of the tree, so a writing also says where the nodes
stand: at their first token, or where their left operand stands.
-/

namespace Cairn

open Token (Keyword Symbol Kind)

/-! ## Levels

Loosest first: 0 assignment, 1 `||`, 2 `&&`, 3 `|`, 4 `^`, 5 `&`, 6 equality, 7 comparison, 8 shifts, 9 sums,
10 products, 11 `**`, 12 operators in front, 13 `++` and `--` behind, 14 calls, members and subscripts, and
15 all that stands on its own.
-/

def LogicalOp.level : LogicalOp → Nat
  | .or => 1
  | .and => 2

def BinaryOp.level : BinaryOp → Nat
  | .bitOr => 3
  | .bitXor => 4
  | .bitAnd => 5
  | .eq | .ne => 6
  | .lt | .le | .gt | .ge => 7
  | .shl | .shr => 8
  | .add | .sub => 9
  | .mul | .div | .mod => 10
  | .pow => 11

def Expr.level : Expr → Nat
  | .assign _ _ _ _ => 0
  | .logical op _ _ _ => op.level
  | .binary op _ _ _ => op.level
  | .unary _ _ _ | .step _ true _ _ => 12
  | .step _ false _ _ => 13
  | .call _ _ _ _ | .member _ _ _ | .index _ _ _ | .slice _ _ _ _ => 14
  | _ => 15

theorem LogicalOp.level_le (op : LogicalOp) : op.level ≤ 2 := by cases op <;> simp [level]

theorem BinaryOp.level_le (op : BinaryOp) : op.level ≤ 11 := by cases op <;> simp [level]

theorem LogicalOp.level_pos (op : LogicalOp) : 0 < op.level := by cases op <;> simp [level]

theorem BinaryOp.level_pos (op : BinaryOp) : 0 < op.level := by cases op <;> simp [level]

theorem BinaryOp.level_lt {op : BinaryOp} (h : op ≠ .pow) : op.level < 11 := by cases op <;> simp_all [level]

theorem Expr.level_of_isPlace {e : Expr} (h : e.isPlace = true) : 14 ≤ e.level := by
  cases e <;> simp_all [isPlace, level]

/-! ## Marks -/

def BinaryOp.mark : BinaryOp → Symbol
  | .add => .plus
  | .sub => .minus
  | .mul => .star
  | .div => .slash
  | .mod => .percent
  | .pow => .starStar
  | .eq => .eqEq
  | .ne => .bangEq
  | .lt => .lt
  | .le => .ltEq
  | .gt => .gt
  | .ge => .gtEq
  | .bitAnd => .amp
  | .bitOr => .pipe
  | .bitXor => .caret
  | .shl => .ltLt
  | .shr => .gtGt

/-- A symbol or a word. -/
def LogicalOp.kinds : LogicalOp → List Kind
  | .or => [.symbol .pipePipe, .keyword .or]
  | .and => [.symbol .ampAmp, .keyword .and]

def UnaryOp.mark : UnaryOp → Symbol
  | .not => .bang
  | .neg => .minus
  | .bitNot => .tilde

def Direction.mark : Direction → Symbol
  | .up => .plusPlus
  | .down => .minusMinus

/-- The mark of an assignment: there is a plain one, and one for each of eight operators. -/
def assignMark? : Option BinaryOp → Option Symbol
  | none => some .eq
  | some .add => some .plusEq
  | some .sub => some .minusEq
  | some .mul => some .starEq
  | some .div => some .slashEq
  | some .mod => some .percentEq
  | some .bitAnd => some .ampEq
  | some .bitOr => some .pipeEq
  | some .bitXor => some .caretEq
  | some _ => none

/-- The token names a property: as a name, or as a word that is reserved elsewhere. -/
def Token.Names (t : Token) (property : String) : Prop :=
  t.kind = .name property ∨
    ((∃ word, t.kind = .keyword word) ∨ (∃ value, t.kind = .bool value) ∨ t.kind = .null) ∧
      t.lexeme = property ∧ Parse.isWord property = true

/-! ## Writings -/

/-- Items with commas between them. -/
inductive Commas {α : Type} (P : α → List Token → Prop) : List α → List Token → Prop where
  | nil : Commas P [] []
  | one {x : α} {ts : List Token} (item : P x ts) : Commas P [x] ts
  | more {x y : α} {xs : List α} {ts us : List Token} {t : Token} (item : P x ts) (comma : t.kind = .symbol .comma)
      (rest : Commas P (y :: xs) us) : Commas P (x :: y :: xs) (ts ++ t :: us)

mutual

/-- The tokens spell the expression where an operand of level `n` or tighter is called for. -/
inductive Written : (n : Nat) → Expr → List Token → Prop where
  | bare {n : Nat} {e : Expr} {ts : List Token} (tight : n ≤ e.level) (inner : Bare e ts) : Written n e ts
  | wrapped {n : Nat} {e : Expr} {ts : List Token} {l r : Token} (loose : e.level < n)
      (opening : l.kind = .symbol .lparen) (inner : Bare e ts) (closing : r.kind = .symbol .rparen) :
      Written n e (l :: (ts ++ [r]))

/-- The tokens spell the expression without parentheses around it. -/
inductive Bare : Expr → List Token → Prop where
  | number {value : Float} {t : Token} (kind : t.kind = .number value) : Bare (.number value t.position) [t]
  | text {value : String} {t : Token} (kind : t.kind = .text value) : Bare (.text value t.position) [t]
  | bool {value : Bool} {t : Token} (kind : t.kind = .bool value) : Bare (.bool value t.position) [t]
  | null {t : Token} (kind : t.kind = .null) : Bare (.null t.position) [t]
  | name {name : String} {t : Token} (kind : t.kind = .name name) : Bare (.name name t.position) [t]
  | fresh {t l r : Token} (word : t.kind = .keyword .prototype) (opening : l.kind = .symbol .lparen)
      (closing : r.kind = .symbol .rparen) : Bare (.fresh t.position) [t, l, r]
  | array {items : List Expr} {l r : Token} {ts : List Token} (opening : l.kind = .symbol .lbracket)
      (inner : Commas (Written 0) items ts) (closing : r.kind = .symbol .rbracket) :
      Bare (.array items l.position) (l :: (ts ++ [r]))
  | object {entries : List (String × Expr)} {l r : Token} {ts : List Token} (opening : l.kind = .symbol .lbrace)
      (inner : Commas WrittenEntry entries ts) (closing : r.kind = .symbol .rbrace) :
      Bare (.object entries l.position) (l :: (ts ++ [r]))
  | assign {target value : Expr} {op? : Option BinaryOp} {mark : Symbol} {t : Token} {ts us : List Token}
      (place : target.isPlace = true) (left : Bare target ts) (marked : assignMark? op? = some mark)
      (kind : t.kind = .symbol mark) (right : Written 0 value us) :
      Bare (.assign target op? value target.pos) (ts ++ t :: us)
  | logical {op : LogicalOp} {left right : Expr} {t : Token} {ts us : List Token} (first : Written op.level left ts)
      (kind : t.kind ∈ op.kinds) (second : Written (op.level + 1) right us) :
      Bare (.logical op left right left.pos) (ts ++ t :: us)
  | binary {op : BinaryOp} {left right : Expr} {t : Token} {ts us : List Token} (ne : op ≠ .pow)
      (first : Written op.level left ts) (kind : t.kind = .symbol op.mark)
      (second : Written (op.level + 1) right us) : Bare (.binary op left right left.pos) (ts ++ t :: us)
  /-- To the right, and with a base that binds tighter. -/
  | power {base exponent : Expr} {t : Token} {ts us : List Token} (first : Written 12 base ts)
      (kind : t.kind = .symbol BinaryOp.pow.mark) (second : Written 11 exponent us) :
      Bare (.binary .pow base exponent base.pos) (ts ++ t :: us)
  | unary {op : UnaryOp} {operand : Expr} {t : Token} {ts : List Token} (kind : t.kind = .symbol op.mark)
      (inner : Written 12 operand ts) : Bare (.unary op operand t.position) (t :: ts)
  | early {direction : Direction} {target : Expr} {t : Token} {ts : List Token}
      (kind : t.kind = .symbol direction.mark) (place : target.isPlace = true) (inner : Bare target ts) :
      Bare (.step direction true target t.position) (t :: ts)
  | late {direction : Direction} {target : Expr} {t : Token} {ts : List Token} (place : target.isPlace = true)
      (inner : Bare target ts) (kind : t.kind = .symbol direction.mark) :
      Bare (.step direction false target target.pos) (ts ++ [t])
  | call {callee : Expr} {args : List Expr} {named : List (String × Expr)} {l r : Token} {ts us : List Token}
      (first : Written 14 callee ts) (opening : l.kind = .symbol .lparen)
      (inner : Commas WrittenArgument (args.map .inl ++ named.map .inr) us) (closing : r.kind = .symbol .rparen) :
      Bare (.call callee args named callee.pos) (ts ++ l :: (us ++ [r]))
  | member {object : Expr} {property : String} {t p : Token} {ts : List Token} (first : Written 14 object ts)
      (dot : t.kind = .symbol .dot) (names : p.Names property) :
      Bare (.member object property object.pos) (ts ++ [t, p])
  | index {object key : Expr} {l r : Token} {ts us : List Token} (first : Written 14 object ts)
      (opening : l.kind = .symbol .lbracket) (inner : Written 0 key us) (closing : r.kind = .symbol .rbracket) :
      Bare (.index object key object.pos) (ts ++ l :: (us ++ [r]))
  | slice {object : Expr} {start? stop? : Option Expr} {l m r : Token} {ts us vs : List Token}
      (first : Written 14 object ts) (opening : l.kind = .symbol .lbracket) (start : WrittenBound start? us)
      (colon : m.kind = .symbol .colon) (stop : WrittenBound stop? vs) (closing : r.kind = .symbol .rbracket) :
      Bare (.slice object start? stop? object.pos) (ts ++ l :: (us ++ m :: (vs ++ [r])))

/-- A bound of a slice, which may be left out. -/
inductive WrittenBound : Option Expr → List Token → Prop where
  | none : WrittenBound none []
  | some {e : Expr} {ts : List Token} (inner : Written 0 e ts) : WrittenBound (some e) ts

/-- `key: value`, where the key is a name, a word or quoted text. -/
inductive WrittenEntry : String × Expr → List Token → Prop where
  | mk {key : String} {value : Expr} {t m : Token} {ts : List Token} (names : t.Names key ∨ t.kind = .text key)
      (colon : m.kind = .symbol .colon) (inner : Written 0 value ts) : WrittenEntry (key, value) (t :: m :: ts)

/-- An argument, alone or after its name. An assignment that stands alone would be taken for a named one, so it is
put in parentheses. -/
inductive WrittenArgument : Expr ⊕ (String × Expr) → List Token → Prop where
  | positional {value : Expr} {ts : List Token} (inner : Written 1 value ts) : WrittenArgument (.inl value) ts
  | named {name : String} {value : Expr} {t m : Token} {ts : List Token} (kind : t.kind = .name name)
      (mark : m.kind = .symbol .eq) (inner : Written 0 value ts) : WrittenArgument (.inr (name, value)) (t :: m :: ts)

end

/-- At its own level an expression stands bare; otherwise it would do as well at the next one. -/
theorem Written.tighter {k n : Nat} {e : Expr} {ts : List Token} (h : Written n e ts) (hk : k ≤ n) :
    e.level = k ∧ Bare e ts ∨ ∃ m, k + 1 ≤ m ∧ Written m e ts := by
  cases h with
  | bare tight inner =>
      by_cases heq : e.level = k
      · exact .inl ⟨heq, inner⟩
      · exact .inr ⟨k + 1, Nat.le_refl _, .bare (by omega) inner⟩
  | wrapped loose opening inner closing => exact .inr ⟨n + 1, by omega, .wrapped (by omega) opening inner closing⟩

theorem Bare.place {e : Expr} {ts : List Token} (h : Bare e ts) (hp : e.isPlace = true) {n : Nat} (hn : n ≤ 14) :
    Written n e ts :=
  .bare (Nat.le_trans hn (Expr.level_of_isPlace hp)) h

/-! ## How writings begin -/

/-- The first token of what stands on its own. -/
def Token.Kind.opens : Kind → Bool
  | .number _ | .text _ | .bool _ | .null | .name _ | .keyword .prototype => true
  | .symbol mark => mark ∈ [.lparen, .lbracket, .lbrace]
  | _ => false

/-- The mark of an operator in front of its operand. -/
def Token.Kind.leads (kind : Kind) : Prop :=
  (∃ op : UnaryOp, kind = .symbol op.mark) ∨ ∃ direction : Direction, kind = .symbol direction.mark

/-- What `ts` begin with can begin an expression of level `n`, and is no name with `=` after it unless assignments
are of that level. -/
structure Begins (n : Nat) (ts : List Token) : Prop where
  first : ∃ t us, ts = t :: us ∧ (t.kind.opens = true ∨ n ≤ 12 ∧ t.kind.leads)
  second : 0 < n → ∀ t u us name, ts = t :: u :: us → t.kind = .name name → u.kind ≠ .symbol .eq

namespace Begins

variable {m n : Nat} {t : Token} {ts us : List Token}

theorem mono (h : Begins n ts) (hmn : m ≤ n) : Begins m ts := by
  obtain ⟨t, us, hts, ht⟩ := h.first
  refine ⟨⟨t, us, hts, ht.imp_right fun hl => ⟨by omega, hl.2⟩⟩, fun hm => h.second (by omega)⟩

theorem append (h : Begins n ts) (ht : 0 < n → t.kind ≠ .symbol .eq) : Begins n (ts ++ t :: us) := by
  obtain ⟨a, as, rfl, ha⟩ := h.first
  refine ⟨⟨a, as ++ t :: us, rfl, ha⟩, fun hn b u vs name heq hb => ?_⟩
  cases as with
  | nil =>
      obtain ⟨rfl, rfl, rfl⟩ : a = b ∧ t = u ∧ us = vs := by simpa using heq
      exact ht hn
  | cons a' as =>
      obtain ⟨rfl, rfl, rfl⟩ : a = b ∧ a' = u ∧ as ++ t :: us = vs := by simpa using heq
      exact h.second hn a a' as name rfl hb

theorem of_opens (ht : t.kind.opens = true) (hname : ∀ name, t.kind ≠ .name name) : Begins n (t :: ts) :=
  ⟨⟨t, ts, rfl, .inl ht⟩, fun _ a u us name heq ha => by cases heq; exact absurd ha (hname name)⟩

theorem of_leads (ht : t.kind.leads) (hn : n ≤ 12) : Begins n (t :: ts) := by
  refine ⟨⟨t, ts, rfl, .inr ⟨hn, ht⟩⟩, fun _ a u us name heq ha => ?_⟩
  cases heq
  rcases ht with ⟨op, hop⟩ | ⟨direction, hd⟩
  · rw [hop] at ha; cases ha
  · rw [hd] at ha; cases ha

theorem of_one (ht : t.kind.opens = true) : Begins n [t] :=
  ⟨⟨t, [], rfl, .inl ht⟩, fun _ a u us name heq => by simp at heq⟩

end Begins

theorem LogicalOp.ne_eq_of_mem_kinds {op : LogicalOp} {kind : Kind} (h : kind ∈ op.kinds) : kind ≠ .symbol .eq := by
  rintro rfl
  cases op <;> simp [kinds] at h

theorem BinaryOp.mark_ne_eq (op : BinaryOp) : op.mark ≠ .eq := by cases op <;> simp [mark]

theorem Direction.mark_ne_eq (direction : Direction) : direction.mark ≠ .eq := by cases direction <;> simp [mark]

mutual

theorem Written.begins {n : Nat} {e : Expr} {ts : List Token} (h : Written n e ts) : Begins n ts := by
  match h with
  | .bare tight inner => exact (Bare.begins inner).mono tight
  | .wrapped loose opening inner closing => exact .of_opens (by simp [opening, Kind.opens]) (by simp [opening])

theorem Bare.begins {e : Expr} {ts : List Token} (h : Bare e ts) : Begins e.level ts := by
  match h with
  | .number kind | .text kind | .bool kind | .null kind | .name kind => exact .of_one (by simp [kind, Kind.opens])
  | .fresh word opening closing => exact .of_opens (by simp [word, Kind.opens]) (by simp [word])
  | .array opening inner closing => exact .of_opens (by simp [opening, Kind.opens]) (by simp [opening])
  | .object opening inner closing => exact .of_opens (by simp [opening, Kind.opens]) (by simp [opening])
  | .assign place left marked kind right => exact ((Bare.begins left).mono (Nat.zero_le _)).append (by simp)
  | .logical first kind second =>
      exact (Written.begins first).append fun _ => LogicalOp.ne_eq_of_mem_kinds kind
  | .binary ne first kind second =>
      exact (Written.begins first).append fun _ => by simp [kind, BinaryOp.mark_ne_eq]
  | .power first kind second =>
      exact ((Written.begins first).mono (by simp [Expr.level, BinaryOp.level])).append fun _ => by
        simp [kind, BinaryOp.mark_ne_eq]
  | .unary kind inner => exact .of_leads (.inl ⟨_, kind⟩) (by simp [Expr.level])
  | .early kind place inner => exact .of_leads (.inr ⟨_, kind⟩) (by simp [Expr.level])
  | .late place inner kind =>
      exact ((Bare.begins inner).mono (Nat.le_trans (by simp [Expr.level]) (Expr.level_of_isPlace place))).append
        fun _ => by simp [kind, Direction.mark_ne_eq]
  | .call first opening inner closing => exact (Written.begins first).append fun _ => by simp [opening]
  | .member first dot names => exact (Written.begins first).append fun _ => by simp [dot]
  | .index first opening inner closing => exact (Written.begins first).append fun _ => by simp [opening]
  | .slice first opening start colon stop closing => exact (Written.begins first).append fun _ => by simp [opening]

end

end Cairn
