import Cairn.Program.Grammar
import Cairn.Proofs.Reading.Exact
import Cairn.Proofs.Reading.Writing

/-!
# What ends an expression

A reader of level `n` stops where no token comes that carries an expression of level `n` or tighter on. The mark
after an operand is of a looser level than the operand, so it ends it; what closes a bracket or a list ends
everything. Nothing that ends an expression begins one, and nothing that is written as an argument by its place
looks like a named one.
-/

namespace Cairn

open Token (Keyword Symbol Kind)
open Parse

namespace Grammar

def Infix.level : Infix → Nat
  | .logical op => op.level
  | .binary op => op.level

/-- A token of this kind carries on no expression of level `n` or tighter. -/
structure Stops (n : Nat) (kind : Kind) : Prop where
  assigns : (assignment? kind).isSome = true → 0 < n
  joins : ∀ op, Infix.ofKind? kind = some op → op.level < n
  powers : kind = .symbol .starStar → 11 < n
  steps : (direction? kind).isSome = true → 13 < n
  links : kind ∈ [.symbol .lparen, .symbol .dot, .symbol .lbracket] → 14 < n

/-- What comes right after an expression in brackets or at the end. -/
def closing : List Kind :=
  [.symbol .rparen, .symbol .rbracket, .symbol .rbrace, .symbol .comma, .symbol .colon, .eof]

namespace Stops

variable {m n : Nat} {kind : Kind}

theorem mono (h : Stops m kind) (hmn : m ≤ n) : Stops n kind where
  assigns hk := Nat.lt_of_lt_of_le (h.assigns hk) hmn
  joins op hop := Nat.lt_of_lt_of_le (h.joins op hop) hmn
  powers hk := Nat.lt_of_lt_of_le (h.powers hk) hmn
  steps hk := Nat.lt_of_lt_of_le (h.steps hk) hmn
  links hk := Nat.lt_of_lt_of_le (h.links hk) hmn

theorem of_closing (h : kind ∈ closing) : Stops n kind := by
  simp only [closing, List.mem_cons, List.not_mem_nil, or_false] at h
  rcases h with rfl | rfl | rfl | rfl | rfl | rfl
  all_goals constructor <;> simp [assignment?, Infix.ofKind?, direction?]

theorem before {t : Token} {ts : List Token} {c : Cursor} (h : Stops n kind) (ht : t.kind = kind) :
    Stops n (c.before (t :: ts)).kind := by
  rw [Cursor.kind_before, ht]
  exact h

theorem of_kind {t : Token} {ts : List Token} {c : Cursor} (ht : t.kind = kind) (h : kind ∈ closing) :
    Stops n (c.before (t :: ts)).kind := (of_closing h).before ht

theorem of_assignMark {op? : Option BinaryOp} {mark : Symbol} (h : assignMark? op? = some mark) :
    Stops 1 (.symbol mark) := by
  unfold assignMark? at h
  split at h <;> cases h
  all_goals constructor <;> simp [assignment?, Infix.ofKind?, direction?]

theorem of_logical {op : LogicalOp} (h : kind ∈ op.kinds) : Stops (op.level + 1) kind := by
  cases op <;> simp only [LogicalOp.kinds, List.mem_cons, List.not_mem_nil, or_false] at h
  all_goals
    rcases h with rfl | rfl
    all_goals constructor <;> simp [assignment?, Infix.ofKind?, Infix.level, direction?]

theorem of_binary (op : BinaryOp) : Stops (op.level + 1) (.symbol op.mark) := by
  cases op
  all_goals constructor <;> simp [BinaryOp.mark, BinaryOp.level, assignment?, Infix.ofKind?, Infix.level, direction?]

theorem of_direction (direction : Direction) : Stops 14 (.symbol direction.mark) := by
  cases direction
  all_goals constructor <;> simp [Direction.mark, assignment?, Infix.ofKind?, direction?]

/-- What stands on its own goes as far as it goes. -/
theorem alone : Stops 15 kind where
  assigns _ := by omega
  joins op _ := by
    cases op with
    | logical op => exact Nat.lt_of_le_of_lt op.level_le (by omega)
    | binary op => exact Nat.lt_of_le_of_lt op.level_le (by omega)
  powers _ := by omega
  steps _ := by omega
  links _ := by omega

end Stops

theorem ofKind?_of_mem_kinds {op : LogicalOp} {kind : Kind} (h : kind ∈ op.kinds) :
    Infix.ofKind? kind = some (.logical op) := by
  cases op <;> simp only [LogicalOp.kinds, List.mem_cons, List.not_mem_nil, or_false] at h
  all_goals rcases h with rfl | rfl <;> rfl

theorem ofKind?_mark {op : BinaryOp} (h : op ≠ .pow) : Infix.ofKind? (.symbol op.mark) = some (.binary op) := by
  cases op <;> first | rfl | contradiction

theorem assignment?_of_assignMark {op? : Option BinaryOp} {mark : Symbol} (h : assignMark? op? = some mark) :
    assignment? (.symbol mark) = some op? := by
  unfold assignMark? at h
  split at h <;> cases h <;> rfl

theorem unaryOp?_mark (op : UnaryOp) : unaryOp? (.symbol op.mark) = some op := by cases op <;> rfl

theorem direction?_mark (direction : Direction) : direction? (.symbol direction.mark) = some direction := by
  cases direction <;> rfl

theorem unaryOp?_mark_direction (direction : Direction) : unaryOp? (.symbol direction.mark) = none := by
  cases direction <;> rfl

theorem not_leads_of_opens {kind : Kind} (h : kind.opens = true) : unaryOp? kind = none ∧ direction? kind = none := by
  unfold Kind.opens at h
  split at h
  all_goals simp_all [unaryOp?, direction?]
  all_goals rcases h with rfl | rfl | rfl <;> simp

theorem notMem_closing_of_opens {kind : Kind} (h : kind.opens = true) : kind ∉ closing := by
  intro hk
  simp only [closing, List.mem_cons, List.not_mem_nil, or_false] at hk
  rcases hk with rfl | rfl | rfl | rfl | rfl | rfl <;> simp [Kind.opens] at h

theorem notMem_closing_of_leads {kind : Kind} (h : kind.leads) : kind ∉ closing := by
  rcases h with ⟨op, rfl⟩ | ⟨direction, rfl⟩
  · cases op <;> decide
  · cases direction <;> decide

end Grammar

section

variable {n : Nat} {ts us : List Token} {c : Cursor}

/-- No expression begins with what comes after one. -/
theorem Begins.kind_ne (h : Begins n ts) {kind : Kind} (hk : kind ∈ Grammar.closing) :
    (c.before (ts ++ us)).kind ≠ kind := by
  obtain ⟨t, vs, rfl, ht⟩ := h.first
  rintro rfl
  rcases ht with ht | ⟨-, ht⟩
  · exact Grammar.notMem_closing_of_opens ht hk
  · exact Grammar.notMem_closing_of_leads ht hk

theorem Begins.keyword?_eq_none (h : Begins n ts) (hn : 0 < n) (hs : Grammar.Stops 0 (c.before us).kind) :
    Grammar.keyword? (c.before (ts ++ us)) = none := by
  obtain ⟨t, vs, rfl, -⟩ := h.first
  unfold Grammar.keyword?
  split
  · rename_i name hname
    refine if_neg fun heq => ?_
    cases vs with
    | cons v vs => exact h.second hn t v vs name rfl hname (by simpa [Cursor.later?, Cursor.before] using heq)
    | nil =>
        -- A name alone is followed by what ends the argument.
        have hkind : (c.before us).kind = .symbol .eq := by
          cases us with
          | nil => simpa [Cursor.later?, Cursor.before, Cursor.kind, Cursor.tokens] using heq
          | cons u us => simpa [Cursor.later?, Cursor.before, Cursor.kind] using heq
        rw [hkind] at hs
        exact absurd (hs.assigns rfl) (Nat.lt_irrefl 0)
  · rfl

end

end Cairn
