import Cairn.Proofs.Reading.Operands
import Cairn.Proofs.Reading.Plain

/-!
# Reading what is written

Operators between operands, from the tightest level to the loosest, and assignment. A level reads its first operand
and then one more in every round, so after the left operand of an application it goes on as if it had read nothing
else yet; that is why operators of one level group to the left. The grammar reads every writing of a plain
expression as that expression.
-/

namespace Cairn

open Token (Kind)
open Parse

/-! ## Operators between operands -/

section

open Grammar

variable {n : Nat} {ops : List Infix} {operand : Parse Expr} {c : Cursor}

theorem levelRound_stop {k : Nat} (hops : ∀ op, op ∈ ops ↔ op.level = k) (hs : Stops k c.kind) {left : Expr} :
    (levelRound ops operand left).Reads [] c (.stop left) := by
  have hnone : (Infix.ofKind? c.kind).filter (· ∈ ops) = none := by
    rw [Option.filter_eq_none_iff]
    intro op hop hmem
    exact Nat.ne_of_lt (hs.joins op hop) ((hops op).mp (of_decide_eq_true hmem))
  refine .kind ?_
  simp only [Cursor.before, hnone]
  exact .pure

theorem levelRound_again {op : Infix} {t : Token} {us : List Token} (left : Expr) {right : Expr}
    (ht : Infix.ofKind? t.kind = some op) (hop : op ∈ ops) (hright : operand.Reads us c right) :
    (levelRound ops operand left).Reads (t :: us) c (.again (op.apply left right)) := by
  have hsome : (Infix.ofKind? t.kind).filter (· ∈ ops) = some op := by simp [ht, hop]
  refine .kind ?_
  simp only [Cursor.kind_before, hsome]
  exact .next (.last hright .pure)

mutual

/-- After what is written at its level the loop goes on as if it had the expression in hand. -/
theorem Written.joins {k : Nat} {e e' : Expr} {ts us : List Token} (hw : Written k e ts)
    (hk : 0 < k ∧ k < 11) (hops : ∀ op, op ∈ ops ↔ op.level = k) (h : operand.ReadsBack n (k + 1))
    (hlen : ts.length ≤ n) (hs : Stops (k + 1) (c.before us).kind) (hr : Rounds (levelRound ops operand) c e us e') :
    (level ops operand).Reads (ts ++ us) c e' := by
  match hw with
  | .bare tight inner => exact Bare.joins inner tight hk hops h hlen hs hr
  | .wrapped loose opening inner closing =>
      exact .bind (h (Nat.le_refl _) (.wrapped (by omega) opening inner closing) hlen hs) hr.repeated

theorem Bare.joins {k : Nat} {e e' : Expr} {ts us : List Token} (hb : Bare e ts) (tight : k ≤ e.level)
    (hk : 0 < k ∧ k < 11) (hops : ∀ op, op ∈ ops ↔ op.level = k) (h : operand.ReadsBack n (k + 1))
    (hlen : ts.length ≤ n) (hs : Stops (k + 1) (c.before us).kind) (hr : Rounds (levelRound ops operand) c e us e') :
    (level ops operand).Reads (ts ++ us) c e' := by
  by_cases hl : k + 1 ≤ e.level
  · exact .bind (h (Nat.le_refl _) (.bare hl hb) hlen hs) hr.repeated
  obtain rfl : k = e.level := by omega
  -- The left operand is read first, and the operator with the right one is one more round.
  match hb with
  | .logical first kind second =>
      rename_i op left right t ts us'
      rw [List.length_append, List.length_cons] at hlen
      have hright := h (Nat.le_refl _) second (by omega) hs
      have hround := levelRound_again left (ofKind?_of_mem_kinds kind) ((hops (.logical op)).mpr rfl) hright
      have hread := Written.joins first hk hops h (by omega) ((Stops.of_logical kind).before rfl)
        (.again (by simp) hround hr)
      simpa using hread
  | .binary ne first kind second =>
      rename_i op left right t ts us'
      rw [List.length_append, List.length_cons] at hlen
      have hright := h (Nat.le_refl _) second (by omega) hs
      have hround := levelRound_again left (kind ▸ ofKind?_mark ne) ((hops (.binary op)).mpr rfl) hright
      have hread := Written.joins first hk hops h (by omega) ((Stops.of_binary op).before kind)
        (.again (by simp) hround hr)
      simpa using hread
  | .power _ _ _ | .unary _ _ | .early _ _ _ | .late _ _ _ | .call _ _ _ _ | .member _ _ _ | .index _ _ _ _
  | .slice _ _ _ _ _ _ | .number _ | .text _ | .bool _ | .null _ | .name _ | .fresh _ _ _ | .array _ _ _
  | .object _ _ _ | .assign _ _ _ _ _ => simp [Expr.level, BinaryOp.level] at hk

end

theorem level_readsBack {k : Nat} (hk : 0 < k ∧ k < 11) (hops : ∀ op, op ∈ ops ↔ op.level = k)
    (h : operand.ReadsBack n (k + 1)) : (level ops operand).ReadsBack n k := by
  intro m e ts c hm hw hlen hs
  have hstop : Rounds (levelRound ops operand) c e [] e := .stop (levelRound_stop hops hs)
  have hs' : Stops (k + 1) (c.before []).kind := hs.mono (Nat.le_succ k)
  rcases hw.tighter hm with ⟨hl, hb⟩ | ⟨m', hm', hw'⟩
  · simpa using hb.joins (Nat.le_of_eq hl.symm) hk hops h hlen hs' hstop
  · exact .last (h hm' hw' hlen hs') hstop.repeated

end

namespace Grammar

/-- From level `k` up to the last before `**`, every row holds the operators of its level. -/
def Ranked : (k : Nat) → List (List Infix) → Prop
  | k, [] => k = 11
  | k, ops :: table => (k < 11 ∧ ∀ op : Infix, op ∈ ops ↔ op.level = k) ∧ Ranked (k + 1) table

theorem ranked_levels : Ranked 1 levels := by
  refine ⟨⟨by decide, ?_⟩, ⟨by decide, ?_⟩, ⟨by decide, ?_⟩, ⟨by decide, ?_⟩, ⟨by decide, ?_⟩, ⟨by decide, ?_⟩,
    ⟨by decide, ?_⟩, ⟨by decide, ?_⟩, ⟨by decide, ?_⟩, ⟨by decide, ?_⟩, rfl⟩
  all_goals
    rintro (op | op)
    all_goals cases op <;> decide

namespace ReadsBack

variable {n : Nat} {g : Grammar}

theorem levels (h : g.ReadsBack n) {k : Nat} {table : List (List Infix)} (hk : 0 < k) (ht : Ranked k table) :
    (table.foldr level g.powerExpr).ReadsBack (n + 1) k := by
  induction table generalizing k with
  | nil =>
      cases ht
      exact h.powerExpr
  | cons ops table ih => exact level_readsBack ⟨hk, ht.1.1⟩ ht.1.2 (ih (Nat.succ_pos k) ht.2)

theorem assignExpr (h : g.ReadsBack n) : g.assignExpr.ReadsBack (n + 1) 0 := by
  have hrows : g.infixExpr.ReadsBack (n + 1) 1 := h.levels Nat.zero_lt_one ranked_levels
  intro m e ts c hm hw hlen hs
  rcases hw.tighter hm with ⟨hl, hb⟩ | ⟨m', hm', hw'⟩
  · cases hb with
    | assign place left marked kind right =>
        rw [List.length_append, List.length_cons] at hlen
        refine .bind (hrows (Nat.le_refl 1) (left.place place (by omega)) (by omega)
          ((Stops.of_assignMark marked).before kind)) (.kind ?_)
        simp only [Cursor.kind_before, kind, assignment?_of_assignMark marked]
        refine .next ?_
        simp only [place, if_true]
        exact .last (h.expr (Nat.le_refl 0) right (by omega) hs) .pure
    | _ => grind [Expr.level, LogicalOp.level_pos, BinaryOp.level_pos]
  · refine .last (hrows hm' hw' hlen (hs.mono (by omega))) (.kind ?_)
    have hnone : assignment? c.kind = none :=
      Option.not_isSome_iff_eq_none.mp fun ha => Nat.lt_irrefl 0 (hs.assigns ha)
    simp only [Cursor.before, hnone]
    exact .pure

theorem next (h : g.ReadsBack n) : g.next.ReadsBack (n + 1) where
  expr := h.assignExpr
  power := h.powerExpr
  unary := h.unaryExpr

end ReadsBack

end Grammar

/-- One level of nesting for every token is enough. -/
theorem grammar_readsBack (depth : Nat) : (grammar depth).ReadsBack depth := by
  induction depth with
  | zero =>
      -- Nothing is written with no tokens.
      have hnone {k : Nat} {p : Parse Expr} : p.ReadsBack 0 k := by
        intro m e ts c hm hw hlen hs
        obtain ⟨t, us, rfl, -⟩ := hw.begins.first
        exact absurd hlen (Nat.not_succ_le_zero _)
      exact ⟨hnone, hnone, hnone⟩
  | succ depth ih => exact ih.next

/-- A plain expression can be spelled, and however it is spelled, before the end of a text it reads as itself, to
the last token. -/
theorem expr_reads_spelling {e : Expr} (he : e.isPlain = true) :
    (∃ ts, e.Spelled ts) ∧
    ∀ ts depth last, e.Spelled ts → ts.length ≤ depth → last.kind = .eof →
      ∃ e', (grammar depth).expr (Cursor.before ts ⟨last, []⟩) = .done e' ⟨last, []⟩ ∧ e'.unplaced = e.unplaced := by
  constructor
  · obtain ⟨e', ts, hsame, hbare⟩ := e.exists_bare he
    exact ⟨ts, e', hsame, .bare (Nat.zero_le _) hbare⟩
  · rintro ts depth last ⟨e', hsame, hw⟩ hlen hlast
    have hstop : Grammar.Stops 0 (Cursor.kind ⟨last, []⟩) :=
      .of_closing (by rw [Cursor.kind, hlast]; decide)
    exact ⟨e', (grammar_readsBack depth).expr (Nat.le_refl 0) hw hlen hstop, hsame⟩

/-- `x = f((y = a), k = -b ** c)`: the argument by place is in parentheses, the base of the power is not. -/
def mixed : Expr :=
  .assign (.name "x" .start) none
    (.call (.name "f" .start) [.assign (.name "y" .start) none (.name "a" .start) .start]
      [("k", .binary .pow (.unary .neg (.name "b" .start) .start) (.name "c" .start) .start)] .start) .start

/-- The tokens of `mixed`. -/
def mixedTokens : List Token :=
  [.name "x", .symbol .eq, .name "f", .symbol .lparen, .symbol .lparen, .name "y", .symbol .eq, .name "a",
    .symbol .rparen, .symbol .comma, .name "k", .symbol .eq, .symbol .minus, .name "b", .symbol .starStar, .name "c",
    .symbol .rparen].map Token.of

theorem spelled_mixed : mixed.Spelled mixedTokens := by
  have hname (word : String) : Bare (.name word .start) [.of (.name word)] := .name (t := .of (.name word)) rfl
  have hassign : Bare (.assign (.name "y" .start) none (.name "a" .start) .start)
      ([.of (.name "y")] ++ .of (.symbol .eq) :: [.of (.name "a")]) :=
    .assign rfl (hname "y") rfl rfl (.bare (Nat.zero_le _) (hname "a"))
  have hneg : Bare (.unary .neg (.name "b" .start) .start) (.of (.symbol .minus) :: [.of (.name "b")]) :=
    .unary (t := .of (.symbol .minus)) rfl (.bare (by decide) (hname "b"))
  have hpower : Bare (.binary .pow (.unary .neg (.name "b" .start) .start) (.name "c" .start) .start)
      ([.of (.symbol .minus), .of (.name "b")] ++ .of (.symbol .starStar) :: [.of (.name "c")]) :=
    .power (.bare (by decide) hneg) rfl (.bare (by decide) (hname "c"))
  have hfirst := WrittenArgument.positional (.wrapped (by decide) (l := .of (.symbol .lparen)) rfl hassign
    (r := .of (.symbol .rparen)) rfl)
  have hsecond := WrittenArgument.named (t := .of (.name "k")) rfl (m := .of (.symbol .eq)) rfl
    (.bare (Nat.zero_le _) hpower)
  have hargs := Commas.more hfirst (t := .of (.symbol .comma)) rfl (.one hsecond)
  have hcall : Bare (.call (.name "f" .start) [.assign (.name "y" .start) none (.name "a" .start) .start]
      [("k", .binary .pow (.unary .neg (.name "b" .start) .start) (.name "c" .start) .start)] .start) _ :=
    .call (.bare (by decide) (hname "f")) (l := .of (.symbol .lparen)) rfl hargs (r := .of (.symbol .rparen)) rfl
  exact ⟨mixed, rfl, .bare (Nat.zero_le _)
    (.assign rfl (hname "x") rfl (t := .of (.symbol .eq)) rfl (.bare (Nat.zero_le _) hcall))⟩

theorem expr_reads_spelling_mixed :
    mixed.isPlain = true ∧ mixed.Spelled mixedTokens ∧
      ∃ e', (grammar 17).expr (Cursor.before mixedTokens ⟨.of .eof, []⟩) = .done e' ⟨.of .eof, []⟩ ∧
        e'.unplaced = mixed.unplaced :=
  have hplain : mixed.isPlain = true := by decide
  ⟨hplain, spelled_mixed, (expr_reads_spelling hplain).2 mixedTokens 17 (.of .eof) spelled_mixed (by decide) rfl⟩

end Cairn
