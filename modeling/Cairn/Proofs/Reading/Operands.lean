import Cairn.Proofs.Reading.Stops

/-!
# Operands read as they are written

The rules from primary expressions up to `**`. Each is shown to read whatever is written at its level or tighter,
if the rules for what is nested read what is written with fewer tokens.
-/

namespace Cairn

open Token (Keyword Symbol Kind)
open Parse

/-! ## Lists -/

section

variable {α σ : Type} {P : α → List Token → Prop} {n : Nat} {round : σ → Parse (Turn σ)} {c : Cursor}

/-- With the item `x` the round comes from `s` to `s'`, up to the comma that may follow. -/
def Takes (P : α → List Token → Prop) (n : Nat) (round : σ → Parse (Turn σ)) (s : σ) (x : α) (s' : σ) : Prop :=
  ∀ ts us c turn, P x ts → ts.length ≤ n → Grammar.Stops 0 (c.before us).kind → (afterItem s').Reads us c turn →
    (round s).Reads (ts ++ us) c turn

/-- With one item after another the rounds come from `s` to `s'`. -/
inductive Gathers (P : α → List Token → Prop) (n : Nat) (round : σ → Parse (Turn σ)) : σ → List α → σ → Prop where
  | nil {s : σ} : Gathers P n round s [] s
  | cons {s s' s'' : σ} {x : α} {xs : List α} (first : Takes P n round s x s') (rest : Gathers P n round s' xs s'') :
      Gathers P n round s (x :: xs) s''

theorem Gathers.append {s s' s'' : σ} {xs ys : List α} (h : Gathers P n round s xs s')
    (h' : Gathers P n round s' ys s'') : Gathers P n round s (xs ++ ys) s'' := by
  induction h with
  | nil => exact h'
  | cons first rest ih => exact .cons first (ih h')

/-- Where every item is put after those before it, they are gathered in order. -/
theorem Gathers.of_takes {β : Type} {item : β → α} {state : List β → σ}
    (h : ∀ earlier x, Takes P n round (state earlier) (item x) (state (earlier ++ [x]))) (earlier xs : List β) :
    Gathers P n round (state earlier) (xs.map item) (state (earlier ++ xs)) := by
  induction xs generalizing earlier with
  | nil => simpa using Gathers.nil
  | cons x xs ih =>
      have hrest := ih (earlier ++ [x])
      rw [List.append_assoc] at hrest
      exact .cons (h earlier x) hrest

theorem afterItem_stop {s : σ} (hc : c.kind ≠ .symbol .comma) : (afterItem s).Reads [] c (.stop s) :=
  .ifNotAccepts hc .pure

theorem Commas.rounds {xs : List α} {ts : List Token} (h : Commas P xs ts) {s s' : σ} (hf : Gathers P n round s xs s')
    (hlen : ts.length ≤ n) (hend : ∀ s, (round s).Reads [] c (.stop s)) (hc : c.kind ∈ Grammar.closing)
    (hne : c.kind ≠ .symbol .comma) : Rounds round c s ts s' := by
  induction h generalizing s with
  | nil =>
      cases hf with
      | nil => exact .stop (hend _)
  | one item =>
      obtain _ | ⟨first, rest⟩ := hf
      cases rest with
      | nil => exact .stop (by simpa using first _ [] c _ item hlen (.of_closing hc) (afterItem_stop hne))
  | @more x y xs ts us t item comma rest ih =>
      obtain _ | ⟨first, others⟩ := hf
      rw [List.length_append, List.length_cons] at hlen
      have htaken := first ts [t] (c.before us) _ item (by omega) (.of_kind comma (by decide)) (.ifAccepts comma .pure)
      have hrounds := Rounds.again (by simp) htaken (ih others (by omega))
      rwa [List.append_assoc] at hrounds

end

/-! ## Operands -/

/-- The step reads whatever is written at level `k` or tighter with `n` tokens at most, up to one that ends it. -/
def Parse.ReadsBack (n k : Nat) (p : Parse Expr) : Prop :=
  ∀ ⦃m e ts c⦄, k ≤ m → Written m e ts → ts.length ≤ n → Grammar.Stops k c.kind → p.Reads ts c e

/-- The rules for what is nested read what is written with `n` tokens at most. -/
structure Grammar.ReadsBack (n : Nat) (g : Grammar) : Prop where
  expr : g.expr.ReadsBack n 0
  power : g.power.ReadsBack n 11
  unary : g.unary.ReadsBack n 12

theorem propertyName_reads {t : Token} {property : String} {c : Cursor} (h : t.Names property) :
    propertyName.Reads [t] c property := by
  refine .next ?_
  rcases h with hname | ⟨hword, rfl, hletters⟩
  · simp only [hname]
    exact .pure
  · rcases hword with ⟨word, hk⟩ | ⟨value, hk⟩ | hk
    all_goals
      simp only [hk, hletters, if_true]
      exact .pure

theorem entryKey_reads {t : Token} {key : String} {c : Cursor} (h : t.Names key ∨ t.kind = .text key) :
    Grammar.entryKey.Reads [t] c key := by
  refine .kind ?_
  rw [Cursor.kind_before]
  rcases h with h | htext
  · split
    · rename_i value hk
      rcases h with h | ⟨⟨_, h⟩ | ⟨_, h⟩ | h, -⟩ <;> rw [h] at hk <;> cases hk
    · exact propertyName_reads h
  · simp only [htext]
    exact .next .pure

theorem names_kind_ne {t : Token} {ts : List Token} {key : String} {c : Cursor} {kind : Kind}
    (h : t.Names key ∨ t.kind = .text key) (hk : kind ∈ Grammar.closing) : (c.before (t :: ts)).kind ≠ kind := by
  rintro rfl
  rw [Cursor.kind_before] at hk
  rcases h with (h | ⟨⟨word, h⟩ | ⟨value, h⟩ | h, -⟩) | h
  all_goals rw [h] at hk; simp [Grammar.closing] at hk

theorem listUntil_reads {α : Type} {P : α → List Token → Prop} {n : Nat} {item : Parse α} {close : Symbol}
    {xs : List α} {ts : List Token} {r : Token} {c : Cursor} (hclose : .symbol close ∈ Grammar.closing)
    (hne : close ≠ .comma) (hitem : ∀ x ts c, P x ts → ts.length ≤ n → Grammar.Stops 0 c.kind → item.Reads ts c x)
    (hfirst : ∀ x ts us (c : Cursor), P x ts → ∀ kind ∈ Grammar.closing, (c.before (ts ++ us)).kind ≠ kind)
    (h : Commas P xs ts) (hlen : ts.length ≤ n) (hr : r.kind = .symbol close) :
    (listUntil close item).Reads (ts ++ [r]) c xs := by
  have htakes (s : List α) (x : α) : Takes P n (listRound close item) s x (s ++ [x]) := by
    intro ts us c turn hx hlen hs hafter
    refine .ifNotCloses (hfirst x ts us c hx _ hclose) (hfirst x ts us c hx _ (by decide)) ?_
    exact .bind (hitem x ts _ hx hlen hs) hafter
  have hgathers : Gathers P n (listRound close item) [] (xs.map id) ([] ++ xs) := .of_takes htakes [] xs
  rw [List.map_id] at hgathers
  have hkind : (c.before [r]).kind = .symbol close := hr
  have hrounds : Rounds (listRound close item) (c.before [r]) [] ts xs :=
    h.rounds hgathers hlen (fun s => .ifCloses hkind .pure) (hkind ▸ hclose) (by simpa [hkind] using hne)
  exact .bind hrounds.repeated (.expect hr .pure)

namespace Grammar.ReadsBack

variable {n : Nat} {g : Grammar} {c : Cursor}

theorem entry (h : g.ReadsBack n) {entry : String × Expr} {ts : List Token} (hw : WrittenEntry entry ts)
    (hlen : ts.length ≤ n) (hs : Stops 0 c.kind) : g.entry.Reads ts c entry := by
  cases hw with
  | mk names colon inner =>
      simp only [List.length_cons] at hlen
      exact .first (entryKey_reads names) (.expect colon (.last (h.expr (Nat.zero_le _) inner (by omega) hs) .pure))

theorem parenthesized (h : g.ReadsBack n) {e : Expr} {ts : List Token} {l r : Token} (inner : Bare e ts)
    (opening : l.kind = .symbol .lparen) (closing : r.kind = .symbol .rparen) (hlen : ts.length ≤ n) :
    g.primary.Reads (l :: (ts ++ [r])) c e := by
  refine .position (.kind ?_)
  simp only [Cursor.kind_before, opening]
  refine .next (.bind (h.expr (Nat.zero_le 0) (.bare (Nat.zero_le _) inner) hlen (.of_kind closing (by decide))) ?_)
  exact .expect closing .pure

theorem array (h : g.ReadsBack n) {items : List Expr} {ts : List Token} {l r : Token}
    (opening : l.kind = .symbol .lbracket) (inner : Commas (Written 0) items ts)
    (closing : r.kind = .symbol .rbracket) (hlen : ts.length ≤ n) :
    g.primary.Reads (l :: (ts ++ [r])) c (.array items l.position) := by
  refine .position (.kind ?_)
  simp only [Cursor.kind_before, opening]
  refine .next (.last (listUntil_reads (by decide) (by decide) ?_ ?_ inner hlen closing) .pure)
  · intro e ts c hw hlen hs
    exact h.expr (Nat.zero_le _) hw hlen hs
  · intro e ts us c hw kind hk
    exact hw.begins.kind_ne hk

theorem object (h : g.ReadsBack n) {entries : List (String × Expr)} {ts : List Token} {l r : Token}
    (opening : l.kind = .symbol .lbrace) (inner : Commas WrittenEntry entries ts)
    (closing : r.kind = .symbol .rbrace) (hlen : ts.length ≤ n) :
    g.primary.Reads (l :: (ts ++ [r])) c (.object entries l.position) := by
  refine .position (.kind ?_)
  simp only [Cursor.kind_before, opening]
  refine .position (.expect opening (.last (listUntil_reads (by decide) (by decide) ?_ ?_ inner hlen closing) .pure))
  · intro entry ts c hw hlen hs
    exact h.entry hw hlen hs
  · intro entry ts us c hw kind hk
    cases hw with
    | mk names colon inner => exact names_kind_ne names hk

theorem primary (h : g.ReadsBack n) : g.primary.ReadsBack (n + 1) 15 := by
  intro m e ts c hm hw hlen _
  cases hw with
  | wrapped loose opening inner closing =>
      simp only [List.length_cons, List.length_append] at hlen
      exact h.parenthesized inner opening closing (by omega)
  | bare tight inner =>
      cases inner with
      | number kind | text kind | bool kind | null kind | name kind =>
          refine .position (.kind ?_)
          simp only [Cursor.kind_before, kind]
          exact .next .pure
      | fresh word opening closing =>
          refine .position (.kind ?_)
          simp only [Cursor.kind_before, word]
          exact .next (.expect opening (.expect closing .pure))
      | array opening inner closing =>
          simp only [List.length_cons, List.length_append] at hlen
          exact h.array opening inner closing (by omega)
      | object opening inner closing =>
          simp only [List.length_cons, List.length_append] at hlen
          exact h.object opening inner closing (by omega)
      | @logical op => exact absurd tight (by have := op.level_le; simp only [Expr.level]; omega)
      | @binary op => exact absurd tight (by have := op.level_le; simp only [Expr.level]; omega)
      | assign | power | unary | early | late | call | member | index | slice =>
          exact absurd tight (by simp only [Expr.level, BinaryOp.level]; omega)

/-! ## Calls, members, subscripts -/

theorem positional (h : g.ReadsBack n) (earlier : List Expr) (value : Expr) :
    Takes WrittenArgument n g.argumentRound ⟨earlier, []⟩ (.inl value) ⟨earlier ++ [value], []⟩ := by
  intro ts us c turn hw hlen hs hafter
  cases hw with
  | positional inner =>
      have hbegins := inner.begins
      refine .ifNotCloses (hbegins.kind_ne (by decide)) (hbegins.kind_ne (by decide)) (.cursor ?_)
      simp only [hbegins.keyword?_eq_none (Nat.zero_lt_one) hs]
      exact .bind (h.expr (Nat.zero_le _) inner hlen hs) hafter

theorem named (h : g.ReadsBack n) (args : List Expr) (earlier : List (String × Expr)) (entry : String × Expr) :
    Takes WrittenArgument n g.argumentRound ⟨args, earlier⟩ (.inr entry) ⟨args, earlier ++ [entry]⟩ := by
  intro ts us c turn hw hlen hs hafter
  cases hw with
  | @named name value t m ts kind mark inner =>
      simp only [List.length_cons] at hlen
      have hkeyword : keyword? (c.before (t :: m :: ts ++ us)) = some name := by
        simp [keyword?, Cursor.kind, Cursor.before, Cursor.later?, kind, mark]
      refine .ifNotCloses (by simp [Cursor.kind_before, kind]) (by simp [Cursor.kind_before, kind]) (.cursor ?_)
      simp only [hkeyword]
      exact .next (.next (.bind (h.expr (Nat.zero_le _) inner (by omega) hs) hafter))

theorem arguments (h : g.ReadsBack n) {args : List Expr} {named : List (String × Expr)} {ts : List Token}
    (hw : Commas WrittenArgument (args.map .inl ++ named.map .inr) ts) (hlen : ts.length ≤ n)
    (hc : c.kind = .symbol .rparen) : (repeated g.argumentRound {}).Reads ts c ⟨args, named⟩ := by
  have hpositional := Gathers.of_takes h.positional [] args
  have hnamed := Gathers.of_takes (h.named args) [] named
  have hrounds := hw.rounds (c := c) (hpositional.append hnamed) hlen (fun s => .ifCloses hc .pure) (by rw [hc]; decide)
    (by simp [hc])
  exact hrounds.repeated

theorem call (h : g.ReadsBack n) {callee : Expr} {args : List Expr} {named : List (String × Expr)} {l r : Token}
    {ts : List Token} (opening : l.kind = .symbol .lparen)
    (inner : Commas WrittenArgument (args.map .inl ++ named.map .inr) ts) (closing : r.kind = .symbol .rparen)
    (hlen : ts.length ≤ n) :
    (g.chainRound callee).Reads (l :: (ts ++ [r])) c (.again (.call callee args named callee.pos)) := by
  refine .kind ?_
  simp only [Cursor.kind_before, opening]
  exact .next (.bind (h.arguments inner hlen closing) (.expect closing .pure))

theorem member {object : Expr} {property : String} {t p : Token} (dot : t.kind = .symbol .dot)
    (names : p.Names property) :
    (g.chainRound object).Reads [t, p] c (.again (.member object property object.pos)) := by
  refine .kind ?_
  simp only [Cursor.kind_before, dot]
  exact .next (.last (propertyName_reads names) .pure)

theorem index (h : g.ReadsBack n) {object key : Expr} {l r : Token} {ts : List Token}
    (opening : l.kind = .symbol .lbracket) (inner : Written 0 key ts) (closing : r.kind = .symbol .rbracket)
    (hlen : ts.length ≤ n) :
    (g.chainRound object).Reads (l :: (ts ++ [r])) c (.again (.index object key object.pos)) := by
  refine .kind ?_
  simp only [Cursor.kind_before, opening]
  refine .next (.last (.ifNotAccepts (inner.begins.kind_ne (by decide)) ?_) .pure)
  refine .bind (h.expr (Nat.zero_le _) inner hlen (.of_kind closing (by decide))) ?_
  exact .ifNotAccepts (by simp [Cursor.kind_before, closing]) (.expect closing .pure)

theorem sliceStop (h : g.ReadsBack n) {stop? : Option Expr} {ts : List Token} (hw : WrittenBound stop? ts)
    (hc : c.kind = .symbol .rbracket) (hlen : ts.length ≤ n) : g.sliceStop.Reads ts c stop? := by
  cases hw with
  | none => exact .ifSees hc .pure
  | some inner =>
      have hne : (c.before (ts ++ [])).kind ≠ .symbol .rbracket := inner.begins.kind_ne (by decide)
      rw [List.append_nil] at hne
      exact .ifNotSees hne (.last (h.expr (Nat.zero_le _) inner hlen (.of_closing (by rw [hc]; decide))) .pure)

theorem slice (h : g.ReadsBack n) {object : Expr} {start? stop? : Option Expr} {l m r : Token} {us vs : List Token}
    (opening : l.kind = .symbol .lbracket) (start : WrittenBound start? us) (colon : m.kind = .symbol .colon)
    (stop : WrittenBound stop? vs) (closing : r.kind = .symbol .rbracket) (hlen : (us ++ m :: (vs ++ [r])).length ≤ n) :
    (g.chainRound object).Reads (l :: (us ++ m :: (vs ++ [r]))) c (.again (.slice object start? stop? object.pos)) := by
  simp only [List.length_append, List.length_cons] at hlen
  refine .kind ?_
  simp only [Cursor.kind_before, opening]
  refine .next (.last ?_ .pure)
  cases start with
  | none => exact .ifAccepts colon (.bind (h.sliceStop stop closing (by omega)) (.expect closing .pure))
  | some inner =>
      refine .ifNotAccepts (inner.begins.kind_ne (by decide)) ?_
      refine .bind (h.expr (Nat.zero_le _) inner (by omega) (.of_kind colon (by decide))) ?_
      exact .ifAccepts colon (.bind (h.sliceStop stop closing (by omega)) (.expect closing .pure))

end Grammar.ReadsBack

section

variable {n : Nat} {g : Grammar} {c : Cursor}

mutual

/-- After what is written at its level the chain goes on as if it had the expression in hand. -/
theorem Written.chains {e e' : Expr} {ts us : List Token} (hw : Written 14 e ts) (h : g.ReadsBack n)
    (hlen : ts.length ≤ n + 1) (hr : Rounds g.chainRound c e us e') : g.chain.Reads (ts ++ us) c e' := by
  match hw with
  | .bare tight inner => exact Bare.chains inner tight h hlen hr
  | .wrapped loose opening inner closing =>
      simp only [List.length_cons, List.length_append] at hlen
      exact .bind (h.parenthesized inner opening closing (by omega)) hr.repeated

theorem Bare.chains {e e' : Expr} {ts us : List Token} (hb : Bare e ts) (tight : 14 ≤ e.level) (h : g.ReadsBack n)
    (hlen : ts.length ≤ n + 1) (hr : Rounds g.chainRound c e us e') : g.chain.Reads (ts ++ us) c e' := by
  by_cases halone : 15 ≤ e.level
  · exact .bind (h.primary (Nat.le_refl 15) (.bare halone hb) hlen .alone) hr.repeated
  -- The object is read first, and what hangs on it is one more round before those that come after.
  match hb with
  | .call first opening inner closing =>
      simp only [List.length_append, List.length_cons] at hlen
      have hread := Written.chains first h (by omega) (.again (by simp) (h.call opening inner closing (by omega)) hr)
      simpa using hread
  | .member first dot names =>
      simp only [List.length_append] at hlen
      have hread := Written.chains first h (by omega) (.again (by simp) (Grammar.ReadsBack.member dot names) hr)
      simpa using hread
  | .index first opening inner closing =>
      simp only [List.length_append, List.length_cons] at hlen
      have hread := Written.chains first h (by omega) (.again (by simp) (h.index opening inner closing (by omega)) hr)
      simpa using hread
  | .slice first opening start colon stop closing =>
      rw [List.length_append, List.length_cons] at hlen
      have hread := Written.chains first h (by omega)
        (.again (by simp) (h.slice opening start colon stop closing (by omega)) hr)
      simpa using hread
  | .number _ | .text _ | .bool _ | .null _ | .name _ | .fresh _ _ _ | .array _ _ _ | .object _ _ _ =>
      exact absurd (Nat.le_refl 15) halone
  | .assign _ _ _ _ _ | .power _ _ _ | .unary _ _ | .early _ _ _ | .late _ _ _ =>
      simp [Expr.level, BinaryOp.level] at tight
  | .logical _ _ _ => exact absurd (Nat.le_trans tight (LogicalOp.level_le _)) (by decide)
  | .binary _ _ _ _ => exact absurd (Nat.le_trans tight (BinaryOp.level_le _)) (by decide)

end

end

namespace Grammar

theorem chainRound_stop {g : Grammar} {e : Expr} {c : Cursor} (hs : Stops 14 c.kind) :
    (g.chainRound e).Reads [] c (.stop e) := by
  have hne {kind : Kind} (hmem : kind ∈ [.symbol .lparen, .symbol .dot, .symbol .lbracket]) : c.kind ≠ kind :=
    fun hk => absurd (hs.links (hk ▸ hmem)) (Nat.lt_irrefl 14)
  refine .kind ?_
  split
  · exact absurd ‹_› (hne (by simp))
  · exact absurd ‹_› (hne (by simp))
  · exact absurd ‹_› (hne (by simp))
  · exact .pure

namespace ReadsBack

variable {n : Nat} {g : Grammar}

theorem chain (h : g.ReadsBack n) : g.chain.ReadsBack (n + 1) 14 := by
  intro m e ts c hm hw hlen hs
  have hstop : Rounds g.chainRound c e [] e := .stop (chainRound_stop hs)
  rcases hw.tighter hm with ⟨hl, hb⟩ | ⟨m', hm', hw'⟩
  · simpa using hb.chains (Nat.le_of_eq hl.symm) h hlen hstop
  · exact .last (h.primary hm' hw' hlen .alone) hstop.repeated

theorem postfixed (h : g.ReadsBack n) : g.postfixed.ReadsBack (n + 1) 13 := by
  intro m e ts c hm hw hlen hs
  rcases hw.tighter hm with ⟨hl, hb⟩ | ⟨m', hm', hw'⟩
  · cases hb with
    | late place inner kind =>
        rw [List.length_append] at hlen
        refine .bind (h.chain (Nat.le_refl 14) (inner.place place (Nat.le_refl 14)) (by omega)
          ((Stops.of_direction _).before kind)) (.kind ?_)
        simp only [Cursor.kind_before, kind, direction?_mark]
        refine .next ?_
        simp only [place, if_true]
        exact .pure
    | _ => grind [Expr.level, LogicalOp.level_le, BinaryOp.level_le]
  · refine .last (h.chain hm' hw' hlen (hs.mono (by omega))) (.kind ?_)
    have hnone : direction? c.kind = none :=
      Option.not_isSome_iff_eq_none.mp fun hd => Nat.lt_irrefl 13 (hs.steps hd)
    simp only [Cursor.before, hnone]
    exact .pure

theorem unaryExpr (h : g.ReadsBack n) : g.unaryExpr.ReadsBack (n + 1) 12 := by
  intro m e ts c hm hw hlen hs
  refine .position (.kind ?_)
  rcases hw.tighter hm with ⟨hl, hb⟩ | ⟨m', hm', hw'⟩
  · cases hb with
    | unary kind inner =>
        rw [List.length_cons] at hlen
        simp only [Cursor.kind_before, kind, unaryOp?_mark]
        exact .next (.last (h.unary (Nat.le_refl 12) inner (by omega) hs) .pure)
    | early kind place inner =>
        rw [List.length_cons] at hlen
        simp only [Cursor.kind_before, kind, unaryOp?_mark_direction, direction?_mark]
        refine .next (.last (h.unary (Nat.le_refl 12) (inner.place place (by omega)) (by omega) hs) ?_)
        simp only [place, if_true]
        exact .pure
    | _ => grind [Expr.level, LogicalOp.level_le, BinaryOp.level_le]
  · obtain ⟨t, us, rfl, ht⟩ := hw'.begins.first
    have hopens : t.kind.opens = true := ht.resolve_right fun hl => by omega
    obtain ⟨hunary, hdirection⟩ := not_leads_of_opens hopens
    simp only [Cursor.kind_before, hunary, hdirection]
    exact h.postfixed hm' hw' hlen (hs.mono (by omega))

theorem powerExpr (h : g.ReadsBack n) : g.powerExpr.ReadsBack (n + 1) 11 := by
  intro m e ts c hm hw hlen hs
  rcases hw.tighter hm with ⟨hl, hb⟩ | ⟨m', hm', hw'⟩
  · cases hb with
    | power first kind second =>
        rw [List.length_append, List.length_cons] at hlen
        have hmark : Stops 12 (.symbol BinaryOp.pow.mark) := .of_binary .pow
        refine .bind (h.unaryExpr (Nat.le_refl 12) first (by omega) (hmark.before kind)) (.ifAccepts kind ?_)
        exact .last (h.power (Nat.le_refl 11) second (by omega) hs) .pure
    | binary ne => exact absurd hl (Nat.ne_of_lt (BinaryOp.level_lt ne))
    | _ => grind [Expr.level, LogicalOp.level_le, BinaryOp.level_le]
  · refine .last (h.unaryExpr hm' hw' hlen (hs.mono (by omega))) (.ifNotAccepts ?_ .pure)
    exact fun hk => absurd (hs.powers hk) (Nat.lt_irrefl 11)

end ReadsBack

end Grammar

end Cairn
