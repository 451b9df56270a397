import Cairn.Proofs.Reading.Writing

/-!
# What can be written

An expression is plain if it has no `match` in it, assigns only to places and only by the marks there are, and
counts only places up or down. Every plain expression has a writing, apart from the positions of its nodes, which
the tokens decide.
-/

namespace Cairn

open Token (Kind)

mutual

/-- The expression without its positions. What stands in a `match` is kept as it is. -/
def Expr.unplaced : Expr → Expr
  | .number value _ => .number value .start
  | .text value _ => .text value .start
  | .bool value _ => .bool value .start
  | .null _ => .null .start
  | .fresh _ => .fresh .start
  | .name word _ => .name word .start
  | .array items _ => .array (Expr.unplacedAll items) .start
  | .object entries _ => .object (Expr.unplacedEntries entries) .start
  | .assign target op? value _ => .assign target.unplaced op? value.unplaced .start
  | .logical op left right _ => .logical op left.unplaced right.unplaced .start
  | .binary op left right _ => .binary op left.unplaced right.unplaced .start
  | .unary op operand _ => .unary op operand.unplaced .start
  | .step direction early target _ => .step direction early target.unplaced .start
  | .call callee args named _ =>
    .call callee.unplaced (Expr.unplacedAll args) (Expr.unplacedEntries named) .start
  | .member operand property _ => .member operand.unplaced property .start
  | .index operand key _ => .index operand.unplaced key.unplaced .start
  | .slice operand start? stop? _ =>
    .slice operand.unplaced (Expr.unplacedBound start?) (Expr.unplacedBound stop?) .start
  | .choose subject arms pos => .choose subject arms pos

def Expr.unplacedAll : List Expr → List Expr
  | [] => []
  | e :: rest => e.unplaced :: Expr.unplacedAll rest

def Expr.unplacedEntries : List (String × Expr) → List (String × Expr)
  | [] => []
  | (key, e) :: rest => (key, e.unplaced) :: Expr.unplacedEntries rest

def Expr.unplacedBound : Option Expr → Option Expr
  | none => none
  | some e => some e.unplaced

end

mutual

/-- No `match` anywhere, and places where something is assigned or counted. -/
def Expr.isPlain : Expr → Bool
  | .number _ _ | .text _ _ | .bool _ _ | .null _ | .fresh _ | .name _ _ => true
  | .array items _ => Expr.allPlain items
  | .object entries _ => Expr.entriesPlain entries
  | .assign target op? value _ =>
    target.isPlace && (assignMark? op?).isSome && target.isPlain && value.isPlain
  | .logical _ left right _ | .binary _ left right _ => left.isPlain && right.isPlain
  | .unary _ operand _ => operand.isPlain
  | .step _ _ target _ => target.isPlace && target.isPlain
  | .call callee args named _ => callee.isPlain && Expr.allPlain args && Expr.entriesPlain named
  | .member operand _ _ => operand.isPlain
  | .index operand key _ => operand.isPlain && key.isPlain
  | .slice operand start? stop? _ => operand.isPlain && Expr.boundPlain start? && Expr.boundPlain stop?
  | .choose _ _ _ => false

def Expr.allPlain : List Expr → Bool
  | [] => true
  | e :: rest => e.isPlain && Expr.allPlain rest

def Expr.entriesPlain : List (String × Expr) → Bool
  | [] => true
  | (_, e) :: rest => e.isPlain && Expr.entriesPlain rest

def Expr.boundPlain : Option Expr → Bool
  | none => true
  | some e => e.isPlain

end

theorem Expr.isPlace_unplaced (e : Expr) : e.unplaced.isPlace = e.isPlace := by cases e <;> simp [unplaced, isPlace]

theorem Expr.isPlace_of_same {e e' : Expr} (hsame : e'.unplaced = e.unplaced) (h : e.isPlace = true) :
    e'.isPlace = true := by
  rw [← isPlace_unplaced, hsame, isPlace_unplaced, h]

/-- A token of this kind, at the beginning of a text. -/
def Token.of (kind : Kind) : Token := ⟨kind, "", .start⟩

theorem Bare.written {e : Expr} {ts : List Token} (h : Bare e ts) (n : Nat) : ∃ us, Written n e us := by
  by_cases hn : n ≤ e.level
  · exact ⟨ts, .bare hn h⟩
  · exact ⟨_, .wrapped (by omega) (l := .of (.symbol .lparen)) rfl h (r := .of (.symbol .rparen)) rfl⟩

theorem Commas.exists {α : Type} {P : α → List Token → Prop} {xs : List α} (h : ∀ x ∈ xs, ∃ ts, P x ts) :
    ∃ ts, Commas P xs ts := by
  induction xs with
  | nil => exact ⟨[], .nil⟩
  | cons x xs ih =>
      obtain ⟨ts, hts⟩ := h x (by simp)
      obtain ⟨us, hus⟩ := ih fun y hy => h y (by simp [hy])
      cases xs with
      | nil => exact ⟨ts, .one hts⟩
      | cons y ys => exact ⟨_, .more hts (t := .of (.symbol .comma)) rfl hus⟩

mutual

/-- Every plain expression can be written; the writing decides where its nodes stand. -/
theorem Expr.exists_bare (e : Expr) (h : e.isPlain = true) : ∃ e' ts, e'.unplaced = e.unplaced ∧ Bare e' ts := by
  match e with
  | .number value _ => exact ⟨_, _, by simp [Expr.unplaced], .number (t := .of (.number value)) rfl⟩
  | .text value _ => exact ⟨_, _, by simp [Expr.unplaced], .text (t := .of (.text value)) rfl⟩
  | .bool value _ => exact ⟨_, _, by simp [Expr.unplaced], .bool (t := .of (.bool value)) rfl⟩
  | .null _ => exact ⟨_, _, by simp [Expr.unplaced], .null (t := .of .null) rfl⟩
  | .name word _ => exact ⟨_, _, by simp [Expr.unplaced], .name (t := .of (.name word)) rfl⟩
  | .fresh _ =>
      exact ⟨_, _, by simp [Expr.unplaced], .fresh (t := .of (.keyword .prototype)) rfl
        (l := .of (.symbol .lparen)) rfl (r := .of (.symbol .rparen)) rfl⟩
  | .array items _ =>
      obtain ⟨items', hsame, hbare⟩ := Expr.exists_bareAll items (by simpa [Expr.isPlain] using h)
      obtain ⟨ts, hts⟩ := Commas.exists (P := Written 0) fun e he => (hbare e he).elim fun _ hb => hb.written 0
      exact ⟨_, _, by simp [Expr.unplaced, hsame], .array (l := .of (.symbol .lbracket)) rfl hts
        (r := .of (.symbol .rbracket)) rfl⟩
  | .object entries _ =>
      obtain ⟨entries', hsame, hbare⟩ := Expr.exists_bareEntries entries (by simpa [Expr.isPlain] using h)
      obtain ⟨ts, hts⟩ := Commas.exists (P := WrittenEntry) fun entry he => by
        obtain ⟨ts, hb⟩ := hbare entry he
        obtain ⟨us, hw⟩ := hb.written 0
        exact ⟨_, .mk (t := .of (.name entry.1)) (.inl (.inl rfl)) (m := .of (.symbol .colon)) rfl hw⟩
      exact ⟨_, _, by simp [Expr.unplaced, hsame], .object (l := .of (.symbol .lbrace)) rfl hts
        (r := .of (.symbol .rbrace)) rfl⟩
  | .assign target op? value _ =>
      simp only [Expr.isPlain, Bool.and_eq_true, Option.isSome_iff_exists] at h
      obtain ⟨⟨⟨hplace, mark, hmark⟩, htarget⟩, hvalue⟩ := h
      obtain ⟨target', ts, hsame, hbare⟩ := Expr.exists_bare target htarget
      obtain ⟨value', us, hsame', hbare'⟩ := Expr.exists_bare value hvalue
      have hplace' := Expr.isPlace_of_same hsame hplace
      exact ⟨_, _, by simp [Expr.unplaced, hsame, hsame'],
        .assign hplace' hbare hmark (t := .of (.symbol mark)) rfl (.bare (Nat.zero_le _) hbare')⟩
  | .logical op left right _ =>
      obtain ⟨hleft, hright⟩ : left.isPlain = true ∧ right.isPlain = true := by simpa [Expr.isPlain] using h
      obtain ⟨left', _, hsame, hbare⟩ := Expr.exists_bare left hleft
      obtain ⟨right', _, hsame', hbare'⟩ := Expr.exists_bare right hright
      obtain ⟨ts, hts⟩ := hbare.written op.level
      obtain ⟨us, hus⟩ := hbare'.written (op.level + 1)
      obtain ⟨kind, hkind⟩ : ∃ kind, kind ∈ op.kinds := by cases op <;> exact ⟨_, List.mem_cons_self⟩
      exact ⟨_, _, by simp [Expr.unplaced, hsame, hsame'], .logical hts (t := .of kind) hkind hus⟩
  | .binary op left right _ =>
      obtain ⟨hleft, hright⟩ : left.isPlain = true ∧ right.isPlain = true := by simpa [Expr.isPlain] using h
      obtain ⟨left', _, hsame, hbare⟩ := Expr.exists_bare left hleft
      obtain ⟨right', _, hsame', hbare'⟩ := Expr.exists_bare right hright
      by_cases hpow : op = .pow
      · subst hpow
        obtain ⟨ts, hts⟩ := hbare.written 12
        obtain ⟨us, hus⟩ := hbare'.written 11
        exact ⟨_, _, by simp [Expr.unplaced, hsame, hsame'],
          .power hts (t := .of (.symbol BinaryOp.pow.mark)) rfl hus⟩
      · obtain ⟨ts, hts⟩ := hbare.written op.level
        obtain ⟨us, hus⟩ := hbare'.written (op.level + 1)
        exact ⟨_, _, by simp [Expr.unplaced, hsame, hsame'],
          .binary hpow hts (t := .of (.symbol op.mark)) rfl hus⟩
  | .unary op operand _ =>
      obtain ⟨operand', _, hsame, hbare⟩ := Expr.exists_bare operand (by simpa [Expr.isPlain] using h)
      obtain ⟨ts, hts⟩ := hbare.written 12
      exact ⟨_, _, by simp [Expr.unplaced, hsame], .unary (t := .of (.symbol op.mark)) rfl hts⟩
  | .step direction early target _ =>
      obtain ⟨hplace, htarget⟩ : target.isPlace = true ∧ target.isPlain = true := by simpa [Expr.isPlain] using h
      obtain ⟨target', ts, hsame, hbare⟩ := Expr.exists_bare target htarget
      have hplace' := Expr.isPlace_of_same hsame hplace
      cases early with
      | true =>
          exact ⟨_, _, by simp [Expr.unplaced, hsame],
            .early (t := .of (.symbol direction.mark)) rfl hplace' hbare⟩
      | false =>
          exact ⟨_, _, by simp [Expr.unplaced, hsame],
            .late hplace' hbare (t := .of (.symbol direction.mark)) rfl⟩
  | .call callee args named _ =>
      obtain ⟨⟨hcallee, hargs⟩, hnamed⟩ :
          (callee.isPlain = true ∧ Expr.allPlain args = true) ∧ Expr.entriesPlain named = true := by
        simpa [Expr.isPlain] using h
      obtain ⟨callee', _, hsame, hbare⟩ := Expr.exists_bare callee hcallee
      obtain ⟨args', hsames, hbares⟩ := Expr.exists_bareAll args hargs
      obtain ⟨named', hsames', hbares'⟩ := Expr.exists_bareEntries named hnamed
      obtain ⟨ts, hts⟩ := hbare.written 14
      have hall : ∀ x ∈ args'.map .inl ++ named'.map .inr, ∃ us, WrittenArgument x us := by
        intro x hx
        rcases List.mem_append.mp hx with hx | hx
        · obtain ⟨e, he, rfl⟩ := List.mem_map.mp hx
          obtain ⟨_, hb⟩ := hbares e he
          obtain ⟨us, hw⟩ := hb.written 1
          exact ⟨us, .positional hw⟩
        · obtain ⟨entry, he, rfl⟩ := List.mem_map.mp hx
          obtain ⟨_, hb⟩ := hbares' entry he
          obtain ⟨us, hw⟩ := hb.written 0
          exact ⟨_, .named (t := .of (.name entry.1)) rfl (m := .of (.symbol .eq)) rfl hw⟩
      obtain ⟨us, hus⟩ := Commas.exists hall
      exact ⟨_, _, by simp [Expr.unplaced, hsame, hsames, hsames'],
        .call hts (l := .of (.symbol .lparen)) rfl hus (r := .of (.symbol .rparen)) rfl⟩
  | .member operand property _ =>
      obtain ⟨operand', _, hsame, hbare⟩ := Expr.exists_bare operand (by simpa [Expr.isPlain] using h)
      obtain ⟨ts, hts⟩ := hbare.written 14
      exact ⟨_, _, by simp [Expr.unplaced, hsame],
        .member hts (t := .of (.symbol .dot)) rfl (p := .of (.name property)) (.inl rfl)⟩
  | .index operand key _ =>
      obtain ⟨hoperand, hkey⟩ : operand.isPlain = true ∧ key.isPlain = true := by simpa [Expr.isPlain] using h
      obtain ⟨operand', _, hsame, hbare⟩ := Expr.exists_bare operand hoperand
      obtain ⟨key', us, hsame', hbare'⟩ := Expr.exists_bare key hkey
      obtain ⟨ts, hts⟩ := hbare.written 14
      exact ⟨_, _, by simp [Expr.unplaced, hsame, hsame'], .index hts (l := .of (.symbol .lbracket)) rfl
        (.bare (Nat.zero_le _) hbare') (r := .of (.symbol .rbracket)) rfl⟩
  | .slice operand start? stop? _ =>
      obtain ⟨⟨hoperand, hstart⟩, hstop⟩ :
          (operand.isPlain = true ∧ Expr.boundPlain start? = true) ∧ Expr.boundPlain stop? = true := by
        simpa [Expr.isPlain] using h
      obtain ⟨operand', _, hsame, hbare⟩ := Expr.exists_bare operand hoperand
      obtain ⟨start', us, hsame', hbound⟩ := Expr.exists_bareBound start? hstart
      obtain ⟨stop', vs, hsame'', hbound'⟩ := Expr.exists_bareBound stop? hstop
      obtain ⟨ts, hts⟩ := hbare.written 14
      exact ⟨_, _, by simp [Expr.unplaced, hsame, hsame', hsame''], .slice hts (l := .of (.symbol .lbracket)) rfl
        hbound (m := .of (.symbol .colon)) rfl hbound' (r := .of (.symbol .rbracket)) rfl⟩
  | .choose _ _ _ => simp [Expr.isPlain] at h

theorem Expr.exists_bareAll (es : List Expr) (h : Expr.allPlain es = true) :
    ∃ es', Expr.unplacedAll es' = Expr.unplacedAll es ∧ ∀ e ∈ es', ∃ ts, Bare e ts := by
  match es with
  | [] => exact ⟨[], rfl, by simp⟩
  | e :: rest =>
      obtain ⟨he, hrest⟩ : e.isPlain = true ∧ Expr.allPlain rest = true := by simpa [Expr.allPlain] using h
      obtain ⟨e', ts, hsame, hbare⟩ := Expr.exists_bare e he
      obtain ⟨rest', hsames, hbares⟩ := Expr.exists_bareAll rest hrest
      refine ⟨e' :: rest', by simp [Expr.unplacedAll, hsame, hsames], ?_⟩
      simpa using ⟨⟨ts, hbare⟩, hbares⟩

theorem Expr.exists_bareEntries (entries : List (String × Expr)) (h : Expr.entriesPlain entries = true) :
    ∃ entries', Expr.unplacedEntries entries' = Expr.unplacedEntries entries ∧
      ∀ entry ∈ entries', ∃ ts, Bare entry.2 ts := by
  match entries with
  | [] => exact ⟨[], rfl, by simp⟩
  | (key, e) :: rest =>
      obtain ⟨he, hrest⟩ : e.isPlain = true ∧ Expr.entriesPlain rest = true := by
        simpa [Expr.entriesPlain] using h
      obtain ⟨e', ts, hsame, hbare⟩ := Expr.exists_bare e he
      obtain ⟨rest', hsames, hbares⟩ := Expr.exists_bareEntries rest hrest
      refine ⟨(key, e') :: rest', by simp [Expr.unplacedEntries, hsame, hsames], fun entry hentry => ?_⟩
      rcases List.mem_cons.mp hentry with rfl | hentry
      · exact ⟨ts, hbare⟩
      · exact hbares entry hentry

theorem Expr.exists_bareBound (bound? : Option Expr) (h : Expr.boundPlain bound? = true) :
    ∃ bound' ts, Expr.unplacedBound bound' = Expr.unplacedBound bound? ∧ WrittenBound bound' ts := by
  match bound? with
  | none => exact ⟨none, [], rfl, .none⟩
  | some e =>
      obtain ⟨e', ts, hsame, hbare⟩ := Expr.exists_bare e (by simpa [Expr.boundPlain] using h)
      exact ⟨some e', ts, by simp [Expr.unplacedBound, hsame], .some (.bare (Nat.zero_le _) hbare)⟩

end

/-- The tokens spell the expression, wherever its nodes are found. -/
def Expr.Spelled (e : Expr) (ts : List Token) : Prop := ∃ e', e'.unplaced = e.unplaced ∧ Written 0 e' ts

end Cairn
