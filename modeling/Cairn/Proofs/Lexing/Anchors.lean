import Cairn.Proofs.Grid.Twice
import Cairn.Proofs.Lexing.Places
import Cairn.Proofs.Layout.Separation

/-!
# The foundation among the tokens

The grid looks for its foundation with an eye on quotes alone, row by row, while the lexer cuts the whole text into
tokens. In a text without faults and comments both see the same: a `#` is an anchor just if it is a token of its own,
for every token leaves the quotes of its line as it found them.
-/

namespace Cairn

open Grid (hasAnchor foundationRow)

/-! ## Anchors in a text -/

/-- The line `n` of the text, counted from zero, has an anchor. -/
def Text.AnchoredAt (text : List Char) (n : Nat) : Prop :=
  ∃ row, (lines text)[n]? = some row ∧ hasAnchor false row = true

namespace Text

variable {front text : List Char} {n : Nat}

/-- What has no line end in it lengthens the first line. -/
theorem lines_append_line (h : '\n' ∉ front) (text : List Char) :
    ∃ line more, lines text = line :: more ∧ lines (front ++ text) = (front ++ line) :: more := by
  obtain ⟨line, more, hlines⟩ := List.exists_cons_of_ne_nil (lines_ne_nil text)
  refine ⟨line, more, hlines, ?_⟩
  induction front with
  | nil => exact hlines
  | cons c front ih =>
      rw [List.mem_cons, not_or] at h
      have hc : (c == '\n') = false := beq_eq_false_iff_ne.2 (Ne.symm h.1)
      rw [List.cons_append, lines, ih h.2]
      simp [hc]

theorem anchoredAt_append (h : '\n' ∉ front) (hfront : ∀ row, hasAnchor false (front ++ row) = hasAnchor false row) :
    AnchoredAt (front ++ text) n ↔ AnchoredAt text n := by
  obtain ⟨line, more, htext, happend⟩ := lines_append_line h text
  rw [AnchoredAt, AnchoredAt, htext, happend]
  cases n with
  | zero => simp [hfront]
  | succ n => simp

theorem anchoredAt_newline : AnchoredAt ('\n' :: text) n ↔ ∃ k, n = k + 1 ∧ AnchoredAt text k := by
  have hlines : lines ('\n' :: text) = [] :: lines text := lines_append (show '\n' ∉ [] by simp) text
  rw [AnchoredAt, hlines]
  cases n with
  | zero => simp [hasAnchor]
  | succ n => simp [AnchoredAt]

theorem anchoredAt_foundation : AnchoredAt ('#' :: text) n ↔ n = 0 ∨ AnchoredAt text n := by
  obtain ⟨line, more, htext, happend⟩ := lines_append_line (show '\n' ∉ ['#'] by simp) text
  rw [AnchoredAt, AnchoredAt, htext, show '#' :: text = ['#'] ++ text from rfl, happend]
  cases n with
  | zero => simp [hasAnchor]
  | succ n => simp

end Text

namespace Grid

theorem hasAnchor_append {quoted : Bool} {front : Row} (h : ∀ x ∈ front, ¬ IsMark x) (row : Row) :
    hasAnchor quoted (front ++ row) = hasAnchor quoted row := by
  induction front with
  | nil => rfl
  | cons x front ih =>
      obtain ⟨hx, hfront⟩ := List.forall_mem_cons.1 h
      simp only [IsMark, not_or] at hx
      simp [hasAnchor, hx.1, hx.2, ih hfront]

/-- Within quotes nothing but the closing quote counts. -/
theorem hasAnchor_quoted {body : Row} (h : ∀ x ∈ body, x ≠ '"' ∧ x ≠ '\n') (row : Row) :
    hasAnchor false ('"' :: (body ++ ['"']) ++ row) = hasAnchor false row := by
  have hbody : hasAnchor true (body ++ '"' :: row) = hasAnchor false row := by
    induction body with
    | nil => simp [hasAnchor]
    | cons x body ih =>
        obtain ⟨hx, hbody⟩ := List.forall_mem_cons.1 h
        simp [hasAnchor, hx.1, ih hbody]
  simpa [hasAnchor] using hbody

/-- The foundation is the last line with an anchor. -/
theorem foundation_eq_some_iff {text : List Char} {r : Nat} :
    (ofText text).foundation = some r ↔ IsGreatest {n | Text.AnchoredAt text n} r := by
  rw [foundation_ofText, foundationRow_eq_some_iff]
  refine and_congr Iff.rfl ⟨fun hlater n hn => ?_, fun hupper n row hn hrow => ?_⟩
  · obtain ⟨row, hrow, hanchor⟩ := hn
    by_contra hless
    rw [hlater n row (by omega) hrow] at hanchor
    cases hanchor
  · rw [← Bool.not_eq_true]
    intro hanchor
    exact absurd (hupper ⟨row, hrow, hanchor⟩) (by omega)

theorem foundation_eq_none_iff {text : List Char} :
    (ofText text).foundation = none ↔ ∀ n, ¬ Text.AnchoredAt text n := by
  rw [foundation_ofText, foundationRow_eq_none_iff, List.forall_mem_iff_getElem]
  constructor
  · rintro h n ⟨row, hrow, hanchor⟩
    obtain ⟨hn, rfl⟩ := List.getElem?_eq_some_iff.1 hrow
    rw [h n hn] at hanchor
    cases hanchor
  · intro h n hn
    rw [← Bool.not_eq_true]
    exact fun hanchor => h n ⟨_, List.getElem?_eq_getElem hn, hanchor⟩

end Grid

/-! ## Anchors among the tokens -/

namespace Token

variable {kind : Kind} {before lexeme text : List Char} {ts : List Token}

theorem isTrivia_wordKind (word : String) : (wordKind word).isTrivia = false := by
  unfold wordKind
  split
  · rfl
  · rfl
  · rfl
  · split <;> rfl

theorem Spells.of_trivia (h : Spells kind lexeme) (hkind : kind.isTrivia = true) :
    kind = .newline ∧ lexeme = ['\n'] ∨ kind = .foundation ∧ lexeme = ['#'] ∨ ∃ line, kind = .comment line := by
  cases h with
  | newline => exact .inl ⟨rfl, rfl⟩
  | foundation => exact .inr (.inl ⟨rfl, rfl⟩)
  | comment hline => exact .inr (.inr ⟨_, rfl⟩)
  | word hc htail => rw [isTrivia_wordKind] at hkind; cases hkind
  | _ => cases hkind

/-- A token that is not layout stays on its line and leaves its quotes as it found them. -/
theorem Spells.passes_over (h : Spells kind lexeme) (hkind : kind.isTrivia = false) :
    '\n' ∉ lexeme ∧ ∀ row, hasAnchor false (lexeme ++ row) = hasAnchor false row := by
  obtain ⟨htrivia, -⟩ | ⟨body, hbody, rfl⟩ | hunbroken := h.shape
  · rw [htrivia] at hkind
    cases hkind
  · exact ⟨by simpa using fun hmem => (hbody _ hmem).2 rfl, Grid.hasAnchor_quoted hbody⟩
  · refine ⟨fun hmem => absurd (hunbroken _ hmem) (by decide), Grid.hasAnchor_append fun x hx => ?_⟩
    rintro (rfl | rfl)
    · exact absurd (hunbroken _ hx) (by decide)
    · exact absurd (hunbroken _ hx) (by decide)

/-- Lines are counted on from the text before. -/
theorem Segments.line_le (h : Segments before text (ts.map .ok)) {t : Token} (ht : t ∈ ts) :
    1 + before.count '\n' ≤ t.position.line := by
  obtain ⟨part, hpart⟩ := h.behind (.ok t) (List.mem_map_of_mem ht)
  rw [entryPosition] at hpart
  simp [hpart, Position.behind]

/-- A line has an anchor just if a `#` among the tokens stands on it. -/
theorem Segments.anchoredAt_iff (h : Segments before text (ts.map .ok))
    (hplain : ∀ t ∈ ts, ∀ line, t.kind ≠ .comment line) (n : Nat) :
    Text.AnchoredAt text n ↔ ∃ t ∈ ts, t.kind = .foundation ∧ t.position.line = 1 + before.count '\n' + n := by
  generalize hentries : ts.map Except.ok = entries at h
  induction h generalizing ts n with
  | done before =>
      obtain ⟨t, rfl, ht⟩ := List.map_eq_singleton_iff.1 hentries
      cases ht
      cases n <;> simp [Text.AnchoredAt, Text.lines, hasAnchor]
  | @blank before cs c entries hc h ih =>
      have hnewline : c ≠ '\n' := fun heq => absurd (heq ▸ hc) (by decide)
      have hskip (row : Row) : Grid.hasAnchor false ([c] ++ row) = Grid.hasAnchor false row := by
        refine Grid.hasAnchor_append (fun x hx hmark => ?_) row
        rw [List.mem_singleton.1 hx] at hmark
        rcases hmark with rfl | rfl
        · cases hc
        · cases hc
      rw [show c :: cs = [c] ++ cs from rfl, Text.anchoredAt_append (by simpa using hnewline.symm) hskip,
        ih hplain n hentries]
      simp [hnewline]
  | @token before lexeme rest kind entries hlexeme h ih =>
      obtain ⟨t, ts, rfl, ht, hts⟩ := List.map_eq_cons_iff.1 hentries
      cases ht
      obtain ⟨hkind, hplain⟩ := List.forall_mem_cons.1 hplain
      have hrest k := ih hplain k hts
      cases htrivia : kind.isTrivia with
      | false =>
          obtain ⟨hline, hskip⟩ := hlexeme.spells.passes_over htrivia
          rw [Text.anchoredAt_append hline hskip, hrest, List.count_append, List.count_eq_zero.2 hline]
          have hother : kind ≠ .foundation := by rintro rfl; cases htrivia
          simp [hother]
      | true =>
          obtain ⟨rfl, rfl⟩ | ⟨rfl, rfl⟩ | ⟨line, rfl⟩ := hlexeme.spells.of_trivia htrivia
          · rw [List.singleton_append, Text.anchoredAt_newline]
            simp only [hrest, List.exists_mem_cons_iff, reduceCtorEq, false_and, false_or]
            constructor
            · rintro ⟨k, rfl, t, ht, hfoundation, hline⟩
              exact ⟨t, ht, hfoundation, by simp at hline; omega⟩
            · rintro ⟨t, ht, hfoundation, hline⟩
              -- What follows stands on later lines.
              have hlater := Segments.line_le (hts ▸ h) ht
              simp only [List.count_append, List.count_singleton_self] at hlater ⊢
              exact ⟨n - 1, by omega, t, ht, hfoundation, by omega⟩
          · rw [List.singleton_append, Text.anchoredAt_foundation, hrest]
            simp [Position.behind, eq_comm]
          · exact absurd rfl (hkind line)
  | stray =>
      obtain ⟨t, ts, -, ht, -⟩ := List.map_eq_cons_iff.1 hentries
      cases ht
  | unclosed =>
      obtain ⟨t, ts, -, ht, -⟩ := List.map_eq_cons_iff.1 hentries
      cases ht

/-- In a text without faults and comments the grid has its foundation on the last line with a `#` among the tokens, and
none if there is no such token. Lines are counted from one, rows from zero. -/
theorem foundation_at_last_token {text : List Char} {ts : List Token} (hts : tokenize text = .ok ts)
    (hplain : ∀ t ∈ ts, ∀ line, t.kind ≠ .comment line) :
    (∀ r, (Grid.ofText text).foundation = some r ↔
      IsGreatest {line | ∃ t ∈ ts, t.kind = .foundation ∧ t.position.line = line} (r + 1)) ∧
    ((Grid.ofText text).foundation = none ↔ ∀ t ∈ ts, t.kind ≠ .foundation) := by
  have hanchored n := (tokenize_eq_ok_iff.1 hts).anchoredAt_iff hplain n
  simp only [List.count_nil, Nat.add_zero] at hanchored
  have hline {t : Token} (ht : t ∈ ts) : 1 ≤ t.position.line := by
    simpa using (tokenize_eq_ok_iff.1 hts).line_le ht
  refine ⟨fun r => ?_, ?_⟩
  · rw [Grid.foundation_eq_some_iff]
    refine and_congr ?_ ⟨fun hupper line hmem => ?_, fun hupper n hmem => ?_⟩
    · exact (hanchored r).trans (by rw [Nat.add_comm]; rfl)
    · obtain ⟨t, ht, hfoundation, rfl⟩ := hmem
      have hle := hupper ((hanchored (t.position.line - 1)).2 ⟨t, ht, hfoundation, by have := hline ht; omega⟩)
      omega
    · obtain ⟨t, ht, hfoundation, hn⟩ := (hanchored n).1 hmem
      have hle := hupper ⟨t, ht, hfoundation, rfl⟩
      omega
  · rw [Grid.foundation_eq_none_iff]
    constructor
    · intro hnone t ht hfoundation
      exact hnone (t.position.line - 1)
        ((hanchored _).2 ⟨t, ht, hfoundation, by have := hline ht; omega⟩)
    · intro hnone n hn
      obtain ⟨t, ht, hfoundation, -⟩ := (hanchored n).1 hn
      exact hnone t ht hfoundation

/-- `#`, then `"# "#`, then `b"#"`, whose `#` stands in quotes -/
def quotedAnchors : List Char := ['#', '\n', '"', '#', ' ', '"', '#', '\n', 'b', '"', '#', '"']

def quotedAnchorTokens : List Token :=
  [⟨.foundation, "#", ⟨1, 1⟩⟩, ⟨.newline, "\n", ⟨1, 2⟩⟩, ⟨.text "# ", "\"# \"", ⟨2, 1⟩⟩, ⟨.foundation, "#", ⟨2, 5⟩⟩,
    ⟨.newline, "\n", ⟨2, 6⟩⟩, ⟨.name "b", "b", ⟨3, 1⟩⟩, ⟨.text "#", "\"#\"", ⟨3, 2⟩⟩, ⟨.eof, "", ⟨3, 5⟩⟩]

theorem foundation_at_last_token_quoted :
    tokenize quotedAnchors = .ok quotedAnchorTokens ∧ (∀ t ∈ quotedAnchorTokens, ∀ line, t.kind ≠ .comment line) ∧
      (Grid.ofText quotedAnchors).foundation = some 1 ∧
      IsGreatest {line | ∃ t ∈ quotedAnchorTokens, t.kind = .foundation ∧ t.position.line = line} 2 := by
  have htokens : tokenize quotedAnchors = .ok quotedAnchorTokens := by cbv
  have hplain : ∀ t ∈ quotedAnchorTokens, ∀ line, t.kind ≠ .comment line := by simp [quotedAnchorTokens]
  have hfound : (Grid.ofText quotedAnchors).foundation = some 1 := by decide
  exact ⟨htokens, hplain, hfound, ((foundation_at_last_token htokens hplain).1 1).1 hfound⟩

end Token

end Cairn
