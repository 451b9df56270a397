import Cairn.Proofs.Lexing.Munch

/-!
# Tokens segment the text

A text is cut, from its beginning, into blanks, longest tokens, and places where there is none. There is one way to
do so, and it gives the tokens of the text, or its faults; if there are no faults then nothing of the text is lost.
-/

namespace Cairn

/-! ## Positions -/

/-- The position behind a text: lines are counted by line ends, columns by characters after the last of them. -/
def Position.behind (before : List Char) : Position :=
  ⟨1 + before.count '\n', 1 + (before.reverse.takeWhile (· != '\n')).length⟩

theorem Position.advance_start (before : List Char) : Position.start.advance before = Position.behind before := by
  induction before using List.reverseRecOn with
  | nil => rfl
  | append_singleton before c ih =>
      rw [Position.advance_append, ih]
      by_cases hc : c = '\n'
      · simp [Position.advance, Position.step, Position.behind, hc, Nat.add_assoc]
      · simp [Position.advance, Position.step, Position.behind, hc]
        omega

theorem Position.advance_behind (before cs : List Char) :
    (Position.behind before).advance cs = Position.behind (before ++ cs) := by
  rw [← Position.advance_start, ← Position.advance_append, Position.advance_start]

namespace Token

/-! ## Longest tokens -/

/-- `lexeme` is the longest token that `text` begins with, and is of this kind. -/
structure Longest (kind : Kind) (lexeme text : List Char) : Prop where
  spells : Spells kind lexeme
  begins : lexeme <+: text
  longest : ∀ kind' other, Spells kind' other → other <+: text → other.length ≤ lexeme.length

theorem Spells.exists_cons {kind : Kind} {lexeme : List Char} (h : Spells kind lexeme) :
    ∃ c tail, lexeme = c :: tail := by
  cases h with
  | symbol mark =>
      obtain ⟨c, hspelling, -⟩ | ⟨c, d, hspelling, -⟩ := mark.spelling_shape
      · exact ⟨c, [], hspelling⟩
      · exact ⟨c, [d], hspelling⟩
  | _ => exact ⟨_, _, rfl⟩

theorem munch_blank {c : Char} (hc : Text.isBlank c = true) (cs : List Char) :
    munch c cs = ⟨.error (.unexpectedCharacter c), 0⟩ := by
  simp only [Text.isBlank, Bool.or_eq_true, beq_iff_eq] at hc
  rcases hc with (rfl | rfl) | rfl
  · exact munchSymbol_of_none rfl cs
  · exact munchSymbol_of_none rfl cs
  · exact munchSymbol_of_none rfl cs

theorem Spells.head_not_blank {kind : Kind} {c : Char} {tail : List Char} (h : Spells kind (c :: tail)) :
    Text.isBlank c = false := by
  obtain ⟨found, hfound, -⟩ := munch_covers h []
  rw [← Bool.not_eq_true]
  intro hblank
  rw [munch_blank hblank] at hfound
  cases hfound

theorem longest_of_munch {c : Char} {cs : List Char} {kind : Kind} (h : (munch c cs).outcome = .ok kind) :
    ∃ tail rest, cs = tail ++ rest ∧ (munch c cs).extra = tail.length ∧ Longest kind (c :: tail) (c :: cs) := by
  obtain ⟨tail, rest, rfl, hextra, hspells⟩ := munch_takes h
  refine ⟨tail, rest, rfl, hextra, hspells, ⟨rest, rfl⟩, ?_⟩
  rintro kind' other hother ⟨more, hmore⟩
  obtain ⟨d, tail', rfl⟩ := hother.exists_cons
  obtain ⟨rfl, htail⟩ := List.cons.inj hmore
  obtain ⟨found, -, hlength, -⟩ := munch_covers hother more
  rw [show tail' ++ more = tail ++ rest from htail, hextra] at hlength
  simpa using hlength

theorem munch_of_longest {c : Char} {tail rest : List Char} {kind : Kind}
    (h : Longest kind (c :: tail) (c :: (tail ++ rest))) : munch c (tail ++ rest) = ⟨.ok kind, tail.length⟩ := by
  obtain ⟨found, hfound, hlength, hsame⟩ := munch_covers h.spells rest
  obtain ⟨tail', rest', hcs, hextra, hspells⟩ := munch_takes hfound
  have hle : (c :: tail').length ≤ (c :: tail).length := h.longest _ _ hspells ⟨rest', by rw [hcs]; rfl⟩
  have heq : (munch c (tail ++ rest)).extra = tail.length := by
    simp only [List.length_cons] at hle
    omega
  calc munch c (tail ++ rest)
      = ⟨(munch c (tail ++ rest)).outcome, (munch c (tail ++ rest)).extra⟩ := rfl
    _ = ⟨.ok kind, tail.length⟩ := by rw [hfound, heq, hsame heq]

theorem longest_of_munch_eq {c : Char} {tail rest : List Char} {kind : Kind}
    (h : munch c (tail ++ rest) = ⟨.ok kind, tail.length⟩) : Longest kind (c :: tail) (c :: (tail ++ rest)) := by
  obtain ⟨tail', rest', hcs, hextra, hlongest⟩ := longest_of_munch (congrArg Munch.outcome h)
  rw [h] at hextra
  obtain ⟨rfl, -⟩ := List.append_inj hcs hextra
  exact hlongest

theorem longest_newline (rest : List Char) : Longest .newline ['\n'] (['\n'] ++ rest) := longest_of_munch_eq rfl

/-! ## Segments -/

/-- The text `text`, behind the text `before`, is cut into entries: tokens, and faults where no token begins. -/
inductive Segments : (before text : List Char) → List (Except Diagnostic Token) → Prop where
  | done (before : List Char) : Segments before [] [.ok ⟨.eof, "", .behind before⟩]
  | blank {before cs : List Char} {c : Char} {entries : List (Except Diagnostic Token)}
      (hc : Text.isBlank c = true) (h : Segments (before ++ [c]) cs entries) : Segments before (c :: cs) entries
  | token {before lexeme rest : List Char} {kind : Kind} {entries : List (Except Diagnostic Token)}
      (hlexeme : Longest kind lexeme (lexeme ++ rest)) (h : Segments (before ++ lexeme) rest entries) :
      Segments before (lexeme ++ rest) (.ok ⟨kind, String.ofList lexeme, .behind before⟩ :: entries)
  | stray {before rest : List Char} {c : Char} {entries : List (Except Diagnostic Token)}
      (hc : Text.isBlank c = false) (hstarts : ∀ kind tail, ¬ Spells kind (c :: tail))
      (h : Segments (before ++ [c]) rest entries) :
      Segments before (c :: rest) (.error ⟨.unexpectedCharacter c, .behind before⟩ :: entries)
  | unclosed {before body rest : List Char} {entries : List (Except Diagnostic Token)}
      (hbody : ∀ c ∈ body, c ≠ '"' ∧ c ≠ '\n') (hrest : rest = [] ∨ rest.head? = some '\n')
      (h : Segments (before ++ '"' :: body) rest entries) :
      Segments before ('"' :: body ++ rest) (.error ⟨.unterminatedText, .behind before⟩ :: entries)

theorem segments_scan (before text : List Char) : Segments before text (scan (.behind before) text) := by
  generalize hposition : Position.behind before = position
  fun_induction scan position text generalizing before with
  | case1 position => exact hposition ▸ .done before
  | case2 position c cs hc ih =>
      refine .blank hc (ih _ ?_)
      rw [← hposition]
      exact (Position.advance_behind before [c]).symm
  | case3 position c cs hc m lexeme entry ih =>
      have hnext := ih (before ++ lexeme) (by rw [← hposition, Position.advance_behind])
      subst hposition
      cases houtcome : m.outcome with
      | ok kind =>
          obtain ⟨tail, rest, rfl, hextra, hlongest⟩ := longest_of_munch houtcome
          have hlexeme : lexeme = c :: tail := by simp [lexeme, m, hextra]
          have hrest : (tail ++ rest).drop m.extra = rest := by simp [m, hextra]
          simp only [entry, houtcome, hlexeme, hrest] at hnext ⊢
          exact .token hlongest hnext
      | error cause =>
          obtain ⟨rfl, rfl, body, rest, rfl, hbody, hrest, hextra⟩ | ⟨rfl, hextra, hstarts⟩ := munch_refuses houtcome
          · have hlexeme : lexeme = '"' :: body := by simp [lexeme, m, hextra]
            have hdrop : (body ++ rest).drop m.extra = rest := by simp [m, hextra]
            simp only [entry, houtcome, hlexeme, hdrop] at hnext ⊢
            exact .unclosed hbody hrest hnext
          · have hlexeme : lexeme = [c] := by simp [lexeme, m, hextra]
            have hdrop : cs.drop m.extra = cs := by simp [m, hextra]
            simp only [entry, houtcome, hlexeme, hdrop] at hnext ⊢
            exact .stray (by simpa using hc) hstarts hnext

theorem munch_of_starts_none {c : Char} (h : ∀ kind tail, ¬ Spells kind (c :: tail)) (cs : List Char) :
    munch c cs = ⟨.error (.unexpectedCharacter c), 0⟩ := by
  cases hm : (munch c cs).outcome with
  | ok kind =>
      obtain ⟨tail, -, -, -, hspells⟩ := munch_takes hm
      exact (h _ _ hspells).elim
  | error cause =>
      obtain ⟨rfl, -, -⟩ | ⟨rfl, hextra, -⟩ := munch_refuses hm
      · exact (h _ _ (@Spells.text [] (by simp))).elim
      · calc munch c cs
            = ⟨(munch c cs).outcome, (munch c cs).extra⟩ := rfl
          _ = ⟨.error (.unexpectedCharacter c), 0⟩ := by rw [hm, hextra]

theorem munch_of_unclosed {body rest : List Char} (hbody : ∀ c ∈ body, c ≠ '"' ∧ c ≠ '\n')
    (hrest : rest = [] ∨ rest.head? = some '\n') :
    munch '"' (body ++ rest) = ⟨.error .unterminatedText, body.length⟩ := by
  have hmunch : munch '"' (body ++ rest) = munchText (body ++ rest) := rfl
  rw [hmunch]
  rcases hrest with rfl | hhead
  · have hrun : (body ++ []).takeWhile (fun c => c != '"' && c != '\n') = body := by
      simpa using hbody
    simp only [munchText, hrun, List.drop_left]
  · obtain ⟨rest, rfl⟩ := List.head?_eq_some_iff.1 hhead
    have hrun : (body ++ '\n' :: rest).takeWhile (fun c => c != '"' && c != '\n') = body :=
      takeWhile_stops (by simpa using hbody) (by decide)
    simp only [munchText, hrun, List.drop_left]
    rfl

/-- A text is cut in one way. -/
theorem Segments.eq_scan {before text : List Char} {entries : List (Except Diagnostic Token)}
    (h : Segments before text entries) : entries = scan (.behind before) text := by
  induction h with
  | done before => rw [scan]
  | @blank before cs c entries hc _ ih =>
      rw [scan, if_pos hc, ih, ← Position.advance_behind]
      rfl
  | @token before lexeme rest kind entries hlexeme _ ih =>
      obtain ⟨c, tail, rfl⟩ := hlexeme.spells.exists_cons
      have hc := hlexeme.spells.head_not_blank
      rw [List.cons_append] at hlexeme ⊢
      rw [scan, if_neg (by simp [hc]), ih]
      simp [munch_of_longest hlexeme, Position.advance_behind]
  | @stray before rest c entries hc hstarts _ ih =>
      rw [scan, if_neg (by simp [hc]), ih]
      simp [munch_of_starts_none hstarts, Position.advance_behind]
  | @unclosed before body rest entries hbody hrest _ ih =>
      rw [List.cons_append, scan, if_neg (by decide), ih]
      simp [munch_of_unclosed hbody hrest, Position.advance_behind]

theorem segments_iff {text : List Char} {entries : List (Except Diagnostic Token)} :
    Segments [] text entries ↔ entries = scan .start text :=
  ⟨Segments.eq_scan, fun h => h ▸ segments_scan [] text⟩

/-! ## Tokens and faults -/

theorem faults_map_ok (ts : List Token) : faults (ts.map .ok) = [] := by
  simp [faults]

theorem tokens_map_ok (ts : List Token) : tokens (ts.map .ok) = ts := by
  rw [tokens, List.filterMap_map]
  exact List.filterMap_some

theorem map_ok_tokens {entries : List (Except Diagnostic Token)} (h : faults entries = []) :
    entries = (tokens entries).map .ok := by
  induction entries with
  | nil => rfl
  | cons entry entries ih =>
      cases entry with
      | ok t => simpa [tokens] using ih (by simpa [faults] using h)
      | error d => simp [faults] at h

theorem tokenize_eq_ok_iff {text : List Char} {ts : List Token} :
    tokenize text = .ok ts ↔ Segments [] text (ts.map .ok) := by
  rw [segments_iff]
  unfold tokenize
  constructor
  · intro h
    simp only at h
    split at h
    next hnone =>
      cases h
      exact (map_ok_tokens hnone).symm
    next => cases h
  · intro h
    simp only [← h, faults_map_ok, tokens_map_ok]

theorem tokenize_eq_error_iff {text : List Char} {ds : List Diagnostic} :
    tokenize text = .error ds ↔ ds ≠ [] ∧ ∃ entries, Segments [] text entries ∧ faults entries = ds := by
  simp only [segments_iff, exists_eq_left]
  unfold tokenize
  simp only
  split
  next hnone => simp [hnone, eq_comm]
  next ds' hsome =>
    constructor
    · intro h
      cases h
      exact ⟨hsome, rfl⟩
    · rintro ⟨-, rfl⟩
      rfl

theorem Segments.ne_nil {before text : List Char} {entries : List (Except Diagnostic Token)}
    (h : Segments before text entries) : entries ≠ [] := by
  induction h with
  | blank _ _ ih => exact ih
  | _ => simp

/-- A token is spelled by its lexeme, or is the end. -/
theorem Segments.spells_of_mem {before text : List Char} {entries : List (Except Diagnostic Token)}
    (h : Segments before text entries) {t : Token} (ht : t ∈ tokens entries) :
    t.kind = .eof ∨ Spells t.kind t.lexeme.toList := by
  induction h with
  | done before =>
      obtain rfl : t = ⟨.eof, "", .behind before⟩ := by simpa [tokens] using ht
      exact .inl rfl
  | blank _ _ ih => exact ih ht
  | token hlexeme _ ih =>
      simp only [tokens, List.filterMap_cons, List.mem_cons] at ht
      rcases ht with rfl | ht
      · exact .inr (by simpa using hlexeme.spells)
      · exact ih ht
  | stray _ _ _ ih => exact ih (by simpa [tokens] using ht)
  | unclosed _ _ _ ih => exact ih (by simpa [tokens] using ht)

/-- A text that is one token. -/
theorem tokens_scan_one {c : Char} {cs : List Char} {kind : Kind} (hc : Text.isBlank c = false)
    (h : munch c cs = ⟨.ok kind, cs.length⟩) :
    tokens (scan .start (c :: cs)) =
      [⟨kind, String.ofList (c :: cs), .start⟩, ⟨.eof, "", Position.start.advance (c :: cs)⟩] := by
  rw [scan, if_neg (by simp [hc]), h]
  simp [scan, tokens]

/-- Blanks and lexemes by turns. -/
def interleaved (gaps : List (List Char)) (ts : List Token) : List Char :=
  (List.zipWith (fun gap t => gap ++ t.lexeme.toList) gaps ts).flatten

theorem Segments.loses_only_blanks {before text : List Char} {ts : List Token} (h : Segments before text (ts.map .ok)) :
    ∃ gaps, gaps.length = ts.length ∧ (∀ gap ∈ gaps, ∀ c ∈ gap, Text.isBlank c = true) ∧
      text = interleaved gaps ts := by
  generalize hentries : ts.map Except.ok = entries at h
  induction h generalizing ts with
  | done before =>
      obtain ⟨t, rfl, ht⟩ := List.map_eq_singleton_iff.1 hentries
      cases ht
      exact ⟨[[]], rfl, by simp, rfl⟩
  | @blank before cs c entries hc h ih =>
      obtain ⟨gaps, hlength, hgaps, rfl⟩ := ih hentries
      have hne := h.ne_nil
      subst hentries
      obtain ⟨t, ts, rfl⟩ := List.exists_cons_of_ne_nil (by simpa using hne)
      obtain ⟨gap, gaps, rfl⟩ := List.exists_cons_of_length_eq_add_one hlength
      refine ⟨(c :: gap) :: gaps, hlength, ?_, by simp [interleaved]⟩
      simpa [hc] using hgaps
  | @token before lexeme rest kind entries hlexeme h ih =>
      obtain ⟨t, ts, rfl, ht, hts⟩ := List.map_eq_cons_iff.1 hentries
      cases ht
      obtain ⟨gaps, hlength, hgaps, rfl⟩ := ih hts
      exact ⟨[] :: gaps, by simp [hlength], by simpa using hgaps, by simp [interleaved]⟩
  | stray =>
      obtain ⟨t, ts, -, ht, -⟩ := List.map_eq_cons_iff.1 hentries
      cases ht
  | unclosed =>
      obtain ⟨t, ts, -, ht, -⟩ := List.map_eq_cons_iff.1 hentries
      cases ht

/-- The tokens of a text are its one segmentation into longest tokens, which loses nothing but blanks; there are faults
just where a character begins no token or a quote is not closed on its line. -/
theorem tokenize_segments (text : List Char) :
    (∀ ts, tokenize text = .ok ts ↔ Segments [] text (ts.map .ok)) ∧
    (∀ ds, tokenize text = .error ds ↔ ds ≠ [] ∧ ∃ entries, Segments [] text entries ∧ faults entries = ds) ∧
    ∀ ts, tokenize text = .ok ts →
      ∃ gaps, gaps.length = ts.length ∧ (∀ gap ∈ gaps, ∀ c ∈ gap, Text.isBlank c = true) ∧
        text = interleaved gaps ts :=
  ⟨fun _ => tokenize_eq_ok_iff, fun _ => tokenize_eq_error_iff, fun _ h => (tokenize_eq_ok_iff.1 h).loses_only_blanks⟩

/-- `a<= "b"` -/
def comparison : List Char := ['a', '<', '=', ' ', '"', 'b', '"']

def comparisonTokens : List Token :=
  [⟨.name "a", "a", ⟨1, 1⟩⟩, ⟨.symbol .ltEq, "<=", ⟨1, 2⟩⟩, ⟨.text "b", "\"b\"", ⟨1, 5⟩⟩, ⟨.eof, "", ⟨1, 8⟩⟩]

theorem tokenize_segments_comparison :
    tokenize comparison = .ok comparisonTokens ∧
      ∃ gaps, gaps.length = 4 ∧ (∀ gap ∈ gaps, ∀ c ∈ gap, Text.isBlank c = true) ∧
        comparison = interleaved gaps comparisonTokens := by
  have htokens : tokenize comparison = .ok comparisonTokens := by cbv
  exact ⟨htokens, (tokenize_segments comparison).2.2 _ htokens⟩

end Token

end Cairn
