import Cairn.Proofs.Layout.Programs
import Cairn.Proofs.Layout.Separation

/-!
# Layout is free

A text can be laid out anew: the same lexemes in the same order, with other layout between them. It is then cut into
the same tokens at other positions, and spells the same program or has the same faults.
-/

namespace Cairn

open Located (relocate)
open Program (significant)

namespace Token

/-! ## Texts laid out anew -/

/-- Blanks, line ends, `#` and whole comments. -/
inductive Mixture : List Char → Prop where
  | nil : Mixture []
  | blank {c : Char} {cs : List Char} (hc : Text.isBlank c = true) (h : Mixture cs) : Mixture (c :: cs)
  | newline {cs : List Char} (h : Mixture cs) : Mixture ('\n' :: cs)
  | foundation {cs : List Char} (h : Mixture cs) : Mixture ('#' :: cs)
  | comment {line cs : List Char} (hline : ∀ c ∈ line, c ≠ '\n') (h : Mixture cs) :
      Mixture ('/' :: '/' :: (line ++ '\n' :: cs))

/-- A mixture that begins with a blank, a line end or `#`. -/
structure Separator (cs : List Char) : Prop where
  mixture : Mixture cs
  begins : ∃ c ∈ cs.head?, parts c = true

/-- Lexemes with separators between them, and perhaps one behind the last. -/
inductive Laid : List (List Char) → List Char → Prop where
  | nil : Laid [] []
  | cons {lexeme gap rest : List Char} {lexemes : List (List Char)} (hgap : Separator gap ∨ gap = [] ∧ lexemes = [])
      (h : Laid lexemes rest) : Laid (lexeme :: lexemes) (lexeme ++ (gap ++ rest))

/-- Lexemes with separators between them, and perhaps one in front and one behind. -/
def Relaid (lexemes : List (List Char)) (text : List Char) : Prop :=
  ∃ before rest, (before = [] ∨ Separator before) ∧ Laid lexemes rest ∧ text = before ++ rest

/-- The tokens that are neither layout nor the end. -/
def words (ts : List Token) : List Token := ts.filter fun t => !t.kind.isTrivia && t.kind != .eof

/-! ## The tokens of a text laid out anew -/

/-- Takes every position to one and the same. -/
def nowhere (_ : Position) : Position := .start

theorem longest_comment {line : List Char} (hline : ∀ c ∈ line, c ≠ '\n') (rest : List Char) :
    Longest (.comment (String.ofList line)) ('/' :: '/' :: line) ('/' :: ('/' :: line ++ '\n' :: rest)) := by
  have hrun : ('/' :: line ++ '\n' :: rest).takeWhile (· != '\n') = '/' :: line :=
    takeWhile_stops (by simpa using hline) (by decide)
  refine longest_of_munch_eq ?_
  change munchComment _ = _
  simp only [munchComment, hrun]
  rfl

theorem longest_foundation (rest : List Char) : Longest .foundation ['#'] (['#'] ++ rest) := longest_of_munch_eq rfl

theorem significant_cons {t : Token} (ht : t.kind.isTrivia = false) (ts : List Token) :
    significant (t :: ts) = t :: significant ts := by
  simp [significant, ht]

theorem significant_cons_layout {t : Token} (ht : t.kind.isTrivia = true) (ts : List Token) :
    significant (t :: ts) = significant ts := by
  simp [significant, ht]

theorem Segments.layout {kind : Kind} {before lexeme rest : List Char} {ts : List Token}
    (hlexeme : Longest kind lexeme (lexeme ++ rest)) (hkind : kind.isTrivia = true)
    (h : Segments (before ++ lexeme) rest (ts.map .ok)) :
    ∃ ts', Segments before (lexeme ++ rest) (ts'.map .ok) ∧ significant ts' = significant ts :=
  ⟨⟨kind, String.ofList lexeme, .behind before⟩ :: ts, .token hlexeme h, significant_cons_layout hkind ts⟩

/-- A mixture adds tokens that the grammar does not see. -/
theorem Mixture.segments {mix : List Char} (h : Mixture mix) (before : List Char) {rest : List Char} {ts : List Token}
    (hrest : Segments (before ++ mix) rest (ts.map .ok)) :
    ∃ ts', Segments before (mix ++ rest) (ts'.map .ok) ∧ significant ts' = significant ts := by
  induction h generalizing before with
  | nil => exact ⟨ts, by simpa using hrest, rfl⟩
  | @blank c cs hc _ ih =>
      obtain ⟨ts', hts', hsame⟩ := ih (before ++ [c]) (by simpa using hrest)
      exact ⟨ts', .blank hc hts', hsame⟩
  | @newline cs _ ih =>
      obtain ⟨ts', hts', hsame⟩ := ih (before ++ ['\n']) (by simpa using hrest)
      obtain ⟨ts₁, hts₁, hsame₁⟩ := Segments.layout (longest_newline (cs ++ rest)) rfl hts'
      exact ⟨ts₁, hts₁, hsame₁.trans hsame⟩
  | @foundation cs _ ih =>
      obtain ⟨ts', hts', hsame⟩ := ih (before ++ ['#']) (by simpa using hrest)
      obtain ⟨ts₁, hts₁, hsame₁⟩ := Segments.layout (longest_foundation (cs ++ rest)) rfl hts'
      exact ⟨ts₁, hts₁, hsame₁.trans hsame⟩
  | @comment line cs hline _ ih =>
      -- the comment stops before its line end, which is a token of its own
      obtain ⟨ts₁, hts₁, hsame₁⟩ := ih (before ++ '/' :: '/' :: line ++ ['\n']) (by simpa using hrest)
      obtain ⟨ts₂, hts₂, hsame₂⟩ := Segments.layout (longest_newline (cs ++ rest)) rfl hts₁
      rw [← hsame₁, ← hsame₂]
      have htext : '/' :: '/' :: (line ++ '\n' :: cs) ++ rest = ('/' :: '/' :: line) ++ '\n' :: (cs ++ rest) := by simp
      rw [htext]
      exact Segments.layout (longest_comment hline _) rfl hts₂

/-- The tokens of a text that the grammar sees are its words, and the end. -/
theorem Segments.significant_eq {before text : List Char} {ts : List Token} (h : Segments before text (ts.map .ok)) :
    relocate nowhere (significant ts) = relocate nowhere (words ts) ++ [⟨.eof, "", .start⟩] ∧
      ∀ t ∈ words ts, Spells t.kind t.lexeme.toList ∧ t.kind.isTrivia = false := by
  generalize hentries : ts.map Except.ok = entries at h
  induction h generalizing ts with
  | done before =>
      obtain ⟨t, rfl, ht⟩ := List.map_eq_singleton_iff.1 hentries
      cases ht
      exact ⟨rfl, by simp [words]⟩
  | blank hc _ ih => exact ih hentries
  | @token before lexeme rest kind entries hlexeme _ ih =>
      obtain ⟨t, ts, rfl, ht, htail⟩ := List.map_eq_cons_iff.1 hentries
      cases ht
      obtain ⟨hsame, hwords⟩ := ih htail
      cases hkind : kind.isTrivia with
      | true =>
          have hskip : words (⟨kind, String.ofList lexeme, .behind before⟩ :: ts) = words ts := by simp [words, hkind]
          rw [significant_cons_layout hkind, hskip]
          exact ⟨hsame, hwords⟩
      | false =>
          have hkeep : words (⟨kind, String.ofList lexeme, .behind before⟩ :: ts) =
              ⟨kind, String.ofList lexeme, .behind before⟩ :: words ts := by
            simp [words, hkind, hlexeme.spells.ne_eof]
          rw [significant_cons hkind, hkeep]
          refine ⟨congrArg (List.cons _) hsame, List.forall_mem_cons.2 ⟨⟨?_, hkind⟩, hwords⟩⟩
          simpa using hlexeme.spells
  | stray =>
      obtain ⟨t, ts, -, ht, -⟩ := List.map_eq_cons_iff.1 hentries
      cases ht
  | unclosed =>
      obtain ⟨t, ts, -, ht, -⟩ := List.map_eq_cons_iff.1 hentries
      cases ht

theorem Laid.head_parts {lexemes : List (List Char)} {gap rest : List Char} (h : Laid lexemes rest)
    (hgap : Separator gap ∨ gap = [] ∧ lexemes = []) : ∀ c ∈ (gap ++ rest).head?, parts c = true := by
  obtain hgap | ⟨rfl, rfl⟩ := hgap
  · obtain ⟨d, hd, hparts⟩ := hgap.begins
    obtain ⟨more, rfl⟩ := List.head?_eq_some_iff.1 hd
    rintro c hc
    cases hc
    exact hparts
  · cases h
    simp

/-- Lexemes with separators between them are cut into the tokens they are lexemes of. -/
theorem Laid.segments {lexemes : List (List Char)} {text : List Char} (h : Laid lexemes text) {ts : List Token}
    (hts : ts.map (·.lexeme.toList) = lexemes)
    (hwords : ∀ t ∈ ts, Spells t.kind t.lexeme.toList ∧ t.kind.isTrivia = false) (before : List Char) :
    ∃ ts', Segments before text (ts'.map .ok) ∧
      relocate nowhere (significant ts') = relocate nowhere ts ++ [⟨.eof, "", .start⟩] := by
  induction h generalizing ts before with
  | nil =>
      rw [List.map_eq_nil_iff.1 hts]
      exact ⟨[⟨.eof, "", .behind before⟩], .done before, rfl⟩
  | @cons lexeme gap rest lexemes hgap h ih =>
      obtain ⟨t, ts, rfl, rfl, htail⟩ := List.map_eq_cons_iff.1 hts
      obtain ⟨⟨hspells, hkind⟩, hwords⟩ := List.forall_mem_cons.1 hwords
      obtain ⟨ts₁, hts₁, hsame₁⟩ := ih htail hwords (before ++ t.lexeme.toList ++ gap)
      have hmixture : Mixture gap := by
        obtain hgap | ⟨rfl, -⟩ := hgap
        · exact hgap.mixture
        · exact .nil
      obtain ⟨ts₂, hts₂, hsame₂⟩ := hmixture.segments (before ++ t.lexeme.toList) hts₁
      have hlongest := hspells.longest_before hkind (h.head_parts hgap)
      refine ⟨{ t with position := .behind before } :: ts₂, by simpa using Segments.token hlongest hts₂, ?_⟩
      rw [significant_cons (t := { t with position := .behind before }) hkind, hsame₂]
      exact congrArg (List.cons _) hsame₁

theorem Relaid.segments {text : List Char} {ts : List Token} (h : Relaid (ts.map (·.lexeme.toList)) text)
    (hwords : ∀ t ∈ ts, Spells t.kind t.lexeme.toList ∧ t.kind.isTrivia = false) :
    ∃ ts', Segments [] text (ts'.map .ok) ∧
      relocate nowhere (significant ts') = relocate nowhere ts ++ [⟨.eof, "", .start⟩] := by
  obtain ⟨before, rest, hbefore, hlaid, rfl⟩ := h
  have hmixture : Mixture before := by
    obtain rfl | hbefore := hbefore
    · exact .nil
    · exact hbefore.mixture
  obtain ⟨ts₁, hts₁, hsame₁⟩ := hlaid.segments rfl hwords before
  obtain ⟨ts₂, hts₂, hsame₂⟩ := hmixture.segments [] hts₁
  exact ⟨ts₂, hts₂, by rw [hsame₂, hsame₁]⟩

end Token

/-! ## What is parsed -/

namespace Program

/-- The same program at other positions, or faults with the same codes and messages. -/
inductive Agree : Except (List Diagnostic) Program → Except (List Diagnostic) Program → Prop where
  | programs {p p' : Program} (h : relocate Token.nowhere p = relocate Token.nowhere p') : Agree (.ok p) (.ok p')
  | faults {ds ds' : List Diagnostic}
      (h : ds.map (fun d => (d.cause.code, d.message)) = ds'.map fun d => (d.cause.code, d.message)) :
      Agree (.error ds) (.error ds')

theorem message_relocate {f : Position → Position} {d : Diagnostic} (h : d.cause.phase = .syntactic) :
    (relocate f d).message = d.message := by
  obtain ⟨cause, position⟩ := d
  cases cause with
  | unterminatedText => cases h
  | missingForm form found => cases form <;> rfl
  | missingWord word found => cases word <;> rfl
  | invalidOperand side operator => cases side <;> rfl
  | _ => rfl

theorem reports_relocate {f : Position → Position} {ds : List Diagnostic} (h : ∀ d ∈ ds, d.cause.phase = .syntactic) :
    (relocate f ds).map (fun d => (d.cause.code, d.message)) = ds.map fun d => (d.cause.code, d.message) := by
  refine List.map_map.trans (List.map_congr_left fun d hd => ?_)
  exact congrArg (Prod.mk d.cause.code) (message_relocate (h d hd))

/-- Tokens that the grammar sees alike, but for positions, are parsed alike. -/
theorem parse_agree {ts ts' : List Token} (hts : significant ts ≠ [])
    (h : relocate Token.nowhere (significant ts) = relocate Token.nowhere (significant ts')) :
    Agree (parse ts) (parse ts') := by
  have hts' : significant ts' ≠ [] := by
    intro hnil
    rw [hnil] at h
    exact hts (List.map_eq_nil_iff.1 h)
  have hparse : relocate Token.nowhere (parse ts) = relocate Token.nowhere (parse ts') := by
    rw [← parse_relocate hts, ← parse_relocate hts', parse, parse, ← start_significant (relocate _ ts),
      ← start_significant (relocate _ ts'), significant_relocate, significant_relocate, h]
  cases hok : parse ts with
  | ok p =>
      cases hok' : parse ts' with
      | ok p' =>
          rw [hok, hok'] at hparse
          exact .programs (Except.ok.inj hparse)
      | error ds' =>
          rw [hok, hok'] at hparse
          cases hparse
  | error ds =>
      cases hok' : parse ts' with
      | ok p' =>
          rw [hok, hok'] at hparse
          cases hparse
      | error ds' =>
          rw [hok, hok'] at hparse
          refine .faults ?_
          rw [← reports_relocate (parse_syntactic hok), Except.error.inj hparse,
            reports_relocate (parse_syntactic hok')]

end Program

open Token (tokenize words Relaid)

/-- A text laid out anew spells the same program, or has the same faults. -/
theorem layout_is_free {text text' : List Char} {ts : List Token} (hts : tokenize text = .ok ts)
    (h : Relaid ((words ts).map (·.lexeme.toList)) text') :
    ∃ ts', tokenize text' = .ok ts' ∧ Program.Agree (Program.parse ts) (Program.parse ts') := by
  obtain ⟨hsame, hwords⟩ := (Token.tokenize_eq_ok_iff.1 hts).significant_eq
  obtain ⟨ts', hts', hsame'⟩ := h.segments hwords
  refine ⟨ts', Token.tokenize_eq_ok_iff.2 hts', Program.parse_agree ?_ (hsame.trans hsame'.symm)⟩
  intro hnil
  rw [hnil] at hsame
  exact List.append_ne_nil_of_right_ne_nil _ (List.cons_ne_nil _ _) hsame.symm

/-- `a#<= //x`, a line end, and `"b"` -/
def relaidComparison : List Char := ['a', '#', '<', '=', ' ', '/', '/', 'x', '\n', '"', 'b', '"']

theorem layout_is_free_comparison :
    tokenize Token.comparison = .ok Token.comparisonTokens ∧
      ∃ ts', tokenize relaidComparison = .ok ts' ∧
        Program.Agree (Program.parse Token.comparisonTokens) (Program.parse ts') := by
  have htokens : tokenize Token.comparison = .ok Token.comparisonTokens := by cbv
  have hwords : (words Token.comparisonTokens).map (·.lexeme.toList) = [['a'], ['<', '='], ['"', 'b', '"']] := by cbv
  have hmark : Token.Separator ['#'] := ⟨.foundation .nil, '#', rfl, rfl⟩
  have hcomment : Token.Separator [' ', '/', '/', 'x', '\n'] :=
    ⟨.blank rfl (@Token.Mixture.comment ['x'] [] (by simp) .nil), ' ', rfl, rfl⟩
  have hlaid : Token.Laid [['a'], ['<', '='], ['"', 'b', '"']] relaidComparison :=
    .cons (.inl hmark) (.cons (.inl hcomment) (.cons (.inr ⟨rfl, rfl⟩) .nil))
  exact ⟨htokens, layout_is_free htokens ⟨[], relaidComparison, .inl rfl, hwords ▸ hlaid, rfl⟩⟩

end Cairn
