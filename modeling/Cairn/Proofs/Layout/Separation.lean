import Cairn.Proofs.Lexing.Segmentation

/-!
# Layout keeps tokens apart

Apart from quoted text and comments, no token holds a blank, a line end or a `#`. So a token that is not layout ends
where one of these follows: it is the longest token there is, whatever comes after.
-/

namespace Cairn.Token

/-- Blanks, line ends and `#` keep apart the tokens on either side. -/
def parts (c : Char) : Bool := Text.isBlank c || c == '\n' || c == '#'

/-- Characters that stand in no token but quoted text and layout. -/
def breaks (c : Char) : Bool := parts c || c == '"'

theorem not_breaks_of_class {p : Char → Bool} {c : Char} (hc : p c = true)
    (h : [' ', '\t', '\r', '\n', '#', '"'].any p = false) : breaks c = false := by
  rw [← Bool.not_eq_true]
  intro hbreaks
  have hmem : c ∈ [' ', '\t', '\r', '\n', '#', '"'] := by
    simpa [breaks, parts, Text.isBlank, or_assoc] using hbreaks
  have hany := List.any_eq_true.2 ⟨c, hmem, hc⟩
  rw [h] at hany
  cases hany

theorem DecimalTail.unbroken {tail : List Char} (h : DecimalTail tail) : ∀ c ∈ tail, breaks c = false := by
  intro c hc
  rcases h.chars c hc with hdigit | hmem
  · exact not_breaks_of_class hdigit rfl
  · simp only [List.mem_cons, List.not_mem_nil, or_false] at hmem
    rcases hmem with rfl | rfl | rfl | rfl | rfl <;> decide

theorem Symbol.spelling_unbroken (mark : Symbol) : ∀ c ∈ mark.spelling.toList, breaks c = false := by
  have hnone : mark.spelling.toList.any breaks = false := by
    cases mark <;> rfl
  simpa using hnone

/-- Layout, quoted text, or a token without a break in it. -/
theorem Spells.shape {kind : Kind} {lexeme : List Char} (h : Spells kind lexeme) :
    (kind.isTrivia = true ∧ (lexeme.length = 1 ∨ ∃ line, (∀ c ∈ line, c ≠ '\n') ∧ lexeme = '/' :: '/' :: line)) ∨
      (∃ body, (∀ c ∈ body, c ≠ '"' ∧ c ≠ '\n') ∧ lexeme = '"' :: (body ++ ['"'])) ∨
      ∀ c ∈ lexeme, breaks c = false := by
  cases h with
  | newline => exact .inl ⟨rfl, .inl rfl⟩
  | foundation => exact .inl ⟨rfl, .inl rfl⟩
  | comment hline => exact .inl ⟨rfl, .inr ⟨_, hline, rfl⟩⟩
  | text hbody => exact .inr (.inl ⟨_, hbody, rfl⟩)
  | word hc htail =>
      refine .inr (.inr (List.forall_mem_cons.2 ⟨not_breaks_of_class hc rfl, fun c hc => ?_⟩))
      exact not_breaks_of_class (htail c hc) rfl
  | @hexadecimal x digits hx hdigits =>
      have hletter : breaks x = false := by rcases hx with rfl | rfl <;> decide
      refine .inr (.inr (List.forall_mem_cons.2 ⟨by decide, List.forall_mem_cons.2 ⟨hletter, fun c hc => ?_⟩⟩))
      exact not_breaks_of_class (hdigits.all c hc) rfl
  | @binary b digits hb hdigits =>
      have hletter : breaks b = false := by rcases hb with rfl | rfl <;> decide
      refine .inr (.inr (List.forall_mem_cons.2 ⟨by decide, List.forall_mem_cons.2 ⟨hletter, fun c hc => ?_⟩⟩))
      exact not_breaks_of_class (hdigits.all c hc) rfl
  | decimal hc htail =>
      exact .inr (.inr (List.forall_mem_cons.2 ⟨not_breaks_of_class hc rfl, htail.unbroken⟩))
  | symbol mark => exact .inr (.inr mark.spelling_unbroken)

theorem Spells.trivia_of_slashes {kind : Kind} {more : List Char} (h : Spells kind ('/' :: '/' :: more)) :
    kind.isTrivia = true := by
  generalize hlexeme : '/' :: '/' :: more = lexeme at h
  cases h with
  | comment hline => rfl
  | word hc htail => cases hlexeme; cases hc
  | decimal hc htail => cases hlexeme; cases hc
  | symbol mark =>
      obtain ⟨c, hspelling, -⟩ | ⟨c, d, hspelling, hcd⟩ := mark.spelling_shape
      · cases hlexeme.trans hspelling
      · cases hlexeme.trans hspelling
        cases hcd
  | _ => cases hlexeme

/-- Quoted text ends with its second quote. -/
theorem eq_of_quoted {body body' more : List Char} (hbody : ∀ c ∈ body, c ≠ '"' ∧ c ≠ '\n')
    (hbody' : ∀ c ∈ body', c ≠ '"' ∧ c ≠ '\n') (h : body ++ '"' :: more = body' ++ ['"']) : more = [] := by
  have hrun {run : List Char} (hrun : ∀ c ∈ run, c ≠ '"' ∧ c ≠ '\n') (rest : List Char) :
      (run ++ '"' :: rest).takeWhile (· != '"') = run :=
    takeWhile_stops (fun c hc => by simpa using (hrun c hc).1) (by decide)
  have heq : body = body' := by rw [← hrun hbody more, h, hrun hbody']
  rw [heq, List.append_cancel_left_eq] at h
  exact (List.cons.inj h).2

/-- Where a character follows that parts tokens, a token that is not layout ends. -/
theorem Spells.longest_before {kind : Kind} {lexeme rest : List Char} (h : Spells kind lexeme)
    (hkind : kind.isTrivia = false) (hrest : ∀ c ∈ rest.head?, parts c = true) :
    Longest kind lexeme (lexeme ++ rest) := by
  refine ⟨h, List.prefix_append _ _, fun kind' other hother hbegins => ?_⟩
  by_contra hlonger
  -- a longer token would go on behind `lexeme` with the character that parts
  obtain ⟨extra, rfl⟩ := List.prefix_of_prefix_length_le (List.prefix_append lexeme rest) hbegins (by omega)
  obtain ⟨c, tail, rfl⟩ := h.exists_cons
  obtain ⟨d, extra, rfl⟩ := List.exists_cons_of_ne_nil (l := extra) (by rintro rfl; simp at hlonger)
  obtain ⟨more, rfl⟩ := (List.prefix_append_right_inj _).1 hbegins
  have hd : parts d = true := hrest d rfl
  obtain ⟨-, hone | ⟨line, -, hline⟩⟩ | ⟨body, hbody, hquoted⟩ | hunbroken := hother.shape
  · simp at hone
  · obtain ⟨rfl, hline⟩ := List.cons.inj hline
    cases tail with
    | nil =>
        cases hline
        cases hd
    | cons c' tail =>
        cases hline
        rw [h.trivia_of_slashes] at hkind
        cases hkind
  · obtain ⟨rfl, hquoted⟩ := List.cons.inj hquoted
    obtain ⟨htrivia, -⟩ | ⟨body', hbody', hlexeme⟩ | hunbroken := h.shape
    · rw [htrivia] at hkind
      cases hkind
    · cases hlexeme
      have hend := eq_of_quoted hbody' hbody (by simpa using hquoted)
      cases hend
    · cases hunbroken '"' (by simp)
  · have hbreaks := hunbroken d (by simp)
    simp [breaks, hd] at hbreaks

end Cairn.Token
