import Cairn.Proofs.Layout.Moved
import Cairn.Proofs.Layout.Separation
import Cairn.Proofs.Lexing.Places

/-!
# Text is cut line by line

No token reaches over a line end, and no fault does: what a line is cut into depends on nothing below it, and the end of
the text ends a token just as a line end would. So two texts with a line end between them are cut as each of them is
alone, the second one further down.
-/

namespace Cairn

open Located (relocate)

/-! ## Some lines further down -/

/-- The same column, `n` lines further down. -/
def Position.lower (n : Nat) (p : Position) : Position := ⟨p.line + n, p.column⟩

namespace Position

theorem step_lower (n : Nat) (p : Position) (c : Char) : (p.lower n).step c = (p.step c).lower n := by
  unfold step
  split
  · simp only [lower, Nat.add_right_comm]
  · rfl

theorem advance_lower (n : Nat) (p : Position) (cs : List Char) : (p.lower n).advance cs = (p.advance cs).lower n := by
  induction cs generalizing p with
  | nil => rfl
  | cons c cs ih =>
      change ((p.lower n).step c).advance cs = _
      rw [step_lower, ih]
      rfl

theorem behind_newline (before : List Char) : behind (before ++ ['\n']) = start.lower (before.count '\n' + 1) := by
  simp [behind, lower, start]

end Position

namespace Token

instance : Located (Except Diagnostic Token) where
  relocate f
    | .ok t => .ok (relocate f t)
    | .error d => .error (relocate f d)

section

variable (f : Position → Position)

theorem faults_relocate (entries : List (Except Diagnostic Token)) :
    faults (relocate f entries) = relocate f (faults entries) := by
  induction entries with
  | nil => rfl
  | cons entry rest ih =>
      cases entry with
      | ok t => exact ih
      | error d => exact congrArg (List.cons (relocate f d)) ih

theorem tokens_relocate (entries : List (Except Diagnostic Token)) :
    tokens (relocate f entries) = relocate f (tokens entries) := by
  induction entries with
  | nil => rfl
  | cons entry rest ih =>
      cases entry with
      | ok t => exact congrArg (List.cons (relocate f t)) ih
      | error d => exact ih

end

/-- What a text is cut into does not depend on the line it begins on. -/
theorem scan_lower (n : Nat) (p : Position) (cs : List Char) :
    scan (p.lower n) cs = relocate (Position.lower n) (scan p cs) := by
  fun_induction scan p cs with
  | case1 p =>
      rw [scan]
      rfl
  | case2 p c cs hblank ih =>
      rw [scan, if_pos hblank, p.step_lower, ih]
  | case3 p c cs hblank m lexeme entry ih =>
      rw [scan, if_neg hblank]
      refine congrArg₂ List.cons ?_ ((congrArg (scan · _) (p.advance_lower n lexeme)).trans ih)
      simp only [entry, m, lexeme]
      cases (munch c cs).outcome <;> rfl

/-! ## Tokens and line ends -/

/-- A line end is a token, and is in no other one. -/
theorem Spells.newline_notMem {kind : Kind} {lexeme : List Char} (h : Spells kind lexeme) (hne : lexeme ≠ ['\n']) :
    '\n' ∉ lexeme := by
  obtain ⟨-, hone | ⟨line, hline, rfl⟩⟩ | ⟨body, hbody, rfl⟩ | hunbroken := h.shape
  · obtain ⟨c, rfl⟩ := List.length_eq_one_iff.1 hone
    simpa [eq_comm] using hne
  · simpa using fun hmem => hline _ hmem rfl
  · simpa using fun hmem => (hbody _ hmem).2 rfl
  · exact fun hmem => absurd (hunbroken _ hmem) (by decide)

/-- A token that is the longest one of its text is so, too, if more lines follow. -/
theorem Longest.append_newline {kind : Kind} {lexeme text : List Char} (h : Longest kind lexeme text) (b : List Char) :
    Longest kind lexeme (text ++ '\n' :: b) := by
  refine ⟨h.spells, h.begins.trans (List.prefix_append _ _), fun kind' other hother hbegins => ?_⟩
  obtain hinside | ⟨more, rfl⟩ := List.prefix_or_prefix_of_prefix hbegins (List.prefix_append text _)
  · exact h.longest _ _ hother hinside
  -- A token that begins with the whole text ends with it, or would reach over the line end.
  rw [List.prefix_append_right_inj] at hbegins
  cases more with
  | nil => exact h.longest _ _ hother (by simp)
  | cons d more =>
      obtain ⟨rfl, -⟩ := List.cons_prefix_cons.1 hbegins
      by_cases hnewline : text ++ '\n' :: more = ['\n']
      · obtain ⟨c, tail, rfl⟩ := h.spells.exists_cons
        simp [hnewline]
      · exact absurd (by simp) (hother.newline_notMem hnewline)

/-! ## Two texts with a line end between them -/

/-- The end of the first text becomes the line end, and all else stays. -/
theorem Segments.append_newline {before a b : List Char} {entries later : List (Except Diagnostic Token)}
    (h : Segments before a entries) (hlater : Segments (before ++ a ++ ['\n']) b later) :
    Segments before (a ++ '\n' :: b)
      (entries.dropLast ++ .ok ⟨.newline, "\n", .behind (before ++ a)⟩ :: later) := by
  induction h with
  | done before =>
      rw [List.append_nil] at hlater ⊢
      exact .token (longest_newline b) hlater
  | @blank before cs c entries hc h ih =>
      refine .blank hc ?_
      simpa using ih (by simpa using hlater)
  | @token before lexeme rest kind entries hlexeme h ih =>
      have hlonger := hlexeme.append_newline b
      rw [List.append_assoc] at hlonger ⊢
      rw [List.dropLast_cons_of_ne_nil h.ne_nil]
      refine .token hlonger ?_
      simpa using ih (by simpa using hlater)
  | @stray before rest c entries hc hstarts h ih =>
      rw [List.dropLast_cons_of_ne_nil h.ne_nil]
      refine .stray hc hstarts ?_
      simpa using ih (by simpa using hlater)
  | @unclosed before body rest entries hbody hrest h ih =>
      have hends : rest ++ '\n' :: b = [] ∨ (rest ++ '\n' :: b).head? = some '\n' := by
        rcases hrest with rfl | hhead
        · exact .inr rfl
        · exact .inr (by simp [hhead])
      rw [List.dropLast_cons_of_ne_nil h.ne_nil, List.append_assoc]
      refine .unclosed hbody hends ?_
      simpa using ih (by simpa using hlater)

theorem scan_append_newline (a b : List Char) :
    scan .start (a ++ '\n' :: b) =
      (scan .start a).dropLast ++
        .ok ⟨.newline, "\n", .behind a⟩ :: relocate (Position.lower (a.count '\n' + 1)) (scan .start b) := by
  rw [← scan_lower, ← Position.behind_newline]
  exact (Segments.eq_scan ((segments_scan [] a).append_newline (segments_scan (a ++ ['\n']) b))).symm

/-! ## Without the end of the text -/

variable {before text : List Char} {entries : List (Except Diagnostic Token)}

theorem Segments.tokens_dropLast (h : Segments before text entries) :
    tokens entries.dropLast = (tokens entries).filter (·.kind ≠ .eof) := by
  induction h with
  | done before => rfl
  | blank _ _ ih => exact ih
  | @token before lexeme rest kind entries hlexeme h ih =>
      rw [List.dropLast_cons_of_ne_nil h.ne_nil]
      simpa [tokens, hlexeme.spells.ne_eof] using ih
  | stray _ _ h ih =>
      rw [List.dropLast_cons_of_ne_nil h.ne_nil]
      exact ih
  | unclosed _ _ h ih =>
      rw [List.dropLast_cons_of_ne_nil h.ne_nil]
      exact ih

theorem Segments.faults_dropLast (h : Segments before text entries) : faults entries.dropLast = faults entries := by
  obtain ⟨front, position, rfl⟩ := h.ends
  simp [faults]

theorem faults_append_newline (a b : List Char) :
    faults (scan .start (a ++ '\n' :: b)) =
      faults (scan .start a) ++ relocate (Position.lower (Text.lines a).length) (faults (scan .start b)) := by
  have hfirst : Segments [] a (scan .start a) := segments_scan [] a
  rw [scan_append_newline, ← hfirst.faults_dropLast, ← faults_relocate, Text.length_lines]
  exact List.filterMap_append

theorem tokens_append_newline (a b : List Char) :
    tokens (scan .start (a ++ '\n' :: b)) =
      (tokens (scan .start a)).filter (·.kind ≠ .eof) ++
        ⟨.newline, "\n", .behind a⟩ :: relocate (Position.lower (Text.lines a).length) (tokens (scan .start b)) := by
  have hfirst : Segments [] a (scan .start a) := segments_scan [] a
  rw [scan_append_newline, ← hfirst.tokens_dropLast, ← tokens_relocate, Text.length_lines]
  exact List.filterMap_append

/-- Two texts with a line end between them have the tokens of the first without its end, the line end, and the tokens of
the second, as many lines further down as the first has; or, if there are any, the faults of both. -/
theorem lexing_is_line_local (a b : List Char) :
    (Text.lines a).length = a.count '\n' + 1 ∧
    tokenize (a ++ '\n' :: b) =
      match tokenize a, tokenize b with
      | .ok ts, .ok us =>
        .ok (ts.filter (·.kind ≠ .eof) ++
          ⟨.newline, "\n", .behind a⟩ :: relocate (Position.lower (Text.lines a).length) us)
      | .error ds, .ok _ => .error ds
      | .ok _, .error es => .error (relocate (Position.lower (Text.lines a).length) es)
      | .error ds, .error es => .error (ds ++ relocate (Position.lower (Text.lines a).length) es) := by
  refine ⟨Text.length_lines a, ?_⟩
  simp only [tokenize, faults_append_newline, tokens_append_newline]
  cases faults (scan .start a) with
  | nil =>
      cases faults (scan .start b) with
      | nil => rfl
      | cons e es => rfl
  | cons d ds =>
      cases faults (scan .start b) with
      | nil => exact congrArg Except.error (List.append_nil _)
      | cons e es => rfl

/-- A quote does not close the one on the line above. -/
example : tokenize ['"', 'a', '\n', '"'] = .error [⟨.unterminatedText, ⟨1, 1⟩⟩, ⟨.unterminatedText, ⟨2, 1⟩⟩] := by
  cbv

end Token

end Cairn
