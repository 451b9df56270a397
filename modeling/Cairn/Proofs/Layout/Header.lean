import Cairn.Program.Compile
import Cairn.Proofs.Grid.Twice
import Cairn.Proofs.Layout.Programs
import Cairn.Proofs.Layout.Resolved
import Cairn.Proofs.Lexing.Lines

/-!
# A header line

Where no line of a text has a `#` of its own, a line `#` put on top becomes the foundation. Nothing stands above it, so
nothing falls: the text loses the blanks at the ends of its lines and is read as it stands, one line further down.
-/

namespace Cairn

open Located (relocate)

/-! ## The fall -/

namespace Grid

/-- Nothing falls where nothing stands above the foundation. -/
theorem settle_of_foundation_zero {g : Grid} (h : g.foundation = some 0) : g.settle.1 = g := by
  obtain ⟨rows, width, foundation⟩ := g
  cases h
  obtain ⟨limit, hlimit⟩ : ∃ limit, max (rows.length * width) 1 = limit + 1 :=
    Nat.exists_eq_add_one_of_ne_zero (by omega)
  -- The first sweep goes over the rows above the foundation, finds none and is the last one.
  simp [settle, height, hlimit, settleRows, sweep]

end Grid

theorem lines_header (text : List Char) : Text.lines ('#' :: '\n' :: text) = ['#'] :: Text.lines text := by
  have hline : '\n' ∉ ['#'] := by simp
  exact Text.lines_append hline text

theorem trimLines_header (text : List Char) :
    Text.trimLines ('#' :: '\n' :: text) = '#' :: '\n' :: Text.trimLines text := by
  obtain ⟨line, rest, hlines⟩ := List.exists_cons_of_ne_nil (Text.lines_ne_nil text)
  simp only [Text.trimLines, lines_header, hlines]
  rfl

theorem preview_header {text : List Char} (h : Grid.foundationRow (Text.lines text) = none) :
    preview ('#' :: '\n' :: text) = '#' :: '\n' :: Text.trimLines text := by
  have hfoundation : (Grid.ofText ('#' :: '\n' :: text)).foundation = some 0 := by
    rw [Grid.foundation_ofText, lines_header]
    simp [Grid.foundationRow, h, Grid.hasAnchor]
  simp only [preview, fall, hfoundation, Grid.settle_of_foundation_zero hfoundation]
  rw [Grid.render_ofText, trimLines_header]

/-! ## One line further down -/

/-- The same column of the next line. -/
def Position.below (p : Position) : Position := ⟨p.line + 1, p.column⟩

namespace Token

/-- The tokens of a header line. -/
def header : List Token := [⟨.foundation, "#", ⟨1, 1⟩⟩, ⟨.newline, "\n", ⟨1, 2⟩⟩]

theorem scan_header (text : List Char) :
    scan .start ('#' :: '\n' :: text) = header.map .ok ++ relocate Position.below (scan .start text) := by
  have hline : scan .start ['#'] = [.ok ⟨.foundation, "#", ⟨1, 1⟩⟩, .ok ⟨.eof, "", ⟨1, 2⟩⟩] := by cbv
  have hscan := scan_append_newline ['#'] text
  rw [hline] at hscan
  exact hscan

theorem tokenize_header (text : List Char) :
    tokenize ('#' :: '\n' :: text) =
      match tokenize text with
      | .ok ts => .ok (header ++ relocate Position.below ts)
      | .error ds => .error (relocate Position.below ds) := by
  have hfaults : faults (scan .start ('#' :: '\n' :: text)) = relocate Position.below (faults (scan .start text)) := by
    rw [scan_header, ← faults_relocate]
    rfl
  have htokens : tokens (scan .start ('#' :: '\n' :: text)) =
      header ++ relocate Position.below (tokens (scan .start text)) := by
    rw [scan_header, ← tokens_relocate]
    rfl
  simp only [tokenize, hfaults, htokens]
  cases faults (scan .start text) with
  | nil => rfl
  | cons d ds => rfl

end Token

namespace Program

theorem parse_header {ts : List Token} (h : significant ts ≠ []) :
    parse (Token.header ++ relocate Position.below ts) = relocate Position.below (parse ts) := by
  rw [← parse_relocate h]
  rfl

theorem significant_ne_nil {text : List Char} {ts : List Token} (h : Token.tokenize text = .ok ts) :
    significant ts ≠ [] := by
  obtain ⟨front, position, rfl⟩ := Token.tokens_end h
  simp [significant, Token.Kind.isTrivia]

theorem read_header (text : List Char) :
    read ('#' :: '\n' :: text) = relocate Position.below (read text) := by
  unfold read
  rw [Token.tokenize_header]
  cases htokens : Token.tokenize text with
  | error ds => rfl
  | ok ts =>
      simp only [bind, Except.bind, parse_header (significant_ne_nil htokens)]
      cases parse ts with
      | error ds => rfl
      | ok p => exact congrArg Except.ok (resolve_relocate _ p)

end Program

/-- A text without a `#` of its own, below a line `#`, loses the blanks at the ends of its lines in the fall and nothing
else. It is then read as it would be without that line, one line further down, faults included. -/
theorem header_is_transparent (text : List Char) (h : Grid.foundationRow (Text.lines text) = none) :
    preview ('#' :: '\n' :: text) = '#' :: '\n' :: Text.trimLines text ∧
    compile ('#' :: '\n' :: text) =
      match Program.read (Text.trimLines text) with
      | .ok p => .ok ⟨relocate Position.below p, '#' :: '\n' :: Text.trimLines text⟩
      | .error ds => .error (ds.map fun d => { d with position := ⟨d.position.line + 1, d.position.column⟩ }) := by
  have hfall := preview_header h
  refine ⟨hfall, ?_⟩
  simp only [compile, hfall, Program.read_header]
  cases Program.read (Text.trimLines text) with
  | ok p => rfl
  | error ds => rfl

/-- `"#"`, a blank, and `b` on the next line -/
def quotedMark : List Char := ['"', '#', '"', ' ', '\n', 'b']

theorem header_is_transparent_quoted :
    Grid.foundationRow (Text.lines quotedMark) = none ∧
      preview ('#' :: '\n' :: quotedMark) = ['#', '\n', '"', '#', '"', '\n', 'b'] ∧
      compile ('#' :: '\n' :: quotedMark) =
        .ok ⟨[.expr (.text "#" ⟨2, 1⟩), .expr (.name "b" ⟨3, 1⟩)], ['#', '\n', '"', '#', '"', '\n', 'b']⟩ := by
  have hquoted : Grid.foundationRow (Text.lines quotedMark) = none := by decide
  have hread : Program.read (Text.trimLines quotedMark) =
      .ok [.expr (.text "#" ⟨1, 1⟩), .expr (.name "b" ⟨2, 1⟩)] := by cbv
  obtain ⟨hpreview, hcompile⟩ := header_is_transparent quotedMark hquoted
  refine ⟨hquoted, hpreview, ?_⟩
  rw [hcompile, hread]
  rfl

end Cairn
