import Cairn.Grid.Settle
import Cairn.Program.Parser
import Cairn.Program.Resolve
import Cairn.Token.Lexer

/-!
# From text to a program that can run

The text falls, its tokens are read, the program is parsed and its patterns are resolved.
-/

namespace Cairn

/-- Reads a text as it stands. -/
def Program.read (text : List Char) : Except (List Diagnostic) Program := do
  let tokens ← Token.tokenize text
  let program ← Program.parse tokens
  return program.resolve

theorem Program.read_eq_error_iff {text : List Char} {ds : List Diagnostic} :
    read text = .error ds ↔
      Token.tokenize text = .error ds ∨ ∃ ts, Token.tokenize text = .ok ts ∧ parse ts = .error ds := by
  unfold read
  cases Token.tokenize text with
  | error ds' => simp [bind, Except.bind]
  | ok ts => cases h : parse ts <;> simp [bind, Except.bind, pure, Except.pure, h]

theorem Program.read_eq_ok_iff {text : List Char} {program : Program} :
    read text = .ok program ↔
      ∃ ts parsed, Token.tokenize text = .ok ts ∧ parse ts = .ok parsed ∧ parsed.resolve = program := by
  unfold read
  cases Token.tokenize text with
  | error ds => simp [bind, Except.bind]
  | ok ts => cases h : parse ts <;> simp [bind, Except.bind, pure, Except.pure, h]

/-- A program and the fallen text that its positions refer to. -/
@[ext]
structure Compiled where
  program : Program
  fallen : List Char

/-- The text after its fall. -/
def preview (text : List Char) : List Char := (fall text).1

/-- Lets the text fall and reads what is left. -/
def compile (text : List Char) : Except (List Diagnostic) Compiled := do
  let fallen := preview text
  let program ← Program.read fallen
  return { program, fallen }

theorem compile_eq_error_iff {text : List Char} {ds : List Diagnostic} :
    compile text = .error ds ↔ Program.read (preview text) = .error ds := by
  unfold compile
  cases h : Program.read (preview text) <;> simp [bind, Except.bind, pure, Except.pure, h]

theorem compile_eq_ok_iff {text : List Char} {compiled : Compiled} :
    compile text = .ok compiled ↔
      Program.read (preview text) = .ok compiled.program ∧ compiled.fallen = preview text := by
  unfold compile
  cases h : Program.read (preview text) <;>
    simp [bind, Except.bind, pure, Except.pure, h, Compiled.ext_iff, eq_comm]

end Cairn
