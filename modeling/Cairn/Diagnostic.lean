import Cairn.Token.Basic

/-!
# Diagnostics

What can be wrong with a text before it runs: the cause, its code and wording, and its position in the
text after the fall.
-/

namespace Cairn

namespace Diagnostic

/-- The step of reading that found the fault. -/
inductive Phase where
  | lexical
  | syntactic
deriving DecidableEq, Repr

/-- The name of a phase. -/
def Phase.label : Phase → String
  | .lexical => "lexical"
  | .syntactic => "syntactic"

/-- What was needed where an expression or a pattern should have begun. -/
inductive Form where
  | expression
  | pattern
deriving DecidableEq, Repr

/-- What kind of word was needed. -/
inductive Word where
  | identifier
  | propertyName
deriving DecidableEq, Repr

/-- On which side of its operand `++` or `--` stands. -/
inductive Side where
  | before
  | after
deriving DecidableEq, Repr

/-- Why a text is refused. -/
inductive Cause where
  /-- A quote is not closed on its line. -/
  | unterminatedText
  /-- A character starts no token. -/
  | unexpectedCharacter (c : Char)
  /-- A token starts no expression, or no pattern. -/
  | missingForm (form : Form) (found : Token.Kind)
  /-- A word was needed; `found` is the text of the token in its place. -/
  | missingWord (word : Word) (found : String)
  /-- A minus sign in a pattern is not followed by a number; `found` is the text of the sign. -/
  | missingNumber (found : String)
  /-- One certain token was needed. -/
  | missingToken (needed found : Token.Kind)
  /-- The left side of an assignment cannot be assigned to. -/
  | invalidTarget (operator : String)
  /-- The operand of `++` or `--` cannot be assigned to. -/
  | invalidOperand (side : Side) (operator : String)
  /-- A positional argument follows a keyword argument. -/
  | lateArgument
deriving DecidableEq

namespace Cause

/-- The code of a cause. -/
def code : Cause → String
  | .unterminatedText => "L001"
  | .unexpectedCharacter _ => "L002"
  | .missingForm _ _ | .missingWord _ _ | .missingNumber _ => "P001"
  | .missingToken _ _ => "P002"
  | .invalidTarget _ => "P003"
  | .invalidOperand _ _ => "P004"
  | .lateArgument => "P005"

/-- The phase that finds a cause. -/
def phase : Cause → Phase
  | .unterminatedText | .unexpectedCharacter _ => .lexical
  | _ => .syntactic

end Cause

end Diagnostic

/-- A fault in a text. -/
structure Diagnostic where
  cause : Diagnostic.Cause
  position : Position
deriving DecidableEq

namespace Diagnostic

/-- `text` between backquotes. -/
def ticked (text : String) : String :=
  "`" ++ text ++ "`"

/-- The wording of a diagnostic. -/
def message (d : Diagnostic) : String :=
  match d.cause with
  | .unterminatedText => "unterminated string literal starting on line " ++ toString d.position.line
  | .unexpectedCharacter c => "unexpected character " ++ ticked (String.singleton c)
  | .missingForm .expression found => "expected expression, found " ++ found.describe
  | .missingForm .pattern found => "expected pattern, found " ++ found.describe
  | .missingWord .identifier found => "expected identifier, found " ++ ticked found
  | .missingWord .propertyName found => "expected property name, found " ++ ticked found
  | .missingNumber found => "expected number after `-` in pattern, found " ++ ticked found
  | .missingToken needed found => "expected " ++ needed.describe ++ ", found " ++ found.describe
  | .invalidTarget operator => "invalid assignment target before " ++ ticked operator
  | .invalidOperand .before operator => "invalid operand for prefix " ++ ticked operator
  | .invalidOperand .after operator => "invalid operand for postfix " ++ ticked operator
  | .lateArgument => "positional argument after keyword argument"

/-- A diagnostic on one line: code, position, wording. -/
def display (d : Diagnostic) : String :=
  "[" ++ d.cause.code ++ "] " ++ toString d.position.line ++ ":" ++ toString d.position.column ++ ": "
    ++ d.message

end Diagnostic

end Cairn
