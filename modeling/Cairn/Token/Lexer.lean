import Cairn.Diagnostic
import Cairn.Number.Reader
import Cairn.Text.Class

/-!
# From text to tokens

`munch` says what the text at hand begins with, without regard to where that is; `scan` goes through the
whole text, skips the blanks and keeps the positions. A fault takes up its characters and the scan goes
on, so that all faults are found.
-/

namespace Cairn.Token

/-- What a text begins with: a token or a fault, and how many characters after the first belong to it. -/
structure Munch where
  outcome : Except Diagnostic.Cause Kind
  extra : Nat

/-! ## Numbers -/

/-- Is `c` a digit in `radix`? -/
def isDigitIn (radix : Nat) (c : Char) : Bool :=
  (Number.digit? radix c).isSome

/-- The radix that the letter after a leading zero announces. -/
def radix? (letter : Char) : Option Nat :=
  if letter == 'x' || letter == 'X' then some 16
  else if letter == 'b' || letter == 'B' then some 2
  else none

/-- The radix of a number that begins with `c`, if letter and first digit follow. -/
def announcedRadix? : (c : Char) → List Char → Option Nat
  | '0', letter :: digit :: _ => (radix? letter).filter (isDigitIn · digit)
  | _, _ => none

/-- The value of digits in `radix`, rounded after every digit. -/
def accumulate (radix : Nat) (digits : List Char) : Float :=
  digits.foldl
    (fun value c => value * Float.ofNat radix + Float.ofNat ((Number.digit? radix c).getD 0)) 0.0

/-- The length of a fraction: a point and at least one digit. -/
def fractionLength : List Char → Nat
  | '.' :: cs =>
    match (cs.takeWhile Char.isDigit).length with
    | 0 => 0
    | n + 1 => n + 2
  | _ => 0

/-- The length of an exponent: `e`, an optional sign and at least one digit. -/
def exponentLength : List Char → Nat
  | e :: cs =>
    if e == 'e' || e == 'E' then
      let signLength := if cs.head? == some '+' || cs.head? == some '-' then 1 else 0
      match ((cs.drop signLength).takeWhile Char.isDigit).length with
      | 0 => 0
      | n + 1 => n + 2 + signLength
    else 0
  | [] => 0

/-- The length of the digits, the fraction and the exponent that follow a first digit. -/
def decimalLength (cs : List Char) : Nat :=
  let whole := (cs.takeWhile Char.isDigit).length
  let fraction := fractionLength (cs.drop whole)
  whole + fraction + exponentLength (cs.drop (whole + fraction))

/-- The number that begins with the digit `c`. -/
def munchNumber (c : Char) (cs : List Char) : Munch :=
  match announcedRadix? c cs with
  | some radix =>
    let digits := (cs.drop 1).takeWhile (isDigitIn radix)
    ⟨.ok (.number (accumulate radix digits)), digits.length + 1⟩
  | none =>
    let extra := decimalLength cs
    ⟨.ok (.number ((Number.read? (c :: cs.take extra)).getD 0.0)), extra⟩

/-! ## Words and quoted text -/

/-- A keyword, a literal word or a name. -/
def wordKind (word : String) : Kind :=
  match word with
  | "true" => .bool true
  | "false" => .bool false
  | "null" => .null
  | _ =>
    match Keyword.ofSpelling? word with
    | some k => .keyword k
    | none => .name word

/-- The word that begins with `c`. -/
def munchWord (c : Char) (cs : List Char) : Munch :=
  let tail := cs.takeWhile Text.continuesName
  ⟨.ok (wordKind (String.ofList (c :: tail))), tail.length⟩

/-- The text after a quote, up to the next one on the same line. Nothing in it is special. -/
def munchText (cs : List Char) : Munch :=
  let body := cs.takeWhile fun c => c != '"' && c != '\n'
  match cs.drop body.length with
  | '"' :: _ => ⟨.ok (.text (String.ofList body)), body.length + 1⟩
  | _ => ⟨.error .unterminatedText, body.length⟩

/-- The comment after a slash, up to the end of the line. -/
def munchComment (cs : List Char) : Munch :=
  let line := cs.takeWhile (· != '\n')
  ⟨.ok (.comment (String.ofList (line.drop 1))), line.length⟩

/-! ## The longest token -/

/-- A symbol, of two characters where possible. -/
def munchSymbol (c : Char) (cs : List Char) : Munch :=
  match cs.head?.bind (Symbol.ofPair? c) with
  | some mark => ⟨.ok (.symbol mark), 1⟩
  | none =>
    match Symbol.ofChar? c with
    | some mark => ⟨.ok (.symbol mark), 0⟩
    | none => ⟨.error (.unexpectedCharacter c), 0⟩

/-- What the text `c :: cs` begins with. -/
def munch (c : Char) (cs : List Char) : Munch :=
  if c == '\n' then ⟨.ok .newline, 0⟩
  else if c == '#' then ⟨.ok .foundation, 0⟩
  else if c == '"' then munchText cs
  else if c == '/' && cs.head? == some '/' then munchComment cs
  else if c.isDigit then munchNumber c cs
  else if Text.startsName c then munchWord c cs
  else munchSymbol c cs

/-! ## The whole text -/

/-- Every token and every fault of a text, in order; the end of the text comes last. -/
def scan (position : Position) : List Char → List (Except Diagnostic Token)
  | [] => [.ok ⟨.eof, "", position⟩]
  | c :: cs =>
    if Text.isBlank c then scan (position.step c) cs
    else
      let m := munch c cs
      let lexeme := c :: cs.take m.extra
      let entry :=
        match m.outcome with
        | .ok kind => .ok ⟨kind, String.ofList lexeme, position⟩
        | .error cause => .error ⟨cause, position⟩
      entry :: scan (position.advance lexeme) (cs.drop m.extra)
termination_by cs => cs.length
decreasing_by
  all_goals simp only [List.length_cons, List.length_drop]
  all_goals omega

/-- The faults of a scan. -/
def faults (entries : List (Except Diagnostic Token)) : List Diagnostic :=
  entries.filterMap fun | .error d => some d | .ok _ => none

/-- The tokens of a scan. -/
def tokens (entries : List (Except Diagnostic Token)) : List Token :=
  entries.filterMap fun | .ok t => some t | .error _ => none

/-- The tokens of a text, layout included, or all of its faults. -/
def tokenize (text : List Char) : Except (List Diagnostic) (List Token) :=
  let entries := scan .start text
  match faults entries with
  | [] => .ok (tokens entries)
  | ds => .error ds

end Cairn.Token
