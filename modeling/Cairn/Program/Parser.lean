import Cairn.Program.Grammar

/-!
# From tokens to programs

Statements are read until the end. After a fault the tokens up to the next one that can only begin a
statement are skipped, so that further faults are found too.
-/

namespace Cairn.Program

open Token (Kind)

/-- The cursor at the first token that the grammar sees. The last one is always the end of the text. -/
def start (tokens : List Token) : Cursor :=
  let tokens := tokens.filter (!·.kind.isTrivia)
  match tokens with
  | [] => ⟨⟨.eof, "", .start⟩, []⟩
  | first :: rest =>
    let last := rest.getLastD first
    if last.kind = .eof then ⟨first, rest⟩ else ⟨first, rest ++ [⟨.eof, "", last.position⟩]⟩

/-- Skips to the end or to a token that can only begin a statement. A closing brace is the last skipped. -/
def recover (token : Token) : (rest : List Token) → Cursor
  | [] => ⟨token, []⟩
  | t :: rest =>
    if token.kind = .eof || token.kind.startsStatement then ⟨token, t :: rest⟩
    else if token.kind = .symbol .rbrace then ⟨t, rest⟩
    else recover t rest

/-- A top-level `name = value` declares the name. -/
def foldDeclaration : Stmt → Stmt
  | .expr (.assign (.name name _) none value pos) => .declare name value pos
  | s => s

/-- The statements and the faults found so far. -/
structure Progress where
  body : List Stmt := []
  faults : List Diagnostic := []

/-- The program, or all faults if there are any. -/
def Progress.outcome (progress : Progress) : Except (List Diagnostic) Program :=
  match progress.faults with
  | [] => .ok progress.body
  | faults => .error faults

/-- One round at `c`, which is not the end: a stray semicolon is taken, a statement is read, or a fault is
kept and recovered from. There is none if the allowance of nested steps was used up. -/
def round (depth : Nat) (progress : Progress) (c : Cursor) : Option (Progress × Cursor) :=
  if c.kind = .symbol .semicolon then some (progress, c.advance)
  else
    match (grammar depth).stmt c with
    | .done s c => some ({ progress with body := progress.body ++ [foldDeclaration s] }, c)
    | .failed fault c => some ({ progress with faults := progress.faults ++ [fault] }, recover c.token c.rest)
    | .exhausted => none

/-- Reads on from `c`; `allowance` bounds the number of rounds. A round that took nothing would be followed by
a step to the next token. -/
def statements (depth : Nat) (progress : Progress) (c : Cursor) : (allowance : Nat) → Progress
  | 0 => progress
  | allowance + 1 =>
    if c.kind = .eof then progress
    else
      match round depth progress c with
      | none => progress
      | some (progress, c') =>
        statements depth progress (if c'.rest.length = c.rest.length then c'.advance else c') allowance

/-- The program that tokens spell, or all faults in order. One level of nesting and one round for every
token are enough. -/
def parse (tokens : List Token) : Except (List Diagnostic) Program :=
  let c := start tokens
  let allowance := c.rest.length + 1
  (statements allowance {} c allowance).outcome

end Cairn.Program
