import Cairn.Number.Layout
import Cairn.Text.Quoted

/-!
# Tokens

A token is a kind, the text it was read from and the position of its first character. Kinds are literals,
names, keywords, symbols, and the layout that tools see and the grammar does not.
-/

namespace Cairn

/-- A line and a column, both counted from one; columns count code points. -/
structure Position where
  line : Nat
  column : Nat
deriving DecidableEq, Repr

namespace Position

/-- The beginning of a text. -/
def start : Position := ⟨1, 1⟩

/-- The position after the character `c`. -/
def step (p : Position) (c : Char) : Position :=
  if c == '\n' then ⟨p.line + 1, 1⟩ else ⟨p.line, p.column + 1⟩

/-- The position after the characters `cs`. -/
def advance (p : Position) (cs : List Char) : Position :=
  cs.foldl step p

@[simp] theorem advance_append (p : Position) (cs ds : List Char) :
    p.advance (cs ++ ds) = (p.advance cs).advance ds :=
  List.foldl_append

end Position

namespace Token

/-- The reserved words, among them the lone underscore. -/
inductive Keyword where
  | function | result | when | otherwise | loop | leave | select
  | enum | draw | update | prototype | and | or | underscore
deriving DecidableEq, Repr

namespace Keyword

/-- How a keyword is written. -/
def spelling : Keyword → String
  | .function => "fun"
  | .result => "return"
  | .when => "if"
  | .otherwise => "else"
  | .loop => "loop"
  | .leave => "break"
  | .select => "match"
  | .enum => "enum"
  | .draw => "draw"
  | .update => "update"
  | .prototype => "prototype"
  | .and => "and"
  | .or => "or"
  | .underscore => "_"

/-- How diagnostics name a keyword. -/
def label : Keyword → String
  | .function => "Fun"
  | .result => "Return"
  | .when => "If"
  | .otherwise => "Else"
  | .loop => "Loop"
  | .leave => "Break"
  | .select => "Match"
  | .enum => "Enum"
  | .draw => "Draw"
  | .update => "Update"
  | .prototype => "Prototype"
  | .and => "And"
  | .or => "Or"
  | .underscore => "Underscore"

/-- Every keyword. -/
def all : List Keyword :=
  [.function, .result, .when, .otherwise, .loop, .leave, .select,
   .enum, .draw, .update, .prototype, .and, .or, .underscore]

/-- The keyword that `word` spells. -/
def ofSpelling? (word : String) : Option Keyword :=
  all.find? (·.spelling == word)

end Keyword

/-- Operators and punctuation. -/
inductive Symbol where
  | plus | minus | star | slash | percent | starStar | plusPlus | minusMinus | eq
  | plusEq | minusEq | starEq | slashEq | percentEq | ampEq | pipeEq | caretEq | eqEq
  | bangEq | lt | ltEq | gt | gtEq | ltLt | gtGt | ampAmp | pipePipe
  | bang | tilde | amp | pipe | caret | fatArrow | colon | comma | semicolon
  | dot | lparen | rparen | lbrace | rbrace | lbracket | rbracket
deriving DecidableEq, Repr

namespace Symbol

/-- How a symbol is written. -/
def spelling : Symbol → String
  | .plus => "+"
  | .minus => "-"
  | .star => "*"
  | .slash => "/"
  | .percent => "%"
  | .starStar => "**"
  | .plusPlus => "++"
  | .minusMinus => "--"
  | .eq => "="
  | .plusEq => "+="
  | .minusEq => "-="
  | .starEq => "*="
  | .slashEq => "/="
  | .percentEq => "%="
  | .ampEq => "&="
  | .pipeEq => "|="
  | .caretEq => "^="
  | .eqEq => "=="
  | .bangEq => "!="
  | .lt => "<"
  | .ltEq => "<="
  | .gt => ">"
  | .gtEq => ">="
  | .ltLt => "<<"
  | .gtGt => ">>"
  | .ampAmp => "&&"
  | .pipePipe => "||"
  | .bang => "!"
  | .tilde => "~"
  | .amp => "&"
  | .pipe => "|"
  | .caret => "^"
  | .fatArrow => "=>"
  | .colon => ":"
  | .comma => ","
  | .semicolon => ";"
  | .dot => "."
  | .lparen => "("
  | .rparen => ")"
  | .lbrace => "\x7b"
  | .rbrace => "\x7d"
  | .lbracket => "["
  | .rbracket => "]"

/-- How diagnostics name a symbol. -/
def label : Symbol → String
  | .plus => "Plus"
  | .minus => "Minus"
  | .star => "Star"
  | .slash => "Slash"
  | .percent => "Percent"
  | .starStar => "StarStar"
  | .plusPlus => "PlusPlus"
  | .minusMinus => "MinusMinus"
  | .eq => "Eq"
  | .plusEq => "PlusEq"
  | .minusEq => "MinusEq"
  | .starEq => "StarEq"
  | .slashEq => "SlashEq"
  | .percentEq => "PercentEq"
  | .ampEq => "AmpEq"
  | .pipeEq => "PipeEq"
  | .caretEq => "CaretEq"
  | .eqEq => "EqEq"
  | .bangEq => "BangEq"
  | .lt => "Lt"
  | .ltEq => "LtEq"
  | .gt => "Gt"
  | .gtEq => "GtEq"
  | .ltLt => "LtLt"
  | .gtGt => "GtGt"
  | .ampAmp => "AmpAmp"
  | .pipePipe => "PipePipe"
  | .bang => "Bang"
  | .tilde => "Tilde"
  | .amp => "Amp"
  | .pipe => "Pipe"
  | .caret => "Caret"
  | .fatArrow => "FatArrow"
  | .colon => "Colon"
  | .comma => "Comma"
  | .semicolon => "Semicolon"
  | .dot => "Dot"
  | .lparen => "LParen"
  | .rparen => "RParen"
  | .lbrace => "LBrace"
  | .rbrace => "RBrace"
  | .lbracket => "LBracket"
  | .rbracket => "RBracket"

/-- Symbols of two characters. -/
def ofPair? : Char → Char → Option Symbol
  | '*', '*' => some .starStar
  | '+', '+' => some .plusPlus
  | '-', '-' => some .minusMinus
  | '+', '=' => some .plusEq
  | '-', '=' => some .minusEq
  | '*', '=' => some .starEq
  | '/', '=' => some .slashEq
  | '%', '=' => some .percentEq
  | '&', '=' => some .ampEq
  | '|', '=' => some .pipeEq
  | '^', '=' => some .caretEq
  | '=', '=' => some .eqEq
  | '!', '=' => some .bangEq
  | '<', '=' => some .ltEq
  | '>', '=' => some .gtEq
  | '<', '<' => some .ltLt
  | '>', '>' => some .gtGt
  | '&', '&' => some .ampAmp
  | '|', '|' => some .pipePipe
  | '=', '>' => some .fatArrow
  | _, _ => none

/-- Symbols of one character. -/
def ofChar? : Char → Option Symbol
  | '+' => some .plus
  | '-' => some .minus
  | '*' => some .star
  | '/' => some .slash
  | '%' => some .percent
  | '=' => some .eq
  | '<' => some .lt
  | '>' => some .gt
  | '!' => some .bang
  | '~' => some .tilde
  | '&' => some .amp
  | '|' => some .pipe
  | '^' => some .caret
  | ':' => some .colon
  | ',' => some .comma
  | ';' => some .semicolon
  | '.' => some .dot
  | '(' => some .lparen
  | ')' => some .rparen
  | '\x7b' => some .lbrace
  | '\x7d' => some .rbrace
  | '[' => some .lbracket
  | ']' => some .rbracket
  | _ => none

end Symbol

/-- What a token is. -/
inductive Kind where
  | number (value : Float)
  | text (value : String)
  | bool (value : Bool)
  | null
  | name (value : String)
  | keyword (word : Keyword)
  | symbol (mark : Symbol)
  | newline
  /-- One `#`. -/
  | foundation
  | comment (value : String)
  /-- The end of the text. -/
  | eof
deriving DecidableEq

namespace Kind

/-- The name of a kind, without what it carries. -/
def label : Kind → String
  | .number _ => "Number"
  | .text _ => "Str"
  | .bool _ => "Bool"
  | .null => "Null"
  | .name _ => "Ident"
  | .keyword word => word.label
  | .symbol mark => mark.label
  | .newline => "Newline"
  | .foundation => "Foundation"
  | .comment _ => "Comment"
  | .eof => "Eof"

/-- The name of a kind with what it carries in parentheses. -/
def describe (kind : Kind) : String :=
  let payload? :=
    match kind with
    | .number value => some (Number.pointed value)
    | .text value | .name value | .comment value => some (Text.quote value)
    | .bool value => some (toString value)
    | _ => none
  match payload? with
  | some payload => kind.label ++ "(" ++ payload ++ ")"
  | none => kind.label

/-- Numbers, text, booleans and `null`. -/
def isLiteral : Kind → Bool
  | .number _ | .text _ | .bool _ | .null => true
  | _ => false

/-- An operator that reads its target before it writes it. -/
def isCompoundAssign : Kind → Bool
  | .symbol mark =>
    mark ∈ [.plusEq, .minusEq, .starEq, .slashEq, .percentEq, .ampEq, .pipeEq, .caretEq]
  | _ => false

/-- Layout that never reaches the grammar. -/
def isTrivia : Kind → Bool
  | .newline | .foundation | .comment _ => true
  | _ => false

/-- Keywords that can only begin a statement. -/
def startsStatement : Kind → Bool
  | .keyword word => word ∈ [.function, .result, .when, .loop, .leave, .enum, .draw, .update]
  | _ => false

end Kind

end Token

/-- A token of a text. -/
structure Token where
  kind : Token.Kind
  /-- The text the token was read from. -/
  lexeme : String
  position : Position
deriving DecidableEq

end Cairn
