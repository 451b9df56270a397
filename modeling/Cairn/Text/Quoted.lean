import Cairn.Text.Hidden

/-!
# Quoted text

Text inside double quotes, with backslashes before quotes and backslashes, letters for the common
controls, and numbers for whatever else has no visible shape.
-/

namespace Cairn.Text

/-- `n` in lower-case hexadecimal. -/
def hexadecimal (n : Nat) : String :=
  String.ofList (Nat.toDigits 16 n)

/-- How one character is written between quotes. -/
def quoteChar (c : Char) : String :=
  match c with
  | '\x00' => "\\0"
  | '\t' => "\\t"
  | '\r' => "\\r"
  | '\n' => "\\n"
  | '"' => "\\\""
  | '\\' => "\\\\"
  | c =>
    if c.toNat < 0x20 || c.toNat == 0x7F || isHidden c then "\\u\x7b" ++ hexadecimal c.toNat ++ "\x7d"
    else String.singleton c

/-- The text between quotes. -/
def quote (s : String) : String :=
  "\"" ++ String.join (s.toList.map quoteChar) ++ "\""

end Cairn.Text
