import Cairn.Token.Lexer
import Mathlib

/-!
# The lexical grammar

Which texts are tokens, and of what kind, said without regard to how they are found.
-/

namespace Cairn.Token

/-! ## Texts that are tokens -/

/-- Some digits. -/
structure Digits (isDigit : Char → Bool) (cs : List Char) : Prop where
  nonempty : cs ≠ []
  all : ∀ c ∈ cs, isDigit c = true

inductive Fraction : List Char → Prop where
  | none : Fraction []
  | some {digits : List Char} (h : Digits Char.isDigit digits) : Fraction ('.' :: digits)

inductive Exponent : List Char → Prop where
  | none : Exponent []
  | some {e : Char} {sign digits : List Char} (he : e = 'e' ∨ e = 'E')
      (hsign : sign = [] ∨ sign = ['+'] ∨ sign = ['-']) (h : Digits Char.isDigit digits) :
      Exponent (e :: (sign ++ digits))

/-- The part of a decimal number after its first digit. -/
inductive DecimalTail : List Char → Prop where
  | mk {whole fraction exponent : List Char} (hwhole : ∀ c ∈ whole, c.isDigit = true) (hfraction : Fraction fraction)
      (hexponent : Exponent exponent) : DecimalTail (whole ++ (fraction ++ exponent))

theorem DecimalTail.chars {tail : List Char} (h : DecimalTail tail) :
    ∀ c ∈ tail, c.isDigit = true ∨ c ∈ ['.', 'e', 'E', '+', '-'] := by
  obtain ⟨hwhole, hfraction, hexponent⟩ := h
  intro c hc
  simp only [List.mem_append] at hc
  rcases hc with hc | hc | hc
  · exact .inl (hwhole c hc)
  · cases hfraction with
    | none => cases hc
    | some hdigits =>
        rcases List.mem_cons.1 hc with rfl | hc
        · exact .inr (by decide)
        · exact .inl (hdigits.all c hc)
  · cases hexponent with
    | none => cases hc
    | some he hsign hdigits =>
        simp only [List.mem_cons, List.mem_append] at hc
        rcases hc with rfl | hc | hc
        · rcases he with rfl | rfl <;> exact .inr (by decide)
        · rcases hsign with rfl | rfl | rfl
          · cases hc
          · rw [List.mem_singleton.1 hc]; exact .inr (by decide)
          · rw [List.mem_singleton.1 hc]; exact .inr (by decide)
        · exact .inl (hdigits.all c hc)

/-- The tokens of each kind. -/
inductive Spells : Kind → List Char → Prop where
  | newline : Spells .newline ['\n']
  | foundation : Spells .foundation ['#']
  | comment {line : List Char} (h : ∀ c ∈ line, c ≠ '\n') : Spells (.comment (String.ofList line)) ('/' :: '/' :: line)
  | text {body : List Char} (h : ∀ c ∈ body, c ≠ '"' ∧ c ≠ '\n') :
      Spells (.text (String.ofList body)) ('"' :: (body ++ ['"']))
  | word {c : Char} {tail : List Char} (hc : Text.startsName c = true)
      (htail : ∀ c ∈ tail, Text.continuesName c = true) : Spells (wordKind (String.ofList (c :: tail))) (c :: tail)
  | hexadecimal {x : Char} {digits : List Char} (hx : x = 'x' ∨ x = 'X') (h : Digits (isDigitIn 16) digits) :
      Spells (.number (accumulate 16 digits)) ('0' :: x :: digits)
  | binary {b : Char} {digits : List Char} (hb : b = 'b' ∨ b = 'B') (h : Digits (isDigitIn 2) digits) :
      Spells (.number (accumulate 2 digits)) ('0' :: b :: digits)
  | decimal {c : Char} {tail : List Char} (hc : c.isDigit = true) (htail : DecimalTail tail) :
      Spells (.number ((Number.read? (c :: tail)).getD 0.0)) (c :: tail)
  | symbol (mark : Symbol) : Spells (.symbol mark) mark.spelling.toList

theorem wordKind_ne_eof (word : String) : wordKind word ≠ .eof := by
  unfold wordKind
  split
  · simp
  · simp
  · simp
  · split <;> simp

theorem wordKind_ne_number (word : String) (v : Float) : wordKind word ≠ .number v := by
  unfold wordKind
  split
  · simp
  · simp
  · simp
  · split <;> simp

theorem Spells.ne_eof {kind : Kind} {lexeme : List Char} (h : Spells kind lexeme) : kind ≠ .eof := by
  cases h with
  | word hc htail => exact wordKind_ne_eof _
  | _ => simp

/-! ## Classes of characters -/

theorem ne_of_class {p : Char → Bool} {c d : Char} (hc : p c = true) (hd : p d = false) : c ≠ d := by
  rintro rfl
  rw [hc] at hd
  cases hd

def Symbol.ofSpelled? : List Char → Option Symbol
  | [c] => ofChar? c
  | [c, d] => ofPair? c d
  | _ => none

theorem Symbol.ofSpelled?_spelling (mark : Symbol) : ofSpelled? mark.spelling.toList = some mark := by
  cases mark <;> rfl

theorem Symbol.spelling_shape (mark : Symbol) :
    (∃ c, mark.spelling.toList = [c] ∧ ofChar? c = some mark) ∨
      ∃ c d, mark.spelling.toList = [c, d] ∧ ofPair? c d = some mark := by
  have hread := mark.ofSpelled?_spelling
  unfold ofSpelled? at hread
  split at hread
  next c hc => exact .inl ⟨c, hc, hread⟩
  next c d hcd => exact .inr ⟨c, d, hcd, hread⟩
  next => cases hread

theorem Symbol.spelling_of_ofPair? {c d : Char} {mark : Symbol} (h : ofPair? c d = some mark) :
    mark.spelling.toList = [c, d] := by
  unfold ofPair? at h
  split at h <;> cases h <;> rfl

theorem Symbol.spelling_of_ofChar? {c : Char} {mark : Symbol} (h : ofChar? c = some mark) :
    mark.spelling.toList = [c] := by
  unfold ofChar? at h
  split at h <;> cases h <;> rfl

/-- Characters that begin a symbol of two are symbols of one. -/
theorem Symbol.ofChar?_isSome_of_ofPair? {c d : Char} {mark : Symbol} (h : ofPair? c d = some mark) :
    (ofChar? c).isSome = true := by
  unfold ofPair? at h
  split at h <;> cases h <;> rfl

end Cairn.Token
