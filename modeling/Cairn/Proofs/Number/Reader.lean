import Cairn.Proofs.Lexing.Munch
import Cairn.Proofs.Number.Nearest

/-!
# Reading numerals

What the reader of numbers makes of digits in a radix and of decimal numerals, as the lexical grammar spells them.
-/

namespace Cairn.Number

open Token

/-! ## Digits -/

/-- The value of a digit, or zero. -/
def digitOf (radix : Nat) (c : Char) : Nat := (digit? radix c).getD 0

theorem digitOf_lt {radix : Nat} {c : Char} (h : isDigitIn radix c = true) : digitOf radix c < radix := by
  obtain ⟨d, hd⟩ := Option.isSome_iff_exists.mp h
  rw [digitOf, hd]
  exact of_decide_eq_true (Option.filter_eq_some_iff.mp hd).2

variable {radix w : Nat} {cs : List Char}

theorem ofDigits?_append (radix : Nat) (cs : List Char) (c : Char) :
    ofDigits? radix (cs ++ [c]) = do return (← ofDigits? radix cs) * radix + (← digit? radix c) := by
  simp [ofDigits?]

theorem ofDigits?_eq (h : ∀ c ∈ cs, isDigitIn radix c = true) :
    ofDigits? radix cs = some (digitsValue radix (cs.map (digitOf radix))) := by
  induction cs using List.reverseRecOn with
  | nil => rfl
  | append_singleton cs c ih =>
      obtain ⟨d, hd⟩ := Option.isSome_iff_exists.mp (h c (by simp))
      rw [ofDigits?_append, ih fun c hc => h c (List.mem_append_left _ hc), hd]
      simp [digitsValue, digitOf, hd]

theorem forall_digitOf_lt (h : ∀ c ∈ cs, isDigitIn radix c = true) : ∀ d ∈ cs.map (digitOf radix), d < radix := by
  intro d hd
  obtain ⟨c, hc, rfl⟩ := List.mem_map.mp hd
  exact digitOf_lt (h c hc)

/-! ## Integers -/

theorem splitSign_of_ne {c : Char} (hplus : c ≠ '+') (hminus : c ≠ '-') (cs : List Char) :
    splitSign (c :: cs) = (false, c :: cs) := by
  unfold splitSign
  split
  next h => exact absurd (List.cons.inj h).1 hminus
  next h => exact absurd (List.cons.inj h).1 hplus
  next => rfl

theorem splitSign_of_class {p : Char → Bool} {c : Char} (hc : p c = true) (hplus : p '+' = false) (hminus : p '-' = false)
    (cs : List Char) : splitSign (c :: cs) = (false, c :: cs) :=
  splitSign_of_ne (ne_of_class hc hplus) (ne_of_class hc hminus) cs

theorem readIndex?_digits (hplus : isDigitIn radix '+' = false) (hminus : isDigitIn radix '-' = false)
    (h : Digits (isDigitIn radix) cs) {n : Nat} (hn : ofDigits? radix cs = some n) :
    readIndex? radix cs = if n < 2 ^ 63 then some (n : Int) else none := by
  obtain ⟨c, cs, rfl⟩ := List.exists_cons_of_ne_nil h.nonempty
  have hrange : minIndex ≤ (n : Int) ∧ (n : Int) ≤ maxIndex ↔ n < 2 ^ 63 := by
    simp only [minIndex, maxIndex, Nat.pow_eq]
    omega
  simp only [readIndex?, splitSign_of_class (h.all c (by simp)) hplus hminus, hn]
  simp [hrange]

/-! ## Decimal numerals -/

theorem splitSign_append {sign digits : List Char} (hsign : sign = [] ∨ sign = ['+'] ∨ sign = ['-'])
    (h : Digits Char.isDigit digits) : (splitSign (sign ++ digits)).2 = digits := by
  obtain ⟨c, cs, rfl⟩ := List.exists_cons_of_ne_nil h.nonempty
  rcases hsign with rfl | rfl | rfl
  · rw [List.nil_append, splitSign_of_class (h.all c (by simp)) (by decide) (by decide)]
  · rfl
  · rfl

theorem readExponent?_isSome (h : Exponent cs) : (readExponent? cs).isSome := by
  cases h with
  | none => rfl
  | @some e sign digits he hsign hdigits =>
      have hletter : (e == 'e' || e == 'E') = true := by simpa using he
      have hrest : (digits.isEmpty || !digits.all Char.isDigit) = false := by
        simpa [hdigits.nonempty] using hdigits.all
      have hsplit := splitSign_append hsign hdigits
      simp only [readExponent?, hletter, if_true]
      generalize splitSign (sign ++ digits) = split at hsplit
      obtain ⟨negative, rest⟩ := split
      obtain rfl : rest = digits := hsplit
      simp [hrest]

theorem not_digit_of_exponent (h : Exponent cs) : ∀ c ∈ cs.head?, c.isDigit = false ∧ c ≠ '.' := by
  cases h with
  | none => simp
  | some he _ _ =>
      rintro c hc
      cases hc
      rcases he with rfl | rfl <;> decide

theorem span_digits {digits rest : List Char} (h : ∀ c ∈ digits, c.isDigit = true)
    (hrest : ∀ c ∈ rest.head?, c.isDigit = false) :
    (digits ++ rest).takeWhile Char.isDigit = digits ∧ (digits ++ rest).dropWhile Char.isDigit = rest := by
  rw [List.takeWhile_append_of_pos h, List.dropWhile_append_of_pos h]
  cases rest with
  | nil => simp
  | cons c rest => simp [hrest c rfl]

theorem readMagnitude?_isSome {c : Char} {tail : List Char} (hc : c.isDigit = true) (h : DecimalTail tail) :
    (readMagnitude? (c :: tail)).isSome := by
  obtain @⟨whole, fraction, exponent, hwhole, hfraction, hexponent⟩ := h
  have hdigits : ∀ d ∈ c :: whole, d.isDigit = true := List.forall_mem_cons.mpr ⟨hc, hwhole⟩
  have hread := readExponent?_isSome hexponent
  have hnext := not_digit_of_exponent hexponent
  cases hfraction with
  | none =>
      obtain ⟨htake, hdrop⟩ := span_digits hdigits fun d hd => (hnext d hd).1
      rw [List.nil_append, ← List.cons_append, readMagnitude?]
      simp only [htake, hdrop]
      split
      next more => exact absurd rfl (hnext '.' rfl).2
      next => simpa using hread
  | @some digits hfraction =>
      have hpoint : ∀ d ∈ ('.' :: (digits ++ exponent)).head?, d.isDigit = false := by
        rintro d hd
        cases hd
        rfl
      obtain ⟨htake, hdrop⟩ := span_digits hdigits hpoint
      obtain ⟨htake', hdrop'⟩ := span_digits hfraction.all fun d hd => (hnext d hd).1
      rw [List.cons_append, ← List.cons_append, readMagnitude?]
      simp only [htake, hdrop, htake', hdrop']
      simpa using hread

theorem read?_isSome {c : Char} {tail : List Char} (hc : c.isDigit = true) (h : DecimalTail tail) :
    (read? (c :: tail)).isSome := by
  have hmagnitude := readMagnitude?_isSome hc h
  simp only [read?, splitSign_of_class hc (by decide) (by decide), Option.isSome_map, Option.isSome_or, hmagnitude,
    Bool.or_true]

theorem readWord?_zero (cs : List Char) : readWord? ('0' :: cs) = none := by
  have hne {word : String} (heq : String.ofList (('0' :: cs).map Char.toLower) = word) : word.toList.head? = some '0' := by
    rw [← heq, String.toList_ofList]
    rfl
  unfold readWord?
  split
  next h => exact absurd (hne h) (by decide)
  next h => exact absurd (hne h) (by decide)
  next h => exact absurd (hne h) (by decide)
  next => rfl

/-- Only small letters announce a radix to `num`. -/
theorem read?_capital {letter : Char} (hletter : letter = 'X' ∨ letter = 'B') (cs : List Char) :
    read? ('0' :: letter :: cs) = none := by
  have hmagnitude : readMagnitude? ('0' :: letter :: cs) = none := by
    rcases hletter with rfl | rfl <;> rfl
  rw [read?, splitSign_of_ne (by decide) (by decide)]
  simp only [readWord?_zero, hmagnitude]
  rfl

end Cairn.Number
