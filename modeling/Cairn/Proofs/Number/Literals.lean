import Cairn.Proofs.Lexing.Segmentation
import Cairn.Proofs.Native.Calls
import Cairn.Proofs.Number.Reader
import Cairn.Proofs.Number.Whole

/-!
# Two readers of numerals

The scanner and `num` read the same notation. Decimal numerals they read in the same way. Of the others `num` knows only
those in lower case and of the 64-bit range, and it rounds once at the end, where the scanner rounds after every digit.
-/

namespace Cairn.Number

open Token

variable {radix w : Nat} {cs : List Char}

/-! ## What the scanner makes of digits -/

theorem accumulate_append (radix : Nat) (cs : List Char) (c : Char) :
    accumulate radix (cs ++ [c]) = accumulate radix cs * Float.ofNat radix + Float.ofNat (digitOf radix c) := by
  simp [accumulate, digitOf]

/-- Digits of a number that is not too great, rounded one by one. -/
theorem isWhole_accumulate (hw : w ≤ 4) (h : ∀ c ∈ cs, isDigitIn (2 ^ w) c = true)
    (hfit : digitsValue (2 ^ w) (cs.map (digitOf (2 ^ w))) < 2 ^ 63) :
    IsWhole (accumulate (2 ^ w) cs) (digitsRounded (2 ^ w) (cs.map (digitOf (2 ^ w)))) := by
  have hradix : 2 ^ w ≤ 2 ^ 4 := Nat.pow_le_pow_right (by decide) hw
  have hradixpos : 0 < 2 ^ w := by positivity
  induction cs using List.reverseRecOn with
  | nil => exact isWhole_zero
  | append_singleton cs c ih =>
      have hcs : ∀ c ∈ cs, isDigitIn (2 ^ w) c = true := fun c hc => h c (List.mem_append_left _ hc)
      have hc : digitOf (2 ^ w) c < 2 ^ w := digitOf_lt (h c (by simp))
      have hrounded := (underway_digits (forall_digitOf_lt hcs)).le
      rw [List.map_append, List.map_singleton] at hfit ⊢
      rw [digitsValue_append] at hfit
      rw [digitsRounded_append, accumulate_append]
      generalize cs.map (digitOf (2 ^ w)) = digits at hfit ih hrounded ⊢
      have hprefix := ih hcs (by nlinarith)
      have hfits : digitsRounded (2 ^ w) digits * 2 ^ w < 2 ^ 68 := by nlinarith
      have hscaled : nearest (digitsRounded (2 ^ w) digits * 2 ^ w) = digitsRounded (2 ^ w) digits * 2 ^ w := by
        rw [nearest_mul_two_pow, hprefix.unpack.nearest_eq]
      have hproduct := hprefix.mul (isWhole_ofNat_of_lt (n := 2 ^ w) (by omega)) (nearest_lt (by omega))
      rw [hscaled] at hproduct
      exact hproduct.add (isWhole_ofNat_of_lt (by omega)) (nearest_lt (by omega))

/-- However many digits there are, they make a number, or infinity. -/
theorem nonnegative_accumulate (hw : w ≤ 4) (h : ∀ c ∈ cs, isDigitIn (2 ^ w) c = true) :
    Nonnegative (accumulate (2 ^ w) cs).toModel.unpack := by
  have hradix : 2 ^ w ≤ 2 ^ 4 := Nat.pow_le_pow_right (by decide) hw
  have hradixpos : 0 < 2 ^ w := by positivity
  induction cs using List.reverseRecOn with
  | nil => exact isWhole_zero.unpack.nonnegative
  | append_singleton cs c ih =>
      have hcs := ih fun c hc => h c (List.mem_append_left _ hc)
      have hc : digitOf (2 ^ w) c < 2 ^ w := digitOf_lt (h c (by simp))
      have hscale := isWhole_ofNat_of_lt (n := 2 ^ w) (by omega)
      have hdigit := isWhole_ofNat_of_lt (n := digitOf (2 ^ w) c) (by omega)
      rw [accumulate_append]
      exact (hcs.float_mul hscale (by omega)).float_add hdigit.unpack.nonnegative

/-! ## `num` on a numeral -/

/-- Characters between the space and the end of ASCII. -/
def isGraphic (c : Char) : Bool := 0x20 < c.toNat && c.toNat < 0x7F

theorem not_isSpace_of_isGraphic {c : Char} (h : isGraphic c = true) : Text.isSpace c = false := by
  simp only [isGraphic, Bool.and_eq_true, decide_eq_true_eq] at h
  rw [← Bool.not_eq_true]
  intro hspace
  simp only [Text.isSpace, Bool.or_eq_true, Bool.and_eq_true, decide_eq_true_eq, beq_iff_eq] at hspace
  omega

theorem isGraphic_of_isDigit {c : Char} (h : c.isDigit = true) : isGraphic c = true := by
  simp only [Char.isDigit, ge_iff_le, Bool.and_eq_true, decide_eq_true_eq, UInt32.le_iff_toNat_le] at h
  simp only [isGraphic, Bool.and_eq_true, decide_eq_true_eq, Char.toNat]
  exact ⟨Nat.lt_of_lt_of_le (by decide) h.1, Nat.lt_of_le_of_lt h.2 (by decide)⟩

theorem isGraphic_of_isDigitIn {c : Char} (h : isDigitIn radix c = true) : isGraphic c = true := by
  have hrange : ('0' ≤ c ∧ c ≤ '9') ∨ ('a' ≤ c ∧ c ≤ 'f') ∨ ('A' ≤ c ∧ c ≤ 'F') := by
    by_contra hno
    simp only [not_or] at hno
    simp [isDigitIn, digit?, hno.1, hno.2.1, hno.2.2] at h
  simp only [Char.le_def, UInt32.le_iff_toNat_le] at hrange
  simp only [isGraphic, Bool.and_eq_true, decide_eq_true_eq, Char.toNat]
  rcases hrange with h | h | h <;>
    exact ⟨Nat.lt_of_lt_of_le (by decide) h.1, Nat.lt_of_le_of_lt h.2 (by decide)⟩

theorem isGraphic_of_decimalTail {tail : List Char} (h : DecimalTail tail) : ∀ c ∈ tail, isGraphic c = true := by
  intro c hc
  rcases h.chars c hc with hdigit | hmem
  · exact isGraphic_of_isDigit hdigit
  · simp only [List.mem_cons, List.not_mem_nil, or_false] at hmem
    rcases hmem with rfl | rfl | rfl | rfl | rfl <;> decide

/-- `num` of a numeral that announces a radix. -/
theorem numberOfText_announced {letter : Char} (hletter : radix? letter = some radix) {n : Nat}
    (h : Digits (isDigitIn radix) cs) (hn : ofDigits? radix cs = some n) :
    Native.Core.numberOfText (String.ofList ('0' :: letter :: cs)) =
      if letter.isLower = true ∧ n < 2 ^ 63 then Float.ofNat n else nan := by
  have htrim (hgraphic : isGraphic letter = true) :
      Text.trim Text.isSpace (String.ofList ('0' :: letter :: cs)).toList = '0' :: letter :: cs := by
    rw [String.toList_ofList]
    refine Text.trim_of_forall (List.forall_mem_cons.mpr ⟨by decide, List.forall_mem_cons.mpr ⟨?_, fun c hc => ?_⟩⟩)
    · exact not_isSpace_of_isGraphic hgraphic
    · exact not_isSpace_of_isGraphic (isGraphic_of_isDigitIn (h.all c hc))
  unfold Native.Core.numberOfText
  obtain ⟨rfl, rfl | rfl⟩ | ⟨rfl, rfl | rfl⟩ := radix?_cases hletter
  · have hsmall : 'x'.isLower = true := rfl
    rw [htrim rfl]
    simp only [readIndex?_digits rfl rfl h hn, hsmall, true_and]
    split <;> rfl
  · have hcapital : 'X'.isLower = false := rfl
    rw [htrim rfl]
    change (read? ('0' :: 'X' :: cs)).getD nan = _
    simp [read?_capital (.inl rfl), hcapital]
  · have hsmall : 'b'.isLower = true := rfl
    rw [htrim rfl]
    simp only [readIndex?_digits rfl rfl h hn, hsmall, true_and]
    split <;> rfl
  · have hcapital : 'B'.isLower = false := rfl
    rw [htrim rfl]
    change (read? ('0' :: 'B' :: cs)).getD nan = _
    simp [read?_capital (.inr rfl), hcapital]

/-- `num` of a decimal numeral. -/
theorem numberOfText_decimal {c : Char} {tail : List Char} (hc : c.isDigit = true) (h : DecimalTail tail) :
    Native.Core.numberOfText (String.ofList (c :: tail)) = (read? (c :: tail)).getD 0.0 := by
  have htrim : Text.trim Text.isSpace (String.ofList (c :: tail)).toList = c :: tail := by
    rw [String.toList_ofList]
    refine Text.trim_of_forall (List.forall_mem_cons.mpr ⟨?_, fun c hc => ?_⟩)
    · exact not_isSpace_of_isGraphic (isGraphic_of_isDigit hc)
    · exact not_isSpace_of_isGraphic (isGraphic_of_decimalTail h c hc)
  obtain ⟨x, hx⟩ := Option.isSome_iff_exists.mp (read?_isSome hc h)
  unfold Native.Core.numberOfText
  rw [htrim]
  split
  next heq => cases heq
  next digits heq =>
    cases heq
    exact absurd h.head (by decide)
  next digits heq =>
    cases heq
    exact absurd h.head (by decide)
  next => rw [hx]; rfl

/-! ## Tokens of numbers -/

/-- How a numeral is spelled, and what the scanner makes of it. -/
theorem spells_number {v : Float} (h : Spells (.number v) cs) :
    (∃ letter radix digits, cs = '0' :: letter :: digits ∧ radix? letter = some radix ∧
      Digits (isDigitIn radix) digits ∧ v = accumulate radix digits) ∨
    ∃ c tail, cs = c :: tail ∧ c.isDigit = true ∧ DecimalTail tail ∧ v = (read? (c :: tail)).getD 0.0 := by
  generalize hkind : Kind.number v = kind at h
  cases h with
  | word hc htail => exact absurd hkind.symm (wordKind_ne_number _ v)
  | hexadecimal hx h =>
      cases hkind
      exact .inl ⟨_, 16, _, rfl, by rcases hx with rfl | rfl <;> rfl, h, rfl⟩
  | binary hb h =>
      cases hkind
      exact .inl ⟨_, 2, _, rfl, by rcases hb with rfl | rfl <;> rfl, h, rfl⟩
  | decimal hc htail =>
      cases hkind
      exact .inr ⟨_, _, rfl, hc, htail, rfl⟩
  | _ => cases hkind

/-! ## Agreement -/

/-- What a radix adds up to, bit by bit. -/
theorem radix?_eq_two_pow {letter : Char} (h : radix? letter = some radix) : ∃ w ≤ 4, radix = 2 ^ w := by
  obtain ⟨rfl, -⟩ | ⟨rfl, -⟩ := radix?_cases h
  · exact ⟨4, le_rfl, rfl⟩
  · exact ⟨1, by decide, rfl⟩

/-- The scanner and `num` agree on digits exactly if there is one rounding only. -/
theorem accumulate_eq_iff {letter : Char} (hletter : radix? letter = some radix) {n : Nat}
    (h : Digits (isDigitIn radix) cs) (hn : ofDigits? radix cs = some n) :
    (if letter.isLower = true ∧ n < 2 ^ 63 then Float.ofNat n else nan) = accumulate radix cs ↔
      letter.isLower = true ∧ n < 2 ^ 63 ∧ RoundsOnce radix n := by
  obtain ⟨w, hw, rfl⟩ := radix?_eq_two_pow hletter
  obtain rfl : digitsValue (2 ^ w) (cs.map (digitOf (2 ^ w))) = n := Option.some.inj ((ofDigits?_eq h.all).symm.trans hn)
  split
  next hrange =>
    have hscanned := isWhole_accumulate hw h.all hrange.2
    have hread := isWhole_ofNat (nearest_lt (hrange.2.trans (by norm_num)))
    rw [hread.eq_iff hscanned, eq_comm, digitsRounded_eq_nearest_iff (forall_digitOf_lt h.all)]
    exact ⟨fun hrounds => ⟨hrange.1, hrange.2, hrounds⟩, fun hall => hall.2.2⟩
  next hrange =>
    have hne := ne_nan (nonnegative_accumulate hw h.all)
    exact ⟨fun heq => absurd heq.symm hne, fun hall => absurd ⟨hall.1, hall.2.1⟩ hrange⟩

/-- `num` of the lexeme of a number is the number, if it is decimal. If it announces a radix the two are the same exactly
if a small letter does so, the number is less than `2 ^ 63`, and no first part of its digits lies halfway between two
floats, the even one below, with anything but zeros behind it. -/
theorem num_reads_numerals {text : List Char} {t : Token} {v : Float} (ht : t ∈ tokens (scan .start text))
    (hv : t.kind = .number v) (line : Nat) (h : Host) :
    ∃ x, Native.callAny ⟨"num", [.text t.lexeme], line⟩ h = (.ok (some (.number x)), h) ∧
      (x = v ↔ ∀ letter radix digits, t.lexeme.toList = '0' :: letter :: digits → radix? letter = some radix →
        letter.isLower = true ∧ ∃ n, ofDigits? radix digits = some n ∧ n < 2 ^ 63 ∧ RoundsOnce radix n) := by
  refine ⟨Native.Core.numberOfText t.lexeme, rfl, ?_⟩
  have hspells : Spells (.number v) t.lexeme.toList := by
    rcases (segments_scan [] text).spells_of_mem ht with heof | hspells
    · rw [hv] at heof
      cases heof
    · exact hv ▸ hspells
  have hlexeme : t.lexeme = String.ofList t.lexeme.toList := String.ofList_toList.symm
  rcases spells_number hspells with ⟨letter, radix, digits, hcs, hletter, hdigits, rfl⟩ | ⟨c, tail, hcs, hc, htail, rfl⟩
  · have hn := ofDigits?_eq hdigits.all
    rw [hlexeme, hcs, numberOfText_announced hletter hdigits hn, accumulate_eq_iff hletter hdigits hn]
    constructor
    · rintro ⟨hlower, hrange, honce⟩ letter' radix' digits' heq hletter'
      rw [String.toList_ofList] at heq
      cases heq
      obtain rfl : radix = radix' := Option.some.inj (hletter.symm.trans hletter')
      exact ⟨hlower, _, hn, hrange, honce⟩
    · intro hall
      obtain ⟨hlower, n, hn', hrange, honce⟩ := hall letter radix digits (by simp) hletter
      obtain rfl := Option.some.inj (hn.symm.trans hn')
      exact ⟨hlower, hrange, honce⟩
  · rw [hlexeme, hcs, numberOfText_decimal hc htail]
    refine iff_of_true rfl fun letter radix digits heq hletter => ?_
    rw [String.toList_ofList] at heq
    cases heq
    obtain ⟨-, rfl | rfl⟩ | ⟨-, rfl | rfl⟩ := radix?_cases hletter <;> exact absurd htail.head (by decide)

theorem num_reads_numerals_hexadecimal :
    ⟨.number 31.0, "0x1F", ⟨1, 1⟩⟩ ∈ tokens (scan .start ['0', 'x', '1', 'F']) ∧
      Native.callAny ⟨"num", [.text "0x1F"], 1⟩ {} = (.ok (some (.number 31.0)), {}) := by
  have hvalue : accumulate 16 ['1', 'F'] = 31.0 := by decide
  have htoken : ⟨.number 31.0, "0x1F", ⟨1, 1⟩⟩ ∈ tokens (scan .start ['0', 'x', '1', 'F']) := by
    rw [tokens_scan_one (by decide) rfl, ← hvalue]
    exact List.mem_cons_self
  obtain ⟨x, hcall, hiff⟩ := num_reads_numerals htoken rfl 1 {}
  have hx : x = 31.0 := by
    refine hiff.mpr fun letter radix digits heq hletter => ?_
    obtain ⟨rfl, rfl⟩ : letter = 'x' ∧ digits = ['1', 'F'] := by simpa [eq_comm] using heq
    obtain rfl : 16 = radix := Option.some.inj hletter
    exact ⟨rfl, 31, rfl, by norm_num, roundsOnce_of_lt (by norm_num)⟩
  exact ⟨htoken, hx ▸ hcall⟩

/-- `num` does not know a capital letter before the digits. -/
theorem num_misreads_capital :
    ⟨.number 31.0, "0X1F", ⟨1, 1⟩⟩ ∈ tokens (scan .start ['0', 'X', '1', 'F']) ∧
      Native.callAny ⟨"num", [.text "0X1F"], 1⟩ {} = (.ok (some (.number nan)), {}) ∧ nan ≠ 31.0 := by
  have hvalue : accumulate 16 ['1', 'F'] = 31.0 := by decide
  refine ⟨?_, ?_, by decide⟩
  · rw [tokens_scan_one (by decide) rfl, ← hvalue]
    exact List.mem_cons_self
  · have hdigits : Digits (isDigitIn 16) ['1', 'F'] := ⟨by simp, List.all_eq_true.mp rfl⟩
    have hnum := numberOfText_announced (show radix? 'X' = some 16 from rfl) hdigits (n := 31) rfl
    rw [if_neg (by simp [Char.isLower])] at hnum
    exact congrArg (fun x => (Except.ok (some (Value.number x)), ({} : Host))) hnum

/-- Here the scanner rounds twice. -/
example : ¬RoundsOnce 16 0x200000000000011 := by
  intro h
  have hhalf : Halfway (0x200000000000011 / 16 ^ 1) := ⟨2 ^ 52, 0, by norm_num⟩
  exact absurd (h 1 hhalf) (by norm_num)

end Cairn.Number
