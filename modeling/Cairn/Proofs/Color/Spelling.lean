import Cairn.Color
import Mathlib.Tactic.Common

/-!
# How colours are spelled

A colour is spelled by `#` and three, six or eight hexadecimal digits, or by a name in any case. All such spellings are
read. Besides, a plus is let through where a pair of digits begins, and counts as zero there.
-/

namespace Cairn.Color

/-! ## Spellings -/

def IsHexDigit (c : Char) : Prop := ('0' ≤ c ∧ c ≤ '9') ∨ ('a' ≤ c ∧ c ≤ 'f') ∨ ('A' ≤ c ∧ c ≤ 'F')

instance (c : Char) : Decidable (IsHexDigit c) := inferInstanceAs (Decidable (_ ∨ _))

/-- One digit for each part, or two. -/
def IsCode (cs : List Char) : Prop :=
  (cs.length = 3 ∨ cs.length = 6 ∨ cs.length = 8) ∧ ∀ c ∈ cs, IsHexDigit c

/-- Digits, but a plus may stand where a pair begins. -/
def InPairs (cs : List Char) : Prop := ∀ i c, cs[i]? = some c → IsHexDigit c ∨ (c = '+' ∧ i % 2 = 0)

/-- Two digits for each part, and a plus for the first of at least one pair. -/
def IsSignedCode (cs : List Char) : Prop := (cs.length = 6 ∨ cs.length = 8) ∧ '+' ∈ cs ∧ InPairs cs

/-- The names of the table. -/
def names : List String :=
  ["white", "black", "red", "green", "lime", "blue", "yellow", "cyan", "magenta", "orange", "purple", "gray", "grey",
    "transparent"]

def IsName (s : String) : Prop := ∃ name ∈ names, Text.lowercase s = Text.lowercase name

/-! ## Digits -/

variable {c d : Char} {cs : List Char}

theorem not_isHexDigit_plus : ¬IsHexDigit '+' := by decide

theorem isSome_digit? : (Number.digit? 16 c).isSome ↔ IsHexDigit c := by
  unfold Number.digit? IsHexDigit
  split_ifs with hdecimal hsmall hcapital
  · have hlast : c.toNat ≤ 57 := hdecimal.2
    have hvalue : c.toNat - 48 < 16 := by omega
    simp [hdecimal, hvalue]
  · have hlast : c.toNat ≤ 102 := hsmall.2
    have hvalue : c.toNat - 97 + 10 < 16 := by omega
    simp [hsmall, hvalue]
  · have hlast : c.toNat ≤ 70 := hcapital.2
    have hvalue : c.toNat - 65 + 10 < 16 := by omega
    simp [hcapital, hvalue]
  · simp [hdecimal, hsmall, hcapital]

theorem readPart?_one (c : Char) : readPart? [c] = Number.digit? 16 c := by
  by_cases hplus : c = '+'
  · subst hplus
    rfl
  · simp [readPart?, hplus, Number.ofDigits?]

/-- What the first character of a pair counts. -/
def lead? (c : Char) : Option Nat := if c = '+' then some 0 else Number.digit? 16 c

theorem readPart?_two (c d : Char) :
    readPart? [c, d] = (lead? c).bind fun m => (Number.digit? 16 d).map fun n => m * 16 + n := by
  by_cases hplus : c = '+'
  · subst hplus
    simp [readPart?, lead?, Number.ofDigits?]
  · simp only [lead?, if_neg hplus]
    cases hc : Number.digit? 16 c <;> cases hd : Number.digit? 16 d <;>
      simp [readPart?, hplus, Number.ofDigits?, hc, hd]

theorem isSome_lead? : (lead? c).isSome ↔ IsHexDigit c ∨ c = '+' := by
  unfold lead?
  split
  next hplus => simp [hplus]
  next hplus => simp [hplus, isSome_digit?]

theorem isSome_single? : (single? c).isSome ↔ IsHexDigit c := by
  rw [single?, Option.isSome_map, readPart?_one, isSome_digit?]

theorem isSome_pair? : (pair? c d).isSome ↔ (IsHexDigit c ∨ c = '+') ∧ IsHexDigit d := by
  rw [pair?, Option.isSome_map, readPart?_two, ← isSome_lead?, ← isSome_digit?]
  cases lead? c <;> simp

/-! ## Codes -/

@[simp] theorem inPairs_nil : InPairs [] := by simp [InPairs]

/-- From pair to pair. -/
@[simp] theorem inPairs_cons : InPairs (c :: d :: cs) ↔ ((IsHexDigit c ∨ c = '+') ∧ IsHexDigit d) ∧ InPairs cs := by
  constructor
  · intro h
    refine ⟨⟨?_, ?_⟩, fun i x hx => ?_⟩
    · simpa using h 0 c rfl
    · simpa using h 1 d rfl
    · simpa using h (i + 2) x hx
  · rintro ⟨⟨hc, hd⟩, hrest⟩ i x hx
    match i with
    | 0 => 
      obtain rfl : c = x := by simpa using hx
      simpa using hc
    | 1 =>
      obtain rfl : d = x := by simpa using hx
      exact .inl hd
    | i + 2 => simpa using hrest i x hx

theorem inPairs_of_digits (h : ∀ c ∈ cs, IsHexDigit c) : InPairs cs :=
  fun _ _ hc => .inl (h _ (List.mem_of_getElem? hc))

/-- Codes of both sorts at once. -/
theorem isCode_or_isSignedCode : IsCode cs ∨ IsSignedCode cs ↔
    (cs.length = 3 ∧ ∀ c ∈ cs, IsHexDigit c) ∨ ((cs.length = 6 ∨ cs.length = 8) ∧ InPairs cs) := by
  constructor
  · rintro (⟨hlength | hlength, hdigits⟩ | ⟨hlength, -, hpairs⟩)
    · exact .inl ⟨hlength, hdigits⟩
    · exact .inr ⟨hlength, inPairs_of_digits hdigits⟩
    · exact .inr ⟨hlength, hpairs⟩
  · rintro (⟨hlength, hdigits⟩ | ⟨hlength, hpairs⟩)
    · exact .inl ⟨.inl hlength, hdigits⟩
    · by_cases hplus : '+' ∈ cs
      · exact .inr ⟨hlength, hplus, hpairs⟩
      · refine .inl ⟨.inr hlength, fun c hc => ?_⟩
        obtain ⟨i, hi⟩ := List.mem_iff_getElem?.1 hc
        refine (hpairs i c hi).resolve_right fun h => hplus (h.1 ▸ hc)

theorem isSome_hexadecimal? : (hexadecimal? cs).isSome ↔ IsCode cs ∨ IsSignedCode cs := by
  rw [isCode_or_isSignedCode]
  unfold hexadecimal?
  split
  next r g b => simp [← isSome_single?, Option.isSome_iff_exists, Option.bind_eq_some_iff]
  next r r' g g' b b' => simp [← isSome_pair?, Option.isSome_iff_exists, Option.bind_eq_some_iff]
  next r r' g g' b b' a a' => simp [← isSome_pair?, Option.isSome_iff_exists, Option.bind_eq_some_iff]
  next hthree hsix height =>
    -- no other list has one of these lengths
    have hlength : ¬(cs.length = 3 ∨ cs.length = 6 ∨ cs.length = 8) := by
      rintro (h | h | h)
      · match cs, h with
        | [_, _, _], _ => exact hthree _ _ _ rfl
      · match cs, h with
        | [_, _, _, _, _, _], _ => exact hsix _ _ _ _ _ _ rfl
      · match cs, h with
        | [_, _, _, _, _, _, _, _], _ => exact height _ _ _ _ _ _ _ _ rfl
    rw [not_or] at hlength
    simp [hlength]

/-! ## A plus counts as zero -/

/-- Zero for every plus. -/
def unsigned (c : Char) : Char := if c = '+' then '0' else c

theorem lead?_unsigned (c : Char) : lead? (unsigned c) = lead? c := by
  unfold unsigned
  split
  next hplus => rw [hplus]; decide
  next => rfl

theorem unsigned_of_isHexDigit (h : IsHexDigit c) : unsigned c = c := by
  refine if_neg ?_
  rintro rfl
  exact not_isHexDigit_plus h

theorem pair?_unsigned (hd : IsHexDigit d) : pair? (unsigned c) (unsigned d) = pair? c d := by
  rw [pair?, pair?, readPart?_two, readPart?_two, lead?_unsigned, unsigned_of_isHexDigit hd]

theorem hexadecimal?_unsigned (h : IsSignedCode cs) : hexadecimal? (cs.map unsigned) = hexadecimal? cs := by
  obtain ⟨hlength | hlength, -, hpairs⟩ := h
  · match cs, hlength with
    | [r, r', g, g', b, b'], _ =>
      simp only [inPairs_cons] at hpairs
      obtain ⟨⟨-, hr⟩, ⟨-, hg⟩, ⟨-, hb⟩, -⟩ := hpairs
      simp [hexadecimal?, pair?_unsigned, hr, hg, hb]
  · match cs, hlength with
    | [r, r', g, g', b, b', a, a'], _ =>
      simp only [inPairs_cons] at hpairs
      obtain ⟨⟨-, hr⟩, ⟨-, hg⟩, ⟨-, hb⟩, ⟨-, ha⟩, -⟩ := hpairs
      simp [hexadecimal?, pair?_unsigned, hr, hg, hb, ha]

/-! ## Names -/

theorem isSome_named? {s : String} : (named? s).isSome ↔ s ∈ names := by
  unfold named? names
  split <;> simp_all

theorem lowercase_name : ∀ name ∈ names, Text.lowercase name = name := by
  decide

theorem isName_iff {s : String} : IsName s ↔ Text.lowercase s ∈ names := by
  constructor
  · rintro ⟨name, hname, hs⟩
    rw [hs, lowercase_name name hname]
    exact hname
  · exact fun h => ⟨_, h, (lowercase_name _ h).symm⟩

/-- No name begins like a code. -/
theorem not_isName_code {s : String} (h : s.toList = '#' :: cs) : ¬IsName s := by
  have hnames : ∀ name ∈ names, name.toList.head? ≠ some '#' := by decide
  have hsharp : '#'.toLower = '#' := rfl
  rw [isName_iff]
  refine fun hmem => hnames _ hmem ?_
  simp [Text.lowercase, h, hsharp]

/-! ## Colours -/

/-- What is read as a colour: `#` and three, six or eight hexadecimal digits, or a name in any case, or else `#` and three
or four pairs of which at least one has a plus instead of its first digit. Every such plus counts as zero. -/
theorem accepted_iff_spelled (s : String) :
    ((parse? s).isSome ↔ (∃ cs, s.toList = '#' :: cs ∧ (IsCode cs ∨ IsSignedCode cs)) ∨ IsName s) ∧
    ∀ cs, s.toList = '#' :: cs → IsSignedCode cs → parse? s = parse? (String.ofList ('#' :: cs.map unsigned)) := by
  refine ⟨?_, fun cs hs hsigned => ?_⟩
  · unfold parse?
    split
    next cs hs =>
      rw [isSome_hexadecimal?]
      simp [hs, not_isName_code hs]
    next hs =>
      rw [isSome_named?, isName_iff]
      exact (or_iff_right fun ⟨cs, hcs, _⟩ => hs cs hcs).symm
  · unfold parse?
    rw [hs, String.toList_ofList]
    exact (hexadecimal?_unsigned hsigned).symm

theorem accepted_iff_spelled_plus :
    IsSignedCode ['+', 'f', '+', 'f', '+', 'f'] ∧ (parse? "#+f+f+f").isSome ∧
      parse? "#+f+f+f" = parse? "#0f0f0f" := by
  have hsigned : IsSignedCode ['+', 'f', '+', 'f', '+', 'f'] := ⟨.inl rfl, by simp, by simp [IsHexDigit]⟩
  obtain ⟨haccepted, hzero⟩ := accepted_iff_spelled "#+f+f+f"
  exact ⟨hsigned, haccepted.2 (.inl ⟨_, rfl, .inr hsigned⟩), hzero _ rfl hsigned⟩

/-- A plus is no digit, but is let through. -/
theorem plus_accepted :
    ¬∀ s, (parse? s).isSome ↔ (∃ cs, s.toList = '#' :: cs ∧ IsCode cs) ∨ IsName s := by
  intro h
  have hread : (parse? "#+f+f+f").isSome := rfl
  rcases (h "#+f+f+f").1 hread with ⟨cs, hs, -, hdigits⟩ | hname
  · obtain rfl : ['+', 'f', '+', 'f', '+', 'f'] = cs := (List.cons.inj hs).2
    exact not_isHexDigit_plus (hdigits '+' (by simp))
  · exact not_isName_code rfl hname

end Cairn.Color
