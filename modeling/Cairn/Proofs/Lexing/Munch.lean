import Cairn.Proofs.Lexing.Grammar

/-!
# The munch of a text is its longest token

Whatever the munch takes for a token is one; and where a text begins with a token, the munch is a token at least as
long, and the same one if it is not longer.
-/

namespace Cairn.Token

/-! ## Which rule applies -/

theorem munch_digit {c : Char} (hc : c.isDigit = true) (cs : List Char) : munch c cs = munchNumber c cs := by
  have hnewline : c ≠ '\n' := ne_of_class hc (by decide)
  have hfoundation : c ≠ '#' := ne_of_class hc (by decide)
  have hquote : c ≠ '"' := ne_of_class hc (by decide)
  have hslash : c ≠ '/' := ne_of_class hc (by decide)
  simp [munch, hnewline, hfoundation, hquote, hslash, hc]

theorem isDigit_of_startsName {c : Char} (hc : Text.startsName c = true) : c.isDigit = false := by
  simp only [Text.startsName, Bool.or_eq_true, beq_iff_eq] at hc
  rcases hc with hc | rfl
  · grind [Char.isAlpha, Char.isUpper, Char.isLower, Char.isDigit]
  · decide

theorem munch_word {c : Char} (hc : Text.startsName c = true) (cs : List Char) : munch c cs = munchWord c cs := by
  have hnewline : c ≠ '\n' := ne_of_class hc (by decide)
  have hfoundation : c ≠ '#' := ne_of_class hc (by decide)
  have hquote : c ≠ '"' := ne_of_class hc (by decide)
  have hslash : c ≠ '/' := ne_of_class hc (by decide)
  simp [munch, hnewline, hfoundation, hquote, hslash, isDigit_of_startsName hc, hc]

theorem Symbol.class_of_ofChar? {c : Char} {mark : Symbol} (h : ofChar? c = some mark) :
    c ≠ '\n' ∧ c ≠ '#' ∧ c ≠ '"' ∧ c.isDigit = false ∧ Text.startsName c = false := by
  unfold ofChar? at h
  split at h <;> cases h <;> decide

/-- No other rule takes a character that is a symbol, but for the first slash of a comment. -/
theorem munch_symbol {c : Char} {mark : Symbol} (hc : Symbol.ofChar? c = some mark) {cs : List Char}
    (hcs : c = '/' → cs.head? ≠ some '/') : munch c cs = munchSymbol c cs := by
  obtain ⟨hnewline, hfoundation, hquote, hdigit, hname⟩ := Symbol.class_of_ofChar? hc
  have hcomment : (c == '/' && cs.head? == some '/') = false := by simpa using hcs
  simp [munch, hnewline, hfoundation, hquote, hcomment, hdigit, hname]

/-! ## What the munch takes is a token -/

/-- A text begins with a run of characters of a class. -/
theorem exists_run (p : Char → Bool) (cs : List Char) :
    ∃ run rest, cs = run ++ rest ∧ (∀ c ∈ run, p c = true) ∧ (∀ c ∈ rest.head?, p c = false) ∧
      (run ++ rest).takeWhile p = run := by
  refine ⟨cs.takeWhile p, cs.dropWhile p, List.takeWhile_append_dropWhile.symm, fun c => List.mem_takeWhile_imp, ?_, ?_⟩
  · intro c hc
    have hhead := List.head?_dropWhile_not p cs
    rw [hc] at hhead
    simpa using hhead
  · rw [List.takeWhile_append_dropWhile]

theorem fractionLength_reads (cs : List Char) :
    ∃ fraction rest, cs = fraction ++ rest ∧ Fraction fraction ∧ fractionLength cs = fraction.length := by
  fun_cases fractionLength cs with
  | case1 cs hdigits => exact ⟨[], '.' :: cs, rfl, .none, rfl⟩
  | case2 cs n hdigits =>
      refine ⟨'.' :: cs.takeWhile Char.isDigit, cs.dropWhile Char.isDigit, by simp, .some ⟨?_, ?_⟩, by simp [hdigits]⟩
      · intro hnil
        simp [hnil] at hdigits
      · intro c hc
        exact List.mem_takeWhile_imp hc
  | case3 cs _ => exact ⟨[], cs, rfl, .none, rfl⟩

theorem sign_reads (cs : List Char) :
    ∃ sign rest, cs = sign ++ rest ∧ (sign = [] ∨ sign = ['+'] ∨ sign = ['-']) ∧
      (if cs.head? == some '+' || cs.head? == some '-' then 1 else 0) = sign.length := by
  cases cs with
  | nil => exact ⟨[], [], rfl, .inl rfl, rfl⟩
  | cons c cs =>
      split
      next h =>
        simp only [List.head?_cons, Bool.or_eq_true, beq_iff_eq, Option.some.injEq] at h
        exact ⟨[c], cs, rfl, by simpa using h, rfl⟩
      next => exact ⟨[], c :: cs, rfl, .inl rfl, rfl⟩

theorem exponentLength_reads (cs : List Char) :
    ∃ exponent rest, cs = exponent ++ rest ∧ Exponent exponent ∧ exponentLength cs = exponent.length := by
  fun_cases exponentLength cs with
  | case1 e cs he signLength hdigits => exact ⟨[], e :: cs, rfl, .none, rfl⟩
  | case2 e cs he signLength n hdigits =>
      obtain ⟨sign, rest, rfl, hsign, hlength⟩ := sign_reads cs
      rw [show signLength = sign.length from hlength] at hdigits ⊢
      rw [List.drop_left] at hdigits
      refine ⟨e :: (sign ++ rest.takeWhile Char.isDigit), rest.dropWhile Char.isDigit, by simp,
        .some (by simpa using he) hsign ⟨?_, ?_⟩, ?_⟩
      · intro hnil
        simp [hnil] at hdigits
      · intro c hc
        exact List.mem_takeWhile_imp hc
      · simp only [List.length_cons, List.length_append, hdigits]
        omega
  | case3 e cs he => exact ⟨[], e :: cs, rfl, .none, rfl⟩
  | case4 => exact ⟨[], [], rfl, .none, rfl⟩

theorem decimalLength_append {whole rest : List Char} (h : (whole ++ rest).takeWhile Char.isDigit = whole) :
    decimalLength (whole ++ rest) =
      whole.length + fractionLength rest + exponentLength (rest.drop (fractionLength rest)) := by
  simp only [decimalLength, h, List.drop_left]
  rw [← List.drop_drop, List.drop_left]

theorem decimalLength_reads (cs : List Char) :
    ∃ tail rest, cs = tail ++ rest ∧ DecimalTail tail ∧ decimalLength cs = tail.length := by
  obtain ⟨whole, rest, rfl, hdigits, -, hwhole⟩ := exists_run Char.isDigit cs
  obtain ⟨fraction, rest, rfl, hfraction, hfractionLength⟩ := fractionLength_reads rest
  obtain ⟨exponent, rest, rfl, hexponent, hexponentLength⟩ := exponentLength_reads rest
  refine ⟨whole ++ (fraction ++ exponent), rest, by simp, .mk hdigits hfraction hexponent, ?_⟩
  rw [decimalLength_append hwhole, hfractionLength, List.drop_left, hexponentLength]
  simp [Nat.add_assoc]

theorem radix?_cases {letter : Char} {radix : Nat} (h : radix? letter = some radix) :
    radix = 16 ∧ (letter = 'x' ∨ letter = 'X') ∨ radix = 2 ∧ (letter = 'b' ∨ letter = 'B') := by
  unfold radix? at h
  split at h
  next hx => exact .inl ⟨(Option.some.inj h).symm, by simpa using hx⟩
  next =>
    split at h
    next hb => exact .inr ⟨(Option.some.inj h).symm, by simpa using hb⟩
    next => cases h

theorem announcedRadix?_cases {c : Char} {cs : List Char} {radix : Nat} (h : announcedRadix? c cs = some radix) :
    c = '0' ∧ ∃ letter digit rest, cs = letter :: digit :: rest ∧ radix? letter = some radix ∧
      isDigitIn radix digit = true := by
  unfold announcedRadix? at h
  split at h
  next letter digit rest =>
    obtain ⟨hradix, hdigit⟩ := Option.filter_eq_some_iff.1 h
    exact ⟨rfl, letter, digit, rest, rfl, hradix, hdigit⟩
  next => cases h

/-- The munch takes a token of this kind: `c`, and what follows of it in `cs`. -/
def Munch.Takes (m : Munch) (c : Char) (cs : List Char) (kind : Kind) : Prop :=
  ∃ tail rest, cs = tail ++ rest ∧ m.extra = tail.length ∧ Spells kind (c :: tail)

theorem munchNumber_takes {c : Char} (hc : c.isDigit = true) (cs : List Char) :
    ∃ kind, (munchNumber c cs).outcome = .ok kind ∧ (munchNumber c cs).Takes c cs kind := by
  cases hradix : announcedRadix? c cs with
  | some radix =>
      obtain ⟨rfl, letter, digit, rest, rfl, hletter, hdigit⟩ := announcedRadix?_cases hradix
      simp only [munchNumber, hradix, List.drop_succ_cons, List.drop_zero]
      have hdigits : Digits (isDigitIn radix) ((digit :: rest).takeWhile (isDigitIn radix)) :=
        ⟨by simp [hdigit], fun c hc => List.mem_takeWhile_imp hc⟩
      refine ⟨_, rfl, letter :: (digit :: rest).takeWhile (isDigitIn radix),
        (digit :: rest).dropWhile (isDigitIn radix), by simp, by simp, ?_⟩
      obtain ⟨rfl, hx⟩ | ⟨rfl, hb⟩ := radix?_cases hletter
      · exact .hexadecimal hx hdigits
      · exact .binary hb hdigits
  | none =>
      obtain ⟨tail, rest, rfl, htail, hlength⟩ := decimalLength_reads cs
      simp only [munchNumber, hradix, hlength, List.take_left]
      exact ⟨_, rfl, tail, rest, rfl, rfl, .decimal hc htail⟩

theorem munchWord_takes {c : Char} (hc : Text.startsName c = true) (cs : List Char) :
    ∃ kind, (munchWord c cs).outcome = .ok kind ∧ (munchWord c cs).Takes c cs kind :=
  ⟨_, rfl, cs.takeWhile Text.continuesName, cs.dropWhile Text.continuesName, by simp, rfl,
    .word hc fun _ hc => List.mem_takeWhile_imp hc⟩

theorem munchComment_takes (cs : List Char) :
    ∃ kind, (munchComment ('/' :: cs)).outcome = .ok kind ∧ (munchComment ('/' :: cs)).Takes '/' ('/' :: cs) kind := by
  refine ⟨.comment (String.ofList (cs.takeWhile (· != '\n'))), by simp [munchComment],
    '/' :: cs.takeWhile (· != '\n'), cs.dropWhile (· != '\n'), by simp, by simp [munchComment], .comment ?_⟩
  intro c hc
  simpa using List.mem_takeWhile_imp hc

/-- The text after a quote, on its line: a quote closes it, or none does. -/
theorem munchText_cases (cs : List Char) :
    ∃ body rest, cs = body ++ rest ∧ (∀ c ∈ body, c ≠ '"' ∧ c ≠ '\n') ∧
      ((∃ rest', rest = '"' :: rest' ∧ munchText cs = ⟨.ok (.text (String.ofList body)), body.length + 1⟩) ∨
        (rest = [] ∨ rest.head? = some '\n') ∧ munchText cs = ⟨.error .unterminatedText, body.length⟩) := by
  obtain ⟨body, rest, rfl, hbody, hhead, hrun⟩ := exists_run (fun c => c != '"' && c != '\n') cs
  refine ⟨body, rest, rfl, fun c hc => by simpa using hbody c hc, ?_⟩
  simp only [munchText, hrun, List.drop_left]
  split
  next rest' => exact .inl ⟨rest', rfl, rfl⟩
  next hquote =>
    cases rest with
    | nil => exact .inr ⟨.inl rfl, rfl⟩
    | cons c rest =>
        have hc : c ≠ '"' := fun hc => hquote rest (by rw [hc])
        have hend : c = '\n' := by simpa [hc] using hhead c rfl
        exact .inr ⟨.inr (by rw [hend]; rfl), rfl⟩

theorem munchSymbol_takes {c : Char} {cs : List Char} {kind : Kind} (h : (munchSymbol c cs).outcome = .ok kind) :
    (munchSymbol c cs).Takes c cs kind := by
  unfold munchSymbol at h ⊢
  split at h
  next mark hmark =>
    cases cs with
    | nil => cases hmark
    | cons d cs =>
        have hspelling := Symbol.spelling_of_ofPair? hmark
        cases h
        exact ⟨[d], cs, rfl, rfl, hspelling ▸ .symbol mark⟩
  next =>
    split at h
    next mark hmark =>
      have hspelling := Symbol.spelling_of_ofChar? hmark
      cases h
      exact ⟨[], cs, rfl, rfl, hspelling ▸ .symbol mark⟩
    next => cases h

theorem munch_takes {c : Char} {cs : List Char} {kind : Kind} (h : (munch c cs).outcome = .ok kind) :
    (munch c cs).Takes c cs kind := by
  revert h
  fun_cases munch c cs with
  | case1 hc =>
      intro h
      cases h
      exact ⟨[], cs, rfl, rfl, eq_of_beq hc ▸ .newline⟩
  | case2 _ hc =>
      intro h
      cases h
      exact ⟨[], cs, rfl, rfl, eq_of_beq hc ▸ .foundation⟩
  | case3 _ _ hc =>
      intro h
      obtain rfl := eq_of_beq hc
      obtain ⟨body, rest, rfl, hbody, ⟨rest', rfl, hmunch⟩ | ⟨-, hmunch⟩⟩ := munchText_cases cs
      · rw [hmunch] at h ⊢
        cases h
        exact ⟨body ++ ['"'], rest', by simp, by simp, .text hbody⟩
      · rw [hmunch] at h
        cases h
  | case4 _ _ _ hc =>
      intro h
      simp only [Bool.and_eq_true, beq_iff_eq] at hc
      obtain ⟨rfl, hhead⟩ := hc
      obtain ⟨cs, rfl⟩ := List.head?_eq_some_iff.1 hhead
      obtain ⟨kind', hkind, htakes⟩ := munchComment_takes cs
      cases hkind.symm.trans h
      exact htakes
  | case5 _ _ _ _ hc =>
      intro h
      obtain ⟨kind', hkind, htakes⟩ := munchNumber_takes hc cs
      cases hkind.symm.trans h
      exact htakes
  | case6 _ _ _ _ _ hc =>
      intro h
      obtain ⟨kind', hkind, htakes⟩ := munchWord_takes hc cs
      cases hkind.symm.trans h
      exact htakes
  | case7 => exact munchSymbol_takes

/-! ## Every token at hand is found, or a longer one -/

/-- The munch takes a token that is longer than `c :: tail`, or is this one. -/
def Munch.Covers (m : Munch) (kind : Kind) (tail : List Char) : Prop :=
  ∃ found, m.outcome = .ok found ∧ tail.length ≤ m.extra ∧ (m.extra = tail.length → found = kind)

theorem eq_nil_of_length {run more : List Char} {n : Nat}
    (h : (run ++ more).length + n = run.length + n) : more = [] := by
  rw [List.length_append] at h
  exact List.eq_nil_of_length_eq_zero (by omega)

theorem takeWhile_stops {p : Char → Bool} {run : List Char} (h : ∀ c ∈ run, p c = true) {d : Char} (hd : p d = false)
    {rest : List Char} : (run ++ d :: rest).takeWhile p = run := by
  simp [List.takeWhile_append_of_pos h, hd]

theorem munchWord_covers {c : Char} {tail : List Char} (h : ∀ c ∈ tail, Text.continuesName c = true)
    (rest : List Char) :
    (munchWord c (tail ++ rest)).Covers (wordKind (String.ofList (c :: tail))) tail := by
  have hrun : (tail ++ rest).takeWhile Text.continuesName = tail ++ rest.takeWhile Text.continuesName :=
    List.takeWhile_append_of_pos h
  simp only [munchWord, hrun]
  refine ⟨_, rfl, by simp, fun hlength => ?_⟩
  rw [eq_nil_of_length (n := 0) hlength, List.append_nil]

theorem munchComment_covers {line : List Char} (h : ∀ c ∈ line, c ≠ '\n') (rest : List Char) :
    (munchComment ('/' :: (line ++ rest))).Covers (.comment (String.ofList line)) ('/' :: line) := by
  have hslash : ('/' :: (line ++ rest)).takeWhile (· != '\n') = '/' :: (line ++ rest.takeWhile (· != '\n')) := by
    have hrun : (line ++ rest).takeWhile (· != '\n') = line ++ rest.takeWhile (· != '\n') :=
      List.takeWhile_append_of_pos (by simpa using h)
    simp [hrun]
  simp only [munchComment, hslash]
  refine ⟨_, rfl, by simp, fun hlength => ?_⟩
  rw [eq_nil_of_length (n := 1) hlength, List.append_nil]
  rfl

theorem munchText_covers {body : List Char} (h : ∀ c ∈ body, c ≠ '"' ∧ c ≠ '\n') (rest : List Char) :
    (munchText (body ++ '"' :: rest)).Covers (.text (String.ofList body)) (body ++ ['"']) := by
  have hrun : (body ++ '"' :: rest).takeWhile (fun c => c != '"' && c != '\n') = body :=
    takeWhile_stops (by simpa using h) (by decide)
  simp only [munchText, hrun, List.drop_left]
  exact ⟨_, rfl, by simp, fun _ => rfl⟩

theorem announced_covers {radix : Nat} {letter : Char} {digits : List Char} (hletter : radix? letter = some radix)
    (h : Digits (isDigitIn radix) digits) (rest : List Char) :
    (munchNumber '0' (letter :: (digits ++ rest))).Covers (.number (accumulate radix digits)) (letter :: digits) := by
  have hrun : (digits ++ rest).takeWhile (isDigitIn radix) = digits ++ rest.takeWhile (isDigitIn radix) :=
    List.takeWhile_append_of_pos h.all
  have hradix : announcedRadix? '0' (letter :: (digits ++ rest)) = some radix := by
    obtain ⟨digit, digits, rfl⟩ := List.exists_cons_of_ne_nil h.nonempty
    simp [announcedRadix?, hletter, h.all digit (by simp)]
  simp only [munchNumber, hradix, List.drop_succ_cons, List.drop_zero, hrun]
  refine ⟨_, rfl, by simp, fun hlength => ?_⟩
  rw [eq_nil_of_length (n := 1) hlength, List.append_nil]

theorem fractionLength_of_digits {digits : List Char} (h : Digits Char.isDigit digits) (rest : List Char) :
    fractionLength ('.' :: (digits ++ rest)) = 1 + digits.length + (rest.takeWhile Char.isDigit).length := by
  obtain ⟨digit, digits, rfl⟩ := List.exists_cons_of_ne_nil h.nonempty
  rw [fractionLength, List.takeWhile_append_of_pos h.all]
  simp
  omega

theorem exponentLength_of_digits {e : Char} {sign digits : List Char} (he : e = 'e' ∨ e = 'E')
    (hsign : sign = [] ∨ sign = ['+'] ∨ sign = ['-']) (h : Digits Char.isDigit digits) (rest : List Char) :
    exponentLength (e :: (sign ++ (digits ++ rest))) =
      1 + sign.length + digits.length + (rest.takeWhile Char.isDigit).length := by
  obtain ⟨digit, digits, rfl⟩ := List.exists_cons_of_ne_nil h.nonempty
  have hdigit : digit.isDigit = true := h.all digit (by simp)
  have hplus : digit ≠ '+' := ne_of_class hdigit (by decide)
  have hminus : digit ≠ '-' := ne_of_class hdigit (by decide)
  have hrun : (digit :: digits ++ rest).takeWhile Char.isDigit = digit :: digits ++ rest.takeWhile Char.isDigit :=
    List.takeWhile_append_of_pos h.all
  have hlength : (if (sign ++ (digit :: digits ++ rest)).head? == some '+' ||
      (sign ++ (digit :: digits ++ rest)).head? == some '-' then 1 else 0) = sign.length := by
    rcases hsign with rfl | rfl | rfl <;> simp [hplus, hminus]
  rw [exponentLength, if_pos (by simpa using he)]
  simp only [hlength, List.drop_left, hrun]
  simp only [List.cons_append, List.length_cons, List.length_append]
  omega

theorem decimalLength_covers {tail : List Char} (h : DecimalTail tail) (rest : List Char) :
    tail.length ≤ decimalLength (tail ++ rest) := by
  obtain ⟨hwhole, hfraction, hexponent⟩ := h
  rename_i whole fraction exponent
  cases hfraction with
  | none =>
      cases hexponent with
      | none =>
          have hrun : (whole ++ rest).takeWhile Char.isDigit = whole ++ rest.takeWhile Char.isDigit :=
            List.takeWhile_append_of_pos hwhole
          simp only [List.append_nil, decimalLength, hrun, List.length_append]
          omega
      | @some e sign digits he hsign hdigits =>
          have hrun : (whole ++ e :: (sign ++ (digits ++ rest))).takeWhile Char.isDigit = whole :=
            takeWhile_stops hwhole (by rcases he with rfl | rfl <;> decide)
          have hnone : fractionLength (e :: (sign ++ (digits ++ rest))) = 0 := by
            rcases he with rfl | rfl <;> rfl
          have hlength := decimalLength_append hrun
          rw [hnone, List.drop_zero, exponentLength_of_digits he hsign hdigits] at hlength
          simp only [List.nil_append, List.append_assoc, List.cons_append, hlength, List.length_append,
            List.length_cons]
          omega
  | @some decimals hdecimals =>
      cases hexponent with
      | none =>
          have hrun : (whole ++ '.' :: (decimals ++ rest)).takeWhile Char.isDigit = whole :=
            takeWhile_stops hwhole (by decide)
          have hlength := decimalLength_append hrun
          rw [fractionLength_of_digits hdecimals] at hlength
          simp only [List.append_nil, List.append_assoc, List.cons_append, hlength, List.length_append,
            List.length_cons]
          omega
      | @some e sign digits he hsign hdigits =>
          have hrun : (whole ++ '.' :: (decimals ++ e :: (sign ++ (digits ++ rest)))).takeWhile Char.isDigit = whole :=
            takeWhile_stops hwhole (by decide)
          have hnone : (e :: (sign ++ (digits ++ rest))).takeWhile Char.isDigit = [] := by
            rcases he with rfl | rfl <;> simp
          have hlength := decimalLength_append hrun
          have hdrop : ('.' :: (decimals ++ e :: (sign ++ (digits ++ rest)))).drop (1 + decimals.length) =
              e :: (sign ++ (digits ++ rest)) := by
            rw [Nat.add_comm, List.drop_succ_cons, List.drop_left]
          rw [fractionLength_of_digits hdecimals, hnone, List.length_nil, Nat.add_zero, hdrop,
            exponentLength_of_digits he hsign hdigits] at hlength
          simp only [List.append_assoc, List.cons_append, hlength, List.length_append, List.length_cons]
          omega

theorem DecimalTail.head {c : Char} {tail : List Char} (h : DecimalTail (c :: tail)) :
    c.isDigit = true ∨ c = '.' ∨ c = 'e' ∨ c = 'E' := by
  generalize htail : c :: tail = cs at h
  obtain ⟨hwhole, hfraction, hexponent⟩ := h
  rename_i whole fraction exponent
  cases whole with
  | cons d whole =>
      cases htail
      exact .inl (hwhole c (by simp))
  | nil =>
      cases hfraction with
      | some hdigits => cases htail; exact .inr (.inl rfl)
      | none =>
          cases hexponent with
          | some he _ _ => cases htail; exact .inr (.inr he)
          | none => cases htail

theorem decimal_covers {c : Char} {tail : List Char} (h : DecimalTail tail) (rest : List Char) :
    (munchNumber c (tail ++ rest)).Covers (.number ((Number.read? (c :: tail)).getD 0.0)) tail := by
  cases hradix : announcedRadix? c (tail ++ rest) with
  | none =>
      have hlength := decimalLength_covers h rest
      simp only [munchNumber, hradix]
      refine ⟨_, rfl, hlength, fun heq => ?_⟩
      rw [show decimalLength (tail ++ rest) = tail.length from heq, List.take_left]
  | some radix =>
      -- the letter that announces the radix ends the decimal number
      obtain ⟨-, letter, digit, rest', heq, hletter, -⟩ := announcedRadix?_cases hradix
      have htail : tail = [] := by
        cases tail with
        | nil => rfl
        | cons d tail =>
            have hhead := h.head
            rw [(List.cons.inj heq).1] at hhead
            obtain ⟨-, rfl | rfl⟩ | ⟨-, rfl | rfl⟩ := radix?_cases hletter <;> exact absurd hhead (by decide)
      simp only [munchNumber, hradix]
      exact ⟨_, rfl, by simp [htail], by simp [htail]⟩

theorem munchSymbol_covers_one {c : Char} {mark : Symbol} (hc : Symbol.ofChar? c = some mark) (rest : List Char) :
    (munch c rest).Covers (.symbol mark) [] := by
  by_cases hcomment : c = '/' ∧ rest.head? = some '/'
  · obtain ⟨rfl, hhead⟩ := hcomment
    obtain ⟨rest, rfl⟩ := List.head?_eq_some_iff.1 hhead
    exact ⟨_, rfl, Nat.zero_le _, fun hlength => by simp [munch, munchComment] at hlength⟩
  · rw [munch_symbol hc fun hslash hhead => hcomment ⟨hslash, hhead⟩, munchSymbol]
    split
    next => exact ⟨_, rfl, Nat.zero_le _, fun hlength => by cases hlength⟩
    next =>
      simp only [hc]
      exact ⟨_, rfl, le_rfl, fun _ => rfl⟩

theorem munchSymbol_covers_two {c d : Char} {mark : Symbol} (hcd : Symbol.ofPair? c d = some mark) (rest : List Char) :
    (munch c (d :: rest)).Covers (.symbol mark) [d] := by
  obtain ⟨first, hc⟩ := Option.isSome_iff_exists.1 (Symbol.ofChar?_isSome_of_ofPair? hcd)
  have hcomment : c = '/' → (d :: rest).head? ≠ some '/' := by
    rintro rfl hhead
    cases hhead
    cases hcd
  rw [munch_symbol hc hcomment]
  simp only [munchSymbol, List.head?_cons, Option.bind_some, hcd]
  exact ⟨_, rfl, le_rfl, fun _ => rfl⟩

theorem symbol_covers (mark : Symbol) {c : Char} {tail : List Char} (h : mark.spelling.toList = c :: tail)
    (rest : List Char) : (munch c (tail ++ rest)).Covers (.symbol mark) tail := by
  obtain ⟨c', hspelling, hc⟩ | ⟨c', d, hspelling, hcd⟩ := mark.spelling_shape
  · cases hspelling.symm.trans h
    exact munchSymbol_covers_one hc rest
  · cases hspelling.symm.trans h
    exact munchSymbol_covers_two hcd rest

theorem munch_covers {kind : Kind} {c : Char} {tail : List Char} (h : Spells kind (c :: tail)) (rest : List Char) :
    (munch c (tail ++ rest)).Covers kind tail := by
  generalize hlexeme : c :: tail = lexeme at h
  cases h with
  | newline => cases hlexeme; exact ⟨_, rfl, le_rfl, fun _ => rfl⟩
  | foundation => cases hlexeme; exact ⟨_, rfl, le_rfl, fun _ => rfl⟩
  | comment hline => cases hlexeme; exact munchComment_covers hline rest
  | text hbody =>
      cases hlexeme
      rw [List.append_assoc]
      exact munchText_covers hbody rest
  | word hc htail =>
      cases hlexeme
      rw [munch_word hc]
      exact munchWord_covers htail rest
  | hexadecimal hx hdigits =>
      cases hlexeme
      exact announced_covers (by rcases hx with rfl | rfl <;> rfl) hdigits rest
  | binary hb hdigits =>
      cases hlexeme
      exact announced_covers (by rcases hb with rfl | rfl <;> rfl) hdigits rest
  | decimal hc htail =>
      cases hlexeme
      rw [munch_digit hc]
      exact decimal_covers htail rest
  | symbol mark => exact symbol_covers mark hlexeme.symm rest

/-! ## Where there is no token -/

theorem munchSymbol_of_none {c : Char} (hc : Symbol.ofChar? c = none) (cs : List Char) :
    munchSymbol c cs = ⟨.error (.unexpectedCharacter c), 0⟩ := by
  have hpair : cs.head?.bind (Symbol.ofPair? c) = none := by
    cases cs with
    | nil => rfl
    | cons d cs =>
        cases hcd : Symbol.ofPair? c d with
        | none => exact hcd
        | some mark => simpa [hc] using Symbol.ofChar?_isSome_of_ofPair? hcd
  simp only [munchSymbol, hpair, hc]

/-- A text begins with no token if a quote is not closed on its line, or with a character that begins none. -/
theorem munch_refuses {c : Char} {cs : List Char} {cause : Diagnostic.Cause} (h : (munch c cs).outcome = .error cause) :
    (c = '"' ∧ cause = .unterminatedText ∧ ∃ body rest, cs = body ++ rest ∧ (∀ c ∈ body, c ≠ '"' ∧ c ≠ '\n') ∧
      (rest = [] ∨ rest.head? = some '\n') ∧ (munch c cs).extra = body.length) ∨
    cause = .unexpectedCharacter c ∧ (munch c cs).extra = 0 ∧ ∀ kind tail, ¬ Spells kind (c :: tail) := by
  revert h
  fun_cases munch c cs with
  | case1 hc => intro h; cases h
  | case2 _ hc => intro h; cases h
  | case3 _ _ hc =>
      intro h
      obtain ⟨body, rest, rfl, hbody, ⟨rest', rfl, hmunch⟩ | ⟨hrest, hmunch⟩⟩ := munchText_cases cs
      · rw [hmunch] at h
        cases h
      · rw [hmunch] at h ⊢
        cases h
        exact .inl ⟨eq_of_beq hc, rfl, body, rest, rfl, hbody, hrest, rfl⟩
  | case4 _ _ _ hc => intro h; cases h
  | case5 _ _ _ _ hc =>
      intro h
      obtain ⟨kind, hkind, -⟩ := munchNumber_takes hc cs
      cases hkind.symm.trans h
  | case6 _ _ _ _ _ hc => intro h; cases h
  | case7 hnewline hfoundation hquote _ hdigit hname =>
      intro h
      cases hc : Symbol.ofChar? c with
      | some mark =>
          simp only [munchSymbol, hc] at h
          split at h <;> cases h
      | none =>
          rw [munchSymbol_of_none hc] at h ⊢
          cases h
          refine .inr ⟨rfl, rfl, fun kind tail hspells => ?_⟩
          have hslash : c ≠ '/' := by
            rintro rfl
            cases hc
          obtain ⟨found, hfound, -⟩ := munch_covers hspells []
          simp [munch, hnewline, hfoundation, hquote, hslash, hdigit, hname, munchSymbol_of_none hc] at hfound

end Cairn.Token
