/-!
# Classes of characters

Blanks are the characters that take up a cell and support nothing. White space is the wider class that
surrounds the text of a number.
-/

namespace Cairn.Text

/-- Space, tab and carriage return. -/
def isBlank (c : Char) : Bool :=
  c == ' ' || c == '\t' || c == '\r'

/-- Every character with the white-space property, in ASCII and beyond. -/
def isSpace (c : Char) : Bool :=
  let n := c.toNat
  (9 ≤ n && n ≤ 13) || n == 0x20 || n == 0x85 || n == 0xA0 || n == 0x1680 || (0x2000 ≤ n && n ≤ 0x200A)
    || n == 0x2028 || n == 0x2029 || n == 0x202F || n == 0x205F || n == 0x3000

/-- May `c` begin a name? -/
def startsName (c : Char) : Bool :=
  c.isAlpha || c == '_'

/-- May `c` continue a name? -/
def continuesName (c : Char) : Bool :=
  c.isAlphanum || c == '_'

/-- `cs` without the characters of `p` at either end. -/
def trim (p : Char → Bool) (cs : List Char) : List Char :=
  ((cs.dropWhile p).reverse.dropWhile p).reverse

/-- `cs` without the characters of `p` at its end. -/
def trimEnd (p : Char → Bool) (cs : List Char) : List Char :=
  (cs.reverse.dropWhile p).reverse

/-- ASCII letters in lower case; all else as it is. -/
def lowercase (s : String) : String :=
  String.ofList (s.toList.map Char.toLower)

/-- The lines of a text: one more than it has line ends. -/
def lines : List Char → List (List Char)
  | [] => [[]]
  | c :: cs =>
    match c == '\n', lines cs with
    | true, rest => [] :: rest
    | false, line :: rest => (c :: line) :: rest
    | false, [] => [[c]]

/-- Lines put back together with a line end between them. -/
def unlines : List (List Char) → List Char
  | [] => []
  | [line] => line
  | line :: rest => line ++ '\n' :: unlines rest

theorem lines_ne_nil (cs : List Char) : lines cs ≠ [] := by
  cases cs with
  | nil => simp [lines]
  | cons c cs => rw [lines]; split <;> simp

theorem length_lines (cs : List Char) : (lines cs).length = cs.count '\n' + 1 := by
  induction cs with
  | nil => rfl
  | cons c cs ih =>
    rw [lines]
    split
    next hc => simp [eq_of_beq hc, ih]
    next line rest hc hlines =>
      rw [hlines] at ih
      simpa [ne_of_beq_false hc] using ih
    next hlines => exact absurd hlines (lines_ne_nil cs)

/-- A line holds no line end. -/
theorem newline_notMem_of_mem_lines {cs line : List Char} (h : line ∈ lines cs) : '\n' ∉ line := by
  induction cs generalizing line with
  | nil => simp_all [lines]
  | cons c cs ih =>
    rw [lines] at h
    split at h
    next =>
      rcases List.mem_cons.1 h with rfl | h
      · simp
      · exact ih h
    next first rest hc hl =>
      rw [hl] at ih
      have hc : '\n' ≠ c := fun e => by simp [← e] at hc
      rcases List.mem_cons.1 h with rfl | h
      · simp [hc, ih List.mem_cons_self]
      · exact ih (List.mem_cons_of_mem _ h)
    next hl => exact absurd hl (lines_ne_nil cs)

theorem lines_of_notMem {line : List Char} (h : '\n' ∉ line) : lines line = [line] := by
  induction line with
  | nil => rfl
  | cons c line ih =>
    rw [List.mem_cons, not_or] at h
    have hc : (c == '\n') = false := beq_eq_false_iff_ne.2 (Ne.symm h.1)
    simp [lines, ih h.2, hc]

theorem lines_append {line : List Char} (h : '\n' ∉ line) (cs : List Char) :
    lines (line ++ '\n' :: cs) = line :: lines cs := by
  induction line with
  | nil => rfl
  | cons c line ih =>
    rw [List.mem_cons, not_or] at h
    have hc : (c == '\n') = false := beq_eq_false_iff_ne.2 (Ne.symm h.1)
    simp [lines, ih h.2, hc]

/-- Lines without line ends in them are found again. -/
theorem lines_unlines {ls : List (List Char)} (hne : ls ≠ []) (h : ∀ line ∈ ls, '\n' ∉ line) :
    lines (unlines ls) = ls := by
  fun_induction unlines ls with
  | case1 => exact absurd rfl hne
  | case2 line => exact lines_of_notMem (h line List.mem_cons_self)
  | case3 line rest hrest ih =>
    rw [lines_append (h line List.mem_cons_self), ih hrest fun l hl => h l (List.mem_cons_of_mem _ hl)]

/-! ## Trimming -/

theorem trim_of_forall {p : Char → Bool} {cs : List Char} (h : ∀ c ∈ cs, p c = false) : trim p cs = cs := by
  have hdrop {cs : List Char} (h : ∀ c ∈ cs, p c = false) : cs.dropWhile p = cs := by
    cases cs with
    | nil => rfl
    | cons c cs => simp [h c (by simp)]
  rw [trim, hdrop h, hdrop (by simpa using h), List.reverse_reverse]

/-- What is cut off is made of the characters of `p`. -/
theorem exists_trimEnd_append (p : Char → Bool) (cs : List Char) :
    ∃ tail, cs = trimEnd p cs ++ tail ∧ ∀ c ∈ tail, p c = true := by
  refine ⟨(cs.reverse.takeWhile p).reverse, ?_, fun c hc => ?_⟩
  · rw [trimEnd, ← List.reverse_append, List.takeWhile_append_dropWhile, List.reverse_reverse]
  · exact List.all_eq_true.1 List.all_takeWhile c (List.mem_reverse.1 hc)

theorem trimEnd_append {p : Char → Bool} {tail : List Char} (h : ∀ c ∈ tail, p c = true) (cs : List Char) :
    trimEnd p (cs ++ tail) = trimEnd p cs := by
  rw [trimEnd, List.reverse_append, List.dropWhile_append_of_pos fun c hc => h c (List.mem_reverse.1 hc)]
  rfl

@[simp] theorem trimEnd_trimEnd (p : Char → Bool) (cs : List Char) : trimEnd p (trimEnd p cs) = trimEnd p cs := by
  obtain ⟨tail, hcs, htail⟩ := exists_trimEnd_append p cs
  rw [← trimEnd_append htail, ← hcs]

end Cairn.Text
