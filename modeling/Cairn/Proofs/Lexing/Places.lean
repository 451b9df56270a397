import Cairn.Proofs.Lexing.Segmentation

/-!
# Where tokens and faults stand

Positions are ordered as one reads: by lines, then by columns. The entries of a segmentation stand in that order, each
of them at the place in the text that its position tells, and the end of the text comes last.
-/

namespace Cairn

/-! ## The order of positions -/

/-- `p` comes before `q` in reading. -/
def Position.Before (p q : Position) : Prop := p.line < q.line ∨ p.line = q.line ∧ p.column < q.column

namespace Position

theorem Before.trans {p q r : Position} (hpq : p.Before q) (hqr : q.Before r) : p.Before r := by
  unfold Before at *
  omega

theorem before_step (p : Position) (c : Char) : p.Before (p.step c) := by
  unfold Before step
  split
  · exact .inl (Nat.lt_succ_self _)
  · exact .inr ⟨rfl, Nat.lt_succ_self _⟩

theorem before_advance (p : Position) {cs : List Char} (h : cs ≠ []) : p.Before (p.advance cs) := by
  induction cs generalizing p with
  | nil => exact absurd rfl h
  | cons c cs ih =>
      by_cases hcs : cs = []
      · subst hcs
        exact before_step p c
      · exact (before_step p c).trans (ih _ hcs)

theorem behind_before {before cs : List Char} (h : cs ≠ []) : (behind before).Before (behind (before ++ cs)) := by
  rw [← advance_behind]
  exact before_advance _ h

end Position

/-! ## What an entry says of the text -/

/-- The token begins where its position tells; only the end of the text has no first character. -/
def Token.StandsIn (text : List Char) (t : Token) : Prop :=
  ∃ before after, text = before ++ after ∧ t.position = .behind before ∧
    ((t.lexeme.toList ≠ [] ∧ t.lexeme.toList <+: after) ∨ (t.kind = .eof ∧ after = []))

/-- Where the position tells, there is a character that begins no token, or a quote that is not closed on its line. -/
def Diagnostic.MarksNoToken (text : List Char) (d : Diagnostic) : Prop :=
  ∃ before c after, text = before ++ c :: after ∧ d.position = .behind before ∧
    ((d.cause = .unexpectedCharacter c ∧ Text.isBlank c = false ∧ ∀ kind tail, ¬ Token.Spells kind (c :: tail)) ∨
      (d.cause = .unterminatedText ∧ c = '"' ∧ ∃ body rest, after = body ++ rest ∧
        (∀ x ∈ body, x ≠ '"' ∧ x ≠ '\n') ∧ (rest = [] ∨ rest.head? = some '\n')))

namespace Token

/-- Where the position of an entry tells, the text has a token, or none as the fault says. -/
def entryStands (text : List Char) : Except Diagnostic Token → Prop
  | .ok t => t.StandsIn text
  | .error d => d.MarksNoToken text

def entryPosition : Except Diagnostic Token → Position
  | .ok t => t.position
  | .error d => d.position

variable {before text : List Char} {entries : List (Except Diagnostic Token)}

theorem Segments.stands (h : Segments before text entries) :
    ∀ entry ∈ entries, entryStands (before ++ text) entry := by
  induction h with
  | done before =>
      intro entry hentry
      rw [List.mem_singleton.1 hentry]
      exact ⟨before, [], rfl, rfl, .inr ⟨rfl, rfl⟩⟩
  | blank _ _ ih => simpa using ih
  | @token before lexeme rest kind entries hlexeme _ ih =>
      rw [List.forall_mem_cons]
      refine ⟨⟨before, lexeme ++ rest, rfl, rfl, .inl ?_⟩, by simpa using ih⟩
      obtain ⟨c, tail, rfl⟩ := hlexeme.spells.exists_cons
      simp
  | @stray before rest c entries hc hstarts _ ih =>
      rw [List.forall_mem_cons]
      exact ⟨⟨before, c, rest, rfl, rfl, .inl ⟨rfl, hc, hstarts⟩⟩, by simpa using ih⟩
  | @unclosed before body rest entries hbody hrest _ ih =>
      rw [List.forall_mem_cons]
      exact ⟨⟨before, '"', body ++ rest, rfl, rfl, .inr ⟨rfl, rfl, body, rest, rfl, hbody, hrest⟩⟩, by simpa using ih⟩

theorem Segments.behind (h : Segments before text entries) :
    ∀ entry ∈ entries, ∃ part, entryPosition entry = .behind (before ++ part) := by
  -- Whatever was cut off first is the beginning of the part.
  have hlater {front : List Char} {entries : List (Except Diagnostic Token)} {b : List Char}
      (ih : ∀ entry ∈ entries, ∃ part, entryPosition entry = .behind (b ++ front ++ part)) :
      ∀ entry ∈ entries, ∃ part, entryPosition entry = .behind (b ++ part) := by
    intro entry hentry
    obtain ⟨part, hpart⟩ := ih entry hentry
    exact ⟨front ++ part, by rw [hpart, List.append_assoc]⟩
  have hhere (b : List Char) : ∃ part, Position.behind b = .behind (b ++ part) := ⟨[], by rw [List.append_nil]⟩
  induction h with
  | done before => simpa [entryPosition] using hhere before
  | blank _ _ ih => exact hlater ih
  | token _ _ ih => exact List.forall_mem_cons.2 ⟨hhere _, hlater ih⟩
  | stray _ _ _ ih => exact List.forall_mem_cons.2 ⟨hhere _, hlater ih⟩
  | unclosed _ _ _ ih => exact List.forall_mem_cons.2 ⟨hhere _, hlater ih⟩

theorem Segments.sorted (h : Segments before text entries) :
    entries.Pairwise fun e f => (entryPosition e).Before (entryPosition f) := by
  have hnext {front : List Char} {entries : List (Except Diagnostic Token)} {b rest : List Char} (hfront : front ≠ [])
      (h : Segments (b ++ front) rest entries) :
      ∀ entry ∈ entries, (Position.behind b).Before (entryPosition entry) := by
    intro entry hentry
    obtain ⟨part, hpart⟩ := h.behind entry hentry
    rw [hpart, List.append_assoc]
    exact Position.behind_before (by simp [hfront])
  induction h with
  | done before => exact List.pairwise_singleton _ _
  | blank _ _ ih => exact ih
  | token hlexeme h ih =>
      obtain ⟨c, tail, rfl⟩ := hlexeme.spells.exists_cons
      exact List.pairwise_cons.2 ⟨hnext (by simp) h, ih⟩
  | stray _ _ h ih => exact List.pairwise_cons.2 ⟨hnext (by simp) h, ih⟩
  | unclosed _ _ h ih => exact List.pairwise_cons.2 ⟨hnext (by simp) h, ih⟩

theorem Segments.ends (h : Segments before text entries) :
    ∃ front position, entries = front ++ [.ok ⟨.eof, "", position⟩] := by
  induction h with
  | done before => exact ⟨[], _, rfl⟩
  | blank _ _ ih => exact ih
  | token _ _ ih => obtain ⟨front, position, rfl⟩ := ih; exact ⟨_ :: front, position, rfl⟩
  | stray _ _ _ ih => obtain ⟨front, position, rfl⟩ := ih; exact ⟨_ :: front, position, rfl⟩
  | unclosed _ _ _ ih => obtain ⟨front, position, rfl⟩ := ih; exact ⟨_ :: front, position, rfl⟩

/-! ## Tokens and faults of a text -/

theorem tokens_stand {ts : List Token} (h : tokenize text = .ok ts) : ∀ t ∈ ts, t.StandsIn text := by
  intro t ht
  exact (tokenize_eq_ok_iff.1 h).stands (.ok t) (List.mem_map_of_mem ht)

theorem tokens_sorted {ts : List Token} (h : tokenize text = .ok ts) :
    ts.Pairwise fun t u => t.position.Before u.position := by
  have hsorted := (tokenize_eq_ok_iff.1 h).sorted
  rwa [List.pairwise_map] at hsorted

theorem tokens_end {ts : List Token} (h : tokenize text = .ok ts) :
    ∃ front position, ts = front ++ [⟨.eof, "", position⟩] := by
  obtain ⟨front, position, hts⟩ := (tokenize_eq_ok_iff.1 h).ends
  obtain ⟨front, last, rfl, -, hlast⟩ := List.map_eq_append_iff.1 hts
  obtain ⟨t, rfl, ht⟩ := List.map_eq_singleton_iff.1 hlast
  cases ht
  exact ⟨front, position, rfl⟩

theorem mem_faults {d : Diagnostic} : d ∈ faults entries ↔ .error d ∈ entries := by
  simp only [faults, List.mem_filterMap]
  constructor
  · rintro ⟨entry, hentry, hd⟩
    cases entry with
    | ok t => cases hd
    | error e => cases hd; exact hentry
  · exact fun h => ⟨.error d, h, rfl⟩

theorem faults_sorted (h : entries.Pairwise fun e f => (entryPosition e).Before (entryPosition f)) :
    (faults entries).Pairwise fun d e => d.position.Before e.position := by
  refine List.pairwise_filterMap.2 (h.imp fun {e f} hbefore d hd d' hd' => ?_)
  cases e with
  | ok t => cases hd
  | error e =>
      cases f with
      | ok t => cases hd'
      | error f => cases hd; cases hd'; exact hbefore

end Token

end Cairn
