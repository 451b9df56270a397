import Cairn.Program.Compile
import Cairn.Proofs.Layout.Programs
import Cairn.Proofs.Lexing.Places
import Cairn.Proofs.Reading.Forms
import Cairn.Proofs.Reading.Progress

/-!
# Faults in reading order

A fault may be reported at a token that reading has left behind, and recovery may stop at the very token that was
reported. But then that token begins a statement, and the faults of the next statement stand behind it. So the faults
of a text are reported in reading order, none of them twice, and all of them where the text says so.
-/

namespace Cairn

open Token (Kind)

theorem Cursor.position_before {b c : Cursor} (hb : b.tokens.Pairwise fun t u => t.position.Before u.position)
    (h : c.tokens <:+ b.tokens) (hlen : c.rest.length < b.rest.length) :
    b.token.position.Before c.token.position := by
  obtain heq | hrest := List.suffix_cons_iff.1 h
  · have := congrArg List.length heq
    simp [tokens] at this
    omega
  · exact (List.pairwise_cons.1 hb).1 _ (hrest.subset List.mem_cons_self)

namespace Program

/-! ## The faults of a program -/

/-- The faults found from `s` to `c`: in order, at tokens that are not behind `c`, and at `c` itself only if nothing
else can be found there. -/
structure Progress.Ordered (s c : Cursor) (progress : Progress) : Prop where
  sorted : progress.faults.Pairwise fun d e => d.position.Before e.position
  left : ∀ d ∈ progress.faults, ∃ b : Cursor, b.tokens <:+ s.tokens ∧ c.tokens <:+ b.tokens ∧
    d.position = b.token.position ∧ (c.rest.length = b.rest.length → c.kind = .eof ∨ c.kind.startsStatement = true)

section

variable {depth : Nat} {s c c' : Cursor} {progress progress' : Progress}

theorem length_le_of_suffix (h : c'.tokens <:+ c.tokens) : c'.rest.length ≤ c.rest.length := by
  simpa [Cursor.tokens] using h.length_le

theorem Progress.Ordered.beyond (h : progress.Ordered s c) (hfaults : progress'.faults = progress.faults)
    (hc : Beyond 1 c c') : progress'.Ordered s c' := by
  refine ⟨hfaults ▸ h.sorted, hfaults ▸ fun d hd => ?_⟩
  obtain ⟨b, hb, hcb, hd, -⟩ := h.left d hd
  refine ⟨b, hb, hc.tokens.trans hcb, hd, fun hlen => ?_⟩
  have hle := length_le_of_suffix hcb
  have hlt := hc.spent
  omega

/-- Where recovery ends at the token of the fault, that token is the end or begins a statement. -/
theorem recover_after_fault {b : Cursor} (hc : c.Closed) (hb : c.tokens <:+ b.tokens)
    (hlen : (recover c.token c.rest).rest.length = b.rest.length) :
    (recover c.token c.rest).kind = .eof ∨ (recover c.token c.rest).kind.startsStatement = true := by
  have hskip := recover_beyond hc
  have hle := length_le_of_suffix hb
  have hspent : (recover c.token c.rest).rest.length + _ ≤ c.rest.length := hskip.spent
  split at hspent
  next hk =>
    have hsame : recover c.token c.rest = c := eq_of_beyond hskip (by omega)
    rw [hsame]
    simpa [Cursor.kind] using hk
  next => omega

theorem round_ordered (hs : s.tokens.Pairwise fun t u => t.position.Before u.position)
    (hc : Beyond 0 s c) (hn : c.rest.length < depth) (hk : c.kind ≠ .eof) (h : progress.Ordered s c)
    (hround : round depth progress c = some (progress', c')) : progress'.Ordered s c' := by
  obtain ⟨_, _, hsome, hmoved⟩ := @round_moves_on depth progress c hc.closed hn hk
  rw [hround] at hsome
  cases hsome
  unfold round at hround
  split at hround
  · cases hround
    exact h.beyond rfl hmoved
  · have hyields := grammar_stmt_yields depth c
    have hends := stmt_ends hc.closed hn
    cases hstmt : (grammar depth).stmt c with
    | exhausted => rw [hstmt] at hround; cases hround
    | done s c₁ =>
        rw [hstmt] at hround
        cases hround
        exact h.beyond rfl hmoved
    | failed fault c₁ =>
        rw [hstmt] at hround
        rw [Parse.Yields, hstmt] at hyields
        rw [Parse.Ends, hstmt] at hends
        cases hround
        obtain ⟨b₁, hb₁, hc₁, hposition⟩ := hyields
        have horigin : b₁.tokens <:+ c.tokens := by
          refine hb₁.trans ?_
          split
          · exact Cursor.tokens_advance
          · exact List.suffix_rfl
        have hkept : progress.Ordered s (recover c₁.token c₁.rest) := h.beyond rfl hmoved
        refine ⟨List.pairwise_append.2 ⟨h.sorted, List.pairwise_singleton _ _, ?_⟩, fun d hd => ?_⟩
        · intro d hd e he
          rw [List.mem_singleton.1 he, hposition]
          obtain ⟨b, hb, hcb, hd, hhere⟩ := h.left d hd
          rw [hd]
          refine Cursor.position_before (hs.sublist hb.sublist) (horigin.trans hcb) ?_
          have hle := length_le_of_suffix hcb
          by_cases hlen : c.rest.length = b.rest.length
          · -- The last fault stands where this statement begins, so this fault stands behind its first word.
            have hstarts := (hhere hlen).resolve_left hk
            rw [if_pos hstarts] at hb₁
            have hadvance := hc.closed.length_advance hk
            have hle₁ := length_le_of_suffix hb₁
            omega
          · have hle₁ := length_le_of_suffix horigin
            omega
        · obtain hd | hd := List.mem_append.1 hd
          · exact hkept.left d hd
          · rw [List.mem_singleton.1 hd]
            have hskip := recover_beyond hends.closed
            exact ⟨b₁, horigin.trans hc.tokens, hskip.tokens.trans hc₁, hposition,
              recover_after_fault hends.closed hc₁⟩

theorem Visits.ordered (hs : s.tokens.Pairwise fun t u => t.position.Before u.position) (hclosed : s.Closed)
    (hn : s.rest.length < depth) (h : Visits depth s progress c) : progress.Ordered s c := by
  induction h with
  | start => exact ⟨List.Pairwise.nil, fun d hd => absurd hd List.not_mem_nil⟩
  | round visited more step ih =>
      have hc := visited.beyond hclosed hn
      exact round_ordered hs hc (Nat.lt_of_le_of_lt hc.spent hn) more ih step

end

theorem parse_faults {ts : List Token} {ds : List Diagnostic} {front : List Token} {position : Position}
    (hlast : ts = front ++ [⟨.eof, "", position⟩]) (hts : ts.Pairwise fun t u => t.position.Before u.position)
    (h : parse ts = .error ds) :
    ds ≠ [] ∧ (ds.Pairwise fun d e => d.position.Before e.position) ∧ ∀ d ∈ ds, ∃ t ∈ ts, d.position = t.position := by
  have htokens := tokens_start hlast rfl
  have hsorted : (start ts).tokens.Pairwise fun t u => t.position.Before u.position :=
    htokens ▸ hts.sublist List.filter_sublist
  obtain ⟨c, hvisits, -⟩ :=
    statements_reach_end (closed_start ts) (Nat.lt_succ_self _) .start (Nat.lt_succ_self _)
  have hordered := hvisits.ordered hsorted (closed_start ts) (Nat.lt_succ_self _)
  unfold parse Progress.outcome at h
  simp only at h
  split at h
  next => cases h
  next hne =>
    cases h
    refine ⟨hne, hordered.sorted, fun d hd => ?_⟩
    obtain ⟨b, hb, -, hposition, -⟩ := hordered.left d hd
    have hmem : b.token ∈ significant ts := htokens ▸ hb.subset List.mem_cons_self
    exact ⟨b.token, List.mem_of_mem_filter hmem, hposition⟩

end Program

/-! ## The faults of a text -/

theorem Diagnostic.MarksNoToken.code {text : List Char} {d : Diagnostic} (h : d.MarksNoToken text) :
    d.cause.code ∈ ["L001", "L002"] := by
  obtain ⟨before, c, after, -, -, ⟨hcause, -⟩ | ⟨hcause, -⟩⟩ := h
  · simp [hcause, Cause.code]
  · simp [hcause, Cause.code]

theorem Diagnostic.Cause.code_of_syntactic {cause : Diagnostic.Cause} (h : cause.phase = .syntactic) :
    cause.code ∈ ["P001", "P002", "P003", "P004", "P005"] := by
  cases cause <;> simp_all [phase, code]

/-- A text that is refused has faults, in reading order and of one phase: all of them where no token begins, or all of
them at tokens or at the end of the fallen text. -/
theorem compile_faults_in_order {text : List Char} {ds : List Diagnostic} (h : compile text = .error ds) :
    ds ≠ [] ∧ (ds.Pairwise fun d e => d.position.Before e.position) ∧
    ((∃ entries, Token.Segments [] (preview text) entries ∧ Token.faults entries = ds ∧
        ∀ d ∈ ds, d.cause.code ∈ ["L001", "L002"] ∧ d.MarksNoToken (preview text)) ∨
      ∃ ts, Token.tokenize (preview text) = .ok ts ∧
        ∀ d ∈ ds, d.cause.code ∈ ["P001", "P002", "P003", "P004", "P005"] ∧
          ∃ t ∈ ts, d.position = t.position ∧ t.StandsIn (preview text)) := by
  obtain htokenize | ⟨ts, htokenize, hparse⟩ := Program.read_eq_error_iff.1 (compile_eq_error_iff.1 h)
  · obtain ⟨hne, entries, hsegments, rfl⟩ := Token.tokenize_eq_error_iff.1 htokenize
    refine ⟨hne, Token.faults_sorted hsegments.sorted, .inl ⟨entries, hsegments, rfl, fun d hd => ?_⟩⟩
    have hmarks : d.MarksNoToken (preview text) := hsegments.stands _ (Token.mem_faults.1 hd)
    exact ⟨hmarks.code, hmarks⟩
  · obtain ⟨front, position, hlast⟩ := Token.tokens_end htokenize
    obtain ⟨hne, hsorted, hplaces⟩ := Program.parse_faults hlast (Token.tokens_sorted htokenize) hparse
    refine ⟨hne, hsorted, .inr ⟨ts, htokenize, fun d hd => ⟨?_, ?_⟩⟩⟩
    · exact Diagnostic.Cause.code_of_syntactic (Program.parse_syntactic hparse d hd)
    · obtain ⟨t, ht, hposition⟩ := hplaces d hd
      exact ⟨t, ht, hposition, Token.tokens_stand htokenize t ht⟩

/-- `-fun`, held up by a row of foundations. -/
def unfinishedFunction : List Char := "-fun\n####".toList

/-- The first fault and the place where reading goes on are the same word. -/
theorem compile_faults_in_order_unfinished :
    compile unfinishedFunction = .error
      [⟨.missingForm .expression (.keyword .function), ⟨1, 2⟩⟩, ⟨.missingWord .identifier "", ⟨2, 5⟩⟩] ∧
    (Position.mk 1 2).Before ⟨2, 5⟩ := by
  have hfaults : compile unfinishedFunction = .error
      [⟨.missingForm .expression (.keyword .function), ⟨1, 2⟩⟩, ⟨.missingWord .identifier "", ⟨2, 5⟩⟩] := by
    cbv
  have hsorted := (compile_faults_in_order hfaults).2.1
  exact ⟨hfaults, by simpa using hsorted⟩

end Cairn
