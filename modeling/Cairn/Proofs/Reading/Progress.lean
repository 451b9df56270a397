import Cairn.Program.Parser
import Cairn.Proofs.Reading.Rules

/-!
# Readings that move on

A token list always ends with the end of the text once it is made ready, so every rule is steady wherever it is
read. Recovery may stop where it began, but only at a word that begins a statement, and a statement that begins
with such a word takes it before it can fail. So every round of reading moves on, and reading reaches the end.
-/

namespace Cairn

open Token (Kind)

namespace Program

/-! ## From statement to statement -/

theorem recover_beyond {token : Token} {rest : List Token} (h : Cursor.Closed ⟨token, rest⟩) :
    Beyond (if token.kind = .eof || token.kind.startsStatement then 0 else 1) ⟨token, rest⟩ (recover token rest) := by
  induction rest generalizing token with
  | nil =>
      have hk : token.kind = .eof := h
      simpa [recover, hk] using Beyond.refl h
  | cons t rest ih =>
      rw [recover]
      split
      · exact .refl h
      · rename_i hgo
        rw [Bool.or_eq_true, decide_eq_true_eq, not_or] at hgo
        have hnext : Beyond 1 ⟨token, t :: rest⟩ ⟨t, rest⟩ := (Beyond.refl h).advance hgo.1
        split
        · exact hnext
        · exact (hnext.trans (ih hnext.closed)).mono (Nat.le_add_right 1 _)

theorem eq_of_beyond {o c : Cursor} {j : Nat} (h : Beyond j o c) (hlen : c.rest.length = o.rest.length) : c = o := by
  have htokens := h.tokens.eq_of_length (by simp [Cursor.tokens, hlen])
  obtain ⟨t, rest⟩ := c
  obtain ⟨u, more⟩ := o
  simpa [Cursor.tokens] using htokens

section

variable {depth : Nat} {progress : Progress} {c : Cursor} (hc : c.Closed) (hn : c.rest.length < depth)

include hc hn

theorem stmt_ends :
    (grammar depth).stmt.Ends c c (fun _ => 1) (if c.kind.startsStatement then 1 else 0) := by
  cases depth with
  | zero => exact absurd hn (Nat.not_lt_zero _)
  | succ depth => exact (grammar_steady depth).statement_ends hc hn

/-- A fault that took nothing stands at a word that begins no statement, and recovery skips it. -/
theorem recover_of_failed {fault : Diagnostic} {c' : Cursor} (hk : c.kind ≠ .eof)
    (h : (grammar depth).stmt c = .failed fault c') : Beyond 1 c (recover c'.token c'.rest) := by
  have hends := stmt_ends hc hn
  rw [Parse.Ends, h] at hends
  have hskip := recover_beyond hends.closed
  by_cases hlen : c'.rest.length = c.rest.length
  · -- The fault was found where the statement began, so no word stands there that it would have taken.
    obtain rfl := eq_of_beyond hends hlen
    have hs : ¬ c'.kind.startsStatement := by
      intro hs
      have hspent := hends.spent
      rw [if_pos hs] at hspent
      omega
    rwa [if_neg (by simpa [Cursor.kind] using And.intro hk hs)] at hskip
  · have hspent := hends.spent
    have hmoved : Beyond 1 c c' := ⟨hends.tokens, by omega, hends.closed⟩
    exact (hmoved.trans hskip).mono (Nat.le_add_right 1 _)

theorem round_moves_on (hk : c.kind ≠ .eof) :
    ∃ progress' c', round depth progress c = some (progress', c') ∧ Beyond 1 c c' := by
  unfold round
  split
  · exact ⟨_, _, rfl, (Beyond.refl hc).advance hk⟩
  · have hends := stmt_ends hc hn
    cases h : (grammar depth).stmt c with
    | done s c' => rw [Parse.Ends, h] at hends; exact ⟨_, _, rfl, hends⟩
    | failed fault c' => exact ⟨_, _, rfl, recover_of_failed hc hn hk h⟩
    | exhausted => rw [Parse.Ends, h] at hends; exact hends.elim

end

/-- The states that reading from `s` on goes through. -/
inductive Visits (depth : Nat) (s : Cursor) : Progress → Cursor → Prop where
  | start : Visits depth s {} s
  | round {progress progress' : Progress} {c c' : Cursor} (visited : Visits depth s progress c) (more : c.kind ≠ .eof)
      (step : Program.round depth progress c = some (progress', c')) : Visits depth s progress' c'

theorem Visits.beyond {depth : Nat} {s c : Cursor} {progress : Progress} (hs : s.Closed) (hn : s.rest.length < depth)
    (h : Visits depth s progress c) : Beyond 0 s c := by
  induction h with
  | start => exact .refl hs
  | round visited more step ih =>
      rename_i before after c c'
      have hlen : c.rest.length < depth := by have := ih.spent; omega
      obtain ⟨_, _, hround, hmoved⟩ := round_moves_on ih.closed hlen more
      rw [step] at hround
      cases hround
      exact (ih.trans hmoved).mono (Nat.zero_le _)

theorem statements_reach_end {depth allowance : Nat} {s c : Cursor} {progress : Progress} (hs : s.Closed)
    (hn : s.rest.length < depth) (h : Visits depth s progress c) (ha : c.rest.length < allowance) :
    ∃ c', Visits depth s (statements depth progress c allowance) c' ∧ c'.kind = .eof := by
  induction allowance generalizing progress c with
  | zero => exact absurd ha (Nat.not_lt_zero _)
  | succ allowance ih =>
      by_cases hk : c.kind = .eof
      · rw [statements, if_pos hk]
        exact ⟨c, h, hk⟩
      · have hc := h.beyond hs hn
        have hlen : c.rest.length < depth := by have := hc.spent; omega
        obtain ⟨progress', c', hround, hmoved⟩ := round_moves_on hc.closed hlen hk
        have hless : c'.rest.length < c.rest.length := hmoved.spent
        rw [statements, if_neg hk, hround]
        simp only [if_neg (Nat.ne_of_lt hless)]
        exact ih (.round h hk hround) (by omega)

theorem closed_start (tokens : List Token) : (start tokens).Closed := by
  simp only [start]
  split
  · rfl
  · split
    · assumption
    · simp [Cursor.Closed]

/-- At every place among the tokens every rule finishes and never moves back; statements, expressions and patterns
move on. Reading goes from round to round, each of which moves on, until it stands on the end. -/
theorem parse_moves_on (tokens : List Token) :
    (∀ depth c, c.tokens <:+ (start tokens).tokens → c.rest.length < depth →
      (∀ (α : Type) (p : Parse α), (grammar depth).Rule p → p.Ends c c (fun _ => 0) 0) ∧
      (grammar depth).stmt.Ends c c (fun _ => 1) 0 ∧
      (grammar depth).expr.Ends c c (fun _ => 1) 0 ∧
      Grammar.pattern.Ends c c (fun _ => 1) 0) ∧
    let depth := (start tokens).rest.length + 1
    (∀ progress c, Visits depth (start tokens) progress c →
      c.tokens <:+ (start tokens).tokens ∧
      (c.kind ≠ .eof → ∃ progress' c', round depth progress c = some (progress', c') ∧
        c'.tokens <:+ c.tokens ∧ c'.rest.length < c.rest.length)) ∧
    ∃ progress c, Visits depth (start tokens) progress c ∧ c.kind = .eof ∧ parse tokens = progress.outcome := by
  have hs := closed_start tokens
  refine ⟨fun depth c hsuffix hn => ?_, fun progress c hvisits => ?_, ?_⟩
  · have hc := hs.of_suffix hsuffix
    have hg := grammar_steady depth
    exact ⟨fun _ _ hp => hg.rule hp c hc hn, hg.stmt c hc hn, hg.expr c hc hn, Grammar.pattern_steady _ c hc hn⟩
  · have hc := hvisits.beyond hs (Nat.lt_succ_self _)
    refine ⟨hc.tokens, fun hk => ?_⟩
    obtain ⟨progress', c', hround, hmoved⟩ := round_moves_on hc.closed (Nat.lt_succ_of_le hc.spent) hk
    exact ⟨progress', c', hround, hmoved.tokens, hmoved.spent⟩
  · obtain ⟨c, hvisits, hk⟩ := statements_reach_end hs (Nat.lt_succ_self _) .start (Nat.lt_succ_self _)
    exact ⟨_, c, hvisits, hk, rfl⟩

end Program

end Cairn
