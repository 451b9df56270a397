import Cairn.Proofs.Layout.Programs
import Cairn.Proofs.Reading.Mirrors
import Cairn.Proofs.Reading.Progress

/-!
# Programs one after another

If a text can be read, a semicolon and another text may follow it: what is read then are the statements of the first
text and those of the second, and the faults are those of the second.
-/

namespace Cairn

open Token (Kind)
open Joint (Twin)

theorem Cursor.eq_of_tokens {c d : Cursor} (h : c.tokens = d.tokens) : c = d := by
  obtain ⟨t, rest⟩ := c
  obtain ⟨u, more⟩ := d
  simpa [tokens] using h

namespace Program

/-! ## Reading as a run -/

section

variable {depth allowance : Nat} {s c : Cursor} {progress : Progress} {tokens : List Token}

/-- A run is a part of what is read, and allowance is left for the tokens that are. -/
theorem statements_of_visits (hs : s.Closed) (hn : s.rest.length < depth) (ha : s.rest.length < allowance)
    (h : Visits depth s progress c) :
    ∃ left, c.rest.length < left ∧ statements depth {} s allowance = statements depth progress c left := by
  induction h with
  | start => exact ⟨allowance, ha, rfl⟩
  | round visited more step ih =>
      rename_i before after c c'
      obtain ⟨left, hleft, heq⟩ := ih
      have hc := visited.beyond hs hn
      have hlen : c.rest.length < depth := by have := hc.spent; omega
      obtain ⟨_, _, hround, hmoved⟩ : ∃ p d, Program.round depth before c = some (p, d) ∧ Beyond 1 c d :=
        round_moves_on hc.closed hlen more
      rw [step] at hround
      cases hround
      have hless : c'.rest.length < c.rest.length := hmoved.spent
      obtain ⟨left, rfl⟩ := Nat.exists_eq_add_of_lt hleft
      refine ⟨c.rest.length + left, by omega, heq.trans ?_⟩
      rw [statements, if_neg more, step]
      simp only [if_neg (Nat.ne_of_lt hless)]

theorem parse_of_visits (h : Visits ((start tokens).rest.length + 1) (start tokens) progress c) (hk : c.kind = .eof) :
    parse tokens = progress.outcome := by
  obtain ⟨left, hleft, heq⟩ :=
    statements_of_visits (closed_start tokens) (Nat.lt_succ_self _) (Nat.lt_succ_self _) h
  obtain ⟨left, rfl⟩ := Nat.exists_eq_add_of_lt hleft
  have hend : statements ((start tokens).rest.length + 1) progress c (c.rest.length + left + 1) = progress :=
    if_pos hk
  exact congrArg Progress.outcome (heq.trans hend)

theorem exists_visits_of_parse (tokens : List Token) :
    ∃ progress c, Visits ((start tokens).rest.length + 1) (start tokens) progress c ∧ c.kind = .eof ∧
      parse tokens = progress.outcome := by
  obtain ⟨c, hvisits, hk⟩ :=
    statements_reach_end (closed_start tokens) (Nat.lt_succ_self _) .start (Nat.lt_succ_self _)
  exact ⟨_, c, hvisits, hk, parse_of_visits hvisits hk⟩

end

/-! ## The first text -/

section

variable {J : Joint} {depth depth' : Nat} {progress progress' : Progress} {s c c' d : Cursor}

theorem statement_twin {g g' : Grammar} (h : g.Mirrored J g') (hc : J.Twin .longer c d) {a : Stmt}
    (hread : g.statement c = .done a c') :
    ∃ d', g'.statement d = .done a d' ∧ (J.Twin .longer c' d' ∨ c' = J.ended ∧ d' = J.after) := by
  have hbare := h.bareStmt _ c d hc
  simp only [Grammar.statement, Bind.bind] at hread ⊢
  generalize g.bareStmt c = r, g'.bareStmt d = r' at hbare hread
  cases hbare with
  | lost fault c => cases hread
  | exhausted => cases hread
  | done a hc =>
      rename_i c d
      obtain ⟨ht, hnext⟩ | ⟨-, rfl, rfl⟩ := hc.cases
      · have hkind := Joint.kind_of_token ht
        by_cases hk : d.kind = .symbol .semicolon
        · simp only [Parse.accepts, hkind, if_pos hk] at hread ⊢
          cases hread
          exact ⟨_, rfl, .inl hnext⟩
        · simp only [Parse.accepts, hkind, if_neg hk] at hread ⊢
          cases hread
          exact ⟨_, rfl, .inl hc⟩
      · simp only [Parse.accepts, Joint.kind_ended, Joint.kind_goesOn] at hread ⊢
        cases hread
        exact ⟨_, rfl, .inr ⟨rfl, rfl⟩⟩

theorem faults_of_round (h : round depth progress c = some (progress', c')) (hnone : progress'.faults = []) :
    progress.faults = [] := by
  unfold round at h
  split at h
  · cases h; exact hnone
  · split at h
    · cases h; exact hnone
    · cases h; simp at hnone
    · cases h

theorem round_twin (hle : depth ≤ depth') (hc : J.Twin .longer c d) (hk : c.kind ≠ .eof)
    (h : round depth progress c = some (progress', c')) (hnone : progress'.faults = []) :
    ∃ d', round depth' progress d = some (progress', d') ∧ (J.Twin .longer c' d' ∨ c' = J.ended ∧ d' = J.after) := by
  obtain ⟨ht, hnext⟩ | ⟨-, rfl, -⟩ := hc.cases
  · have hkind := Joint.kind_of_token ht
    unfold round at h ⊢
    rw [hkind] at h
    by_cases hsemicolon : d.kind = .symbol .semicolon
    · rw [if_pos hsemicolon] at h ⊢
      cases h
      exact ⟨_, rfl, .inl hnext⟩
    · rw [if_neg hsemicolon] at h ⊢
      cases depth with
      | zero => cases h
      | succ depth =>
          obtain ⟨depth', rfl⟩ := Nat.exists_eq_add_of_lt hle
          cases hread : (grammar (depth + 1)).stmt c with
          | done a c' =>
              rw [hread] at h
              cases h
              have hmirrored : (grammar depth).Mirrored J (grammar (depth + depth')) := grammar_mirrored (by omega)
              obtain ⟨d', hstmt, hd'⟩ := statement_twin hmirrored hc hread
              exact ⟨d', by rw [show (grammar (depth + depth' + 1)).stmt d = .done a d' from hstmt], hd'⟩
          | failed fault c' =>
              rw [hread] at h
              cases h
              simp at hnone
          | exhausted =>
              rw [hread] at h
              cases h
  · exact absurd Joint.kind_ended hk

theorem visits_twin {S : Cursor} (hle : depth ≤ depth') (hs : J.Twin .longer s S) (h : Visits depth s progress c)
    (hnone : progress.faults = []) :
    ∃ d, Visits depth' S progress d ∧ (J.Twin .longer c d ∨ c = J.ended ∧ d = J.after) := by
  induction h with
  | start => exact ⟨S, .start, .inl hs⟩
  | round visited more step ih =>
      obtain ⟨d, hvisits, hc | ⟨rfl, -⟩⟩ := ih (faults_of_round step hnone)
      · obtain ⟨d', hround, hd'⟩ := round_twin hle hc more step hnone
        have hd : d.kind ≠ .eof := by
          obtain ⟨ht, -⟩ | ⟨-, rfl, -⟩ := hc.cases
          · rwa [← Joint.kind_of_token ht]
          · exact absurd Joint.kind_ended more
        exact ⟨d', .round hvisits hd hround, hd'⟩
      · exact absurd Joint.kind_ended more

/-- When the first text is read, the longer one has been read up to the second text. -/
theorem visits_after {S : Cursor} (hle : depth ≤ depth') (hs : J.Twin .longer s S) (h : Visits depth s progress c)
    (hk : c.kind = .eof) (hnone : progress.faults = []) : Visits depth' S progress J.after := by
  obtain ⟨d, hvisits, hc | ⟨-, rfl⟩⟩ := visits_twin hle hs h hnone
  · obtain ⟨-, rfl⟩ := hc.eq_ended hk
    have hround : round depth' progress J.goesOn = some (progress, J.after) := if_pos Joint.kind_goesOn
    exact .round hvisits (by simp [Joint.kind_goesOn]) hround
  · exact hvisits

/-! ## The second text -/

/-- The same, with these statements in front. -/
def Progress.behind (body : List Stmt) (progress : Progress) : Progress :=
  { progress with body := body ++ progress.body }

theorem Progress.outcome_behind (body : List Stmt) (progress : Progress) :
    (progress.behind body).outcome = progress.outcome.map (body ++ ·) := by
  obtain ⟨stmts, faults⟩ := progress
  cases faults <;> rfl

theorem round_behind (J : Joint) (hle : depth ≤ depth') (body : List Stmt)
    (h : round depth progress c = some (progress', c')) :
    round depth' (progress.behind body) c = some (progress'.behind body, c') := by
  unfold round at h ⊢
  split
  next hk =>
    rw [if_pos hk] at h
    cases h
    rfl
  next hk =>
    rw [if_neg hk] at h
    have hstmt := (grammar_mirrored (J := J) hle).stmt _ c c (.same c)
    generalize (grammar depth).stmt c = r, (grammar depth').stmt c = r' at hstmt h
    cases hstmt with
    | done a hc =>
        cases hc
        cases h
        simp [Progress.behind]
    | failed fault c =>
        cases h
        rfl
    | exhausted => cases h

theorem visits_behind {S : Cursor} (hle : depth ≤ depth') {first : Progress} (hnone : first.faults = [])
    (hfirst : Visits depth' S first J.after) (h : Visits depth J.after progress c) :
    Visits depth' S (progress.behind first.body) c := by
  induction h with
  | start =>
      obtain ⟨body, faults⟩ := first
      cases hnone
      simpa [Progress.behind] using hfirst
  | round visited more step ih => exact .round ih more (round_behind J hle first.body step)

end

theorem Progress.of_outcome_ok {progress : Progress} {body : Program} (h : progress.outcome = .ok body) :
    progress.body = body ∧ progress.faults = [] := by
  unfold outcome at h
  split at h
  · exact ⟨Except.ok.inj h, by assumption⟩
  · cases h

/-! ## Tokens -/

theorem exists_twin (J : Joint) {ts : List Token} (hts : ∀ t ∈ ts, t.kind ≠ .eof) :
    ∃ c d : Cursor, c.tokens = ts ++ [J.eof] ∧ d.tokens = ts ++ J.semicolon :: J.after.tokens ∧
      J.Twin .longer c d := by
  induction ts with
  | nil => exact ⟨J.ended, J.goesOn, rfl, rfl, .ended⟩
  | cons t ts ih =>
      obtain ⟨c, d, hc, hd, htwin⟩ := ih fun u hu => hts u (List.mem_cons_of_mem t hu)
      refine ⟨_, _, ?_, ?_, .ahead (hts t List.mem_cons_self) htwin⟩
      · exact congrArg (t :: ·) hc
      · exact congrArg (t :: ·) hd

/-- A semicolon separates programs: behind a text that can be read and a semicolon, another text is read as it is read
alone. The end of a text is no word, so that it does not pass for the name of a property. -/
theorem parse_separated {A B : List Token} {eof semicolon : Token} {bodyA : Program}
    (hA : ∀ t ∈ A, t.kind ≠ .eof) (heof : eof.kind = .eof) (hword : Parse.isWord eof.lexeme = false)
    (hsemicolon : semicolon.kind = .symbol .semicolon) (hB : B.getLast?.map (·.kind) = some .eof)
    (hread : parse (A ++ [eof]) = .ok bodyA) :
    parse (A ++ semicolon :: B) = (parse B).map (bodyA ++ ·) := by
  obtain ⟨last, hlast, hk⟩ := Option.map_eq_some_iff.1 hB
  obtain ⟨B, rfl⟩ := List.getLast?_eq_some_iff.1 hlast
  have hmark : significant [semicolon] = [semicolon] := significant_singleton (by simp [hsemicolon, Kind.isTrivia])
  have htokens (ts : List Token) {t : Token} (ht : t.kind = .eof) :
      (start (ts ++ [t])).tokens = significant ts ++ [t] := by
    rw [tokens_start rfl ht, significant_append, significant_singleton (by simp [ht, Kind.isTrivia])]
  let J : Joint := ⟨eof, semicolon, start (B ++ [last]), heof, hword, hsemicolon⟩
  have hboth : (start (A ++ semicolon :: (B ++ [last]))).tokens = significant A ++ J.semicolon :: J.after.tokens := by
    have hall := htokens (A ++ [semicolon] ++ B) hk
    rw [significant_append, significant_append, hmark] at hall
    simpa [J, htokens B hk] using hall
  -- The two texts are twins at their beginning, and the second text is a part of the longer one.
  have hplain : ∀ t ∈ significant A, t.kind ≠ .eof := fun t ht => hA t (List.mem_filter.1 ht).1
  obtain ⟨s, S, hs, hS, htwin⟩ := exists_twin J hplain
  obtain rfl : s = start (A ++ [eof]) := Cursor.eq_of_tokens (hs.trans (htokens A heof).symm)
  obtain rfl : S = start (A ++ semicolon :: (B ++ [last])) := Cursor.eq_of_tokens (hS.trans hboth.symm)
  have hless : (start (B ++ [last])).rest.length ≤ (start (A ++ semicolon :: (B ++ [last]))).rest.length := by
    have hlength := congrArg List.length hboth
    simp only [Cursor.tokens, List.length_append, List.length_cons, J] at hlength
    omega
  -- The run over the first text and the run over the second, one after the other.
  obtain ⟨first, c, hvisits, hc, hfirst⟩ := exists_visits_of_parse (A ++ [eof])
  obtain ⟨second, d, hvisits', hd, hsecond⟩ := exists_visits_of_parse (B ++ [last])
  obtain ⟨rfl, hnone⟩ := Progress.of_outcome_ok (hfirst.symm.trans hread)
  have hafter := visits_after (Nat.succ_le_succ htwin.length_le) htwin hvisits hc hnone
  have hwhole := visits_behind (J := J) (Nat.succ_le_succ hless) hnone hafter hvisits'
  rw [parse_of_visits hwhole hd, Progress.outcome_behind, hsecond]

/-- `return`, a semicolon and `x`: the value of the `return` does not come from behind the semicolon. -/
theorem parse_separated_return :
    parse ([⟨.keyword .result, "return", ⟨1, 1⟩⟩] ++ ⟨.symbol .semicolon, ";", ⟨1, 7⟩⟩ ::
        [⟨.name "x", "x", ⟨1, 9⟩⟩, ⟨.eof, "", ⟨1, 10⟩⟩]) = .ok [.ret none ⟨1, 1⟩, .expr (.name "x" ⟨1, 9⟩)] := by
  have hread : parse ([⟨.keyword .result, "return", ⟨1, 1⟩⟩] ++ [⟨.eof, "", ⟨1, 7⟩⟩]) = .ok [.ret none ⟨1, 1⟩] := rfl
  have hB : parse [⟨.name "x", "x", ⟨1, 9⟩⟩, ⟨.eof, "", ⟨1, 10⟩⟩] = .ok [.expr (.name "x" ⟨1, 9⟩)] := rfl
  rw [parse_separated (by simp) rfl rfl rfl rfl hread, hB]
  rfl

end Program

end Cairn
