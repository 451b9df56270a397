import Cairn.Proofs.Layout.Blindness
import Cairn.Proofs.Reading.Steps

/-!
# Programs at other positions

The grammar sees the tokens that are not layout, and of them it sees all but the positions. So tokens that differ in
their positions spell programs that do, or have the same faults at other positions.
-/

namespace Cairn.Program

open Token (Kind)
open Located (relocate relocate_concat)

variable {f : Position → Position}

instance : Located Progress := ⟨fun f progress => ⟨relocate f progress.body, relocate f progress.faults⟩⟩

instance : Located (Except (List Diagnostic) Program) where
  relocate f
    | .ok p => .ok (relocate f p)
    | .error ds => .error (relocate f ds)

/-! ## From statement to statement -/

theorem recover_relocate (token : Token) (rest : List Token) :
    recover (relocate f token) (relocate f rest) = relocate f (recover token rest) := by
  induction rest generalizing token with
  | nil => rfl
  | cons t rest ih =>
      change recover (relocate f token) (relocate f t :: relocate f rest) = _
      have hkind : (relocate f token).kind = token.kind := rfl
      simp only [recover, hkind, ih]
      split
      · rfl
      · split
        · rfl
        · rfl

theorem round_relocate (depth : Nat) (progress : Progress) (c : Cursor) :
    round depth (relocate f progress) (relocate f c) = relocate f (round depth progress c) := by
  unfold round
  rw [Cursor.kind_relocate, Cursor.advance_relocate]
  split
  · rfl
  · have hstmt := (grammar_blind (f := f) depth).stmt c
    generalize (grammar depth).stmt c = r, (grammar depth).stmt (relocate f c) = r' at hstmt
    cases hstmt with
    | done s c =>
        have hbody := relocate_concat f progress.body (foldDeclaration s)
        rw [← foldDeclaration_relocate] at hbody
        exact congrArg (fun body => some (Progress.mk body (relocate f progress.faults), relocate f c)) hbody.symm
    | failed fault c h =>
        have hfaults := relocate_concat f progress.faults fault
        have hcursor := recover_relocate (f := f) c.token c.rest
        exact congrArg₂ (fun faults c => some (Progress.mk (relocate f progress.body) faults, c)) hfaults.symm hcursor
    | exhausted => rfl

theorem statements_relocate (depth : Nat) (progress : Progress) (c : Cursor) (allowance : Nat) :
    statements depth (relocate f progress) (relocate f c) allowance =
      relocate f (statements depth progress c allowance) := by
  induction allowance generalizing progress c with
  | zero => rfl
  | succ allowance ih =>
      rw [statements, statements, Cursor.kind_relocate, round_relocate]
      split
      · rfl
      · cases round depth progress c with
        | none => rfl
        | some next =>
            obtain ⟨progress, c'⟩ := next
            have hnext : (if (relocate f c').rest.length = (relocate f c).rest.length then (relocate f c').advance
                else relocate f c') = relocate f (if c'.rest.length = c.rest.length then c'.advance else c') := by
              rw [Cursor.length_relocate, Cursor.length_relocate, Cursor.advance_relocate]
              split
              · rfl
              · rfl
            exact (congrArg (statements depth (relocate f progress) · allowance) hnext).trans (ih progress _)

/-! ## Tokens that the grammar sees -/

def significant (tokens : List Token) : List Token := tokens.filter (!·.kind.isTrivia)

theorem significant_relocate (tokens : List Token) :
    significant (relocate f tokens) = relocate f (significant tokens) := List.filter_map

theorem start_significant (tokens : List Token) : start (significant tokens) = start tokens := by
  simp [start, significant]

theorem start_of_significant {tokens rest : List Token} {first : Token} (h : significant tokens = first :: rest) :
    start tokens =
      if (rest.getLastD first).kind = .eof then ⟨first, rest⟩
      else ⟨first, rest ++ [⟨.eof, "", (rest.getLastD first).position⟩]⟩ := by
  unfold significant at h
  simp only [start, h]

theorem significant_append (ts us : List Token) : significant (ts ++ us) = significant ts ++ significant us :=
  List.filter_append ..

theorem significant_singleton {t : Token} (h : t.kind.isTrivia = false) : significant [t] = [t] := by
  simp [significant, h]

/-- Tokens that end with the end of the text are read as they are. -/
theorem tokens_start {ts front : List Token} {last : Token} (h : ts = front ++ [last]) (hk : last.kind = .eof) :
    (start ts).tokens = significant ts := by
  have hlast : significant ts = significant front ++ [last] := by
    rw [h, significant_append, significant_singleton (by simp [hk, Kind.isTrivia])]
  cases hfront : significant front with
  | nil =>
      rw [hfront, List.nil_append] at hlast
      rw [start_of_significant hlast, hlast, if_pos (by simpa using hk)]
      rfl
  | cons first rest =>
      rw [hfront, List.cons_append] at hlast
      rw [start_of_significant hlast, hlast, if_pos (by simpa using hk)]
      rfl

theorem getLastD_relocate (rest : List Token) (first : Token) :
    (relocate f rest).getLastD (relocate f first) = relocate f (rest.getLastD first) := by
  induction rest generalizing first with
  | nil => rfl
  | cons t rest ih =>
      change (relocate f t :: relocate f rest).getLastD _ = _
      rw [List.getLastD_cons, List.getLastD_cons]
      exact ih t

theorem start_relocate {tokens : List Token} (h : significant tokens ≠ []) :
    start (relocate f tokens) = relocate f (start tokens) := by
  obtain ⟨first, rest, hsignificant⟩ := List.exists_cons_of_ne_nil h
  have hmoved : significant (relocate f tokens) = relocate f first :: relocate f rest := by
    rw [significant_relocate, hsignificant]
    rfl
  have hkind : (relocate f (rest.getLastD first)).kind = (rest.getLastD first).kind := rfl
  rw [start_of_significant hmoved, start_of_significant hsignificant, getLastD_relocate, hkind]
  split
  · rfl
  · have hrest := relocate_concat f rest ⟨.eof, "", (rest.getLastD first).position⟩
    exact congrArg (Cursor.mk (relocate f first)) hrest.symm

theorem outcome_relocate (progress : Progress) :
    (relocate f progress).outcome = relocate f progress.outcome := by
  obtain ⟨body, faults⟩ := progress
  cases faults <;> rfl

/-- Tokens at other positions spell the same at other positions. -/
theorem parse_relocate {tokens : List Token} (h : significant tokens ≠ []) :
    parse (relocate f tokens) = relocate f (parse tokens) := by
  simp only [parse, start_relocate h, Cursor.length_relocate]
  exact (congrArg Progress.outcome (statements_relocate _ {} _ _)).trans (outcome_relocate _)

/-! ## Faults of the grammar -/

def Progress.Syntactic (progress : Progress) : Prop := ∀ d ∈ progress.faults, d.cause.phase = .syntactic

theorem round_syntactic {depth : Nat} {progress progress' : Progress} {c c' : Cursor} (h : progress.Syntactic)
    (hround : round depth progress c = some (progress', c')) : progress'.Syntactic := by
  unfold round at hround
  split at hround
  · cases hround
    exact h
  · have hstmt := (grammar_blind (f := id) depth).stmt c
    generalize (grammar depth).stmt c = r, (grammar depth).stmt (relocate id c) = r' at hstmt hround
    cases hstmt with
    | done s c =>
        cases hround
        exact h
    | failed fault c hfault =>
        cases hround
        intro d hd
        obtain hd | hd := List.mem_append.1 hd
        · exact h d hd
        · rw [List.mem_singleton.1 hd]
          exact hfault
    | exhausted => cases hround

theorem statements_syntactic {depth : Nat} {progress : Progress} (h : progress.Syntactic) (c : Cursor)
    (allowance : Nat) : (statements depth progress c allowance).Syntactic := by
  induction allowance generalizing progress c with
  | zero => exact h
  | succ allowance ih =>
      rw [statements]
      split
      · exact h
      · split
        next => exact h
        next progress' c' hround => exact ih (round_syntactic h hround) _

theorem parse_syntactic {tokens : List Token} {ds : List Diagnostic} (h : parse tokens = .error ds) :
    ∀ d ∈ ds, d.cause.phase = .syntactic := by
  have hnone : Progress.Syntactic {} := fun d hd => by cases hd
  have hall := @statements_syntactic ((start tokens).rest.length + 1) _ hnone (start tokens)
    ((start tokens).rest.length + 1)
  unfold parse Progress.outcome at h
  simp only at h
  split at h
  · cases h
  · cases h
    exact hall

end Cairn.Program
