import Cairn.Program.Grammar
import Mathlib.Tactic.Common

/-!
# Twin readings

Two texts begin alike; one of them ends where the other has a semicolon and goes on. Twin cursors stand on the same
token of both, or on the end and the semicolon. A rule reads the second text as it reads the first, for no rule tells
the end from a semicolon and none sees what is behind it; a rule that may take the semicolon itself is loose. The same
text read with a deeper grammar is a twin of itself, where nothing may differ at all.
-/

namespace Cairn

open Token (Keyword Symbol Kind)
open Parse

/-- The end of a text, and the semicolon and the rest of a text that goes on instead. -/
structure Joint where
  eof : Token
  semicolon : Token
  after : Cursor
  eof_kind : eof.kind = .eof
  eof_not_word : isWord eof.lexeme = false
  semicolon_kind : semicolon.kind = .symbol .semicolon

namespace Joint

/-- Are two texts compared, or one with itself? -/
inductive Pairing where
  | same
  | longer

/-- May the second reading be elsewhere when the first is at its end? -/
inductive Fit where
  | tight
  | loose

variable (J : Joint)

/-- The cursor at the end of the text that ends. -/
def ended : Cursor := ⟨J.eof, []⟩

/-- The cursor at the semicolon of the text that goes on. -/
def goesOn : Cursor := ⟨J.semicolon, J.after.token :: J.after.rest⟩

inductive Twin : Pairing → Cursor → Cursor → Prop where
  | same (c : Cursor) : Twin .same c c
  | ahead {t : Token} {c d : Cursor} (ht : t.kind ≠ .eof) (h : Twin .longer c d) :
      Twin .longer ⟨t, c.token :: c.rest⟩ ⟨t, d.token :: d.rest⟩
  | ended : Twin .longer J.ended J.goesOn

/-- What the first reading comes to, the second does too. Of a longer text that is asked for values only. -/
inductive Reads {α : Type} : Fit → Pairing → Reading α → Reading α → Prop where
  | done {fit : Fit} {pairing : Pairing} {c d : Cursor} (a : α) (h : J.Twin pairing c d) :
      Reads fit pairing (.done a c) (.done a d)
  | stuck (a : α) (r : Reading α) : Reads .loose .longer (.done a J.ended) r
  | failed {fit : Fit} (fault : Diagnostic) (c : Cursor) : Reads fit .same (.failed fault c) (.failed fault c)
  | lost {fit : Fit} (fault : Diagnostic) (c : Cursor) (r : Reading α) : Reads fit .longer (.failed fault c) r
  | exhausted {fit : Fit} {pairing : Pairing} (r : Reading α) : Reads fit pairing .exhausted r

/-- At twin cursors the second step reads what the first does. -/
def Mirrors {α : Type} (fit : Fit) (p q : Parse α) : Prop :=
  ∀ pairing c d, J.Twin pairing c d → J.Reads fit pairing (p c) (q d)

/-- The same at cursors that stand on one and the same token. -/
def MirrorsAhead {α : Type} (fit : Fit) (p q : Parse α) : Prop :=
  ∀ pairing c d, J.Twin pairing c d → c.token = d.token → J.Twin pairing c.advance d.advance →
    J.Reads fit pairing (p c) (q d)

variable {J} {fit : Fit} {pairing : Pairing} {c d : Cursor}

/-! ## Twin cursors -/

theorem kind_ended : J.ended.kind = .eof := J.eof_kind

theorem kind_goesOn : J.goesOn.kind = .symbol .semicolon := J.semicolon_kind

theorem kind_of_token (ht : c.token = d.token) : c.kind = d.kind := congrArg Token.kind ht

theorem Twin.cases (h : J.Twin pairing c d) :
    c.token = d.token ∧ J.Twin pairing c.advance d.advance ∨ pairing = .longer ∧ c = J.ended ∧ d = J.goesOn := by
  cases h with
  | same c => exact .inl ⟨rfl, .same _⟩
  | ahead ht h => exact .inl ⟨rfl, h⟩
  | ended => exact .inr ⟨rfl, rfl, rfl⟩

theorem Twin.length_le (h : J.Twin pairing c d) : c.rest.length ≤ d.rest.length := by
  induction h with
  | same c => exact Nat.le_refl _
  | ahead ht h ih => exact Nat.succ_le_succ ih
  | ended => exact Nat.zero_le _

theorem Twin.eq_ended (h : J.Twin .longer c d) (hk : c.kind = .eof) : c = J.ended ∧ d = J.goesOn := by
  cases h with
  | ahead ht h => exact absurd hk ht
  | ended => exact ⟨rfl, rfl⟩

/-- No rule looks ahead past the end of the text. -/
theorem Twin.opensObject (h : J.Twin pairing c d) (ht : c.token = d.token) :
    Grammar.opensObject c = Grammar.opensObject d := by
  have hend : J.eof.kind = .eof := J.eof_kind
  have hsemicolon : J.semicolon.kind = .symbol .semicolon := J.semicolon_kind
  cases h with
  | same c => rfl
  | ended =>
      have hk : J.eof.kind = J.semicolon.kind := congrArg Token.kind ht
      rw [hend, hsemicolon] at hk
      cases hk
  | ahead _ h =>
      cases h with
      | ended => simp [Grammar.opensObject, Cursor.later?, Joint.ended, goesOn, hend, hsemicolon]
      | ahead _ h =>
          cases h with
          | ended => simp [Grammar.opensObject, Cursor.later?, Joint.ended, goesOn, hend, hsemicolon]
          | ahead _ h => rfl

theorem Twin.keyword? (h : J.Twin pairing c d) : Grammar.keyword? c = Grammar.keyword? d := by
  have hend : J.eof.kind = .eof := J.eof_kind
  have hsemicolon : J.semicolon.kind = .symbol .semicolon := J.semicolon_kind
  cases h with
  | same c => rfl
  | ended => simp [Grammar.keyword?, Cursor.kind, Joint.ended, goesOn, hend, hsemicolon]
  | ahead _ h =>
      cases h with
      | ended => simp [Grammar.keyword?, Cursor.kind, Cursor.later?, Joint.ended, goesOn, hend, hsemicolon]
      | ahead _ h => rfl

variable {α β : Type} {p q : Parse α} {k l : α → Parse β} {x y x' y' : Parse β}

theorem Reads.bind (h : J.Reads .tight pairing (p c) (q d))
    (hk : ∀ a c' d', J.Twin pairing c' d' → J.Reads fit pairing (k a c') (l a d')) :
    J.Reads fit pairing ((p >>= k) c) ((q >>= l) d) := by
  simp only [Bind.bind]
  generalize p c = r, q d = r' at h
  cases h with
  | done a h => exact hk a _ _ h
  | failed fault c => exact .failed fault c
  | lost fault c r => exact .lost fault c _
  | exhausted r => exact .exhausted _

theorem Reads.fault {fault fault' : Diagnostic} (hc : J.Twin pairing c d) (h : c = d → fault = fault') :
    J.Reads fit pairing (.failed fault c : Reading α) (.failed fault' d) := by
  cases hc with
  | same c => exact h rfl ▸ .failed fault c
  | ahead ht hc => exact .lost _ _ _
  | ended => exact .lost _ _ _

/-- A step that fails at the end of the text need not be looked at there. -/
theorem Reads.of_not_done {r' : Reading α} (h : ∀ a c', p J.ended ≠ .done a c') :
    J.Reads fit .longer (p J.ended) r' := by
  cases hp : p J.ended with
  | done a c' => exact absurd hp (h a c')
  | failed fault c' => exact .lost fault c' _
  | exhausted => exact .exhausted _

namespace Mirrors

theorem ahead (h : J.Mirrors fit p q) : J.MirrorsAhead fit p q := fun pairing c d hc _ _ => h pairing c d hc

theorem of_ahead (hend : ∀ a c, p J.ended ≠ .done a c) (h : J.MirrorsAhead fit p q) : J.Mirrors fit p q := by
  intro pairing c d hc
  obtain ⟨ht, hnext⟩ | ⟨rfl, rfl, rfl⟩ := hc.cases
  · exact h pairing c d hc ht hnext
  · exact .of_not_done hend

theorem loose_of_ahead {a : α} (hend : p J.ended = .done a J.ended) (h : J.MirrorsAhead .loose p q) :
    J.Mirrors .loose p q := by
  intro pairing c d hc
  obtain ⟨ht, hnext⟩ | ⟨rfl, rfl, rfl⟩ := hc.cases
  · exact h pairing c d hc ht hnext
  · rw [hend]
    exact .stuck a _

theorem pure (a : α) : J.Mirrors fit (Pure.pure a) (Pure.pure a) := fun _ _ _ hc => .done a hc

theorem none : J.Mirrors fit (Parse.exhausted : Parse α) q := fun _ _ _ _ => .exhausted _

theorem bind (h : J.Mirrors .tight p q) (hk : ∀ a, J.Mirrors fit (k a) (l a)) :
    J.Mirrors fit (p >>= k) (q >>= l) :=
  fun pairing c d hc => .bind (h pairing c d hc) fun a c' d' hc' => hk a pairing c' d' hc'

/-- What only gives a value may follow a loose step. -/
theorem map (h : J.Mirrors .loose p q) (f : α → β) :
    J.Mirrors .loose (p >>= fun a => Pure.pure (f a)) (q >>= fun a => Pure.pure (f a)) := by
  intro pairing c d hc
  have hread := h pairing c d hc
  simp only [Bind.bind]
  generalize p c = r, q d = r' at hread
  cases hread with
  | done a hc' => exact .done (f a) hc'
  | stuck a r => exact .stuck (f a) _
  | failed fault c => exact .failed fault c
  | lost fault c r => exact .lost fault c _
  | exhausted r => exact .exhausted _

theorem fail (cause : Diagnostic.Cause) (pos : Position) :
    J.Mirrors fit (Parse.fail cause pos : Parse α) (Parse.fail cause pos) := fun _ _ _ hc => .fault hc fun _ => rfl

theorem unexpected (form : Diagnostic.Form) :
    J.Mirrors fit (Parse.unexpected form : Parse α) (Parse.unexpected form) := by
  refine fun _ c d hc => .fault hc ?_
  rintro rfl
  rfl

theorem kind {k l : Kind → Parse β} (h : ∀ kind, J.MirrorsAhead fit (k kind) (l kind))
    (hend : J.Mirrors fit (k .eof) (l (.symbol .semicolon))) :
    J.Mirrors fit (Parse.kind >>= k) (Parse.kind >>= l) := by
  intro pairing c d hc
  obtain ⟨ht, hnext⟩ | ⟨rfl, rfl, rfl⟩ := hc.cases
  · have hkind := kind_of_token ht
    change J.Reads fit pairing (k c.kind c) (l d.kind d)
    rw [hkind]
    exact h d.kind pairing c d hc ht hnext
  · change J.Reads fit .longer (k J.ended.kind J.ended) (l J.goesOn.kind J.goesOn)
    rw [kind_ended, kind_goesOn]
    exact hend _ _ _ hc

end Mirrors

namespace MirrorsAhead

theorem position {k l : Position → Parse β} (h : ∀ pos, J.MirrorsAhead fit (k pos) (l pos)) :
    J.MirrorsAhead fit (Parse.position >>= k) (Parse.position >>= l) := by
  intro pairing c d hc ht hnext
  change J.Reads fit pairing (k c.token.position c) (l d.token.position d)
  rw [ht]
  exact h d.token.position pairing c d hc ht hnext

theorem kind {k l : Kind → Parse β} (h : ∀ kind, J.MirrorsAhead fit (k kind) (l kind)) :
    J.MirrorsAhead fit (Parse.kind >>= k) (Parse.kind >>= l) := by
  intro pairing c d hc ht hnext
  have hkind := kind_of_token ht
  change J.Reads fit pairing (k c.kind c) (l d.kind d)
  rw [hkind]
  exact h d.kind pairing c d hc ht hnext

theorem cursor {k l : Cursor → Parse β}
    (h : ∀ pairing c d, J.Twin pairing c d → c.token = d.token → J.Twin pairing c.advance d.advance →
      J.Reads fit pairing (k c c) (l d d)) :
    J.MirrorsAhead fit (Parse.cursor >>= k) (Parse.cursor >>= l) := h

theorem next {k l : Token → Parse β} (h : ∀ t, J.Mirrors fit (k t) (l t)) :
    J.MirrorsAhead fit (Parse.next >>= k) (Parse.next >>= l) := by
  intro pairing c d hc ht hnext
  change J.Reads fit pairing (k c.token c.advance) (l d.token d.advance)
  rw [ht]
  exact h d.token pairing _ _ hnext

theorem accepts {wanted : Kind} {k l : Bool → Parse β} (h : ∀ taken, J.Mirrors fit (k taken) (l taken)) :
    J.MirrorsAhead fit (Parse.accepts wanted >>= k) (Parse.accepts wanted >>= l) := by
  intro pairing c d hc ht hnext
  have hkind := kind_of_token ht
  by_cases hk : d.kind = wanted
  · simpa [Bind.bind, Parse.accepts, hkind, hk] using h true pairing _ _ hnext
  · simpa [Bind.bind, Parse.accepts, hkind, hk] using h false pairing c d hc

theorem ifAccepts {wanted : Kind} (hx : J.Mirrors fit x x') (hy : J.MirrorsAhead fit y y') :
    J.MirrorsAhead fit (Parse.accepts wanted >>= fun taken => if taken = true then x else y)
      (Parse.accepts wanted >>= fun taken => if taken = true then x' else y') := by
  intro pairing c d hc ht hnext
  have hkind := kind_of_token ht
  by_cases hk : d.kind = wanted
  · simpa [Bind.bind, Parse.accepts, hkind, hk] using hx pairing _ _ hnext
  · simpa [Bind.bind, Parse.accepts, hkind, hk] using hy pairing c d hc ht hnext

end MirrorsAhead

namespace Mirrors

theorem position {k l : Position → Parse β} (hend : ∀ a c, (Parse.position >>= k) J.ended ≠ .done a c)
    (h : ∀ pos, J.MirrorsAhead fit (k pos) (l pos)) :
    J.Mirrors fit (Parse.position >>= k) (Parse.position >>= l) := of_ahead hend (.position h)

theorem expect {needed : Kind} (hne : needed ≠ .eof) :
    J.Mirrors .tight (Parse.expect needed) (Parse.expect needed) := by
  intro pairing c d hc
  obtain ⟨ht, hnext⟩ | ⟨rfl, rfl, rfl⟩ := hc.cases
  · have hkind := kind_of_token ht
    simp only [Parse.expect, hkind, ht]
    split
    · exact .done () hnext
    · exact .fault hc fun _ => rfl
  · simp only [Parse.expect, kind_ended, if_neg hne.symm]
    exact .lost _ _ _

/-- A form that opens with a word of its own. -/
theorem opening {needed : Kind} (hne : needed ≠ .eof) {k l : Position → Parse β}
    (h : ∀ pos, J.Mirrors fit (k pos) (l pos)) :
    J.Mirrors fit (Parse.position >>= fun pos => Parse.expect needed >>= fun _ => k pos)
      (Parse.position >>= fun pos => Parse.expect needed >>= fun _ => l pos) := by
  refine position (fun a c => ?_) fun pos => (bind (expect hne) fun _ => h pos).ahead
  simp [Bind.bind, Parse.position, Parse.expect, kind_ended, hne.symm]

theorem accepts {wanted : Kind} (hne : wanted ≠ .eof) (hsemicolon : wanted ≠ .symbol .semicolon) :
    J.Mirrors .tight (Parse.accepts wanted) (Parse.accepts wanted) := by
  intro pairing c d hc
  obtain ⟨ht, hnext⟩ | ⟨rfl, rfl, rfl⟩ := hc.cases
  · have hkind := kind_of_token ht
    simp only [Parse.accepts, hkind]
    split
    · exact .done true hnext
    · exact .done false hc
  · simp only [Parse.accepts, kind_ended, kind_goesOn, if_neg hne.symm, if_neg hsemicolon.symm]
    exact .done false hc

theorem ifAccepts {wanted : Kind} (hne : wanted ≠ .eof) (hsemicolon : wanted ≠ .symbol .semicolon)
    (hx : J.Mirrors fit x x') (hy : J.Mirrors fit y y') :
    J.Mirrors fit (Parse.accepts wanted >>= fun taken => if taken = true then x else y)
      (Parse.accepts wanted >>= fun taken => if taken = true then x' else y') := by
  refine bind (accepts hne hsemicolon) fun taken => ?_
  cases taken with
  | true => exact hx
  | false => exact hy

theorem ifSees {wanted : Kind} (hne : wanted ≠ .eof) (hsemicolon : wanted ≠ .symbol .semicolon)
    (hx : J.Mirrors fit x x') (hy : J.Mirrors fit y y') :
    J.Mirrors fit (Parse.sees wanted >>= fun seen => if seen = true then x else y)
      (Parse.sees wanted >>= fun seen => if seen = true then x' else y') := by
  refine bind (fun pairing c d hc => ?_) fun seen => ?_
  · have hseen : decide (c.kind = wanted) = decide (d.kind = wanted) := by
      obtain ⟨ht, -⟩ | ⟨-, rfl, rfl⟩ := hc.cases
      · rw [kind_of_token ht]
      · simp [kind_ended, kind_goesOn, hne.symm, hsemicolon.symm]
    simp only [Parse.sees, hseen]
    exact .done _ hc
  · cases seen with
    | true => exact hx
    | false => exact hy

theorem ifCursor {test : Cursor → Bool} (htest : ∀ pairing c d, J.Twin pairing c d → test c = test d)
    (hx : J.Mirrors fit x x') (hy : J.Mirrors fit y y') :
    J.Mirrors fit (Parse.cursor >>= fun c => if test c = true then x else y)
      (Parse.cursor >>= fun c => if test c = true then x' else y') := by
  intro pairing c d hc
  have htest := htest pairing c d hc
  cases hd : test d with
  | true => simpa [Bind.bind, Parse.cursor, htest, hd] using hx pairing c d hc
  | false => simpa [Bind.bind, Parse.cursor, htest, hd] using hy pairing c d hc

theorem identifier : J.Mirrors .tight Parse.identifier Parse.identifier := by
  refine of_ahead (fun a c => ?_) (.next fun t => ?_)
  · simp [Parse.identifier, Bind.bind, Parse.next, Parse.fail, ended, J.eof_kind]
  · obtain ⟨kind, lexeme, pos⟩ := t
    cases kind with
    | name value => exact pure value
    | _ => exact fail _ _

theorem propertyName : J.Mirrors .tight Parse.propertyName Parse.propertyName := by
  refine of_ahead (fun a c => ?_) (.next fun t => ?_)
  · simp [Parse.propertyName, Bind.bind, Parse.next, Parse.fail, ended, J.eof_kind, J.eof_not_word]
  · obtain ⟨kind, lexeme, pos⟩ := t
    have hword : J.Mirrors .tight
        (if isWord lexeme then Pure.pure lexeme else Parse.fail (.missingWord .propertyName lexeme) pos)
        (if isWord lexeme then Pure.pure lexeme else Parse.fail (.missingWord .propertyName lexeme) pos) := by
      split
      · exact pure lexeme
      · exact fail _ _
    cases kind with
    | name value => exact pure value
    | _ => exact hword

/-! ## Rounds -/

theorem rounds {round round' : α → Parse (Turn α)} (h : ∀ state, J.Mirrors .tight (round state) (round' state))
    {allowance allowance' : Nat} (hle : allowance ≤ allowance') (state : α) :
    J.Mirrors .tight (Parse.rounds round allowance state) (Parse.rounds round' allowance' state) := by
  induction allowance generalizing allowance' state with
  | zero => exact none
  | succ allowance ih =>
      obtain ⟨allowance', rfl⟩ := Nat.exists_eq_add_of_lt hle
      refine bind (h state) fun turn => ?_
      cases turn with
      | stop state => exact pure state
      | again state => exact ih (by omega) state

theorem repeated {round round' : α → Parse (Turn α)} (h : ∀ state, J.Mirrors .tight (round state) (round' state))
    (state : α) : J.Mirrors .tight (Parse.repeated round state) (Parse.repeated round' state) := by
  intro pairing c d hc
  exact rounds h (Nat.succ_le_succ hc.length_le) state pairing c d hc

end Mirrors

/-- Rounds that stop at the end of the text, and may go on at the semicolon. -/
structure Rounds (J : Joint) (round round' : α → Parse (Turn α)) : Prop where
  mirrors : ∀ state, J.Mirrors .loose (round state) (round' state)
  stop : ∀ state, round state J.ended = .done (.stop state) J.ended

namespace Rounds

variable {round round' : α → Parse (Turn α)}

theorem rounds_ended (h : J.Rounds round round') (allowance : Nat) (state : α) :
    Parse.rounds round allowance state J.ended = .exhausted ∨
      Parse.rounds round allowance state J.ended = .done state J.ended := by
  cases allowance with
  | zero => exact .inl rfl
  | succ allowance =>
      refine .inr ?_
      simp only [Parse.rounds, Bind.bind, h.stop state]
      rfl

theorem rounds (h : J.Rounds round round') {allowance allowance' : Nat} (hle : allowance ≤ allowance') (state : α) :
    J.Mirrors .loose (Parse.rounds round allowance state) (Parse.rounds round' allowance' state) := by
  induction allowance generalizing allowance' state with
  | zero => exact .none
  | succ allowance ih =>
      obtain ⟨allowance', rfl⟩ := Nat.exists_eq_add_of_lt hle
      intro pairing c d hc
      have hround := h.mirrors state pairing c d hc
      simp only [Parse.rounds, Bind.bind]
      generalize round state c = r, round' state d = r' at hround
      cases hround with
      | done turn hc' =>
          cases turn with
          | stop state => exact .done state hc'
          | again state => exact ih (by omega) state _ _ _ hc'
      | stuck turn r =>
          cases turn with
          | stop state => exact .stuck state _
          | again state =>
              obtain hnone | hdone := h.rounds_ended allowance state
              · simp only [hnone]; exact .exhausted _
              · simp only [hdone]; exact .stuck state _
      | failed fault c => exact .failed fault c
      | lost fault c r => exact .lost fault c _
      | exhausted r => exact .exhausted _

theorem repeated (h : J.Rounds round round') (state : α) :
    J.Mirrors .loose (Parse.repeated round state) (Parse.repeated round' state) := by
  intro pairing c d hc
  exact h.rounds (Nat.succ_le_succ hc.length_le) state pairing c d hc

/-- Behind the rounds a mark is needed that the end of the text is not. -/
theorem closed (h : J.Rounds round round') {close : Kind} (hne : close ≠ .eof) (state : α) {k l : α → Parse β}
    (hk : ∀ a, J.Mirrors fit (k a) (l a)) :
    J.Mirrors fit (Parse.repeated round state >>= fun a => Parse.expect close >>= fun _ => k a)
      (Parse.repeated round' state >>= fun a => Parse.expect close >>= fun _ => l a) := by
  intro pairing c d hc
  have hrounds := h.repeated state pairing c d hc
  simp only [Bind.bind]
  generalize Parse.repeated round state c = r, Parse.repeated round' state d = r' at hrounds
  cases hrounds with
  | done a hc' => exact Mirrors.bind (.expect hne) (fun _ => hk a) _ _ _ hc'
  | stuck a r =>
      have hfailed : Parse.expect close J.ended = .failed ⟨.missingToken close .eof, J.eof.position⟩ J.ended := by
        simp only [Parse.expect, kind_ended, if_neg hne.symm]
        rfl
      simp only [hfailed]
      exact .lost _ _ _
  | failed fault c => exact .failed fault c
  | lost fault c r => exact .lost fault c _
  | exhausted r => exact .exhausted _

/-- Rounds that look for a closing mark first. -/
theorem of_closes {close : Kind} {y y' : α → Parse (Turn α)}
    (h : ∀ state, J.MirrorsAhead .loose (y state) (y' state)) :
    J.Rounds
      (fun state => Parse.closes close >>= fun closed => if closed = true then return .stop state else y state)
      (fun state => Parse.closes close >>= fun closed => if closed = true then return .stop state else y' state) := by
  have hstop (y : α → Parse (Turn α)) (state : α) :
      (Parse.closes close >>= fun closed => if closed = true then return .stop state else y state) J.ended
        = .done (.stop state) J.ended := by
    simp only [Bind.bind, Parse.closes, kind_ended, decide_true, Bool.or_true, if_true]
    rfl
  refine ⟨fun state => .loose_of_ahead (hstop y state) fun pairing c d hc ht hnext => ?_, hstop y⟩
  have hkind := kind_of_token ht
  by_cases hk : d.kind = close ∨ d.kind = .eof
  · simpa [Bind.bind, Parse.closes, hkind, hk] using Mirrors.pure (Turn.stop state) pairing c d hc
  · simpa [Bind.bind, Parse.closes, hkind, hk] using h state pairing c d hc ht hnext

end Rounds

theorem Mirrors.afterItem (state : α) :
    J.Mirrors fit (Parse.afterItem state) (Parse.afterItem state) :=
  .ifAccepts (by simp) (by simp) (.pure _) (.pure _)

theorem Mirrors.listUntil {close : Symbol} (h : J.Mirrors .tight p q) :
    J.Mirrors .tight (Parse.listUntil close p) (Parse.listUntil close q) := by
  refine Rounds.closed (.of_closes fun items => ?_) (by simp) [] fun items => .pure items
  exact (Mirrors.bind h fun x => .afterItem _).ahead

end Joint

end Cairn
