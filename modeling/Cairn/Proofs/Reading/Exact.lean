import Cairn.Proofs.Reading.Steps

/-!
# Steps over given tokens

A step reads given tokens if it takes exactly these and gives a known value, whatever comes after them. Where one
step follows another, their tokens do too. A repetition reads the tokens of its rounds, each of which takes one at
least before it goes on.
-/

namespace Cairn

open Token (Kind Symbol)

namespace Cursor

/-- The cursor on the first of the tokens `ts`, after which those of `c` come. -/
def before (ts : List Token) (c : Cursor) : Cursor :=
  match ts with
  | [] => c
  | t :: ts => ⟨t, ts ++ c.tokens⟩

variable {t : Token} {ts us : List Token} {c : Cursor}

theorem tokens_before : (c.before ts).tokens = ts ++ c.tokens := by
  cases ts with
  | nil => rfl
  | cons t ts => rfl

theorem kind_before : (c.before (t :: ts)).kind = t.kind := rfl

theorem before_append : c.before (ts ++ us) = (c.before us).before ts := by
  cases ts with
  | nil => rfl
  | cons t ts =>
      change Cursor.mk t ((ts ++ us) ++ c.tokens) = ⟨t, ts ++ (c.before us).tokens⟩
      rw [tokens_before, List.append_assoc]

theorem advance_before : (c.before (t :: ts)).advance = c.before ts := by
  cases ts with
  | nil => rfl
  | cons u ts => rfl

theorem length_rest_before : (c.before ts).rest.length = ts.length + c.rest.length := by
  have hlen : (c.before ts).tokens.length = (ts ++ c.tokens).length := congrArg List.length tokens_before
  simp only [tokens, List.length_cons, List.length_append] at hlen
  omega

end Cursor

namespace Parse

variable {α β : Type}

/-- From the first of `ts` on, the step gives `a` and comes to stand on `c`, right after `ts`. -/
def Reads (ts : List Token) (c : Cursor) (a : α) (p : Parse α) : Prop :=
  p (c.before ts) = .done a c

namespace Reads

variable {t : Token} {ts us : List Token} {c : Cursor} {a : α} {b : β} {p : Parse α} {q : α → Parse β} {x y : Parse β}

theorem pure : (Pure.pure a : Parse α).Reads [] c a := rfl

theorem bind (hp : p.Reads ts (c.before us) a) (hq : (q a).Reads us c b) : (p >>= q).Reads (ts ++ us) c b := by
  unfold Reads at hp hq ⊢
  rw [Cursor.before_append]
  simp only [Bind.bind, hp, hq]

theorem first (hp : p.Reads [t] (c.before us) a) (hq : (q a).Reads us c b) : (p >>= q).Reads (t :: us) c b :=
  hp.bind hq

theorem last (hp : p.Reads ts c a) (hq : (q a).Reads [] c b) : (p >>= q).Reads ts c b := by
  simpa using hp.bind hq

theorem position {q : Position → Parse β} (hq : (q (c.before ts).token.position).Reads ts c b) :
    (Parse.position >>= q).Reads ts c b := hq

theorem kind {q : Kind → Parse β} (hq : (q (c.before ts).kind).Reads ts c b) : (Parse.kind >>= q).Reads ts c b := hq

theorem cursor {q : Cursor → Parse β} (hq : (q (c.before ts)).Reads ts c b) : (Parse.cursor >>= q).Reads ts c b := hq

theorem next {q : Token → Parse β} (hq : (q t).Reads ts c b) : (Parse.next >>= q).Reads (t :: ts) c b := by
  unfold Reads at hq ⊢
  simp only [Bind.bind, Parse.next, Cursor.advance_before]
  exact hq

theorem expect {needed : Kind} {q : Unit → Parse β} (ht : t.kind = needed) (hq : (q ()).Reads ts c b) :
    (Parse.expect needed >>= q).Reads (t :: ts) c b := by
  have hdone : Parse.expect needed (c.before (t :: ts)) = .done () (c.before (t :: ts)).advance := if_pos ht
  rw [Cursor.advance_before] at hdone
  unfold Reads at hq ⊢
  simp only [Bind.bind, hdone, hq]

theorem ifAccepts {wanted : Kind} (ht : t.kind = wanted) (hx : x.Reads ts c b) :
    (accepts wanted >>= fun taken => if taken = true then x else y).Reads (t :: ts) c b := by
  have hdone : accepts wanted (c.before (t :: ts)) = .done true (c.before (t :: ts)).advance := if_pos ht
  rw [Cursor.advance_before] at hdone
  unfold Reads at hx ⊢
  simp only [Bind.bind, hdone, if_true, hx]

theorem ifNotAccepts {wanted : Kind} (hk : (c.before ts).kind ≠ wanted) (hy : y.Reads ts c b) :
    (accepts wanted >>= fun taken => if taken = true then x else y).Reads ts c b := by
  have hdone : accepts wanted (c.before ts) = .done false (c.before ts) := if_neg hk
  unfold Reads at hy ⊢
  simp only [Bind.bind, hdone, Bool.false_eq_true, if_false, hy]

theorem ifSees {wanted : Kind} (hk : (c.before ts).kind = wanted) (hx : x.Reads ts c b) :
    (sees wanted >>= fun seen => if seen = true then x else y).Reads ts c b := by
  simpa [Reads, Bind.bind, sees, hk] using hx

theorem ifNotSees {wanted : Kind} (hk : (c.before ts).kind ≠ wanted) (hy : y.Reads ts c b) :
    (sees wanted >>= fun seen => if seen = true then x else y).Reads ts c b := by
  simpa [Reads, Bind.bind, sees, hk] using hy

theorem ifCloses {close : Kind} (hk : (c.before ts).kind = close) (hx : x.Reads ts c b) :
    (closes close >>= fun closed => if closed = true then x else y).Reads ts c b := by
  simpa [Reads, Bind.bind, closes, hk] using hx

theorem ifNotCloses {close : Kind} (hk : (c.before ts).kind ≠ close) (hend : (c.before ts).kind ≠ .eof)
    (hy : y.Reads ts c b) : (closes close >>= fun closed => if closed = true then x else y).Reads ts c b := by
  simpa [Reads, Bind.bind, closes, hk, hend] using hy

end Reads

/-! ## Rounds -/

/-- Rounds from `s` to `s'` over the tokens `ts`, up to `c`. -/
inductive Rounds (round : α → Parse (Turn α)) (c : Cursor) : α → List Token → α → Prop where
  | stop {s s' : α} {ts : List Token} (last : (round s).Reads ts c (.stop s')) : Rounds round c s ts s'
  | again {s s' s'' : α} {ts us : List Token} (taken : ts ≠ []) (first : (round s).Reads ts (c.before us) (.again s'))
      (rest : Rounds round c s' us s'') : Rounds round c s (ts ++ us) s''

variable {round : α → Parse (Turn α)} {s s' : α} {ts : List Token} {c : Cursor}

theorem Rounds.rounds (h : Rounds round c s ts s') {allowance : Nat} (ha : ts.length < allowance) :
    (rounds round allowance s).Reads ts c s' := by
  induction h generalizing allowance with
  | stop last =>
      obtain ⟨a, rfl⟩ := Nat.exists_eq_succ_of_ne_zero (Nat.ne_zero_of_lt ha)
      exact .last last .pure
  | again taken first rest ih =>
      obtain ⟨a, rfl⟩ := Nat.exists_eq_succ_of_ne_zero (Nat.ne_zero_of_lt ha)
      -- The round took a token, so what is left of the allowance outlasts the tokens that are left.
      have hpos := List.length_pos_iff.mpr taken
      rw [List.length_append] at ha
      exact .bind first (ih (by omega))

theorem Rounds.repeated (h : Rounds round c s ts s') : (repeated round s).Reads ts c s' :=
  h.rounds (by rw [Cursor.length_rest_before]; omega)

end Parse

end Cairn
