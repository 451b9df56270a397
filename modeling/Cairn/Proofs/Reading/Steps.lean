import Cairn.Program.Cursor
import Mathlib.Tactic.Common

/-!
# Steps that move on

Tokens that end with the end of the text are closed; a cursor on closed tokens can move on from every token
that is not the end. A reading step is steady if it finishes, never moves back, and takes as many tokens as
its value says. Steady steps follow one another, and a repetition of them ends by itself when every round
that goes on takes a token.
-/

namespace Cairn

open Token (Kind Symbol)

namespace Cursor

/-- The token at hand and the later ones. -/
def tokens (c : Cursor) : List Token := c.token :: c.rest

/-- The last token is the end of the text. -/
def Closed (c : Cursor) : Prop := (c.rest.getLastD c.token).kind = .eof

variable {c : Cursor}

theorem tokens_advance : c.advance.tokens <:+ c.tokens := by
  obtain ⟨t, rest⟩ := c
  cases rest with
  | nil => exact List.suffix_rfl
  | cons u rest => exact List.suffix_cons t _

theorem Closed.length_advance (h : c.Closed) (hk : c.kind ≠ .eof) : c.advance.rest.length + 1 = c.rest.length := by
  obtain ⟨t, rest⟩ := c
  cases rest with
  | nil => exact absurd h hk
  | cons u rest => rfl

theorem length_advance_le : c.advance.rest.length ≤ c.rest.length := by
  have hlen := tokens_advance (c := c).length_le
  simpa [tokens] using hlen

theorem Closed.of_suffix {o : Cursor} (ho : o.Closed) (h : c.tokens <:+ o.tokens) : c.Closed := by
  have hlast (c : Cursor) : c.tokens.getLast? = some (c.rest.getLastD c.token) := by
    simp [tokens, List.getLast?_cons]
  obtain ⟨pre, hpre⟩ := h
  have heq : some (o.rest.getLastD o.token) = some (c.rest.getLastD c.token) := by
    rw [← hlast, ← hlast, ← hpre, List.getLast?_append, hlast]
    rfl
  rw [Closed, ← Option.some.inj heq]
  exact ho

theorem Closed.advance (h : c.Closed) : c.advance.Closed := h.of_suffix tokens_advance

end Cursor

/-- `c` is a cursor on closed tokens, `j` of them or more beyond `o`. -/
structure Beyond (j : Nat) (o c : Cursor) : Prop where
  tokens : c.tokens <:+ o.tokens
  spent : c.rest.length + j ≤ o.rest.length
  closed : c.Closed

namespace Beyond

variable {i j : Nat} {o c c' : Cursor}

theorem refl (h : c.Closed) : Beyond 0 c c := ⟨List.suffix_rfl, Nat.le_refl _, h⟩

theorem mono (h : Beyond j o c) (hij : i ≤ j) : Beyond i o c := ⟨h.tokens, by have := h.spent; omega, h.closed⟩

theorem trans (h : Beyond i o c) (h' : Beyond j c c') : Beyond (i + j) o c' :=
  ⟨h'.tokens.trans h.tokens, by have := h.spent; have := h'.spent; omega, h'.closed⟩

theorem advance (h : Beyond j o c) (hk : c.kind ≠ .eof) : Beyond (j + 1) o c.advance :=
  ⟨Cursor.tokens_advance.trans h.tokens, by have := h.spent; have := h.closed.length_advance hk; omega,
    h.closed.advance⟩

theorem advance_any (h : Beyond j o c) : Beyond j o c.advance :=
  ⟨Cursor.tokens_advance.trans h.tokens, by have := h.spent; have := c.length_advance_le; omega, h.closed.advance⟩

end Beyond

variable {α β : Type}

namespace Parse

/-- Read at `c`, the step finishes and ends beyond `o`: by `k a` tokens with the value `a`, by `e` with a fault. -/
def Ends (c o : Cursor) (k : α → Nat) (e : Nat) (p : Parse α) : Prop :=
  match p c with
  | .done a c' => Beyond (k a) o c'
  | .failed _ c' => Beyond e o c'
  | .exhausted => False

/-- Where fewer than `n` tokens are left, the step finishes, and takes `k a` of them with the value `a`. -/
def Steady (n : Nat) (k : α → Nat) (p : Parse α) : Prop :=
  ∀ c, c.Closed → c.rest.length < n → p.Ends c c k 0

namespace Ends

variable {n j e : Nat} {o c : Cursor} {k : α → Nat} {m : β → Nat} {p : Parse α} {q : α → Parse β} {x y : Parse β}

/-! ## One step after another -/

theorem pure {b : β} (hc : Beyond (m b) o c) : (Pure.pure b : Parse β).Ends c o m e := hc

theorem fail {cause : Diagnostic.Cause} {pos : Position} (hc : Beyond e o c) :
    (Parse.fail cause pos : Parse β).Ends c o m e := hc

theorem unexpected {form : Diagnostic.Form} (hc : Beyond e o c) : (Parse.unexpected form : Parse β).Ends c o m e := hc

theorem mono_fault (h : p.Ends c o k e) {e' : Nat} (he : e' ≤ e) : p.Ends c o k e' := by
  unfold Ends at h ⊢
  cases hp : p c with
  | done a c' => rw [hp] at h; exact h
  | failed fault c' => rw [hp] at h; exact h.mono he
  | exhausted => rw [hp] at h; exact h

theorem beyond (h : p.Ends c c k 0) (hc : Beyond j o c) (he : e ≤ j) {k' : α → Nat} (hk : ∀ a, k' a ≤ j + k a) :
    p.Ends c o k' e := by
  unfold Ends at h ⊢
  cases hp : p c with
  | done a c' => rw [hp] at h; exact (hc.trans h).mono (hk a)
  | failed fault c' => rw [hp] at h; exact (hc.trans h).mono he
  | exhausted => rw [hp] at h; exact h

theorem andThen (hp : p.Ends c o k e) (hq : ∀ a c', Beyond (k a) o c' → (q a).Ends c' o m e) :
    (p >>= q).Ends c o m e := by
  unfold Ends at hp hq ⊢
  simp only [Bind.bind]
  cases h : p c with
  | done a c' => rw [h] at hp; exact hq a c' hp
  | failed fault c' => rw [h] at hp; exact hp
  | exhausted => rw [h] at hp; exact hp

theorem last (hp : p.Steady n k) (hc : Beyond j o c) (hn : o.rest.length < n + j) (he : e ≤ j)
    {k' : α → Nat} (hk : ∀ a, k' a ≤ j + k a) : p.Ends c o k' e :=
  (hp c hc.closed (by have := hc.spent; omega)).beyond hc he hk

theorem bind (hp : p.Steady n k) (hc : Beyond j o c) (hn : o.rest.length < n + j) (he : e ≤ j)
    (hq : ∀ a c', Beyond (j + k a) o c' → (q a).Ends c' o m e) : (p >>= q).Ends c o m e :=
  .andThen (.last hp hc hn he fun _ => Nat.le_refl _) hq

/-- A step that finishes everywhere needs no allowance. -/
theorem word (hp : ∀ n, p.Steady n k) (hc : Beyond j o c) (he : e ≤ j)
    (hq : ∀ a c', Beyond (j + k a) o c' → (q a).Ends c' o m e) : (p >>= q).Ends c o m e :=
  .bind (hp (o.rest.length + 1)) hc (by omega) he hq

theorem position {q : Position → Parse β} (hq : (q c.token.position).Ends c o m e) :
    (Parse.position >>= q).Ends c o m e := hq

theorem kind {q : Kind → Parse β} (hq : (q c.kind).Ends c o m e) : (Parse.kind >>= q).Ends c o m e := hq

theorem cursor {q : Cursor → Parse β} (hq : (q c).Ends c o m e) : (Parse.cursor >>= q).Ends c o m e := hq

theorem take {q : Token → Parse β} (hq : (q c.token).Ends c.advance o m e) : (Parse.next >>= q).Ends c o m e := hq

theorem next {q : Token → Parse β} (hc : Beyond j o c) (hk : c.kind ≠ .eof)
    (hq : ∀ c', Beyond (j + 1) o c' → (q c.token).Ends c' o m e) : (Parse.next >>= q).Ends c o m e :=
  .take (hq _ (hc.advance hk))

/-- Where the token at hand is known to be the one, no fault comes before it is taken. -/
theorem expect {needed : Kind} {q : Unit → Parse β} (hne : needed ≠ .eof) (hc : Beyond j o c)
    (he : e ≤ j ∨ c.kind = needed) (hq : ∀ c', Beyond (j + 1) o c' → (q ()).Ends c' o m e) :
    (Parse.expect needed >>= q).Ends c o m e := by
  unfold Ends at hq ⊢
  by_cases hk : c.kind = needed
  · have hdone : Parse.expect needed c = .done () c.advance := if_pos hk
    simp only [Bind.bind, hdone]
    exact hq _ (hc.advance (hk ▸ hne))
  · have hfailed : Parse.expect needed c = .failed ⟨.missingToken needed c.kind, c.token.position⟩ c := if_neg hk
    simp only [Bind.bind, hfailed]
    exact hc.mono (he.resolve_right hk)

theorem ifAccepts {wanted : Kind} (hne : wanted ≠ .eof) (hc : Beyond j o c)
    (hx : ∀ c', Beyond (j + 1) o c' → x.Ends c' o m e) (hy : c.kind ≠ wanted → y.Ends c o m e) :
    (accepts wanted >>= fun taken => if taken = true then x else y).Ends c o m e := by
  unfold Ends at hx hy ⊢
  by_cases hk : c.kind = wanted
  · have hdone : accepts wanted c = .done true c.advance := if_pos hk
    simp only [Bind.bind, hdone, if_true]
    exact hx _ (hc.advance (hk ▸ hne))
  · have hdone : accepts wanted c = .done false c := if_neg hk
    simp only [Bind.bind, hdone, Bool.false_eq_true, if_false]
    exact hy hk

theorem ifSees {wanted : Kind} (hx : c.kind = wanted → x.Ends c o m e) (hy : c.kind ≠ wanted → y.Ends c o m e) :
    (sees wanted >>= fun seen => if seen = true then x else y).Ends c o m e := by
  by_cases hk : c.kind = wanted
  · simpa [Ends, Bind.bind, sees, hk] using hx hk
  · simpa [Ends, Bind.bind, sees, hk] using hy hk

theorem ifCloses {close : Kind} (hx : x.Ends c o m e) (hy : c.kind ≠ .eof → y.Ends c o m e) :
    (closes close >>= fun closed => if closed = true then x else y).Ends c o m e := by
  by_cases hk : c.kind = close ∨ c.kind = .eof
  · simpa [Ends, Bind.bind, closes, hk] using hx
  · simpa [Ends, Bind.bind, closes, hk] using hy fun h => hk (.inr h)

end Ends

variable {n j : Nat} {k : α → Nat} {p : Parse α}

theorem Steady.mono (h : p.Steady n k) {n' : Nat} {k' : α → Nat} (hn : n' ≤ n) (hk : ∀ a, k' a ≤ k a) :
    p.Steady n' k' := by
  intro c hc hlen
  exact .last h (.refl hc) (by omega) (Nat.le_refl 0) (by simpa using hk)

/-! ## Words -/

theorem accepts_steady {wanted : Kind} (n : Nat) : (accepts wanted).Steady n fun _ => 0 := by
  intro c hc _
  unfold Ends accepts
  by_cases hk : c.kind = wanted
  · simpa [hk] using (Beyond.refl hc).advance_any
  · simpa [hk] using Beyond.refl hc

theorem expect_steady {needed : Kind} (n : Nat) : (expect needed).Steady n fun _ => 0 := by
  intro c hc _
  unfold Ends expect
  by_cases hk : c.kind = needed
  · simpa [hk] using (Beyond.refl hc).advance_any
  · simpa [hk] using Beyond.refl hc

theorem next_steady (n : Nat) : next.Steady n fun _ => 0 := fun _ hc _ => (Beyond.refl hc).advance_any

/-- A name is taken only if there is one; otherwise the token at hand may be the last and stay. -/
theorem identifier_steady (n : Nat) : identifier.Steady n fun _ => 1 := by
  intro c hc _
  refine .take ?_
  split
  · rename_i hk
    exact .pure ((Beyond.refl hc).advance (by simp [Cursor.kind, hk]))
  · exact .fail (Beyond.refl hc).advance_any

theorem propertyName_steady (n : Nat) : propertyName.Steady n fun _ => 0 := by
  intro c hc _
  have hnext := (Beyond.refl hc).advance_any
  refine .take ?_
  split
  · exact .pure hnext
  · split
    · exact .pure hnext
    · exact .fail hnext

/-! ## Rounds -/

/-- A round that goes on takes a token. -/
def Turn.cost : Turn α → Nat
  | .again _ => 1
  | .stop _ => 0

variable {round : α → Parse (Turn α)}

theorem rounds_ends (h : ∀ s, (round s).Steady n Turn.cost) {allowance : Nat} {s : α} {c : Cursor} (hc : c.Closed)
    (hn : c.rest.length < n) (ha : c.rest.length < allowance) :
    (rounds round allowance s).Ends c c (fun _ => 0) 0 := by
  induction allowance generalizing s c with
  | zero => exact absurd ha (Nat.not_lt_zero _)
  | succ allowance ih =>
      refine .bind (h s) (.refl hc) hn (Nat.le_refl 0) fun turn c' hc' => ?_
      cases turn with
      | stop s' => exact .pure hc'
      | again s' =>
          have hlt : c'.rest.length + (0 + 1) ≤ c.rest.length := hc'.spent
          exact (ih hc'.closed (by omega) (by omega)).beyond hc' (Nat.zero_le _) fun _ => Nat.zero_le _

theorem repeated_steady (h : ∀ s, (round s).Steady n Turn.cost) (s : α) : (repeated round s).Steady n fun _ => 0 :=
  fun _ hc hn => rounds_ends h hc hn (Nat.lt_succ_self _)

theorem afterItem_ends {s : α} {o c : Cursor} (hc : Beyond j o c) : (afterItem s).Ends c o Turn.cost 0 :=
  .ifAccepts (by simp) hc (fun _ hc => .pure (hc.mono (Nat.le_add_left 1 j))) fun _ => .pure (hc.mono (Nat.zero_le j))

theorem listUntil_steady {close : Symbol} (h : p.Steady n k) : (listUntil close p).Steady n fun _ => 1 := by
  have hround items : (listRound close p items).Steady n Turn.cost := by
    intro c hc hn
    refine .ifCloses (.pure (.refl hc)) fun _ => ?_
    exact .bind h (.refl hc) hn (Nat.le_refl 0) fun x c' hc' => afterItem_ends hc'
  intro c hc hn
  refine .bind (repeated_steady hround []) (.refl hc) hn (Nat.le_refl 0) fun items c' hc' => ?_
  exact .expect (by simp) hc' (.inl (Nat.zero_le _)) fun c'' hc'' => .pure hc''

end Parse

end Cairn
