import Cairn.Proofs.Reading.Steps

/-!
# What reading steps yield

A reading step yields a value of a certain sort, or a fault at a token between the one where it began and the one
where it stopped; it never moves back. Such steps follow one another, and a form that opens with a word of its own
has its faults behind that word.
-/

namespace Cairn

open Token (Kind Symbol)

/-- The fault stands at a token that is not before `o` and not behind `c`. -/
def Diagnostic.Between (o c : Cursor) (d : Diagnostic) : Prop :=
  ∃ b : Cursor, b.tokens <:+ o.tokens ∧ c.tokens <:+ b.tokens ∧ d.position = b.token.position

variable {α β : Type}

namespace Parse

/-- Read at `c`, the step gives a value with `Q` or a fault at a token from `o` on, and stops there or later. -/
def Yields (c o : Cursor) (Q : α → Prop) (p : Parse α) : Prop :=
  match p c with
  | .done a c' => Q a ∧ c'.tokens <:+ o.tokens
  | .failed d c' => d.Between o c'
  | .exhausted => True

/-- The step gives a value with `Q` or a fault, from wherever it begins. -/
def Sound (Q : α → Prop) (p : Parse α) : Prop := ∀ c, p.Yields c c Q

/-- Sound, and faults stand behind `opening` where the step begins with it. -/
def SoundAfter (opening : Kind) (Q : α → Prop) (p : Parse α) : Prop :=
  ∀ c, p.Yields c (if c.kind = opening then c.advance else c) Q

namespace Yields

variable {o c : Cursor} {Q : α → Prop} {R : β → Prop} {p : Parse α} {q : α → Parse β} {x y : Parse β}

theorem pure {b : β} (hb : R b) (hc : c.tokens <:+ o.tokens) : (Pure.pure b : Parse β).Yields c o R := ⟨hb, hc⟩

theorem fail {b : Cursor} {cause : Diagnostic.Cause} {pos : Position} (hb : b.tokens <:+ o.tokens)
    (hc : c.tokens <:+ b.tokens) (hpos : pos = b.token.position) : (Parse.fail cause pos : Parse β).Yields c o R :=
  ⟨b, hb, hc, hpos⟩

theorem unexpected {form : Diagnostic.Form} (hc : c.tokens <:+ o.tokens) :
    (Parse.unexpected form : Parse β).Yields c o R :=
  ⟨c, hc, List.suffix_rfl, rfl⟩

theorem since {o' : Cursor} (h : p.Yields c o Q) (ho : o.tokens <:+ o'.tokens) : p.Yields c o' Q := by
  unfold Yields at h ⊢
  cases hp : p c with
  | done a c' => rw [hp] at h; exact ⟨h.1, h.2.trans ho⟩
  | failed d c' =>
      rw [hp] at h
      obtain ⟨b, hb, hc, hpos⟩ := h
      exact ⟨b, hb.trans ho, hc, hpos⟩
  | exhausted => trivial

theorem imp {Q' : α → Prop} (h : p.Yields c o Q) (hQ : ∀ a, Q a → Q' a) : p.Yields c o Q' := by
  unfold Yields at h ⊢
  cases hp : p c with
  | done a c' => rw [hp] at h; exact ⟨hQ a h.1, h.2⟩
  | failed d c' => rw [hp] at h; exact h
  | exhausted => trivial

theorem andThen (hp : p.Yields c o Q) (hq : ∀ a c', Q a → c'.tokens <:+ o.tokens → (q a).Yields c' o R) :
    (p >>= q).Yields c o R := by
  unfold Yields at hp hq ⊢
  simp only [Bind.bind]
  cases h : p c with
  | done a c' => rw [h] at hp; exact hq a c' hp.1 hp.2
  | failed d c' => rw [h] at hp; exact hp
  | exhausted => trivial

theorem last (hp : p.Sound Q) (hc : c.tokens <:+ o.tokens) : p.Yields c o Q := (hp c).since hc

theorem bind (hp : p.Sound Q) (hc : c.tokens <:+ o.tokens)
    (hq : ∀ a c', Q a → c'.tokens <:+ o.tokens → (q a).Yields c' o R) : (p >>= q).Yields c o R :=
  .andThen (.last hp hc) hq

theorem position {q : Position → Parse β} (hq : (q c.token.position).Yields c o R) :
    (Parse.position >>= q).Yields c o R := hq

theorem kind {q : Kind → Parse β} (hq : (q c.kind).Yields c o R) : (Parse.kind >>= q).Yields c o R := hq

theorem cursor {q : Cursor → Parse β} (hq : (q c).Yields c o R) : (Parse.cursor >>= q).Yields c o R := hq

theorem take {q : Token → Parse β} (hc : c.tokens <:+ o.tokens)
    (hq : ∀ c', c'.tokens <:+ c.tokens → c'.tokens <:+ o.tokens → (q c.token).Yields c' o R) :
    (Parse.next >>= q).Yields c o R :=
  hq c.advance Cursor.tokens_advance (Cursor.tokens_advance.trans hc)

theorem expect {needed : Kind} {q : Unit → Parse β} (hc : c.tokens <:+ o.tokens)
    (hq : ∀ c', c'.tokens <:+ o.tokens → (q ()).Yields c' o R) : (Parse.expect needed >>= q).Yields c o R := by
  unfold Yields at hq ⊢
  by_cases hk : c.kind = needed
  · have hdone : Parse.expect needed c = .done () c.advance := if_pos hk
    simp only [Bind.bind, hdone]
    exact hq _ (Cursor.tokens_advance.trans hc)
  · have hfailed : Parse.expect needed c = .failed ⟨.missingToken needed c.kind, c.token.position⟩ c := if_neg hk
    simp only [Bind.bind, hfailed]
    exact ⟨c, hc, List.suffix_rfl, rfl⟩

theorem ifAccepts {wanted : Kind} (hc : c.tokens <:+ o.tokens)
    (hx : ∀ c', c'.tokens <:+ o.tokens → x.Yields c' o R) (hy : y.Yields c o R) :
    (accepts wanted >>= fun taken => if taken = true then x else y).Yields c o R := by
  unfold Yields at hx hy ⊢
  by_cases hk : c.kind = wanted
  · have hdone : accepts wanted c = .done true c.advance := if_pos hk
    simp only [Bind.bind, hdone, if_true]
    exact hx _ (Cursor.tokens_advance.trans hc)
  · have hdone : accepts wanted c = .done false c := if_neg hk
    simp only [Bind.bind, hdone, Bool.false_eq_true, if_false]
    exact hy

theorem ifSees {wanted : Kind} (hx : x.Yields c o R) (hy : y.Yields c o R) :
    (sees wanted >>= fun seen => if seen = true then x else y).Yields c o R := by
  by_cases hk : c.kind = wanted
  · simpa [Yields, Bind.bind, sees, hk] using hx
  · simpa [Yields, Bind.bind, sees, hk] using hy

theorem ifCloses {close : Kind} (hx : x.Yields c o R) (hy : y.Yields c o R) :
    (closes close >>= fun closed => if closed = true then x else y).Yields c o R := by
  by_cases hk : c.kind = close ∨ c.kind = .eof
  · simpa [Yields, Bind.bind, closes, hk] using hx
  · simpa [Yields, Bind.bind, closes, hk] using hy

end Yields

variable {Q : α → Prop} {p : Parse α}

theorem SoundAfter.intro {opening : Kind} {q : Position → Parse α} (h : ∀ pos, (q pos).Sound Q) :
    (position >>= fun pos => expect opening >>= fun _ => q pos).SoundAfter opening Q := by
  intro c
  refine .position ?_
  split
  next hk =>
    -- The word is there, so reading goes on behind it as if it began there.
    have hstep : (expect opening >>= fun _ => q c.token.position) c = q c.token.position c.advance := by
      simp only [Bind.bind, expect, if_pos hk]
    unfold Yields
    rw [hstep]
    exact h _ c.advance
  next => exact .expect List.suffix_rfl fun c' hc => .last (h _) hc

theorem SoundAfter.sound {opening : Kind} (h : p.SoundAfter opening Q) : p.Sound Q := by
  intro c
  refine (h c).since ?_
  split
  · exact Cursor.tokens_advance
  · exact List.suffix_rfl

/-! ## Words -/

theorem accepts_sound (wanted : Kind) : (accepts wanted).Sound fun _ => True := by
  intro c
  unfold Yields accepts
  by_cases hk : c.kind = wanted
  · simpa [hk] using Cursor.tokens_advance
  · simp [hk]

theorem identifier_sound : identifier.Sound fun _ => True := by
  refine fun o => .take List.suffix_rfl fun c hc _ => ?_
  split
  · exact .pure trivial hc
  · exact .fail List.suffix_rfl hc rfl

theorem propertyName_sound : propertyName.Sound fun _ => True := by
  refine fun o => .take List.suffix_rfl fun c hc _ => ?_
  split
  · exact .pure trivial hc
  · split
    · exact .pure trivial hc
    · exact .fail List.suffix_rfl hc rfl

/-! ## Rounds -/

/-- The state is one with `Q`, whether the repetition goes on or not. -/
def Turn.All (Q : α → Prop) : Turn α → Prop
  | .again state | .stop state => Q state

variable {round : α → Parse (Turn α)}

theorem rounds_sound (h : ∀ s, Q s → (round s).Sound (Turn.All Q)) {s : α} (hs : Q s) (allowance : Nat) :
    (rounds round allowance s).Sound Q := by
  induction allowance generalizing s with
  | zero => exact fun _ => trivial
  | succ allowance ih =>
      refine fun o => .bind (h s hs) List.suffix_rfl fun turn c hturn hc => ?_
      cases turn with
      | stop s' => exact .pure hturn hc
      | again s' => exact .last (ih hturn) hc

theorem repeated_sound (h : ∀ s, Q s → (round s).Sound (Turn.All Q)) {s : α} (hs : Q s) :
    (repeated round s).Sound Q :=
  fun c => rounds_sound h hs (c.rest.length + 1) c

theorem afterItem_yields {s : α} (hs : Q s) {o c : Cursor} (hc : c.tokens <:+ o.tokens) :
    (afterItem s).Yields c o (Turn.All Q) :=
  .ifAccepts hc (fun _ hc => .pure hs hc) (.pure hs hc)

theorem listUntil_sound {close : Symbol} (h : p.Sound Q) : (listUntil close p).Sound fun xs => ∀ x ∈ xs, Q x := by
  have hround items (hitems : ∀ x ∈ items, Q x) :
      (listRound close p items).Sound (Turn.All fun xs => ∀ x ∈ xs, Q x) := by
    intro o
    refine .ifCloses (.pure hitems List.suffix_rfl) (.bind h List.suffix_rfl fun x c hx hc => afterItem_yields ?_ hc)
    simpa [or_imp, forall_and, hx] using hitems
  intro o
  refine .bind (repeated_sound hround (by simp)) List.suffix_rfl fun items c hitems hc => ?_
  exact .expect hc fun c hc => .pure hitems hc

end Parse

end Cairn
