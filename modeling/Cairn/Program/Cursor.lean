import Cairn.Diagnostic

/-!
# Reading tokens

A cursor stands on a token and knows the later ones; it never moves past the last. A reading step takes
a cursor and gives a value and the cursor after it, or a fault and the cursor where it happened, since
recovery goes on from there.
-/

namespace Cairn

open Token (Keyword Symbol Kind)

/-- The token at hand and the ones after it. -/
structure Cursor where
  token : Token
  rest : List Token

namespace Cursor

/-- Moves to the next token, or stays on the last. -/
def advance (c : Cursor) : Cursor :=
  match c.rest with
  | [] => c
  | t :: rest => ⟨t, rest⟩

/-- The kind of the token at hand. -/
def kind (c : Cursor) : Kind := c.token.kind

/-- The kind of the token `n` places after the next one. -/
def later? (c : Cursor) (n : Nat) : Option Kind := (c.rest[n]?).map (·.kind)

end Cursor

/-- What a reading step comes to. -/
inductive Reading (α : Type) where
  | done (value : α) (cursor : Cursor)
  | failed (fault : Diagnostic) (cursor : Cursor)
  /-- The allowance of nested steps or of rounds was used up. -/
  | exhausted

/-- A reading step. -/
def Parse (α : Type) : Type := Cursor → Reading α

namespace Parse

variable {α : Type}

instance : Monad Parse where
  pure a := fun c => .done a c
  bind step next := fun c =>
    match step c with
    | .done a c => next a c
    | .failed fault c => .failed fault c
    | .exhausted => .exhausted

instance : LawfulMonad Parse := LawfulMonad.mk' Parse
  (fun x => by funext c; simp only [Functor.map]; cases x c <;> rfl)
  (fun _ _ => rfl)
  (fun x f g => by funext c; simp only [bind]; cases x c <;> rfl)

instance : Inhabited (Parse α) := ⟨fun _ => .exhausted⟩

/-- Gives up for want of allowance. -/
def exhausted : Parse α := fun _ => .exhausted

/-- Fails at `position`. -/
def fail (cause : Diagnostic.Cause) (position : Position) : Parse α :=
  fun c => .failed ⟨cause, position⟩ c

/-- The cursor itself. -/
def cursor : Parse Cursor := fun c => .done c c

/-- The kind of the token at hand. -/
def kind : Parse Kind := fun c => .done c.kind c

/-- The position of the token at hand. -/
def position : Parse Position := fun c => .done c.token.position c

/-- Takes the token at hand. -/
def next : Parse Token := fun c => .done c.token c.advance

/-- Is the token at hand of this kind? -/
def sees (kind : Kind) : Parse Bool := fun c => .done (c.kind = kind) c

/-- Is the token at hand the end, or of this kind? -/
def closes (kind : Kind) : Parse Bool := fun c => .done (c.kind = kind || c.kind = .eof) c

/-- Takes the token at hand if it is of this kind. -/
def accepts (kind : Kind) : Parse Bool := fun c =>
  if c.kind = kind then .done true c.advance else .done false c

/-- Takes the token at hand, which has to be of this kind. -/
def expect (needed : Kind) : Parse Unit := fun c =>
  if c.kind = needed then .done () c.advance
  else .failed ⟨.missingToken needed c.kind, c.token.position⟩ c

/-- Fails at the token at hand, which starts no form of the kind asked for. -/
def unexpected (form : Diagnostic.Form) : Parse α := fun c =>
  .failed ⟨.missingForm form c.kind, c.token.position⟩ c

/-- Takes a name. The token is gone even if it was none. -/
def identifier : Parse String := do
  let t ← next
  match t.kind with
  | .name value => pure value
  | _ => fail (.missingWord .identifier t.lexeme) t.position

/-- Is `lexeme` made of ASCII letters? -/
def isWord (lexeme : String) : Bool :=
  !lexeme.isEmpty && lexeme.toList.all Char.isAlpha

/-- Takes a name or a keyword that can serve as one. The token is gone even if it was neither. -/
def propertyName : Parse String := do
  let t ← next
  match t.kind with
  | .name value => pure value
  | _ =>
    if isWord t.lexeme then pure t.lexeme
    else fail (.missingWord .propertyName t.lexeme) t.position

/-! ## Rounds -/

/-- How one round of a repetition ends. -/
inductive Turn (α : Type) where
  | again (state : α)
  | stop (state : α)

/-- Repeats `round` until it stops, `allowance` times at most. -/
def rounds (round : α → Parse (Turn α)) : (allowance : Nat) → α → Parse α
  | 0, _ => exhausted
  | allowance + 1, state => do
    match ← round state with
    | .stop state => pure state
    | .again state => rounds round allowance state

/-- Repeats `round` until it stops; every round that goes on has to take a token. -/
def repeated (round : α → Parse (Turn α)) (state : α) : Parse α :=
  fun c => rounds round (c.rest.length + 1) state c

/-- After an item of a list a comma says that the list may go on. -/
def afterItem (state : α) : Parse (Turn α) := do
  if ← accepts (.symbol .comma) then return .again state else return .stop state

/-- One item of a list with commas; the comma after the last item may be left out or written. -/
def listRound (close : Symbol) (item : Parse α) (items : List α) : Parse (Turn (List α)) := do
  if ← closes (.symbol close) then
    return .stop items
  let x ← item
  afterItem (items ++ [x])

/-- Items with commas between them, up to and with `close`. -/
def listUntil (close : Symbol) (item : Parse α) : Parse (List α) := do
  let items ← repeated (listRound close item) []
  expect (.symbol close)
  return items

end Parse

end Cairn
