import Cairn.Device.Basic
import Cairn.Fault
import Cairn.Frame
import Cairn.Value.Store

/-!
# Functions of the host

A native is called by name with a list of arguments. It sees and changes the host: the store, the input
device and the output that waits for the next frame.
-/

namespace Cairn

/-- What chance answers to a question: a fraction of one, or a whole number between two bounds. -/
structure Chance where
  fraction : Float
  between : (low high : Int) → Int

/-- Chance that gives the least answer to every question. -/
def Chance.least : Nat → Chance := fun _ => { fraction := 0.0, between := fun low _ => low }

/-- Everything a native can touch. -/
structure Host where
  store : Store := {}
  device : Device := {}
  /-- Output that the host has not taken yet. -/
  pending : Frame := {}
  /-- The answers to the questions to chance that are still to come. The world outside brings them along, and nothing
  is assumed of them. -/
  chances : Nat → Chance := Chance.least

/-- One call of a native. -/
structure NativeCall where
  name : String
  args : List Value
  line : Nat

/-! ## Deeds -/

/-- Something done to the host. A failure comes with the host as it is then: what was done before stays done. -/
structure Deed (α : Type) where
  run : Host → Except Failure α × Host

namespace Deed

variable {α β : Type}

instance : CoeFun (Deed α) fun _ => Host → Except Failure α × Host := ⟨Deed.run⟩

instance : Monad Deed where
  pure a := ⟨fun h => (.ok a, h)⟩
  bind d next := ⟨fun h =>
    match d h with
    | (.ok a, h) => next a h
    | (.error e, h) => (.error e, h)⟩

/-- A check of arguments does nothing to the host. -/
instance : MonadLift (Except Failure) Deed where
  monadLift r := ⟨fun h => (r, h)⟩

/-- The host as it is. -/
def host : Deed Host := ⟨fun h => (.ok h, h)⟩

/-- Changes the host. -/
def modify (f : Host → Host) : Deed Unit := ⟨fun h => (.ok (), f h)⟩

theorem run_bind (d : Deed α) (next : α → Deed β) (h : Host) :
    (d >>= next) h =
      match d h with
      | (.ok a, h) => next a h
      | (.error e, h) => (.error e, h) := rfl

end Deed

/-- What a native does. -/
abbrev Native := Deed Value

namespace NativeCall

variable (c : NativeCall)

/-- The argument at `i`; `null` if there is none. -/
def arg (i : Nat) : Value := (c.args[i]?).getD .null

/-- Refuses an argument. -/
def refuse {α : Type} (fault : ArgumentFault) : Except Failure α :=
  .error (.fault ⟨.badArgument c.name fault, c.line⟩)

/-- A number. -/
def number (i : Nat) : Except Failure Float :=
  match c.arg i with
  | .number n => .ok n
  | v => c.refuse (.wrongKind .number v.kind)

/-- The text of a value, if there is an end to it. -/
def shown (store : Store) (v : Value) : Except Failure String :=
  match store.display v with
  | some text => .ok text
  | none => .error (.abort .endlessText)

/-- The texts of all arguments. -/
def texts (store : Store) : Except Failure (List String) :=
  c.args.mapM (shown store)

/-- A number that may be left out. -/
def numberOr (i : Nat) (default : Float) : Except Failure Float :=
  match c.arg i with
  | .null => .ok default
  | _ => c.number i

/-- A text. -/
def text (i : Nat) : Except Failure String :=
  match c.arg i with
  | .text s => .ok s
  | v => c.refuse (.wrongKind .text v.kind)

/-- The number of a button or an axis. -/
def index (i : Nat) : Except Failure Nat := do
  let n ← c.number i
  if n < 0.0 || !Number.isWhole n || 4294967295.0 < n then c.refuse (.notAnIndex n)
  else return (Number.toIndex n).toNat

/-- A colour that may be left out. -/
def color (i : Nat) (default : Color) : Except Failure Color :=
  match c.arg i with
  | .null => .ok default
  | .text s =>
    match Color.parse? s with
    | some color => .ok color
    | none => c.refuse (.badColor s)
  | v => c.refuse (.wrongKind .color v.kind)

end NativeCall

namespace Host

/-- Adds a draw command to the pending output. -/
def emitDraw (h : Host) (cmd : DrawCommand) : Host :=
  { h with pending := { h.pending with draw := h.pending.draw.push cmd } }

/-- Adds an audio command to the pending output. -/
def emitAudio (h : Host) (cmd : AudioCommand) : Host :=
  { h with pending := { h.pending with audio := h.pending.audio.push cmd } }

/-- Adds a printed line to the pending output. -/
def emitPrint (h : Host) (line : String) : Host :=
  { h with pending := { h.pending with printed := h.pending.printed.push line } }

end Host

/-- A group of natives: what it declares, and what it does for a name. `none` means that the name is not
one of its own. -/
structure NativeGroup where
  name : String
  signatures : List Signature
  find? : NativeCall → Option Native

end Cairn
