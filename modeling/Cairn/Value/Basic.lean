import Cairn.Dict
import Cairn.Program.Basic

/-!
# Values

Numbers, text, booleans and `null` are what they are. Arrays, prototypes, functions, constructors and
variants are references to things in a store, and two of them are equal only if they refer to the same thing.
-/

namespace Cairn

/-- The name, the parameters and the arity of a function of the host. -/
structure Signature where
  name : String
  params : List String := []
  /-- Arguments beyond the parameters are passed on. -/
  variadic : Bool := false
deriving DecidableEq, Repr

/-- A value of the language. -/
inductive Value where
  | number (n : Float)
  | text (s : String)
  | bool (b : Bool)
  | null
  | array (ref : Nat)
  | prototype (ref : Nat)
  | function (ref : Nat)
  /-- Makes variants that carry fields. -/
  | constructor (ref : Nat)
  | variant (ref : Nat)
  | native (sig : Signature)
deriving DecidableEq

instance : Inhabited Value := ⟨.null⟩

namespace Value

/-- The types of values. -/
inductive Kind where
  | number | text | bool | null | array | prototype | function | constructor | variant | native
deriving DecidableEq, Repr

/-- The name of a type. -/
def Kind.label : Kind → String
  | .number => "number"
  | .text => "string"
  | .bool => "boolean"
  | .null => "null"
  | .array => "array"
  | .prototype => "prototype"
  | .function => "function"
  | .constructor => "constructor"
  | .variant => "variant"
  | .native => "native"

/-- The type of a value. -/
def kind : Value → Kind
  | .number _ => .number
  | .text _ => .text
  | .bool _ => .bool
  | .null => .null
  | .array _ => .array
  | .prototype _ => .prototype
  | .function _ => .function
  | .constructor _ => .constructor
  | .variant _ => .variant
  | .native _ => .native

/-- `null`, `false`, zero, not a number and the empty text count as false. -/
def isTruthy : Value → Bool
  | .null => false
  | .bool b => b
  | .number n => n != 0.0 && !n.isNaN
  | .text s => !s.isEmpty
  | _ => true

/-- Equality without conversion: plain values by content, references by what they refer to. -/
def same : Value → Value → Bool
  | .number a, .number b => a == b
  | .text a, .text b => a == b
  | .bool a, .bool b => a == b
  | .null, .null => true
  | .array a, .array b => a == b
  | .prototype a, .prototype b => a == b
  | .function a, .function b => a == b
  | .constructor a, .constructor b => a == b
  | .variant a, .variant b => a == b
  | .native a, .native b => a.name == b.name
  | _, _ => false

end Value

end Cairn
