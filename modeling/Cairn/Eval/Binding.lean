import Cairn.Fault
import Cairn.Value.Store

/-!
# Arguments and patterns

How the arguments of a call find their parameters, and how a pattern takes a value apart.
-/

namespace Cairn

/-- One slot for each parameter, filled from the front and then with `null`; further arguments stay only
if `keepExtra`. -/
def positionalSlots (params : List String) (positional : List Value) (keepExtra : Bool) : List Value :=
  let kept := if keepExtra then positional else positional.take params.length
  kept ++ List.replicate (params.length - kept.length) .null

/-- Puts keyword arguments into the slots of the first parameters of their names. -/
def placeNamed (callee : String) (params : List String) :
    (named : List (String × Value)) → (slots : List Value) → Except Fault.Cause (List Value)
  | [], slots => .ok slots
  | (key, value) :: named, slots =>
    match params.findIdx? (· == key) with
    | some i => placeNamed callee params named (slots.set i value)
    | none => .error (.unknownParameter callee key)

/-- The value of every parameter of a call. -/
def bindArgs (callee : String) (params : List String) (positional : List Value)
    (named : List (String × Value)) (keepExtra : Bool) : Except Fault.Cause (List Value) :=
  placeNamed callee params named (positionalSlots params positional keepExtra)

/-- A literal as a value. -/
def Literal.toValue : Literal → Value
  | .number n => .number n
  | .text s => .text s
  | .bool b => .bool b
  | .null => .null

/-- The names of a variant pattern with the fields in their places; an underscore names nothing, and a
field that is not there is `null`. -/
def fieldBindings (names : List String) (fields : List (String × Value)) : List (String × Value) :=
  (names.zipIdx.filter fun (name, _) => name ≠ "_").map fun (name, i) =>
    (name, ((fields[i]?).map Prod.snd).getD .null)

/-- The bindings that a pattern makes of a value, if it accepts it. -/
def Pattern.accept? (store : Store) (value : Value) : Pattern → Option (List (String × Value))
  | .wildcard _ => some []
  | .literal l _ => if l.toValue.same value then some [] else none
  | .binding name _ => some [(name, value)]
  | .variant enum? name bindings _ =>
    match value with
    | .variant ref =>
      let v := store.variant ref
      if v.name = name ∧ (enum?.all (· == v.enum)) then some (fieldBindings bindings v.fields) else none
    | _ => none

end Cairn
