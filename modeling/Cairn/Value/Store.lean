import Cairn.Number.Layout
import Cairn.Value.Basic

/-!
# The store

What references refer to: one table for each kind of thing, which only grows. Arrays and prototypes can
be changed; functions, constructors and variants stay as they were made.
-/

namespace Cairn

/-- A scope, by its slot in the arena. -/
structure ScopeId where
  slot : Nat
deriving DecidableEq, Repr

/-- A function with the scope it was declared in. -/
structure Closure where
  name : String
  params : List String
  body : List Stmt
  scope : ScopeId

/-- A variant that is still to get its fields. -/
structure Constructor where
  enum : String
  name : String
  fields : List String
deriving DecidableEq, Repr

/-- A variant with its fields. -/
structure Variant where
  enum : String
  name : String
  fields : List (String × Value) := []

/-- Everything that can be referred to. -/
structure Store where
  arrays : Array (Array Value) := #[]
  prototypes : Array (Dict String Value) := #[]
  closures : Array Closure := #[]
  constructors : Array Constructor := #[]
  variants : Array Variant := #[]

namespace Store

/-! ## Looking up -/

/-- The items of an array. -/
def items (s : Store) (ref : Nat) : Array Value := (s.arrays[ref]?).getD #[]

/-- The entries of a prototype. -/
def entries (s : Store) (ref : Nat) : Dict String Value := (s.prototypes[ref]?).getD {}

/-- The function behind a reference. -/
def closure (s : Store) (ref : Nat) : Closure := (s.closures[ref]?).getD ⟨"", [], [], ⟨0⟩⟩

/-- The constructor behind a reference. -/
def constructor (s : Store) (ref : Nat) : Constructor := (s.constructors[ref]?).getD ⟨"", "", []⟩

/-- The variant behind a reference. -/
def variant (s : Store) (ref : Nat) : Variant := (s.variants[ref]?).getD ⟨"", "", []⟩

/-! ## Making -/

/-- A new array. -/
def newArray (s : Store) (items : Array Value) : Value × Store :=
  (.array s.arrays.size, { s with arrays := s.arrays.push items })

/-- A new prototype. -/
def newPrototype (s : Store) (entries : Dict String Value) : Value × Store :=
  (.prototype s.prototypes.size, { s with prototypes := s.prototypes.push entries })

/-- A new function. -/
def newClosure (s : Store) (c : Closure) : Value × Store :=
  (.function s.closures.size, { s with closures := s.closures.push c })

/-- A new constructor. -/
def newConstructor (s : Store) (c : Constructor) : Value × Store :=
  (.constructor s.constructors.size, { s with constructors := s.constructors.push c })

/-- A new variant. -/
def newVariant (s : Store) (v : Variant) : Value × Store :=
  (.variant s.variants.size, { s with variants := s.variants.push v })

/-! ## Changing -/

/-- Changes the items of an array. -/
def modifyItems (s : Store) (ref : Nat) (f : Array Value → Array Value) : Store :=
  { s with arrays := s.arrays.modify ref f }

/-- Changes the entries of a prototype. -/
def modifyEntries (s : Store) (ref : Nat) (f : Dict String Value → Dict String Value) : Store :=
  { s with prototypes := s.prototypes.modify ref f }

/-! ## Text of values -/

/-- `parts` with commas between them. -/
def commas (parts : List String) : String := ", ".intercalate parts

/-- The text of a value inside of another one, where text is quoted; none if it is nested deeper than
`depth`. -/
def nested (s : Store) : (depth : Nat) → Value → Option String
  | _, .number n => some (Number.display n)
  | _, .text t => some ("\"" ++ t ++ "\"")
  | _, .bool b => some (toString b)
  | _, .null => some "null"
  | _, .function ref => some ("<fun " ++ (s.closure ref).name ++ ">")
  | _, .constructor ref => some ("<variant " ++ (s.constructor ref).enum ++ "." ++ (s.constructor ref).name ++ ">")
  | _, .native sig => some ("<native " ++ sig.name ++ ">")
  | 0, .array _ | 0, .prototype _ | 0, .variant _ => none
  | depth + 1, .array ref => do
    let items ← (s.items ref).toList.mapM (s.nested depth)
    return "[" ++ commas items ++ "]"
  | depth + 1, .prototype ref =>
    match (s.entries ref).entries with
    | [] => some "\x7b\x7d"
    | entries => do
      let parts ← entries.mapM fun (key, v) => (s.nested depth v).map (key ++ ": " ++ ·)
      return "\x7b " ++ commas parts ++ " \x7d"
  | depth + 1, .variant ref =>
    let v := s.variant ref
    match v.fields with
    | [] => some v.name
    | fields => do
      let parts ← fields.mapM fun (_, v) => s.nested depth v
      return v.name ++ "(" ++ commas parts ++ ")"

/-- Nothing that does not contain itself is nested deeper than there are things to nest. -/
def depth (s : Store) : Nat :=
  s.arrays.size + s.prototypes.size + s.variants.size + 1

/-- The text of a value; text itself stands without quotes. There is none if the value contains itself. -/
def display (s : Store) : Value → Option String
  | .text t => some t
  | v => s.nested s.depth v

end Store

end Cairn
