import Cairn.Value.Store

/-!
# Scopes

Scopes live in slots of an arena and point to the scope around them. A scope that a function or a frame
block was declared in is captured, with all scopes around it, and stays. Any other scope is released when
the call, arm or frame that opened it is over, and its slot is used again. An arena can also be told to
keep every scope, which makes no difference to what programs can see.
-/

namespace Cairn

/-- Names and their values, with the scope around them. -/
structure Scope where
  vars : Dict String Value := {}
  parent : Option ScopeId := none
  captured : Bool := false

instance : Inhabited Scope := ⟨{}⟩

/-- The outermost scope. -/
def ScopeId.global : ScopeId := ⟨0⟩

/-- All scopes, and the released slots, the latest first. -/
structure Arena where
  scopes : Array Scope
  free : List Nat := []
  /-- Are released slots used again? -/
  recycles : Bool := true

namespace Arena

/-- Only the global scope, which is never released. -/
def fresh (recycles : Bool) : Arena :=
  { scopes := #[{ captured := true }], recycles }

/-- The scope in a slot. -/
def scope (a : Arena) (id : ScopeId) : Scope := (a.scopes[id.slot]?).getD {}

/-- Changes the scope in a slot. -/
def modify (a : Arena) (id : ScopeId) (f : Scope → Scope) : Arena :=
  { a with scopes := a.scopes.modify id.slot f }

/-- Opens a scope inside `parent`, in the slot released last if there is one. -/
def child (a : Arena) (parent : ScopeId) : ScopeId × Arena :=
  let scope : Scope := { parent := some parent }
  match a.free with
  | slot :: free => (⟨slot⟩, { a with scopes := a.scopes.setIfInBounds slot scope, free })
  | [] => (⟨a.scopes.size⟩, { a with scopes := a.scopes.push scope })

/-- Binds `name` in exactly this scope. -/
def define (a : Arena) (id : ScopeId) (name : String) (value : Value) : Arena :=
  a.modify id fun s => { s with vars := s.vars.insert name value }

/-- Binds names in exactly this scope, from the first to the last. -/
def defineAll (a : Arena) (id : ScopeId) (bindings : List (String × Value)) : Arena :=
  bindings.foldl (fun a (name, value) => a.define id name value) a

/-- The nearest scope from `id` outward that binds `name`, at most `limit` scopes away. -/
def resolveWithin (a : Arena) (name : String) (id : ScopeId) : (limit : Nat) → Option ScopeId
  | 0 => none
  | limit + 1 =>
    if (a.scope id).vars.contains name then some id
    else
      match (a.scope id).parent with
      | none => none
      | some parent => a.resolveWithin name parent limit

/-- The nearest scope from `id` outward that binds `name`. -/
def resolve (a : Arena) (id : ScopeId) (name : String) : Option ScopeId :=
  a.resolveWithin name id a.scopes.size

/-- The value of `name` as seen from `id`. -/
def get? (a : Arena) (id : ScopeId) (name : String) : Option Value := do
  (a.scope (← a.resolve id name)).vars.get? name

/-- Rebinds `name` where it is bound; a name that is bound nowhere becomes global. -/
def set (a : Arena) (id : ScopeId) (name : String) (value : Value) : Arena :=
  a.define ((a.resolve id name).getD .global) name value

/-- Captures scopes from `id` outward, up to one that is captured already or `limit` scopes away. -/
def captureWithin (a : Arena) (id : ScopeId) : (limit : Nat) → Arena
  | 0 => a
  | limit + 1 =>
    if (a.scope id).captured then a
    else
      let a' := a.modify id fun s => { s with captured := true }
      match (a.scope id).parent with
      | none => a'
      | some parent => a'.captureWithin parent limit

/-- Captures a scope and all scopes around it. -/
def capture (a : Arena) (id : ScopeId) : Arena := a.captureWithin id a.scopes.size

/-- Gives the slot of a scope that is not captured back. -/
def release (a : Arena) (id : ScopeId) : Arena :=
  if (a.scope id).captured || !a.recycles then a
  else
    let a := a.modify id fun s => { s with vars := {}, parent := none }
    { a with free := id.slot :: a.free }

/-- How many scopes are in use. -/
def live (a : Arena) : Nat := a.scopes.size - a.free.length

/-- The global names and values, first defined first. -/
def globals (a : Arena) : List (String × Value) := (a.scope .global).vars.entries

end Arena

end Cairn
