import Cairn.Eval.World

/-!
# Members, items and places

Indices and bounds count from the end when they are negative. A place is what an assignment writes to; its
object and key are worked out once, and then it is read and written.
-/

namespace Cairn

/-! ## Positions in a sequence -/

/-- The position that an integer names in a sequence of `length` items. -/
def positionOf? (i : Int) (length : Nat) : Option Nat :=
  let resolved := if i < 0 then i + length else i
  if 0 ≤ resolved ∧ resolved < length then some resolved.toNat else none

/-- The position that a key names in a sequence of `length` items. -/
def keyPosition (key : Value) (length : Nat) : Except Fault.Cause Nat :=
  match key with
  | .number n =>
    match positionOf? (Number.toIndex n) length with
    | some p => .ok p
    | none => .error (.outOfBounds (Number.toIndex n) length)
  | v => .error (.indexNotNumber v.kind)

/-- The item of `items` that a key names. -/
def itemAt {α : Type} (items : Array α) (key : Value) : Except Fault.Cause α := do
  let p ← keyPosition key items.size
  match items[p]? with
  | some a => .ok a
  | none => .error (.outOfBounds p items.size)

/-- A bound counted from the end if negative, then held between the ends. -/
def normalBound (i : Int) (length : Nat) : Nat :=
  let resolved := if i < 0 then i + length else i
  (max 0 (min resolved length)).toNat

/-- A bound of a slice; `null` stands for `default`. -/
def sliceBound (v : Value) (default : Nat) (length : Nat) : Except Fault.Cause Nat :=
  match v with
  | .null => .ok (normalBound default length)
  | .number n => .ok (normalBound (Number.toIndex n) length)
  | v => .error (.boundNotNumber v.kind)

/-- Both bounds of a slice; the second is never before the first. -/
def sliceBounds (start stop : Value) (length : Nat) : Except Fault.Cause (Nat × Nat) := do
  let s ← sliceBound start 0 length
  let e ← sliceBound stop length length
  return (s, max e s)

/-- The items of `items` between two bounds. -/
def sliceOf {α : Type} (items : Array α) (start stop : Value) : Except Fault.Cause (Array α) := do
  let (s, e) ← sliceBounds start stop items.size
  return items.extract s e

/-! ## Parts of values -/

namespace Store

/-- `object.property` -/
def member (store : Store) (object : Value) (property : String) : Except Fault.Cause Value :=
  match object with
  | .prototype ref => .ok (((store.entries ref).get? property).getD .null)
  | .variant ref =>
    match Dict.lookup property (store.variant ref).fields with
    | some v => .ok v
    | none => .error (.noField (store.variant ref).name property)
  | .array ref =>
    if property = "length" then .ok (.number (Float.ofNat (store.items ref).size))
    else .error (.noMember .array property)
  | .text s =>
    if property = "length" then .ok (.number (Float.ofNat s.toList.length))
    else .error (.noMember .text property)
  | v => .error (.noMember v.kind property)

/-- `object[key]` -/
def index (store : Store) (object key : Value) : Except Fault.Cause Value :=
  match object with
  | .array ref => itemAt (store.items ref) key
  | .text s => do
    let c ← itemAt s.toList.toArray key
    return .text (String.singleton c)
  | .prototype ref =>
    match key with
    | .text k => .ok (((store.entries ref).get? k).getD .null)
    | v => .error (.keyNotText v.kind)
  | v => .error (.cannotIndex v.kind)

/-- `object[start:stop]`, where `null` stands for a bound that is absent. An array gives a new array. -/
def slice (store : Store) (object start stop : Value) : Except Fault.Cause (Value × Store) :=
  match object with
  | .array ref => do
    let items ← sliceOf (store.items ref) start stop
    return store.newArray items
  | .text s => do
    let cs ← sliceOf s.toList.toArray start stop
    return (.text (String.ofList cs.toList), store)
  | v => .error (.cannotSlice v.kind)

/-- A slice makes a new array at most. -/
theorem slice_cases {store store' : Store} {object start stop v : Value}
    (h : store.slice object start stop = .ok (v, store')) : ∃ arrays, store' = { store with arrays } := by
  cases object with
  | array ref =>
      simp only [slice, bind, Except.bind] at h
      split at h
      · cases h
      · cases h
        exact ⟨_, rfl⟩
  | text s =>
      simp only [slice, bind, Except.bind] at h
      split at h
      · cases h
      · cases h
        exact ⟨store.arrays, rfl⟩
  | _ => cases h

end Store

/-! ## Places -/

/-- What an assignment writes to. -/
inductive Place where
  | var (name : String)
  | index (object key : Value)
  | member (object : Value) (property : String)

namespace Place

/-- The value at a place, as seen from `scope`. -/
def read (w : World) (scope : ScopeId) : Place → Except Fault.Cause Value
  | .var name =>
    match w.scopes.get? scope name with
    | some v => .ok v
    | none => .error (.undefined name)
  | .index object key => w.store.index object key
  | .member object property => w.store.member object property

/-- The world with `value` at a place. -/
def write (w : World) (scope : ScopeId) (value : Value) : Place → Except Fault.Cause World
  | .var name => .ok { w with scopes := w.scopes.set scope name value }
  | .index (.array ref) key => do
    let p ← keyPosition key (w.store.items ref).size
    return w.withStore (w.store.modifyItems ref (·.setIfInBounds p value))
  | .index (.prototype ref) (.text key) =>
    .ok (w.withStore (w.store.modifyEntries ref (·.insert key value)))
  | .index (.prototype _) key => .error (.keyNotText key.kind)
  | .member (.prototype ref) property =>
    .ok (w.withStore (w.store.modifyEntries ref (·.insert property value)))
  | .index object _ | .member object _ => .error (.cannotAssignInto object.kind)

/-- Writing to anything but a name changes the items of arrays and the entries of prototypes. -/
theorem write_store {w w' : World} {scope : ScopeId} {value : Value} {p : Place} (hp : ∀ name, p ≠ .var name)
    (h : p.write w scope value = .ok w') :
    ∃ arrays prototypes, w' = w.withStore { w.store with arrays, prototypes } := by
  cases p with
  | var name => exact absurd rfl (hp name)
  | index object key =>
      cases object with
      | array ref =>
          simp only [write, bind, Except.bind] at h
          split at h
          · cases h
          · cases h
            exact ⟨_, w.store.prototypes, rfl⟩
      | prototype ref =>
          cases key with
          | text k =>
              cases h
              exact ⟨w.store.arrays, _, rfl⟩
          | _ => cases h
      | _ => cases h
  | member object property =>
      cases object with
      | prototype ref =>
          cases h
          exact ⟨w.store.arrays, _, rfl⟩
      | _ => cases h

/-- Writing changes scopes, or the items of arrays and the entries of prototypes. -/
theorem write_cases {w w' : World} {scope : ScopeId} {value : Value} {p : Place}
    (h : p.write w scope value = .ok w') :
    (∃ scopes, w' = { w with scopes }) ∨
      ∃ arrays prototypes, w' = w.withStore { w.store with arrays, prototypes } := by
  cases p with
  | var name =>
      cases h
      exact .inl ⟨_, rfl⟩
  | index object key => exact .inr (write_store (by simp) h)
  | member object property => exact .inr (write_store (by simp) h)

end Place

end Cairn
