import Cairn.Native.Basic
import Cairn.Number.Reader

/-!
# Natives that are always there

Printing, collections, conversion, arithmetic and chance.
-/

namespace Cairn.Native

/-- The natives of this group. -/
inductive Core where
  | print
  | len | push | pop | keys
  | str | num | type
  | floor | ceil | round | abs | sqrt | sin | cos | atan2 | min | max | clamp
  | random | randomInt
deriving DecidableEq, Repr

namespace Core

/-- Every native, in the order of declaration. -/
def all : List Core :=
  [.print, .len, .push, .pop, .keys, .str, .num, .type, .floor, .ceil, .round, .abs, .sqrt, .sin, .cos,
   .atan2, .min, .max, .clamp, .random, .randomInt]

/-- Names and parameters. -/
def signature : Core → Signature
  | .print => ⟨"print", [], true⟩
  | .len => ⟨"len", ["value"], false⟩
  | .push => ⟨"push", ["array", "value"], false⟩
  | .pop => ⟨"pop", ["array"], false⟩
  | .keys => ⟨"keys", ["object"], false⟩
  | .str => ⟨"str", ["value"], false⟩
  | .num => ⟨"num", ["value"], false⟩
  | .type => ⟨"type", ["value"], false⟩
  | .floor => ⟨"floor", ["x"], false⟩
  | .ceil => ⟨"ceil", ["x"], false⟩
  | .round => ⟨"round", ["x"], false⟩
  | .abs => ⟨"abs", ["x"], false⟩
  | .sqrt => ⟨"sqrt", ["x"], false⟩
  | .sin => ⟨"sin", ["x"], false⟩
  | .cos => ⟨"cos", ["x"], false⟩
  | .atan2 => ⟨"atan2", ["y", "x"], false⟩
  | .min => ⟨"min", ["a", "b"], false⟩
  | .max => ⟨"max", ["a", "b"], false⟩
  | .clamp => ⟨"clamp", ["x", "lo", "hi"], false⟩
  | .random => ⟨"random", [], false⟩
  | .randomInt => ⟨"random_int", ["lo", "hi"], false⟩

/-- The native of a name. -/
def ofName? (name : String) : Option Core :=
  all.find? (·.signature.name == name)

/-! ## Conversion -/

/-- The number that a text spells: white space around it does not count, nothing at all is zero, `0x` and
`0b` announce integers, and what cannot be read is not a number. -/
def numberOfText (text : String) : Float :=
  match Text.trim Text.isSpace text.toList with
  | [] => 0.0
  | '0' :: 'x' :: digits => ((Number.readIndex? 16 digits).map Float.ofInt).getD Number.nan
  | '0' :: 'b' :: digits => ((Number.readIndex? 2 digits).map Float.ofInt).getD Number.nan
  | cs => (Number.read? cs).getD Number.nan

/-- The number that a value stands for. -/
def toNumber : Value → Float
  | .number n => n
  | .bool b => if b then 1.0 else 0.0
  | .null => 0.0
  | .text s => numberOfText s
  | _ => Number.nan

/-! ## Calls -/

/-- A function of one number. -/
def arithmetic (c : NativeCall) (f : Float → Float) : Native := do
  return .number (f (← c.number 0))

/-- A function of two numbers. -/
def arithmetic2 (c : NativeCall) (f : Float → Float → Float) : Native := do
  let x ← c.number 0
  let y ← c.number 1
  return .number (f x y)

/-- The number of items, characters or entries. -/
def length (c : NativeCall) : Native := do
  let h ← Deed.host
  match c.arg 0 with
  | .array ref => return .number (Float.ofNat (h.store.items ref).size)
  | .text s => return .number (Float.ofNat s.length)
  | .prototype ref => return .number (Float.ofNat (h.store.entries ref).size)
  | v => c.refuse (.noLength v.kind)

/-- Adds an item at the end of an array and gives the new length. -/
def append (c : NativeCall) : Native := do
  let h ← Deed.host
  match c.arg 0 with
  | .array ref =>
    Deed.modify fun h => { h with store := h.store.modifyItems ref (·.push (c.arg 1)) }
    return .number (Float.ofNat ((h.store.items ref).size + 1))
  | v => c.refuse (.wrongKind .array v.kind)

/-- Takes the last item off an array. -/
def removeLast (c : NativeCall) : Native := do
  let h ← Deed.host
  match c.arg 0 with
  | .array ref =>
    Deed.modify fun h => { h with store := h.store.modifyItems ref Array.pop }
    return (h.store.items ref).back?.getD .null
  | v => c.refuse (.wrongKind .array v.kind)

/-- The keys of a prototype, as a new array. -/
def listKeys (c : NativeCall) : Native := do
  let h ← Deed.host
  match c.arg 0 with
  | .prototype ref =>
    let (v, store) := h.store.newArray ((h.store.entries ref).keys.map .text).toArray
    Deed.modify ({ · with store })
    return v
  | v => c.refuse (.wrongKind .prototype v.kind)

/-- Holds a number between two bounds. -/
def holdBetween (c : NativeCall) : Native := do
  let x ← c.number 0
  let low ← c.number 1
  let high ← c.number 2
  if high < low then c.refuse (.emptyRange low high)
  else if low.isNaN || high.isNaN then (Except.error (.abort .unorderedBounds) : Except Failure Value)
  else return .number (Number.clamp x low high)

/-- What each native does. -/
def run (native : Core) (c : NativeCall) : Native :=
  match native with
  | .print => do
    let h ← Deed.host
    let texts ← c.texts h.store
    Deed.modify (·.emitPrint (" ".intercalate texts))
    return .null
  | .len => length c
  | .push => append c
  | .pop => removeLast c
  | .keys => listKeys c
  | .str => do
    let h ← Deed.host
    return .text (← NativeCall.shown h.store (c.arg 0))
  | .num => return .number (toNumber (c.arg 0))
  | .type => return .text (c.arg 0).kind.label
  | .floor => arithmetic c Float.floor
  | .ceil => arithmetic c Float.ceil
  | .round => arithmetic c fun x => (x + 0.5).floor
  | .abs => arithmetic c Float.abs
  | .sqrt => arithmetic c Float.sqrt
  | .sin => arithmetic c Float.sin
  | .cos => arithmetic c Float.cos
  | .atan2 => arithmetic2 c Float.atan2
  | .min => arithmetic2 c Number.least
  | .max => arithmetic2 c Number.greatest
  | .clamp => holdBetween c
  | .random => do
    let h ← Deed.host
    Deed.modify ({ · with chances := fun n => h.chances (n + 1) })
    return .number (h.chances 0).fraction
  | .randomInt => do
    let a := Number.toIndex (← c.number 0).floor
    let b := Number.toIndex (← c.number 1).floor
    let h ← Deed.host
    Deed.modify ({ · with chances := fun n => h.chances (n + 1) })
    return .number (Float.ofInt ((h.chances 0).between (Min.min a b) (Max.max a b)))

/-- Named numbers. -/
def constants : List (String × Value) :=
  [("PI", .number 3.141592653589793), ("TAU", .number 6.283185307179586)]

/-- The group of these natives. -/
def group : NativeGroup where
  name := "core"
  signatures := all.map signature
  find? c := (ofName? c.name).map (·.run c)

end Core

end Cairn.Native
