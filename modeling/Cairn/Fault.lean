import Cairn.Diagnostic
import Cairn.Value.Basic

/-!
# Faults at run time

What can go wrong while a program runs: the cause, its code and wording, and the line it is blamed on.
-/

namespace Cairn

/-- What a native wanted in place of an argument. -/
inductive Needed where
  | number
  | text
  | array
  | prototype
  | color
deriving DecidableEq, Repr

/-- How a needed argument is called. -/
def Needed.label : Needed → String
  | .number => "number"
  | .text => "string"
  | .array => "array"
  | .prototype => "prototype"
  | .color => "color string"

/-- Why a native refuses its arguments. -/
inductive ArgumentFault where
  | wrongKind (needed : Needed) (got : Value.Kind)
  | noLength (got : Value.Kind)
  | emptyRange (low high : Float)
  /-- Not a whole number from zero to the greatest 32-bit one. -/
  | notAnIndex (n : Float)
  | badColor (text : String)
deriving DecidableEq

/-- The wording of a refusal. -/
def ArgumentFault.message : ArgumentFault → String
  | .wrongKind needed got => "expected " ++ needed.label ++ ", got " ++ got.label
  | .noLength got => "no length for " ++ got.label
  | .emptyRange low high => "empty range " ++ Number.display low ++ " to " ++ Number.display high
  | .notAnIndex n => "expected a button index, got " ++ Number.plain n
  | .badColor text => "invalid color " ++ Diagnostic.ticked text

namespace Fault

/-- Why a run fails. -/
inductive Cause where
  | undefined (name : String)
  | notCallable (kind : Value.Kind)
  | notImplemented (native : String)
  | noMember (kind : Value.Kind) (property : String)
  | noField (variant property : String)
  | cannotIndex (kind : Value.Kind)
  | cannotSlice (kind : Value.Kind)
  | cannotAssignInto (kind : Value.Kind)
  | invalidTarget
  | cannotStep (direction : Direction) (kind : Value.Kind)
  | badOperands (op : BinaryOp) (left right : Value.Kind)
  | cannotNegate (kind : Value.Kind)
  | cannotInvert (kind : Value.Kind)
  | indexNotNumber (kind : Value.Kind)
  | keyNotText (kind : Value.Kind)
  | boundNotNumber (kind : Value.Kind)
  | unknownParameter (callee key : String)
  /-- No arm accepts the subject, whose text is given. -/
  | noArm (subject : String)
  | strayBreak
  | escapedBreak (function : String)
  | breakInValue
  | strayReturn
  | returnInValue
  | outOfBounds (index : Int) (length : Nat)
  | badArgument (native : String) (fault : ArgumentFault)
deriving DecidableEq

namespace Cause

/-- The code of a cause. -/
def code : Cause → String
  | .undefined _ => "R001"
  | .notCallable _ | .notImplemented _ => "R002"
  | .noMember _ _ | .noField _ _ | .cannotIndex _ | .cannotSlice _ | .cannotAssignInto _ => "R003"
  | .invalidTarget => "R003"
  | .cannotStep _ _ | .badOperands _ _ _ | .cannotNegate _ | .cannotInvert _ => "R004"
  | .indexNotNumber _ | .keyNotText _ | .boundNotNumber _ => "R004"
  | .unknownParameter _ _ => "R005"
  | .noArm _ => "R006"
  | .strayBreak | .escapedBreak _ | .breakInValue => "R007"
  | .strayReturn | .returnInValue => "R008"
  | .outOfBounds _ _ => "R009"
  | .badArgument _ _ => "R010"

open Diagnostic (ticked)

/-- The wording of a cause. -/
def message : Cause → String
  | .undefined name => "undefined variable " ++ ticked name
  | .notCallable kind => kind.label ++ " is not callable"
  | .notImplemented native => "native " ++ ticked native ++ " is not implemented"
  | .noMember kind property => kind.label ++ " has no member " ++ ticked property
  | .noField variant property => "variant " ++ ticked variant ++ " has no field " ++ ticked property
  | .cannotIndex kind => "cannot index a " ++ kind.label
  | .cannotSlice kind => "cannot slice a " ++ kind.label
  | .cannotAssignInto kind => "cannot assign into a " ++ kind.label
  | .invalidTarget => "invalid assignment target"
  | .cannotStep .up kind => "cannot increment a " ++ kind.label
  | .cannotStep .down kind => "cannot decrement a " ++ kind.label
  | .badOperands op left right =>
    "operator " ++ ticked op.symbol ++ " not supported for " ++ left.label ++ " and " ++ right.label
  | .cannotNegate kind => "cannot negate a " ++ kind.label
  | .cannotInvert kind => "`~` needs a number, got " ++ kind.label
  | .indexNotNumber kind => "index must be a number, got " ++ kind.label
  | .keyNotText kind => "prototype keys are strings, got " ++ kind.label
  | .boundNotNumber kind => "slice bound must be a number, got " ++ kind.label
  | .unknownParameter callee key => ticked callee ++ " has no parameter named " ++ ticked key
  | .noArm subject => "no match arm matches " ++ subject
  | .strayBreak => "`break` outside of a loop"
  | .escapedBreak function => "`break` escaped function " ++ ticked function
  | .breakInValue => "`break` inside a match used as a value"
  | .strayReturn => "`return` outside of a function"
  | .returnInValue => "`return` inside a match used as a value"
  | .outOfBounds index length =>
    "index " ++ toString index ++ " out of bounds for length " ++ toString length
  | .badArgument native fault => ticked native ++ ": " ++ fault.message

end Cause

end Fault

/-- A fault and the line it is blamed on. -/
structure Fault where
  cause : Fault.Cause
  line : Nat
deriving DecidableEq

/-- A fault on one line: code, line, wording. -/
def Fault.display (f : Fault) : String :=
  "[runtime " ++ f.cause.code ++ "] line " ++ toString f.line ++ ": " ++ f.cause.message

/-- Why there is no answer at all. -/
inductive Abort where
  /-- The allowance of steps was used up. -/
  | outOfFuel
  /-- A number was to be held between bounds one of which is not a number. -/
  | unorderedBounds
  /-- The text was wanted of a value that contains itself. -/
  | endlessText
deriving DecidableEq, Repr

/-- Why a computation gives no value: a fault of the program, or no answer at all. -/
inductive Failure where
  | fault (f : Fault)
  | abort (why : Abort)
deriving DecidableEq

end Cairn
