import Cairn.Eval.Rules
import Mathlib.Tactic.Common

/-!
# Causes of faults

A `return` or `break` that finds no way out is a fault of control flow, and a target that is no place is a fault of
form. What is worked out from values alone fails for reasons of values: the binding of arguments, an operator, a place
that is read or written.
-/

namespace Cairn

def Fault.Cause.isFlow : Fault.Cause → Bool
  | .strayBreak | .escapedBreak _ | .breakInValue | .strayReturn | .returnInValue => true
  | _ => false

theorem Fault.Cause.isFlow_iff (cause : Fault.Cause) :
    cause.isFlow = true ↔ cause.code = "R007" ∨ cause.code = "R008" := by
  cases cause <;> simp [isFlow, code]

/-- The causes that lie in the values at hand. -/
def Fault.Cause.isOfValues : Fault.Cause → Bool
  | .undefined _ | .noMember _ _ | .noField _ _ | .cannotIndex _ | .cannotSlice _ | .cannotAssignInto _ => true
  | .badOperands _ _ _ | .cannotNegate _ | .cannotInvert _ | .indexNotNumber _ | .keyNotText _ => true
  | .boundNotNumber _ | .unknownParameter _ _ | .outOfBounds _ _ => true
  | _ => false

/-- If this fails, then not for control flow. -/
def Calm {α : Type} (r : Except Fault.Cause α) : Prop :=
  ∀ cause, r = .error cause → cause.isFlow = false

/-- If this fails, then for the values. -/
def OfValues {α : Type} (r : Except Fault.Cause α) : Prop :=
  ∀ cause, r = .error cause → cause.isOfValues = true

variable {α β : Type}

namespace OfValues

theorem ok (a : α) : OfValues (.ok a) := by
  intro cause h
  cases h

theorem error {cause : Fault.Cause} (h : cause.isOfValues = true) :
    OfValues (.error cause : Except Fault.Cause α) := by
  intro cause' heq
  cases heq
  exact h

theorem bind {r : Except Fault.Cause α} {k : α → Except Fault.Cause β} (hr : OfValues r)
    (hk : ∀ a, OfValues (k a)) : OfValues (r >>= k) := by
  cases r with
  | ok a => exact hk a
  | error cause => exact .error (hr cause rfl)

theorem calm {r : Except Fault.Cause α} (h : OfValues r) : Calm r := by
  intro cause heq
  have hvalues := h cause heq
  cases cause <;> first | rfl | cases hvalues

theorem ne_invalidTarget {r : Except Fault.Cause α} (h : OfValues r) {cause : Fault.Cause} (heq : r = .error cause) :
    cause ≠ .invalidTarget := by
  rintro rfl
  cases h _ heq

end OfValues

/-! ## Arguments and operators -/

theorem bindArgs_ofValues (callee : String) (params : List String) (positional : List Value)
    (named : List (String × Value)) (keepExtra : Bool) : OfValues (bindArgs callee params positional named keepExtra) := by
  unfold bindArgs
  generalize positionalSlots params positional keepExtra = slots
  induction named generalizing slots with
  | nil => exact .ok _
  | cons entry named ih =>
      obtain ⟨key, value⟩ := entry
      rw [placeNamed]
      cases params.findIdx? (· == key) with
      | some i => exact ih _
      | none => exact .error rfl

theorem BinaryOp.apply_ofValues (op : BinaryOp) (left right : Value) : OfValues (op.apply left right) := by
  unfold BinaryOp.apply
  split
  · exact .ok _
  · exact .ok _
  · exact .ok _
  · split
    · exact .ok _
    · exact .error rfl
  · exact .error rfl

theorem UnaryOp.apply_ofValues (op : UnaryOp) (operand : Value) : OfValues (op.apply operand) := by
  unfold UnaryOp.apply
  split
  · exact .ok _
  · exact .ok _
  · exact .ok _
  · exact .error rfl
  · exact .error rfl

/-! ## Members, items and places -/

theorem keyPosition_ofValues (key : Value) (length : Nat) : OfValues (keyPosition key length) := by
  cases key with
  | number n =>
      rw [keyPosition]
      cases positionOf? (Number.toIndex n) length with
      | some p => exact .ok _
      | none => exact .error rfl
  | _ => exact .error rfl

theorem itemAt_ofValues (items : Array α) (key : Value) : OfValues (itemAt items key) := by
  refine (keyPosition_ofValues key _).bind fun p => ?_
  cases items[p]? with
  | some a => exact .ok _
  | none => exact .error rfl

theorem sliceBound_ofValues (v : Value) (default length : Nat) : OfValues (sliceBound v default length) := by
  cases v with
  | null => exact .ok _
  | number n => exact .ok _
  | _ => exact .error rfl

theorem sliceOf_ofValues (items : Array α) (start stop : Value) : OfValues (sliceOf items start stop) := by
  have hbounds : OfValues (sliceBounds start stop items.size) :=
    (sliceBound_ofValues start _ _).bind fun _ => (sliceBound_ofValues stop _ _).bind fun _ => .ok _
  exact hbounds.bind fun _ => .ok _

namespace Store

variable (store : Store)

theorem member_ofValues (object : Value) (property : String) : OfValues (store.member object property) := by
  cases object with
  | prototype ref => exact .ok _
  | variant ref =>
      simp only [Store.member]
      cases Dict.lookup property (store.variant ref).fields with
      | some v => exact .ok _
      | none => exact .error rfl
  | array ref =>
      simp only [Store.member]
      split
      · exact .ok _
      · exact .error rfl
  | text s =>
      simp only [Store.member]
      split
      · exact .ok _
      · exact .error rfl
  | _ => exact .error rfl

theorem index_ofValues (object key : Value) : OfValues (store.index object key) := by
  cases object with
  | array ref => exact itemAt_ofValues _ _
  | text s => exact (itemAt_ofValues _ _).bind fun _ => .ok _
  | prototype ref =>
      cases key with
      | text k => exact .ok _
      | _ => exact .error rfl
  | _ => exact .error rfl

theorem slice_ofValues (object start stop : Value) : OfValues (store.slice object start stop) := by
  cases object with
  | array ref => exact (sliceOf_ofValues _ _ _).bind fun _ => .ok _
  | text s => exact (sliceOf_ofValues _ _ _).bind fun _ => .ok _
  | _ => exact .error rfl

end Store

namespace Place

variable (w : World) (scope : ScopeId)

theorem read_ofValues (p : Place) : OfValues (p.read w scope) := by
  cases p with
  | var name =>
      simp only [Place.read]
      cases w.scopes.get? scope name with
      | some v => exact .ok _
      | none => exact .error rfl
  | index object key => exact w.store.index_ofValues object key
  | member object property => exact w.store.member_ofValues object property

theorem write_ofValues (value : Value) (p : Place) : OfValues (p.write w scope value) := by
  cases p with
  | var name => exact .ok _
  | index object key =>
      cases object with
      | array ref => exact (keyPosition_ofValues _ _).bind fun _ => .ok _
      | prototype ref =>
          cases key with
          | text k => exact .ok _
          | _ => exact .error rfl
      | _ => exact .error rfl
  | member object property =>
      cases object with
      | prototype ref => exact .ok _
      | _ => exact .error rfl

end Place

end Cairn
