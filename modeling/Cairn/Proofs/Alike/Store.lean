import Cairn.Eval.Rules
import Mathlib.Tactic.Common

/-!
# Stores that look alike

Two stores are alike when they hold the same things at the same places, except that the functions of one
were declared in other scopes than those of the other. No value, text or fault that is worked out from a
store shows the difference.
-/

namespace Cairn

variable {Kept Kept' : ScopeId → ScopeId → Prop}

/-- The same function, declared in scopes that stand for each other. -/
structure Closure.Alike (Kept : ScopeId → ScopeId → Prop) (c c' : Closure) : Prop where
  name : c'.name = c.name
  params : c'.params = c.params
  body : c'.body = c.body
  scope : Kept c.scope c'.scope

structure Store.Alike (Kept : ScopeId → ScopeId → Prop) (s s' : Store) : Prop where
  arrays : s'.arrays = s.arrays
  prototypes : s'.prototypes = s.prototypes
  constructors : s'.constructors = s.constructors
  variants : s'.variants = s.variants
  count : s'.closures.size = s.closures.size
  closure : ∀ ref, (s.closure ref).Alike Kept (s'.closure ref)

theorem Closure.Alike.mono (h : ∀ i j, Kept i j → Kept' i j) {c c' : Closure} (hc : c.Alike Kept c') :
    c.Alike Kept' c' :=
  { hc with scope := h _ _ hc.scope }

namespace Store.Alike

variable {s s' : Store} {v : Value}

theorem mono (h : ∀ i j, Kept i j → Kept' i j) (hs : s.Alike Kept s') : s.Alike Kept' s' :=
  { hs with closure := fun ref => (hs.closure ref).mono h }

/-! ## Looking up -/

theorem items (h : s.Alike Kept s') (ref : Nat) : s'.items ref = s.items ref := by
  simp only [Store.items, h.arrays]

theorem entries (h : s.Alike Kept s') (ref : Nat) : s'.entries ref = s.entries ref := by
  simp only [Store.entries, h.prototypes]

theorem constructor (h : s.Alike Kept s') (ref : Nat) : s'.constructor ref = s.constructor ref := by
  simp only [Store.constructor, h.constructors]

theorem variant (h : s.Alike Kept s') (ref : Nat) : s'.variant ref = s.variant ref := by
  simp only [Store.variant, h.variants]

theorem nested (h : s.Alike Kept s') (depth : Nat) (v : Value) :
    s'.nested depth v = s.nested depth v := by
  induction depth generalizing v with
  | zero =>
      cases v with
      | function ref => simp only [Store.nested, (h.closure ref).name]
      | constructor ref => simp only [Store.nested, h.constructor]
      | _ => rfl
  | succ depth ih =>
      cases v with
      | function ref => simp only [Store.nested, (h.closure ref).name]
      | constructor ref => simp only [Store.nested, h.constructor]
      | array ref =>
          simp only [Store.nested, h.items]
          rw [show s'.nested depth = s.nested depth from funext ih]
      | prototype ref => simp only [Store.nested, h.entries, ih]
      | variant ref => simp only [Store.nested, h.variant, ih]
      | _ => rfl

theorem display (h : s.Alike Kept s') (v : Value) : s'.display v = s.display v := by
  have hdepth : s'.depth = s.depth := by
    simp only [Store.depth, h.arrays, h.prototypes, h.variants]
  cases v with
  | text t => rfl
  | _ => simp only [Store.display, hdepth, h.nested]

theorem member (h : s.Alike Kept s') (object : Value) (property : String) :
    s'.member object property = s.member object property := by
  cases object <;> simp only [Store.member, h.entries, h.variant, h.items]

theorem index (h : s.Alike Kept s') (object key : Value) : s'.index object key = s.index object key := by
  cases object <;> simp only [Store.index, h.entries, h.items]

theorem accept? (h : s.Alike Kept s') (v : Value) (p : Pattern) : p.accept? s' v = p.accept? s v := by
  cases p with
  | variant enum? name bindings pos => cases v <;> simp only [Pattern.accept?, h.variant]
  | _ => rfl

theorem firstArm? (h : s.Alike Kept s') (v : Value) (arms : List Arm) :
    Evaluator.firstArm? s' v arms = Evaluator.firstArm? s v arms := by
  induction arms with
  | nil => rfl
  | cons arm arms ih =>
      obtain ⟨pattern, body, pos⟩ := arm
      simp only [Evaluator.firstArm?, h.accept?, ih]

/-! ## Making and changing -/

theorem setArrays (h : s.Alike Kept s') (arrays : Array (Array Value)) :
    { s with arrays }.Alike Kept { s' with arrays } :=
  { h with arrays := rfl }

theorem setPrototypes (h : s.Alike Kept s') (prototypes : Array (Dict String Value)) :
    { s with prototypes }.Alike Kept { s' with prototypes } :=
  { h with prototypes := rfl }

theorem setConstructors (h : s.Alike Kept s') (constructors : Array Constructor) :
    { s with constructors }.Alike Kept { s' with constructors } :=
  { h with constructors := rfl }

theorem setVariants (h : s.Alike Kept s') (variants : Array Variant) :
    { s with variants }.Alike Kept { s' with variants } :=
  { h with variants := rfl }

theorem modifyItems (h : s.Alike Kept s') (ref : Nat) (f : Array Value → Array Value) :
    (s.modifyItems ref f).Alike Kept (s'.modifyItems ref f) := by
  simpa only [Store.modifyItems, h.arrays] using h.setArrays _

theorem modifyEntries (h : s.Alike Kept s') (ref : Nat) (f : Dict String Value → Dict String Value) :
    (s.modifyEntries ref f).Alike Kept (s'.modifyEntries ref f) := by
  simpa only [Store.modifyEntries, h.prototypes] using h.setPrototypes _

end Store.Alike

/-- The same error, or answers that are related. -/
inductive Except.Alike {ε α β : Type} (R : α → β → Prop) : Except ε α → Except ε β → Prop where
  | ok {a : α} {b : β} (h : R a b) : Except.Alike R (.ok a) (.ok b)
  | error (e : ε) : Except.Alike R (.error e) (.error e)

theorem Except.Alike.bind {ε α β γ : Type} {R : β → γ → Prop} (x : Except ε α) {f : α → Except ε β}
    {g : α → Except ε γ} (h : ∀ a, Except.Alike R (f a) (g a)) : Except.Alike R (x >>= f) (x >>= g) := by
  cases x with
  | ok a => exact h a
  | error e => exact .error e

/-- The same value, in stores that are alike. -/
def Store.AlikeWith (Kept : ScopeId → ScopeId → Prop) (r r' : Value × Store) : Prop :=
  r'.1 = r.1 ∧ r.2.Alike Kept r'.2

namespace Store.Alike

variable {s s' : Store}

theorem newArray (h : s.Alike Kept s') (items : Array Value) :
    Store.AlikeWith Kept (s.newArray items) (s'.newArray items) := by
  simp only [Store.newArray, Store.AlikeWith, h.arrays, true_and]
  exact h.setArrays _

theorem newPrototype (h : s.Alike Kept s') (entries : Dict String Value) :
    Store.AlikeWith Kept (s.newPrototype entries) (s'.newPrototype entries) := by
  simp only [Store.newPrototype, Store.AlikeWith, h.prototypes, true_and]
  exact h.setPrototypes _

theorem newConstructor (h : s.Alike Kept s') (c : Constructor) :
    Store.AlikeWith Kept (s.newConstructor c) (s'.newConstructor c) := by
  simp only [Store.newConstructor, Store.AlikeWith, h.constructors, true_and]
  exact h.setConstructors _

theorem newVariant (h : s.Alike Kept s') (v : Variant) :
    Store.AlikeWith Kept (s.newVariant v) (s'.newVariant v) := by
  simp only [Store.newVariant, Store.AlikeWith, h.variants, true_and]
  exact h.setVariants _

theorem newVariantDecl (h : s.Alike Kept s') (enum : String) (v : VariantDecl) :
    Store.AlikeWith Kept (Evaluator.newVariant enum v s) (Evaluator.newVariant enum v s') := by
  unfold Evaluator.newVariant
  split
  · exact h.newVariant _
  · exact h.newConstructor _

theorem slice (h : s.Alike Kept s') (object start stop : Value) :
    Except.Alike (Store.AlikeWith Kept) (s.slice object start stop) (s'.slice object start stop) := by
  cases object with
  | array ref =>
      simp only [Store.slice, h.items]
      exact .bind _ fun items => .ok (h.newArray items)
  | text t => exact .bind _ fun _ => .ok ⟨rfl, h⟩
  | _ => exact .error _

theorem newClosure (h : s.Alike Kept s') {c c' : Closure} (hc : c.Alike Kept c') :
    Store.AlikeWith Kept (s.newClosure c) (s'.newClosure c') := by
  refine ⟨by simp only [Store.newClosure, h.count], { h with count := ?_, closure := ?_ }⟩
  · simp only [Store.newClosure, Array.size_push, h.count]
  · intro ref
    have hold := h.closure ref
    simp only [Store.closure, Store.newClosure, Array.getElem?_push, h.count] at hold ⊢
    split
    · exact hc
    · exact hold

end Store.Alike

end Cairn
