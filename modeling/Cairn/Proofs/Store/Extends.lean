import Cairn.Eval.Rules

/-!
# Stores that extend one another

Arrays and prototypes change. Functions, constructors and variants stay as they were made, and whatever is made later
goes behind them.
-/

namespace Cairn

/-- The functions, constructors and variants of `s` are there in `s'`, in their places. -/
structure Store.Extends (s s' : Store) : Prop where
  closures : ∀ {ref : Nat} {c}, s.closures[ref]? = some c → s'.closures[ref]? = some c
  constructors : ∀ {ref : Nat} {c}, s.constructors[ref]? = some c → s'.constructors[ref]? = some c
  variants : ∀ {ref : Nat} {v}, s.variants[ref]? = some v → s'.variants[ref]? = some v

theorem getElem?_push_of_eq_some {α : Type} {xs : Array α} {i : Nat} {a : α} (h : xs[i]? = some a) (b : α) :
    (xs.push b)[i]? = some a := by
  obtain ⟨hlt, -⟩ := Array.getElem?_eq_some_iff.mp h
  rwa [Array.getElem?_push, if_neg (by omega)]

namespace Store.Extends

variable {s s' s'' : Store}

theorem refl (s : Store) : s.Extends s := ⟨id, id, id⟩

theorem trans (h : s.Extends s') (h' : s'.Extends s'') : s.Extends s'' where
  closures hc := h'.closures (h.closures hc)
  constructors hc := h'.constructors (h.constructors hc)
  variants hv := h'.variants (h.variants hv)

/-- The tables of what changes have no part in it. -/
theorem changed (s : Store) (arrays : Array (Array Value)) (prototypes : Array (Dict String Value)) :
    s.Extends { s with arrays, prototypes } := ⟨id, id, id⟩

theorem newArray (s : Store) (items : Array Value) : s.Extends (s.newArray items).2 := changed s _ _

theorem newPrototype (s : Store) (entries : Dict String Value) : s.Extends (s.newPrototype entries).2 := changed s _ _

theorem newClosure (s : Store) (c : Closure) : s.Extends (s.newClosure c).2 :=
  { refl s with closures := fun h => getElem?_push_of_eq_some h c }

theorem newConstructor (s : Store) (c : Constructor) : s.Extends (s.newConstructor c).2 :=
  { refl s with constructors := fun h => getElem?_push_of_eq_some h c }

theorem newVariant (s : Store) (v : Variant) : s.Extends (s.newVariant v).2 :=
  { refl s with variants := fun h => getElem?_push_of_eq_some h v }

theorem newVariantDecl (s : Store) (enum : String) (v : VariantDecl) :
    s.Extends (Evaluator.newVariant enum v s).2 := by
  unfold Evaluator.newVariant
  split
  · exact newVariant s _
  · exact newConstructor s _

end Store.Extends

end Cairn
