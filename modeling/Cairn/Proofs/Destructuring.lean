import Cairn.Proofs.Arena.Lookup
import Cairn.Proofs.Arguments
import Cairn.Proofs.Store.Later

/-!
# Taking apart what was put together

Declaring an enumeration makes a constructor of every variant with fields, calling the constructor makes a variant of
its arguments, and members and patterns take the variant apart again. The three share the order of the fields and
nothing else.
-/

namespace Cairn

/-! ## A variant and its parts -/

/-- `v` gives back what it was made of: every field by its name, and all of them in their order to a pattern with its
name, unless another enumeration is asked for. -/
structure Store.TakesApart (store : Store) (v : Value) (enum name : String) (fields : List String)
    (slots : List Value) : Prop where
  member : ∀ {i : Nat} {field : String}, fields[i]? = some field →
    ∃ slot, slots[i]? = some slot ∧ store.member v field = .ok slot
  accepts : ∀ (enum? : Option String) (bindings : List String) (pos : Position), (∀ e ∈ enum?, e = enum) →
    (Pattern.variant enum? name bindings pos).accept? store v
      = some ((bindings.mapIdx fun j b => (b, (slots[j]?).getD .null)).filter (·.1 ≠ "_"))
  rejects : ∀ (enum? : Option String) (other : String) (bindings : List String) (pos : Position),
    other ≠ name ∨ (∃ e ∈ enum?, e ≠ enum) → (Pattern.variant enum? other bindings pos).accept? store v = none

theorem Dict.lookup_zip {κ α : Type} [DecidableEq κ] {keys : List κ} {values : List α} (hkeys : keys.Nodup) {i : Nat}
    {k : κ} {a : α} (hk : keys[i]? = some k) (ha : values[i]? = some a) : lookup k (keys.zip values) = some a := by
  induction keys generalizing values i with
  | nil => cases hk
  | cons key keys ih =>
    obtain ⟨hfresh, hkeys⟩ := List.nodup_cons.mp hkeys
    cases values with
    | nil => cases ha
    | cons value values =>
      rw [List.zip_cons_cons, lookup]
      cases i with
      | zero =>
        cases hk
        cases ha
        exact if_pos rfl
      | succ i =>
        have hmem : k ∈ keys := List.mem_of_getElem? hk
        rw [if_neg fun heq : key = k => hfresh (heq ▸ hmem)]
        exact ih hkeys hk ha

theorem fieldBindings_zip (bindings : List String) {fields : List String} {slots : List Value}
    (h : slots.length = fields.length) : fieldBindings bindings (fields.zip slots)
      = (bindings.mapIdx fun j b => (b, (slots[j]?).getD .null)).filter (·.1 ≠ "_") := by
  have hslots : (fields.zip slots).map Prod.snd = slots := List.map_snd_zip (by omega)
  simp only [fieldBindings, ← List.getElem?_map, hslots, List.mapIdx_eq_zipIdx_map, List.filter_map]
  rfl

/-- What is made of fields and slots is taken apart into them. -/
theorem Store.takesApart {store : Store} {ref : Nat} {enum name : String} {fields : List String} {slots : List Value}
    (hv : store.variants[ref]? = some ⟨enum, name, fields.zip slots⟩) (hlength : slots.length = fields.length)
    (hfields : fields.Nodup) : store.TakesApart (.variant ref) enum name fields slots := by
  have hvariant : store.variant ref = ⟨enum, name, fields.zip slots⟩ := by rw [Store.variant, hv, Option.getD_some]
  constructor
  case member =>
    intro i field hfield
    have hlt : i < slots.length := by
      obtain ⟨hlt, -⟩ := List.getElem?_eq_some_iff.mp hfield
      omega
    have hslot : slots[i]? = some slots[i] := List.getElem?_eq_getElem hlt
    refine ⟨slots[i], hslot, ?_⟩
    simp only [Store.member, hvariant, Dict.lookup_zip hfields hfield hslot]
  case accepts =>
    intro enum? bindings pos henum
    have hall : enum?.all (· == enum) = true := by simpa [Option.all_eq_true] using henum
    simp only [Pattern.accept?, hvariant, hall, and_self, if_true, fieldBindings_zip bindings hlength]
  case rejects =>
    intro enum? other bindings pos hother
    simp only [Pattern.accept?, hvariant]
    refine if_neg ?_
    rintro ⟨hname, hall⟩
    obtain hne | ⟨e, he, hne⟩ := hother
    · exact hne hname.symm
    · simp [Option.mem_def.mp he, hne] at hall

/-! ## Making a variant -/

theorem Run.call_constructor {w : World} {ref : Nat} {c : Constructor} (hc : w.store.constructors[ref]? = some c)
    (fuel : Nat) (positional : List Value) (named : List (String × Value)) (line : Nat) :
    Run.call fuel (.constructor ref) positional named line w =
      match bindArgs c.name c.fields positional named false with
      | .error cause => .fault ⟨cause, line⟩ w
      | .ok slots => .ok (.variant w.store.variants.size)
          (w.withStore (w.store.newVariant ⟨c.enum, c.name, c.fields.zip slots⟩).2) := by
  have hconstructor : w.store.constructor ref = c := by rw [Store.constructor, hc, Option.getD_some]
  have hcall : Run.call fuel (.constructor ref) positional named line w
      = Evaluator.construct (w.store.constructor ref) positional named line w := rfl
  rw [hcall, hconstructor, Evaluator.construct, Run.run_bind]
  simp only [Run.read, Run.step]
  cases bindArgs c.name c.fields positional named false <;> rfl

/-- What calling a constructor makes can be taken apart ever after. -/
theorem Run.call_undone {w : World} {ref : Nat} {enum name : String} {fields : List String} (hfields : fields.Nodup)
    (hc : w.store.constructors[ref]? = some ⟨enum, name, fields⟩) (fuel : Nat) (positional : List Value)
    (named : List (String × Value)) (line : Nat) :
    match bindArgs name fields positional named false with
    | .error cause => Run.call fuel (.constructor ref) positional named line w = .fault ⟨cause, line⟩ w
    | .ok slots => ∃ v w', Run.call fuel (.constructor ref) positional named line w = .ok v w' ∧
        ∀ w'', w'.Later w'' → w''.store.TakesApart v enum name fields slots := by
  have hcall := Run.call_constructor hc fuel positional named line
  cases hslots : bindArgs name fields positional named false with
  | error cause => simpa only [hslots] using hcall
  | ok slots =>
    simp only [hslots] at hcall
    refine ⟨_, _, hcall, fun w'' hlater => ?_⟩
    have hmade : (w.store.newVariant ⟨enum, name, fields.zip slots⟩).2.variants[w.store.variants.size]?
        = some ⟨enum, name, fields.zip slots⟩ := Array.getElem?_push_size
    exact Store.takesApart (hlater.extends.variants hmade) (length_of_bindArgs hslots) hfields

/-! ## Declaring an enumeration -/

/-- From `w` to `w'` the variants are declared in a scope, and `members` grows to `members'`. Of variants with the same
name the last one has it. -/
structure Declared (enum : String) (scope : ScopeId) (variants : List VariantDecl) (members members' : Dict String Value)
    (w w' : World) : Prop where
  store : w.store.Extends w'.store
  size : w'.scopes.scopes.size = w.scopes.scopes.size
  others : ∀ {x : String}, (∀ d ∈ variants, d.name ≠ x) →
    members'.get? x = members.get? x ∧ w'.scopes.get? scope x = w.scopes.get? scope x
  made : ∀ {before after : List VariantDecl} {d : VariantDecl}, variants = before ++ d :: after → d.fields ≠ [] →
    ∃ ref, w'.store.constructors[ref]? = some ⟨enum, d.name, d.fields⟩ ∧
      ((∀ d' ∈ after, d'.name ≠ d.name) → members'.get? d.name = some (.constructor ref) ∧
        w'.scopes.get? scope d.name = some (.constructor ref))

section

variable {enum : String} {scope : ScopeId} {members members' : Dict String Value} {w w' : World}

/-- The world once one variant is declared. -/
def World.declare (w : World) (enum : String) (scope : ScopeId) (d : VariantDecl) : World :=
  { w.withStore (Evaluator.newVariant enum d w.store).2 with
    scopes := w.scopes.define scope d.name (Evaluator.newVariant enum d w.store).1 }

theorem Evaluator.newVariant_of_fields (enum : String) {d : VariantDecl} (hfields : d.fields ≠ []) (store : Store) :
    ∃ ref, (newVariant enum d store).1 = .constructor ref ∧
      (newVariant enum d store).2.constructors[ref]? = some ⟨enum, d.name, d.fields⟩ := by
  rw [newVariant, if_neg (by simpa using hfields)]
  exact ⟨_, rfl, Array.getElem?_push_size⟩

theorem Declared.cons {d : VariantDecl} {rest : List VariantDecl} (hscope : scope.slot < w.scopes.scopes.size)
    (h : Declared enum scope rest (members.insert d.name (Evaluator.newVariant enum d w.store).1) members'
      (w.declare enum scope d) w') : Declared enum scope (d :: rest) members members' w w' where
  store := (Store.Extends.newVariantDecl w.store enum d).trans h.store
  size := h.size.trans Arena.size_define
  others := by
    intro x hx
    obtain ⟨hne, hx⟩ := List.forall_mem_cons.mp hx
    obtain ⟨hmembers, hscopes⟩ := h.others hx
    rw [hmembers, hscopes, Dict.get?_insert, if_neg hne]
    exact ⟨rfl, (Arena.get?_define hscope).trans (if_neg fun heq => hne heq.1.symm)⟩
  made := by
    rintro before after d' hsplit hfields
    cases before with
    | cons _ before =>
      obtain ⟨-, hsplit⟩ := List.cons.inj hsplit
      exact h.made hsplit hfields
    | nil =>
      obtain ⟨rfl, rfl⟩ := List.cons.inj hsplit
      obtain ⟨ref, hvalue, hmade⟩ := Evaluator.newVariant_of_fields enum hfields w.store
      refine ⟨ref, h.store.constructors hmade, fun hafter => ?_⟩
      obtain ⟨hmembers, hscopes⟩ := h.others hafter
      rw [hmembers, hscopes, Dict.get?_insert, if_pos rfl, ← hvalue]
      exact ⟨rfl, Arena.get?_define_self hscope⟩

theorem Evaluator.declareVariants_declared (enum : String) (variants : List VariantDecl)
    (members : Dict String Value) (hscope : scope.slot < w.scopes.scopes.size) : ∃ members' w',
      declareVariants enum scope members variants w = .ok members' w' ∧
        Declared enum scope variants members members' w w' := by
  induction variants generalizing members w with
  | nil => exact ⟨members, w, rfl, .refl _, rfl, fun _ => ⟨rfl, rfl⟩, by simp⟩
  | cons d rest ih =>
    have hsize : scope.slot < (w.declare enum scope d).scopes.scopes.size := hscope.trans_eq Arena.size_define.symm
    obtain ⟨members', w', hrun, hdeclared⟩ := ih (members.insert d.name (newVariant enum d w.store).1) hsize
    exact ⟨members', w', hrun, hdeclared.cons hscope⟩

/-- The world once the members of an enumeration are collected under its name. -/
def World.collect (w : World) (enum : String) (scope : ScopeId) (members : Dict String Value) : World :=
  { w.withStore (w.store.newPrototype members).2 with
    scopes := w.scopes.define scope enum (w.store.newPrototype members).1 }

theorem World.member_collect (w : World) (enum name : String) (scope : ScopeId) (members : Dict String Value) :
    (w.collect enum scope members).store.member (w.store.newPrototype members).1 name
      = .ok ((members.get? name).getD .null) := by
  have hentries : (w.collect enum scope members).store.entries w.store.prototypes.size = members := by
    simp [World.collect, World.withStore, World.store, Store.newPrototype, Store.entries]
  simp only [Store.newPrototype, Store.member, hentries]

theorem exec_enum (enum : String) (variants : List VariantDecl) (pos : Position) (fuel : Nat)
    (hscope : scope.slot < w.scopes.scopes.size) : ∃ members w',
      exec (fuel + 1) (.enum enum variants pos) scope w = .ok (.normal .null) (w'.collect enum scope members) ∧
        Declared enum scope variants {} members w w' := by
  obtain ⟨members, w', hrun, hdeclared⟩ := Evaluator.declareVariants_declared enum variants {} hscope
  refine ⟨members, w', ?_, hdeclared⟩
  have hdeclare : Evaluator.declareEnum enum variants scope w = .ok () (w'.collect enum scope members) := by
    rw [Evaluator.declareEnum, Run.run_bind, hrun]
    rfl
  rw [exec]
  simp only [Run.within, Evaluator.execStmt, Run.run_bind, hdeclare]
  rfl

end

/-- An enumeration, once declared, has a constructor for a variant with fields. If the variant is the last one of its
name, the constructor is found under this name in the enumeration, and also in the scope unless the enumeration itself
is of this name.

From then on, whatever is done meanwhile, calling the constructor makes a variant of any arguments that can be bound to
the fields, and fails otherwise. From then on again, the variant is taken apart into what was bound. -/
theorem destructuring_undoes_construction {w : World} {scope : ScopeId} (hscope : w.scopes.InUse scope)
    (enum : String) (before after : List VariantDecl) {d : VariantDecl} (hfields : d.fields ≠ [])
    (hnodup : d.fields.Nodup) (pos : Position) (fuel : Nat) :
    ∃ constructor w₁, exec (fuel + 1) (.enum enum (before ++ d :: after) pos) scope w = .ok (.normal .null) w₁ ∧
      ((∀ d' ∈ after, d'.name ≠ d.name) →
        (∃ e, w₁.scopes.get? scope enum = some e ∧ w₁.store.member e d.name = .ok constructor) ∧
        (d.name ≠ enum → w₁.scopes.get? scope d.name = some constructor)) ∧
      ∀ w₂, w₁.Later w₂ → ∀ (fuel : Nat) (positional : List Value) (named : List (String × Value)) (line : Nat),
        match bindArgs d.name d.fields positional named false with
        | .error cause => Run.call fuel constructor positional named line w₂ = .fault ⟨cause, line⟩ w₂
        | .ok slots => ∃ v w₃, Run.call fuel constructor positional named line w₂ = .ok v w₃ ∧
            ∀ w₄, w₃.Later w₄ → w₄.store.TakesApart v enum d.name d.fields slots := by
  obtain ⟨members, w', hexec, hdeclared⟩ := exec_enum enum (before ++ d :: after) pos fuel hscope.1
  obtain ⟨ref, hmade, hnames⟩ := hdeclared.made rfl hfields
  refine ⟨.constructor ref, _, hexec, fun hafter => ?_, fun w₂ hlater fuel positional named line => ?_⟩
  · obtain ⟨hmember, hbound⟩ := hnames hafter
    have hslot : scope.slot < w'.scopes.scopes.size := hdeclared.size ▸ hscope.1
    refine ⟨⟨_, Arena.get?_define_self hslot, ?_⟩, fun hne => ?_⟩
    · rw [World.member_collect, hmember, Option.getD_some]
    · exact ((Arena.get?_define hslot).trans (if_neg fun heq => hne heq.1)).trans hbound
  · exact Run.call_undone hnodup (hlater.extends.constructors hmade) fuel positional named line

/-- `enum E { P(x, y) }`, then `P(true, y = "a")`. -/
theorem destructuring_undoes_construction_point : ∃ constructor w₁ v w₃,
    worldOfPoint.scopes.InUse .global ∧ ["x", "y"] ≠ [] ∧ ["x", "y"].Nodup ∧
    exec 1 (.enum "E" [⟨"P", ["x", "y"]⟩] .start) .global worldOfPoint = .ok (.normal .null) w₁ ∧
    w₁.scopes.get? .global "P" = some constructor ∧
    Run.call 1 constructor [.bool true] [("y", .text "a")] 1 w₁ = .ok v w₃ ∧
    w₃.store.member v "y" = .ok (.text "a") ∧
    (Pattern.variant (some "E") "P" ["_", "b", "c"] .start).accept? w₃.store v = some [("b", .text "a"), ("c", .null)] ∧
    (Pattern.variant (some "F") "P" [] .start).accept? w₃.store v = none := by
  have hscope : worldOfPoint.scopes.InUse .global := ⟨by decide, by decide⟩
  obtain ⟨constructor, w₁, hexec, hnames, hcalls⟩ := destructuring_undoes_construction hscope "E" [] []
    (d := ⟨"P", ["x", "y"]⟩) (by decide) (by decide) .start 0
  obtain ⟨v, w₃, hcall, htaken⟩ := hcalls w₁ .now 1 [.bool true] [("y", .text "a")] 1
  have hfield : ["x", "y"][1]? = some "y" := rfl
  obtain ⟨slot, hslot, hmember⟩ := (htaken w₃ .now).member hfield
  cases hslot
  exact ⟨constructor, w₁, v, w₃, hscope, by decide, by decide, hexec, (hnames (by simp)).2 (by decide), hcall, hmember,
    (htaken w₃ .now).accepts (some "E") ["_", "b", "c"] .start (by simp),
    (htaken w₃ .now).rejects (some "F") "P" [] .start (.inr ⟨"F", rfl, by decide⟩)⟩

end Cairn
