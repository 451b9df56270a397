import Cairn.Proofs.Arena.Lookup
import Cairn.Proofs.Sequences

/-!
# What an assignment changes

A place that can be assigned to stands for one cell: a name in a scope or a prototype, or an item of an array. Writing
puts the value into that cell and changes no other; whoever comes to the cell, by whatever name, key or reference, then
reads the value. Arrays keep their lengths, and tables keep their names in order, with a new one last.
-/

namespace Cairn

/-! ## Cells -/

/-- What has values under names. -/
inductive Table where
  | scope (id : ScopeId)
  | prototype (ref : Nat)
deriving DecidableEq

/-- What holds one value. -/
inductive Cell where
  | named (table : Table) (name : String)
  | item (ref position : Nat)
deriving DecidableEq

/-- The names that an assignment to the cell binds in a table. -/
def Cell.binds (t : Table) : Cell → List String
  | .named table name => if table = t then [name] else []
  | .item _ _ => []

/-! ## What is not in a cell -/

/-- The scopes without their names. -/
def Arena.outline (a : Arena) : Arena := { a with scopes := a.scopes.map fun s => { s with vars := {} } }

/-- The store without what is in its arrays and prototypes, but with the lengths of the arrays. -/
def Store.outline (s : Store) : Store :=
  { s with
    arrays := s.arrays.map fun items => Array.replicate items.size .null
    prototypes := s.prototypes.map fun _ => {} }

namespace World

/-- The world without the values in its cells. -/
def outline (w : World) : World := { w.withStore w.store.outline with scopes := w.scopes.outline }

def table (w : World) : Table → Dict String Value
  | .scope id => (w.scopes.scope id).vars
  | .prototype ref => w.store.entries ref

/-- The value in a cell. -/
def cell? (w : World) : Cell → Option Value
  | .named table name => (w.table table).get? name
  | .item ref position => (w.store.items ref)[position]?

/-- From `w` to `w'` the cell gets the value, and nothing else changes. A name that is new to its table goes last. -/
structure Assigned (c : Cell) (v : Value) (w w' : World) : Prop where
  cells : ∀ d, w'.cell? d = if d = c then some v else w.cell? d
  keys : ∀ t, (w'.table t).keys = (c.binds t).foldl Arena.enlist (w.table t).keys
  outline : w'.outline = w.outline

end World

namespace Place

/-- The cell that a place stands for, as seen from `scope`, if it can be assigned to. -/
def cell? (w : World) (scope : ScopeId) : Place → Option Cell
  | .var name => some (.named (.scope (w.scopes.owner scope name)) name)
  | .index (.array ref) (.number n) => (positionOf? (Number.toIndex n) (w.store.items ref).size).map (.item ref)
  | .index (.prototype ref) (.text key) => some (.named (.prototype ref) key)
  | .member (.prototype ref) property => some (.named (.prototype ref) property)
  | _ => none

/-- The prototype that the place is in exists. -/
def Stands (w : World) : Place → Prop
  | .index (.prototype ref) _ | .member (.prototype ref) _ => ref < w.store.prototypes.size
  | _ => True

end Place

/-! ## Changing a table or an array -/

theorem map_modify_of_view {α β : Type} (xs : Array α) (i : Nat) {f : α → α} {g : α → β} (h : ∀ a, g (f a) = g a) :
    (xs.modify i f).map g = xs.map g := by
  refine Array.ext (by simp) fun k _ _ => ?_
  simp only [Array.getElem_map, Array.getElem_modify]
  split
  · exact h _
  · rfl

theorem Arena.outline_define (a : Arena) (s : ScopeId) (x : String) (v : Value) :
    (a.define s x v).outline = a.outline := by
  rw [define, modify, outline, map_modify_of_view _ _ fun scope => ?_]
  · rfl
  · rfl

namespace Store

variable {s : Store} {ref r : Nat}

theorem outline_modifyItems {f : Array Value → Array Value} (h : ∀ items, (f items).size = items.size) :
    (s.modifyItems ref f).outline = s.outline := by
  refine congrArg (fun arrays => { s.outline with arrays }) (map_modify_of_view s.arrays ref fun items => ?_)
  rw [h]

theorem outline_modifyEntries {f : Dict String Value → Dict String Value} :
    (s.modifyEntries ref f).outline = s.outline := by
  refine congrArg (fun prototypes => { s.outline with prototypes }) (map_modify_of_view s.prototypes ref fun d => ?_)
  rfl

theorem items_modifyItems (h : ref < s.arrays.size) (f : Array Value → Array Value) :
    (s.modifyItems ref f).items r = if r = ref then f (s.items r) else s.items r := by
  split
  next heq => simp [modifyItems, items, Array.getElem_modify, heq, h]
  next hne => simp [modifyItems, items, Array.getElem?_modify, Ne.symm hne]

theorem entries_modifyEntries (h : ref < s.prototypes.size) (f : Dict String Value → Dict String Value) :
    (s.modifyEntries ref f).entries r = if r = ref then f (s.entries r) else s.entries r := by
  split
  next heq => simp [modifyEntries, entries, Array.getElem_modify, heq, h]
  next hne => simp [modifyEntries, entries, Array.getElem?_modify, Ne.symm hne]

theorem size_items_outline (s : Store) (ref : Nat) : (s.outline.items ref).size = (s.items ref).size := by
  simp only [outline, items, Array.getElem?_map]
  cases s.arrays[ref]? <;> simp

/-- An array with items exists. -/
theorem lt_of_items {p : Nat} (h : p < (s.items ref).size) : ref < s.arrays.size := by
  by_contra hge
  simp [items, hge] at h

end Store

/-! ## Writing -/

namespace World

variable {w w' : World} {v : Value}

theorem outline_withStore {store : Store} (h : store.outline = w.store.outline) :
    (w.withStore store).outline = w.outline :=
  congrArg (fun store => { w.withStore store with scopes := w.scopes.outline }) h

theorem assigned_of_table {table : Table} {name : String}
    (htable : ∀ t, w'.table t = if t = table then (w.table t).insert name v else w.table t)
    (hitems : w'.store.arrays = w.store.arrays) (houtline : w'.outline = w.outline) :
    w.Assigned (.named table name) v w' where
  cells
    | .named t y => by
        simp only [cell?, htable, Cell.named.injEq]
        by_cases ht : t = table
        · simp [ht, eq_comm]
        · simp [ht]
    | .item ref p => by simp [cell?, Store.items, hitems]
  keys t := by
    simp only [htable, Cell.binds, eq_comm (a := table)]
    split
    · exact Dict.keys_insert _ _ _
    · rfl
  outline := houtline

/-- Binding a name in one scope. -/
theorem assigned_define {s : ScopeId} (hs : s.slot < w.scopes.scopes.size) (x : String) :
    w.Assigned (.named (.scope s) x) v { w with scopes := w.scopes.define s x v } := by
  refine assigned_of_table (fun t => ?_) rfl ?_
  · rcases t with t | r
    · by_cases ht : t = s
      · subst ht
        simp [table, Arena.scope_define_self hs]
      · simp [table, Arena.scope_define_of_ne ht, ht]
    · rfl
  · exact congrArg (fun scopes => { w.withStore w.store.outline with scopes }) (w.scopes.outline_define s x v)

/-- Putting a value under a key of a prototype. -/
theorem assigned_entry {ref : Nat} (h : ref < w.store.prototypes.size) (key : String) :
    w.Assigned (.named (.prototype ref) key) v (w.withStore (w.store.modifyEntries ref (·.insert key v))) := by
  refine assigned_of_table (fun t => ?_) rfl (outline_withStore Store.outline_modifyEntries)
  rcases t with t | r
  · rfl
  · have hentries := Store.entries_modifyEntries (r := r) h (·.insert key v)
    simpa [table, World.withStore, World.store] using hentries

/-- Replacing an item of an array. -/
theorem assigned_item {ref p : Nat} (h : p < (w.store.items ref).size) :
    w.Assigned (.item ref p) v (w.withStore (w.store.modifyItems ref (·.setIfInBounds p v))) where
  cells
    | .named (.scope _) _ | .named (.prototype _) _ => rfl
    | .item r k => by
        have hitems : ((w.store.modifyItems ref (·.setIfInBounds p v)).items r)[k]? = _ :=
          congrArg (·[k]?) (Store.items_modifyItems (Store.lt_of_items h) _)
        refine hitems.trans ?_
        by_cases hr : r = ref
        · subst hr
          simp [cell?, Array.getElem?_setIfInBounds, h, eq_comm]
        · simp [cell?, hr]
  keys
    | .scope _ | .prototype _ => rfl
  outline := outline_withStore (Store.outline_modifyItems fun items => by simp)

section

variable {c : Cell} (h : w.Assigned c v w')

include h

theorem Assigned.store_outline : w'.store.outline = w.store.outline := congrArg World.store h.outline

theorem Assigned.lengths (ref : Nat) : (w'.store.items ref).size = (w.store.items ref).size := by
  rw [← Store.size_items_outline, h.store_outline, Store.size_items_outline]

theorem Assigned.variant (ref : Nat) : w'.store.variant ref = w.store.variant ref :=
  congrArg (·.variant ref) h.store_outline

theorem Assigned.nodup (t : Table) (hkeys : (w.table t).keys.Nodup) : (w'.table t).keys.Nodup := by
  rw [h.keys]
  exact Arena.nodup_foldl_enlist hkeys _

end

end World

namespace Place

variable {w w' : World} {i j : ScopeId} {v : Value} {p q : Place} {c : Cell}

/-- What is written goes into the cell that the place stands for. -/
theorem write_assigned (hw : w.scopes.WellFormed) (hi : w.scopes.InUse i) (hp : p.Stands w)
    (h : p.write w i v = .ok w') : ∃ c, p.cell? w i = some c ∧ w.Assigned c v w' := by
  cases p with
  | var name =>
      cases h
      exact ⟨_, rfl, World.assigned_define (hw.owner_inUse hi).1 name⟩
  | index object key =>
      cases object with
      | array ref =>
          simp only [write, bind, Except.bind] at h
          split at h
          next => cases h
          next position hposition =>
            cases h
            obtain ⟨x, rfl, hx⟩ := keyPosition_eq_ok_iff.1 hposition
            exact ⟨.item ref position, by simp [cell?, hx], World.assigned_item (keyPosition_lt hposition)⟩
      | prototype ref =>
          cases key with
          | text k =>
              cases h
              exact ⟨_, rfl, World.assigned_entry hp k⟩
          | _ => cases h
      | _ => cases h
  | member object property =>
      cases object with
      | prototype ref =>
          cases h
          exact ⟨_, rfl, World.assigned_entry hp property⟩
      | _ => cases h

/-- After a write every place stands for the cell that it stood for. -/
theorem cell?_write (hw : w.scopes.WellFormed) (hi : w.scopes.InUse i) (hj : w.scopes.InUse j)
    (h : p.write w i v = .ok w') (hlengths : ∀ ref, (w'.store.items ref).size = (w.store.items ref).size) :
    q.cell? w' j = q.cell? w j := by
  cases q with
  | var y =>
      have howner : w'.scopes.owner j y = w.scopes.owner j y := by
        by_cases hp : ∃ x, p = .var x
        · obtain ⟨x, rfl⟩ := hp
          cases h
          exact hw.owner_set hi hj
        · obtain ⟨arrays, prototypes, rfl⟩ := write_store (fun x hx => hp ⟨x, hx⟩) h
          rfl
      rw [cell?, cell?, howner]
  | index object key =>
      cases object with
      | array ref =>
          cases key with
          | number n => simp only [cell?, hlengths]
          | _ => rfl
      | prototype ref => cases key <;> rfl
      | _ => rfl
  | member object property => cases object <;> rfl

/-! ## Reading -/

theorem read_var (hw : w.scopes.WellFormed) (hi : w.scopes.InUse i) (name : String) :
    (var name).read w i =
      match w.cell? (.named (.scope (w.scopes.owner i name)) name) with
      | some v => .ok v
      | none => .error (.undefined name) := by
  rw [read, hw.get?_eq_owner hi]
  rfl

theorem read_key (ref : Nat) (key : String) :
    (index (.prototype ref) (.text key)).read w i = .ok ((w.cell? (.named (.prototype ref) key)).getD .null) := rfl

theorem read_property (ref : Nat) (property : String) :
    (member (.prototype ref) property).read w i = .ok ((w.cell? (.named (.prototype ref) property)).getD .null) := rfl

/-- A place is read from its cell. -/
theorem read_of_cell (hw : w.scopes.WellFormed) (hi : w.scopes.InUse i) (hc : p.cell? w i = some c)
    (hv : w.cell? c = some v) : p.read w i = .ok v := by
  cases p with
  | var name =>
      cases hc
      rw [read_var hw hi, hv]
  | index object key =>
      cases object with
      | array ref =>
          cases key with
          | number n =>
              obtain ⟨position, hposition, rfl⟩ := Option.map_eq_some_iff.1 hc
              exact itemAt_eq_ok_iff.2 ⟨position, keyPosition_eq_ok_iff.2 ⟨n, rfl, hposition⟩, hv⟩
          | _ => cases hc
      | prototype ref =>
          cases key with
          | text k =>
              cases hc
              rw [read_key, hv, Option.getD_some]
          | _ => cases hc
      | _ => cases hc
  | member object property =>
      cases object with
      | prototype ref =>
          cases hc
          rw [read_property, hv, Option.getD_some]
      | _ => cases hc

theorem itemAt_congr {α : Type} {items items' : Array α} {key : Value} (hsize : items'.size = items.size)
    (hitem : ∀ k, keyPosition key items.size = .ok k → items'[k]? = items[k]?) :
    itemAt items' key = itemAt items key := by
  rw [itemAt, itemAt, hsize]
  cases hk : keyPosition key items.size with
  | error cause => rfl
  | ok k => simp only [bind, Except.bind, hitem k hk]

/-- What stands for another cell, or for none, is read as before. -/
theorem read_of_other (hw : w.scopes.WellFormed) (hi : w.scopes.InUse i) (hw' : w'.scopes.WellFormed)
    (hi' : w'.scopes.InUse i) (h : w.Assigned c v w') (hcell : p.cell? w' i = p.cell? w i)
    (hne : p.cell? w i ≠ some c) : p.read w' i = p.read w i := by
  have hsame {d : Cell} (hd : p.cell? w i = some d) : w'.cell? d = w.cell? d := by
    rw [h.cells, if_neg]
    rintro rfl
    exact hne hd
  cases p with
  | var name =>
      have howner : w'.scopes.owner i name = w.scopes.owner i name := by
        simpa [cell?] using hcell
      rw [read_var hw hi, read_var hw' hi', howner, hsame rfl]
  | index object key =>
      cases object with
      | array ref =>
          refine itemAt_congr (h.lengths ref) fun k hk => ?_
          obtain ⟨n, rfl, hposition⟩ := keyPosition_eq_ok_iff.1 hk
          exact hsame (d := .item ref k) (Option.map_eq_some_iff.2 ⟨k, hposition, rfl⟩)
      | prototype ref =>
          cases key with
          | text k => rw [read_key, read_key, hsame rfl]
          | _ => rfl
      | _ => rfl
  | member object property =>
      cases object with
      | prototype ref => rw [read_property, read_property, hsame rfl]
      | variant ref => simp only [read, Store.member, h.variant]
      | array ref => simp only [read, Store.member, h.lengths]
      | _ => rfl

/-- In arrays and prototypes what can be read can be written, and the other way round. -/
theorem index_writable_iff {object key : Value} (hkind : object.kind = .array ∨ object.kind = .prototype) :
    (∃ w', (index object key).write w i v = .ok w') ↔ ∃ u, (index object key).read w i = .ok u := by
  cases object with
  | array ref =>
      have hread : (∃ u, (index (.array ref) key).read w i = .ok u) ↔ _ := itemAt_isOk_iff
      rw [hread, write]
      cases keyPosition key (w.store.items ref).size with
      | error cause => simp [bind, Except.bind]
      | ok k => simp [bind, Except.bind, pure, Except.pure]
  | prototype ref =>
      cases key with
      | text k => exact ⟨fun _ => ⟨_, rfl⟩, fun _ => ⟨_, rfl⟩⟩
      | _ => simp [write, read, Store.index]
  | _ => simp [Value.kind] at hkind

theorem write_wellFormed (hw : w.scopes.WellFormed) (h : p.write w i v = .ok w') :
    w'.scopes.WellFormed ∧ ∀ j, w.scopes.InUse j → w'.scopes.InUse j := by
  by_cases hp : ∃ x, p = .var x
  · obtain ⟨x, rfl⟩ := hp
    cases h
    exact ⟨hw.set, fun j hj => Arena.inUse_define.2 hj⟩
  · obtain ⟨arrays, prototypes, rfl⟩ := write_store (fun x hx => hp ⟨x, hx⟩) h
    exact ⟨hw, fun j hj => hj⟩

end Place

/-- A value that was written to a place is in the cell that the place stands for, and nothing but that cell has changed:
arrays have their lengths, and tables their names in order, distinct if they were so, with a new one last. Every place
that stands for the cell now reads the value; every other place reads what it did. A write that fails changes nothing.
In arrays and prototypes an index can be written if and only if it can be read. -/
theorem assignments_reach_one_cell {w : World} {i : ScopeId} {p : Place} (hw : w.scopes.WellFormed)
    (hi : w.scopes.InUse i) (hp : p.Stands w) (v : Value) :
    (∀ w', p.write w i v = .ok w' → p.read w' i = .ok v ∧
      ∃ c, p.cell? w i = some c ∧ w.Assigned c v w' ∧
        (∀ ref, (w'.store.items ref).size = (w.store.items ref).size) ∧
        (∀ t, (w.table t).keys.Nodup → (w'.table t).keys.Nodup) ∧
        ∀ (q : Place) j, w.scopes.InUse j →
          (q.cell? w j = some c → q.read w' j = .ok v) ∧ (q.cell? w j ≠ some c → q.read w' j = q.read w j)) ∧
    (∀ line f w', Run.write line (p.write · i v) w = .fault f w' → w' = w) ∧
    ∀ object key, object.kind = .array ∨ object.kind = .prototype →
      ((∃ w', (Place.index object key).write w i v = .ok w') ↔ ∃ u, (Place.index object key).read w i = .ok u) := by
  refine ⟨fun w' hwrite => ?_, fun line f w' hfault => ?_, fun object key => Place.index_writable_iff⟩
  · obtain ⟨c, hc, hassigned⟩ := Place.write_assigned hw hi hp hwrite
    obtain ⟨hw', hinUse⟩ := Place.write_wellFormed hw hwrite
    have hvalue : w'.cell? c = some v := by rw [hassigned.cells, if_pos rfl]
    have hcell (q : Place) {j : ScopeId} (hj : w.scopes.InUse j) : q.cell? w' j = q.cell? w j :=
      Place.cell?_write hw hi hj hwrite hassigned.lengths
    have halias (q : Place) {j : ScopeId} (hj : w.scopes.InUse j) (hq : q.cell? w j = some c) : q.read w' j = .ok v :=
      Place.read_of_cell hw' (hinUse j hj) ((hcell q hj).trans hq) hvalue
    refine ⟨halias p hi hc, c, hc, hassigned, hassigned.lengths, hassigned.nodup, fun q j hj => ⟨halias q hj, ?_⟩⟩
    exact Place.read_of_other hw hj hw' (hinUse j hj) hassigned (hcell q hj)
  · simp only [Run.write, Run.step] at hfault
    split at hfault
    · cases hfault
    · cases hfault
      rfl

/-- A world with an array of two items and a prototype without entries. -/
def worldOfPair : World :=
  { scopes := Arena.fresh true, host := { store := { arrays := #[#[.null, .null]], prototypes := #[{}] } } }

/-- The last item is written at `-1` and read at `1`, and the first one stays; what is written as a property is read
under the key. -/
theorem assignments_reach_one_cell_item :
    (∃ w', (Place.index (.array 0) (.number (-1.0))).write worldOfPair .global (.bool true) = .ok w' ∧
      (Place.index (.array 0) (.number (-1.0))).read w' .global = .ok (.bool true) ∧
      (Place.index (.array 0) (.number 1.0)).read w' .global = .ok (.bool true) ∧
      (Place.index (.array 0) (.number 0.0)).read w' .global = .ok .null) ∧
    ∃ w', (Place.member (.prototype 0) "k").write worldOfPair .global (.bool true) = .ok w' ∧
      (Place.index (.prototype 0) (.text "k")).read w' .global = .ok (.bool true) := by
  have hwf : worldOfPair.scopes.WellFormed := .fresh true
  constructor
  · obtain ⟨hwrite, -, hwritable⟩ := assignments_reach_one_cell (p := .index (.array 0) (.number (-1.0))) hwf
      hwf.global_inUse trivial (.bool true)
    obtain ⟨w', hw'⟩ := (hwritable (.array 0) (.number (-1.0)) (.inl rfl)).2 ⟨.null, by decide +kernel⟩
    obtain ⟨hread, c, hc, -, -, -, hplaces⟩ := hwrite w' hw'
    have hcell : (Place.index (.array 0) (.number (-1.0))).cell? worldOfPair .global = some (.item 0 1) := by
      decide +kernel
    obtain rfl : .item 0 1 = c := Option.some.inj (hcell.symm.trans hc)
    refine ⟨w', hw', hread, (hplaces _ _ hwf.global_inUse).1 (by decide +kernel), ?_⟩
    exact ((hplaces _ _ hwf.global_inUse).2 (by decide +kernel)).trans (by decide +kernel)
  · have hstands : (Place.member (.prototype 0) "k").Stands worldOfPair := Nat.zero_lt_one
    obtain ⟨hwrite, -⟩ := assignments_reach_one_cell hwf hwf.global_inUse hstands (.bool true)
    obtain ⟨-, c, hc, -, -, -, hplaces⟩ := hwrite _ rfl
    exact ⟨_, rfl, (hplaces _ _ hwf.global_inUse).1 hc⟩

end Cairn
