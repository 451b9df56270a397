/-!
# Dictionaries that remember the order of their keys

A key keeps the place it got when it was first inserted; a new key goes last.
-/

namespace Cairn

/-- Values by key, in the order in which the keys first came. -/
structure Dict (κ : Type) (α : Type) where
  entries : List (κ × α) := []
deriving Repr

namespace Dict

variable {κ α : Type} [DecidableEq κ]

/-- No entries. -/
def empty : Dict κ α := ⟨[]⟩

/-- The first value under `k` in a list of entries. -/
def lookup (k : κ) : List (κ × α) → Option α
  | [] => none
  | (k', a) :: rest => if k' = k then some a else lookup k rest

/-- Overwrites the value of the first entry under `k`, or adds an entry at the end. -/
def place (k : κ) (a : α) : List (κ × α) → List (κ × α)
  | [] => [(k, a)]
  | (k', a') :: rest => if k' = k then (k', a) :: rest else (k', a') :: place k a rest

/-- The value under `k`. -/
def get? (d : Dict κ α) (k : κ) : Option α := lookup k d.entries

/-- Is there a value under `k`? -/
def contains (d : Dict κ α) (k : κ) : Bool := (d.get? k).isSome

/-- Puts `a` under `k`, at the place of `k` if it has one. -/
def insert (d : Dict κ α) (k : κ) (a : α) : Dict κ α := ⟨place k a d.entries⟩

/-- Puts every pair in, from the first to the last. -/
def insertAll (d : Dict κ α) (pairs : List (κ × α)) : Dict κ α :=
  pairs.foldl (fun d (k, a) => d.insert k a) d

/-- Takes the entry of `k` out. -/
def erase (d : Dict κ α) (k : κ) : Dict κ α := ⟨d.entries.filter fun (k', _) => k' ≠ k⟩

/-- The keys, first inserted first. -/
def keys (d : Dict κ α) : List κ := d.entries.map Prod.fst

/-- How many entries there are. -/
def size (d : Dict κ α) : Nat := d.entries.length

/-- Changes every value by `f` and drops the entries for which it gives nothing. -/
def filterMap (f : α → Option α) (d : Dict κ α) : Dict κ α :=
  ⟨d.entries.filterMap fun (k, a) => (f a).map (k, ·)⟩

instance : Inhabited (Dict κ α) := ⟨empty⟩

theorem lookup_place (k k' : κ) (a : α) (es : List (κ × α)) :
    lookup k' (place k a es) = if k = k' then some a else lookup k' es := by
  induction es with
  | nil => rfl
  | cons e es ih => grind [lookup, place]

/-- After an insertion the key has its new value and every other key the value it had. -/
@[simp] theorem get?_insert (d : Dict κ α) (k k' : κ) (a : α) :
    (d.insert k a).get? k' = if k = k' then some a else d.get? k' :=
  lookup_place k k' a d.entries

theorem lookup_isSome (k : κ) (es : List (κ × α)) :
    (lookup k es).isSome = true ↔ k ∈ es.map Prod.fst := by
  induction es with
  | nil => simp [lookup]
  | cons e es ih => grind [lookup]

/-- A dictionary contains the keys that it lists. -/
theorem contains_iff_mem_keys (d : Dict κ α) (k : κ) : d.contains k = true ↔ k ∈ d.keys :=
  lookup_isSome k d.entries

theorem map_fst_place (k : κ) (a : α) (es : List (κ × α)) :
    (place k a es).map Prod.fst
      = if k ∈ es.map Prod.fst then es.map Prod.fst else es.map Prod.fst ++ [k] := by
  induction es with
  | nil => simp [place]
  | cons e es ih => grind [place]

/-- A key keeps its place; a new key goes last. -/
theorem keys_insert (d : Dict κ α) (k : κ) (a : α) :
    (d.insert k a).keys = if k ∈ d.keys then d.keys else d.keys ++ [k] :=
  map_fst_place k a d.entries

theorem lookup_filter_ne (k k' : κ) (es : List (κ × α)) :
    lookup k' (es.filter fun (key, _) => key ≠ k) = if k = k' then none else lookup k' es := by
  induction es with
  | nil => simp [lookup]
  | cons e es ih => grind [lookup]

/-- After an erasure the key has no value and every other key the value it had. -/
@[simp] theorem get?_erase (d : Dict κ α) (k k' : κ) :
    (d.erase k).get? k' = if k = k' then none else d.get? k' :=
  lookup_filter_ne k k' d.entries

/-! ## Keys come once -/

theorem nodup_keys_insert {d : Dict κ α} (h : d.keys.Nodup) (k : κ) (a : α) : (d.insert k a).keys.Nodup := by
  rw [keys_insert]
  split
  next hk => exact h
  next hk =>
    rw [List.nodup_append]
    grind

theorem nodup_keys_erase {d : Dict κ α} (h : d.keys.Nodup) (k : κ) : (d.erase k).keys.Nodup :=
  h.sublist (List.filter_sublist.map Prod.fst)

omit [DecidableEq κ] in
theorem keys_filterMap_sublist (f : α → Option α) (es : List (κ × α)) :
    ((es.filterMap fun (k, a) => (f a).map (k, ·)).map Prod.fst).Sublist (es.map Prod.fst) := by
  induction es with
  | nil => exact .slnil
  | cons e es ih =>
    cases h : f e.2 with
    | none => simpa [List.filterMap_cons, h] using ih.cons e.1
    | some a => simpa [List.filterMap_cons, h] using ih

omit [DecidableEq κ] in
theorem nodup_keys_filterMap {d : Dict κ α} (h : d.keys.Nodup) (f : α → Option α) : (d.filterMap f).keys.Nodup :=
  h.sublist (keys_filterMap_sublist f d.entries)

theorem lookup_filterMap (f : α → Option α) (k : κ) {es : List (κ × α)} (h : (es.map Prod.fst).Nodup) :
    lookup k (es.filterMap fun (k, a) => (f a).map (k, ·)) = (lookup k es).bind f := by
  induction es with
  | nil => rfl
  | cons e es ih =>
    obtain ⟨k', a⟩ := e
    obtain ⟨hfresh, hrest⟩ := List.nodup_cons.1 h
    cases hf : f a with
    | some b =>
      simp only [List.filterMap_cons, hf, Option.map_some, lookup, ih hrest]
      split <;> simp [hf]
    | none =>
      simp only [List.filterMap_cons, hf, Option.map_none, lookup, ih hrest]
      split
      next hk =>
        -- the only entry of the key is dropped
        have hnone : lookup k es = none := by
          rw [← Option.not_isSome_iff_eq_none, lookup_isSome, ← hk]
          exact hfresh
        simp [hnone, hf]
      next => rfl

/-- Where keys come once, each value is changed or dropped. -/
theorem get?_filterMap {d : Dict κ α} (h : d.keys.Nodup) (f : α → Option α) (k : κ) :
    (d.filterMap f).get? k = (d.get? k).bind f :=
  lookup_filterMap f k h

end Dict

end Cairn
