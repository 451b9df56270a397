import Cairn.Eval.Places
import Mathlib.Tactic.Common
import Mathlib.Tactic.SplitIfs

/-!
# Positions and slices

Arrays and texts are sequences: an index names one item, two bounds cut a part out. Indices and bounds are integers
held within the 64-bit range, and count from the end if they are negative. An index outside of the sequence is refused;
a bound outside of it falls on the nearer end, so that a slice never reaches beyond.
-/

namespace Cairn

/-! ## Positions -/

theorem Number.toIndex_range (x : Float) : Number.minIndex ≤ Number.toIndex x ∧ Number.toIndex x ≤ Number.maxIndex := by
  have hle : Number.minIndex ≤ 0 ∧ 0 ≤ Number.maxIndex := by decide
  unfold Number.toIndex
  split
  · exact hle
  · split <;> omega
  · omega

/-- An integer names the position at itself, or that far from the end. -/
theorem positionOf?_eq_some_iff {i : Int} {n p : Nat} :
    positionOf? i n = some p ↔ p < n ∧ (p : Int) = if i < 0 then n + i else i := by
  simp only [positionOf?, Option.ite_none_right_eq_some, Option.some.injEq]
  split <;> omega

theorem positionOf?_isSome_iff {i : Int} {n : Nat} :
    (∃ p, positionOf? i n = some p) ↔ -(n : Int) ≤ i ∧ i < n := by
  simp only [positionOf?_eq_some_iff]
  constructor
  · rintro ⟨p, hp, heq⟩
    split at heq <;> omega
  · intro h
    refine ⟨(if i < 0 then n + i else i).toNat, ?_⟩
    split <;> omega

theorem keyPosition_eq_ok_iff {key : Value} {n p : Nat} :
    keyPosition key n = .ok p ↔ ∃ x, key = .number x ∧ positionOf? (Number.toIndex x) n = some p := by
  cases key with
  | number x =>
      simp only [keyPosition, Value.number.injEq, exists_eq_left']
      cases positionOf? (Number.toIndex x) n <;> simp
  | _ => simp [keyPosition]

theorem keyPosition_lt {key : Value} {n p : Nat} (h : keyPosition key n = .ok p) : p < n := by
  obtain ⟨x, -, hp⟩ := keyPosition_eq_ok_iff.1 h
  exact (positionOf?_eq_some_iff.1 hp).1

theorem itemAt_eq_ok_iff {α : Type} {items : Array α} {key : Value} {a : α} :
    itemAt items key = .ok a ↔ ∃ p, keyPosition key items.size = .ok p ∧ items[p]? = some a := by
  cases h : keyPosition key items.size with
  | error cause => simp [itemAt, h, bind, Except.bind]
  | ok p =>
      simp only [itemAt, h, bind, Except.bind, Except.ok.injEq, exists_eq_left']
      cases items[p]? <;> simp

/-- An item is found where the key names a position. -/
theorem itemAt_isOk_iff {α : Type} {items : Array α} {key : Value} :
    (∃ a, itemAt items key = .ok a) ↔ ∃ p, keyPosition key items.size = .ok p := by
  simp only [itemAt_eq_ok_iff]
  constructor
  · rintro ⟨a, p, hp, -⟩
    exact ⟨p, hp⟩
  · rintro ⟨p, hp⟩
    have hlt : p < items.size := keyPosition_lt hp
    exact ⟨items[p], p, hp, Array.getElem?_eq_getElem hlt⟩

/-! ## Bounds -/

/-- Where the bound `i` falls in a sequence of `n` items: `n` further if it is negative, and on the nearer end if that is
outside. -/
def boundPosition (n : Nat) (i : Int) : Nat :=
  if i < -n then 0 else if i < 0 then (n + i).toNat else if i < n then i.toNat else n

theorem normalBound_eq (i : Int) (n : Nat) : normalBound i n = boundPosition n i := by
  simp only [normalBound, boundPosition]
  split_ifs <;> omega

theorem boundPosition_le (n : Nat) (i : Int) : boundPosition n i ≤ n := by
  unfold boundPosition
  split_ifs <;> omega

@[simp] theorem boundPosition_zero (n : Nat) : boundPosition n 0 = 0 := by
  unfold boundPosition
  split_ifs <;> omega

@[simp] theorem boundPosition_length (n : Nat) : boundPosition n n = n := by
  unfold boundPosition
  split_ifs <;> omega

/-- As a bound, an index falls on the position that it names, and the next one on the next position. The index `-1` has no
next one: `0` counts from the front again. -/
theorem boundPosition_of_position {i : Int} {n p : Nat} (h : positionOf? i n = some p) :
    boundPosition n i = p ∧ (i ≠ -1 → boundPosition n (i + 1) = p + 1) := by
  rw [positionOf?_eq_some_iff] at h
  unfold boundPosition
  split_ifs at * <;> omega

/-- What a value says of a bound: nothing, or an integer. -/
inductive Value.Marks : Value → Option Int → Prop where
  | absent : Marks .null none
  | integer (x : Float) : Marks (.number x) (some (Number.toIndex x))

variable {start stop : Value} {a b : Option Int}

/-- Without a bound the slice begins at the first item and ends behind the last. -/
theorem sliceBounds_of_marks (ha : start.Marks a) (hb : stop.Marks b) (n : Nat) :
    sliceBounds start stop n =
      .ok (boundPosition n (a.getD 0), max (boundPosition n (b.getD n)) (boundPosition n (a.getD 0))) := by
  have hbound {v : Value} {i : Option Int} (h : v.Marks i) (default : Nat) :
      sliceBound v default n = .ok (boundPosition n (i.getD default)) := by
    cases h <;> simp [sliceBound, normalBound_eq]
  simp only [sliceBounds, hbound ha, hbound hb, bind, Except.bind, pure, Except.pure]
  rfl

/-! ## Slices -/

/-- The items at the positions from `s` on and before `e`. -/
def itemsBetween {α : Type} (s e : Nat) (xs : List α) : List α :=
  (xs.zipIdx.filter fun item => s ≤ item.2 ∧ item.2 < e).map Prod.fst

theorem map_filter_zipIdx {α : Type} (s e : Nat) (xs : List α) (m : Nat) :
    ((xs.zipIdx m).filter fun item => s ≤ item.2 ∧ item.2 < e).map Prod.fst = (xs.take (e - m)).drop (s - m) := by
  induction xs generalizing m with
  | nil => simp
  | cons x xs ih =>
      rw [List.zipIdx_cons]
      by_cases hin : s ≤ m ∧ m < e
      · rw [List.filter_cons_of_pos (by simpa using hin), List.map_cons, ih,
          show e - m = e - (m + 1) + 1 by omega, show s - m = 0 by omega, show s - (m + 1) = 0 by omega]
        rfl
      · rw [List.filter_cons_of_neg (by simpa using hin), ih]
        by_cases he : m < e
        · rw [show e - m = e - (m + 1) + 1 by omega, show s - m = s - (m + 1) + 1 by omega]
          rfl
        · simp [show e - m = 0 by omega, show e - (m + 1) = 0 by omega]

theorem itemsBetween_eq_drop_take {α : Type} (s e : Nat) (xs : List α) :
    itemsBetween s e xs = (xs.take e).drop s := map_filter_zipIdx s e xs 0

theorem itemsBetween_map {α β : Type} (f : α → β) (s e : Nat) (xs : List α) :
    itemsBetween s e (xs.map f) = (itemsBetween s e xs).map f := by
  simp only [itemsBetween_eq_drop_take, List.map_drop, List.map_take]

/-- A slice holds the items between its bounds, and none if they are crossed. -/
theorem sliceOf_of_marks {α : Type} (items : Array α) (ha : start.Marks a) (hb : stop.Marks b) :
    ∃ part, sliceOf items start stop = .ok part ∧
      part.toList = itemsBetween (boundPosition items.size (a.getD 0)) (boundPosition items.size (b.getD items.size))
        items.toList := by
  refine ⟨_, by rw [sliceOf, sliceBounds_of_marks ha hb]; rfl, ?_⟩
  generalize boundPosition items.size (a.getD 0) = s, boundPosition items.size (b.getD items.size) = e
  rw [itemsBetween_eq_drop_take, Array.toList_extract, List.extract_eq_take_drop, List.drop_take]
  congr 1
  omega

/-! ## Values that are sequences -/

/-- The items of an array, or the characters of a text, each a text of its own. -/
def Store.sequence? (store : Store) : Value → Option (List Value)
  | .array ref => some (store.items ref).toList
  | .text t => some (t.toList.map fun c => .text (String.singleton c))
  | _ => none

variable {store : Store} {object : Value} {xs : List Value}

theorem Store.items_newArray (items : Array Value) : (store.newArray items).2.items store.arrays.size = items := by
  simp [Store.newArray, Store.items]

/-- A slice is a sequence of the same kind, with the items between the bounds. -/
theorem Store.slice_of_marks (hxs : store.sequence? object = some xs) (ha : start.Marks a) (hb : stop.Marks b) :
    ∃ v store', store.slice object start stop = .ok (v, store') ∧ v.kind = object.kind ∧
      store'.sequence? v =
        some (itemsBetween (boundPosition xs.length (a.getD 0)) (boundPosition xs.length (b.getD xs.length)) xs) := by
  cases object with
  | array ref =>
      cases hxs
      obtain ⟨part, hslice, hpart⟩ := sliceOf_of_marks (store.items ref) ha hb
      refine ⟨.array store.arrays.size, (store.newArray part).2, by rw [Store.slice, hslice]; rfl, rfl, ?_⟩
      rw [sequence?, items_newArray, hpart, Array.length_toList]
  | text t =>
      cases hxs
      obtain ⟨part, hslice, hpart⟩ := sliceOf_of_marks t.toList.toArray ha hb
      refine ⟨.text (String.ofList part.toList), store, by rw [Store.slice, hslice]; rfl, rfl, ?_⟩
      rw [sequence?, String.toList_ofList, hpart, List.length_map, itemsBetween_map]
      rfl
  | _ => cases hxs

/-- An item of a sequence is the one at the position that its index names. -/
theorem Store.index_eq_ok_iff (hxs : store.sequence? object = some xs) {key v : Value} :
    store.index object key = .ok v ↔ ∃ p, keyPosition key xs.length = .ok p ∧ xs[p]? = some v := by
  cases object with
  | array ref =>
      cases hxs
      simp [Store.index, itemAt_eq_ok_iff]
  | text t =>
      cases hxs
      have hitem : store.index (.text t) key = .ok v ↔
          ∃ c, itemAt t.toList.toArray key = .ok c ∧ Value.text (String.singleton c) = v := by
        simp only [Store.index]
        cases itemAt t.toList.toArray key <;> simp [bind, Except.bind, pure, Except.pure]
      simp only [hitem, itemAt_eq_ok_iff, List.length_map, List.getElem?_map, Option.map_eq_some_iff, List.size_toArray,
        List.getElem?_toArray]
      constructor
      · rintro ⟨c, ⟨p, hp, hc⟩, rfl⟩
        exact ⟨p, hp, c, hc, rfl⟩
      · rintro ⟨p, hp, c, hc, rfl⟩
        exact ⟨c, ⟨p, hp, hc⟩, rfl⟩
  | _ => cases hxs

/-- Indexing by a number succeeds from as far before the end as the sequence is long up to its last item. -/
theorem Store.index_isOk_iff (hxs : store.sequence? object = some xs) (x : Float) :
    (∃ v, store.index object (.number x) = .ok v) ↔
      -(xs.length : Int) ≤ Number.toIndex x ∧ Number.toIndex x < xs.length := by
  rw [← positionOf?_isSome_iff]
  simp only [index_eq_ok_iff hxs, keyPosition_eq_ok_iff, Value.number.injEq, exists_eq_left']
  constructor
  · rintro ⟨v, p, hp, -⟩
    exact ⟨p, hp⟩
  · rintro ⟨p, hp⟩
    have hlt : p < xs.length := (positionOf?_eq_some_iff.1 hp).1
    exact ⟨xs[p], p, hp, List.getElem?_eq_getElem hlt⟩

/-- The part up to a bound and the part from there on make up the whole. -/
theorem itemsBetween_append {α : Type} (xs : List α) (k : Nat) :
    itemsBetween 0 k xs ++ itemsBetween k xs.length xs = xs := by
  simp [itemsBetween_eq_drop_take]

/-- Between a position and the next there is one item. -/
theorem itemsBetween_succ {α : Type} {xs : List α} {p : Nat} {x : α} (h : xs[p]? = some x) :
    itemsBetween p (p + 1) xs = [x] := by
  obtain ⟨hlt, rfl⟩ := List.getElem?_eq_some_iff.1 h
  rw [itemsBetween_eq_drop_take, List.drop_take, Nat.add_sub_cancel_left, List.drop_eq_getElem_cons hlt]
  rfl

/-- Arrays and texts as sequences of `n` items. The bounds of a slice lie within it and are not crossed, and the slice
holds the items at the positions from the first bound on and before the second; sums of an index and the length stay
within the 64-bit range. What comes before a bound and what comes behind make up the sequence. An index finds an item
from `-n` to before `n`, the one at its position; unless it is the last one counted from the end, a slice of one finds
the same. -/
theorem sequences_sliced_and_indexed (hxs : store.sequence? object = some xs) :
    (∀ start stop a b, start.Marks a → stop.Marks b →
      ∃ s e, sliceBounds start stop xs.length = .ok (s, e) ∧ s ≤ e ∧ e ≤ xs.length ∧
        ∃ v store', store.slice object start stop = .ok (v, store') ∧ v.kind = object.kind ∧
          store'.sequence? v = some (itemsBetween (boundPosition xs.length (a.getD 0))
            (boundPosition xs.length (b.getD xs.length)) xs)) ∧
    ((xs.length : Int) ≤ Number.maxIndex → ∀ x, Number.toIndex x < 0 →
      Number.minIndex ≤ Number.toIndex x + xs.length ∧ Number.toIndex x + xs.length ≤ Number.maxIndex) ∧
    (∀ x, ∃ u storeᵤ v storeᵥ ys zs, store.slice object .null (.number x) = .ok (u, storeᵤ) ∧
      store.slice object (.number x) .null = .ok (v, storeᵥ) ∧
      storeᵤ.sequence? u = some ys ∧ storeᵥ.sequence? v = some zs ∧ ys ++ zs = xs) ∧
    ∀ x, ((∃ v, store.index object (.number x) = .ok v) ↔
        -(xs.length : Int) ≤ Number.toIndex x ∧ Number.toIndex x < xs.length) ∧
      ∀ v, store.index object (.number x) = .ok v →
        (∃ p : Nat, (p : Int) = (if Number.toIndex x < 0 then xs.length + Number.toIndex x else Number.toIndex x) ∧
          xs[p]? = some v) ∧
        (Number.toIndex x ≠ -1 → ∀ y, Number.toIndex y = Number.toIndex x + 1 →
          ∃ u store', store.slice object (.number x) (.number y) = .ok (u, store') ∧ store'.sequence? u = some [v]) := by
  refine ⟨fun start stop a b ha hb => ?_, fun hlength x hx => ?_, fun x => ?_,
    fun x => ⟨store.index_isOk_iff hxs x, fun v hv => ?_⟩⟩
  · exact ⟨_, _, sliceBounds_of_marks ha hb _, Nat.le_max_right _ _,
      Nat.max_le.2 ⟨boundPosition_le _ _, boundPosition_le _ _⟩, store.slice_of_marks hxs ha hb⟩
  · have hrange := Number.toIndex_range x
    omega
  · obtain ⟨u, storeᵤ, hu, -, hys⟩ := store.slice_of_marks hxs .absent (.integer x)
    obtain ⟨v, storeᵥ, hv, -, hzs⟩ := store.slice_of_marks hxs (.integer x) .absent
    refine ⟨u, storeᵤ, v, storeᵥ, _, _, hu, hv, hys, hzs, ?_⟩
    simpa using itemsBetween_append xs (boundPosition xs.length (Number.toIndex x))
  · obtain ⟨p, hkey, hitem⟩ := (store.index_eq_ok_iff hxs).1 hv
    obtain ⟨_, ⟨⟩, hp⟩ := keyPosition_eq_ok_iff.1 hkey
    obtain ⟨hbound, hnext⟩ := boundPosition_of_position hp
    refine ⟨⟨p, (positionOf?_eq_some_iff.1 hp).2, hitem⟩, fun hlast y hy => ?_⟩
    obtain ⟨u, store', hu, -, hsequence⟩ := store.slice_of_marks hxs (.integer x) (.integer y)
    refine ⟨u, store', hu, hsequence.trans ?_⟩
    rw [Option.getD_some, Option.getD_some, hy, hbound, hnext hlast, itemsBetween_succ hitem]

/-- In a text of three characters the second is at `-2`, and between `-2` and `-1`. -/
theorem sequences_sliced_and_indexed_text :
    ({} : Store).sequence? (.text "aé😀") = some [.text "a", .text "é", .text "😀"] ∧
    Number.toIndex (-2.0) = -2 ∧ Number.toIndex (-1.0) = -1 ∧
    ({} : Store).index (.text "aé😀") (.number (-2.0)) = .ok (.text "é") ∧
    ∃ u store', ({} : Store).slice (.text "aé😀") (.number (-2.0)) (.number (-1.0)) = .ok (u, store') ∧
      store'.sequence? u = some [.text "é"] := by
  have hxs : ({} : Store).sequence? (.text "aé😀") = some [.text "a", .text "é", .text "😀"] := by decide +kernel
  have hx : Number.toIndex (-2.0) = -2 := by decide +kernel
  have hy : Number.toIndex (-1.0) = -1 := by decide +kernel
  obtain ⟨-, -, -, hindex⟩ := sequences_sliced_and_indexed hxs
  obtain ⟨hfinds, hfound⟩ := hindex (-2.0)
  obtain ⟨v, hv⟩ := hfinds.2 (by rw [hx]; decide)
  obtain ⟨⟨p, hp, hitem⟩, halone⟩ := hfound v hv
  obtain rfl : p = 1 := by
    have hp : (p : Int) = 1 := by simpa [hx] using hp
    omega
  obtain rfl : .text "é" = v := by simpa using hitem
  exact ⟨hxs, hx, hy, hv, halone (by rw [hx]; decide) (-1.0) (by rw [hx, hy]; rfl)⟩

end Cairn
