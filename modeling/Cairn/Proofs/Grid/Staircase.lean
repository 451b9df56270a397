import Cairn.Grid.Search
import Cairn.Proofs.Grid.Settled
import Mathlib.Data.List.Basic

/-!
# Staircases

A cell is supported exactly if a staircase of characters leads down from it to a `#` of the foundation. The characters
above the foundation without such a staircase are the ones that would fall; they are listed in reading order.
-/

namespace Cairn.Grid

variable {g : Grid} {f r c d : Nat}

/-! ## Staircases and support -/

/-- Characters from a place down to a `#` of the row `f`, one in each row: `path` gives their columns, and neighbouring
ones differ by one at most. -/
structure Staircase (g : Grid) (f r c : Nat) (path : Nat → Nat) : Prop where
  le : r ≤ f
  top : path r = c
  step : ∀ i, r ≤ i → i < f → path (i + 1) ≤ path i + 1 ∧ path i ≤ path (i + 1) + 1
  solid : ∀ i, r ≤ i → i ≤ f → Text.isBlank (g.get i (path i)) = false
  foot : g.get f (path f) = '#'

theorem Staircase.tail {path : Nat → Nat} (h : Staircase g f r c path) (hr : r < f) :
    Staircase g f (r + 1) (path (r + 1)) path where
  le := hr
  top := rfl
  step i hi := h.step i (Nat.le_of_succ_le hi)
  solid i hi := h.solid i (Nat.le_of_succ_le hi)
  foot := h.foot

/-- One more step on top of a staircase. -/
theorem Staircase.cons {path : Nat → Nat} (h : Staircase g f (r + 1) d path) (hs : Solid g.rows r c) (hdc : d ≤ c + 1)
    (hcd : c ≤ d + 1) : Staircase g f r c (fun i => if i = r then c else path i) := by
  have hbelow {i : Nat} (hi : r < i) : (if i = r then c else path i) = path i := if_neg (Nat.ne_of_gt hi)
  refine ⟨Nat.le_of_succ_le h.le, if_pos rfl, fun i hi hif => ?_, fun i hi hif => ?_, ?_⟩
  · rw [hbelow (Nat.lt_succ_of_le hi)]
    rcases Nat.eq_or_lt_of_le hi with rfl | hi
    · rw [if_pos rfl, h.top]
      exact ⟨hdc, hcd⟩
    · rw [hbelow hi]
      exact h.step i hi hif
  · rcases Nat.eq_or_lt_of_le hi with rfl | hi
    · rw [if_pos rfl]
      exact hs
    · rw [hbelow hi]
      exact h.solid i hi hif
  · rw [hbelow (Nat.lt_of_succ_le h.le)]
    exact h.foot

theorem Shaped.grounded_iff_staircase (h : g.Shaped f) (hr : r ≤ f) :
    grounded f g.rows r c = true ↔ ∃ path, Staircase g f r c path := by
  obtain ⟨k, rfl⟩ := Nat.exists_eq_add_of_le hr
  -- upward from the foundation, where the staircase is a single `#`
  induction k generalizing r c with
  | zero =>
      rw [Nat.add_zero] at h ⊢
      rw [grounded_at_foundation h.lt, beq_iff_eq]
      constructor
      · intro hfoot
        refine ⟨fun _ => c, Nat.le_refl r, rfl, fun i hi hir => absurd hir (Nat.not_lt.2 hi), fun i hi hir => ?_, hfoot⟩
        rw [Nat.le_antisymm hir hi, show g.get r c = '#' from hfoot]
        rfl
      · rintro ⟨path, hpath⟩
        exact hpath.top ▸ hpath.foot
  | succ k ih =>
      rw [show r + (k + 1) = r + 1 + k by omega] at h ⊢
      rw [grounded_iff h.rect h.lt (by omega)]
      constructor
      · rintro ⟨hs, d, hdc, hcd, hd⟩
        obtain ⟨path, hpath⟩ := (ih h (Nat.le_add_right _ _)).1 hd
        exact ⟨_, hpath.cons hs hdc hcd⟩
      · rintro ⟨path, hpath⟩
        obtain ⟨hdc, hcd⟩ := hpath.step r (Nat.le_refl r) (by omega)
        have hs := hpath.solid r (Nat.le_refl r) (by omega)
        rw [hpath.top] at hs hdc hcd
        exact ⟨hs, path (r + 1), hdc, hcd, (ih h (Nat.le_add_right _ _)).2 ⟨path, hpath.tail (by omega)⟩⟩

theorem isSupported_of_none (h : g.foundation = none) : g.isSupported r c = false := by
  simp [isSupported, supportMap, h]

/-! ## The list of what would fall -/

theorem zipIdx_eq_map_range {α : Type} (l : List α) (default : α) :
    l.zipIdx = (List.range l.length).map fun i => (l[i]?.getD default, i) := by
  refine List.ext_getElem (by simp) fun i hi hi' => ?_
  simp at hi
  simp [hi]

theorem unmarked_eq {row : Row} {marks : List Bool} (h : row.length = marks.length) :
    unmarked row marks = (List.range row.length).filter fun c =>
      !Text.isBlank (row[c]?.getD ' ') && !marks[c]?.getD false := by
  rw [unmarked, zipIdx_eq_map_range _ (' ', false), List.length_zip, ← h, Nat.min_self, List.filterMap_map,
    ← List.filterMap_eq_filter]
  refine List.filterMap_congr fun c hc => ?_
  have hrow : c < row.length := List.mem_range.1 hc
  have hmarks : c < marks.length := h ▸ hrow
  have hpair : (row.zip marks)[c]? = some (row[c], marks[c]) := by
    exact List.getElem?_zip_eq_some.2 ⟨List.getElem?_eq_getElem hrow, List.getElem?_eq_getElem hmarks⟩
  simp only [Function.comp_apply, hpair, List.getElem?_eq_getElem hrow, List.getElem?_eq_getElem hmarks,
    Option.getD_some, Option.guard]
  cases Text.isBlank row[c] <;> cases marks[c] <;> rfl

/-- The characters without a mark, in rows that show the grid and its support. -/
theorem flatMap_unmarked (marked : List (Row × List Bool))
    (h : ∀ r p, marked[r]? = some p → p.1.length = g.width ∧ p.2.length = g.width ∧
      ∀ c, p.1[c]?.getD ' ' = g.get r c ∧ p.2[c]?.getD false = g.isSupported r c) :
    (marked.zipIdx.flatMap fun ((row, marks), r) => (unmarked row marks).map (r, ·)) =
      (places marked.length g.width).filter fun p => !Text.isBlank (g.get p.1 p.2) && !g.isSupported p.1 p.2 := by
  rw [zipIdx_eq_map_range _ ([], []), List.flatMap_map, places, List.filter_flatMap]
  refine List.flatMap_congr fun r hr => ?_
  obtain ⟨hrow, hmarks, hcells⟩ := h r _ (List.getElem?_eq_getElem (List.mem_range.1 hr))
  rw [List.getElem?_eq_getElem (List.mem_range.1 hr), Option.getD_some, List.filter_map]
  simp only [unmarked_eq (hrow.trans hmarks.symm), hrow, hcells]
  rfl

theorem unsupported_eq (hrect : Rect g.width g.rows) (hf : ∀ f, g.foundation = some f → f < g.rows.length) :
    g.unsupported = (places (g.foundation.getD g.height) g.width).filter fun p =>
      !Text.isBlank (g.get p.1 p.2) && !g.isSupported p.1 p.2 := by
  unfold unsupported
  cases hfound : g.foundation with
  | none =>
      have hmarked := flatMap_unmarked (g := g) (g.rows.map fun row => (row, row.map fun _ => false)) ?_
      · rw [List.length_map] at hmarked
        exact hmarked
      · intro r p hp
        rw [List.getElem?_map, Option.map_eq_some_iff] at hp
        obtain ⟨row, hrow, rfl⟩ := hp
        have hlen := hrect row (List.mem_of_getElem? hrow)
        refine ⟨hlen, (List.length_map _).trans hlen, fun c => ⟨by simp [Grid.get, hrow], ?_⟩⟩
        rw [isSupported_of_none hfound, List.getElem?_map]
        cases row[c]? <;> rfl
  | some f =>
      have hlt := hf f hfound
      have hsupports : g.supportMap = supports (g.rows.take (f + 1)) := by simp only [supportMap, hfound]
      have hmarked := flatMap_unmarked (g := g) (List.zip (g.rows.take f) g.supportMap) ?_
      · have hlen : (List.zip (g.rows.take f) g.supportMap).length = f := by
          rw [List.length_zip, hsupports, length_supports, List.length_take, List.length_take]
          omega
        rw [hlen] at hmarked
        exact hmarked
      · intro r p hp
        obtain ⟨hrow, hmarks⟩ := List.getElem?_zip_eq_some.1 hp
        rw [List.getElem?_take, Option.ite_none_right_eq_some] at hrow
        refine ⟨hrect p.1 (List.mem_of_getElem? hrow.2), ?_, fun c => ⟨?_, ?_⟩⟩
        · exact length_mem_supports (hrect.take (f + 1)) p.2 (hsupports ▸ List.mem_of_getElem? hmarks)
        · simp [Grid.get, hrow.2]
        · simp [isSupported, hmarks]

theorem mem_places {height width : Nat} : (r, c) ∈ places height width ↔ r < height ∧ c < width := by
  simp [places]

theorem places_sorted (height width : Nat) : (places height width).Pairwise (Prod.Lex (· < ·) (· < ·)) := by
  rw [places, List.pairwise_flatMap]
  refine ⟨fun r _ => ?_, List.pairwise_lt_range.imp fun {r r'} hr p hp q hq => ?_⟩
  · exact List.pairwise_map.2 (List.pairwise_lt_range.imp fun hc => .right r hc)
  · obtain ⟨c, -, rfl⟩ := List.mem_map.1 hp
    obtain ⟨c', -, rfl⟩ := List.mem_map.1 hq
    exact .left c c' hr

theorem mem_unsupported (hrect : Rect g.width g.rows) (hf : ∀ f, g.foundation = some f → f < g.rows.length) :
    (r, c) ∈ g.unsupported ↔ Text.isBlank (g.get r c) = false ∧
      ∀ f, g.foundation = some f → r < f ∧ g.isSupported r c = false := by
  rw [unsupported_eq hrect hf, List.mem_filter, mem_places]
  simp only [Bool.and_eq_true, Bool.not_eq_eq_eq_not, Bool.not_true]
  cases hfound : g.foundation with
  | none =>
      rw [isSupported_of_none hfound]
      have hbounds (hs : Text.isBlank (g.get r c) = false) : r < g.rows.length ∧ c < g.width := hrect.lt_of_solid hs
      simpa [height] using hbounds
  | some f =>
      constructor
      · rintro ⟨⟨hr, -⟩, hs, hfree⟩
        exact ⟨hs, fun f' hf' => Option.some.inj hf' ▸ ⟨hr, hfree⟩⟩
      · rintro ⟨hs, habove⟩
        obtain ⟨hr, hfree⟩ := habove f rfl
        exact ⟨⟨hr, (hrect.lt_of_solid hs).2⟩, hs, hfree⟩

end Cairn.Grid
