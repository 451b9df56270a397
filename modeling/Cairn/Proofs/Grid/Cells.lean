import Cairn.Grid.Settle
import Mathlib.Tactic.Common

/-!
# Grids, cell by cell

The rows of a grid and their support, seen through single cells. A cell is grounded when it holds a
character and one of the three cells below it is, or when it is a `#` of the foundation; a grid with more
characters in it has more grounded cells.
-/

namespace Cairn.Grid

variable {width f r c : Nat} {row row' : Row} {rows rows' : List Row}

/-- The character at a place; a blank outside of the rows. -/
def cell (rows : List Row) (r c : Nat) : Char := ((rows[r]?).bind (·[c]?)).getD ' '

/-- There is a character at a place. -/
def Solid (rows : List Row) (r c : Nat) : Prop := Text.isBlank (cell rows r c) = false

def Rect (width : Nat) (rows : List Row) : Prop := ∀ row ∈ rows, row.length = width

@[simp] theorem cell_cons_zero : cell (row :: rows) 0 c = row[c]?.getD ' ' := rfl

@[simp] theorem cell_cons_succ : cell (row :: rows) (r + 1) c = cell rows r c := rfl

@[simp] theorem solid_cons_succ : Solid (row :: rows) (r + 1) c ↔ Solid rows r c := Iff.rfl

theorem Rect.head (h : Rect width (row :: rows)) : row.length = width := h row (by simp)

theorem Rect.tail (h : Rect width (row :: rows)) : Rect width rows :=
  fun row hrow => h row (List.mem_cons_of_mem _ hrow)

theorem Rect.cons (hrow : row.length = width) (hrows : Rect width rows) : Rect width (row :: rows) := by
  intro row' hrow'
  rcases List.mem_cons.1 hrow' with rfl | hrow'
  · exact hrow
  · exact hrows row' hrow'

theorem Rect.lt_of_solid (hrect : Rect width rows) (h : Solid rows r c) : r < rows.length ∧ c < width := by
  rcases hr : rows[r]? with _ | row
  · simp [Solid, cell, hr, Text.isBlank] at h
  · obtain ⟨hlt, hget⟩ := List.getElem?_eq_some_iff.1 hr
    refine ⟨hlt, ?_⟩
    rcases hc : row[c]? with _ | x
    · simp [Solid, cell, hr, hc, Text.isBlank] at h
    · obtain ⟨hlt, -⟩ := List.getElem?_eq_some_iff.1 hc
      rw [← hrect row (List.mem_of_getElem? hr)]
      exact hlt

/-- Rectangles are equal if their cells are. -/
theorem Rect.ext (hrect : Rect width rows) (hrect' : Rect width rows') (hlen : rows.length = rows'.length)
    (h : ∀ r c, c < width → cell rows r c = cell rows' r c) : rows = rows' := by
  induction rows generalizing rows' with
  | nil => exact (List.length_eq_zero_iff.1 hlen.symm).symm
  | cons row rows ih =>
      cases rows' with
      | nil => cases hlen
      | cons row' rows' =>
          have hrow : row = row' := by
            refine List.ext_getElem (hrect.head.trans hrect'.head.symm) fun c hc hc' => ?_
            have hcell := h 0 c (hrect.head ▸ hc)
            simpa [hc, hc'] using hcell
          have hrows := ih hrect.tail hrect'.tail (by simpa using hlen) fun r c hc => h (r + 1) c hc
          rw [hrow, hrows]

/-! ## Support -/

/-- The mark of a place, the row `f` being the foundation. -/
def grounded (f : Nat) (rows : List Row) (r c : Nat) : Bool :=
  (((supports (rows.take (f + 1)))[r]?).bind (·[c]?)).getD false

theorem isSupported_eq {g : Grid} (h : g.foundation = some f) : g.isSupported r c = grounded f g.rows r c := by
  simp only [isSupported, supportMap, h, grounded]

/-- A column is marked after spreading if it or a neighbour was marked before. -/
theorem spread_eq_true {left : Bool} {marks : List Bool} (hc : c < marks.length) :
    (spread left marks)[c]? = some true ↔
      (left :: marks)[c]? = some true ∨ marks[c]? = some true ∨ marks[c + 1]? = some true := by
  induction marks generalizing left c with
  | nil => simp at hc
  | cons a marks ih =>
      cases marks with
      | nil =>
          obtain rfl : c = 0 := by simpa using hc
          simp [spread]
      | cons b marks =>
          cases c with
          | zero => simp [spread, or_assoc]
          | succ c =>
              have hc : c < (b :: marks).length := by simpa using hc
              simpa [spread] using ih hc

theorem spread_eq_true_iff {marks : List Bool} (hc : c < marks.length) :
    (spread false marks)[c]? = some true ↔ ∃ d, d ≤ c + 1 ∧ c ≤ d + 1 ∧ marks[d]? = some true := by
  rw [spread_eq_true hc]
  constructor
  · rintro (h | h | h)
    · cases c with
      | zero => simp at h
      | succ c => exact ⟨c, by omega, by omega, h⟩
    · exact ⟨c, by omega, by omega, h⟩
    · exact ⟨c + 1, by omega, by omega, h⟩
  · rintro ⟨d, hdc, hcd, hd⟩
    obtain rfl | rfl | rfl : c = d + 1 ∨ c = d ∨ d = c + 1 := by omega
    · exact .inl hd
    · exact .inr (.inl hd)
    · exact .inr (.inr hd)

theorem length_mem_supports (hrect : Rect width rows) : ∀ marks ∈ supports rows, marks.length = width := by
  induction rows with
  | nil => simp [supports]
  | cons row rows ih =>
      have hrow := hrect.head
      have hmore := ih hrect.tail
      rw [supports]
      split
      · simpa using hrow
      · rename_i below more heq
        rw [heq] at hmore
        intro marks hmarks
        rcases List.mem_cons.1 hmarks with rfl | hmarks
        · simp [length_raise, hrow, hmore below (by simp)]
        · exact hmore marks hmarks

theorem length_headD_supports (hrect : Rect width rows) (hne : rows ≠ []) :
    ((supports rows).headD []).length = width := by
  have hlen := length_mem_supports hrect
  cases hs : supports rows with
  | nil =>
      have hrows := length_supports rows
      rw [hs] at hrows
      exact absurd (List.length_eq_zero_iff.1 hrows.symm) hne
  | cons marks more => exact hlen marks (by simp [hs])

theorem Rect.take (hrect : Rect width rows) (n : Nat) : Rect width (rows.take n) :=
  fun row hrow => hrect row (List.mem_of_mem_take hrow)

@[simp] theorem grounded_cons_succ : grounded (f + 1) (row :: rows) (r + 1) c = grounded f rows r c := by
  simp only [grounded, List.take_succ_cons, supports]
  split
  · rename_i heq
    simp [heq]
  · rename_i heq
    simp [heq]

theorem grounded_foundation : grounded 0 (row :: rows) 0 c = (row[c]?.getD ' ' == '#') := by
  simp only [grounded, List.take_succ_cons, List.take_zero, supports]
  cases h : row[c]? with
  | none => simp [h]
  | some x => simp [h]

theorem supports_cons (row : Row) (hne : rows ≠ []) :
    supports (row :: rows) = raise row ((supports rows).headD []) :: supports rows := by
  have hlen := length_supports rows
  rw [supports]
  split
  · rename_i heq
    rw [heq] at hlen
    exact absurd (List.length_eq_zero_iff.1 hlen.symm) hne
  · rename_i heq
    simp [heq]

theorem grounded_zero : grounded f rows 0 c = ((supports (rows.take (f + 1))).headD [])[c]?.getD false := by
  unfold grounded
  cases supports (rows.take (f + 1)) <;> rfl

theorem raise_eq_true {marks : List Bool} :
    (raise row marks)[c]?.getD false = true ↔
      Text.isBlank (row[c]?.getD ' ') = false ∧ (spread false marks)[c]? = some true := by
  simp only [raise, List.getElem?_zipWith]
  cases row[c]? with
  | none => simp [Text.isBlank]
  | some x => cases (spread false marks)[c]? <;> simp

theorem grounded_cons_zero (hrect : Rect width (row :: rows)) (hne : rows ≠ []) :
    grounded (f + 1) (row :: rows) 0 c = true ↔
      Solid (row :: rows) 0 c ∧ ∃ d, d ≤ c + 1 ∧ c ≤ d + 1 ∧ grounded f rows 0 d = true := by
  have htake : rows.take (f + 1) ≠ [] := by simpa using hne
  simp only [grounded_zero, List.take_succ_cons, supports_cons row htake, List.headD_cons, raise_eq_true, Solid,
    cell_cons_zero]
  refine and_congr_right fun hsolid => ?_
  -- the marks of the next row are as many as its cells, so they reach as far as the character
  have hlen := length_headD_supports (hrect.tail.take (f + 1)) htake
  rw [spread_eq_true_iff (hlen ▸ (hrect.lt_of_solid (r := 0) hsolid).2)]
  simp only [Option.getD_eq_iff, Bool.false_eq_true, and_false, or_false]

theorem solid_of_grounded (hrect : Rect width rows) (hf : f < rows.length) (h : grounded f rows r c = true) :
    Solid rows r c := by
  induction rows generalizing f r with
  | nil => cases hf
  | cons row rows ih =>
      cases r with
      | zero =>
          cases f with
          | zero =>
              rw [grounded_foundation] at h
              simp only [Solid, cell_cons_zero, eq_of_beq h]
              rfl
          | succ f =>
              have hne : rows ≠ [] := List.ne_nil_of_length_pos (by simp at hf; omega)
              exact ((grounded_cons_zero hrect hne).1 h).1
      | succ r =>
          cases f with
          | zero => simp [grounded, supports] at h
          | succ f => exact ih hrect.tail (by simpa using hf) (by simpa using h)

theorem le_of_grounded (h : grounded f rows r c = true) : r ≤ f := by
  have hlen := length_supports (rows.take (f + 1))
  simp only [List.length_take] at hlen
  by_contra hlt
  simp [grounded, List.getElem?_eq_none (l := supports (rows.take (f + 1))) (i := r) (by omega)] at h

/-- Above the foundation, a character is grounded if one of the three cells below it is. -/
theorem grounded_iff (hrect : Rect width rows) (hf : f < rows.length) (hr : r < f) :
    grounded f rows r c = true ↔
      Solid rows r c ∧ ∃ d, d ≤ c + 1 ∧ c ≤ d + 1 ∧ grounded f rows (r + 1) d = true := by
  induction rows generalizing f r with
  | nil => cases hf
  | cons row rows ih =>
      obtain ⟨f, rfl⟩ : ∃ n, f = n + 1 := ⟨f - 1, by omega⟩
      have hf : f < rows.length := by simpa using hf
      simp only [grounded_cons_succ]
      cases r with
      | zero => exact grounded_cons_zero hrect (List.ne_nil_of_length_pos (by omega))
      | succ r => simpa using ih hrect.tail hf (by omega)

theorem grounded_at_foundation (hf : f < rows.length) : grounded f rows f c = (cell rows f c == '#') := by
  induction rows generalizing f with
  | nil => cases hf
  | cons row rows ih =>
      cases f with
      | zero => exact grounded_foundation
      | succ f => simpa using ih (by simpa using hf)

/-! ## More characters -/

/-- The second rows hold all characters of the first, at the same places. -/
def Fills (rows rows' : List Row) : Prop := ∀ r c, Solid rows r c → cell rows' r c = cell rows r c

theorem Fills.solid (h : Fills rows rows') (hs : Solid rows r c) : Solid rows' r c := by
  unfold Solid
  rw [h r c hs]
  exact hs

theorem grounded_mono {width' : Nat} (hrect : Rect width rows) (hrect' : Rect width' rows')
    (hlen : rows'.length = rows.length) (h : Fills rows rows') (hf : f < rows.length) (hg : grounded f rows r c = true) :
    grounded f rows' r c = true := by
  have hf' : f < rows'.length := hlen ▸ hf
  obtain ⟨k, rfl⟩ : ∃ k, f = r + k := ⟨f - r, by have := le_of_grounded hg; omega⟩
  -- downward, from the place to the foundation
  induction k generalizing r c with
  | zero =>
      have hsolid := solid_of_grounded hrect hf hg
      simp only [Nat.add_zero] at hf hf' hg ⊢
      rw [grounded_at_foundation hf']
      rw [grounded_at_foundation hf] at hg
      rwa [h _ _ hsolid]
  | succ k ih =>
      obtain ⟨hsolid, d, hdc, hcd, hd⟩ := (grounded_iff hrect hf (by omega)).1 hg
      rw [show r + (k + 1) = r + 1 + k by omega] at hf hf' hd ⊢
      exact (grounded_iff hrect' hf' (by omega)).2 ⟨h.solid hsolid, d, hdc, hcd, ih hf hd hf'⟩

end Cairn.Grid
