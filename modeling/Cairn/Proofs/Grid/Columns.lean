import Cairn.Proofs.Grid.Settled
import Mathlib.Algebra.BigOperators.Group.Finset.Basic

/-!
# Columns

A column is the list of its characters with their rows, top to bottom. A visit of a row takes the top of a
column out of it or puts it down right above the next character, so a sweep keeps the order of every column,
loses characters only at its lower end and moves none of them up. Settling reports what it moved and dropped.
-/

namespace Cairn.Grid

open Finset (range)

variable {width f r c d : Nat} {row : Row} {rows rows' below above ground : List Row}

/-- The characters of a column and their rows, top to bottom. -/
def column (rows : List Row) (c : Nat) : List (Nat × Char) :=
  (List.range rows.length).filterMap fun r =>
    if Text.isBlank (cell rows r c) then none else some (r, cell rows r c)

/-- The same characters one row further down. -/
def lower (col : List (Nat × Char)) : List (Nat × Char) := col.map fun p => (p.1 + 1, p.2)

theorem column_cons :
    column (row :: rows) c =
      ([(0, cell (row :: rows) 0 c)].filter fun p => !Text.isBlank p.2) ++ lower (column rows c) := by
  have htail : (List.range rows.length).filterMap
      ((fun r => if Text.isBlank (cell (row :: rows) r c) then none else some (r, cell (row :: rows) r c)) ∘ Nat.succ)
      = lower (column rows c) := by
    rw [lower, column, List.map_filterMap]
    refine List.filterMap_congr fun r _ => ?_
    rw [Function.comp_apply, cell_cons_succ]
    cases Text.isBlank (cell rows r c) <;> rfl
  rw [column, List.length_cons, List.range_succ_eq_map, List.filterMap_cons, List.filterMap_map, htail,
    List.filter_cons]
  cases Text.isBlank (cell (row :: rows) 0 c) <;> rfl

theorem column_cons_of_blank (h : ¬ Solid (row :: rows) 0 c) : column (row :: rows) c = lower (column rows c) := by
  rw [Solid, Bool.not_eq_false] at h
  rw [column_cons, List.filter_cons, h]
  rfl

theorem column_cons_of_solid (h : Solid (row :: rows) 0 c) :
    column (row :: rows) c = (0, cell (row :: rows) 0 c) :: lower (column rows c) := by
  rw [column_cons, List.filter_cons, show Text.isBlank (cell (row :: rows) 0 c) = false from h]
  rfl

theorem column_congr (hlen : rows.length = rows'.length) (h : ∀ r, cell rows r c = cell rows' r c) :
    column rows c = column rows' c := by
  simp only [column, hlen, h]

theorem mem_column {x : Char} :
    x ∈ (column rows c).map Prod.snd ↔ ∃ r, Solid rows r c ∧ cell rows r c = x := by
  simp only [column, List.mem_map, List.mem_filterMap, List.mem_range, Option.ite_none_left_eq_some, Option.some.injEq]
  constructor
  · rintro ⟨p, ⟨r, -, hs, rfl⟩, rfl⟩
    exact ⟨r, by simpa [Solid] using hs, rfl⟩
  · rintro ⟨r, hs, rfl⟩
    refine ⟨(r, cell rows r c), ⟨r, ?_, by simpa [Solid] using hs, rfl⟩, rfl⟩
    by_contra hr
    simp [Solid, cell, List.getElem?_eq_none (Nat.le_of_not_lt hr), Text.isBlank] at hs

theorem column_eq_nil (h : ∀ r, ¬ Solid rows r c) : column rows c = [] := by
  refine List.filterMap_eq_nil_iff.2 fun r _ => ?_
  have hb : Text.isBlank (cell rows r c) = true := by simpa [Solid] using h r
  rw [if_pos hb]

/-! ## One visit -/

theorem not_solid_of_gap (h : gap rows c = none) : ¬ Solid rows r c := by
  intro hs
  rw [gap, List.findIdx?_eq_none_iff] at h
  cases hr : rows[r]? with
  | none => simp [Solid, cell, hr, Text.isBlank] at hs
  | some row =>
      have hb := h row (List.mem_of_getElem? hr)
      simp only [Solid, cell, hr, Option.bind_some] at hs
      simp [hs] at hb

/-- A character put into a column above all others is its new top. -/
theorem column_of_landing {x : Char} (hlen : rows'.length = rows.length) (hd : d < rows.length)
    (hother : ∀ r, r ≠ d → cell rows' r c = cell rows r c) (hx : cell rows' d c = x) (hs : Text.isBlank x = false)
    (hfree : ∀ r, r ≤ d → ¬ Solid rows r c) : column rows' c = (d, x) :: column rows c := by
  induction d generalizing rows rows' with
  | zero =>
      obtain ⟨row, rows, rfl⟩ := List.exists_cons_of_length_pos hd
      obtain ⟨row', rows', rfl⟩ := List.exists_cons_of_length_pos (hlen ▸ hd)
      have hs' : Solid (row' :: rows') 0 c := by rw [Solid, hx, hs]
      rw [column_cons_of_solid hs', column_cons_of_blank (hfree 0 (Nat.le_refl 0)), hx,
        column_congr (Nat.succ.inj hlen) fun r => hother (r + 1) (Nat.succ_ne_zero r)]
  | succ d ih =>
      obtain ⟨row, rows, rfl⟩ := List.exists_cons_of_length_pos (Nat.zero_lt_of_lt hd)
      obtain ⟨row', rows', rfl⟩ := List.exists_cons_of_length_pos (hlen ▸ Nat.zero_lt_of_lt hd)
      have hb := hfree 0 (Nat.zero_le _)
      have hb' : ¬ Solid (row' :: rows') 0 c := by rwa [Solid, hother 0 (Nat.succ_ne_zero d).symm]
      have htail : column rows' c = (d, x) :: column rows c :=
        ih (by simpa using hlen) (by simpa using hd) (fun r hr => hother (r + 1) (by omega)) hx
          fun r hr => hfree (r + 1) (by omega)
      rw [column_cons_of_blank hb', column_cons_of_blank hb, htail]
      rfl

theorem gap_of_vanishes (h : fateAt f row below c = .vanishes) : gap below c = none := by
  unfold fateAt fate at h
  split at h
  · cases h
  · split at h <;> simp_all

theorem gap_of_lands {x : Char} (h : fateAt f row below c = .lands x d) :
    cell (row :: below) 0 c = x ∧ gap below c = some (d + 1) := by
  unfold fateAt fate at h
  split at h
  · cases h
  · split at h <;> simp_all

section

variable (hrect : Rect width (row :: below)) (hc : c < width)

include hrect hc

theorem column_visit_of_stays (h : fateAt f row below c = .stays) :
    column (visit width f row below) c = column (row :: below) c := by
  refine column_congr (by simp [visit]) fun r => ?_
  cases r with
  | zero => rw [cell_visit_zero hrect hc, h]; rfl
  | succ r =>
      rw [visit, cell_cons_succ, cell_cons_succ]
      by_cases hr : r < below.length
      · rw [cell_landed hrect hr hc, h]; rfl
      · simp [cell, landed, List.getElem?_eq_none (Nat.le_of_not_lt hr)]

theorem column_visit_of_vanishes (h : fateAt f row below c = .vanishes) :
    column below c = [] ∧ column (visit width f row below) c = [] := by
  have hfree {r} : ¬ Solid below r c := not_solid_of_gap (gap_of_vanishes h)
  refine ⟨column_eq_nil fun r => hfree, column_eq_nil fun r => ?_⟩
  cases r with
  | zero => simp [Solid, cell_visit_zero hrect hc, h, Fate.remaining, Text.isBlank]
  | succ r =>
      intro hs
      rcases solid_landed hrect hs with hs | hs
      · exact hfree hs
      · exact hfree hs

theorem column_visit_of_lands {x : Char} (hs : Solid (row :: below) 0 c) (h : fateAt f row below c = .lands x d) :
    column (visit width f row below) c = (d + 1, x) :: lower (column below c) := by
  obtain ⟨hx, hgap⟩ := gap_of_lands h
  have hlt := (hrect.tail.lt_of_solid (solid_of_gap hgap)).1
  have hblank : ¬ Solid (visit width f row below) 0 c := by
    simp [Solid, cell_visit_zero hrect hc, h, Fate.remaining, Text.isBlank]
  have harrived : column (landed (fatesOver width f row below) below) c = (d, x) :: column below c := by
    refine column_of_landing length_landed (by omega) (fun r hr => ?_) ?_ (hx ▸ hs) fun r hr hs' => ?_
    · by_cases hlt : r < below.length
      · rw [cell_landed hrect hlt hc, h, Fate.arriving, if_neg hr.symm]
      · simp [cell, landed, List.getElem?_eq_none (Nat.le_of_not_lt hlt)]
    · rw [cell_landed hrect (by omega) hc, h, Fate.arriving, if_pos rfl]
    · have hle := gap_le hgap hs'
      omega
  rw [visit] at hblank ⊢
  rw [column_cons_of_blank hblank, harrived]
  rfl

end

/-! ## One column through a fall -/

/-- `after` is what a fall left of `before`: its upper characters, none of them higher than it was. -/
structure Fell (before after : List (Nat × Char)) : Prop where
  order : after.map Prod.snd <+: before.map Prod.snd
  downward : ∀ p ∈ before.zip after, p.1.1 ≤ p.2.1

/-- How many of the characters that are left have another row than before. -/
def shifted (before after : List (Nat × Char)) : Nat := (before.zip after).countP fun p => p.1.1 ≠ p.2.1

/-- How many characters are gone. -/
def lost (before after : List (Nat × Char)) : Nat := before.length - after.length

variable {p q : List (Nat × Char)}

theorem eq_of_mem_zip_self {pair : (Nat × Char) × (Nat × Char)} (h : pair ∈ p.zip p) : pair.1 = pair.2 := by
  obtain ⟨i, hi, rfl⟩ := List.getElem_of_mem h
  simp

theorem Fell.refl (p : List (Nat × Char)) : Fell p p :=
  ⟨List.prefix_rfl, fun _ hpair => by rw [eq_of_mem_zip_self hpair]⟩

@[simp] theorem shifted_self : shifted p p = 0 := by
  rw [shifted, List.countP_eq_zero]
  intro pair hpair
  simp [eq_of_mem_zip_self hpair]

@[simp] theorem lost_self : lost p p = 0 := Nat.sub_self _

theorem Fell.lower (h : Fell p q) : Fell (lower p) (lower q) := by
  refine ⟨by simpa [Grid.lower, Function.comp_def] using h.order, fun pair hpair => ?_⟩
  rw [Grid.lower, Grid.lower, List.zip_map, List.mem_map] at hpair
  obtain ⟨a, ha, rfl⟩ := hpair
  exact Nat.succ_le_succ (h.downward a ha)

theorem Fell.cons {i j : Nat} (h : Fell p q) (hij : i ≤ j) (x : Char) : Fell ((i, x) :: p) ((j, x) :: q) := by
  refine ⟨by simpa using h.order, fun pair hpair => ?_⟩
  rw [List.zip_cons_cons, List.mem_cons] at hpair
  rcases hpair with rfl | hpair
  · exact hij
  · exact h.downward pair hpair

theorem Fell.vanished (p : List (Nat × Char)) : Fell p [] := ⟨List.nil_prefix, by simp⟩

@[simp] theorem shifted_lower : shifted (lower p) (lower q) = shifted p q := by
  simp only [shifted, lower, List.zip_map, List.countP_map]
  refine List.countP_congr fun a _ => ?_
  simp

@[simp] theorem lost_lower : lost (lower p) (lower q) = lost p q := by
  simp [lost, lower]

theorem shifted_cons {i j : Nat} {x y : Char} :
    shifted ((i, x) :: p) ((j, y) :: q) = shifted p q + if i ≠ j then 1 else 0 := by
  simp [shifted, List.countP_cons]

@[simp] theorem lost_cons {a b : Nat × Char} : lost (a :: p) (b :: q) = lost p q := by
  simp [lost]

/-- One more row over a column that has fallen: the column falls on, and the fate of its new top is counted. -/
theorem Fell.visit (hrect : Rect width (row :: below)) (hc : c < width) (h : Fell (column rows c) (column below c)) :
    Fell (column (row :: rows) c) (column (visit width f row below) c) ∧
    shifted (column (row :: rows) c) (column (visit width f row below) c) =
      shifted (column rows c) (column below c) + (if fateAt f row below c matches .lands _ _ then 1 else 0) ∧
    lost (column (row :: rows) c) (column (visit width f row below) c) =
      lost (column rows c) (column below c) + (if fateAt f row below c matches .vanishes then 1 else 0) := by
  by_cases hs : Solid (row :: below) 0 c
  · have hs' : Solid (row :: rows) 0 c := hs
    rw [column_cons_of_solid hs']
    cases hfate : fateAt f row below c with
    | stays =>
        rw [column_visit_of_stays hrect hc hfate, column_cons_of_solid hs]
        exact ⟨h.lower.cons (Nat.le_refl 0) _, by simp [shifted_cons], by simp⟩
    | vanishes =>
        obtain ⟨hbelow, hvisit⟩ := column_visit_of_vanishes hrect hc hfate
        rw [hvisit, hbelow]
        exact ⟨.vanished _, by simp [shifted], by simp [lost, Grid.lower]⟩
    | lands x d =>
        rw [column_visit_of_lands hrect hc hs hfate, show cell (row :: rows) 0 c = x from (gap_of_lands hfate).1]
        exact ⟨h.lower.cons (Nat.zero_le _) _, by simp [shifted_cons], by simp⟩
  · have hs' : ¬ Solid (row :: rows) 0 c := hs
    have hfate : fateAt f row below c = .stays := fateAt_eq_stays_iff.2 fun h => absurd h hs
    rw [column_visit_of_stays hrect hc hfate, column_cons_of_blank hs, column_cons_of_blank hs', hfate]
    exact ⟨h.lower, by simp, by simp⟩

/-! ## A whole sweep -/

theorem countP_fatesOver (hrect : Rect width (row :: below)) (p : Fate → Bool) :
    (fatesOver width f row below).countP p = ∑ c ∈ range width, if p (fateAt f row below c) then 1 else 0 := by
  have hfates : fatesOver width f row below = (List.range width).map (fateAt f row below) := by
    refine List.ext_getElem (by simp [length_fatesOver hrect]) fun c hc hc' => ?_
    have hget := fatesOver_eq (f := f) hrect (length_fatesOver (f := f) hrect ▸ hc)
    rw [List.getElem?_eq_getElem hc] at hget
    rw [Option.some.inj hget]
    simp
  rw [hfates, List.countP_map]
  clear hfates hrect
  induction width with
  | zero => rfl
  | succ n ih =>
      rw [List.range_succ, List.countP_append, List.countP_singleton, Finset.sum_range_succ, ih]
      rfl

section

variable (hne : ground ≠ [])

include hne

theorem Rect.over_sweep (hrect : Rect width (row :: above ++ ground)) :
    Rect width (row :: (sweep width ground above).1) :=
  .cons hrect.head (sweep_rested hrect.tail hne).1

theorem sweep_columns (hrect : Rect width (above ++ ground)) :
    (∀ c < width, Fell (column (above ++ ground) c) (column (sweep width ground above).1 c)) ∧
    (sweep width ground above).2.moved =
      ∑ c ∈ range width, shifted (column (above ++ ground) c) (column (sweep width ground above).1 c) ∧
    (sweep width ground above).2.dropped =
      ∑ c ∈ range width, lost (column (above ++ ground) c) (column (sweep width ground above).1 c) := by
  induction above with
  | nil => simp [sweep, Fell.refl]
  | cons row above ih =>
      obtain ⟨hfell, hmoved, hdropped⟩ := ih hrect.tail
      have hover := hrect.over_sweep hne
      have hvisit c (hc : c < width) := (hfell c hc).visit (f := above.length + 1) hover hc
      rw [sweep_cons, List.cons_append]
      refine ⟨fun c hc => (hvisit c hc).1, ?_, ?_⟩
      · rw [Finset.sum_congr rfl fun c hc => (hvisit c (Finset.mem_range.1 hc)).2.1, Finset.sum_add_distrib, ← hmoved]
        exact congrArg (_ + ·) (countP_fatesOver hover fun fate => fate matches .lands _ _)
      · rw [Finset.sum_congr rfl fun c hc => (hvisit c (Finset.mem_range.1 hc)).2.2, Finset.sum_add_distrib, ← hdropped]
        exact congrArg (_ + ·) (countP_fatesOver hover fun fate => fate matches .vanishes)

/-- The rows from the foundation down keep their characters. -/
theorem cell_sweep_of_ground (hrect : Rect width (above ++ ground)) (hs : Solid ground r c) :
    cell (sweep width ground above).1 (above.length + r) c = cell ground r c := by
  induction above with
  | nil => rw [List.length_nil, Nat.zero_add]; rfl
  | cons row above ih =>
      have hkept := ih hrect.tail
      have hs' : Solid (sweep width ground above).1 (above.length + r) c := by rwa [Solid, hkept]
      rw [sweep_cons, List.length_cons, Nat.add_right_comm, visit, cell_cons_succ,
        fills_landed (hrect.over_sweep hne) _ _ hs', hkept]

/-- A column with a character from the foundation down loses nothing: there is always something to land on. -/
theorem lost_eq_zero_of_ground (hrect : Rect width (above ++ ground)) (hs : Solid ground r c) :
    lost (column (above ++ ground) c) (column (sweep width ground above).1 c) = 0 := by
  induction above with
  | nil => exact lost_self
  | cons row above ih =>
      have hc : c < width := (Rect.lt_of_solid (fun row hrow => hrect row (List.mem_append_right _ hrow)) hs).2
      have hfate : fateAt (above.length + 1) row (sweep width ground above).1 c ≠ .vanishes := by
        intro h
        refine not_solid_of_gap (r := above.length + r) (gap_of_vanishes h) ?_
        rwa [Solid, cell_sweep_of_ground hne hrect.tail hs]
      have hvisit := ((sweep_columns hne hrect.tail).1 c hc).visit (f := above.length + 1) (hrect.over_sweep hne) hc
      rw [sweep_cons, List.cons_append, hvisit.2.2, ih hrect.tail]
      cases h : fateAt (above.length + 1) row (sweep width ground above).1 c with
      | stays => rfl
      | lands x d => rfl
      | vanishes => exact absurd h hfate

end

/-! ## Settling -/

theorem column_of_width_le (hrect : Rect width rows) (hc : width ≤ c) : column rows c = [] :=
  column_eq_nil fun _ hs => absurd (hrect.lt_of_solid hs).2 (Nat.not_lt.2 hc)

theorem solid_drop : Solid (rows.drop f) r c ↔ Solid rows (f + r) c := by
  simp only [Solid, cell, List.getElem?_drop]

namespace Shaped

variable {g : Grid} (h : g.Shaped f)

include h

theorem fell (c : Nat) : Fell (column g.rows c) (column (swept f g).rows c) := by
  by_cases hc : c < g.width
  · have hfell := (sweep_columns h.split.2.1 h.split.1).1 c hc
    rwa [List.take_append_drop] at hfell
  · rw [column_of_width_le h.rect (Nat.le_of_not_lt hc)]
    rw [column_of_width_le h.swept_rested.1.rect (Nat.le_of_not_lt hc)]
    exact .refl []

theorem stir_eq :
    (stir f g).moved = ∑ c ∈ range g.width, shifted (column g.rows c) (column (swept f g).rows c) ∧
    (stir f g).dropped = ∑ c ∈ range g.width, lost (column g.rows c) (column (swept f g).rows c) := by
  have hcounts := (sweep_columns h.split.2.1 h.split.1).2
  rwa [List.take_append_drop] at hcounts

theorem cell_swept (hr : f ≤ r) (hs : Solid g.rows r c) : cell (swept f g).rows r c = cell g.rows r c := by
  obtain ⟨k, rfl⟩ := Nat.exists_eq_add_of_le hr
  have hkept := cell_sweep_of_ground h.split.2.1 h.split.1 (solid_drop.2 hs)
  rw [h.split.2.2] at hkept
  rw [swept, hkept]
  simp only [cell, List.getElem?_drop]

theorem lost_eq_zero (hr : f ≤ r) (hs : Solid g.rows r c) :
    lost (column g.rows c) (column (swept f g).rows c) = 0 := by
  obtain ⟨k, rfl⟩ := Nat.exists_eq_add_of_le hr
  have hlost := lost_eq_zero_of_ground h.split.2.1 h.split.1 (solid_drop.2 hs)
  rwa [List.take_append_drop] at hlost

theorem report_eq : g.settle.2.moved = (stir f g).moved ∧ g.settle.2.dropped = (stir f g).dropped := by
  rw [h.settle_eq]
  split
  · rename_i hm
    exact ⟨hm.1.symm, hm.2.symm⟩
  · exact ⟨rfl, rfl⟩

end Shaped

/-- Settling keeps the order of every column and loses characters at its lower end only, none where one stands
on the foundation or below it; no character rises, and those from the foundation down stay. The report counts
the characters that are gone and those that have another row. -/
theorem settle_conserves (text : List Char) (f : Nat) (hf : (ofText text).foundation = some f) :
    (∀ c, (column (ofText text).settle.1.rows c).map Prod.snd <+: (column (ofText text).rows c).map Prod.snd) ∧
    (∀ c, (∃ r, f ≤ r ∧ Text.isBlank ((ofText text).get r c) = false) →
      (column (ofText text).settle.1.rows c).map Prod.snd = (column (ofText text).rows c).map Prod.snd) ∧
    (∀ r c, f ≤ r → Text.isBlank ((ofText text).get r c) = false →
      (ofText text).settle.1.get r c = (ofText text).get r c) ∧
    (∀ c, ∀ p ∈ (column (ofText text).rows c).zip (column (ofText text).settle.1.rows c), p.1.1 ≤ p.2.1) ∧
    (ofText text).settle.2.dropped =
      ∑ c ∈ range (ofText text).width, lost (column (ofText text).rows c) (column (ofText text).settle.1.rows c) ∧
    (ofText text).settle.2.moved =
      ∑ c ∈ range (ofText text).width, shifted (column (ofText text).rows c) (column (ofText text).settle.1.rows c) := by
  have h := shaped_ofText hf
  obtain ⟨hmoved, hdropped⟩ := h.report_eq
  rw [hmoved, hdropped, show (ofText text).settle.1 = swept f (ofText text) by rw [h.settle_eq]]
  refine ⟨fun c => (h.fell c).order, ?_, fun r c hr hs => h.cell_swept hr hs, fun c => (h.fell c).downward,
    h.stir_eq.2, h.stir_eq.1⟩
  rintro c ⟨r, hr, hs⟩
  have hlen := h.lost_eq_zero hr hs
  exact (h.fell c).order.eq_of_length_le (by simpa [lost, Nat.sub_eq_zero_iff_le] using hlen)

/-- Two stacked characters fall together and keep their order; a third one falls out. -/
theorem settle_conserves_stack :
    (ofText ['a', ' ', 'z', '\n', 'b', '\n', '\n', '#']).foundation = some 3 ∧
    (ofText ['a', ' ', 'z', '\n', 'b', '\n', '\n', '#']).settle.2 = ⟨2, 2, 1⟩ ∧
    (column (ofText ['a', ' ', 'z', '\n', 'b', '\n', '\n', '#']).settle.1.rows 0).map Prod.snd = ['a', 'b', '#'] := by
  have hf : (ofText ['a', ' ', 'z', '\n', 'b', '\n', '\n', '#']).foundation = some 3 := by decide
  refine ⟨hf, by decide, ?_⟩
  rw [(settle_conserves _ 3 hf).2.1 0 ⟨3, by decide, by decide⟩]
  decide

end Cairn.Grid
