import Cairn.Proofs.Grid.Cells

/-!
# One sweep

What a visit of one row does to every cell, and what a sweep leaves behind: every character above the
foundation is grounded or has a character right below it. A sweep over rows of which this holds changes
nothing.
-/

namespace Cairn.Grid

variable {width f r c d : Nat} {row : Row} {rows below above ground : List Row}

/-! ## The fates of a row -/

/-- The first character of a column, counted from the top. -/
def gap (rows : List Row) (c : Nat) : Option Nat := rows.findIdx? fun row => !Text.isBlank (row[c]?.getD ' ')

theorem surface_eq (hrect : Rect width rows) (hc : c < width) : (surface width rows)[c]? = some (gap rows c) := by
  induction rows with
  | nil => simp [surface, gap, hc]
  | cons row rows ih =>
      have hrow : c < row.length := hrect.head ▸ hc
      simp only [surface, List.getElem?_zipWith, ih hrect.tail, gap, List.findIdx?_cons,
        List.getElem?_eq_getElem hrow, Option.getD_some]
      cases Text.isBlank row[c] <;> simp

theorem solid_of_gap (h : gap rows c = some d) : Solid rows d c := by
  induction rows generalizing d with
  | nil => simp [gap] at h
  | cons row rows ih =>
      simp only [gap, List.findIdx?_cons] at h
      split at h
      · rename_i hs
        cases h
        simpa [Solid] using hs
      · obtain ⟨e, he, rfl⟩ := Option.map_eq_some_iff.1 h
        exact ih he

theorem gap_le (h : gap rows c = some d) (hs : Solid rows r c) : d ≤ r := by
  induction rows generalizing d r with
  | nil => simp [gap] at h
  | cons row rows ih =>
      simp only [gap, List.findIdx?_cons] at h
      split at h
      · cases h
        exact Nat.zero_le r
      · rename_i hs'
        obtain ⟨e, he, rfl⟩ := Option.map_eq_some_iff.1 h
        cases r with
        | zero =>
            simp only [Solid, cell_cons_zero] at hs
            simp [hs] at hs'
        | succ r => exact Nat.succ_le_succ (ih he hs)

theorem gap_zero (h : Solid rows 0 c) : gap rows c = some 0 := by
  cases rows with
  | nil => simp [Solid, cell, Text.isBlank] at h
  | cons row rows =>
      simp only [Solid, cell_cons_zero] at h
      simp [gap, List.findIdx?_cons, h]

/-- The fate of one column of `row` over `below`, the foundation being `f` rows further down than `row`. -/
def fateAt (f : Nat) (row : Row) (below : List Row) (c : Nat) : Fate :=
  fate (cell (row :: below) 0 c) (grounded f (row :: below) 0 c) (gap below c)

def fatesOver (width f : Nat) (row : Row) (below : List Row) : List Fate :=
  fates row ((supports (row :: below.take f)).headD []) (surface width below)

section

variable (hrect : Rect width (row :: below))

include hrect

theorem length_marks : ((supports (row :: below.take f)).headD []).length = width :=
  length_headD_supports (hrect.take (f + 1)) (List.cons_ne_nil _ _)

theorem length_fatesOver : (fatesOver width f row below).length = width := by
  simp only [fatesOver, fates, List.length_zipWith, List.length_zip, length_marks hrect, hrect.head,
    length_surface width below hrect.tail, Nat.min_self]

theorem fatesOver_eq (hc : c < width) : (fatesOver width f row below)[c]? = some (fateAt f row below c) := by
  have hrow : c < row.length := hrect.head ▸ hc
  have hmarks : c < ((supports (row :: below.take f)).headD []).length := length_marks (f := f) hrect ▸ hc
  simp only [fatesOver, fates, fateAt, List.zip, List.getElem?_zipWith, surface_eq hrect.tail hc, grounded_zero,
    List.take_succ_cons, cell_cons_zero, List.getElem?_eq_getElem hrow, List.getElem?_eq_getElem hmarks,
    Option.getD_some]

end

theorem fateAt_eq_stays_iff :
    fateAt f row below c = .stays ↔
      (Solid (row :: below) 0 c → grounded f (row :: below) 0 c = true ∨ Solid below 0 c) := by
  have hgap : Solid below 0 c ↔ gap below c = some 0 := ⟨gap_zero, solid_of_gap⟩
  rw [hgap]
  unfold fateAt fate Solid
  cases Text.isBlank (cell (row :: below) 0 c) <;> cases grounded f (row :: below) 0 c
  · cases gap below c with
    | none => simp
    | some d => cases d <;> simp
  · simp
  · simp
  · simp

/-- A character lands on another one, and nothing was in its way. -/
theorem solid_of_lands {x : Char} (h : fateAt f row below c = .lands x d) :
    Solid below (d + 1) c ∧ ¬ Solid below d c := by
  have hgap : gap below c = some (d + 1) := by
    unfold fateAt fate at h
    split at h
    · cases h
    · cases hg : gap below c with
      | none => simp [hg] at h
      | some e => cases e <;> simp_all
  refine ⟨solid_of_gap hgap, fun hs => ?_⟩
  have hle := gap_le hgap hs
  omega

/-! ## The visit of a row -/

/-- What a fate leaves of a cell. -/
def Fate.remaining (old : Char) : Fate → Char
  | .stays => old
  | _ => ' '

/-- What a fate makes of the cell `depth` rows below. -/
def Fate.arriving (depth : Nat) (old : Char) : Fate → Char
  | .lands x d => if d = depth then x else old
  | _ => old

/-- The rows below after the characters of a row have met their fates. -/
def landed (fates : List Fate) (below : List Row) : List Row :=
  below.mapIdx fun depth r => arrive fates r depth

def visit (width f : Nat) (row : Row) (below : List Row) : List Row :=
  depart (fatesOver width f row below) row :: landed (fatesOver width f row below) below

theorem sweep_cons (width : Nat) (ground : List Row) (row : Row) (above : List Row) :
    sweep width ground (row :: above) =
      (visit width (above.length + 1) row (sweep width ground above).1,
        (sweep width ground above).2.add
          (fatesOver width (above.length + 1) row (sweep width ground above).1)) := rfl

@[simp] theorem length_landed {fates : List Fate} : (landed fates below).length = below.length := by
  simp [landed]

section

variable (hrect : Rect width (row :: below))

include hrect

theorem Rect.visit : Rect width (visit width f row below) := by
  have hlen := length_fatesOver (f := f) hrect
  refine .cons (by simp [depart, hlen, hrect.head]) fun row' hrow => ?_
  obtain ⟨i, hi, rfl⟩ := List.mem_mapIdx.1 hrow
  simp [arrive, hlen, hrect.tail _ (List.getElem_mem hi)]

theorem cell_visit_zero (hc : c < width) :
    cell (visit width f row below) 0 c = (fateAt f row below c).remaining (cell (row :: below) 0 c) := by
  simp only [Grid.visit, cell_cons_zero, depart, List.getElem?_zipWith, fatesOver_eq hrect hc]
  cases row[c]? <;> cases fateAt f row below c <;> rfl

theorem cell_landed (hd : d < below.length) (hc : c < width) :
    cell (landed (fatesOver width f row below) below) d c = (fateAt f row below c).arriving d (cell below d c) := by
  have hlt : c < below[d].length := by rw [hrect.tail _ (List.getElem_mem hd)]; exact hc
  simp only [landed, cell, List.getElem?_mapIdx, List.getElem?_eq_getElem hd, Option.map_some, Option.bind_some,
    arrive, List.getElem?_zipWith, fatesOver_eq hrect hc, List.getElem?_eq_getElem hlt, Option.getD_some]
  cases fateAt f row below c <;> rfl

/-! ## What one visit leaves -/

/-- A character lands on blanks only. -/
theorem fills_landed : Fills below (landed (fatesOver width f row below) below) := by
  intro d c hs
  obtain ⟨hd, hc⟩ := hrect.tail.lt_of_solid hs
  rw [cell_landed hrect hd hc]
  cases hfate : fateAt f row below c with
  | stays => rfl
  | vanishes => rfl
  | lands x e =>
      have hne : e ≠ d := by
        rintro rfl
        exact (solid_of_lands hfate).2 hs
      simp only [Fate.arriving, if_neg hne]

/-- Where a character has landed, there is one below it. -/
theorem solid_landed (hs : Solid (landed (fatesOver width f row below) below) d c) :
    Solid below d c ∨ Solid below (d + 1) c := by
  obtain ⟨hd, hc⟩ := (hrect.visit (f := f)).tail.lt_of_solid hs
  rw [length_landed] at hd
  unfold Solid at hs
  rw [cell_landed hrect hd hc] at hs
  cases hfate : fateAt f row below c with
  | stays => rw [hfate] at hs; exact .inl hs
  | vanishes => rw [hfate] at hs; exact .inl hs
  | lands x e =>
      rw [hfate] at hs
      simp only [Fate.arriving] at hs
      split at hs
      · rename_i he
        exact .inr (he ▸ (solid_of_lands hfate).1)
      · exact .inl hs

/-- What is left of a row is grounded or has a character right below it. -/
theorem solid_visit_zero (hs : Solid (visit width f row below) 0 c) :
    grounded f (row :: below) 0 c = true ∨ Solid below 0 c := by
  have hc := (hrect.visit.lt_of_solid hs).2
  unfold Solid at hs
  rw [cell_visit_zero hrect hc] at hs
  cases hfate : fateAt f row below c with
  | stays => rw [hfate] at hs; exact fateAt_eq_stays_iff.1 hfate hs
  | vanishes => rw [hfate] at hs; simp [Fate.remaining, Text.isBlank] at hs
  | lands x e => rw [hfate] at hs; simp [Fate.remaining, Text.isBlank] at hs

end

/-! ## What a whole sweep leaves -/

/-- Every character above the foundation is grounded or has a character right below it. -/
def Rested (f : Nat) (rows : List Row) : Prop :=
  ∀ r c, r < f → Solid rows r c → grounded f rows r c = true ∨ Solid rows (r + 1) c

theorem Rested.tail (h : Rested (f + 1) (row :: rows)) : Rested f rows := by
  intro r c hr hs
  simpa using h (r + 1) c (by omega) hs

theorem Rested.visit (hrect : Rect width (row :: below)) (hf : f < below.length) (h : Rested f below) :
    Rested (f + 1) (visit width (f + 1) row below) := by
  have hfills := fills_landed (f := f + 1) hrect
  have hvisit := hrect.visit (f := f + 1)
  have hmono {r c} (hg : grounded f below r c = true) :=
    grounded_mono hrect.tail hvisit.tail length_landed hfills hf hg
  intro r c hr hs
  cases r with
  | zero =>
      have hne : below ≠ [] := List.ne_nil_of_length_pos (by omega)
      have hne' : landed (fatesOver width (f + 1) row below) below ≠ [] := by simpa [landed] using hne
      rcases solid_visit_zero hrect hs with hg | hbelow
      · obtain ⟨-, d, hdc, hcd, hd⟩ := (grounded_cons_zero hrect hne).1 hg
        exact .inl ((grounded_cons_zero hvisit hne').2 ⟨hs, d, hdc, hcd, hmono hd⟩)
      · exact .inr (hfills.solid hbelow)
  | succ r =>
      rw [Grid.visit, grounded_cons_succ]
      rcases solid_landed hrect hs with hold | hnext
      · rcases h r c (by omega) hold with hg | hnext
        · exact .inl (hmono hg)
        · exact .inr (hfills.solid hnext)
      · exact .inr (hfills.solid hnext)

theorem sweep_rested (hrect : Rect width (above ++ ground)) (hne : ground ≠ []) :
    Rect width (sweep width ground above).1 ∧
      (sweep width ground above).1.length = above.length + ground.length ∧
      Rested above.length (sweep width ground above).1 := by
  induction above with
  | nil => exact ⟨hrect, by simp [sweep], fun r c hr => absurd hr (Nat.not_lt_zero r)⟩
  | cons row above ih =>
      obtain ⟨hbelow, hlen, hrested⟩ := ih hrect.tail
      have hground := List.length_pos_iff.2 hne
      have hrect' : Rect width (row :: (sweep width ground above).1) := .cons hrect.head hbelow
      rw [sweep_cons]
      refine ⟨hrect'.visit, ?_, hrested.visit hrect' (by omega)⟩
      simp [visit, hlen]; omega

/-! ## Sweeps that change nothing -/

def Still (fates : List Fate) : Prop := ∀ fate ∈ fates, fate = .stays

theorem add_eq_zero_iff {fates : List Fate} {moves : Moves} :
    (moves.add fates).moved = 0 ∧ (moves.add fates).dropped = 0 ↔
      (moves.moved = 0 ∧ moves.dropped = 0) ∧ Still fates := by
  simp only [Moves.add, Nat.add_eq_zero_iff, List.countP_eq_zero, Still]
  constructor
  · rintro ⟨⟨hm, hlands⟩, hd, hvanishes⟩
    refine ⟨⟨hm, hd⟩, fun fate hfate => ?_⟩
    cases fate with
    | stays => rfl
    | lands x d => exact absurd rfl (hlands _ hfate)
    | vanishes => exact absurd rfl (hvanishes _ hfate)
  · rintro ⟨⟨hm, hd⟩, hstill⟩
    refine ⟨⟨hm, fun fate hfate => ?_⟩, hd, fun fate hfate => ?_⟩
    · rw [hstill fate hfate]; simp
    · rw [hstill fate hfate]; simp

theorem add_of_still {fates : List Fate} {moves : Moves} (h : Still fates) : moves.add fates = moves := by
  have hzero : (({} : Moves).add fates).moved = 0 ∧ (({} : Moves).add fates).dropped = 0 :=
    add_eq_zero_iff.2 ⟨⟨rfl, rfl⟩, h⟩
  simp only [Moves.add, Nat.zero_add] at hzero ⊢
  simp [hzero.1, hzero.2]

section

variable (hrect : Rect width (row :: below))

include hrect

theorem visit_of_still (h : Still (fatesOver width f row below)) : visit width f row below = row :: below := by
  have hstays {c : Nat} (hc : c < width) : fateAt f row below c = .stays :=
    h _ (List.mem_of_getElem? (fatesOver_eq hrect hc))
  refine hrect.visit.ext hrect (by simp [visit]) fun r c hc => ?_
  cases r with
  | zero => rw [cell_visit_zero hrect hc, hstays hc]; rfl
  | succ r =>
      rw [visit, cell_cons_succ, cell_cons_succ]
      by_cases hr : r < below.length
      · rw [cell_landed hrect hr hc, hstays hc]; rfl
      · simp [cell, landed, List.getElem?_eq_none (Nat.le_of_not_lt hr)]

/-- Where every character is grounded or has one right below it, nothing falls. -/
theorem still_of_rested (h : Rested (f + 1) (row :: below)) : Still (fatesOver width (f + 1) row below) := by
  intro what hmem
  obtain ⟨c, hc, rfl⟩ := List.getElem_of_mem hmem
  have hfate := fatesOver_eq (f := f + 1) hrect (length_fatesOver hrect ▸ hc)
  rw [List.getElem?_eq_getElem hc] at hfate
  rw [Option.some.inj hfate]
  exact fateAt_eq_stays_iff.2 fun hs => h 0 c (by omega) hs

end

theorem sweep_of_rested (hrect : Rect width (above ++ ground)) (h : Rested above.length (above ++ ground)) :
    sweep width ground above = (above ++ ground, {}) := by
  induction above with
  | nil => rfl
  | cons row above ih =>
      rw [List.cons_append] at hrect h ⊢
      have hstill := still_of_rested hrect h
      rw [sweep_cons, ih hrect.tail h.tail]
      simp only [add_of_still hstill, visit_of_still hrect hstill]

/-- A sweep that moves and drops nothing leaves the rows as they were. -/
theorem sweep_of_still (hrect : Rect width (above ++ ground))
    (h : (sweep width ground above).2.moved = 0 ∧ (sweep width ground above).2.dropped = 0) :
    (sweep width ground above).1 = above ++ ground := by
  induction above with
  | nil => rfl
  | cons row above ih =>
      rw [sweep_cons] at h ⊢
      obtain ⟨hmoves, hstill⟩ := add_eq_zero_iff.1 h
      rw [ih hrect.tail hmoves] at hstill ⊢
      exact visit_of_still hrect hstill

end Cairn.Grid
