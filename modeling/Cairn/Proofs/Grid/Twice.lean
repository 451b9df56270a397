import Cairn.Proofs.Grid.Columns

/-!
# Falling twice

The text of a settled grid is cut into the same characters at the same places, but its foundation is looked
for anew. A second fall leaves the text as it is if there is a foundation and every character above it is
grounded or has another one right below it. A `#` or a quote that comes to rest on the foundation row or
below it can move the foundation, so a second fall may go on, or let everything fall out.
-/

namespace Cairn.Text

/-- The text without the blanks at the ends of its lines. -/
def trimLines (text : List Char) : List Char := unlines ((lines text).map (trimEnd isBlank))

end Cairn.Text

namespace Cairn.Grid

variable {width width' f r c : Nat} {row row' tail : Row} {rows rows' rows'' : List Row} {g g' : Grid}

/-! ## The same characters -/

/-- The same characters at the same places; blanks may differ. -/
def Same (rows rows' : List Row) : Prop := Fills rows rows' ∧ Fills rows' rows

theorem Same.symm (h : Same rows rows') : Same rows' rows := ⟨h.2, h.1⟩

theorem Fills.trans (h : Fills rows rows') (h' : Fills rows' rows'') : Fills rows rows'' := by
  intro r c hs
  rw [h' r c (h.solid hs), h r c hs]

theorem Same.trans (h : Same rows rows') (h' : Same rows' rows'') : Same rows rows'' :=
  ⟨h.1.trans h'.1, h'.2.trans h.2⟩

theorem Rested.congr (hr : Rested f rows) (h : Same rows rows') (hrect : Rect width rows) (hrect' : Rect width' rows')
    (hlen : rows'.length = rows.length) (hf : f < rows.length) : Rested f rows' := by
  intro r c hrf hs
  rcases hr r c hrf (h.2.solid hs) with hg | hnext
  · exact .inl (grounded_mono hrect hrect' hlen h.1 hf hg)
  · exact .inr (h.1.solid hnext)

/-! ## Blanks at the ends of rows -/

/-- `row'` is `row` with blanks at its end. -/
def Widens (row row' : Row) : Prop := ∃ tail, row' = row ++ tail ∧ ∀ x ∈ tail, Text.isBlank x = true

theorem widens_pad (width : Nat) (row : Row) : Widens row (pad width row) := by
  refine ⟨_, rfl, fun x hx => ?_⟩
  rw [List.eq_of_mem_replicate hx]
  rfl

theorem trimEnd_widens (row : Row) : Widens (Text.trimEnd Text.isBlank row) row := Text.exists_trimEnd_append _ _

theorem Widens.getD_eq (h : Widens row row') :
    row'[c]?.getD ' ' = row[c]?.getD ' ' ∨
      Text.isBlank (row'[c]?.getD ' ') = true ∧ Text.isBlank (row[c]?.getD ' ') = true := by
  obtain ⟨tail, rfl, htail⟩ := h
  by_cases hc : c < row.length
  · exact .inl (by rw [List.getElem?_append_left hc])
  · rw [List.getElem?_append_right (Nat.le_of_not_lt hc), List.getElem?_eq_none (Nat.le_of_not_lt hc)]
    refine .inr ⟨?_, rfl⟩
    cases hx : tail[c - row.length]? with
    | none => rfl
    | some x => exact htail x (List.mem_of_getElem? hx)

theorem hasAnchor_blank {quoted : Bool} (h : ∀ x ∈ tail, Text.isBlank x = true) : hasAnchor quoted tail = false := by
  induction tail with
  | nil => rfl
  | cons x tail ih =>
      have hx := h x List.mem_cons_self
      have hq : (x == '"') = false := by by_contra hq; simp_all [Text.isBlank]
      have ha : (x == '#') = false := by by_contra ha; simp_all [Text.isBlank]
      simp [hasAnchor, hq, ha, ih fun y hy => h y (List.mem_cons_of_mem _ hy)]

theorem Widens.hasAnchor_eq (h : Widens row row') {quoted : Bool} : hasAnchor quoted row' = hasAnchor quoted row := by
  obtain ⟨tail, rfl, htail⟩ := h
  induction row generalizing quoted with
  | nil => exact hasAnchor_blank htail
  | cons x row ih => simp only [List.cons_append, hasAnchor, ih]

section

variable {φ ψ : Row → Row} (h : ∀ row, Widens (φ row) (ψ row))

include h

theorem same_map (rows : List Row) : Same (rows.map φ) (rows.map ψ) := by
  have hcell r c : cell (rows.map ψ) r c = cell (rows.map φ) r c ∨
      ¬ Solid (rows.map ψ) r c ∧ ¬ Solid (rows.map φ) r c := by
    simp only [Solid, cell, List.getElem?_map, Bool.not_eq_false]
    cases rows[r]? with
    | none => exact .inl rfl
    | some row => exact (h row).getD_eq
  refine ⟨fun r c hs => ?_, fun r c hs => ?_⟩
  · exact (hcell r c).resolve_right fun hb => hb.2 hs
  · exact ((hcell r c).resolve_right fun hb => hb.1 hs).symm

theorem foundationRow_map (rows : List Row) : foundationRow (rows.map φ) = foundationRow (rows.map ψ) := by
  induction rows with
  | nil => rfl
  | cons row rows ih => simp only [List.map_cons, foundationRow, ih, (h row).hasAnchor_eq]

end

theorem same_trim (rows : List Row) : Same (rows.map (Text.trimEnd Text.isBlank)) rows := by
  have hsame := same_map (ψ := id) trimEnd_widens rows
  rwa [List.map_id] at hsame

theorem foundationRow_trim (rows : List Row) :
    foundationRow (rows.map (Text.trimEnd Text.isBlank)) = foundationRow rows := by
  have hrow := foundationRow_map (ψ := id) trimEnd_widens rows
  rwa [List.map_id] at hrow

theorem foundation_ofText (text : List Char) : (ofText text).foundation = foundationRow (Text.lines text) := by
  have hpad := foundationRow_map (φ := id) (fun row => widens_pad (ofText text).width row) (Text.lines text)
  rw [List.map_id] at hpad
  exact hpad.symm

/-! ## A grid read back from its text -/

theorem render_ofText (text : List Char) : (ofText text).render = Text.trimLines text := by
  have hrows : (ofText text).rows = (Text.lines text).map (pad (ofText text).width) := rfl
  rw [render, Text.trimLines, hrows, List.map_map]
  refine congrArg Text.unlines (List.map_congr_left fun line _ => ?_)
  obtain ⟨tail, hpad, htail⟩ := widens_pad (ofText text).width line
  rw [Function.comp_apply, hpad, Text.trimEnd_append htail]

/-- Rows that can be written as lines. -/
def Lined (rows : List Row) : Prop := rows ≠ [] ∧ ∀ row ∈ rows, '\n' ∉ row

theorem lines_render (h : Lined g.rows) : Text.lines g.render = g.rows.map (Text.trimEnd Text.isBlank) := by
  refine Text.lines_unlines (by simpa using h.1) fun line hline hmem => ?_
  obtain ⟨row, hrow, rfl⟩ := List.mem_map.1 hline
  obtain ⟨tail, hsplit, -⟩ := trimEnd_widens row
  exact h.2 row hrow (hsplit ▸ List.mem_append_left tail hmem)

theorem same_of_render (h : Lined g.rows) (h' : Lined g'.rows) (heq : g.render = g'.render) :
    Same g.rows g'.rows ∧ g.rows.length = g'.rows.length := by
  have hrows : g.rows.map (Text.trimEnd Text.isBlank) = g'.rows.map (Text.trimEnd Text.isBlank) := by
    rw [← lines_render h, ← lines_render h', heq]
  have hsame := same_trim g.rows
  rw [hrows] at hsame
  exact ⟨hsame.symm.trans (same_trim g'.rows), by simpa using congrArg List.length hrows⟩

section

variable (h : Lined g.rows)

include h

theorem rows_ofText_render :
    (ofText g.render).rows = g.rows.map fun row => pad (ofText g.render).width (Text.trimEnd Text.isBlank row) := by
  have hrows : (ofText g.render).rows = (Text.lines g.render).map (pad (ofText g.render).width) := rfl
  rw [hrows, lines_render h, List.map_map]
  rfl

theorem same_ofText_render : Same g.rows (ofText g.render).rows := by
  rw [rows_ofText_render h]
  exact (same_trim g.rows).symm.trans (same_map (fun row => widens_pad _ (Text.trimEnd Text.isBlank row)) g.rows)

theorem foundation_ofText_render : (ofText g.render).foundation = foundationRow g.rows := by
  have hpad := foundationRow_map (fun row => widens_pad (ofText g.render).width (Text.trimEnd Text.isBlank row)) g.rows
  rw [← foundationRow_trim, hpad, ← rows_ofText_render h]
  rfl

theorem render_ofText_render : (ofText g.render).render = g.render := by
  change Text.unlines ((ofText g.render).rows.map (Text.trimEnd Text.isBlank)) =
    Text.unlines (g.rows.map (Text.trimEnd Text.isBlank))
  rw [rows_ofText_render h, List.map_map]
  refine congrArg Text.unlines (List.map_congr_left fun row _ => ?_)
  obtain ⟨tail, hpad, htail⟩ := widens_pad (ofText g.render).width (Text.trimEnd Text.isBlank row)
  rw [Function.comp_apply, hpad, Text.trimEnd_append htail, Text.trimEnd_trimEnd]

theorem render_ne_nil (hs : Solid g.rows r c) : g.render ≠ [] := by
  intro hempty
  have hsame := same_trim g.rows
  rw [← lines_render h, hempty] at hsame
  have hcell := hsame.2 r c hs
  have hblank : cell (Text.lines []) r c = ' ' := by
    cases r <;> rfl
  rw [hblank] at hcell
  rw [Solid, ← hcell] at hs
  cases hs

end

/-! ## Settled texts -/

theorem cell_ne_newline (h : Lined rows) : cell rows r c ≠ '\n' := by
  unfold cell
  cases hr : rows[r]? with
  | none => simp
  | some row =>
      have hrow := h.2 row (List.mem_of_getElem? hr)
      cases hc : row[c]? with
      | none => simp [hc]
      | some x =>
          rintro heq
          simp only [Option.bind_some, hc, Option.getD_some] at heq
          exact hrow (heq ▸ List.mem_of_getElem? hc)

theorem lined_ofText (text : List Char) : Lined (ofText text).rows := by
  refine ⟨by simpa [ofText] using Text.lines_ne_nil text, fun row hrow hmem => ?_⟩
  obtain ⟨line, hline, rfl⟩ := List.mem_map.1 hrow
  rcases List.mem_append.1 hmem with hmem | hmem
  · exact Text.newline_notMem_of_mem_lines hline hmem
  · cases List.eq_of_mem_replicate hmem

theorem Shaped.length_swept (h : g.Shaped f) : (swept f g).rows.length = g.rows.length := by
  have hlen := (sweep_rested h.split.1 h.split.2.1).2.1
  rw [← List.length_append, List.take_append_drop] at hlen
  exact hlen

theorem Shaped.lined_swept (h : g.Shaped f) (hl : Lined g.rows) : Lined (swept f g).rows := by
  refine ⟨List.ne_nil_of_length_pos (Nat.zero_lt_of_lt h.swept_rested.1.lt), fun row hrow hmem => ?_⟩
  obtain ⟨r, hr, rfl⟩ := List.getElem_of_mem hrow
  obtain ⟨c, hc, hx⟩ := List.getElem_of_mem hmem
  have hcell : cell (swept f g).rows r c = '\n' := by simp [cell, hr, hc, hx]
  -- what stands in a column after the fall stood in it before
  have hafter := mem_column.2 ⟨r, by rw [Solid, hcell]; rfl, hcell⟩
  obtain ⟨r', -, hbefore⟩ := mem_column.1 ((h.fell c).order.subset hafter)
  exact cell_ne_newline hl hbefore

/-! ## Where the foundation is found -/

theorem foundationRow_eq_none_iff : foundationRow rows = none ↔ ∀ row ∈ rows, hasAnchor false row = false := by
  induction rows with
  | nil => simp [foundationRow]
  | cons row rows ih =>
      rw [foundationRow, List.forall_mem_cons, ← ih]
      cases foundationRow rows with
      | none => simp
      | some r => simp

theorem foundationRow_eq_some_iff :
    foundationRow rows = some f ↔
      (∃ row, rows[f]? = some row ∧ hasAnchor false row = true) ∧
      ∀ r row, f < r → rows[r]? = some row → hasAnchor false row = false := by
  induction rows generalizing f with
  | nil => simp [foundationRow]
  | cons row rows ih =>
      cases f with
      | zero =>
          have hnone : (∀ r row', 0 < r → (row :: rows)[r]? = some row' → hasAnchor false row' = false) ↔
              foundationRow rows = none := by
            rw [foundationRow_eq_none_iff, List.forall_mem_iff_getElem]
            constructor
            · intro h r hr
              exact h (r + 1) _ (Nat.zero_lt_succ r) (by simp [hr])
            · intro h r row' hr hrow
              obtain ⟨k, rfl⟩ := Nat.exists_eq_succ_of_ne_zero (Nat.ne_of_gt hr)
              obtain ⟨hk, rfl⟩ := List.getElem?_eq_some_iff.1 hrow
              exact h k (by simpa using hk)
          rw [hnone, foundationRow]
          cases foundationRow rows with
          | none => simp
          | some r => simp
      | succ f =>
          have htail : (∀ r row', f + 1 < r → (row :: rows)[r]? = some row' → hasAnchor false row' = false) ↔
              ∀ r row', f < r → rows[r]? = some row' → hasAnchor false row' = false := by
            constructor
            · intro h r row' hr hrow
              exact h (r + 1) row' (Nat.succ_lt_succ hr) hrow
            · intro h r row' hr hrow
              obtain ⟨k, rfl⟩ := Nat.exists_eq_succ_of_ne_zero (Nat.ne_of_gt (Nat.zero_lt_of_lt hr))
              exact h k row' (Nat.lt_of_succ_lt_succ hr) hrow
          rw [htail, List.getElem?_cons_succ, ← ih, foundationRow]
          cases foundationRow rows with
          | none => simp
          | some r => simp

/-- The characters that decide where the foundation is. -/
def IsMark (x : Char) : Prop := x = '#' ∨ x = '"'

theorem IsMark.solid (h : IsMark (cell rows r c)) : Solid rows r c := by
  rcases h with h | h <;> rw [Solid, h] <;> rfl

theorem hasAnchor_congr {quoted : Bool} (hlen : row.length = row'.length)
    (h : ∀ c : Nat, IsMark (row[c]?.getD ' ') ∨ IsMark (row'[c]?.getD ' ') → row[c]?.getD ' ' = row'[c]?.getD ' ') :
    hasAnchor quoted row = hasAnchor quoted row' := by
  induction row generalizing row' quoted with
  | nil => rw [List.length_eq_zero_iff.1 hlen.symm]
  | cons x row ih =>
      obtain ⟨y, row', rfl⟩ := List.exists_cons_of_length_pos (l := row') (by rw [← hlen]; simp)
      have hrest quoted : hasAnchor quoted row = hasAnchor quoted row' :=
        ih (Nat.succ.inj hlen) fun c hc => h (c + 1) hc
      have hhead := h 0
      simp only [List.getElem?_cons_zero, Option.getD_some] at hhead
      simp only [hasAnchor, hrest]
      by_cases hxy : x = y
      · rw [hxy]
      · have hx : ¬ IsMark x := fun hx => hxy (hhead (.inl hx))
        have hy : ¬ IsMark y := fun hy => hxy (hhead (.inr hy))
        simp only [IsMark, not_or] at hx hy
        simp [hx.1, hx.2, hy.1, hy.2]

/-- The foundation stays where it is if the same `#` and quotes stand on it and below it. -/
theorem foundationRow_congr (hrect : Rect width rows) (hrect' : Rect width rows') (hlen : rows.length = rows'.length)
    (h : ∀ r c, f ≤ r → IsMark (cell rows r c) ∨ IsMark (cell rows' r c) → cell rows r c = cell rows' r c)
    (hf : foundationRow rows = some f) : foundationRow rows' = some f := by
  have hanchor r row row' (hr : f ≤ r) (hrow : rows[r]? = some row) (hrow' : rows'[r]? = some row') :
      hasAnchor false row = hasAnchor false row' := by
    refine hasAnchor_congr ?_ fun c => ?_
    · rw [hrect row (List.mem_of_getElem? hrow), hrect' row' (List.mem_of_getElem? hrow')]
    · simpa only [cell, hrow, hrow', Option.bind_some] using h r c hr
  obtain ⟨⟨row, hrow, ha⟩, hlater⟩ := foundationRow_eq_some_iff.1 hf
  have hrow' {r} (hr : r < rows.length) : rows'[r]? = some (rows'.get ⟨r, hlen ▸ hr⟩) :=
    List.getElem?_eq_getElem (hlen ▸ hr)
  refine foundationRow_eq_some_iff.2 ⟨⟨_, hrow' (List.getElem?_eq_some_iff.1 hrow).1, ?_⟩, fun r row' hr hget => ?_⟩
  · rw [← hanchor f row _ (Nat.le_refl f) hrow (hrow' (List.getElem?_eq_some_iff.1 hrow).1), ha]
  · have hlt : r < rows.length := hlen ▸ (List.getElem?_eq_some_iff.1 hget).1
    rw [← hanchor r _ row' (Nat.le_of_lt hr) (List.getElem?_eq_getElem hlt) hget]
    exact hlater r _ hr (List.getElem?_eq_getElem hlt)

theorem mem_of_hasAnchor {quoted : Bool} (h : hasAnchor quoted row = true) : '#' ∈ row := by
  induction row generalizing quoted with
  | nil => simp [hasAnchor] at h
  | cons x row ih =>
      simp only [hasAnchor] at h
      split at h
      · exact List.mem_cons_of_mem _ (ih h)
      · split at h
        · rename_i ha
          simp only [Bool.and_eq_true, beq_iff_eq] at ha
          rw [ha.1]
          exact List.mem_cons_self
        · exact List.mem_cons_of_mem _ (ih h)

theorem solid_of_foundationRow (h : foundationRow rows = some f) : ∃ c, Solid rows f c := by
  obtain ⟨⟨row, hrow, ha⟩, -⟩ := foundationRow_eq_some_iff.1 h
  obtain ⟨c, hc, hx⟩ := List.getElem_of_mem (mem_of_hasAnchor ha)
  refine ⟨c, ?_⟩
  simp only [Solid, cell, hrow, Option.bind_some, List.getElem?_eq_getElem hc, hx]
  rfl

/-! ## The second fall -/

theorem fall_render_eq_iff (hrect : Rect g.width g.rows) (hl : Lined g.rows) (hs : Solid g.rows r c) :
    (fall g.render).1 = g.render ↔ ∃ f, foundationRow g.rows = some f ∧ Rested f g.rows := by
  have hsame := same_ofText_render hl
  have hlen : (ofText g.render).rows.length = g.rows.length := by rw [rows_ofText_render hl, List.length_map]
  cases hf : foundationRow g.rows with
  | none =>
      have hfall : fall g.render = ([], {}) := by simp only [fall, foundation_ofText_render hl, hf]
      simpa [hfall] using (render_ne_nil hl hs).symm
  | some f =>
      have h := shaped_ofText ((foundation_ofText_render hl).trans hf)
      have hlt : f < g.rows.length := hlen ▸ h.lt
      have hfall : (fall g.render).1 = (swept f (ofText g.render)).render := by
        simp only [fall, h.foundation, h.settle_eq]
      rw [hfall]
      obtain ⟨hshaped, hrested⟩ := h.swept_rested
      constructor
      · intro heq
        obtain ⟨hsame', hlen'⟩ := same_of_render (h.lined_swept (lined_ofText _)) hl heq
        exact ⟨f, rfl, hrested.congr hsame' hshaped.rect hrect hlen'.symm hshaped.lt⟩
      · rintro ⟨_, heq, hr⟩
        cases heq
        rw [(h.swept_of_rested (hr.congr hsame hrect h.rect hlen hlt)).1, render_ofText_render hl]

end Cairn.Grid

namespace Cairn

open Grid

/-- A second fall changes nothing exactly if the settled text has a foundation, looked for anew, that all
characters above it rest on. That is so if no `#` and no quote comes to rest on the foundation row or below. -/
theorem fall_fall_eq_iff (text : List Char) :
    ((fall (fall text).1).1 = (fall text).1 ↔
      ∀ f, (ofText text).foundation = some f → ∃ f', foundationRow (ofText text).settle.1.rows = some f' ∧
        Rested f' (ofText text).settle.1.rows) ∧
    ((∀ f r c, (ofText text).foundation = some f → f ≤ r →
        (ofText text).settle.1.get r c = '#' ∨ (ofText text).settle.1.get r c = '"' →
        (ofText text).settle.1.get r c = (ofText text).get r c) →
      (fall (fall text).1).1 = (fall text).1) := by
  cases hf : (ofText text).foundation with
  | none =>
      have hfall : fall text = ([], {}) := by simp only [fall, hf]
      rw [hfall]
      simp [show fall [] = ([], {}) from by decide]
  | some f =>
      have h := shaped_ofText hf
      obtain ⟨hshaped, hrested⟩ := h.swept_rested
      have hsettle : (ofText text).settle.1 = swept f (ofText text) := by rw [h.settle_eq]
      have hfall : (fall text).1 = (swept f (ofText text)).render := by simp only [fall, hf, h.settle_eq]
      obtain ⟨c, hs⟩ := solid_of_foundationRow hf
      have hs' : Solid (swept f (ofText text)).rows f c := by rwa [Solid, h.cell_swept (Nat.le_refl f) hs]
      have hagain := fall_render_eq_iff hshaped.rect (h.lined_swept (lined_ofText text)) hs'
      rw [hfall, hsettle]
      refine ⟨by simpa using hagain, fun hmarks => hagain.2 ⟨f, ?_, hrested⟩⟩
      refine foundationRow_congr h.rect hshaped.rect h.length_swept.symm (fun r c hr hm => ?_) hf
      rcases hm with hm | hm
      · exact (h.cell_swept hr hm.solid).symm
      · exact (hmarks f r c rfl hr hm).symm

/-- A quote that lands left of the `#` hides it, and the second fall takes everything away. -/
theorem fall_fall_ne :
    (fall (fall ['"', '\n', ' ', ' ', '#', '\n', 'y']).1).1 ≠ (fall ['"', '\n', ' ', ' ', '#', '\n', 'y']).1 := by
  decide

end Cairn
