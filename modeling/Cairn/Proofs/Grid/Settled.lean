import Cairn.Proofs.Grid.Falling
import Mathlib.Logic.Function.Iterate

/-!
# Settled grids

Settling ends after one sweep if nothing falls, and after two otherwise: the first leaves every character
grounded or with another one right below it, and the second finds nothing to do. A character that is not
grounded then stands on a column of such characters down to the foundation, and not on a `#`.
-/

namespace Cairn.Grid

variable {f r c : Nat} {g : Grid} {rows : List Row}

/-! ## The grid of a text -/

/-- A rectangle with its foundation in one of its rows. -/
structure Shaped (g : Grid) (f : Nat) : Prop where
  rect : Rect g.width g.rows
  foundation : g.foundation = some f
  lt : f < g.rows.length

theorem lt_of_foundationRow (h : foundationRow rows = some f) : f < rows.length := by
  induction rows generalizing f with
  | nil => simp [foundationRow] at h
  | cons row rows ih =>
      simp only [foundationRow] at h
      split at h
      · rename_i r hr
        cases h
        exact Nat.succ_lt_succ (ih hr)
      · split at h
        · cases h
          exact Nat.zero_lt_succ _
        · cases h

theorem rect_ofText (text : List Char) : Rect (ofText text).width (ofText text).rows := by
  intro row hrow
  obtain ⟨line, hline, rfl⟩ := List.mem_map.1 hrow
  have hmem : line.length ∈ (Text.lines text).map List.length := List.mem_map_of_mem hline
  have hmax := List.le_max_of_mem hmem
  have hwidth : (ofText text).width = max 0 (((Text.lines text).map List.length).max (List.ne_nil_of_mem hmem)) :=
    List.foldl_max_eq_max _
  change (pad (ofText text).width line).length = _
  rw [length_pad]
  omega

theorem shaped_ofText {text : List Char} (hf : (ofText text).foundation = some f) : (ofText text).Shaped f :=
  ⟨rect_ofText text, hf, lt_of_foundationRow hf⟩

/-! ## Settling -/

/-- The grid after one sweep. -/
def swept (f : Nat) (g : Grid) : Grid :=
  { g with rows := (sweep g.width (g.rows.drop f) (g.rows.take f)).1 }

/-- What one sweep moves and drops. -/
def stir (f : Nat) (g : Grid) : Moves := (sweep g.width (g.rows.drop f) (g.rows.take f)).2

namespace Shaped

variable (h : g.Shaped f)

include h

theorem split : Rect g.width (g.rows.take f ++ g.rows.drop f) ∧ g.rows.drop f ≠ [] ∧
    (g.rows.take f).length = f := by
  refine ⟨by rw [List.take_append_drop]; exact h.rect, ?_, ?_⟩
  · simpa using h.lt
  · exact List.length_take_of_le (Nat.le_of_lt h.lt)

theorem swept_rested : (swept f g).Shaped f ∧ Rested f (swept f g).rows := by
  obtain ⟨hrect, hne, hlen⟩ := h.split
  obtain ⟨hrect', hlen', hrested⟩ := sweep_rested hrect hne
  rw [hlen] at hrested
  refine ⟨⟨hrect', h.foundation, ?_⟩, hrested⟩
  have hlt := h.lt
  simp only [swept, hlen', List.length_take, List.length_drop]
  omega

theorem swept_of_rested (hr : Rested f g.rows) : swept f g = g ∧ stir f g = {} := by
  obtain ⟨hrect, -, hlen⟩ := h.split
  have hsweep := sweep_of_rested hrect (by rw [hlen, List.take_append_drop]; exact hr)
  rw [List.take_append_drop] at hsweep
  simp only [swept, stir, hsweep, and_self]

theorem swept_of_still (hm : (stir f g).moved = 0 ∧ (stir f g).dropped = 0) : swept f g = g := by
  have hrows := sweep_of_still h.split.1 hm
  rw [List.take_append_drop] at hrows
  simp only [swept, hrows]

/-- Where something falls there is room for a second sweep. -/
theorem two_le_limit (hm : ¬ ((stir f g).moved = 0 ∧ (stir f g).dropped = 0)) :
    2 ≤ max (g.height * g.width) 1 := by
  have hlt := h.lt
  have hf : f ≠ 0 := by
    rintro rfl
    exact hm ⟨rfl, rfl⟩
  have hwidth : g.width ≠ 0 := by
    intro hw
    have hrested : Rested f g.rows := fun r c _ hs => absurd (h.rect.lt_of_solid hs).2 (by omega)
    rw [(h.swept_of_rested hrested).2] at hm
    exact hm ⟨rfl, rfl⟩
  have hmul : 2 * 1 ≤ g.height * g.width := Nat.mul_le_mul (by simp only [height]; omega) (by omega)
  omega

theorem settleRows_eq {limit : Nat} (hl : max (g.height * g.width) 1 ≤ limit) :
    settleRows g.width f g.rows {} limit = ((swept f g).rows,
      if (stir f g).moved = 0 ∧ (stir f g).dropped = 0 then ⟨1, 0, 0⟩
      else ⟨2, (stir f g).moved, (stir f g).dropped⟩) := by
  obtain ⟨n, rfl⟩ : ∃ n, limit = n + 1 := ⟨limit - 1, by omega⟩
  have hfirst : sweep g.width (g.rows.drop f) (g.rows.take f) = ((swept f g).rows, stir f g) := rfl
  rw [settleRows, hfirst]
  by_cases hm : (stir f g).moved = 0 ∧ (stir f g).dropped = 0
  · simp [hm, Report.add]
  · obtain ⟨m, rfl⟩ : ∃ m, n = m + 1 := ⟨n - 1, by have := h.two_le_limit hm; omega⟩
    obtain ⟨hshaped, hrested⟩ := h.swept_rested
    obtain ⟨hrows, hmoves⟩ := hshaped.swept_of_rested hrested
    have hsecond : sweep g.width ((swept f g).rows.drop f) ((swept f g).rows.take f) = ((swept f g).rows, {}) :=
      Prod.ext (congrArg Grid.rows hrows) hmoves
    simp only [hm, if_false, settleRows, hsecond, and_self, if_true, Report.add, Nat.zero_add, Nat.add_zero]

theorem settle_eq : g.settle = (swept f g,
    if (stir f g).moved = 0 ∧ (stir f g).dropped = 0 then ⟨1, 0, 0⟩
    else ⟨2, (stir f g).moved, (stir f g).dropped⟩) := by
  unfold settle
  split
  · rename_i hnone
    rw [h.foundation] at hnone
    cases hnone
  · rename_i f' hsome
    obtain rfl : f = f' := Option.some.inj (h.foundation.symm.trans hsome)
    rw [h.settleRows_eq (Nat.le_refl _)]
    rfl

theorem settle_shaped : g.settle.1.Shaped f ∧ Rested f g.settle.1.rows := by
  rw [h.settle_eq]
  exact h.swept_rested

end Shaped

/-- Settling a text ends by itself, after two sweeps at most, and the last of them changes nothing. -/
theorem settle_ends (text : List Char) (f : Nat) (hf : (ofText text).foundation = some f) :
    ((ofText text).settle.2.sweeps = 1 ∨ (ofText text).settle.2.sweeps = 2) ∧
    (ofText text).settle.1 = (swept f)^[(ofText text).settle.2.sweeps] (ofText text) ∧
    (ofText text).settle.1 = (swept f)^[(ofText text).settle.2.sweeps - 1] (ofText text) ∧
    (∀ limit, max ((ofText text).height * (ofText text).width) 1 ≤ limit →
      settleRows (ofText text).width f (ofText text).rows {} limit
        = ((ofText text).settle.1.rows, (ofText text).settle.2)) ∧
    ((ofText text).settle.2.sweeps = 1 ↔
      (ofText text).settle.2.moved = 0 ∧ (ofText text).settle.2.dropped = 0) ∧
    (ofText text).settle.1.settle = ((ofText text).settle.1, ⟨1, 0, 0⟩) := by
  have h := shaped_ofText hf
  obtain ⟨hshaped, hrested⟩ := h.swept_rested
  obtain ⟨hswept, hstir⟩ := hshaped.swept_of_rested hrested
  have hagain : (swept f (ofText text)).settle = (swept f (ofText text), ⟨1, 0, 0⟩) := by
    rw [hshaped.settle_eq, hswept, hstir]
    rfl
  by_cases hm : (stir f (ofText text)).moved = 0 ∧ (stir f (ofText text)).dropped = 0
  · rw [h.settle_eq, if_pos hm]
    refine ⟨.inl rfl, rfl, h.swept_of_still hm, fun limit hl => ?_, by simp, hagain⟩
    rw [h.settleRows_eq hl, if_pos hm]
  · rw [h.settle_eq, if_neg hm]
    refine ⟨.inr rfl, hswept.symm, rfl, fun limit hl => ?_, by simpa using hm, hagain⟩
    rw [h.settleRows_eq hl, if_neg hm]

theorem settle_ends_falling :
    (ofText ['x', 'y', '\n', '\n', '#']).foundation = some 2 ∧
    (ofText ['x', 'y', '\n', '\n', '#']).settle.2 = ⟨2, 1, 1⟩ ∧
    (ofText ['x', 'y', '\n', '\n', '#']).settle.1.settle
      = ((ofText ['x', 'y', '\n', '\n', '#']).settle.1, ⟨1, 0, 0⟩) := by
  have hf : (ofText ['x', 'y', '\n', '\n', '#']).foundation = some 2 := by decide
  exact ⟨hf, by decide, (settle_ends _ 2 hf).2.2.2.2.2⟩

/-! ## What stands where -/

/-- Below a character that is not grounded stands another one that is not. -/
theorem Rested.next (hr : Rested f rows) {width : Nat} (hrect : Rect width rows) (hf : f < rows.length)
    (hlt : r < f) (hs : Solid rows r c) (hg : grounded f rows r c = false) :
    Solid rows (r + 1) c ∧ grounded f rows (r + 1) c = false := by
  have hnext : Solid rows (r + 1) c := by
    rcases hr r c hlt hs with hg' | hnext
    · simp [hg] at hg'
    · exact hnext
  refine ⟨hnext, ?_⟩
  by_contra hg'
  have hup := (grounded_iff hrect hf hlt).2 ⟨hs, c, by omega, by omega, by simpa using hg'⟩
  simp [hg] at hup

theorem Rested.column (hr : Rested f rows) {width : Nat} (hrect : Rect width rows) (hf : f < rows.length)
    (hs : Solid rows r c) (hg : grounded f rows r c = false) {k : Nat} (hk : r + k ≤ f) :
    Solid rows (r + k) c ∧ grounded f rows (r + k) c = false := by
  induction k with
  | zero => exact ⟨hs, hg⟩
  | succ k ih =>
      have hlt : r + k < f := by omega
      obtain ⟨hs', hg'⟩ := ih (Nat.le_of_lt hlt)
      exact hr.next hrect hf hlt hs' hg'

/-- In a settled text every character above the foundation is supported, or stands on a column of
unsupported ones that ends on the foundation, and not at a `#`. -/
theorem settled_grounded (text : List Char) (f : Nat) (hf : (ofText text).foundation = some f) :
    (∀ r c, r < f → Text.isBlank ((ofText text).settle.1.get r c) = false →
      (ofText text).settle.1.isSupported r c = true ∨
        (∀ r', r < r' → r' ≤ f → Text.isBlank ((ofText text).settle.1.get r' c) = false ∧
          (ofText text).settle.1.isSupported r' c = false) ∧
        (ofText text).settle.1.get f c ≠ '#') ∧
    ((∀ c, (ofText text).settle.1.get f c = '#' ∨ Text.isBlank ((ofText text).settle.1.get f c) = true) →
      ∀ r c, r < f → Text.isBlank ((ofText text).settle.1.get r c) = false →
        (ofText text).settle.1.isSupported r c = true) := by
  obtain ⟨⟨hrect, hfound, hlt⟩, hr⟩ := (shaped_ofText hf).settle_shaped
  generalize (ofText text).settle.1 = s at hrect hfound hlt hr
  have hcolumn : ∀ r c, r < f → Text.isBlank (s.get r c) = false → s.isSupported r c = true ∨
      (∀ r', r < r' → r' ≤ f → Text.isBlank (s.get r' c) = false ∧ s.isSupported r' c = false) ∧
      s.get f c ≠ '#' := by
    intro r c hrf hs
    simp only [isSupported_eq hfound]
    cases hg : grounded f s.rows r c with
    | true => exact .inl rfl
    | false =>
        have hdown r' (hr' : r < r') (hle : r' ≤ f) : Solid s.rows r' c ∧ grounded f s.rows r' c = false := by
          obtain ⟨k, rfl⟩ : ∃ k, r' = r + k := ⟨r' - r, by omega⟩
          exact hr.column hrect hlt hs hg hle
        refine .inr ⟨hdown, fun hanchor => ?_⟩
        have hfoot := (hdown f hrf (Nat.le_refl f)).2
        rw [grounded_at_foundation hlt] at hfoot
        simp [show cell s.rows f c = '#' from hanchor] at hfoot
  refine ⟨hcolumn, fun hanchors r c hrf hs => ?_⟩
  rcases hcolumn r c hrf hs with hg | ⟨hdown, hanchor⟩
  · exact hg
  · have hfoot := (hdown f hrf (Nat.le_refl f)).1
    rcases hanchors c with h | h
    · exact absurd h hanchor
    · simp [hfoot] at h

theorem settled_grounded_column :
    (ofText ['z', '\n', 'z', ' ', '#']).foundation = some 1 ∧
    (ofText ['z', '\n', 'z', ' ', '#']).settle.1.isSupported 0 0 = false ∧
    Text.isBlank ((ofText ['z', '\n', 'z', ' ', '#']).settle.1.get 1 0) = false ∧
    (ofText ['z', '\n', 'z', ' ', '#']).settle.1.get 1 0 ≠ '#' := by
  have hf : (ofText ['z', '\n', 'z', ' ', '#']).foundation = some 1 := by decide
  have hfree : (ofText ['z', '\n', 'z', ' ', '#']).settle.1.isSupported 0 0 = false := by decide
  refine ⟨hf, hfree, ?_⟩
  rcases (settled_grounded _ 1 hf).1 0 0 (by decide) (by decide) with h | ⟨hdown, hfoot⟩
  · simp [hfree] at h
  · exact ⟨(hdown 1 (by decide) (by decide)).1, hfoot⟩

end Cairn.Grid
