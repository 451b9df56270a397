import Cairn.Proofs.Grid.Staircase
import Cairn.Proofs.Grid.Twice

/-!
# Only what is listed falls

The list of what would fall judges the grid as it is written, while a sweep judges every row anew, over rows that have
changed. The two agree on what stays: what is grounded in the grid as written is never moved, so it goes on carrying
what it carried. Whatever a sweep moves or drops was therefore on the list, and where the list is empty nothing falls.
-/

namespace Cairn.Grid

variable {width f r c : Nat} {row : Row} {rows below above ground : List Row} {g : Grid}

/-! ## What is grounded stays -/

/-- The second rows hold what is grounded in the first, at the same places and still grounded. -/
def Keeps (f : Nat) (rows rows' : List Row) : Prop :=
  ∀ r c, grounded f rows r c = true → cell rows' r c = cell rows r c ∧ grounded f rows' r c = true

theorem Keeps.trans {rows' rows'' : List Row} (h : Keeps f rows rows') (h' : Keeps f rows' rows'') :
    Keeps f rows rows'' := by
  intro r c hg
  obtain ⟨hcell, hg'⟩ := h r c hg
  obtain ⟨hcell', hg''⟩ := h' r c hg'
  exact ⟨hcell'.trans hcell, hg''⟩

/-- One more row on top. -/
theorem Keeps.cons (h : Keeps f rows below) (hrect : Rect width (row :: rows)) (hrect' : Rect width (row :: below))
    (hne : rows ≠ []) (hne' : below ≠ []) : Keeps (f + 1) (row :: rows) (row :: below) := by
  intro r c hg
  cases r with
  | zero =>
      obtain ⟨hs, d, hdc, hcd, hd⟩ := (grounded_cons_zero hrect hne).1 hg
      exact ⟨rfl, (grounded_cons_zero hrect' hne').2 ⟨hs, d, hdc, hcd, (h 0 d hd).2⟩⟩
  | succ r =>
      rw [grounded_cons_succ] at hg ⊢
      exact h r c hg

/-- A visit leaves the grounded characters of its row and fills in blanks below. -/
theorem keeps_visit (hrect : Rect width (row :: below)) (hf : f < below.length) :
    Keeps (f + 1) (row :: below) (visit width (f + 1) row below) := by
  have hfills := fills_landed (f := f + 1) hrect
  have hvisit := hrect.visit (f := f + 1)
  have hne : below ≠ [] := List.ne_nil_of_length_pos (Nat.zero_lt_of_lt hf)
  have hlanded : Keeps f below (landed (fatesOver width (f + 1) row below) below) := fun r c hg =>
    ⟨hfills r c (solid_of_grounded hrect.tail hf hg), grounded_mono hrect.tail hvisit.tail length_landed hfills hf hg⟩
  intro r c hg
  cases r with
  | zero =>
      obtain ⟨hs, d, hdc, hcd, hd⟩ := (grounded_cons_zero hrect hne).1 hg
      have hstays : fateAt (f + 1) row below c = .stays := fateAt_eq_stays_iff.2 fun _ => .inl hg
      have hcell : cell (visit width (f + 1) row below) 0 c = cell (row :: below) 0 c := by
        rw [cell_visit_zero hrect (hrect.lt_of_solid hs).2, hstays]
        rfl
      refine ⟨hcell, (grounded_cons_zero hvisit (by simpa [landed] using hne)).2 ⟨?_, d, hdc, hcd, (hlanded 0 d hd).2⟩⟩
      rw [Solid, ← visit, hcell]
      exact hs
  | succ r =>
      rw [grounded_cons_succ] at hg
      rw [visit, grounded_cons_succ, cell_cons_succ, cell_cons_succ]
      exact hlanded r c hg

section

variable (hne : ground ≠ [])

include hne

theorem length_lt_sweep (hrect : Rect width (above ++ ground)) :
    above.length < (sweep width ground above).1.length := by
  rw [(sweep_rested hrect hne).2.1]
  have hground := List.length_pos_iff.2 hne
  omega

theorem keeps_over_sweep (hrect : Rect width (row :: above ++ ground))
    (h : Keeps above.length (above ++ ground) (sweep width ground above).1) :
    Keeps (above.length + 1) (row :: (above ++ ground)) (row :: (sweep width ground above).1) :=
  h.cons hrect (hrect.over_sweep hne) (by simp [hne])
    (List.ne_nil_of_length_pos (Nat.zero_lt_of_lt (length_lt_sweep hne hrect.tail)))

theorem keeps_sweep (hrect : Rect width (above ++ ground)) :
    Keeps above.length (above ++ ground) (sweep width ground above).1 := by
  induction above with
  | nil => exact fun r c hg => ⟨rfl, hg⟩
  | cons row above ih =>
      rw [sweep_cons]
      exact (keeps_over_sweep hne hrect (ih hrect.tail)).trans
        (keeps_visit (hrect.over_sweep hne) (length_lt_sweep hne hrect.tail))

end

/-! ## What moves was not grounded -/

/-- Of the characters of a column, counted from the top, all but those of `free` rows are where they were. -/
def Stays (free : Nat → Prop) (before after : List (Nat × Char)) : Prop :=
  ∀ (i : Nat) p, before[i]? = some p → after[i]? = some p ∨ free p.1

theorem Stays.cons {free : Nat → Prop} {p q : Nat × Char} {before after : List (Nat × Char)}
    (h : Stays free before after) (hp : q = p ∨ free p.1) : Stays free (p :: before) (q :: after) := by
  intro i p' hi
  cases i with
  | zero =>
      cases hi
      exact hp.imp_left (congrArg some)
  | succ i => exact h i p' hi

theorem Stays.lower {free : Nat → Prop} {before after : List (Nat × Char)}
    (h : Stays (fun r => free (r + 1)) before after) : Stays free (lower before) (lower after) := by
  intro i p hi
  rw [Grid.lower, List.getElem?_map, Option.map_eq_some_iff] at hi
  obtain ⟨q, hq, rfl⟩ := hi
  refine (h i q hq).imp_left fun hafter => ?_
  rw [Grid.lower, List.getElem?_map, hafter]
  rfl

/-- Above the foundation, and not grounded. -/
def Free (f : Nat) (rows : List Row) (c r : Nat) : Prop := r < f ∧ grounded f rows r c = false

theorem free_cons_succ : Free (f + 1) (row :: rows) c (r + 1) ↔ Free f rows c r := by
  rw [Free, grounded_cons_succ, Nat.add_lt_add_iff_right, Free]

/-- One more row over a column that has fallen: it leaves its place only if it was not grounded. -/
theorem Stays.visit (hrect : Rect width (row :: below)) (hc : c < width)
    (hover : Keeps (f + 1) (row :: rows) (row :: below))
    (h : Stays (Free f rows c) (column rows c) (column below c)) :
    Stays (Free (f + 1) (row :: rows) c) (column (row :: rows) c) (column (visit width (f + 1) row below) c) := by
  have hlower : Stays (Free (f + 1) (row :: rows) c) (Grid.lower (column rows c)) (Grid.lower (column below c)) :=
    Stays.lower fun i p hi => (h i p hi).imp_right free_cons_succ.2
  have hleaves (hfate : fateAt (f + 1) row below c ≠ .stays) : Free (f + 1) (row :: rows) c 0 := by
    refine ⟨Nat.succ_pos f, Bool.eq_false_iff.2 fun hg => hfate ?_⟩
    exact fateAt_eq_stays_iff.2 fun _ => .inl (hover 0 c hg).2
  by_cases hs : Solid (row :: below) 0 c
  · have hs' : Solid (row :: rows) 0 c := hs
    rw [column_cons_of_solid hs']
    cases hfate : fateAt (f + 1) row below c with
    | stays =>
        rw [column_visit_of_stays hrect hc hfate, column_cons_of_solid hs]
        exact hlower.cons (.inl rfl)
    | vanishes =>
        obtain ⟨hbelow, hvisit⟩ := column_visit_of_vanishes hrect hc hfate
        rw [hbelow] at hlower
        rw [hvisit]
        intro i p hi
        cases i with
        | zero =>
            cases hi
            exact .inr (hleaves (by simp [hfate]))
        | succ i => exact .inr ((hlower i p hi).resolve_left (by simp [Grid.lower]))
    | lands x d =>
        rw [column_visit_of_lands hrect hc hs hfate]
        exact hlower.cons (.inr (hleaves (by simp [hfate])))
  · have hs' : ¬ Solid (row :: rows) 0 c := hs
    have hfate : fateAt (f + 1) row below c = .stays := fateAt_eq_stays_iff.2 fun h => absurd h hs
    rw [column_visit_of_stays hrect hc hfate, column_cons_of_blank hs, column_cons_of_blank hs']
    exact hlower

theorem stays_sweep (hne : ground ≠ []) (hrect : Rect width (above ++ ground)) (hc : c < width) :
    Stays (Free above.length (above ++ ground) c) (column (above ++ ground) c)
      (column (sweep width ground above).1 c) := by
  induction above with
  | nil => exact fun i p hi => .inl hi
  | cons row above ih =>
      rw [sweep_cons, List.cons_append]
      exact (ih hrect.tail).visit (hrect.over_sweep hne) hc (keeps_over_sweep hne hrect (keeps_sweep hne hrect.tail))

namespace Shaped

variable (h : g.Shaped f)

include h

theorem keeps_swept : Keeps f g.rows (swept f g).rows := by
  obtain ⟨hrect, hne, hlen⟩ := h.split
  have hkeeps := keeps_sweep hne hrect
  rwa [List.take_append_drop, hlen] at hkeeps

theorem stays_swept (c : Nat) : Stays (Free f g.rows c) (column g.rows c) (column (swept f g).rows c) := by
  obtain ⟨hrect, hne, hlen⟩ := h.split
  by_cases hc : c < g.width
  · have hstays := stays_sweep hne hrect hc
    rwa [List.take_append_drop, hlen] at hstays
  · rw [column_of_width_le h.rect (Nat.le_of_not_lt hc)]
    exact fun i p hi => by simp at hi

/-- The list is that of the free characters. -/
theorem mem_unsupported_iff : (r, c) ∈ g.unsupported ↔ Solid g.rows r c ∧ Free f g.rows c r := by
  have hlt f' (hf' : g.foundation = some f') : f' < g.rows.length := by
    cases h.foundation.symm.trans hf'
    exact h.lt
  rw [mem_unsupported h.rect hlt, Free, ← isSupported_eq h.foundation]
  simp only [h.foundation, Option.some.injEq, forall_eq']
  rfl

theorem rested_of_unsupported (hnone : g.unsupported = []) : Rested f g.rows := by
  intro r c hr hs
  left
  by_contra hg
  have hmem : (r, c) ∈ g.unsupported := h.mem_unsupported_iff.2 ⟨hs, hr, Bool.eq_false_iff.2 hg⟩
  rw [hnone] at hmem
  cases hmem

end Shaped

theorem solid_of_mem_column {p : Nat × Char} (h : p ∈ column rows c) : Solid rows p.1 c := by
  obtain ⟨r, -, hp⟩ := List.mem_filterMap.1 h
  rw [Option.ite_none_left_eq_some] at hp
  obtain ⟨hs, hp⟩ := hp
  cases hp
  exact Bool.eq_false_iff.2 hs

/-- What is supported in a text stays where it is when the text settles, and stays supported. Counted from the top of
its column, a character that is elsewhere afterwards, or gone, was on the list of what would fall; and if nothing is on
that list, the text only loses the blanks at the ends of its lines. -/
theorem only_listed_fall (text : List Char) (f : Nat) (hf : (ofText text).foundation = some f) :
    (∀ r c, (ofText text).isSupported r c = true →
      (ofText text).settle.1.get r c = (ofText text).get r c ∧ (ofText text).settle.1.isSupported r c = true) ∧
    (∀ (c i : Nat) p, (column (ofText text).rows c)[i]? = some p →
      (column (ofText text).settle.1.rows c)[i]? ≠ some p → (p.1, c) ∈ (ofText text).unsupported) ∧
    ((ofText text).unsupported = [] →
      (fall text).1 = Text.trimLines text ∧ (fall text).2.moved = 0 ∧ (fall text).2.dropped = 0) := by
  have h := shaped_ofText hf
  have hsettle : (ofText text).settle.1 = swept f (ofText text) := by rw [h.settle_eq]
  refine ⟨fun r c hg => ?_, fun c i p hp hmoved => ?_, fun hnone => ?_⟩
  · rw [isSupported_eq hf] at hg
    rw [hsettle, isSupported_eq h.swept_rested.1.foundation]
    exact h.keeps_swept r c hg
  · rw [hsettle] at hmoved
    exact h.mem_unsupported_iff.2 ⟨solid_of_mem_column (List.mem_of_getElem? hp),
      (h.stays_swept c i p hp).resolve_left hmoved⟩
  · obtain ⟨hswept, hstir⟩ := h.swept_of_rested (h.rested_of_unsupported hnone)
    have hfall : fall text = ((ofText text).render, ⟨1, 0, 0⟩) := by
      simp only [fall, hf, h.settle_eq, hswept, hstir, and_self, if_true]
    rw [hfall, render_ofText]
    exact ⟨rfl, rfl, rfl⟩

/-- `b` hangs over the edge and falls out; `a` stays. -/
theorem only_listed_fall_overhang :
    (ofText ['a', ' ', ' ', 'b', '\n', '#']).foundation = some 1 ∧
    (ofText ['a', ' ', ' ', 'b', '\n', '#']).settle.1.get 0 0 = 'a' ∧
    (0, 3) ∈ (ofText ['a', ' ', ' ', 'b', '\n', '#']).unsupported := by
  have hf : (ofText ['a', ' ', ' ', 'b', '\n', '#']).foundation = some 1 := by decide
  obtain ⟨hstays, hlisted, -⟩ := only_listed_fall _ 1 hf
  exact ⟨hf, (hstays 0 0 (by decide)).1, hlisted 3 0 (0, 'b') (by decide) (by decide)⟩

end Cairn.Grid
