import Cairn.Grid.Search
import Cairn.Proofs.Grid.Staircase

/-!
# Searching with a memo

A search that goes down from a cell and notes what it finds gives the right answer, whatever was asked before with the
same memo: from the row it has come to downward all marks are true, and it reads no others.
-/

namespace Cairn.Grid

variable {g : Grid} {f r c d : Nat}

/-! ## Questions that keep an invariant -/

/-- Asked in a state that `I` holds of, `x` answers `a` and keeps `I`. -/
def Answers {σ α : Type} (I : σ → Prop) (x : StateM σ α) (a : α) : Prop :=
  ∀ s, I s → (x.run s).1 = a ∧ I (x.run s).2

namespace Answers

variable {σ α β : Type} {I : σ → Prop}

theorem pure (a : α) : Answers I (Pure.pure a) a := fun _ hs => ⟨rfl, hs⟩

theorem bind {x : StateM σ α} {k : α → StateM σ β} {a : α} {b : β} (hx : Answers I x a) (hk : Answers I (k a) b) :
    Answers I (x >>= k) b := by
  intro s hs
  obtain ⟨ha, hs'⟩ := hx s hs
  have hrun : (x >>= k).run s = (k (x.run s).1).run (x.run s).2 := rfl
  rw [hrun, ha]
  exact hk _ hs'

theorem map {x : StateM σ α} {a : α} (φ : α → β) (hx : Answers I x a) : Answers I (φ <$> x) (φ a) := by
  rw [map_eq_pure_bind]
  exact hx.bind (pure _)

theorem anyM {x : α → StateM σ Bool} {p : α → Bool} {as : List α} (h : ∀ a ∈ as, Answers I (x a) (p a)) :
    Answers I (as.anyM x) (as.any p) := by
  induction as with
  | nil => exact pure false
  | cons a as ih =>
      rw [List.anyM, List.any_cons]
      refine (h a List.mem_cons_self).bind ?_
      cases p a with
      | true => exact pure true
      | false => exact ih fun a' ha' => h a' (List.mem_cons_of_mem a ha')

theorem mapM {x : α → StateM σ β} {φ : α → β} {as : List α} (h : ∀ a ∈ as, Answers I (x a) (φ a)) :
    Answers I (as.mapM x) (as.map φ) := by
  induction as with
  | nil => rw [List.mapM_nil]; exact pure []
  | cons a as ih =>
      rw [List.mapM_cons]
      refine (h a List.mem_cons_self).bind ?_
      exact (ih fun a' ha' => h a' (List.mem_cons_of_mem a ha')).bind (pure _)

theorem filterAuxM {x : α → StateM σ Bool} {p : α → Bool} {as : List α} (h : ∀ a ∈ as, Answers I (x a) (p a))
    (acc : List α) : Answers I (as.filterAuxM x acc) ((as.filter p).reverse ++ acc) := by
  induction as generalizing acc with
  | nil => exact pure acc
  | cons a as ih =>
      have hrest := ih fun a' ha' => h a' (List.mem_cons_of_mem a ha')
      rw [List.filterAuxM, List.filter_cons]
      refine (h a List.mem_cons_self).bind ?_
      cases p a with
      | true => simpa using hrest (a :: acc)
      | false => exact hrest acc

theorem filterM {x : α → StateM σ Bool} {p : α → Bool} {as : List α} (h : ∀ a ∈ as, Answers I (x a) (p a)) :
    Answers I (as.filterM x) (as.filter p) := by
  have hreversed : as.filter p = ((as.filter p).reverse ++ []).reverse := by simp
  rw [hreversed]
  exact (filterAuxM h []).bind (pure _)

end Answers

/-! ## Search -/

/-- The mark that is true of a cell. -/
def verdict (g : Grid) (f r c : Nat) : Mark := if grounded f g.rows r c then .supported else .unsupported

/-- In the rows from `r` down every mark is true, and those above are as in `before`. -/
structure Truthful (g : Grid) (f r : Nat) (before memo : Memo) : Prop where
  above : ∀ i, i < r * g.width → memo[i]? = before[i]?
  below : ∀ r' c mark, r ≤ r' → c < g.width → memo[g.slot r' c]? = some (some mark) → mark = g.verdict f r' c

theorem slot_lt (hc : c < g.width) : g.slot r c < (r + 1) * g.width := by
  rw [slot, Nat.succ_mul]
  omega

theorem le_slot : r * g.width ≤ g.slot r c := Nat.le_add_right _ _

theorem slot_inj {r' c' : Nat} (hc : c < g.width) (hc' : c' < g.width) (h : g.slot r c = g.slot r' c') :
    r = r' ∧ c = c' := by
  have hrow {r c : Nat} (hc : c < g.width) : g.slot r c / g.width = r := by
    rw [slot, Nat.mul_comm, Nat.mul_add_div (Nat.zero_lt_of_lt hc), Nat.div_eq_of_lt hc, Nat.add_zero]
  have hr : r = r' := (hrow hc).symm.trans (h ▸ hrow hc')
  subst hr
  exact ⟨rfl, Nat.add_left_cancel h⟩

theorem mem_columnsUnder (hc : c < g.width) : d ∈ g.columnsUnder c ↔ d ≤ c + 1 ∧ c ≤ d + 1 ∧ d < g.width := by
  rw [columnsUnder, List.mem_range'_1]
  omega

/-- A search that goes below a cell may note what it likes of that cell. -/
theorem Truthful.enter {before memo : Memo} (h : Truthful g f r before memo) (hc : c < g.width) (mark : Mark) :
    Truthful g f (r + 1) (memo.setIfInBounds (g.slot r c) (some mark))
      (memo.setIfInBounds (g.slot r c) (some mark)) := by
  refine ⟨fun _ _ => rfl, fun r' c' mark' hr hc' hmark => ?_⟩
  have hne : g.slot r c ≠ g.slot r' c' := fun heq => by have := (slot_inj hc hc' heq).1; omega
  rw [Array.getElem?_setIfInBounds_ne hne] at hmark
  exact h.below r' c' mark' (Nat.le_of_succ_le hr) hc' hmark

/-- When it comes back and notes what is true of the cell, all is well again. -/
theorem Truthful.leave {before memo memo' : Memo} {mark : Mark} (h : Truthful g f r before memo) (hc : c < g.width)
    (h' : Truthful g f (r + 1) (memo.setIfInBounds (g.slot r c) (some mark)) memo') :
    Truthful g f r before (memo'.setIfInBounds (g.slot r c) (some (g.verdict f r c))) := by
  have hkept {i : Nat} (hi : i < (r + 1) * g.width) (hne : g.slot r c ≠ i) : memo'[i]? = memo[i]? := by
    rw [h'.above i hi, Array.getElem?_setIfInBounds_ne hne]
  constructor
  · intro i hi
    have hne : g.slot r c ≠ i := Nat.ne_of_gt (Nat.lt_of_lt_of_le hi le_slot)
    rw [Array.getElem?_setIfInBounds_ne hne, hkept (by rw [Nat.succ_mul]; omega) hne, h.above i hi]
  · intro r' c' mark' hr hc' hmark
    by_cases heq : g.slot r c = g.slot r' c'
    · obtain ⟨rfl, rfl⟩ := slot_inj hc hc' heq
      rw [Array.getElem?_setIfInBounds_self] at hmark
      split at hmark
      · cases hmark
        rfl
      · cases hmark
    · rw [Array.getElem?_setIfInBounds_ne heq] at hmark
      rcases Nat.eq_or_lt_of_le hr with rfl | hr
      · rw [hkept (slot_lt hc') heq] at hmark
        exact h.below r c' mark' (Nat.le_refl r) hc' hmark
      · exact h'.below r' c' mark' hr hc' hmark

theorem Shaped.any_columnsUnder (h : g.Shaped f) (hr : r < f) (hs : Solid g.rows r c) :
    (g.columnsUnder c).any (grounded f g.rows (r + 1)) = grounded f g.rows r c := by
  rw [Bool.eq_iff_iff, List.any_eq_true, grounded_iff h.rect h.lt hr]
  simp only [mem_columnsUnder (h.rect.lt_of_solid hs).2]
  constructor
  · rintro ⟨d, ⟨hdc, hcd, -⟩, hd⟩
    exact ⟨hs, d, hdc, hcd, hd⟩
  · rintro ⟨-, d, hdc, hcd, hd⟩
    exact ⟨d, ⟨hdc, hcd, (h.rect.lt_of_solid (solid_of_grounded h.rect h.lt hd)).2⟩, hd⟩

/-- A cell is remembered rightly if it is looked into rightly by a search that may not rely on its own mark. -/
theorem remembered_answers {look : StateM Memo Bool} (hc : c < g.width)
    (h : ∀ before, Answers (Truthful g f (r + 1) before) look (grounded f g.rows r c)) (before : Memo) :
    Answers (Truthful g f r before) (g.remembered r c look) (grounded f g.rows r c) := by
  intro memo hmemo
  cases hmark : memo[g.slot r c]?.join with
  | some mark =>
      have hrun : (g.remembered r c look).run memo = (decide (mark = .supported), memo) := by
        simp only [remembered, StateT.run_bind, StateT.run_get, pure_bind, hmark]
        cases mark <;> rfl
      have htrue := hmemo.below r c mark (Nat.le_refl r) hc (Option.join_eq_some_iff.1 hmark)
      rw [hrun]
      refine ⟨?_, hmemo⟩
      rw [htrue, verdict]
      cases grounded f g.rows r c <;> rfl
  | none =>
      obtain ⟨hfound, hmemo'⟩ := h _ _ (hmemo.enter hc .visiting)
      have hrun : (g.remembered r c look).run memo =
          ((look.run (memo.setIfInBounds (g.slot r c) (some .visiting))).1,
            (look.run (memo.setIfInBounds (g.slot r c) (some .visiting))).2.setIfInBounds (g.slot r c)
              (some (if (look.run (memo.setIfInBounds (g.slot r c) (some .visiting))).1 then .supported
                else .unsupported))) := by
        simp only [remembered, StateT.run_bind, StateT.run_get, pure_bind, hmark]
        rfl
      rw [hrun, hfound]
      exact ⟨rfl, hmemo.leave hc hmemo'⟩

theorem Shaped.search_answers (h : g.Shaped f) (r c : Nat) (before : Memo) :
    Answers (Truthful g f r before) (g.search f r c) (grounded f g.rows r c) := by
  fun_induction search g f r c generalizing before with
  | case1 r c hblank =>
      have hfree : grounded f g.rows r c = false := by
        rw [← Bool.not_eq_true]
        intro hg
        have hs : Text.isBlank (g.get r c) = false := solid_of_grounded h.rect h.lt hg
        rw [hblank] at hs
        cases hs
      rw [hfree]
      exact .pure false
  | case2 r c hblank hr ih =>
      have hs : Solid g.rows r c := Bool.eq_false_iff.2 hblank
      refine remembered_answers (h.rect.lt_of_solid hs).2 (fun before => ?_) before
      rw [← h.any_columnsUnder hr hs]
      exact .anyM fun d _ => ih d before
  | case3 r c hblank hr =>
      have hfoot : grounded f g.rows r c = (r == f && g.get r c == '#') := by
        by_cases hrf : r = f
        · rw [hrf, grounded_at_foundation h.lt, beq_self_eq_true, Bool.true_and]
          rfl
        · rw [beq_false_of_ne hrf, Bool.false_and, ← Bool.not_eq_true]
          intro hg
          have hle := le_of_grounded hg
          omega
      rw [hfoot]
      exact .pure _

/-- Every mark of the memo is true. -/
def Honest (g : Grid) (memo : Memo) : Prop :=
  ∀ f r c mark, g.foundation = some f → c < g.width → memo[g.slot r c]? = some (some mark) → mark = g.verdict f r c

theorem honest_emptyMemo (g : Grid) : Honest g g.emptyMemo := by
  intro f r c mark _ _ hmark
  rw [emptyMemo, Array.getElem?_replicate] at hmark
  split at hmark
  · cases hmark
  · cases hmark

section

variable (hrect : Rect g.width g.rows) (hf : ∀ f, g.foundation = some f → f < g.rows.length)

include hrect hf

theorem ask_answers (r c : Nat) : Answers (Honest g) (g.ask r c) (g.isSupported r c) := by
  cases hfound : g.foundation with
  | none =>
      rw [ask, hfound, isSupported_of_none hfound]
      exact .pure false
  | some f =>
      have h : g.Shaped f := ⟨hrect, hfound, hf f hfound⟩
      intro memo hmemo
      simp only [ask, hfound, isSupported_eq hfound]
      obtain ⟨hanswer, habove, hbelow⟩ := h.search_answers r c memo memo
        ⟨fun _ _ => rfl, fun r' c' mark _ => hmemo f r' c' mark hfound⟩
      refine ⟨hanswer, fun f' r' c' mark hfound' hc hmark => ?_⟩
      cases hfound.symm.trans hfound'
      rcases Nat.lt_or_ge r' r with hr | hr
      · rw [habove _ (Nat.lt_of_lt_of_le (slot_lt hc) (Nat.mul_le_mul_right _ hr))] at hmark
        exact hmemo f r' c' mark hfound hc hmark
      · exact hbelow r' c' mark hr hc hmark

theorem survey_answers : Answers (Honest g) g.survey g.unsupported := by
  rw [unsupported_eq hrect hf]
  refine .filterM fun p _ => ?_
  cases Text.isBlank (g.get p.1 p.2) with
  | true => exact .pure false
  | false => exact (ask_answers hrect hf p.1 p.2).map (!·)

end

/-! ## Support, by search or not -/

/-- A cell of a text is supported exactly if a staircase leads down from it; so are all cells that are searched one
after the other with one memo. The list of what would fall holds, in reading order, just the characters above the
foundation that are not supported, or all if there is no foundation, and the search with one memo finds the same. -/
theorem support_is_staircase (text : List Char) :
    (∀ r c, (ofText text).isSupported r c = true ↔
      ∃ f path, (ofText text).foundation = some f ∧ Staircase (ofText text) f r c path) ∧
    (∀ cells : List (Nat × Nat),
      ((cells.mapM fun p => (ofText text).ask p.1 p.2).run (ofText text).emptyMemo).1 =
        cells.map fun p => (ofText text).isSupported p.1 p.2) ∧
    (ofText text).unsupported.Pairwise (Prod.Lex (· < ·) (· < ·)) ∧
    (∀ r c, (r, c) ∈ (ofText text).unsupported ↔ Text.isBlank ((ofText text).get r c) = false ∧
      ∀ f, (ofText text).foundation = some f → r < f ∧ (ofText text).isSupported r c = false) ∧
    ((ofText text).survey.run (ofText text).emptyMemo).1 = (ofText text).unsupported := by
  have hrect := rect_ofText text
  have hlt f (hf : (ofText text).foundation = some f) : f < (ofText text).rows.length := (shaped_ofText hf).lt
  have hempty := honest_emptyMemo (ofText text)
  refine ⟨fun r c => ?_, fun cells => ?_, ?_, fun r c => mem_unsupported hrect hlt, ?_⟩
  · cases hf : (ofText text).foundation with
    | none => simp [isSupported_of_none hf]
    | some f =>
        rw [isSupported_eq hf]
        constructor
        · intro hg
          obtain ⟨path, hpath⟩ := ((shaped_ofText hf).grounded_iff_staircase (le_of_grounded hg)).1 hg
          exact ⟨f, path, rfl, hpath⟩
        · rintro ⟨f', path, heq, hpath⟩
          cases heq
          exact ((shaped_ofText hf).grounded_iff_staircase hpath.le).2 ⟨path, hpath⟩
  · exact (Answers.mapM (fun p _ => ask_answers hrect hlt p.1 p.2) _ hempty).1
  · rw [unsupported_eq hrect hlt]
    exact (places_sorted _ _).filter _
  · exact (survey_answers hrect hlt _ hempty).1

end Cairn.Grid
