import Cairn.Value.Store
import Mathlib.Data.Finset.Card
import Mathlib.Data.Finset.Image
import Mathlib.Logic.Relation

/-!
# Values that contain themselves

A value has a text unless, from one thing to what is inside of it, one comes back to a thing where one was before. The
allowed nesting is deep enough for all other values: each step inward leaves one thing of the store behind.
-/

namespace Cairn

theorem mapM_eq_none_iff {α β : Type} {f : α → Option β} {l : List α} : l.mapM f = none ↔ ∃ a ∈ l, f a = none := by
  induction l with
  | nil => simp
  | cons a rest ih =>
      rw [List.mapM_cons]
      cases hf : f a with
      | none => simp [hf]
      | some b =>
          cases hrest : rest.mapM f with
          | none => simpa [hf, hrest] using ih.1 hrest
          | some bs => simpa [hf, hrest] using ih.not.1 (by simp [hrest])

theorem joined_eq_none_iff {α β γ : Type} {f : α → Option β} {join : List β → γ} {l : List α} :
    (do let parts ← l.mapM f; return join parts) = none ↔ ∃ a ∈ l, f a = none := by
  rw [← mapM_eq_none_iff]
  cases l.mapM f with
  | none => simp
  | some parts => simp

namespace Store

/-- The values inside of a value, one step inward. -/
def inside (s : Store) : Value → List Value
  | .array ref => (s.items ref).toList
  | .prototype ref => (s.entries ref).entries.map Prod.snd
  | .variant ref => (s.variant ref).fields.map Prod.snd
  | _ => []

def Holds (s : Store) (v u : Value) : Prop := u ∈ s.inside v

/-- On the way inward from the value there is one that contains itself. -/
def Endless (s : Store) (v : Value) : Prop :=
  ∃ u, Relation.ReflTransGen s.Holds v u ∧ Relation.TransGen s.Holds u u

variable {s : Store} {v u : Value} {depth : Nat}

theorem nested_zero_eq_none_of_holds (h : s.Holds v u) : s.nested 0 v = none := by
  cases v with
  | array ref | prototype ref | variant ref => rfl
  | _ => cases h

theorem nested_succ_eq_none_iff : s.nested (depth + 1) v = none ↔ ∃ u, s.Holds v u ∧ s.nested depth u = none := by
  cases v with
  | array ref =>
      exact joined_eq_none_iff
  | prototype ref =>
      simp only [nested, Holds, inside]
      cases (s.entries ref).entries with
      | nil => simp
      | cons entry rest =>
          refine joined_eq_none_iff.trans ?_
          simp only [Option.map_eq_none_iff, List.mem_map, exists_exists_and_eq_and]
  | variant ref =>
      simp only [nested, Holds, inside]
      cases (s.variant ref).fields with
      | nil => simp
      | cons field rest =>
          refine joined_eq_none_iff.trans ?_
          simp only [List.mem_map, exists_exists_and_eq_and]
  | _ => simp [nested, Holds, inside]

/-- What lies on the way inward from there on. -/
theorem Endless.holds (h : s.Endless v) : ∃ u, s.Holds v u ∧ s.Endless u := by
  obtain ⟨w, hw, hcycle⟩ := h
  obtain rfl | ⟨u, hu, hrest⟩ := Relation.ReflTransGen.cases_head hw
  · obtain ⟨u, hu, hback⟩ := Relation.TransGen.head'_iff.1 hcycle
    exact ⟨u, hu, v, hback, hcycle⟩
  · exact ⟨u, hu, w, hrest, hcycle⟩

theorem Endless.nested (h : s.Endless v) (depth : Nat) : s.nested depth v = none := by
  induction depth generalizing v with
  | zero =>
      obtain ⟨u, hu, -⟩ := h.holds
      exact nested_zero_eq_none_of_holds hu
  | succ depth ih =>
      obtain ⟨u, hu, hendless⟩ := h.holds
      exact nested_succ_eq_none_iff.2 ⟨u, hu, ih hendless⟩

/-- Where all that holds something is among less than `depth` values, nesting beyond `depth` comes back to one of them. -/
theorem endless_of_nested (among : Finset Value)
    (hamong : ∀ w w', Relation.ReflTransGen s.Holds v w → s.Holds w w' → w ∈ among) (hlt : among.card < depth)
    (h : s.nested depth v = none) : s.Endless v := by
  induction depth generalizing v among with
  | zero => exact absurd hlt (Nat.not_lt_zero _)
  | succ depth ih =>
      obtain ⟨u, hu, hnested⟩ := nested_succ_eq_none_iff.1 h
      by_cases hback : Relation.ReflTransGen s.Holds u v
      · exact ⟨v, .refl, .head' hu hback⟩
      -- From `u` on the way goes without `v`.
      have hv : v ∈ among := hamong v u .refl hu
      have hcard : (among.erase v).card < depth := by
        have := Finset.card_erase_lt_of_mem hv
        omega
      have hrest (w w' : Value) (hw : Relation.ReflTransGen s.Holds u w) (hw' : s.Holds w w') : w ∈ among.erase v :=
        Finset.mem_erase.2 ⟨fun heq => hback (heq ▸ hw), hamong w w' (.head hu hw) hw'⟩
      obtain ⟨w, hw, hcycle⟩ := ih (among.erase v) hrest hcard hnested
      exact ⟨w, .head hu hw, hcycle⟩

/-- The arrays, prototypes and variants of the store. -/
def things (s : Store) : Finset Value :=
  (Finset.range s.arrays.size).image .array ∪ (Finset.range s.prototypes.size).image .prototype ∪
    (Finset.range s.variants.size).image .variant

theorem card_things_lt (s : Store) : s.things.card < s.depth := by
  have hunion := Finset.card_union_le ((Finset.range s.arrays.size).image .array ∪
    (Finset.range s.prototypes.size).image .prototype) ((Finset.range s.variants.size).image Value.variant)
  have hunion' := Finset.card_union_le ((Finset.range s.arrays.size).image Value.array)
    ((Finset.range s.prototypes.size).image .prototype)
  have hsize (f : Nat → Value) (n : Nat) : ((Finset.range n).image f).card ≤ n :=
    Finset.card_image_le.trans (Finset.card_range n).le
  have harrays := hsize .array s.arrays.size
  have hprototypes := hsize .prototype s.prototypes.size
  have hvariants := hsize .variant s.variants.size
  rw [things, depth]
  omega

theorem mem_things_of_holds (h : s.Holds v u) : v ∈ s.things := by
  cases v with
  | array ref =>
      by_cases hlt : ref < s.arrays.size
      · simp [things, hlt]
      · simp [Holds, inside, items, Nat.not_lt.1 hlt] at h
  | prototype ref =>
      by_cases hlt : ref < s.prototypes.size
      · simp [things, hlt]
      · simp [Holds, inside, entries, Nat.not_lt.1 hlt] at h
  | variant ref =>
      by_cases hlt : ref < s.variants.size
      · simp [things, hlt]
      · simp [Holds, inside, variant, Nat.not_lt.1 hlt] at h
  | _ => cases h

/-- A value has no text if and only if it contains itself, or something that does. -/
theorem display_eq_none_iff : s.display v = none ↔ s.Endless v := by
  constructor
  · intro h
    cases v with
    | text t => cases h
    | _ => exact endless_of_nested s.things (fun _ _ _ hw => mem_things_of_holds hw) s.card_things_lt h
  · intro h
    cases v with
    | text t =>
        obtain ⟨u, hu, -⟩ := h.holds
        cases hu
    | _ => exact h.nested s.depth

end Store

end Cairn
