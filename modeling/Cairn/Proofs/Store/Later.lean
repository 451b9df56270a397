import Cairn.Proofs.Leaks

/-!
# What was made stays

Whatever is undertaken, and at every moment on its way, functions, constructors and variants are as they were made. A
world is later than another if such undertakings lead there; only starting anew takes things away.
-/

namespace Cairn

/-- On its way and at its end, the computation has all that was made before it. -/
def Run.Preserves {α : Type} (r : Run α) : Prop :=
  ∀ m : Moment, (∀ y, r.passes m y → m.world.store.Extends y.world.store) ∧
    ∀ w, (r m.world).world? = some w → m.world.store.Extends w.store

namespace Run.Preserves

variable {α β : Type} {m : Run α} {k : α → Run β}

theorem pure (a : α) : (Pure.pure a : Run α).Preserves := by
  refine fun x => ⟨fun _ hy => hy.elim, fun w hw => ?_⟩
  cases hw
  exact .refl _

theorem step {f : World → Outcome α} (h : ∀ w w', (f w).world? = some w' → w.store.Extends w'.store) :
    (Run.step f).Preserves :=
  fun _ => ⟨fun _ hy => h _ _ hy.1, fun _ hw => h _ _ hw⟩

theorem bind (hm : m.Preserves) (hk : ∀ a, (k a).Preserves) : (m >>= k).Preserves := by
  intro x
  have hfirst {a : α} {w : World} (h : m x.world = .ok a w) : x.world.store.Extends w.store :=
    (hm x).2 w (by rw [h]; rfl)
  refine ⟨?_, fun w' hw => ?_⟩
  · rintro y (hy | ⟨a, w, h, hy⟩)
    · exact (hm x).1 y hy
    · exact (hfirst h).trans ((hk a { x with world := w }).1 y hy)
  · rw [Run.run_bind] at hw
    cases h : m x.world with
    | ok a w =>
        rw [h] at hw
        exact (hfirst h).trans ((hk a { x with world := w }).2 w' hw)
    | fault f w =>
        rw [h] at hw
        exact (hm x).2 w' (by rw [h]; exact hw)
    | abort why => rw [h] at hw; cases hw

theorem scopes (f : Arena → Arena) : (Run.modifyScopes f).Preserves := by
  refine step fun w w' hw => ?_
  cases hw
  exact .refl w.store

theorem within (i : ScopeId) (h : m.Preserves) : (Run.within i m).Preserves := by
  refine fun x => ⟨?_, (h x).2⟩
  rintro y (rfl | hy)
  · exact .refl _
  · exact (h { x with scope := i }).1 y hy

theorem releasing (i : ScopeId) (h : m.Preserves) : (Run.releasing i m).Preserves := by
  refine fun x => ⟨?_, fun w' hw => ?_⟩
  · rintro y (hy | ⟨w, hw, rfl⟩)
    · exact (h x).1 y hy
    · exact (h x).2 w hw
  · rw [Run.world?_releasing] at hw
    obtain ⟨w, hended, rfl⟩ := Option.map_eq_some_iff.mp hw
    exact (h x).2 w hended

end Run.Preserves

theorem Run.Composed.preserves {K : ScopeId → Prop} {α : Type} {r : Run α}
    (h : Run.Composed (fun _ => True) K r) : r.Preserves := by
  induction h with
  | pure a => exact .pure a
  | bind _ _ ihm ihk => exact .bind ihm ihk
  | look _ ih =>
      refine .bind (.step fun w w' hw => ?_) fun w => ih w fun _ _ _ _ _ _ _ _ => trivial
      cases hw
      exact .refl w.store
  | quiet h => exact .step fun w w' hw => ((h w).beside hw).store
  | misplaced => exact .step fun w w' hw => Option.some.inj hw ▸ .refl w.store
  | define => exact .scopes _
  | set => exact .scopes _
  | @function K c _ _ =>
      refine .bind (.scopes _) fun _ => .step fun w w' hw => ?_
      cases hw
      exact .newClosure w.store c
  | register kind _ _ =>
      refine .bind (.scopes _) fun _ => .step fun w w' hw => ?_
      cases hw
      cases kind with
      | draw => exact .refl w.store
      | update => exact .refl w.store
  | opened _ _ ih =>
      refine .bind (.step fun w w' hw => ?_) fun i => .releasing i (.within i (ih i))
      cases hw
      exact .refl w.store
  | within _ _ ih => exact .within _ ih

theorem Run.Undertaken.preserves {fuel : Nat} {i : ScopeId} {α : Type} {r : Run α} (h : r.Undertaken fuel i) :
    r.Preserves :=
  h.composed.preserves

namespace World

/-- A world on the way from `w` on, as long as nothing starts anew. Between undertakings, and for the next one, anything
but the store may change. -/
inductive Later (w : World) : World → Prop where
  | now : Later w w
  | aside {w₁ w₂ : World} (h : Later w w₁) (hstore : w₂.store = w₁.store) : Later w w₂
  | during {w₁ : World} {m : Moment} {i : ScopeId} {fuel : Nat} {α : Type} {r : Run α} (h : Later w w₁)
      (hr : r.Undertaken fuel i) (hm : r.passes ⟨w₁, i⟩ m) : Later w m.world
  | after {w₁ w₂ : World} {i : ScopeId} {fuel : Nat} {α : Type} {r : Run α} (h : Later w w₁)
      (hr : r.Undertaken fuel i) (hw : (r w₁).world? = some w₂) : Later w w₂

/-- What was made once is there in every later world. -/
theorem Later.extends {w w' : World} (h : w.Later w') : w.store.Extends w'.store := by
  induction h with
  | now => exact .refl w.store
  | aside _ hstore ih => exact hstore ▸ ih
  | @during w₁ m i _ _ _ _ hr hm ih => exact ih.trans ((hr.preserves ⟨w₁, i⟩).1 m hm)
  | @after w₁ w₂ i _ _ _ _ hr hw ih => exact ih.trans ((hr.preserves ⟨w₁, i⟩).2 w₂ hw)

end World

end Cairn
