import Cairn.Proofs.Composition
import Cairn.Proofs.Recycling
import Mathlib.Data.Finset.Card

/-!
# No scope is lost

Whatever is undertaken in a world, and whether it ends with a value or with a fault, the scopes in use at the end are
those in use before and the scopes opened on the way that a function or a frame block was declared in or inside of. All
other scopes were released.
-/

namespace Cairn

/-! ## Scopes that code is declared in -/

/-- Some function or frame block was declared in this scope, or in one inside of it. -/
def World.Pins (w : World) (t : ScopeId) : Prop :=
  ∃ body i path, w.Holds body i ∧ w.scopes.Leads i path ∧ t ∈ path

/-- Sound, and released scopes are used again. -/
structure World.Tidy (w : World) : Prop where
  sound : w.Sound
  recycles : w.scopes.recycles = true

structure Moment.Tidy (m : Moment) : Prop where
  world : m.world.Tidy
  scope : m.world.scopes.InUse m.scope

namespace World

/-- The world with a new scope inside of `parent`. -/
def enter (w : World) (parent : ScopeId) : World := { w with scopes := (w.scopes.child parent).2 }

/-- The world once a scope was released. -/
def leave (w : World) (i : ScopeId) : World := { w with scopes := w.scopes.release i }

variable {w w' : World} {t i : ScopeId} {body : List Stmt}

theorem Sound.captured (h : w.Sound) (hheld : w.Holds body i) : (w.scopes.scope i).captured = true := by
  cases hheld with
  | @function c hc =>
      obtain ⟨ref, hlt, hget⟩ := Array.mem_iff_getElem.1 hc
      have hclosure : w.store.closure ref = c := by simp [Store.closure, hlt, hget]
      exact hclosure ▸ h.functions ref
  | draw hr => exact h.draw _ hr
  | update hr => exact h.update _ hr

theorem Sound.of_holds (hscopes : w.scopes.WellFormed)
    (h : ∀ body i, w.Holds body i → (w.scopes.scope i).captured = true) : w.Sound where
  scopes := hscopes
  functions ref := by
    obtain hheld | ⟨-, hscope⟩ := w.closure_cases ref
    · exact h _ _ hheld
    · rw [hscope]
      exact hscopes.global
  draw _ hr := h _ _ (.draw hr)
  update _ hr := h _ _ (.update hr)

theorem Sound.inUse (h : w.Sound) (hheld : w.Holds body i) : w.scopes.InUse i :=
  h.scopes.inUse_of_captured i (h.captured hheld)

theorem Pins.captured (h : w.Pins t) (hw : w.Sound) : (w.scopes.scope t).captured = true := by
  obtain ⟨body, i, path, hheld, hpath, ht⟩ := h
  exact hpath.captured (hw.scopes.capturedOutward path) (hw.captured hheld) t ht

theorem Tidy.of_scopes (h : w.Tidy) (hscopes : w'.scopes = w.scopes)
    (hheld : ∀ body i, w'.Holds body i → (w.scopes.scope i).captured = true) : w'.Tidy := by
  refine ⟨.of_holds ?_ ?_, ?_⟩
  · exact hscopes ▸ h.sound.scopes
  · rwa [hscopes]
  · rw [hscopes]
    exact h.recycles

theorem Tidy.beside (h : w.Tidy) (hw : w.Beside w') : w'.Tidy :=
  h.of_scopes hw.scopes fun _ _ hheld => h.sound.captured (hw.holds hheld)

theorem Tidy.setScopes (h : w.Tidy) {scopes : Arena} (hscopes : scopes.WellFormed) (hr : scopes.recycles = true)
    (hcaptured : ∀ t, (w.scopes.scope t).captured = true → (scopes.scope t).captured = true) :
    { w with scopes }.Tidy := by
  refine ⟨.of_holds hscopes fun body i hheld => ?_, hr⟩
  exact hcaptured i (h.sound.captured (hheld.congr rfl rfl rfl))

theorem Tidy.enter (h : w.Tidy) (hi : w.scopes.InUse i) : (w.enter i).Tidy := by
  refine h.setScopes (h.sound.scopes.child hi) (by simpa using h.recycles) fun t ht => ?_
  have hne : t ≠ (w.scopes.child i).1 :=
    fun heq => Arena.not_inUse_child (heq ▸ h.sound.scopes.inUse_of_captured t ht)
  rwa [Arena.scope_child_of_ne hne]

/-- A scope that was opened may be released once nothing but captured scopes was added to those at its opening. -/
theorem Tidy.leave (h : w.Tidy) (hi : w.scopes.InUse i) (h' : w'.Tidy)
    (hextends : (w.enter i).scopes.Extends w'.scopes) : (w'.leave (w.scopes.child i).1).Tidy := by
  have hwf := h.sound.scopes
  have huse : w'.scopes.InUse (w.scopes.child i).1 :=
    hextends.inUse _ ((Arena.inUse_child hwf.freeSlots).2 (.inl rfl))
  have hinner (hc : (w'.scopes.scope (w.scopes.child i).1).captured = false) (t : ScopeId) (ht : w'.scopes.InUse t) :=
    Arena.Extends.parent_ne_child hwf hi hextends h'.sound.scopes hc ht
  exact h'.setScopes (h'.sound.scopes.release huse hinner) (by simpa using h'.recycles) fun t ht => by simpa using ht

theorem Tidy.of_start (device : Device) (chances : Nat → Chance) : (World.start device chances).Tidy :=
  ⟨(Twins.start device chances).sound, (Twins.start device chances).scopes.recycles⟩

theorem Tidy.reset (h : w.Tidy) : w.reset.Tidy := by
  rw [World.reset, h.recycles]
  exact .of_start _ _

end World

/-! ## What a computation leaves -/

/-- From `m` the computation comes to `w'`: the scopes before are there, what was captured on the way is so still, and
what is captured now was so before, or code was declared in it on the way. -/
structure Run.Leaves {α : Type} (r : Run α) (m : Moment) (w' : World) : Prop where
  tidy : w'.Tidy
  scopes : m.world.scopes.Extends w'.scopes
  kept : ∀ y, r.passes m y → ∀ t, (y.world.scopes.scope t).captured = true → (w'.scopes.scope t).captured = true
  pinned : ∀ t, (w'.scopes.scope t).captured = true →
    (m.world.scopes.scope t).captured = true ∨ ∃ y, r.passes m y ∧ y.world.Pins t

/-- Where the scopes of `K` are in use, the computation passes through tidy moments and accounts for its scopes. -/
def Run.Accounts {α : Type} (K : ScopeId → Prop) (r : Run α) : Prop :=
  ∀ m : Moment, m.Tidy → (∀ t, K t → m.world.scopes.InUse t) →
    (∀ y, r.passes m y → y.Tidy) ∧ ∀ w', (r m.world).world? = some w' → r.Leaves m w'

section

variable {α : Type} (parent : ScopeId) (m : ScopeId → Run α)

theorem Run.world?_releasing (i : ScopeId) (r : Run α) (w : World) :
    (Run.releasing i r w).world? = (r w).world?.map (·.leave i) := by
  simp only [Run.releasing]
  cases r w <;> rfl

theorem Run.world?_opened (w : World) :
    ((Run.openScope parent >>= fun i => Run.releasing i (Run.within i (m i))) w).world? =
      (m (w.scopes.child parent).1 (w.enter parent)).world?.map (·.leave (w.scopes.child parent).1) :=
  Run.world?_releasing _ (Run.within _ (m _)) (w.enter parent)

theorem Run.passes_opened (x y : Moment) :
    (Run.openScope parent >>= fun i => Run.releasing i (Run.within i (m i))).passes x y ↔
      let i := (x.world.scopes.child parent).1
      y = ⟨x.world.enter parent, x.scope⟩ ∨ y = ⟨x.world.enter parent, i⟩ ∨
        (m i).passes ⟨x.world.enter parent, i⟩ y ∨
        ∃ w, (m i (x.world.enter parent)).world? = some w ∧ y = ⟨w.leave i, x.scope⟩ := by
  constructor
  · rintro (⟨hy, hs⟩ | ⟨i, w, h, (hy | hy) | ⟨w', hw', hy⟩⟩)
    · obtain ⟨y, s⟩ := y
      cases hy
      cases hs
      exact .inl rfl
    · cases h
      exact .inr (.inl hy)
    · cases h
      exact .inr (.inr (.inl hy))
    · cases h
      exact .inr (.inr (.inr ⟨w', hw', hy⟩))
  · rintro (rfl | hy | hy | ⟨w, hw, hy⟩)
    · exact .inl ⟨rfl, rfl⟩
    · exact .inr ⟨_, _, rfl, .inl (.inl hy)⟩
    · exact .inr ⟨_, _, rfl, .inl (.inr hy)⟩
    · exact .inr ⟨_, _, rfl, .inr ⟨w, hw, hy⟩⟩

end

theorem Outcome.Quiet.beside {α : Type} {w w' : World} {o : Outcome α} (h : o.Quiet w) (hw : o.world? = some w') :
    w.Beside w' := by
  cases o with
  | ok a w₁ => cases hw; exact h
  | fault f w₁ => cases hw; exact h.2 ▸ .refl w
  | abort why => cases hw

namespace Run.Accounts

variable {K : ScopeId → Prop} {α β : Type}

theorem pure (a : α) : Accounts K (Pure.pure a : Run α) := by
  refine fun m hm _ => ⟨fun _ hy => hy.elim, fun w' hw => ?_⟩
  cases hw
  exact ⟨hm.world, .refl _, fun _ hy => hy.elim, fun t ht => .inl ht⟩

theorem step {f : World → Outcome α}
    (h : ∀ w w', w.Tidy → (∀ t, K t → w.scopes.InUse t) → (f w).world? = some w' → w'.Tidy ∧
      w.scopes.Extends w'.scopes ∧
      ∀ t, (w'.scopes.scope t).captured = true → (w.scopes.scope t).captured = true ∨ w'.Pins t) :
    Accounts K (Run.step f) := by
  refine fun m hm hK => ⟨fun y hy => ?_, fun w' hw => ?_⟩
  · obtain ⟨hworld, hscope⟩ := hy
    obtain ⟨htidy, hextends, -⟩ := h _ _ hm.world hK hworld
    exact ⟨htidy, hscope ▸ hextends.inUse _ hm.scope⟩
  · obtain ⟨htidy, hextends, hpinned⟩ := h _ _ hm.world hK hw
    refine ⟨htidy, hextends, fun y hy t ht => ?_, fun t ht => (hpinned t ht).imp_right fun hpins => ?_⟩
    · have hworld : some y.world = some w' := hy.1.symm.trans hw
      cases hworld
      exact ht
    · exact ⟨⟨w', m.scope⟩, ⟨hw, rfl⟩, hpins⟩

theorem beside {f : World → Outcome α} (h : ∀ w w', (f w).world? = some w' → w.Beside w') :
    Accounts K (Run.step f) := by
  refine step fun w w' htidy _ hw => ?_
  have hbeside := h w w' hw
  refine ⟨htidy.beside hbeside, hbeside.scopes ▸ .refl _, fun t ht => .inl ?_⟩
  rwa [hbeside.scopes] at ht

theorem define (i : World → ScopeId) (name : String) (v : Value) :
    Accounts K (Run.modify fun w => { w with scopes := w.scopes.define (i w) name v }) := by
  refine step fun w w' htidy _ hw => ?_
  cases hw
  exact ⟨htidy.setScopes htidy.sound.scopes.define htidy.recycles fun t => by simp, .define, fun t ht =>
    .inl (by simpa using ht)⟩

theorem andThen {L : α → ScopeId → Prop} {m : Run α} {k : α → Run β} (hm : Accounts K m) (hk : ∀ a, Accounts (L a) (k a))
    (hL : ∀ w a w', w.Tidy → m w = .ok a w' → w'.Tidy → (∀ t, K t → w'.scopes.InUse t) →
      ∀ t, L a t → w'.scopes.InUse t) : Accounts K (m >>= k) := by
  intro x hx hK
  obtain ⟨hpassed, hended⟩ := hm x hx hK
  have hnext {a : α} {w : World} (h : m x.world = .ok a w) :
      (∀ y, (k a).passes { x with world := w } y → y.Tidy) ∧
        ∀ w', (k a w).world? = some w' → (k a).Leaves { x with world := w } w' := by
    have hleaves := hended w (by rw [h]; rfl)
    refine hk a { x with world := w } ⟨hleaves.tidy, hleaves.scopes.inUse _ hx.scope⟩ ?_
    exact hL x.world a w hx.world h hleaves.tidy fun t ht => hleaves.scopes.inUse t (hK t ht)
  refine ⟨?_, fun w' hw => ?_⟩
  · rintro y (hy | ⟨a, w, h, hy⟩)
    · exact hpassed y hy
    · exact (hnext h).1 y hy
  · rw [Run.run_bind] at hw
    cases h : m x.world with
    | abort why => rw [h] at hw; cases hw
    | fault f w =>
        rw [h] at hw
        cases hw
        obtain ⟨htidy, hscopes, hkept, hpinned⟩ := hended w' (by rw [h]; rfl)
        refine ⟨htidy, hscopes, ?_, fun t ht => (hpinned t ht).imp_right fun ⟨y, hy, hp⟩ => ⟨y, .inl hy, hp⟩⟩
        rintro y (hy | ⟨a, w₁, h₁, -⟩)
        · exact hkept y hy
        · rw [h] at h₁
          cases h₁
    | ok a w =>
        rw [h] at hw
        have hfirst := hended w (by rw [h]; rfl)
        have hrest := (hnext h).2 w' hw
        refine ⟨hrest.tidy, hfirst.scopes.trans hrest.scopes, ?_, fun t ht => ?_⟩
        · rintro y (hy | ⟨a', w₁, h₁, hy⟩) t ht
          · -- Nothing that comes after releases a captured scope.
            have hcaptured := hfirst.kept y hy t ht
            exact hrest.scopes.captured t (hfirst.tidy.sound.scopes.inUse_of_captured t hcaptured) hcaptured
          · rw [h] at h₁
            cases h₁
            exact hrest.kept y hy t ht
        · obtain hbefore | ⟨y, hy, hp⟩ := hrest.pinned t ht
          · exact (hfirst.pinned t hbefore).imp_right fun ⟨y, hy, hp⟩ => ⟨y, .inl hy, hp⟩
          · exact .inr ⟨y, .inr ⟨a, w, h, hy⟩, hp⟩

theorem bind {m : Run α} {k : α → Run β} (hm : Accounts K m) (hk : ∀ a, Accounts K (k a)) : Accounts K (m >>= k) :=
  hm.andThen hk fun _ _ _ _ _ _ hK => hK

theorem look {k : World → Run α}
    (hk : ∀ w, Accounts (fun i => K i ∨ i = .global ∨ ∃ body, w.Holds body i) (k w)) :
    Accounts K (Run.world >>= k) := by
  refine andThen (beside fun w w' hw => Option.some.inj hw ▸ .refl w) hk fun w a w' htidy h _ hK t ht => ?_
  cases h
  obtain ht | rfl | ⟨body, hheld⟩ := ht
  · exact hK t ht
  · exact htidy.sound.scopes.global_inUse
  · -- Code is declared in captured scopes only, and these are in use.
    exact htidy.sound.inUse hheld

theorem declare {i : ScopeId} {v : World → α} {f : World → World} (hi : K i) (hscopes : ∀ w, (f w).scopes = w.scopes)
    (hheld : ∀ w body j, (f w).Holds body j → w.Holds body j ∨ j = i) (hnew : ∀ w, ∃ body, (f w).Holds body i) :
    Accounts K (Run.modifyScopes (·.capture i) >>= fun _ => Run.step fun w => .ok (v w) (f w)) := by
  intro x hx hK
  have hwf := hx.world.sound.scopes
  obtain ⟨path, hpath, hinUse⟩ := hwf.way (hK i hi)
  have hextends : x.world.scopes.Extends (x.world.scopes.capture i) := .capture hwf (hK i hi)
  have hcaptured : { x.world with scopes := x.world.scopes.capture i }.Tidy :=
    hx.world.setScopes (hwf.capture (hK i hi)) (by simpa using hx.world.recycles) fun t ht =>
      hextends.captured t (hwf.inUse_of_captured t ht) ht
  have hdeclared : (f { x.world with scopes := x.world.scopes.capture i }).Tidy := by
    refine hcaptured.of_scopes (hscopes _) fun body j hbody => ?_
    obtain hbody | rfl := hheld _ body j hbody
    · exact hcaptured.sound.captured hbody
    · exact hwf.captured_capture (hK _ hi)
  refine ⟨?_, fun w' hw => ?_⟩
  · rintro ⟨y, s⟩ (⟨hy, rfl⟩ | ⟨_, w₁, h, hy, rfl⟩)
    · cases hy
      exact ⟨hcaptured, hextends.inUse _ hx.scope⟩
    · cases h
      cases hy
      exact ⟨hdeclared, by rw [hscopes]; exact hextends.inUse _ hx.scope⟩
  · cases hw
    refine ⟨hdeclared, by rw [hscopes]; exact hextends, ?_, fun t ht => ?_⟩
    · rintro ⟨y, s⟩ (⟨hy, rfl⟩ | ⟨_, w₁, h, hy, rfl⟩) t ht
      · cases hy
        rw [hscopes]
        exact ht
      · cases h
        cases hy
        exact ht
    · rw [hscopes, Arena.scope_capture hpath (fun t ht => (hinUse t ht).1) (hwf.capturedOutward path)] at ht
      split at ht
      next hmem =>
        -- The code that was declared in `i` pins the whole way outward.
        obtain ⟨body, hbody⟩ := hnew { x.world with scopes := x.world.scopes.capture i }
        refine .inr ⟨⟨_, x.scope⟩, .inr ⟨(), _, rfl, rfl, rfl⟩, body, i, path, hbody, ?_, hmem⟩
        rw [hscopes]
        exact hpath.congr fun t ht => hextends.parent t (hinUse t ht)
      next => exact .inl ht

theorem opened {parent : ScopeId} {m : ScopeId → Run α} (hparent : K parent)
    (hm : ∀ i, Accounts (fun j => j = i ∨ K j) (m i)) :
    Accounts K (Run.openScope parent >>= fun i => Run.releasing i (Run.within i (m i))) := by
  intro x hx hK
  have hwf := hx.world.sound.scopes
  have hinside := hx.world.enter (hK parent hparent)
  have huse t : (x.world.enter parent).scopes.InUse t ↔ t = (x.world.scopes.child parent).1 ∨ x.world.scopes.InUse t :=
    Arena.inUse_child hwf.freeSlots
  obtain ⟨hpassed, hended⟩ := hm (x.world.scopes.child parent).1
    ⟨x.world.enter parent, (x.world.scopes.child parent).1⟩ ⟨hinside, (huse _).2 (.inl rfl)⟩ fun t ht =>
      (huse t).2 (ht.imp_right (hK t))
  have hleft {w : World} (hw : (m (x.world.scopes.child parent).1 (x.world.enter parent)).world? = some w) :
      (w.leave (x.world.scopes.child parent).1).Tidy ∧
        x.world.scopes.Extends (w.leave (x.world.scopes.child parent).1).scopes :=
    have hleaves := hended w hw
    ⟨hx.world.leave (hK parent hparent) hleaves.tidy hleaves.scopes, .release hwf hleaves.scopes hleaves.tidy.recycles⟩
  constructor
  · intro y hy
    obtain rfl | rfl | hy | ⟨w, hw, rfl⟩ := (Run.passes_opened parent m x y).1 hy
    · exact ⟨hinside, (huse _).2 (.inr hx.scope)⟩
    · exact ⟨hinside, (huse _).2 (.inl rfl)⟩
    · exact hpassed y hy
    · exact ⟨(hleft hw).1, (hleft hw).2.inUse _ hx.scope⟩
  · intro w' hw'
    rw [Run.world?_opened] at hw'
    obtain ⟨w, hw, rfl⟩ := Option.map_eq_some_iff.1 hw'
    have hleaves := hended w hw
    have hreleased (t : ScopeId) : ((w.leave (x.world.scopes.child parent).1).scopes.scope t).captured
        = (w.scopes.scope t).captured := Arena.captured_release
    have hentered (t : ScopeId) (ht : ((x.world.enter parent).scopes.scope t).captured = true) :
        (w.scopes.scope t).captured = true :=
      hleaves.scopes.captured t (hinside.sound.scopes.inUse_of_captured t ht) ht
    refine ⟨(hleft hw).1, (hleft hw).2, fun y hy t ht => ?_, fun t ht => ?_⟩
    · rw [hreleased]
      obtain rfl | rfl | hy | ⟨w₁, hw₁, rfl⟩ := (Run.passes_opened parent m x y).1 hy
      · exact hentered t ht
      · exact hentered t ht
      · exact hleaves.kept y hy t ht
      · have hsame : some w₁ = some w := hw₁.symm.trans hw
        cases hsame
        rwa [hreleased] at ht
    · rw [hreleased] at ht
      obtain hbefore | ⟨y, hy, hp⟩ := hleaves.pinned t ht
      · -- The new scope was not captured when it was opened, so this is one of those before.
        left
        by_cases hnew : t = (x.world.scopes.child parent).1
        · subst hnew
          rw [World.enter, Arena.scope_child_self hwf.freeSlots] at hbefore
          cases hbefore
        · rwa [World.enter, Arena.scope_child_of_ne hnew] at hbefore
      · exact .inr ⟨y, (Run.passes_opened parent m x y).2 (.inr (.inr (.inl hy))), hp⟩

theorem within {i : ScopeId} {m : Run α} (hi : K i) (hm : Accounts K m) : Accounts K (Run.within i m) := by
  intro x hx hK
  have hinside : Moment.Tidy { x with scope := i } := ⟨hx.world, hK i hi⟩
  obtain ⟨hpassed, hended⟩ := hm { x with scope := i } hinside hK
  refine ⟨?_, fun w' hw => ?_⟩
  · rintro y (rfl | hy)
    · exact hinside
    · exact hpassed y hy
  · have hleaves := hended w' hw
    refine ⟨hleaves.tidy, hleaves.scopes, ?_, fun t ht => ?_⟩
    · rintro y (rfl | hy) t ht
      · exact hleaves.scopes.captured t (hx.world.sound.scopes.inUse_of_captured t ht) ht
      · exact hleaves.kept y hy t ht
    · exact (hleaves.pinned t ht).imp_right fun ⟨y, hy, hp⟩ => ⟨y, .inr hy, hp⟩

end Run.Accounts

theorem Run.Composed.accounts {K : ScopeId → Prop} {α : Type} {r : Run α}
    (h : Run.Composed (fun _ => True) K r) : r.Accounts K := by
  induction h with
  | pure a => exact .pure a
  | bind _ _ ihm ihk => exact .bind ihm ihk
  | look _ ih => exact .look fun w => ih w fun _ _ _ _ _ _ _ _ => trivial
  | quiet h => exact .beside fun w w' hw => (h w).beside hw
  | misplaced => exact .beside fun w w' hw => Option.some.inj hw ▸ .refl w
  | @define K i _ name v => exact .define (fun _ => i) name v
  | @set K i _ name v =>
      -- Which scope has the name does not matter, since binding it captures and releases nothing.
      exact .define (fun w => (w.scopes.resolve i name).getD .global) name v
  | @function K c hi _ =>
      refine .declare hi (fun _ => rfl) (fun w body j hheld => ?_) fun w => ⟨c.body, .function ?_⟩
      · exact (hheld.of_closures_push (w := w) (c := c) rfl rfl rfl).imp_right And.right
      · exact Array.mem_push_self
  | @register K r kind hi _ =>
      cases kind with
      | draw =>
          refine .declare hi (fun _ => rfl) (fun w body j hheld => ?_) fun w => ⟨r.body, .draw rfl⟩
          cases hheld with
          | function h => exact .inl (.function h)
          | draw h => cases h; exact .inr rfl
          | update h => exact .inl (.update h)
      | update =>
          refine .declare hi (fun _ => rfl) (fun w body j hheld => ?_) fun w => ⟨r.body, .update rfl⟩
          cases hheld with
          | function h => exact .inl (.function h)
          | draw h => exact .inl (.draw h)
          | update h => cases h; exact .inr rfl
  | opened hi _ ih => exact .opened hi ih
  | within hi _ ih => exact .within hi ih

/-! ## Everything that can be undertaken -/

/-- What can be undertaken at a moment: an expression or a statement in the scope at hand, a call, a program and the
frame blocks. -/
inductive Run.Undertaken (fuel : Nat) (i : ScopeId) : {α : Type} → Run α → Prop where
  | eval (e : Expr) : Undertaken fuel i (eval fuel e i)
  | exec (s : Stmt) : Undertaken fuel i (exec fuel s i)
  | call (callee : Value) (positional : List Value) (named : List (String × Value)) (line : Nat) :
      Undertaken fuel i (Run.call fuel callee positional named line)
  | program (p : Program) : Undertaken fuel i (Run.program fuel p)
  | update (dt : Float) : Undertaken fuel i (Run.updateBlock fuel dt)
  | draw : Undertaken fuel i (Run.drawBlock fuel)

theorem Run.Undertaken.composed {fuel : Nat} {i : ScopeId} {α : Type} {r : Run α} (h : r.Undertaken fuel i) :
    Run.Composed (fun _ => True) (fun t => t = i ∨ t = .global) r := by
  have heval := evaluator_composed (fun _ => True) fuel
  cases h with
  | eval e => exact heval.eval (.inl rfl) fun _ _ _ => trivial
  | exec s => exact heval.exec (.inl rfl) fun _ _ _ => trivial
  | call callee positional named line => exact heval.call callee positional named line
  | program p => exact .program fuel (.inr rfl) fun _ _ _ _ _ => trivial
  | update dt => exact .updateBlock fuel dt
  | draw => exact .drawBlock fuel

theorem Run.Undertaken.accounts {fuel : Nat} {i : ScopeId} {α : Type} {r : Run α} (h : r.Undertaken fuel i) :
    r.Accounts fun t => t = i ∨ t = .global :=
  h.composed.accounts

namespace Moment

/-- A moment that a host can bring about: after or in the course of whatever is undertaken at such a moment, in any
scope in use. In between the device may change, waiting output may be taken, and all may start anew. -/
inductive Reachable : Moment → Prop where
  | start (device : Device) (chances : Nat → Chance) : Reachable ⟨World.start device chances, .global⟩
  | inside {m : Moment} {i : ScopeId} (h : Reachable m) (hi : m.world.scopes.InUse i) : Reachable { m with scope := i }
  | during {m m' : Moment} {fuel : Nat} {α : Type} {r : Run α} (h : Reachable m) (hr : r.Undertaken fuel m.scope)
      (hm : r.passes m m') : Reachable m'
  | after {m : Moment} {w : World} {fuel : Nat} {α : Type} {r : Run α} (h : Reachable m)
      (hr : r.Undertaken fuel m.scope) (hw : (r m.world).world? = some w) : Reachable { m with world := w }
  | host {m : Moment} (h : Reachable m) (device : Device) (pending : Frame) :
      Reachable { m with world := { m.world with host := { m.world.host with device, pending } } }
  | reset {m : Moment} (h : Reachable m) : Reachable ⟨m.world.reset, .global⟩

theorem Tidy.undertake {m : Moment} (h : m.Tidy) {fuel : Nat} {α : Type} {r : Run α} (hr : r.Undertaken fuel m.scope) :
    (∀ y, r.passes m y → y.Tidy) ∧ ∀ w, (r m.world).world? = some w → r.Leaves m w := by
  refine hr.accounts m h ?_
  rintro t (rfl | rfl)
  · exact h.scope
  · exact h.world.sound.scopes.global_inUse

theorem Reachable.tidy {m : Moment} (h : m.Reachable) : m.Tidy := by
  induction h with
  | start device chances =>
      have hstart := World.Tidy.of_start device chances
      exact ⟨hstart, hstart.sound.scopes.global_inUse⟩
  | inside _ hi ih => exact ⟨ih.world, hi⟩
  | during _ hr hm ih => exact (ih.undertake hr).1 _ hm
  | after _ hr hw ih =>
      have hleaves := (ih.undertake hr).2 _ hw
      exact ⟨hleaves.tidy, hleaves.scopes.inUse _ ih.scope⟩
  | host _ device pending ih => exact ⟨ih.world.beside ⟨rfl, rfl, rfl, rfl, .refl _⟩, ih.scope⟩
  | reset _ ih => exact ⟨ih.world.reset, ih.world.reset.sound.scopes.global_inUse⟩

end Moment

/-! ## The count of scopes -/

namespace Arena

/-- The slots in use. -/
def slots (a : Arena) : Finset Nat := Finset.range a.scopes.size \ a.free.toFinset

theorem mem_slots {a : Arena} {t : ScopeId} : t.slot ∈ a.slots ↔ a.InUse t := by
  simp [slots, InUse]

theorem slots_subset_iff {a b : Arena} : a.slots ⊆ b.slots ↔ ∀ t, a.InUse t → b.InUse t :=
  ⟨fun h _ ht => mem_slots.1 (h (mem_slots.2 ht)), fun h slot hslot => mem_slots.2 (h ⟨slot⟩ (mem_slots.1 hslot))⟩

theorem FreeSlots.card_slots {a : Arena} (h : a.FreeSlots) : a.slots.card = a.live := by
  have hsub : a.free.toFinset ⊆ Finset.range a.scopes.size := fun slot hslot => by
    simpa using h.lt slot (by simpa using hslot)
  rw [slots, Finset.card_sdiff_of_subset hsub, Finset.card_range, List.toFinset_card_of_nodup h.nodup, live]

/-- Where no scope was lost, the count stays if and only if none came. -/
theorem live_eq_iff {a b : Arena} (ha : a.FreeSlots) (hb : b.FreeSlots) (hab : ∀ t, a.InUse t → b.InUse t) :
    b.live = a.live ↔ ∀ t, b.InUse t → a.InUse t := by
  have hsub : a.slots ⊆ b.slots := slots_subset_iff.2 hab
  rw [← ha.card_slots, ← hb.card_slots, ← slots_subset_iff]
  exact ⟨fun hcard => (Finset.eq_of_subset_of_card_le hsub hcard.le).ge,
    fun hba => congrArg Finset.card (Finset.Subset.antisymm hba hsub)⟩

end Arena

/-! ## The scopes at the end -/

section

variable {α : Type} {r : Run α} {m : Moment} {w : World} {t : ScopeId}

theorem Run.Leaves.inUse_of_pins (h : r.Leaves m w) {y : Moment} (hy : r.passes m y) (htidy : y.Tidy)
    (ht : y.world.Pins t) : y.world.scopes.InUse t ∧ w.scopes.InUse t := by
  have hcaptured := ht.captured htidy.world.sound
  exact ⟨htidy.world.sound.scopes.inUse_of_captured t hcaptured,
    h.tidy.sound.scopes.inUse_of_captured t (h.kept y hy t hcaptured)⟩

theorem Run.Leaves.pinned_of_opened (h : r.Leaves m w) (hm : m.Tidy) (ht : w.scopes.InUse t)
    (hbefore : ¬ m.world.scopes.InUse t) : ∃ y, r.passes m y ∧ y.world.Pins t := by
  -- A new scope that is there still is captured; it was not there to be captured before.
  obtain hcaptured | hpinned := h.pinned t (h.scopes.opened t ht hbefore)
  · exact absurd (hm.world.sound.scopes.inUse_of_captured t hcaptured) hbefore
  · exact hpinned

end

/-- Whatever is undertaken, and whether it ends with a value or with a fault: the scopes in use afterwards are those
before, and those opened on the way that a function or a frame block was declared in or inside of. So their number
stays if and only if no such scope was opened. -/
theorem no_scope_leaks {m : Moment} (hm : m.Reachable) {fuel : Nat} {α : Type} {r : Run α}
    (hr : r.Undertaken fuel m.scope) {w : World} (hw : (r m.world).world? = some w) :
    (∀ t, w.scopes.InUse t ↔ m.world.scopes.InUse t ∨
      ∃ y, r.passes m y ∧ ¬ m.world.scopes.InUse t ∧ y.world.scopes.InUse t ∧ y.world.Pins t) ∧
    (w.scopes.live = m.world.scopes.live ↔
      ∀ y, r.passes m y → ∀ t, y.world.Pins t → m.world.scopes.InUse t) := by
  obtain ⟨hpassed, hended⟩ := hm.tidy.undertake hr
  have hleaves := hended w hw
  have hpins {y : Moment} (hy : r.passes m y) {t : ScopeId} (ht : y.world.Pins t) :=
    hleaves.inUse_of_pins hy (hpassed y hy) ht
  refine ⟨fun t => ⟨fun ht => ?_, ?_⟩, ?_⟩
  · by_cases hbefore : m.world.scopes.InUse t
    · exact .inl hbefore
    · obtain ⟨y, hy, hp⟩ := hleaves.pinned_of_opened hm.tidy ht hbefore
      exact .inr ⟨y, hy, hbefore, (hpins hy hp).1, hp⟩
  · rintro (ht | ⟨y, hy, -, -, hp⟩)
    · exact hleaves.scopes.inUse t ht
    · exact (hpins hy hp).2
  · rw [Arena.live_eq_iff hm.tidy.world.sound.scopes.freeSlots hleaves.tidy.sound.scopes.freeSlots
      hleaves.scopes.inUse]
    constructor
    · exact fun h y hy t hp => h t (hpins hy hp).2
    · intro h t ht
      by_contra hbefore
      obtain ⟨y, hy, hp⟩ := hleaves.pinned_of_opened hm.tidy ht hbefore
      exact hbefore (h y hy t hp)

/-- `match null { _ => { fun f() { } null() } }` -/
def faultInMatch : Program :=
  [.expr (.choose (.null .start)
    [.mk (.wildcard .start)
      (.block [.function "f" [] [] .start, .expr (.call (.null .start) [] [] .start)] .start) .start] .start)]

/-- The call fails, and the scope of the arm stays, since a function was declared there. -/
theorem no_scope_leaks_fault : ∃ f w, Run.program 4 faultInMatch (World.start {} Chance.least) = .fault f w ∧
    ¬ (World.start {} Chance.least).scopes.InUse ⟨1⟩ ∧ w.scopes.InUse ⟨1⟩ ∧
    (∃ y, (Run.program 4 faultInMatch).passes ⟨World.start {} Chance.least, .global⟩ y ∧ y.world.Pins ⟨1⟩) ∧
    w.scopes.live ≠ (World.start {} Chance.least).scopes.live := by
  have hrun : ∃ f w, Run.program 4 faultInMatch (World.start {} Chance.least) = .fault f w ∧
      w.scopes.scopes.size = 2 ∧ w.scopes.free = [] ∧ (World.start {} Chance.least).scopes.scopes.size = 1 :=
    ⟨_, _, by rfl, by decide +kernel, by decide +kernel, by decide +kernel⟩
  obtain ⟨f, w, hfault, hsize, hfree, hstart⟩ := hrun
  have hbefore : ¬ (World.start {} Chance.least).scopes.InUse ⟨1⟩ := by simp [Arena.InUse, hstart]
  have hafter : w.scopes.InUse ⟨1⟩ := by simp [Arena.InUse, hsize, hfree]
  obtain ⟨huse, hcount⟩ := no_scope_leaks (.start {} Chance.least) (.program faultInMatch) (w := w) (by rw [hfault]; rfl)
  obtain h | ⟨y, hy, -, -, hp⟩ := (huse ⟨1⟩).1 hafter
  · exact absurd h hbefore
  · exact ⟨f, w, hfault, hbefore, hafter, ⟨y, hy, hp⟩, fun h => hbefore (hcount.1 h y hy _ hp)⟩

end Cairn
