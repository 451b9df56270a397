import Cairn.Proofs.Arena.Twins
import Cairn.Proofs.History

/-!
# Recycling scopes

A world that recycles released scopes is set beside one that keeps every scope. All that evaluation does
leads from such a pair to another one, with a renaming of the scopes in use, so no program can tell the two
apart. On the way the scopes of the first world stay in order, in the middle of a run and after a fault.
-/

namespace Cairn

/-- A captured scope, and what it is called in the other arena. -/
def Arena.KeptAs (a : Arena) (ρ : ScopeId → ScopeId) (i j : ScopeId) : Prop :=
  (a.scope i).captured = true ∧ j = ρ i

/-- `w'` holds what `w` does, with the scopes under other names. -/
structure World.Twins (ρ : ScopeId → ScopeId) (w w' : World) : Prop where
  scopes : w.scopes.Twins ρ w'.scopes
  host : w.host.Alike (w.scopes.KeptAs ρ) {} w'.host
  draw : Option.Rel (Registration.Alike (w.scopes.KeptAs ρ)) w.draw? w'.draw?
  update : Option.Rel (Registration.Alike (w.scopes.KeptAs ρ)) w.update? w'.update?
  last : w'.last = w.last

/-- The scopes are in order, and whatever may be run later was declared in a captured one. -/
structure World.Sound (w : World) : Prop where
  scopes : w.scopes.WellFormed
  functions : ∀ ref, (w.scopes.scope (w.store.closure ref).scope).captured = true
  draw : ∀ r ∈ w.draw?, (w.scopes.scope r.scope).captured = true
  update : ∀ r ∈ w.update?, (w.scopes.scope r.scope).captured = true

structure Moment.Sound (m : Moment) : Prop where
  world : m.world.Sound
  scope : m.world.scopes.InUse m.scope

variable {ρ ρ' : ScopeId → ScopeId} {w w' : World}

theorem captured_of_rel {a : Arena} {r? r'? : Option Registration}
    (h : Option.Rel (Registration.Alike (a.KeptAs ρ)) r? r'?) :
    ∀ r ∈ r?, (a.scope r.scope).captured = true := by
  intro r hr
  cases h with
  | none => cases hr
  | some h => cases hr; exact h.scope.1

namespace World.Twins

theorem sound (h : w.Twins ρ w') : w.Sound where
  scopes := h.scopes.wellFormed
  functions ref := (h.host.store.closure ref).scope.1
  draw := captured_of_rel h.draw
  update := captured_of_rel h.update

theorem rescope (h : w.Twins ρ w') {a b : Arena} (hab : a.Twins ρ' b)
    (hkept : ∀ i j, w.scopes.KeptAs ρ i j → a.KeptAs ρ' i j) :
    { w with scopes := a }.Twins ρ' { w' with scopes := b } where
  scopes := hab
  host := h.host.mono hkept
  draw := Registration.Alike.rel_mono hkept h.draw
  update := Registration.Alike.rel_mono hkept h.update
  last := h.last

theorem start (device : Device) (chances : Nat → Chance) :
    Twins (fun t => t) { scopes := scopesAtStart true, host := { device, chances } }
      { scopes := scopesAtStart false, host := { device, chances } } := by
  have hscopes : Arena.Twins (fun t => t) (scopesAtStart true) (scopesAtStart false) :=
    Arena.Twins.fresh.defineAll (Arena.WellFormed.fresh true).global_inUse _
  have hhost : Host.Alike ((scopesAtStart true).KeptAs fun t => t) {} { device, chances }
      { device, chances } := by
    refine ⟨⟨rfl, rfl, rfl, rfl, rfl, fun ref => ⟨rfl, rfl, rfl, ?_, rfl⟩⟩, rfl, rfl, rfl⟩
    exact hscopes.wellFormed.global
  exact ⟨hscopes, hhost, .none, .none, rfl⟩

theorem reset (h : w.Twins ρ w') : w.reset.Twins (fun t => t) w'.reset := by
  have hstart := start w.host.device w.host.chances
  simp only [World.reset, h.scopes.recycles, h.scopes.keeps, h.host.device, h.host.chances]
  exact hstart

end World.Twins

/-! ## Pairs of worlds as stages -/

structure Pairing where
  rename : ScopeId → ScopeId
  left : World
  right : World
  twins : left.Twins rename right

namespace Pairing

instance : Preorder Pairing where
  le σ τ := (∀ t, σ.left.scopes.InUse t → τ.rename t = σ.rename t) ∧ σ.left.scopes.Extends τ.left.scopes
  le_refl σ := ⟨fun _ _ => rfl, .refl _⟩
  le_trans σ τ υ h h' :=
    ⟨fun t ht => (h'.1 t (h.2.inUse t ht)).trans (h.1 t ht), h.2.trans h'.2⟩

instance : Sides Pairing where
  left := left
  right := right
  Same σ i j := σ.left.scopes.InUse i ∧ j = σ.rename i
  Kept σ := σ.left.scopes.KeptAs σ.rename
  lead _ := {}
  Sound := Moment.Sound

theorem kept_mono {σ τ : Pairing} (h : σ ≤ τ) (i j : ScopeId) (hij : σ.left.scopes.KeptAs σ.rename i j) :
    τ.left.scopes.KeptAs τ.rename i j := by
  obtain ⟨hc, rfl⟩ := hij
  have huse := σ.twins.scopes.wellFormed.inUse_of_captured i hc
  exact ⟨h.2.captured i huse hc, (h.1 i huse).symm⟩

/-- A stage with the same scopes, under the same names. -/
theorem next_of_scopes (σ : Pairing) {w w' : World} (hw : w.scopes = σ.left.scopes)
    (h : w.Twins σ.rename w') : Sides.Next σ w w' :=
  ⟨⟨σ.rename, w, w', h⟩, ⟨fun _ _ => rfl, hw ▸ .refl _⟩, rfl, rfl⟩

/-- A stage with other scopes, under the same names. -/
theorem next_of_extends (σ : Pairing) {a b : Arena} (hab : a.Twins σ.rename b)
    (hle : σ.left.scopes.Extends a) :
    Sides.Next σ { σ.left with scopes := a } { σ.right with scopes := b } := by
  have hkept : ∀ i j, σ.left.scopes.KeptAs σ.rename i j → a.KeptAs σ.rename i j :=
    fun i j ⟨hc, hj⟩ => ⟨hle.captured i (σ.twins.scopes.wellFormed.inUse_of_captured i hc) hc, hj⟩
  exact ⟨⟨σ.rename, _, _, σ.twins.rescope hab hkept⟩, ⟨fun _ _ => rfl, hle⟩, rfl, rfl⟩

/-- The stage inside of a new scope. -/
def enter (σ : Pairing) (i : ScopeId) (hi : σ.left.scopes.InUse i) : Pairing where
  rename := Function.update σ.rename (σ.left.scopes.child i).1 (σ.right.scopes.child (σ.rename i)).1
  left := { σ.left with scopes := (σ.left.scopes.child i).2 }
  right := { σ.right with scopes := (σ.right.scopes.child (σ.rename i)).2 }
  twins := σ.twins.rescope (σ.twins.scopes.child hi) fun k l ⟨hc, hl⟩ => by
    have hk := σ.twins.scopes.wellFormed.inUse_of_captured k hc
    have hne : k ≠ (σ.left.scopes.child i).1 := fun e => Arena.not_inUse_child (e ▸ hk)
    refine ⟨?_, hl.trans (Function.update_of_ne hne _ _).symm⟩
    rw [Arena.scope_child_of_ne hne]
    exact hc

section

variable (σ : Pairing) {i : ScopeId} (hi : σ.left.scopes.InUse i)

theorem enter_rename_new : (σ.enter i hi).rename (σ.left.scopes.child i).1
    = (σ.right.scopes.child (σ.rename i)).1 :=
  Function.update_self _ _ _

theorem enter_rename_old {t : ScopeId} (ht : σ.left.scopes.InUse t) :
    (σ.enter i hi).rename t = σ.rename t :=
  Function.update_of_ne (fun e => Arena.not_inUse_child (e ▸ ht)) _ _

theorem enter_inUse {t : ScopeId} :
    (σ.enter i hi).left.scopes.InUse t ↔ t = (σ.left.scopes.child i).1 ∨ σ.left.scopes.InUse t :=
  Arena.inUse_child σ.twins.scopes.wellFormed.freeSlots

theorem leave {τ : Pairing} (hτ : σ.enter i hi ≤ τ) :
    Sides.Next σ { τ.left with scopes := τ.left.scopes.release (σ.left.scopes.child i).1 }
      { τ.right with scopes := τ.right.scopes.release (σ.right.scopes.child (σ.rename i)).1 } := by
  obtain ⟨hnames, hext⟩ := hτ
  have hwf := σ.twins.scopes.wellFormed
  have hnew := (σ.enter_inUse hi).2 (.inl rfl)
  have hname := (hnames _ hnew).trans (σ.enter_rename_new hi)
  have htwins := τ.twins.scopes.release (hext.inUse _ hnew) fun hc t ht =>
    Arena.Extends.parent_ne_child hwf hi hext τ.twins.scopes.wellFormed hc ht
  rw [hname] at htwins
  have hkept : ∀ k l, τ.left.scopes.KeptAs τ.rename k l →
      (τ.left.scopes.release (σ.left.scopes.child i).1).KeptAs τ.rename k l :=
    fun k l ⟨hc, hl⟩ => ⟨by rw [Arena.captured_release]; exact hc, hl⟩
  refine ⟨⟨τ.rename, _, _, τ.twins.rescope htwins hkept⟩, ⟨fun t ht => ?_, ?_⟩, rfl, rfl⟩
  · exact (hnames t ((σ.enter_inUse hi).2 (.inr ht))).trans (σ.enter_rename_old hi ht)
  · exact Arena.Extends.release hwf hext τ.twins.scopes.recycles

end

instance : Simulation Pairing where
  same_mono h hij := by
    obtain ⟨hi, rfl⟩ := hij
    exact ⟨h.2.inUse _ hi, (h.1 _ hi).symm⟩
  kept_mono h := kept_mono h _ _
  same_of_kept {σ i j} h := ⟨σ.twins.scopes.wellFormed.inUse_of_captured i h.1, h.2⟩
  same_global σ := ⟨σ.twins.scopes.wellFormed.global_inUse, σ.twins.scopes.global.symm⟩
  sound {σ i j} h := ⟨σ.twins.sound, h.1⟩
  get?_eq {σ i j} name h := by
    obtain ⟨hi, rfl⟩ := h
    exact σ.twins.scopes.get? hi name
  host σ := σ.twins.host
  draw σ := σ.twins.draw
  update σ := σ.twins.update
  define {σ i j} name v h := by
    obtain ⟨hi, rfl⟩ := h
    exact σ.next_of_extends (σ.twins.scopes.define hi) .define
  set {σ i j} name v h := by
    obtain ⟨hi, rfl⟩ := h
    exact σ.next_of_extends (σ.twins.scopes.set hi) .define
  capture {σ i j} h := by
    obtain ⟨hi, rfl⟩ := h
    have hwf := σ.twins.scopes.wellFormed
    obtain ⟨τ, hτ, hleft, hright⟩ := σ.next_of_extends (σ.twins.scopes.capture hi) (.capture hwf hi)
    refine ⟨τ, hτ, hleft, hright, ?_, (hτ.1 i hi).symm⟩
    have hscopes : τ.left.scopes = σ.left.scopes.capture i := congrArg World.scopes hleft
    rw [hscopes]
    exact hwf.captured_capture hi
  setHost {σ h h'} hh := σ.next_of_scopes rfl { σ.twins with host := hh }
  setDraw {σ r r'} hr := σ.next_of_scopes rfl { σ.twins with draw := .some hr }
  setUpdate {σ r r'} hr := σ.next_of_scopes rfl { σ.twins with update := .some hr }
  setLast σ v := σ.next_of_scopes rfl { σ.twins with last := rfl }
  enter {σ i j} h := by
    obtain ⟨hi, rfl⟩ := h
    refine ⟨σ.enter i hi, rfl, rfl, ?_, ?_, fun τ hτ => σ.leave hi hτ⟩
    · exact ⟨(σ.enter_inUse hi).2 (.inl rfl), (σ.enter_rename_new hi).symm⟩
    · rintro k l ⟨hk, rfl⟩
      exact ⟨(σ.enter_inUse hi).2 (.inr hk), (σ.enter_rename_old hi hk).symm⟩

theorem resets : Resets Pairing :=
  fun σ => ⟨⟨_, _, _, σ.twins.reset⟩, rfl, rfl⟩

end Pairing

/-! ## What a host can see -/

/-- A new world that keeps every scope: what is released stays, and new scopes come at the end. -/
def World.startKeeping (device : Device) (chances : Nat → Chance) : World :=
  { World.start device chances with scopes := World.scopesAtStart false }

def Pairing.start (device : Device) (chances : Nat → Chance) : Pairing where
  rename t := t
  left := World.start device chances
  right := World.startKeeping device chances
  twins := World.Twins.start device chances

/-- Whatever a host does, and whatever chance answers in both worlds, it gets the same answers and faults, and finds
the same globals, output and device, whether scopes are recycled or kept. -/
theorem recycling_unobservable (device : Device) (chances : Nat → Chance) (fuel : Nat) (acts : List Act) :
    (∃ answers w w' ρ, history fuel acts (World.start device chances) = .ok answers w ∧
      history fuel acts (World.startKeeping device chances) = .ok answers w' ∧
      w'.scopes.globals = w.scopes.globals ∧ w'.host.pending = w.host.pending ∧
      w'.host.device = w.host.device ∧ w'.last = w.last ∧
      w'.scopes.recycles = false ∧ w'.scopes.free = [] ∧ w.Twins ρ w') ∨
    ∃ why, history fuel acts (World.start device chances) = .abort why ∧
      history fuel acts (World.startKeeping device chances) = .abort why := by
  have h := (history_paired Pairing.resets fuel acts (Pairing.start device chances)).ends
  generalize hl : history fuel acts (Sides.left (Pairing.start device chances)) = o,
    hr : history fuel acts (Sides.right (Pairing.start device chances)) = o' at h
  cases h with
  | ok τ answers =>
      have htwins := τ.twins
      refine .inl ⟨answers, τ.left, τ.right, τ.rename, hl, hr, htwins.scopes.globals, ?_, htwins.host.device,
        htwins.last, htwins.scopes.keeps, htwins.scopes.full, htwins⟩
      exact htwins.host.pending.trans (Frame.after_empty _)
  | abort why => exact .inr ⟨why, hl, hr⟩

/-! ## The order among the scopes -/

/-- `path` is the way outward from `id`; it visits no scope twice and none that was released, and the loops
that look a name up and that capture scopes end after as many steps as it is long. -/
structure Arena.Walks (a : Arena) (id : ScopeId) (path : List ScopeId) : Prop where
  leads : a.Leads id path
  nodup : path.Nodup
  inUse : ∀ t ∈ path, a.InUse t
  length : path.length ≤ a.scopes.size
  resolve : ∀ name limit, path.length ≤ limit →
    a.resolveWithin name id limit = path.find? fun t => (a.scope t).vars.contains name
  capture : ∀ limit, path.length ≤ limit →
    ∀ t, (a.captureWithin id limit).scope t = if t ∈ path then (a.scope t).pin else a.scope t

theorem Arena.WellFormed.walks {a : Arena} {id : ScopeId} (h : a.WellFormed) (hid : a.InUse id) :
    ∃ path, a.Walks id path := by
  obtain ⟨path, hpath, huse⟩ := h.way hid
  have hlt t (ht : t ∈ path) := (huse t ht).1
  exact ⟨path, hpath, hpath.nodup, huse, hpath.length_le hlt, fun _ _ hl => resolveWithin_eq_find? hpath hl,
    fun _ hl t => scope_captureWithin hpath hlt (h.capturedOutward path) hl⟩

/-- The order among the scopes at every moment of every history, also in the middle of a run and after a
fault. -/
theorem scopes_in_order (device : Device) (chances : Nat → Chance) (fuel : Nat) (acts : List Act) (m : Moment)
    (hm : (history fuel acts).passes ⟨World.start device chances, .global⟩ m) :
    (m.world.scopes.InUse m.scope ∧ ∀ id, m.world.scopes.InUse id → ∃ path, m.world.scopes.Walks id path) ∧
    (m.world.scopes.free.Nodup ∧ ScopeId.global.slot ∉ m.world.scopes.free ∧
      ∀ id, (m.world.scopes.scope id).captured = true → id.slot ∉ m.world.scopes.free) ∧
    (∀ id path, (m.world.scopes.scope id).captured = true → m.world.scopes.Leads id path →
      ∀ t ∈ path, (m.world.scopes.scope t).captured = true) ∧
    (∀ r, m.world.draw? = some r ∨ m.world.update? = some r →
      (m.world.scopes.scope r.scope).captured = true) ∧
    ∀ ref, (m.world.scopes.scope (m.world.store.closure ref).scope).captured = true := by
  obtain ⟨hworld, hscope⟩ := (history_paired Pairing.resets fuel acts (Pairing.start device chances)).passes m hm
  have hwf := hworld.scopes
  refine ⟨⟨hscope, fun id hid => hwf.walks hid⟩, ⟨hwf.freeSlots.nodup, hwf.global_inUse.2, ?_⟩, ?_, ?_,
    hworld.functions⟩
  · intro id hid
    exact (hwf.inUse_of_captured id hid).2
  · intro id path hid hpath
    exact hpath.captured (hwf.capturedOutward path) hid
  · rintro r (hr | hr)
    · exact hworld.draw r hr
    · exact hworld.update r hr

/-- `match null { _ => { fun f() { } } }` -/
def functionInMatch : Program :=
  [.expr (.choose (.null .start)
    [.mk (.wildcard .start) (.block [.function "f" [] [] .start] .start) .start] .start)]

theorem functionInMatch_passes (w : World) :
    ∃ m : Moment, (history 3 [.run functionInMatch]).passes ⟨w, .global⟩ m ∧
      m.world.store.closures.size = w.store.closures.size + 1 ∧ m.scope = (w.scopes.child .global).1 := by
  -- into the statement, past its subject, into the scope of the arm, and past the capture
  refine ⟨⟨_, _⟩, .inr (.inl (.inl (.inl (.inr (.inr ⟨.null, _, rfl, .inr ⟨_, _, rfl,
    .inr ⟨_, _, rfl, .inl (.inr (.inr ⟨(), _, rfl,
      .inl (.inl (.inr (.inl (.inr ⟨(), _, rfl, .inr ⟨_, _, rfl, .inl ⟨rfl, rfl⟩⟩⟩))))⟩))⟩⟩⟩))))), ?_, rfl⟩
  exact Array.size_push _

theorem scopes_in_order_in_match : ∃ m : Moment,
    (history 3 [.run functionInMatch]).passes ⟨World.start {} Chance.least, .global⟩ m ∧
      m.world.store.closures.size = 1 ∧ m.world.scopes.InUse m.scope ∧
      (∃ path, m.world.scopes.Walks m.scope path) ∧ m.world.scopes.free.Nodup ∧
      (m.world.scopes.scope (m.world.store.closure 0).scope).captured = true := by
  obtain ⟨m, hm, hsize, -⟩ := functionInMatch_passes (World.start {} Chance.least)
  obtain ⟨⟨hscope, hways⟩, ⟨hnodup, -, -⟩, -, -, hfunctions⟩ :=
    scopes_in_order {} Chance.least 3 [.run functionInMatch] m hm
  exact ⟨m, hm, hsize, hscope, hways _ hscope, hnodup, hfunctions 0⟩

end Cairn
