import Cairn.Native.Registry
import Cairn.Value.Arena

/-!
# The world of a running program

Everything that a run can read and change, and computations over it. A computation ends with a value, or
with a fault that leaves the world as it was at that moment, or not at all. Besides its end a computation
has a way: the moments that it passes through, which theorems speak of and nothing computes.
-/

namespace Cairn

/-- A block that runs once a frame, and the scope it was declared in. -/
structure Registration where
  param? : Option String
  body : List Stmt
  line : Nat
  scope : ScopeId

/-- Scopes, host, frame blocks and the value of the last run. -/
structure World where
  scopes : Arena
  host : Host
  draw? : Option Registration := none
  update? : Option Registration := none
  last : Value := .null

namespace World

/-- The things that values refer to. -/
def store (w : World) : Store := w.host.store

/-- A world with other things to refer to. -/
def withStore (w : World) (store : Store) : World := { w with host := { w.host with store } }

/-- The scopes of a new world: the natives are bound in the global one. -/
def scopesAtStart (recycles : Bool) : Arena :=
  (Arena.fresh recycles).defineAll .global Native.globals

/-- A new world around a device, with what chance is going to answer in it. -/
def start (device : Device) (chances : Nat → Chance) : World :=
  { scopes := scopesAtStart true, host := { device, chances } }

/-- Forgets scopes, things, frame blocks, the last value and pending output. The device stays, and what
chance has not answered yet. -/
def reset (w : World) : World :=
  { scopes := scopesAtStart w.scopes.recycles, host := { device := w.host.device, chances := w.host.chances } }

/-- The value of a global name. -/
def global? (w : World) (name : String) : Option Value := w.scopes.get? .global name

end World

/-- How a computation ends. -/
inductive Outcome (α : Type) where
  | ok (value : α) (world : World)
  | fault (fault : Fault) (world : World)
  | abort (why : Abort)

/-- The world that a computation leaves behind. -/
def Outcome.world? {α : Type} : Outcome α → Option World
  | .ok _ w | .fault _ w => some w
  | .abort _ => none

/-- A world in the course of a computation, and the scope that is worked in. -/
structure Moment where
  world : World
  scope : ScopeId

/-- A computation over the world: how it ends, and through which moments it passes from its first one. -/
structure Run (α : Type) where
  run : World → Outcome α
  passes : Moment → Moment → Prop

namespace Run

variable {α β : Type}

instance : CoeFun (Run α) fun _ => World → Outcome α := ⟨Run.run⟩

@[ext] theorem ext {m m' : Run α} (hrun : ∀ w, m w = m' w) (hpasses : ∀ x y, m.passes x y ↔ m'.passes x y) :
    m = m' := by
  cases m; cases m'
  congr
  · exact funext hrun
  · exact funext fun x => funext fun y => propext (hpasses x y)

/-- A computation of one step, which passes through its end only. -/
def step (f : World → Outcome α) : Run α where
  run := f
  passes x y := (f x.world).world? = some y.world ∧ y.scope = x.scope

instance : Monad Run where
  pure a := { run := fun w => .ok a w, passes := fun _ _ => False }
  bind m next :=
    { run := fun w =>
        match m w with
        | .ok a w => next a w
        | .fault f w => .fault f w
        | .abort why => .abort why
      passes := fun x y =>
        m.passes x y ∨ ∃ a w, m x.world = .ok a w ∧ (next a).passes { x with world := w } y }

theorem run_bind (m : Run α) (next : α → Run β) (w : World) :
    (m >>= next) w =
      match m w with
      | .ok a w => next a w
      | .fault f w => .fault f w
      | .abort why => .abort why := rfl

theorem of_bind_eq_ok {m : Run α} {k : α → Run β} {w w' : World} {b : β}
    (h : (m >>= k) w = .ok b w') : ∃ a w₁, m w = .ok a w₁ ∧ k a w₁ = .ok b w' := by
  rw [run_bind] at h
  cases hm : m w with
  | ok a w₁ => rw [hm] at h; exact ⟨a, w₁, rfl, h⟩
  | fault f w₁ => rw [hm] at h; cases h
  | abort why => rw [hm] at h; cases h

theorem passes_bind (m : Run α) (next : α → Run β) (x y : Moment) :
    (m >>= next).passes x y ↔
      m.passes x y ∨ ∃ a w, m x.world = .ok a w ∧ (next a).passes { x with world := w } y := Iff.rfl

instance : LawfulMonad Run := LawfulMonad.mk' Run
  (fun m => by
    ext w
    · simp only [Functor.map]; cases m w <;> rfl
    · simp [Functor.map])
  (fun a f => by
    ext w
    · rfl
    · simp [bind, pure, and_assoc])
  (fun m f g => by
    ext w y
    · simp only [run_bind]; cases m w <;> rfl
    · simp only [passes_bind, run_bind]
      cases hm : m w.world <;> simp [or_assoc, and_assoc])

instance : Inhabited (Run α) := ⟨step fun _ => .abort .outOfFuel⟩

/-- Ends with a fault. -/
def fail (cause : Fault.Cause) (line : Nat) : Run α := step fun w => .fault ⟨cause, line⟩ w

/-- Ends without an answer. -/
def abort (why : Abort) : Run α := step fun _ => .abort why

/-- The world as it is. -/
def world : Run World := step fun w => .ok w w

/-- Changes the world. -/
def modify (f : World → World) : Run Unit := step fun w => .ok () (f w)

/-- Changes the scopes. -/
def modifyScopes (f : Arena → Arena) : Run Unit :=
  modify fun w => { w with scopes := f w.scopes }

/-- Makes something new in the store. -/
def create (f : Store → Value × Store) : Run Value := step fun w =>
  let (v, store) := f w.store
  .ok v (w.withStore store)

/-- Makes something new in the store, or a fault blamed on `line`. -/
def make (line : Nat) (f : Store → Except Fault.Cause (Value × Store)) : Run Value := step fun w =>
  match f w.store with
  | .ok (v, store) => .ok v (w.withStore store)
  | .error cause => .fault ⟨cause, line⟩ w

/-- A value worked out from the world, or a fault blamed on `line`. -/
def read (line : Nat) (f : World → Except Fault.Cause α) : Run α := step fun w =>
  match f w with
  | .ok a => .ok a w
  | .error cause => .fault ⟨cause, line⟩ w

/-- A new world worked out from the world, or a fault blamed on `line`. -/
def write (line : Nat) (f : World → Except Fault.Cause World) : Run Unit := step fun w =>
  match f w with
  | .ok w' => .ok () w'
  | .error cause => .fault ⟨cause, line⟩ w

/-- The text of a value. -/
def text (v : Value) : Run String := do
  let w ← world
  match w.store.display v with
  | some text => pure text
  | none => abort .endlessText

/-- Calls a native. What it did to the host stays done if it fails. -/
def native (n : Native) : Run Value := step fun w =>
  match n w.host with
  | (.ok v, host) => .ok v { w with host }
  | (.error (.fault f), host) => .fault f { w with host }
  | (.error (.abort why), _) => .abort why

/-- Runs `f` on every item, first to last. -/
def each (f : α → Run β) : List α → Run (List β)
  | [] => pure []
  | a :: rest => do
    let b ← f a
    let bs ← each f rest
    return b :: bs

/-- Runs `f` on the value of every entry, first to last. -/
def eachEntry (f : α → Run β) : List (String × α) → Run (List (String × β))
  | [] => pure []
  | (key, a) :: rest => do
    let b ← f a
    let bs ← eachEntry f rest
    return (key, b) :: bs

/-! ## Scopes -/

/-- Works in `scope`. -/
def within (scope : ScopeId) (m : Run α) : Run α where
  run := m.run
  passes x y := y = { x with scope } ∨ m.passes { x with scope } y

/-- Opens a scope inside `parent`. -/
def openScope (parent : ScopeId) : Run ScopeId := step fun w =>
  let (scope, scopes) := w.scopes.child parent
  .ok scope { w with scopes }

/-- Binds names in a scope, from the first to the last. -/
def bindAll (scope : ScopeId) : List (String × Value) → Run Unit
  | [] => pure ()
  | (name, value) :: rest => do
    modifyScopes (·.define scope name value)
    bindAll scope rest

/-- Releases a scope when `m` is over, also after a fault. -/
def releasing (scope : ScopeId) (m : Run α) : Run α where
  run w :=
    match m w with
    | .ok a w => .ok a { w with scopes := w.scopes.release scope }
    | .fault f w => .fault f { w with scopes := w.scopes.release scope }
    | .abort why => .abort why
  passes x y := m.passes x y ∨
    ∃ w, (m x.world).world? = some w ∧ y = { x with world := { w with scopes := w.scopes.release scope } }

/-- Opens a scope with bindings inside `parent`, runs `body` there and releases the scope, also after a
fault. -/
def inScope (parent : ScopeId) (bindings : List (String × Value)) (body : ScopeId → Run α) : Run α := do
  let scope ← openScope parent
  releasing scope (within scope (do bindAll scope bindings; body scope))

end Run

end Cairn
