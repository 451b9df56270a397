import Cairn.Proofs.Flow.Causes
import Cairn.Proofs.Flow.Placement
import Cairn.Proofs.History
import Cairn.Proofs.Keeping
import Cairn.Proofs.Native.Effects

/-!
# No way out is missing

A well-placed program never fails for a `return` or a `break`. The worlds in order are those whose functions and
frame blocks are well placed, so calls of whatever was declared earlier, and elsewhere, are covered. A statement
ends normally or by a way out that there is from where it stands; this is shown rule by rule, given an evaluator for
what is nested, then by induction on the fuel, and at last for every world that a host can have.
-/

namespace Cairn

structure World.Orderly (w : World) : Prop where
  functions : ∀ ref, Stmt.allPlaced .body (w.store.closure ref).body = true
  draw : ∀ r ∈ w.draw?, Stmt.allPlaced .body r.body = true
  update : ∀ r ∈ w.update?, Stmt.allPlaced .body r.body = true

def orderly : Terms where
  InOrder := World.Orderly
  Admits f := f.cause.isFlow = false

namespace World.Orderly

variable {w : World}

theorem setScopes (h : w.Orderly) (scopes : Arena) : { w with scopes }.Orderly :=
  ⟨h.functions, h.draw, h.update⟩

theorem setHost (h : w.Orderly) {host : Host} (hc : host.store.closures = w.store.closures) :
    { w with host }.Orderly := by
  refine ⟨fun ref => ?_, h.draw, h.update⟩
  have hold := h.functions ref
  simp only [World.store, Store.closure] at hold hc ⊢
  rw [hc]
  exact hold

theorem setStore (h : w.Orderly) {s : Store} (hc : s.closures = w.store.closures) : (w.withStore s).Orderly :=
  h.setHost hc

theorem newClosure (h : w.Orderly) {c : Closure} (hc : Stmt.allPlaced .body c.body = true) :
    (w.withStore (w.store.newClosure c).2).Orderly := by
  refine ⟨fun ref => ?_, h.draw, h.update⟩
  have hold := h.functions ref
  simp only [World.store, World.withStore, Store.newClosure, Store.closure, Array.getElem?_push] at hold ⊢
  split
  · exact hc
  · exact hold

theorem start (device : Device) (chances : Nat → Chance) (scopes : Arena) :
    World.Orderly { scopes, host := { device, chances } } :=
  ⟨fun _ => rfl, by simp, by simp⟩

end World.Orderly

theorem orderly_setScopes (w : World) (scopes : Arena) (hw : orderly.InOrder w) :
    orderly.InOrder { w with scopes } :=
  World.Orderly.setScopes hw scopes

namespace Run.Keeps

theorem calm {α : Type} {line : Nat} {f : World → Except Fault.Cause α} (h : ∀ w, OfValues (f w)) :
    (Run.read line f).Keeps orderly fun _ => True :=
  .read fun w cause => (h w).calm cause

theorem make_quiet {f : Store → Value × Store} (h : ∀ s, (f s).2.closures = s.closures) :
    (Run.create f).Keeps orderly fun _ => True :=
  .create fun w hw => hw.setStore (h w.store)

theorem define (scope : ScopeId) (name : String) (v : Value) :
    (Run.modifyScopes (·.define scope name v)).Keeps orderly fun _ => True :=
  .modifyScopes orderly_setScopes _

theorem capture (scope : ScopeId) : (Run.modifyScopes (·.capture scope)).Keeps orderly fun _ => True :=
  .modifyScopes orderly_setScopes _

theorem opened {α : Type} {P : α → Prop} {parent : ScopeId} {bindings : List (String × Value)}
    {body : ScopeId → Run α} (h : ∀ scope, (body scope).Keeps orderly P) :
    (Run.inScope parent bindings body).Keeps orderly P :=
  .inScope orderly_setScopes h

theorem writePlace (line : Nat) (p : Place) (scope : ScopeId) (v : Value) :
    (Run.write line fun w => p.write w scope v).Keeps orderly fun _ => True := by
  refine .write (fun w w' hw h => ?_) fun w cause => (Place.write_ofValues w scope v p).calm cause
  obtain ⟨scopes, rfl⟩ | ⟨arrays, prototypes, rfl⟩ := Place.write_cases h
  · exact hw.setScopes _
  · exact hw.setStore rfl

end Run.Keeps

/-! ## The rules -/

structure Evaluator.Sound (ev : Evaluator) : Prop where
  eval : ∀ {e : Expr}, e.placed = true → ∀ scope, (ev.eval e scope).Keeps orderly fun _ => True
  exec : ∀ {x : Exits} {s : Stmt}, s.placed x = true → ∀ scope, (ev.exec s scope).Keeps orderly x.Allows

theorem Expr.placed_of_allPlaced {items : List Expr} (h : Expr.allPlaced items = true) :
    ∀ e ∈ items, e.placed = true := by
  induction items with
  | nil => simp
  | cons e rest ih =>
      simp only [Expr.allPlaced, Bool.and_eq_true] at h
      simpa using ⟨h.1, ih h.2⟩

theorem Expr.placed_of_entriesPlaced {entries : List (String × Expr)} (h : Expr.entriesPlaced entries = true) :
    ∀ entry ∈ entries, entry.2.placed = true := by
  induction entries with
  | nil => simp
  | cons entry rest ih =>
      simp only [Expr.entriesPlaced, Bool.and_eq_true] at h
      intro other hother
      cases hother with
      | head => exact h.1
      | tail _ hother => exact ih h.2 other hother

theorem Evaluator.firstArm?_placed {x : Exits} {store : Store} {subject : Value} {arms : List Arm}
    {bindings : List (String × Value)} {body : ArmBody} (harms : Arm.allPlaced x arms = true)
    (h : Evaluator.firstArm? store subject arms = some (bindings, body)) : body.placed x = true := by
  induction arms with
  | nil => cases h
  | cons arm arms ih =>
      obtain ⟨pattern, body', pos⟩ := arm
      simp only [Arm.allPlaced, Bool.and_eq_true] at harms
      rw [Evaluator.firstArm?] at h
      split at h
      · cases h
        exact harms.1
      · exact ih harms.2 h

namespace Evaluator.Sound

variable {ev : Evaluator} {x : Exits} {scope : ScopeId}

theorem block (h : ev.Sound) {stmts : List Stmt} (hs : Stmt.allPlaced x stmts = true) (last : Value) :
    (ev.block scope last stmts).Keeps orderly x.Allows := by
  induction stmts generalizing last with
  | nil => exact .pure trivial
  | cons s rest ih =>
      simp only [Stmt.allPlaced, Bool.and_eq_true] at hs
      refine .bind (h.exec hs.1 scope) fun flow hflow => ?_
      cases flow with
      | normal v => exact ih hs.2 v
      | ret v => exact .pure hflow
      | leave => exact .pure hflow

/-! ### Calls -/

theorem callClosure (h : ev.Sound) {f : Closure} (hf : Stmt.allPlaced .body f.body = true) (positional : List Value)
    (named : List (String × Value)) (line : Nat) :
    (ev.callClosure f positional named line).Keeps orderly fun _ => True := by
  refine .bind (.calm fun _ => bindArgs_ofValues _ _ _ _ _) fun args _ => ?_
  refine .bind (.opened fun scope => h.block hf .null) fun flow hflow => ?_
  cases flow with
  | normal v => exact .pure trivial
  | ret v => exact .pure trivial
  | leave => cases hflow

theorem construct (c : Constructor) (positional : List Value) (named : List (String × Value)) (line : Nat) :
    (Evaluator.construct c positional named line).Keeps orderly fun _ => True :=
  .bind (.calm fun _ => bindArgs_ofValues _ _ _ _ _) fun _ _ => .make_quiet fun _ => rfl

theorem callNative (sig : Signature) (positional : List Value) (named : List (String × Value)) (line : Nat) :
    (Evaluator.callNative sig positional named line).Keeps orderly fun _ => True := by
  refine .bind (.calm fun _ => bindArgs_ofValues _ _ _ _ _) fun args _ => ?_
  cases hn : Native.find? ⟨sig.name, args, line⟩ with
  | none => exact .fail rfl
  | some n =>
      have hobeys := Native.find?_obeys hn
      refine .native (fun w hw => hw.setHost (hobeys w.host).closures) fun h f herror => ?_
      obtain ⟨why, rfl⟩ := (hobeys h).of_fault herror
      rfl

theorem call (h : ev.Sound) (callee : Value) (positional : List Value) (named : List (String × Value)) (line : Nat) :
    (ev.call callee positional named line).Keeps orderly fun _ => True := by
  refine .world fun w hw => ?_
  cases callee with
  | native sig => exact callNative sig positional named line
  | function ref => exact h.callClosure (hw.functions ref) positional named line
  | constructor ref => exact construct _ positional named line
  | _ => exact .fail rfl

/-! ### Matches -/

theorem armBody (h : ev.Sound) {body : ArmBody} (hb : body.placed x = true) :
    (ev.armBody scope body).Keeps orderly x.Allows := by
  cases body with
  | block stmts pos =>
      refine .bind (h.block hb .null) fun flow hflow => ?_
      cases flow with
      | normal v => exact .pure trivial
      | ret v => exact .pure hflow
      | leave => exact .pure hflow
  | expr e => exact .bind (h.eval hb scope) fun v _ => .pure trivial

theorem choose (h : ev.Sound) {subject : Expr} {arms : List Arm} (hs : subject.placed = true)
    (harms : Arm.allPlaced x arms = true) (pos : Position) :
    (ev.choose subject arms pos scope).Keeps orderly x.Allows := by
  refine .bind (h.eval hs scope) fun v _ => .world fun w _ => ?_
  cases hfirst : Evaluator.firstArm? w.store v arms with
  | none => exact .bind (.text v) fun _ _ => .fail rfl
  | some arm => exact .opened fun inner => h.armBody (firstArm?_placed harms hfirst)

/-! ### Expressions -/

theorem place (h : ev.Sound) {target : Expr} (ht : target.placed = true) :
    (ev.place target scope).Keeps orderly fun _ => True := by
  cases target with
  | name name pos => exact .pure trivial
  | index object key pos =>
      simp only [Expr.placed, Bool.and_eq_true] at ht
      refine .bind (h.eval ht.1 scope) fun o _ => ?_
      exact .bind (h.eval ht.2 scope) fun k _ => .pure trivial
  | member object property pos => exact .bind (h.eval (by simpa [Expr.placed] using ht) scope) fun o _ => .pure trivial
  | _ => exact .fail rfl

theorem operate (op : BinaryOp) (l r : Value) (line : Nat) :
    (Evaluator.operate op l r line).Keeps orderly fun _ => True := by
  unfold Evaluator.operate
  split
  · exact .bind (.text l) fun _ _ => .bind (.text r) fun _ _ => .pure trivial
  · exact .calm fun _ => op.apply_ofValues l r

theorem assign (h : ev.Sound) {target value : Expr} (ht : target.placed = true) (hv : value.placed = true)
    (op? : Option BinaryOp) (line : Nat) : (ev.assign target op? value line scope).Keeps orderly fun _ => True := by
  refine .bind (h.place ht) fun p _ => .bind (h.eval hv scope) fun right _ => ?_
  have hend (new : Value) : (do Run.write line (p.write · scope new); return new).Keeps orderly fun _ => True :=
    .bind (.writePlace line p scope new) fun _ _ => .pure trivial
  cases op? with
  | none => exact hend right
  | some op =>
      refine .bind (.calm fun w => p.read_ofValues w scope) fun current _ => ?_
      exact .bind (operate op current right line) fun new _ => hend new

theorem step (h : ev.Sound) {target : Expr} (ht : target.placed = true) (direction : Direction) (early : Bool)
    (line : Nat) : (ev.step direction early target line scope).Keeps orderly fun _ => True := by
  refine .bind (h.place ht) fun p _ => .bind (.calm fun w => p.read_ofValues w scope) fun old _ => ?_
  cases old with
  | number n => exact .bind (.writePlace line p scope _) fun _ _ => .pure trivial
  | _ => exact .fail rfl

theorem bound (h : ev.Sound) {e? : Option Expr} (he : Expr.boundPlaced e? = true) :
    (ev.bound e? scope).Keeps orderly fun _ => True := by
  cases e? with
  | none => exact .pure trivial
  | some e => exact h.eval he scope

theorem evalExpr (h : ev.Sound) {e : Expr} (he : e.placed = true) :
    (ev.evalExpr e scope).Keeps orderly fun _ => True := by
  cases e with
  | number n pos => exact .pure trivial
  | text s pos => exact .pure trivial
  | bool b pos => exact .pure trivial
  | null pos => exact .pure trivial
  | fresh pos =>
      simp only [Evaluator.evalExpr]
      exact .make_quiet fun _ => rfl
  | name name pos => exact .calm fun w => (Place.var name).read_ofValues w scope
  | array items pos =>
      have hitems := Expr.placed_of_allPlaced (by simpa [Expr.placed] using he)
      refine .bind (.each fun e he => h.eval (hitems e he) scope) fun vs _ => ?_
      exact .make_quiet fun _ => rfl
  | object entries pos =>
      have hentries := Expr.placed_of_entriesPlaced (by simpa [Expr.placed] using he)
      refine .bind (.eachEntry fun entry he => h.eval (hentries entry he) scope) fun vs _ => ?_
      exact .make_quiet fun _ => rfl
  | assign target op? value pos =>
      simp only [Expr.placed, Bool.and_eq_true] at he
      exact h.assign he.1 he.2 op? _
  | logical op left right pos =>
      simp only [Expr.placed, Bool.and_eq_true] at he
      refine .bind (h.eval he.1 scope) fun l _ => ?_
      -- the left operand decides alone, or the value is that of the right one
      cases op <;> cases l.isTruthy
      · exact .pure trivial
      · exact h.eval he.2 scope
      · exact h.eval he.2 scope
      · exact .pure trivial
  | binary op left right pos =>
      simp only [Expr.placed, Bool.and_eq_true] at he
      exact .bind (h.eval he.1 scope) fun l _ => .bind (h.eval he.2 scope) fun r _ => operate op l r _
  | unary op operand pos =>
      simp only [Expr.placed] at he
      exact .bind (h.eval he scope) fun v _ => .calm fun _ => op.apply_ofValues v
  | step direction early target pos => exact h.step (by simpa [Expr.placed] using he) direction early _
  | call callee args named pos =>
      simp only [Expr.placed, Bool.and_eq_true] at he
      obtain ⟨⟨hcallee, hargs⟩, hnamed⟩ := he
      refine .bind (h.eval hcallee scope) fun f _ => ?_
      refine .bind (.each fun e he => h.eval (Expr.placed_of_allPlaced hargs e he) scope) fun vs _ => ?_
      have hentries := Expr.placed_of_entriesPlaced hnamed
      refine .bind (.eachEntry fun entry he => h.eval (hentries entry he) scope) fun ks _ => ?_
      exact h.call f vs ks _
  | member object property pos =>
      simp only [Expr.placed] at he
      exact .bind (h.eval he scope) fun o _ => .calm fun w => w.store.member_ofValues o property
  | index object key pos =>
      simp only [Expr.placed, Bool.and_eq_true] at he
      refine .bind (h.eval he.1 scope) fun o _ => .bind (h.eval he.2 scope) fun k _ => ?_
      exact .calm fun w => w.store.index_ofValues o k
  | slice object start? stop? pos =>
      simp only [Expr.placed, Bool.and_eq_true] at he
      obtain ⟨⟨hobject, hstart⟩, hstop⟩ := he
      refine .bind (h.eval hobject scope) fun o _ => ?_
      refine .bind (h.bound hstart) fun s _ => .bind (h.bound hstop) fun e _ => ?_
      refine .make (fun w v store hw hok => ?_) fun store cause => (store.slice_ofValues o s e).calm cause
      obtain ⟨arrays, rfl⟩ := Store.slice_cases hok
      exact hw.setStore rfl
  | choose subject arms pos =>
      simp only [Expr.placed, Bool.and_eq_true] at he
      refine .bind (h.choose he.1 he.2 pos) fun flow hflow => ?_
      cases flow with
      | normal v => exact .pure trivial
      | ret v => cases hflow
      | leave => cases hflow

/-! ### Statements -/

theorem declareVariants (enum : String) (members : Dict String Value) (variants : List VariantDecl) :
    (Evaluator.declareVariants enum scope members variants).Keeps orderly fun _ => True := by
  induction variants generalizing members with
  | nil => exact .pure trivial
  | cons v rest ih =>
      have hnew (s : Store) : (Evaluator.newVariant enum v s).2.closures = s.closures := by
        unfold Evaluator.newVariant
        split
        · rfl
        · rfl
      exact .bind (.make_quiet hnew) fun value _ => .bind (.define scope v.name value) fun _ _ => ih _

theorem declareEnum (name : String) (variants : List VariantDecl) :
    (Evaluator.declareEnum name variants scope).Keeps orderly fun _ => True := by
  refine .bind (declareVariants name {} variants) fun members _ => ?_
  exact .bind (.make_quiet fun _ => rfl) fun value _ => .define scope name value

theorem declareFunction (name : String) (params : List String) {body : List Stmt}
    (hbody : Stmt.allPlaced .body body = true) :
    (Evaluator.declareFunction name params body scope).Keeps orderly fun _ => True := by
  refine .bind (.capture scope) fun _ _ => ?_
  refine .bind (.create fun w hw => hw.newClosure hbody) fun f _ => ?_
  exact .bind (.define scope name f) fun _ _ => .pure trivial

theorem register (kind : FrameKind) {r : Registration} (hbody : Stmt.allPlaced .body r.body = true) :
    (Evaluator.register kind r).Keeps orderly fun _ => True := by
  refine .bind (.capture r.scope) fun _ _ => .modify fun w hw => ?_
  cases kind with
  | draw => exact { hw with draw := by simpa using hbody }
  | update => exact { hw with update := by simpa using hbody }

theorem execStmt (h : ev.Sound) {s : Stmt} (hs : s.placed x = true) :
    (ev.execStmt s scope).Keeps orderly x.Allows := by
  cases s with
  | declare name value pos =>
      simp only [Stmt.placed] at hs
      exact .bind (h.eval hs scope) fun v _ => .bind (.define scope name v) fun _ _ => .pure trivial
  | function name params body pos =>
      simp only [Stmt.placed] at hs
      exact .bind (declareFunction name params hs) fun _ _ => .pure trivial
  | ret value? pos =>
      simp only [Stmt.placed, Bool.and_eq_true] at hs
      cases value? with
      | none => exact .pure hs.1
      | some e => exact .bind (h.eval hs.2 scope) fun v _ => .pure hs.1
  | cond test body bodyPos other? pos =>
      simp only [Stmt.placed, Bool.and_eq_true] at hs
      obtain ⟨⟨htest, hbody⟩, hother⟩ := hs
      refine .bind (h.eval htest scope) fun v _ => ?_
      cases other? with
      | none =>
          split
          · exact h.block hbody .null
          · exact .pure trivial
      | some other =>
          split
          · exact h.block hbody .null
          · exact h.exec hother scope
  | loop body bodyPos pos =>
      have hbody : Stmt.allPlaced x.inLoop body = true := by simpa [Stmt.placed] using hs
      refine .bind (h.block hbody .null) fun flow hflow => ?_
      cases flow with
      | normal v => exact h.exec hs scope
      | leave => exact .pure trivial
      | ret v => exact .pure hflow
  | leave pos =>
      simp only [Stmt.placed] at hs
      exact .pure hs
  | block stmts pos => exact h.block (by simpa [Stmt.placed] using hs) .null
  | enum name variants pos => exact .bind (declareEnum name variants) fun _ _ => .pure trivial
  | frame kind param? body pos =>
      simp only [Stmt.placed] at hs
      exact .bind (register kind hs) fun _ _ => .pure trivial
  | expr e =>
      cases e with
      | choose subject arms pos =>
          simp only [Stmt.placed, Bool.and_eq_true] at hs
          exact h.choose hs.1 hs.2 pos
      | _ => exact .bind (h.eval (by simpa [Stmt.placed] using hs) scope) fun _ _ => .pure trivial

end Evaluator.Sound

/-! ## Whole runs -/

theorem evaluator_sound (fuel : Nat) : (evaluator fuel).Sound := by
  induction fuel with
  | zero => exact ⟨fun _ _ => .abort _, fun _ _ => .abort _⟩
  | succ fuel ih => exact ⟨fun he _ => .within (ih.evalExpr he), fun hs _ => .within (ih.execStmt hs)⟩

namespace Run.Keeps

theorem topLevel (fuel : Nat) {p : Program} (hp : p.wellPlaced = true) (last : Value) :
    (Run.topLevel (evaluator fuel) last p).Keeps orderly fun _ => True := by
  induction p generalizing last with
  | nil => exact pure trivial
  | cons s rest ih =>
      simp only [Program.wellPlaced, Stmt.allPlaced, Bool.and_eq_true] at hp
      refine bind ((evaluator_sound fuel).exec hp.1 .global) fun flow hflow => ?_
      cases flow with
      | normal v => exact ih hp.2 v
      | ret v => cases hflow
      | leave => cases hflow

theorem program (fuel : Nat) {p : Program} (hp : p.wellPlaced = true) :
    (Run.program fuel p).Keeps orderly fun _ => True := by
  refine bind (topLevel fuel hp .null) fun v _ => ?_
  exact bind (modify fun w hw => ⟨hw.functions, hw.draw, hw.update⟩) fun _ _ => pure trivial

theorem frameBlock (fuel : Nat) {r : Registration} (hr : Stmt.allPlaced .body r.body = true)
    (bindings : List (String × Value)) : (Run.frameBlock fuel r bindings).Keeps orderly fun _ => True := by
  refine bind (opened fun scope => (evaluator_sound fuel).block hr .null) fun flow hflow => ?_
  cases flow with
  | normal v => exact pure trivial
  | ret v => exact pure trivial
  | leave => cases hflow

theorem updateBlock (fuel : Nat) (dt : Float) : (Run.updateBlock fuel dt).Keeps orderly fun _ => True := by
  refine world fun w hw => ?_
  cases h : w.update? with
  | none => exact pure trivial
  | some r => exact frameBlock fuel (hw.update r h) _

theorem drawBlock (fuel : Nat) : (Run.drawBlock fuel).Keeps orderly fun _ => True := by
  refine world fun w hw => ?_
  cases h : w.draw? with
  | none => exact pure trivial
  | some r => exact frameBlock fuel (hw.draw r h) _

end Run.Keeps

theorem Act.perform_orderly (fuel : Nat) {act : Act} (h : act.Within (·.wellPlaced = true)) :
    (act.perform fuel).Keeps orderly fun _ => True := by
  cases act with
  | run p => exact .program fuel h
  | update dt => exact .bind (.updateBlock fuel dt) fun _ _ => .pure trivial
  | draw => exact .bind (.drawBlock fuel) fun _ _ => .pure trivial
  | call callee positional named line => exact (evaluator_sound fuel).call callee positional named line
  | reset => exact .bind (.modify fun w _ => .start _ _ _) fun _ _ => .pure trivial

theorem World.Reachable.orderly {w : World} (h : w.Reachable (·.wellPlaced = true)) : w.Orderly := by
  refine World.Reachable.inOrder (T := Cairn.orderly) (fun device chances => ?_) Act.perform_orderly
    (fun w device pending hw => ?_) h
  · exact .start device chances _
  · exact World.Orderly.setHost hw rfl

/-- If all programs that a host runs are well placed, nothing that it does ends in a fault of control flow, whatever was
done before, whatever is called, and whatever becomes of the device and the output in between. -/
theorem flow_finds_way_out {w : World} (hw : w.Reachable (·.wellPlaced = true)) (fuel : Nat) {act : Act}
    (hact : act.Within (·.wellPlaced = true)) {f : Fault} {w' : World} (h : act.perform fuel w = .fault f w') :
    f.cause.code ≠ "R007" ∧ f.cause.code ≠ "R008" := by
  have hflow : f.cause.isFlow = false := (act.perform_orderly fuel hact).admits hw.orderly h
  rw [← Bool.not_eq_true, Fault.Cause.isFlow_iff, not_or] at hflow
  exact hflow

/-- `fun f() { loop { match true { false => { break } _ => { return null.x } } } }` -/
def leavesFromArms : Program :=
  [.function "f" [] [.loop [.expr (.choose (.bool true .start)
    [.mk (.literal (.bool false) .start) (.block [.leave .start] .start) .start,
      .mk (.wildcard .start) (.block [.ret (some (.member (.null .start) "x" .start)) .start] .start) .start]
    .start)] .start .start] .start]

set_option maxRecDepth 2000 in
/-- The function is declared, a key goes down, and the call of the function fails for another reason. -/
theorem flow_finds_way_out_of_arms :
    leavesFromArms.wellPlaced = true ∧ ∃ v w w₁ w' f,
      Act.perform 6 (.run leavesFromArms) (World.start {} Chance.least) = .ok v w ∧
      w₁.host.device = w.host.device.handle (.keyDown "a") ∧ World.Reachable (·.wellPlaced = true) w₁ ∧
      Act.perform 6 (.call v [] [] 1) w₁ = .fault f w' ∧
      f.cause.code ≠ "R007" ∧ f.cause.code ≠ "R008" := by
  have hplaced : leavesFromArms.wellPlaced = true := rfl
  have hrun : ∃ w w' f, Act.perform 6 (.run leavesFromArms) (World.start {} Chance.least) = .ok (.function 0) w ∧
      Act.perform 6 (.call (.function 0) [] [] 1)
        { w with host := { w.host with device := w.host.device.handle (.keyDown "a") } } = .fault f w' :=
    ⟨_, _, _, rfl, rfl⟩
  obtain ⟨w, w', f, hdeclared, hfault⟩ := hrun
  have hact : Act.Within (·.wellPlaced = true) (.run leavesFromArms) := hplaced
  have hcall : Act.Within (·.wellPlaced = true) (.call (.function 0) [] [] 1) := trivial
  have hreached : World.Reachable (·.wellPlaced = true) w :=
    .act (.start {} Chance.least) 6 hact (congrArg Outcome.world? hdeclared)
  have hlater := hreached.host (w.host.device.handle (.keyDown "a")) w.host.pending
  exact ⟨hplaced, _, w, _, w', f, hdeclared, rfl, hlater, hfault, flow_finds_way_out hlater 6 hcall hfault⟩

end Cairn
