import Cairn.Program.Compile
import Cairn.Proofs.Composition
import Cairn.Proofs.History
import Cairn.Proofs.Keeping
import Cairn.Proofs.Reading.Forms
import Mathlib

/-!
# Programs that are read can run

A program that was read is in form at every depth, only its top has declarations, and nothing at its top assigns to a
plain name without declaring it. Resolution keeps this. Evaluation finds a place wherever it assigns, since all code
that it comes upon is in form: the program that runs, and every function and frame block that an earlier one left.
-/

namespace Cairn

/-! ## The statements of a program -/

/-- Does the statement assign to a plain name, without an operator? -/
def Stmt.isPlainAssignment : Stmt → Bool
  | .expr (.assign (.name _ _) none _ _) => true
  | _ => false

/-- A statement as it stands at the top of a program. -/
structure Stmt.Topmost (s : Stmt) : Prop where
  inForm : (Node.stmt s).Every fun n => n.inForm = true
  below : ∀ child ∈ s.children, child.Every fun n => n.isDeclaration = false
  folded : s.isPlainAssignment = false

theorem Stmt.isPlainAssignment_resolve (names : List String) (s : Stmt) :
    (s.resolve names).isPlainAssignment = s.isPlainAssignment := by
  cases s with
  | expr e =>
      cases e with
      | assign target op? value pos => cases target <;> cases op? <;> rfl
      | _ => rfl
  | _ => rfl

namespace Program

theorem foldDeclaration_topmost {s : Stmt} (h : s.Regular) : (foldDeclaration s).Topmost := by
  have hdeclares (n : Node) (hn : n.Regular) : n.Every fun m => m.isDeclaration = false := hn.imp fun _ => And.right
  obtain ⟨-, hchildren⟩ := Node.every_iff.1 h
  unfold foldDeclaration
  split
  next name namePos value pos =>
    have hvalue : value.Regular := by
      obtain ⟨-, hoperands⟩ := Node.every_iff.1 (hchildren _ List.mem_cons_self)
      exact hoperands _ (by simp [Node.children, Expr.children])
    refine ⟨Node.every_iff.2 ⟨rfl, ?_⟩, ?_, rfl⟩
    · simpa [Node.children, Stmt.children] using hvalue.inForm_every
    · simpa [Stmt.children] using hdeclares _ hvalue
  next hother =>
    refine ⟨h.inForm_every, fun child hchild => hdeclares child (hchildren child hchild), ?_⟩
    unfold Stmt.isPlainAssignment
    split
    · exact (hother _ _ _ _ rfl).elim
    · rfl

theorem round_topmost {depth : Nat} {progress progress' : Progress} {c c' : Cursor}
    (h : ∀ s ∈ progress.body, s.Topmost) (hround : round depth progress c = some (progress', c')) :
    ∀ s ∈ progress'.body, s.Topmost := by
  unfold round at hround
  split at hround
  · cases hround
    exact h
  · have hyields := (grammar_sound depth).stmt c
    unfold Parse.Yields at hyields
    cases hstmt : (grammar depth).stmt c with
    | done s c₁ =>
        rw [hstmt] at hround hyields
        cases hround
        simpa [or_imp, forall_and, foldDeclaration_topmost hyields.1] using h
    | failed fault c₁ =>
        rw [hstmt] at hround
        cases hround
        exact h
    | exhausted =>
        rw [hstmt] at hround
        cases hround

theorem statements_topmost {depth : Nat} {progress : Progress} (h : ∀ s ∈ progress.body, s.Topmost) (c : Cursor)
    (allowance : Nat) : ∀ s ∈ (statements depth progress c allowance).body, s.Topmost := by
  induction allowance generalizing progress c with
  | zero => exact h
  | succ allowance ih =>
      rw [statements]
      split
      · exact h
      · split
        next => exact h
        next progress' c' hround => exact ih (round_topmost h hround) _

theorem parse_topmost {tokens : List Token} {p : Program} (h : parse tokens = .ok p) : ∀ s ∈ p, s.Topmost := by
  have hall := @statements_topmost ((start tokens).rest.length + 1) {} (by simp) (start tokens)
    ((start tokens).rest.length + 1)
  unfold parse Progress.outcome at h
  simp only at h
  split at h
  · cases h
    exact hall
  · cases h

section

variable {p : Program} (h : ∀ s ∈ p, s.Topmost)

include h

theorem resolve_inForm {path : List Nat} {n : Node} (hn : p.resolve.at? path = some n) : n.inForm = true := by
  rw [at?_resolve] at hn
  obtain ⟨m, hm, rfl⟩ := Option.map_eq_some_iff.1 hn
  rw [Node.inForm_resolve]
  exact every_iff.2 (fun s hs => (h s hs).inForm) path m hm

theorem resolve_declares_at_top {path : List Nat} {n : Node} (hn : p.resolve.at? path = some n)
    (hdeclares : n.isDeclaration = true) : path.length = 1 := by
  rw [at?_resolve] at hn
  obtain ⟨m, hm, rfl⟩ := Option.map_eq_some_iff.1 hn
  rw [Node.isDeclaration_resolve] at hdeclares
  match path with
  | [] => cases hm
  | [i] => rfl
  | i :: j :: path =>
      rw [at?] at hm
      split at hm
      next s hi =>
        rw [Node.at?] at hm
        split at hm
        next child hj =>
          have hbelow : m.isDeclaration = false :=
            (h s (List.mem_of_getElem? hi)).below child (List.mem_of_getElem? hj) path m hm
          rw [hdeclares] at hbelow
          cases hbelow
        next => cases hm
      next => cases hm

theorem resolve_folded {s : Stmt} (hs : s ∈ p.resolve) : s.isPlainAssignment = false := by
  rw [resolve, Stmt.resolveAll_eq_map] at hs
  obtain ⟨t, ht, rfl⟩ := List.mem_map.1 hs
  rw [Stmt.isPlainAssignment_resolve]
  exact (h t ht).folded

end

/-- The program was read from a text. -/
def FromText (p : Program) : Prop := ∃ text compiled, compile text = .ok compiled ∧ compiled.program = p

theorem FromText.inForm {p : Program} (h : p.FromText) : ∀ s ∈ p, (Node.stmt s).Every fun n => n.inForm = true := by
  obtain ⟨text, compiled, hcompile, rfl⟩ := h
  obtain ⟨ts, parsed, -, hparse, hresolve⟩ := Program.read_eq_ok_iff.1 (compile_eq_ok_iff.1 hcompile).1
  rw [← hresolve]
  exact every_iff.1 fun path n hn => resolve_inForm (parse_topmost hparse) hn

end Program

/-! ## Places are found -/

/-- All code of the world is in form, and no fault is for want of a place. -/
def inForm : Terms where
  InOrder := World.HoldsOnly fun n => n.inForm = true
  Admits f := f.cause ≠ .invalidTarget

namespace World.HoldsOnly

variable {P : Node → Prop} {w w' : World}

theorem beside (h : w.HoldsOnly P) (hw : w.Beside w') : w'.HoldsOnly P :=
  fun body i hbody => h body i (hw.holds hbody)

theorem setScopes (h : w.HoldsOnly P) (scopes : Arena) : { w with scopes }.HoldsOnly P :=
  fun body i hbody => h body i (hbody.congr rfl rfl rfl)

theorem of_empty (hclosures : w.store.closures = #[]) (hdraw : w.draw? = none) (hupdate : w.update? = none) :
    w.HoldsOnly P := by
  intro body i hbody
  cases hbody with
  | function h => simp [hclosures] at h
  | draw h => simp [hdraw] at h
  | update h => simp [hupdate] at h

end World.HoldsOnly

theorem Run.Composed.keeps_inForm {K : ScopeId → Prop} {α : Type} {m : Run α}
    (h : Run.Composed (fun n => n.inForm = true) K m) : m.Keeps inForm fun _ => True := by
  have hscopes (w : World) (scopes : Arena) (hw : inForm.InOrder w) : inForm.InOrder { w with scopes } :=
    World.HoldsOnly.setScopes hw scopes
  induction h with
  | pure a => exact .pure trivial
  | bind _ _ ihm ihk => exact .bind ihm fun a _ => ihk a
  | look _ ih => exact .world fun w hw => ih w hw
  | @quiet K α f h =>
      intro w hw
      have hquiet := h w
      change (f w).Keeps inForm _
      generalize f w = o at hquiet
      cases o with
      | ok a w' => exact ⟨trivial, World.HoldsOnly.beside hw hquiet⟩
      | fault x w' => exact ⟨hquiet.1, hquiet.2 ▸ hw⟩
      | abort why => trivial
  | @misplaced K α n target line hn htarget hplace =>
      -- A node in form has a place for its target.
      have hn' : n.inForm = target.isPlace := by
        cases n with
        | expr e =>
            cases e with
            | assign => cases htarget; rfl
            | step => cases htarget; rfl
            | _ => cases htarget
        | _ => cases htarget
      rw [hn', hplace] at hn
      cases hn
  | define => exact .modifyScopes hscopes _
  | set => exact .modifyScopes hscopes _
  | @function K c _ hbody =>
      refine .bind (.modifyScopes hscopes _) fun _ _ => .create fun w hw body i hheld => ?_
      obtain hheld | ⟨rfl, -⟩ := hheld.of_closures_push (w := w) (c := c) rfl rfl rfl
      · exact hw body i hheld
      · exact hbody
  | @register K r kind _ hbody =>
      refine .bind (.modifyScopes hscopes _) fun _ _ => .modify fun w hw body i hheld => ?_
      cases kind with
      | draw =>
          cases hheld with
          | function h => exact hw _ _ (.function h)
          | draw h => cases h; exact hbody
          | update h => exact hw _ _ (.update h)
      | update =>
          cases hheld with
          | function h => exact hw _ _ (.function h)
          | draw h => exact hw _ _ (.draw h)
          | update h => cases h; exact hbody
  | @opened K α parent m _ _ ih =>
      have hopen : (Run.openScope parent).Keeps inForm fun _ => True := fun w hw => ⟨trivial, hscopes _ _ hw⟩
      exact .bind hopen fun i _ => .releasing hscopes (.within (ih i))
  | within _ _ ih => exact .within ih

theorem Act.keeps_inForm (fuel : Nat) {act : Act} (hact : act.Within Program.FromText) :
    (act.perform fuel).Keeps inForm fun _ => True := by
  cases act with
  | run p => exact (Run.Composed.program (K := fun _ => True) fuel trivial hact.inForm).keeps_inForm
  | update dt =>
      exact .bind (Run.Composed.updateBlock (K := fun _ => True) fuel dt).keeps_inForm fun _ _ => .pure trivial
  | draw => exact .bind (Run.Composed.drawBlock (K := fun _ => True) fuel).keeps_inForm fun _ _ => .pure trivial
  | call callee positional named line =>
      exact ((evaluator_composed _ fuel).call (K := fun _ => True) callee positional named line).keeps_inForm
  | reset => exact .bind (.modify fun w _ => .of_empty rfl rfl rfl) fun _ _ => .pure trivial

theorem World.Reachable.inForm {w : World} (h : w.Reachable Program.FromText) :
    w.HoldsOnly fun n => n.inForm = true := by
  refine World.Reachable.inOrder (T := Cairn.inForm) (fun _ _ => ?_) Act.keeps_inForm (fun w device pending hw => ?_) h
  · exact .of_empty rfl rfl rfl
  · exact fun body i hheld => hw body i (hheld.congr rfl rfl rfl)

/-- What was read is in form at every depth, with declarations at the top and nowhere else; so a host that runs nothing
but what was read never hears of a target that is no place. -/
theorem compiled_programs_find_places {text : List Char} {compiled : Compiled} (h : compile text = .ok compiled) :
    (∀ path n, compiled.program.at? path = some n →
      n.inForm = true ∧ (n.isDeclaration = true → path.length = 1)) ∧
    (∀ s ∈ compiled.program, s.isPlainAssignment = false) ∧
    ∀ w, World.Reachable Program.FromText w → ∀ fuel act, Act.Within Program.FromText act →
      ∀ f w', act.perform fuel w = .fault f w' → f.cause ≠ .invalidTarget := by
  obtain ⟨ts, parsed, -, hparse, hresolve⟩ := Program.read_eq_ok_iff.1 (compile_eq_ok_iff.1 h).1
  have htop := Program.parse_topmost hparse
  rw [← hresolve]
  refine ⟨fun path n hn => ⟨Program.resolve_inForm htop hn, Program.resolve_declares_at_top htop hn⟩,
    fun s hs => Program.resolve_folded htop hs, fun w hw fuel act hact f w' hfault => ?_⟩
  exact (Act.keeps_inForm fuel hact).admits hw.inForm hfault

/-- A declaration, an assignment with an operator in a draw block, and a call that fails. -/
def drawing : List Char := "#\nx = null\ndraw \x7b x += x \x7d\nnull()".toList

theorem compiled_programs_find_places_drawing : ∃ compiled : Compiled, compile drawing = .ok compiled ∧
    (∃ target value pos, compiled.program.at? [1, 0, 0] = some (.expr (.assign target (some .add) value pos)) ∧
      target.isPlace = true) ∧
    (∃ f w', Act.perform 3 (.run compiled.program) (World.start {} Chance.least) = .fault f w' ∧
      f.cause ≠ .invalidTarget) ∧
    ∀ s ∈ compiled.program, s.isPlainAssignment = false := by
  have hread : ∃ compiled target value pos, compile drawing = .ok compiled ∧
      compiled.program.at? [1, 0, 0] = some (.expr (.assign target (some .add) value pos)) ∧
      ∃ f w', Act.perform 3 (.run compiled.program) (World.start {} Chance.least) = .fault f w' :=
    ⟨_, _, _, _, by cbv, by cbv, _, _, by rfl⟩
  obtain ⟨compiled, target, value, pos, hcompile, hnode, f, w', hfault⟩ := hread
  obtain ⟨hform, hfolded, hplaces⟩ := compiled_programs_find_places hcompile
  refine ⟨compiled, hcompile, ⟨target, value, pos, hnode, (hform _ _ hnode).1⟩, ⟨f, w', hfault, ?_⟩, hfolded⟩
  exact hplaces _ (.start {} Chance.least) 3 (.run compiled.program) ⟨_, _, hcompile, rfl⟩ f w' hfault

end Cairn
