import Cairn.Eval.Evaluator
import Cairn.Proofs.Native.Effects

/-!
# Calls of natives by name

A call goes to the groups in turn, until one of them knows the name. It does one thing to the host at most, and nothing
if it fails or if no group knows the name.
-/

namespace Cairn

/-- A call that goes to one group. It answers nothing if the name is not one of its own. -/
def NativeGroup.call (g : NativeGroup) (c : NativeCall) : Deed (Option Value) :=
  match g.find? c with
  | some n => do return some (← n)
  | none => return none

theorem NativeGroup.call_of_some {g : NativeGroup} {c : NativeCall} {n : Native} (hn : g.find? c = some n) (h : Host) :
    g.call c h = ((n h).1.map some, (n h).2) := by
  rw [call, hn]
  simp only [Deed.run_bind]
  rcases n h with ⟨answer, h'⟩
  cases answer with
  | ok v => rfl
  | error e => rfl

theorem NativeGroup.call_of_none {g : NativeGroup} {c : NativeCall} (hn : g.find? c = none) (h : Host) :
    g.call c h = (.ok none, h) := by
  rw [call, hn]
  rfl

theorem Native.map_some_ne_none (r : Except Failure Value) : r.map some ≠ .ok none := by
  cases r with
  | ok v => simp [Except.map]
  | error e => simp [Except.map]

theorem NativeGroup.call_eq_none_iff {g : NativeGroup} {c : NativeCall} {h : Host} :
    g.call c h = (.ok none, h) ↔ g.find? c = none := by
  refine ⟨fun hcall => ?_, fun hn => call_of_none hn h⟩
  cases hn : g.find? c with
  | none => rfl
  | some n =>
      rw [call_of_some hn] at hcall
      exact absurd (congrArg Prod.fst hcall) (Native.map_some_ne_none _)

namespace Native

/-- A call that goes to groups in turn. -/
def ask (c : NativeCall) : List NativeGroup → Deed (Option Value)
  | [] => return none
  | g :: rest => do
    match ← g.call c with
    | some v => return some v
    | none => ask c rest

/-- A call that goes to all groups. -/
def callAny (c : NativeCall) : Deed (Option Value) := ask c groups

variable {c : NativeCall}

/-- The first group that knows the name takes the call. -/
theorem ask_eq (c : NativeCall) (gs : List NativeGroup) (h : Host) :
    ask c gs h =
      match gs.findSome? (·.find? c) with
      | some n => ((n h).1.map some, (n h).2)
      | none => (.ok none, h) := by
  induction gs with
  | nil => rfl
  | cons g rest ih =>
      rw [ask, Deed.run_bind, List.findSome?_cons]
      cases hn : g.find? c with
      | none =>
          rw [g.call_of_none hn]
          exact ih
      | some n =>
          rw [g.call_of_some hn]
          dsimp only
          rcases n h with ⟨answer, h'⟩
          cases answer with
          | ok v => rfl
          | error e => rfl

theorem callAny_of_some {n : Native} (hn : find? c = some n) (h : Host) :
    callAny c h = ((n h).1.map some, (n h).2) := by
  rw [callAny, ask_eq, show groups.findSome? (·.find? c) = some n from hn]

theorem callAny_of_none (hn : find? c = none) (h : Host) : callAny c h = (.ok none, h) := by
  rw [callAny, ask_eq, show groups.findSome? (·.find? c) = none from hn]

theorem callAny_eq_none_iff {h : Host} : callAny c h = (.ok none, h) ↔ ∀ g ∈ groups, g.find? c = none := by
  have hfind : find? c = none ↔ ∀ g ∈ groups, g.find? c = none := List.findSome?_eq_none_iff
  rw [← hfind]
  refine ⟨fun hcall => ?_, fun hn => callAny_of_none hn h⟩
  cases hn : find? c with
  | none => rfl
  | some n =>
      rw [callAny_of_some hn] at hcall
      exact absurd (congrArg Prod.fst hcall) (map_some_ne_none _)

/-- A native that fails refuses an argument and has done nothing at all; there is no answer only where bounds are no
numbers, or where an argument whose text is wanted contains itself; a native that answers has done one thing at most;
and where there is no native of the name, nothing is done. -/
theorem natives_do_all_or_nothing (c : NativeCall) (h : Host) :
    match callAny c h with
    | (.error (.fault f), h') => f.cause.code = "R010" ∧ f.line = c.line ∧ h' = h
    | (.error (.abort .unorderedBounds), _) => c.Unordered
    | (.error (.abort .endlessText), _) => c.Endless h.store
    | (.error (.abort .outOfFuel), _) => False
    | (.ok (some _), h') => Effect c h (emission c h.store) h'
    | (.ok none, h') => h' = h := by
  cases hn : find? c with
  | none =>
      rw [callAny_of_none hn]
  | some n =>
      rw [callAny_of_some hn]
      have hobeys := find?_obeys hn h
      rcases hr : n h with ⟨answer, h'⟩
      rw [hr] at hobeys
      cases answer with
      | ok v => exact hobeys
      | error e =>
          cases e with
          | abort why =>
              cases why with
              | unorderedBounds => exact hobeys.1
              | endlessText => exact hobeys.1
              | outOfFuel => exact hobeys
          | fault f =>
              obtain ⟨⟨why, rfl⟩, rfl⟩ := hobeys
              exact ⟨rfl, rfl, rfl⟩

end Native

end Cairn
