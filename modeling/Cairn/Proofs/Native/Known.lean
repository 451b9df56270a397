import Cairn.Proofs.Native.Calls

/-!
# Names that a group knows

Core, drawing and audio know the names they declare and no others. Input tells a question by its two ends, so that it
also knows names with something between the kind of button and the phase.
-/

namespace Cairn.Native

/-! ## Groups that look a name up -/

theorem Core.isSome_ofName? {name : String} :
    (Core.ofName? name).isSome ↔ name ∈ Core.group.signatures.map (·.name) := by
  simp [Core.ofName?, Core.group]

theorem Draw.isSome_ofName? {name : String} :
    (Draw.ofName? name).isSome ↔ name ∈ Draw.group.signatures.map (·.name) := by
  simp [Draw.ofName?, Draw.group]

theorem Audio.isSome_ofName? {name : String} :
    (Audio.ofName? name).isSome ↔ name ∈ Audio.group.signatures.map (·.name) := by
  simp [Audio.ofName?, Audio.group]

/-! ## Questions about buttons -/

namespace Input

/-- What a question begins with, and what it asks about. -/
def kinds : List (String × (Phase → Input)) :=
  [("", .action), ("key_", .key), ("mouse_", .mouse), ("touch_", .touch), ("pad_", .pad)]

/-- What a question ends in. -/
def endings : List (String × Phase) := [("pressed", .pressed), ("held", .held), ("released", .released)]

/-- A question with something in the middle, such as `unheld` or `key_unheld`. -/
def Padded (name : String) : Prop :=
  ∃ kind ∈ kinds, ∃ ending ∈ endings, ∃ middle : String,
    middle ≠ "" ∧ '_' ∉ middle.toList ∧ name = kind.1 ++ middle ++ ending.1

variable {name : String} {kind : String × (Phase → Input)} {ending : String × Phase}

theorem beforeUnderscore?_append {front back : List Char} (hback : '_' ∉ back) :
    beforeUnderscore? (front ++ '_' :: back) = some front := by
  have hdrop : (back.reverse ++ '_' :: front.reverse).dropWhile (· ≠ '_') = '_' :: front.reverse := by
    rw [List.dropWhile_append_of_pos (by grind)]
    rfl
  simp only [beforeUnderscore?, List.reverse_append, List.reverse_cons, List.append_assoc, List.cons_append,
    List.nil_append, hdrop]
  simp

theorem exists_of_beforeUnderscore? {cs front : List Char} (h : beforeUnderscore? cs = some front) :
    ∃ back, '_' ∉ back ∧ cs = front ++ '_' :: back := by
  unfold beforeUnderscore? at h
  split at h
  next hmem =>
    obtain ⟨back, rest, hcs, hback⟩ := List.eq_append_cons_of_mem (List.mem_reverse.mpr hmem)
    have hcs' : cs = rest.reverse ++ '_' :: back.reverse := by
      rw [← List.reverse_reverse cs, hcs]
      simp
    refine ⟨back.reverse, by simpa using hback, ?_⟩
    have hfront : beforeUnderscore? cs = some rest.reverse := by
      rw [hcs', beforeUnderscore?_append (by simpa using hback)]
    rw [beforeUnderscore?, if_pos hmem, h] at hfront
    cases hfront
    exact hcs'
  next => cases h

theorem phase?_append (hending : ending ∈ endings) (front : List Char) :
    phase? (front ++ ending.1.toList) = some ending.2 := by
  simp only [endings, List.mem_cons, List.not_mem_nil, or_false] at hending
  rcases hending with rfl | rfl | rfl <;> simp [phase?, endsIn, List.isSuffixOf]

theorem exists_of_phase? {cs : List Char} {phase : Phase} (h : phase? cs = some phase) :
    ∃ ending ∈ endings, ending.2 = phase ∧ ending.1.toList <:+ cs := by
  unfold phase? endsIn at h
  split at h
  next hend => cases h; exact ⟨("pressed", .pressed), by simp [endings], rfl, List.isSuffixOf_iff_suffix.mp hend⟩
  split at h
  next hend => cases h; exact ⟨("held", .held), by simp [endings], rfl, List.isSuffixOf_iff_suffix.mp hend⟩
  split at h
  next hend => cases h; exact ⟨("released", .released), by simp [endings], rfl, List.isSuffixOf_iff_suffix.mp hend⟩
  next => cases h

theorem underscore_notMem (hending : ending ∈ endings) : '_' ∉ ending.1.toList := by
  simp only [endings, List.mem_cons, List.not_mem_nil, or_false] at hending
  rcases hending with rfl | rfl | rfl <;> decide

theorem query?_append (hkind : kind ∈ kinds) {back : List Char} (hback : '_' ∉ back) (phase : Phase) :
    query? (kind.1.toList ++ back) phase = some (kind.2 phase) := by
  simp only [kinds, List.mem_cons, List.not_mem_nil, or_false] at hkind
  rcases hkind with rfl | rfl | rfl | rfl | rfl
  · simp [query?, beforeUnderscore?, hback]
  · rw [query?, show "key_".toList ++ back = "key".toList ++ '_' :: back from rfl, beforeUnderscore?_append hback]
    rfl
  · rw [query?, show "mouse_".toList ++ back = "mouse".toList ++ '_' :: back from rfl, beforeUnderscore?_append hback]
    rfl
  · rw [query?, show "touch_".toList ++ back = "touch".toList ++ '_' :: back from rfl, beforeUnderscore?_append hback]
    rfl
  · rw [query?, show "pad_".toList ++ back = "pad".toList ++ '_' :: back from rfl, beforeUnderscore?_append hback]
    rfl

theorem exists_of_isSome_query? {cs : List Char} {phase : Phase} (h : (query? cs phase).isSome) :
    ∃ kind ∈ kinds, ∃ back, '_' ∉ back ∧ cs = kind.1.toList ++ back := by
  unfold query? at h
  split at h
  next hnone =>
    have hcs : '_' ∉ cs := by
      intro hmem
      simp [beforeUnderscore?, hmem] at hnone
    exact ⟨("", .action), by simp [kinds], cs, hcs, rfl⟩
  next front hfront =>
    obtain ⟨back, hback, rfl⟩ := exists_of_beforeUnderscore? hfront
    have hlist {kind : String} (hkind : String.ofList front = kind) : front = kind.toList := by
      rw [← hkind, String.toList_ofList]
    split at h
    next hkind => exact ⟨("key_", .key), by simp [kinds], back, hback, by rw [hlist hkind]; rfl⟩
    next hkind => exact ⟨("mouse_", .mouse), by simp [kinds], back, hback, by rw [hlist hkind]; rfl⟩
    next hkind => exact ⟨("touch_", .touch), by simp [kinds], back, hback, by rw [hlist hkind]; rfl⟩
    next hkind => exact ⟨("pad_", .pad), by simp [kinds], back, hback, by rw [hlist hkind]; rfl⟩
    next => cases h

/-- Whatever stands in the middle of a question, it is the same question. -/
theorem ofName?_question (hkind : kind ∈ kinds) (hending : ending ∈ endings) {middle : String}
    (hmiddle : '_' ∉ middle.toList) :
    ofName? (kind.1 ++ middle ++ ending.1) = some (kind.2 ending.2) := by
  have hback : '_' ∉ middle.toList ++ ending.1.toList := by
    simp [hmiddle, underscore_notMem hending]
  have hlist : (kind.1 ++ middle ++ ending.1).toList = kind.1.toList ++ (middle.toList ++ ending.1.toList) := by
    simp
  have hphase : phase? (kind.1 ++ middle ++ ending.1).toList = some ending.2 := by
    rw [hlist, ← List.append_assoc, phase?_append hending]
  simp only [ofName?, hphase]
  rw [hlist, query?_append hkind hback]

/-- An ending reaches back to the last underscore at most. -/
theorem suffix_of_suffix_underscore (hending : ending ∈ endings) {front back : List Char}
    (h : ending.1.toList <:+ front ++ '_' :: back) : ending.1.toList <:+ back := by
  have hnot := underscore_notMem hending
  rcases List.suffix_or_suffix_of_suffix h (List.suffix_append front ('_' :: back)) with hinside | hbeyond
  · rcases List.suffix_cons_iff.mp hinside with heq | hsuffix
    · simp [heq] at hnot
    · exact hsuffix
  · exact absurd (hbeyond.mem List.mem_cons_self) hnot

theorem suffix_of_suffix_kind (hkind : kind ∈ kinds) (hending : ending ∈ endings) {back : List Char}
    (h : ending.1.toList <:+ kind.1.toList ++ back) : ending.1.toList <:+ back := by
  simp only [kinds, List.mem_cons, List.not_mem_nil, or_false] at hkind
  rcases hkind with rfl | rfl | rfl | rfl | rfl
  · exact h
  · exact suffix_of_suffix_underscore hending (show _ <:+ "key".toList ++ '_' :: back from h)
  · exact suffix_of_suffix_underscore hending (show _ <:+ "mouse".toList ++ '_' :: back from h)
  · exact suffix_of_suffix_underscore hending (show _ <:+ "touch".toList ++ '_' :: back from h)
  · exact suffix_of_suffix_underscore hending (show _ <:+ "pad".toList ++ '_' :: back from h)

theorem isSome_ofName?_of_declared (h : name ∈ group.signatures.map (·.name)) : (ofName? name).isSome := by
  revert name
  decide

theorem declared_of_question (hkind : kind ∈ kinds) (hending : ending ∈ endings) :
    kind.1 ++ ending.1 ∈ group.signatures.map (·.name) := by
  revert ending
  revert kind
  decide

/-- A name is known if it is declared or padded. -/
theorem isSome_ofName? : (ofName? name).isSome ↔ name ∈ group.signatures.map (·.name) ∨ Padded name := by
  constructor
  · intro h
    cases hphase : phase? name.toList with
    | some phase =>
        simp only [ofName?, hphase] at h
        obtain ⟨kind, hkind, back, hback, hname⟩ := exists_of_isSome_query? h
        obtain ⟨ending, hending, -, hsuffix⟩ := exists_of_phase? hphase
        rw [hname] at hsuffix
        obtain ⟨middle, rfl⟩ := suffix_of_suffix_kind hkind hending hsuffix
        have hmiddle : '_' ∉ middle := fun hmem => hback (List.mem_append_left _ hmem)
        have hname' : name = kind.1 ++ String.ofList middle ++ ending.1 := String.toList_inj.mp (by simp [hname])
        by_cases hempty : middle = []
        · left
          rw [hname', hempty]
          simpa using declared_of_question hkind hending
        · exact .inr ⟨kind, hkind, ending, hending, String.ofList middle, by simpa using hempty, by simpa using hmiddle,
            hname'⟩
    | none =>
        simp only [ofName?, hphase] at h
        left
        split at h
        all_goals first | decide | cases h
  · rintro (hdeclared | ⟨kind, hkind, ending, hending, middle, -, hmiddle, rfl⟩)
    · exact isSome_ofName?_of_declared hdeclared
    · rw [ofName?_question hkind hending hmiddle]
      rfl

theorem eq_of_ofName?_eq (hdeclared : name ∈ Native.signatures.map (·.name)) (hkind : kind ∈ kinds)
    (hending : ending ∈ endings) (h : ofName? name = some (kind.2 ending.2)) : name = kind.1 ++ ending.1 := by
  revert name
  revert ending
  revert kind
  decide

/-- No group declares a padded name. -/
theorem Padded.notMem (h : Padded name) : name ∉ Native.signatures.map (·.name) := by
  obtain ⟨kind, hkind, ending, hending, middle, hempty, hmiddle, rfl⟩ := h
  intro hdeclared
  have hsame := eq_of_ofName?_eq hdeclared hkind hending (ofName?_question hkind hending hmiddle)
  have hlist := congrArg String.toList hsame
  simp only [String.toList_append, List.append_assoc, List.append_cancel_left_eq, List.append_left_eq_self,
    String.toList_eq_nil_iff] at hlist
  exact hempty hlist

end Input

/-! ## Calls -/

theorem find?_eq_none_iff {g : NativeGroup} (hg : g ∈ groups) {c : NativeCall} :
    g.find? c = none ↔ c.name ∉ g.signatures.map (·.name) ∧ ¬(g.name = "input" ∧ Input.Padded c.name) := by
  simp only [groups, List.mem_cons, List.not_mem_nil, or_false] at hg
  rcases hg with rfl | rfl | rfl | rfl
  · rw [← Core.isSome_ofName?]
    simp [Core.group]
  · rw [← Draw.isSome_ofName?]
    simp [Draw.group]
  · rw [← Audio.isSome_ofName?]
    simp [Audio.group]
  · rw [show Input.group.name = "input" from rfl, eq_self, true_and, ← not_or, ← Input.isSome_ofName?]
    simp [Input.group]

theorem forall_find?_eq_none_iff {c : NativeCall} :
    (∀ g ∈ groups, g.find? c = none) ↔ c.name ∉ signatures.map (·.name) ∧ ¬Input.Padded c.name := by
  have hinput : Input.group ∈ groups := by simp [groups]
  simp only [signatures, List.map_flatMap, List.mem_flatMap, not_exists, not_and]
  constructor
  · intro h
    refine ⟨fun g hg => ((find?_eq_none_iff hg).mp (h g hg)).1, fun hpadded => ?_⟩
    exact ((find?_eq_none_iff hinput).mp (h _ hinput)).2 ⟨rfl, hpadded⟩
  · rintro ⟨hnot, hpadded⟩ g hg
    exact (find?_eq_none_iff hg).mpr ⟨hnot g hg, fun h => hpadded h.2⟩

/-- A call of a native that no group knows. -/
theorem call_eq_notImplemented (self : Evaluator) {sig : Signature} {positional args : List Value}
    {named : List (String × Value)} {line : Nat} {w : World}
    (hargs : bindArgs sig.name sig.params positional named sig.variadic = .ok args)
    (hn : find? ⟨sig.name, args, line⟩ = none) :
    self.call (.native sig) positional named line w = .fault ⟨.notImplemented sig.name, line⟩ w := by
  have hread : Run.read line (fun _ => bindArgs sig.name sig.params positional named sig.variadic) w = .ok args w := by
    simp only [Run.read, Run.step, hargs]
  change Evaluator.callNative sig positional named line w = _
  rw [Evaluator.callNative, Run.run_bind, hread]
  simp only [hn]
  rfl

/-- A group has nothing to say about a name, and does nothing, exactly if it does not declare it and it is not a padded
question for input; and the same goes for all groups together. No group declares a padded question. A native value of a
name that no group knows is called in vain. -/
theorem natives_answer_declared_or_padded (c : NativeCall) (h : Host) :
    (∀ g ∈ groups, g.call c h = (.ok none, h) ↔
      c.name ∉ g.signatures.map (·.name) ∧ ¬(g.name = "input" ∧ Input.Padded c.name)) ∧
    (callAny c h = (.ok none, h) ↔ c.name ∉ signatures.map (·.name) ∧ ¬Input.Padded c.name) ∧
    (Input.Padded c.name → c.name ∉ signatures.map (·.name)) ∧
    ∀ (self : Evaluator) (sig : Signature) (positional : List Value) (named : List (String × Value)) (w : World),
      c.name ∉ signatures.map (·.name) → ¬Input.Padded c.name → sig.name = c.name →
      bindArgs sig.name sig.params positional named sig.variadic = .ok c.args →
      self.call (.native sig) positional named c.line w = .fault ⟨.notImplemented c.name, c.line⟩ w ∧
        (Fault.Cause.notImplemented c.name).code = "R002" := by
  refine ⟨fun g hg => ?_, ?_, Input.Padded.notMem, ?_⟩
  · rw [NativeGroup.call_eq_none_iff, find?_eq_none_iff hg]
  · rw [callAny_eq_none_iff, forall_find?_eq_none_iff]
  · intro self sig positional named w hname hpadded hsig hargs
    rw [← hsig] at hname hpadded ⊢
    have hnone : find? ⟨sig.name, c.args, c.line⟩ = none :=
      List.findSome?_eq_none_iff.mpr (forall_find?_eq_none_iff.mpr ⟨hname, hpadded⟩)
    exact ⟨call_eq_notImplemented self hargs hnone, rfl⟩

theorem natives_answer_declared_or_padded_blink :
    "blink" ∉ signatures.map (·.name) ∧ ¬Input.Padded "blink" ∧
    callAny ⟨"blink", [.null], 3⟩ {} = (.ok none, {}) ∧ Input.Padded "key_unheld" ∧
    "key_unheld" ∉ signatures.map (·.name) ∧
    (evaluator 1).call (.native ⟨"blink", ["x"], false⟩) [] [] 3 (.start {} Chance.least)
      = .fault ⟨.notImplemented "blink", 3⟩ (.start {} Chance.least) := by
  obtain ⟨-, hall, -, hcall⟩ := natives_answer_declared_or_padded ⟨"blink", [.null], 3⟩ {}
  obtain ⟨-, -, hpadded, -⟩ := natives_answer_declared_or_padded ⟨"key_unheld", [], 3⟩ {}
  have hname : "blink" ∉ signatures.map (·.name) := by decide
  have hplain : ¬Input.Padded "blink" := fun h => by
    have := Input.isSome_ofName?.mpr (.inr h)
    revert this
    decide
  have hunheld : Input.Padded "key_unheld" :=
    ⟨("key_", .key), by simp [Input.kinds], ("held", .held), by simp [Input.endings], "un", by decide, by decide, rfl⟩
  exact ⟨hname, hplain, hall.mpr ⟨hname, hplain⟩, hunheld, hpadded hunheld,
    (hcall (evaluator 1) ⟨"blink", ["x"], false⟩ [] [] (.start {} Chance.least) hname hplain rfl rfl).1⟩

/-- Input answers a name that it does not declare. -/
theorem padded_name_answered :
    "unheld" ∉ signatures.map (·.name) ∧
    Input.group.call ⟨"unheld", [.text "jump"], 1⟩ {} = (.ok (some (.bool false)), {}) ∧
    callAny ⟨"unheld", [.text "jump"], 1⟩ {} = (.ok (some (.bool false)), {}) :=
  ⟨by decide, rfl, rfl⟩

end Cairn.Native
