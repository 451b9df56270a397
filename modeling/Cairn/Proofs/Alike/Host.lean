import Cairn.Proofs.Alike.Store

/-!
# Hosts that look alike

Two hosts are alike when their stores are, when they agree on the device and on what chance will answer,
and when the output that waits in one is that of the other behind some output from before. Every native gives
the same answer on both and leaves them alike.
-/

namespace Cairn

/-- The output of `lead`, and after it that of `f`. -/
def Frame.after (f lead : Frame) : Frame :=
  ⟨lead.draw ++ f.draw, lead.audio ++ f.audio, lead.printed ++ f.printed⟩

@[simp] theorem Frame.after_empty (f : Frame) : f.after {} = f := by
  simp [Frame.after]

@[simp] theorem Frame.empty_after (lead : Frame) : Frame.after {} lead = lead := by
  simp [Frame.after]

theorem Frame.after_after (f g lead : Frame) : (f.after g).after lead = f.after (g.after lead) := by
  simp [Frame.after]

variable {Kept Kept' : ScopeId → ScopeId → Prop} {lead : Frame}

structure Host.Alike (Kept : ScopeId → ScopeId → Prop) (lead : Frame) (h h' : Host) : Prop where
  store : h.store.Alike Kept h'.store
  device : h'.device = h.device
  pending : h'.pending = h.pending.after lead
  chances : h'.chances = h.chances

/-- The same answer or failure, from hosts that are alike afterwards. -/
def Host.AlikeWith (Kept : ScopeId → ScopeId → Prop) (lead : Frame) (r r' : Except Failure Value × Host) : Prop :=
  r'.1 = r.1 ∧ r.2.Alike Kept lead r'.2

namespace Host.Alike

variable {h h' : Host}

theorem mono (hK : ∀ i j, Kept i j → Kept' i j) (hh : h.Alike Kept lead h') : h.Alike Kept' lead h' :=
  { hh with store := hh.store.mono hK }

theorem setStore (hh : h.Alike Kept lead h') {s s' : Store} (hs : s.Alike Kept s') :
    { h with store := s }.Alike Kept lead { h' with store := s' } :=
  { hh with store := hs }

theorem setDevice (hh : h.Alike Kept lead h') (device : Device) :
    { h with device }.Alike Kept lead { h' with device } :=
  { hh with device := rfl }

theorem setChances (hh : h.Alike Kept lead h') (chances : Nat → Chance) :
    { h with chances }.Alike Kept lead { h' with chances } :=
  { hh with chances := rfl }

theorem emitDraw (hh : h.Alike Kept lead h') (cmd : DrawCommand) :
    (h.emitDraw cmd).Alike Kept lead (h'.emitDraw cmd) :=
  { hh with pending := by simp [Host.emitDraw, hh.pending, Frame.after] }

theorem emitAudio (hh : h.Alike Kept lead h') (cmd : AudioCommand) :
    (h.emitAudio cmd).Alike Kept lead (h'.emitAudio cmd) :=
  { hh with pending := by simp [Host.emitAudio, hh.pending, Frame.after] }

theorem emitPrint (hh : h.Alike Kept lead h') (line : String) :
    (h.emitPrint line).Alike Kept lead (h'.emitPrint line) :=
  { hh with pending := by simp [Host.emitPrint, hh.pending, Frame.after] }

/-- A check has the same outcome on both. -/
theorem check {α : Type} (hh : h.Alike Kept lead h') (r : Except Failure α) {k : α → Native}
    (hk : ∀ a, Host.AlikeWith Kept lead (k a h) (k a h')) :
    Host.AlikeWith Kept lead ((liftM r >>= k) h) ((liftM r >>= k) h') := by
  cases r with
  | ok a => exact hk a
  | error e => exact ⟨rfl, hh⟩

end Host.Alike

/-- Each looks at its own host. -/
theorem Host.AlikeWith.look {h h' : Host} {k : Host → Native} (hk : Host.AlikeWith Kept lead (k h h) (k h' h')) :
    Host.AlikeWith Kept lead ((Deed.host >>= k) h) ((Deed.host >>= k) h') := hk

/-! ## Natives -/

theorem NativeCall.shown_alike {s s' : Store} (h : s.Alike Kept s') : shown s' = shown s := by
  funext v
  simp only [shown, h.display]

theorem NativeCall.texts_alike {s s' : Store} (h : s.Alike Kept s') (c : NativeCall) : c.texts s' = c.texts s := by
  simp only [texts, shown_alike h]

/-- A native that cannot tell hosts apart that are alike. -/
def Native.Uniform (n : Native) : Prop :=
  ∀ (Kept : ScopeId → ScopeId → Prop) (lead : Frame) (h h' : Host), h.Alike Kept lead h' →
    Host.AlikeWith Kept lead (n h) (n h')

namespace Native

theorem Core.arithmetic_uniform (c : NativeCall) (f : Float → Float) :
    Uniform (Core.arithmetic c f) :=
  fun _ _ _ _ hh => hh.check _ fun _ => ⟨rfl, hh⟩

theorem Core.arithmetic2_uniform (c : NativeCall) (f : Float → Float → Float) :
    Uniform (Core.arithmetic2 c f) :=
  fun _ _ _ _ hh => hh.check _ fun _ => hh.check _ fun _ => ⟨rfl, hh⟩

theorem Core.length_uniform (c : NativeCall) : Uniform (Core.length c) := by
  intro _ _ h h' hh
  refine .look ?_
  simp only [hh.store.items, hh.store.entries]
  cases c.arg 0 with
  | array ref => exact ⟨rfl, hh⟩
  | text s => exact ⟨rfl, hh⟩
  | prototype ref => exact ⟨rfl, hh⟩
  | _ => exact ⟨rfl, hh⟩

theorem Core.append_uniform (c : NativeCall) : Uniform (Core.append c) := by
  intro _ _ h h' hh
  refine .look ?_
  simp only [hh.store.items]
  cases c.arg 0 with
  | array ref => exact ⟨rfl, hh.setStore (hh.store.modifyItems ref _)⟩
  | _ => exact ⟨rfl, hh⟩

theorem Core.removeLast_uniform (c : NativeCall) : Uniform (Core.removeLast c) := by
  intro _ _ h h' hh
  refine .look ?_
  simp only [hh.store.items]
  cases c.arg 0 with
  | array ref => exact ⟨rfl, hh.setStore (hh.store.modifyItems ref _)⟩
  | _ => exact ⟨rfl, hh⟩

theorem Core.listKeys_uniform (c : NativeCall) : Uniform (Core.listKeys c) := by
  intro _ _ h h' hh
  refine .look ?_
  simp only [hh.store.entries]
  cases c.arg 0 with
  | prototype ref =>
      have hnew := hh.store.newArray ((h.store.entries ref).keys.map .text).toArray
      exact ⟨congrArg Except.ok hnew.1, hh.setStore hnew.2⟩
  | _ => exact ⟨rfl, hh⟩

theorem Core.holdBetween_uniform (c : NativeCall) : Uniform (Core.holdBetween c) := by
  intro _ _ h h' hh
  refine hh.check _ fun x => hh.check _ fun low => hh.check _ fun high => ?_
  split
  · exact ⟨rfl, hh⟩
  split
  · exact ⟨rfl, hh⟩
  · exact ⟨rfl, hh⟩

theorem Core.run_uniform (native : Core) (c : NativeCall) : Uniform (native.run c) := by
  cases native with
  | print =>
      intro _ _ h h' hh
      refine .look ?_
      rw [NativeCall.texts_alike hh.store]
      exact hh.check _ fun texts => ⟨rfl, hh.emitPrint _⟩
  | str =>
      intro _ _ h h' hh
      refine .look ?_
      rw [NativeCall.shown_alike hh.store]
      exact hh.check _ fun text => ⟨rfl, hh⟩
  | num => exact fun _ _ _ _ hh => ⟨rfl, hh⟩
  | type => exact fun _ _ _ _ hh => ⟨rfl, hh⟩
  | random =>
      intro _ _ h h' hh
      refine .look ?_
      rw [hh.chances]
      exact ⟨rfl, hh.setChances _⟩
  | randomInt =>
      intro _ _ h h' hh
      refine hh.check _ fun _ => hh.check _ fun _ => .look ?_
      rw [hh.chances]
      exact ⟨rfl, hh.setChances _⟩
  | len => exact Core.length_uniform c
  | push => exact Core.append_uniform c
  | pop => exact Core.removeLast_uniform c
  | keys => exact Core.listKeys_uniform c
  | clamp => exact Core.holdBetween_uniform c
  | atan2 | min | max => exact Core.arithmetic2_uniform c _
  | floor | ceil | round | abs | sqrt | sin | cos => exact Core.arithmetic_uniform c _

theorem Draw.run_uniform (native : Draw) (c : NativeCall) : Uniform (native.run c) := by
  intro _ _ h h' hh
  have hcmd : native.command c h'.store = native.command c h.store := by
    cases native <;> simp only [Draw.command, NativeCall.shown_alike hh.store]
  refine .look ?_
  rw [hcmd]
  exact hh.check _ fun cmd => ⟨rfl, hh.emitDraw cmd⟩

theorem Audio.run_uniform (native : Audio) (c : NativeCall) : Uniform (native.run c) :=
  fun _ _ _ _ hh => hh.check _ fun cmd => ⟨rfl, hh.emitAudio cmd⟩

theorem Input.run_uniform (native : Input) (c : NativeCall) : Uniform (native.run c) := by
  intro _ _ h h' hh
  refine .look ?_
  rw [hh.device]
  cases native with
  | action | key | mouse | pad | padAxis | buffered | peekBuffer => exact hh.check _ fun _ => ⟨rfl, hh⟩
  | touch | mouseX | mouseY | touchX | touchY => exact ⟨rfl, hh⟩
  | buffer => exact hh.check _ fun _ => hh.check _ fun _ => ⟨rfl, hh.setDevice _⟩
  | consume | clearBuffer => exact hh.check _ fun _ => ⟨rfl, hh.setDevice _⟩

theorem find?_uniform {c : NativeCall} {n : Native} (hn : find? c = some n) : Uniform n := by
  obtain ⟨group, hgroup, hfind⟩ := List.exists_of_findSome?_eq_some hn
  simp only [groups, List.mem_cons, List.not_mem_nil, or_false] at hgroup
  rcases hgroup with rfl | rfl | rfl | rfl
  · obtain ⟨native, -, rfl⟩ := Option.map_eq_some_iff.1 hfind
    exact Core.run_uniform native c
  · obtain ⟨native, -, rfl⟩ := Option.map_eq_some_iff.1 hfind
    exact Draw.run_uniform native c
  · obtain ⟨native, -, rfl⟩ := Option.map_eq_some_iff.1 hfind
    exact Audio.run_uniform native c
  · obtain ⟨native, -, rfl⟩ := Option.map_eq_some_iff.1 hfind
    exact Input.run_uniform native c

end Native

end Cairn
