import Cairn.Proofs.Alike.Host
import Cairn.Proofs.Store.Endless
import Cairn.Proofs.Store.Extends

/-!
# What natives do

A native checks its arguments first. If it refuses one, the host is as it was; if it answers, it has done one thing to
the host at most. What a call emits is read off its name and its arguments.
-/

namespace Cairn

namespace NativeCall

/-- A number is to be held between bounds one of which is not a number. -/
def Unordered (c : NativeCall) : Prop :=
  c.name = "clamp" ∧ ∃ low high, c.arg 1 = .number low ∧ c.arg 2 = .number high ∧ (low.isNaN || high.isNaN) = true

/-- The text is wanted of an argument that contains itself. -/
def Endless (c : NativeCall) (store : Store) : Prop :=
  (c.name = "print" ∨ c.name = "str" ∨ c.name = "text") ∧ ∃ v ∈ c.args, store.Endless v

/-- If there is no value, the call refuses an argument, or wants the text of one that contains itself. -/
def Refuses (c : NativeCall) (store : Store) {α : Type} (r : Except Failure α) : Prop :=
  ∀ e, r = .error e →
    (∃ why, e = .fault ⟨.badArgument c.name why, c.line⟩) ∨ e = .abort .endlessText ∧ c.Endless store

variable {c : NativeCall} {store : Store} {α β : Type}

theorem refuses_ok (a : α) : c.Refuses store (.ok a) := by
  intro e h
  cases h

theorem refuses_refuse (why : ArgumentFault) : c.Refuses store (c.refuse why : Except Failure α) := by
  intro e h
  cases h
  exact .inl ⟨why, rfl⟩

theorem Refuses.bind {r : Except Failure α} {k : α → Except Failure β} (hr : c.Refuses store r)
    (hk : ∀ a, c.Refuses store (k a)) : c.Refuses store (r >>= k) := by
  intro e h
  cases r with
  | error e => cases h; exact hr e rfl
  | ok a => exact hk a e h

theorem refuses_number (i : Nat) : c.Refuses store (c.number i) := by
  unfold number
  cases c.arg i with
  | number n => exact refuses_ok _
  | _ => exact refuses_refuse _

theorem refuses_numberOr (i : Nat) (default : Float) : c.Refuses store (c.numberOr i default) := by
  unfold numberOr
  cases c.arg i with
  | null => exact refuses_ok _
  | _ => exact refuses_number i

theorem refuses_text (i : Nat) : c.Refuses store (c.text i) := by
  unfold text
  cases c.arg i with
  | text s => exact refuses_ok _
  | _ => exact refuses_refuse _

theorem refuses_index (i : Nat) : c.Refuses store (c.index i) := by
  refine (refuses_number i).bind fun n => ?_
  split
  · exact refuses_refuse _
  · exact refuses_ok _

theorem refuses_color (i : Nat) (default : Color) : c.Refuses store (c.color i default) := by
  unfold color
  cases c.arg i with
  | null => exact refuses_ok _
  | text s =>
      simp only
      cases Color.parse? s with
      | some color => exact refuses_ok _
      | none => exact refuses_refuse _
  | _ => exact refuses_refuse _

theorem arg_of_number {i : Nat} {n : Float} (h : c.number i = .ok n) : c.arg i = .number n := by
  unfold number at h
  split at h
  next harg => cases h; exact harg
  next => cases h

theorem arg_of_text {i : Nat} {s : String} (h : c.text i = .ok s) : c.arg i = .text s := by
  unfold text at h
  split at h
  next harg => cases h; exact harg
  next => cases h

theorem refuses_shown (hname : c.name = "print" ∨ c.name = "str" ∨ c.name = "text") {v : Value} (hv : v ∈ c.args) :
    c.Refuses store (shown store v) := by
  intro e h
  unfold shown at h
  split at h
  next => cases h
  next hnone => cases h; exact .inr ⟨rfl, hname, v, hv, Store.display_eq_none_iff.1 hnone⟩

theorem refuses_shown_first (hname : c.name = "print" ∨ c.name = "str" ∨ c.name = "text") :
    c.Refuses store (shown store (c.arg 0)) := by
  unfold arg
  cases hfirst : c.args[0]? with
  | none => exact refuses_ok _
  | some v => exact refuses_shown hname (List.mem_of_getElem? hfirst)

theorem refuses_texts (hname : c.name = "print") : c.Refuses store (c.texts store) := by
  have hall (vs : List Value) (hvs : ∀ v ∈ vs, v ∈ c.args) : c.Refuses store (vs.mapM (shown store)) := by
    induction vs with
    | nil => exact refuses_ok _
    | cons v rest ih =>
        rw [List.mapM_cons]
        refine (refuses_shown (.inl hname) (hvs v List.mem_cons_self)).bind fun text => ?_
        exact (ih fun u hu => hvs u (List.mem_cons_of_mem v hu)).bind fun texts => refuses_ok _
  exact hall c.args fun _ hv => hv

end NativeCall

namespace Native

open NativeCall

/-! ## Emissions -/

def Core.emission (native : Core) (c : NativeCall) (store : Store) : Frame :=
  match native with
  | .print =>
    match c.texts store with
    | .ok texts => { printed := #[" ".intercalate texts] }
    | .error _ => {}
  | _ => {}

def Draw.emission (native : Draw) (c : NativeCall) (store : Store) : Frame :=
  match native.command c store with
  | .ok cmd => { draw := #[cmd] }
  | .error _ => {}

def Audio.emission (native : Audio) (c : NativeCall) : Frame :=
  match native.command c with
  | .ok cmd => { audio := #[cmd] }
  | .error _ => {}

/-- What a call puts out, if it answers: one line, one draw command, one audio command or nothing. -/
def emission (c : NativeCall) (store : Store) : Frame :=
  match Core.ofName? c.name with
  | some native => native.emission c store
  | none =>
    match Draw.ofName? c.name with
    | some native => native.emission c store
    | none =>
      match Audio.ofName? c.name with
      | some native => native.emission c
      | none => {}

/-! ## Effects -/

/-- What a call may do to a host, with what it puts out: one thing at most, while all else stays. -/
inductive Effect (c : NativeCall) (h : Host) : (emitted : Frame) → Host → Prop where
  /-- Nothing, but that chance may have been asked. -/
  | quiet (chances : Nat → Chance) : Effect c h {} { h with chances }
  /-- The arrays that exist stay. -/
  | newArray (items : Array Value) : Effect c h {} { h with store := (h.store.newArray items).2 }
  | push {ref : Nat} (harray : c.arg 0 = .array ref) :
      Effect c h {} { h with store := h.store.modifyItems ref (·.push (c.arg 1)) }
  | pop {ref : Nat} (harray : c.arg 0 = .array ref) :
      Effect c h {} { h with store := h.store.modifyItems ref Array.pop }
  | print (line : String) : Effect c h { printed := #[line] } (h.emitPrint line)
  | draw (cmd : DrawCommand) : Effect c h { draw := #[cmd] } (h.emitDraw cmd)
  | audio (cmd : AudioCommand) : Effect c h { audio := #[cmd] } (h.emitAudio cmd)
  | buffer {action : String} {buffer : TimedBuffer} (haction : c.arg 0 = .text action)
      (hothers : ∀ other, other ≠ action → buffer.left.get? other = h.device.buffer.left.get? other) :
      Effect c h {} { h with device := { h.device with buffer } }

variable {c : NativeCall} {emitted : Frame} {h h' : Host} {α : Type}

theorem Effect.pending (he : Effect c h emitted h') : h'.pending = emitted.after h.pending := by
  cases he <;> simp [Frame.after, Host.emitPrint, Host.emitDraw, Host.emitAudio]

theorem Effect.closures (he : Effect c h emitted h') : h'.store.closures = h.store.closures := by
  cases he <;> rfl

theorem Effect.store (he : Effect c h emitted h') : h.store.Extends h'.store := by
  cases he with
  | newArray items => exact .newArray h.store items
  | push harray => exact .changed h.store _ _
  | pop harray => exact .changed h.store _ _
  | _ => exact .refl h.store

theorem Effect.nothing (c : NativeCall) (h : Host) : Effect c h {} h := .quiet h.chances

/-- The call has its effect; or it refuses an argument, or has no answer, and the host is as it was. -/
def Obeys (c : NativeCall) (emitted : Frame) (h : Host) : Except Failure Value × Host → Prop
  | (.ok _, h') => Effect c h emitted h'
  | (.error (.fault f), h') => (∃ why, f = ⟨.badArgument c.name why, c.line⟩) ∧ h' = h
  | (.error (.abort .unorderedBounds), h') => c.Unordered ∧ h' = h
  | (.error (.abort .endlessText), h') => c.Endless h.store ∧ h' = h
  | (.error (.abort .outOfFuel), _) => False

/-- A call that fails leaves the host as it was. -/
theorem Obeys.of_error {r : Except Failure Value × Host} (hr : Obeys c emitted h r) {e : Failure}
    (he : r.1 = .error e) : r.2 = h := by
  obtain ⟨answer, h'⟩ := r
  cases he
  cases e with
  | fault f => exact hr.2
  | abort why =>
      cases why with
      | unorderedBounds => exact hr.2
      | endlessText => exact hr.2
      | outOfFuel => exact hr.elim

theorem Obeys.closures {r : Except Failure Value × Host} (hr : Obeys c emitted h r) :
    r.2.store.closures = h.store.closures := by
  cases hanswer : r.1 with
  | ok v =>
      obtain ⟨answer, h'⟩ := r
      cases hanswer
      exact Effect.closures hr
  | error e => rw [hr.of_error hanswer]

theorem Obeys.store {r : Except Failure Value × Host} (hr : Obeys c emitted h r) : h.store.Extends r.2.store := by
  cases hanswer : r.1 with
  | ok v =>
      obtain ⟨answer, h'⟩ := r
      cases hanswer
      exact Effect.store hr
  | error e => rw [hr.of_error hanswer]; exact .refl h.store

theorem Obeys.of_fault {r : Except Failure Value × Host} (hr : Obeys c emitted h r) {f : Fault}
    (hf : r.1 = .error (.fault f)) : ∃ why, f = ⟨.badArgument c.name why, c.line⟩ := by
  obtain ⟨answer, h'⟩ := r
  cases hf
  exact hr.1

/-- A check has no effect. -/
theorem Obeys.check {r : Except Failure α} {k : α → Native} (hr : c.Refuses h.store r)
    (hk : ∀ a, r = .ok a → Obeys c emitted h (k a h)) : Obeys c emitted h ((liftM r >>= k) h) := by
  cases r with
  | ok a => exact hk a rfl
  | error e =>
      obtain ⟨why, rfl⟩ | ⟨rfl, hendless⟩ := hr e rfl
      · exact ⟨⟨why, rfl⟩, rfl⟩
      · exact ⟨hendless, rfl⟩

theorem Obeys.look {k : Host → Native} (hk : Obeys c emitted h (k h h)) :
    Obeys c emitted h ((Deed.host >>= k) h) := hk

theorem Obeys.answer (v : Value) : Obeys c {} h ((pure v : Native) h) := Effect.nothing c h

theorem Obeys.refuse (why : ArgumentFault) : Obeys c emitted h ((liftM (c.refuse why : Except Failure Value) : Native) h) :=
  ⟨⟨why, rfl⟩, rfl⟩

/-- The effect comes last. -/
theorem Obeys.change {f : Host → Host} (v : Value) (he : Effect c h emitted (f h)) :
    Obeys c emitted h ((Deed.modify f >>= fun _ => pure v : Native) h) := he

/-! ## Every group -/

theorem Core.arithmetic_obeys (f : Float → Float) : Obeys c {} h (Core.arithmetic c f h) :=
  .check (refuses_number 0) fun _ _ => .answer _

theorem Core.arithmetic2_obeys (f : Float → Float → Float) : Obeys c {} h (Core.arithmetic2 c f h) :=
  .check (refuses_number 0) fun _ _ => .check (refuses_number 1) fun _ _ => .answer _

theorem Core.length_obeys : Obeys c {} h (Core.length c h) := by
  refine .look ?_
  cases c.arg 0 with
  | array ref => exact .answer _
  | text s => exact .answer _
  | prototype ref => exact .answer _
  | _ => exact .refuse _

theorem Core.append_obeys : Obeys c {} h (Core.append c h) := by
  refine .look ?_
  cases harray : c.arg 0 with
  | array ref => exact .change _ (.push harray)
  | _ => exact .refuse _

theorem Core.removeLast_obeys : Obeys c {} h (Core.removeLast c h) := by
  refine .look ?_
  cases harray : c.arg 0 with
  | array ref => exact .change _ (.pop harray)
  | _ => exact .refuse _

theorem Core.listKeys_obeys : Obeys c {} h (Core.listKeys c h) := by
  refine .look ?_
  cases c.arg 0 with
  | prototype ref => exact .change _ (.newArray _)
  | _ => exact .refuse _

theorem Core.holdBetween_obeys (hname : c.name = "clamp") : Obeys c {} h (Core.holdBetween c h) := by
  refine .check (refuses_number 0) fun x _ => .check (refuses_number 1) fun low hlow => ?_
  refine .check (refuses_number 2) fun high hhigh => ?_
  split
  · exact .refuse _
  split
  next hnan => exact ⟨⟨hname, low, high, arg_of_number hlow, arg_of_number hhigh, hnan⟩, rfl⟩
  · exact .answer _

theorem Core.run_obeys (native : Core) (hname : c.name = native.signature.name) :
    Obeys c (native.emission c h.store) h (native.run c h) := by
  cases native with
  | print =>
      refine .look (.check (refuses_texts hname) fun texts htexts => ?_)
      simp only [emission, htexts]
      exact .change _ (.print _)
  | len => exact Core.length_obeys
  | push => exact Core.append_obeys
  | pop => exact Core.removeLast_obeys
  | keys => exact Core.listKeys_obeys
  | str => exact .look (.check (refuses_shown_first (.inr (.inl hname))) fun _ _ => .answer _)
  | num | type => exact .answer _
  | floor | ceil | round | abs | sqrt | sin | cos => exact Core.arithmetic_obeys _
  | atan2 | min | max => exact Core.arithmetic2_obeys _
  | clamp => exact Core.holdBetween_obeys hname
  | random => exact .look (.change _ (.quiet _))
  | randomInt =>
      exact .check (refuses_number 0) fun _ _ => .check (refuses_number 1) fun _ _ => .look (.change _ (.quiet _))

theorem Draw.refuses_fadedColor {store : Store} (i : Nat) : c.Refuses store (Draw.fadedColor c i) :=
  (refuses_color i _).bind fun _ => (refuses_numberOr (i + 1) _).bind fun _ => refuses_ok _

theorem Draw.refuses_command (native : Draw) (hname : c.name = native.signature.name) (store : Store) :
    c.Refuses store (native.command c store) := by
  cases native with
  | clear => exact (refuses_color 0 _).bind fun _ => refuses_ok _
  | rect =>
      refine (refuses_number 0).bind fun _ => (refuses_number 1).bind fun _ => (refuses_number 2).bind fun _ => ?_
      exact (refuses_number 3).bind fun _ => (refuses_fadedColor 4).bind fun _ => refuses_ok _
  | circle =>
      refine (refuses_number 0).bind fun _ => (refuses_number 1).bind fun _ => (refuses_number 2).bind fun _ => ?_
      exact (refuses_fadedColor 3).bind fun _ => refuses_ok _
  | line =>
      refine (refuses_number 0).bind fun _ => (refuses_number 1).bind fun _ => (refuses_number 2).bind fun _ => ?_
      refine (refuses_number 3).bind fun _ => (refuses_color 4 _).bind fun _ => ?_
      exact (refuses_numberOr 5 _).bind fun _ => refuses_ok _
  | text =>
      refine (refuses_shown_first (.inr (.inr hname))).bind fun _ => (refuses_number 1).bind fun _ => ?_
      refine (refuses_number 2).bind fun _ => (refuses_numberOr 3 _).bind fun _ => ?_
      exact (refuses_color 4 _).bind fun _ => refuses_ok _
  | sprite =>
      refine (refuses_number 1).bind fun _ => (refuses_number 2).bind fun _ => (refuses_number 3).bind fun _ => ?_
      refine (refuses_number 4).bind fun _ => (refuses_number 5).bind fun _ => (refuses_number 6).bind fun _ => ?_
      refine (refuses_numberOr 7 _).bind fun _ => (refuses_numberOr 8 _).bind fun _ => ?_
      exact (refuses_text 0).bind fun _ => refuses_ok _

theorem Draw.run_obeys (native : Draw) (hname : c.name = native.signature.name) :
    Obeys c (native.emission c h.store) h (native.run c h) := by
  refine .look (.check (refuses_command native hname h.store) fun cmd hcmd => ?_)
  simp only [emission, hcmd]
  exact .change _ (.draw cmd)

theorem Audio.refuses_command {store : Store} (native : Audio) : c.Refuses store (native.command c) := by
  cases native with
  | music | sound => exact (refuses_text 0).bind fun _ => refuses_ok _
  | stopMusic => exact refuses_ok _
  | volume => exact (refuses_text 0).bind fun _ => (refuses_number 1).bind fun _ => refuses_ok _

theorem Audio.run_obeys (native : Audio) : Obeys c (native.emission c) h (native.run c h) := by
  refine .check (refuses_command native) fun cmd hcmd => ?_
  simp only [emission, hcmd]
  exact .change _ (.audio cmd)

theorem Input.run_obeys (native : Input) : Obeys c {} h (native.run c h) := by
  refine .look ?_
  cases native with
  | action | key | buffered | peekBuffer => exact .check (refuses_text 0) fun _ _ => .answer _
  | mouse | pad | padAxis => exact .check (refuses_index 0) fun _ _ => .answer _
  | touch | mouseX | mouseY | touchX | touchY => exact .answer _
  | buffer =>
      refine .check (refuses_text 0) fun action haction => .check (refuses_number 1) fun seconds _ => ?_
      exact .change _ (.buffer (arg_of_text haction) fun _ hother => h.device.buffer.get?_arm_of_ne hother seconds)
  | consume | clearBuffer =>
      refine .check (refuses_text 0) fun action haction => ?_
      exact .change _ (.buffer (arg_of_text haction) fun _ hother => h.device.buffer.get?_disarm_of_ne hother)

theorem Core.name_of_ofName? {name : String} {native : Core} (hn : Core.ofName? name = some native) :
    name = native.signature.name := by
  unfold Core.ofName? at hn
  have hfound := List.find?_some hn
  exact (eq_of_beq hfound).symm

theorem Draw.name_of_ofName? {name : String} {native : Draw} (hn : Draw.ofName? name = some native) :
    name = native.signature.name := by
  unfold Draw.ofName? at hn
  have hfound := List.find?_some hn
  exact (eq_of_beq hfound).symm

/-- The first group that knows the name decides what is emitted. -/
theorem find?_obeys {n : Native} (hn : find? c = some n) (h : Host) : Obeys c (emission c h.store) h (n h) := by
  simp only [find?, groups, List.findSome?, Core.group, Draw.group, Audio.group, Input.group] at hn
  unfold emission
  cases hcore : Core.ofName? c.name with
  | some native =>
      simp only [hcore, Option.map_some] at hn
      cases hn
      exact Core.run_obeys native (Core.name_of_ofName? hcore)
  | none =>
      simp only [hcore, Option.map_none] at hn
      cases hdraw : Draw.ofName? c.name with
      | some native =>
          simp only [hdraw, Option.map_some] at hn
          cases hn
          exact Draw.run_obeys native (Draw.name_of_ofName? hdraw)
      | none =>
          simp only [hdraw, Option.map_none] at hn
          cases haudio : Audio.ofName? c.name with
          | some native =>
              simp only [haudio, Option.map_some] at hn
              cases hn
              exact Audio.run_obeys native
          | none =>
              simp only [haudio, Option.map_none] at hn
              cases hinput : Input.ofName? c.name with
              | some native =>
                  simp only [hinput, Option.map_some] at hn
                  cases hn
                  exact Input.run_obeys native
              | none => simp [hinput] at hn

end Native

end Cairn
