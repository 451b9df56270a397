import Cairn.Eval.Evaluator
import Mathlib.Data.List.Nodup
import Mathlib.Tactic.Common

/-!
# Arguments by place and by name

A call gives its arguments by place or by name. Each parameter takes the last argument under its name, else the one
in its place, else `null`; a name that is not a parameter's is refused. What is called sees nothing of a call but the
values of its parameters, so that an argument may as well be given by name as by place, and names in any order.
-/

namespace Cairn

/-! ## What every parameter gets -/

/-- The names of arguments that no parameter has, in order. -/
def strangers (params : List String) (named : List (String × Value)) : List String :=
  (named.map Prod.fst).filter (· ∉ params)

/-- The last argument by name for the parameter at `i`. Of several parameters of one name, only the first can be
reached by it. -/
def keyword? (params : List String) (named : List (String × Value)) (i : Nat) : Option Value :=
  (params[i]?).bind fun name => if name ∈ params.take i then none else named.reverse.lookup name

/-- The argument for the parameter at `i`: by name, else by place, else `null`. -/
def argument (params : List String) (positional : List Value) (named : List (String × Value)) (i : Nat) : Value :=
  ((keyword? params named i).or positional[i]?).getD .null

variable {params : List String} {positional : List Value} {named named' : List (String × Value)}

theorem strangers_eq_nil : strangers params named = [] ↔ ∀ kw ∈ named, kw.1 ∈ params := by
  simp [strangers]

theorem keyword?_eq_none_of_length_le {i : Nat} (h : params.length ≤ i) : keyword? params named i = none := by
  simp [keyword?, h]

/-- A name leads to the first parameter that has it. -/
theorem findIdx?_beq_eq_some_iff {key : String} {j : Nat} :
    params.findIdx? (· == key) = some j ↔ params[j]? = some key ∧ key ∉ params.take j := by
  rw [List.findIdx?_eq_some_iff_getElem, List.getElem?_eq_some_iff]
  simp only [beq_iff_eq, List.mem_take_iff_getElem]
  grind

/-- An argument by name is there for the first parameter of its name, unless one under the same name follows. -/
theorem keyword?_cons {key : String} {value : Value} {j : Nat} (h : params.findIdx? (· == key) = some j) (i : Nat) :
    keyword? params ((key, value) :: named) i
      = (keyword? params named i).or (if i = j then some value else none) := by
  have hfirst : i = j ↔ params[i]? = some key ∧ key ∉ params.take i := by
    rw [← findIdx?_beq_eq_some_iff, h, Option.some.injEq, eq_comm]
  simp only [keyword?, List.reverse_cons, List.lookup_append]
  cases hi : params[i]? with
  | none => simp [hfirst, hi]
  | some name =>
    by_cases hmem : name ∈ params.take i
    · have hne : i ≠ j := by grind
      simp [hmem, hne]
    · by_cases hname : name = key
      · subst hname
        have heq : i = j := hfirst.mpr ⟨hi, hmem⟩
        simp [heq ▸ hmem, heq]
      · have hne : i ≠ j := by grind
        simp [hmem, hne, List.lookup_cons, beq_eq_false_iff_ne.mpr hname]

/-- Arguments by name go into the slots of their parameters, unless one of them is refused. -/
theorem placeNamed_eq (callee : String) (params : List String) (named : List (String × Value)) (slots : List Value) :
    placeNamed callee params named slots =
      match strangers params named with
      | key :: _ => .error (.unknownParameter callee key)
      | [] => .ok (slots.mapIdx fun i v => (keyword? params named i).getD v) := by
  induction named generalizing slots with
  | nil =>
    have hnone (i : Nat) : keyword? params [] i = none := by simp [keyword?]
    have hsame : slots.mapIdx (fun i v => (keyword? params [] i).getD v) = slots := by
      refine List.ext_getElem? fun i => ?_
      simp [hnone]
    rw [hsame]
    rfl
  | cons kw named ih =>
    obtain ⟨key, value⟩ := kw
    rw [placeNamed]
    cases hkey : params.findIdx? (· == key) with
    | none =>
      have hstranger : key ∉ params := fun hmem => by simpa using List.findIdx?_eq_none_iff.mp hkey key hmem
      simp [strangers, hstranger]
    | some j =>
      have hknown : key ∈ params := List.mem_of_getElem? (findIdx?_beq_eq_some_iff.mp hkey).1
      have hstrangers : strangers params ((key, value) :: named) = strangers params named := by
        simp [strangers, hknown]
      have hslots : (slots.set j value).mapIdx (fun i v => (keyword? params named i).getD v)
          = slots.mapIdx fun i v => (keyword? params ((key, value) :: named) i).getD v := by
        refine List.ext_getElem? fun i => ?_
        simp only [List.getElem?_mapIdx, keyword?_cons hkey]
        grind
      rw [hstrangers, ← hslots, ← ih]

theorem getElem?_positionalSlots (params : List String) (positional : List Value) (keepExtra : Bool) (i : Nat) :
    (positionalSlots params positional keepExtra)[i]?
      = if i < params.length then some ((positional[i]?).getD .null)
        else if keepExtra then positional[i]? else none := by
  unfold positionalSlots
  grind

/-- What binding gives: a slot for every parameter and then, if they are kept, the arguments that are left over. -/
theorem bindArgs_eq (callee : String) (params : List String) (positional : List Value)
    (named : List (String × Value)) (keepExtra : Bool) :
    bindArgs callee params positional named keepExtra =
      match strangers params named with
      | key :: _ => .error (.unknownParameter callee key)
      | [] => .ok ((List.range params.length).map (argument params positional named)
          ++ if keepExtra then positional.drop params.length else []) := by
  have hslots : (positionalSlots params positional keepExtra).mapIdx (fun i v => (keyword? params named i).getD v)
      = (List.range params.length).map (argument params positional named)
          ++ if keepExtra then positional.drop params.length else [] := by
    refine List.ext_getElem? fun i => ?_
    rw [List.getElem?_mapIdx, getElem?_positionalSlots]
    by_cases hi : i < params.length
    · rw [if_pos hi, List.getElem?_append_left (by simpa using hi)]
      simp [argument, hi, Option.getD_or]
    · have hback : params.length + (i - params.length) = i := by omega
      rw [if_neg hi, List.getElem?_append_right (by simpa using hi), keyword?_eq_none_of_length_le (by omega)]
      cases keepExtra <;> simp [hback]
  rw [bindArgs, placeNamed_eq, hslots]

theorem bindArgs_eq_error {callee key : String} {keepExtra : Bool} {others : List String}
    (h : strangers params named = key :: others) :
    bindArgs callee params positional named keepExtra = .error (.unknownParameter callee key) := by
  rw [bindArgs_eq, h]

theorem length_of_bindArgs {callee : String} {slots : List Value}
    (h : bindArgs callee params positional named false = .ok slots) : slots.length = params.length := by
  rw [bindArgs_eq] at h
  split at h
  · cases h
  · cases h
    simp

/-! ## Names instead of places -/

theorem lookup_eq_some_iff_mem (hnames : (named.map Prod.fst).Nodup) {key : String} {value : Value} :
    named.lookup key = some value ↔ (key, value) ∈ named := by
  induction named with
  | nil => simp
  | cons kw named ih =>
    obtain ⟨key', value'⟩ := kw
    obtain ⟨hfresh, hnames⟩ := List.nodup_cons.mp hnames
    by_cases hkey : key = key'
    · subst hkey
      have hout : (key, value) ∉ named := fun hmem => hfresh (List.mem_map.mpr ⟨_, hmem, rfl⟩)
      simp [hout, eq_comm]
    · simp [List.lookup_cons, beq_eq_false_iff_ne.mpr hkey, hkey, ih hnames]

/-- Where no name stands twice the order of the entries does not matter. -/
theorem lookup_eq_of_perm (h : named'.Perm named) (hnames : (named.map Prod.fst).Nodup) (key : String) :
    named'.lookup key = named.lookup key := by
  have hnames' : (named'.map Prod.fst).Nodup := (h.map Prod.fst).nodup_iff.mpr hnames
  refine Option.ext fun value => ?_
  rw [lookup_eq_some_iff_mem hnames, lookup_eq_some_iff_mem hnames', h.mem_iff]

/-- The names of the parameters from the one at `n` on lead to the arguments in their places. -/
theorem lookup_zip_drop (hparams : params.Nodup) (n : Nat) (rest : List Value) {i : Nat} {name : String}
    (hname : params[i]? = some name) :
    ((params.drop n).zip rest).lookup name = if n ≤ i then rest[i - n]? else none := by
  have hnames : (((params.drop n).zip rest).map Prod.fst).Nodup := by
    rw [List.zip_eq_zip_take_min, List.map_fst_zip (by simp)]
    exact hparams.sublist ((List.take_sublist _ _).trans (List.drop_sublist _ _))
  refine Option.ext fun value => ?_
  rw [lookup_eq_some_iff_mem hnames, List.mem_iff_getElem?]
  constructor
  · rintro ⟨k, hk⟩
    obtain ⟨hparam, hvalue⟩ := List.getElem?_zip_eq_some.mp hk
    rw [List.getElem?_drop, ← hname] at hparam
    have hik : n + k = i := (List.getElem?_inj (by grind) hparams).mp hparam
    simp [← hik, hvalue]
  · intro hvalue
    obtain ⟨hle, hvalue⟩ := Option.ite_none_right_eq_some.mp hvalue
    refine ⟨i - n, List.getElem?_zip_eq_some.mpr ⟨?_, hvalue⟩⟩
    rw [List.getElem?_drop, Nat.add_sub_cancel' hle, hname]

theorem keyword?_eq_lookup (hparams : params.Nodup) (hnames : (named.map Prod.fst).Nodup) {i : Nat} {name : String}
    (hname : params[i]? = some name) : keyword? params named i = named.lookup name := by
  have hfirst : name ∉ params.take i := by
    intro hmem
    obtain ⟨j, hj, hname'⟩ := List.mem_take_iff_getElem.mp hmem
    have hji : params[j]? = params[i]? := by rw [hname, List.getElem?_eq_some_iff]; exact ⟨by omega, hname'⟩
    have := (List.getElem?_inj (by omega) hparams).mp hji
    omega
  simp only [keyword?, hname, Option.bind_some, if_neg hfirst]
  exact lookup_eq_of_perm (List.reverse_perm named) hnames name

/-- An argument is the same by name as by place. -/
theorem argument_of_perm {front rest : List Value} (hparams : params.Nodup)
    (hperm : named'.Perm ((params.drop front.length).zip rest ++ named)) (hnames : (named'.map Prod.fst).Nodup)
    {i : Nat} (hi : i < params.length) : argument params front named' i = argument params (front ++ rest) named i := by
  obtain ⟨name, hname⟩ : ∃ name, params[i]? = some name := ⟨params[i], List.getElem?_eq_getElem hi⟩
  have hall : (((params.drop front.length).zip rest ++ named).map Prod.fst).Nodup :=
    (hperm.map Prod.fst).nodup_iff.mp hnames
  obtain ⟨hmoved, hnamed, hdisjoint⟩ := List.nodup_append.mp (List.map_append ▸ hall)
  have hkeyword : keyword? params named' i
      = (if front.length ≤ i then rest[i - front.length]? else none).or (named.lookup name) := by
    rw [keyword?_eq_lookup hparams hnames hname, lookup_eq_of_perm hperm hall, List.lookup_append,
      lookup_zip_drop hparams _ _ hname]
  rw [argument, argument, hkeyword, keyword?_eq_lookup hparams hnamed hname]
  by_cases hle : front.length ≤ i
  · rw [if_pos hle, List.getElem?_append_right hle, List.getElem?_eq_none hle]
    cases hvalue : rest[i - front.length]? with
    | none => simp
    | some value =>
      -- The name is given once, so it cannot stand among the other arguments by name.
      have hnone : named.lookup name = none := by
        refine List.lookup_eq_none_iff.mpr fun kw hkw => ?_
        have hzip : (name, value) ∈ (params.drop front.length).zip rest := by
          rw [← lookup_eq_some_iff_mem hmoved, lookup_zip_drop hparams _ _ hname, if_pos hle, hvalue]
        simpa using hdisjoint name (List.mem_map_of_mem hzip) kw.1 (List.mem_map_of_mem hkw)
      simp [hnone]
  · rw [if_neg hle, List.getElem?_append_left (by omega), Option.none_or]

/-- No unknown name comes or goes when arguments are given by the names of their parameters. -/
theorem strangers_perm {n : Nat} {rest : List Value} (hperm : named'.Perm ((params.drop n).zip rest ++ named)) :
    (strangers params named').Perm (strangers params named) := by
  have hknown : strangers params ((params.drop n).zip rest) = [] :=
    strangers_eq_nil.mpr fun kw hkw => List.mem_of_mem_drop (List.of_mem_zip hkw).1
  have happend : strangers params ((params.drop n).zip rest ++ named)
      = strangers params ((params.drop n).zip rest) ++ strangers params named := by
    simp [strangers]
  rw [hknown, List.nil_append] at happend
  rw [← happend]
  exact (hperm.map Prod.fst).filter _

/-- Binding gives the same for arguments by name as by place, if the same name is refused. -/
theorem bindArgs_of_perm {callee : String} {keepExtra : Bool} {front rest : List Value} (hparams : params.Nodup)
    (hrest : rest.length ≤ (params.drop front.length).length)
    (hperm : named'.Perm ((params.drop front.length).zip rest ++ named)) (hnames : (named'.map Prod.fst).Nodup)
    (hone : (strangers params named).length ≤ 1) :
    bindArgs callee params front named' keepExtra = bindArgs callee params (front ++ rest) named keepExtra := by
  have hstrangers : strangers params named' = strangers params named := by
    have hsame := strangers_perm hperm
    -- Two orders of one name at most are the same.
    match hlist : strangers params named, hone with
    | [], _ => exact List.perm_nil.mp (hlist ▸ hsame)
    | [key], _ => exact List.perm_singleton.mp (hlist ▸ hsame)
  have hargs : (List.range params.length).map (argument params front named')
      = (List.range params.length).map (argument params (front ++ rest) named) :=
    List.map_congr_left fun i hi => argument_of_perm hparams hperm hnames (List.mem_range.mp hi)
  have hextra : (front ++ rest).drop params.length = front.drop params.length := by
    rw [List.drop_append]
    simp only [List.length_drop] at hrest
    have hnone : rest.drop (params.length - front.length) = [] := List.drop_eq_nil_of_le hrest
    rw [hnone, List.append_nil]
  rw [bindArgs_eq, bindArgs_eq, hstrangers, hargs, hextra]

/-! ## Calls -/

/-- What a value that can be called is called with. -/
def Store.signatureOf? (store : Store) : Value → Option Signature
  | .native sig => some sig
  | .function ref => some ⟨(store.closure ref).name, (store.closure ref).params, false⟩
  | .constructor ref => some ⟨(store.constructor ref).name, (store.constructor ref).fields, false⟩
  | _ => none

/-- A call binds its arguments and sees nothing of them afterwards but the slots. -/
theorem Evaluator.exists_call_eq (self : Evaluator) {callee : Value} {sig : Signature} {w : World} (line : Nat)
    (hsig : w.store.signatureOf? callee = some sig) :
    ∃ body : List Value → Run Value, ∀ positional named, self.call callee positional named line w =
      (Run.read line (fun _ => bindArgs sig.name sig.params positional named sig.variadic) >>= body) w := by
  cases callee <;> cases hsig <;> exact ⟨_, fun _ _ => rfl⟩

variable {callee : Value} {sig : Signature} {w : World}

theorem Evaluator.call_congr (self : Evaluator) (hsig : w.store.signatureOf? callee = some sig) (line : Nat)
    {positional' : List Value} (h : bindArgs sig.name sig.params positional named sig.variadic
      = bindArgs sig.name sig.params positional' named' sig.variadic) :
    self.call callee positional named line w = self.call callee positional' named' line w := by
  obtain ⟨body, hbody⟩ := self.exists_call_eq line hsig
  rw [hbody, hbody, h]

/-- A call with arguments that cannot be bound fails before anything is done. -/
theorem Evaluator.call_eq_fault (self : Evaluator) (hsig : w.store.signatureOf? callee = some sig) (line : Nat)
    {cause : Fault.Cause} (h : bindArgs sig.name sig.params positional named sig.variadic = .error cause) :
    self.call callee positional named line w = .fault ⟨cause, line⟩ w := by
  obtain ⟨body, hbody⟩ := self.exists_call_eq line hsig
  rw [hbody, Run.run_bind]
  simp only [Run.read, Run.step, h]

/-- Binding fails exactly if some argument has a name that no parameter has, and says which is the first. Otherwise
there is a slot for every parameter, with its last argument by name, its argument by place or `null`, and behind them
stay the arguments that are left over, if they are kept.

A function, a constructor or a native with parameters of different names then does the same, whether the arguments
of the last parameters are given by place or by name, and in whichever order the names come, as long as no two names
are unknown. If any is, the call fails before anything is done, and the order of names decides which of them is told. -/
theorem arguments_by_place_or_name :
    (∀ name params positional named keepExtra,
      ((∃ cause, bindArgs name params positional named keepExtra = .error cause) ↔ ∃ kw ∈ named, kw.1 ∉ params) ∧
      (∀ key others, strangers params named = key :: others →
        bindArgs name params positional named keepExtra = .error (.unknownParameter name key) ∧
        (Fault.Cause.unknownParameter name key).code = "R005") ∧
      ((∀ kw ∈ named, kw.1 ∈ params) → bindArgs name params positional named keepExtra =
        .ok ((List.range params.length).map (argument params positional named)
          ++ if keepExtra then positional.drop params.length else []))) ∧
    ∀ (self : Evaluator) (w : World) (callee : Value) (sig : Signature),
      w.store.signatureOf? callee = some sig → sig.params.Nodup →
      ∀ (front rest : List Value) (named named' : List (String × Value)) (line : Nat),
        rest.length ≤ (sig.params.drop front.length).length →
        named'.Perm ((sig.params.drop front.length).zip rest ++ named) → (named'.map Prod.fst).Nodup →
        ((strangers sig.params named).length ≤ 1 →
          self.call callee front named' line w = self.call callee (front ++ rest) named line w) ∧
        (strangers sig.params named ≠ [] →
          ∃ key' others' key others, strangers sig.params named' = key' :: others' ∧
            strangers sig.params named = key :: others ∧
            self.call callee front named' line w = .fault ⟨.unknownParameter sig.name key', line⟩ w ∧
            self.call callee (front ++ rest) named line w = .fault ⟨.unknownParameter sig.name key, line⟩ w) := by
  constructor
  · intro name params positional named keepExtra
    refine ⟨⟨?_, ?_⟩, fun key others h => ⟨bindArgs_eq_error h, rfl⟩, fun h => ?_⟩
    · rintro ⟨cause, hcause⟩
      by_contra hno
      have hknown : ∀ kw ∈ named, kw.1 ∈ params := by simpa using hno
      rw [bindArgs_eq, strangers_eq_nil.mpr hknown] at hcause
      cases hcause
    · rintro ⟨kw, hkw, hstranger⟩
      obtain ⟨key, others, h⟩ := List.exists_cons_of_ne_nil
        fun hnil => hstranger (strangers_eq_nil.mp hnil kw hkw)
      exact ⟨_, bindArgs_eq_error h⟩
    · rw [bindArgs_eq, strangers_eq_nil.mpr h]
  · intro self w callee sig hsig hparams front rest named named' line hrest hperm hnames
    refine ⟨fun hone => self.call_congr hsig line (bindArgs_of_perm hparams hrest hperm hnames hone), fun hsome => ?_⟩
    obtain ⟨key, others, h⟩ := List.exists_cons_of_ne_nil hsome
    have hsome' : strangers sig.params named' ≠ [] := fun hnil =>
      hsome (List.perm_nil.mp (hnil ▸ (strangers_perm hperm).symm))
    obtain ⟨key', others', h'⟩ := List.exists_cons_of_ne_nil hsome'
    exact ⟨key', others', key, others, h', h, self.call_eq_fault hsig line (bindArgs_eq_error h'),
      self.call_eq_fault hsig line (bindArgs_eq_error h)⟩

/-- A world with a constructor of two fields. -/
def worldOfPoint : World :=
  { scopes := Arena.fresh true, host := { store := { constructors := #[⟨"E", "P", ["x", "y"]⟩] } } }

theorem arguments_by_place_or_name_point :
    worldOfPoint.store.signatureOf? (.constructor 0) = some ⟨"P", ["x", "y"], false⟩ ∧
    bindArgs "P" ["x", "y", "x"] [.null, .null, .null, .text "d"]
        [("y", .text "a"), ("x", .text "b"), ("y", .text "c")] true
      = .ok [.text "b", .text "c", .null, .text "d"] ∧
    bindArgs "P" ["x", "y"] [] [("x", .null), ("q", .null), ("r", .null)] false = .error (.unknownParameter "P" "q") ∧
    (evaluator 1).call (.constructor 0) [] [("y", .bool false), ("x", .bool true)] 5 worldOfPoint
      = (evaluator 1).call (.constructor 0) [.bool true, .bool false] [] 5 worldOfPoint ∧
    ∃ key key', (evaluator 1).call (.constructor 0) [] [("r", .null), ("q", .null)] 5 worldOfPoint
        = .fault ⟨.unknownParameter "P" key', 5⟩ worldOfPoint ∧
      (evaluator 1).call (.constructor 0) [] [("q", .null), ("r", .null)] 5 worldOfPoint
        = .fault ⟨.unknownParameter "P" key, 5⟩ worldOfPoint := by
  have hcall := arguments_by_place_or_name.2 (evaluator 1) worldOfPoint (.constructor 0) ⟨"P", ["x", "y"], false⟩ rfl
    (by decide)
  refine ⟨rfl, (arguments_by_place_or_name.1 "P" ["x", "y", "x"] _ _ true).2.2 (by decide),
    ((arguments_by_place_or_name.1 "P" ["x", "y"] _ _ false).2.1 "q" ["r"] (by decide)).1,
    (hcall [] [.bool true, .bool false] [] [("y", .bool false), ("x", .bool true)] 5 (by decide)
      (by decide) (by decide)).1 (by decide), ?_⟩
  obtain ⟨key', -, key, -, -, -, h', h⟩ := (hcall [] [] [("q", .null), ("r", .null)] [("r", .null), ("q", .null)] 5
    (by decide) (by decide) (by decide)).2 (by decide)
  exact ⟨key, key', h', h⟩

/-- Of two unknown names the fault tells the one that came first, and of two arguments under one name the parameter
takes the one that came last. -/
theorem order_of_names_shows :
    worldOfPoint.store.signatureOf? (.constructor 0) = some ⟨"P", ["x", "y"], false⟩ ∧
    (evaluator 1).call (.constructor 0) [] [("r", .null), ("q", .null)] 5 worldOfPoint
      ≠ (evaluator 1).call (.constructor 0) [] [("q", .null), ("r", .null)] 5 worldOfPoint ∧
    (evaluator 1).call (.constructor 0) [] [("x", .null), ("x", .bool true)] 5 worldOfPoint
      ≠ (evaluator 1).call (.constructor 0) [.bool true] [("x", .null)] 5 worldOfPoint := by
  refine ⟨rfl, fun h => ?_, fun h => ?_⟩
  · have hcause : Fault.mk (.unknownParameter "P" "r") 5 = ⟨.unknownParameter "P" "q", 5⟩ := (Outcome.fault.inj h).1
    exact absurd hcause (by decide)
  · have hfields := congrArg (fun o => o.world?.map fun w => (w.store.variant 0).fields) h
    exact absurd hfields (by decide)

end Cairn
