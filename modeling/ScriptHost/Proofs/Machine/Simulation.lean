import Mathlib.Data.List.Forall2
import Mathlib.Data.Option.Basic
import ScriptHost.Proofs.Machine.Coupling
import ScriptHost.Proofs.Machine.Exec
import ScriptHost.Proofs.Machine.Render
import ScriptHost.Sandbox.Execution

/-!
Two programs step by step. Where their functions hold the same code under names of their own, runs of them go
through the same states but for these names, and the limits of one run may be tighter than those of the other.
-/

namespace ScriptHost

def FaultKind.Limit (kind : FaultKind) : Prop :=
  kind = outOfMemory ∨ kind = stackOverflow

structure Host.Tighter (h h' : Host) : Prop where
  depth : h.callDepth ≤ h'.callDepth
  ceiling : ∀ c' ∈ h'.memoryCeiling, ∃ c ∈ h.memoryCeiling, c ≤ c'
  word : ∀ c ∈ h.memoryCeiling, c < wordLimit

inductive Instr.Alike (functions strings : Nat → Nat → Prop) : Instr → Instr → Prop
  | same {i : Instr} : (∀ k, i ≠ .str k) → (∀ id argc, i ≠ .call id argc) → Alike functions strings i i
  | str {k k' : Nat} : strings k k' → Alike functions strings (.str k) (.str k')
  | call {id id' argc : Nat} : functions id id' → Alike functions strings (.call id argc) (.call id' argc)

structure Function.Alike (functions strings : Nat → Nat → Prop) (g g' : Function) : Prop where
  locals : g.locals = g'.locals
  code : List.Forall₂ (Instr.Alike functions strings) g.code.toList g'.code.toList

def Program.SameString (p p' : Program) (k k' : Nat) : Prop :=
  p.strings[k]? = p'.strings[k']?

lemma forall₂_getElem? {α β : Type} {R : α → β → Prop} {l : List α} {l' : List β} (h : List.Forall₂ R l l') (i : Nat) :
    Option.Rel R l[i]? l'[i]? := by
  induction h generalizing i with
  | nil => exact .none
  | cons hx _ ih =>
    cases i with
    | zero => exact .some hx
    | succ i => exact ih i

namespace Machine

def started (h : Host) (id : Nat) (args : List Value) (steps : Nat) : Run (Option Value) := do
  call h id args
  proceed h steps

/-- What two runs have in common: the functions that stand for each other, what holds of the values at hand and of
memory, the faults that go together, and those that cut the first run short. -/
structure Pairing where
  functions : Nat → Nat → Prop
  values : Datum → Prop
  memory : Heap → Nat → Prop
  faults : Fault → Fault → Prop
  cut : Fault → Prop

namespace Pairing

inductive Frames (P : Pairing) : Frame → Frame → Prop
  | mk {id id' pc : Nat} {locals : Array Datum} {ops : List Datum} : P.functions id id' →
      (∀ d ∈ locals, P.values d) → (∀ d ∈ ops, P.values d) → P.Frames ⟨id, pc, locals, ops⟩ ⟨id', pc, locals, ops⟩

inductive Beside (P : Pairing) : State → State → Prop
  | mk {s : State} {frames : List Frame} : List.Forall₂ P.Frames s.frames frames →
      P.Beside s { s with frames := frames }

lemma Beside.frames {P : Pairing} {s s' : State} (h : P.Beside s s') :
    List.Forall₂ P.Frames s.frames s'.frames := by
  obtain ⟨hframes⟩ := h
  exact hframes

def coupling (P : Pairing) : Coupling where
  states s s' := P.Beside s s' ∧ P.memory s.heap s.allocated
  faults f s g s' := P.faults f g ∧ P.Beside s s'
  cut := P.cut

def Given (P : Pairing) (r : Option Datum) : Prop :=
  ∀ d ∈ r, P.values d

lemma given_none (P : Pairing) : P.Given none := fun _ hd => nomatch hd

end Pairing

def charged (allocated bytes : Nat) : Nat :=
  min (allocated + bytes) chargeLimit

structure Pairing.Keeps (P : Pairing) (ceiling : Option Nat) : Prop where
  nil : P.values .nil
  bool (b : Bool) : P.values (.bool b)
  int (v : Int64) : P.values (.int v)
  array (handle : Nat) : P.values (.array handle)
  string {heap : Heap} {n : Nat} {text : String} : P.memory heap n →
    (∀ c ∈ ceiling, charged n text.utf8ByteSize ≤ c) → P.values (.str text)
  items {heap : Heap} {n : Nat} : P.memory heap n → ∀ handle, ∀ d ∈ heap.items handle, P.values d
  charge {heap : Heap} {n bytes : Nat} : P.memory heap n → (∀ c ∈ ceiling, charged n bytes ≤ c) →
    P.memory heap (charged n bytes)
  alloc {heap : Heap} {n : Nat} {items : Array Datum} : P.memory heap n → (∀ d ∈ items, P.values d) →
    (∀ c ∈ ceiling, charged n (slotBytes * (items.size + 1)) ≤ c) →
    P.memory (heap.push items) (charged n (slotBytes * (items.size + 1)))
  push {heap : Heap} {n : Nat} {value : Datum} (handle : Nat) : P.memory heap n → P.values value →
    (∀ c ∈ ceiling, charged n slotBytes ≤ c) →
    P.memory (heap.modify handle (·.push value)) (charged n slotBytes)
  store {heap : Heap} {n : Nat} {value : Datum} (handle i : Nat) : P.memory heap n → P.values value →
    P.memory (heap.modify handle (·.setIfInBounds i value)) n
  shorten {heap : Heap} {n : Nat} (handle : Nat) : P.memory heap n → P.memory (heap.modify handle (·.pop)) n

structure Pairing.Joins (P : Pairing) (h h' : Host) : Prop where
  keeps : P.Keeps h.memoryCeiling
  raised : h.raised = h'.raised
  limits : h.callDepth = h'.callDepth ∧ h.memoryCeiling = h'.memoryCeiling ∨
    h.Tighter h' ∧ ∀ f : Fault, f.kind.Limit → P.cut f
  faults (kind : FaultKind) (message : String) {frames frames' : List Frame} :
    List.Forall₂ P.Frames frames frames' →
    P.faults ⟨kind, message, trace h.program frames⟩ ⟨kind, message, trace h'.program frames'⟩
  functions {id id' : Nat} : P.functions id id' →
    Option.Rel (Function.Alike P.functions (h.program.SameString h'.program)) h.program.functions[id]?
      h'.program.functions[id']?

lemma Coupling.Ends.ofCut {c : Coupling} {α : Type} {Q : α → Prop} {f : Fault} (hf : c.cut f) (t : State)
    (r : EStateM.Result Fault State α) : c.Ends Q (.error f t) r := by
  cases r with
  | ok => exact hf
  | error => exact .inl hf

section Charge

variable {h : Host} {s : State} {bytes : Nat}

lemma charge_ok (hb : ∀ c ∈ h.memoryCeiling, charged s.allocated bytes ≤ c) :
    charge h bytes s = .ok () { s with allocated := charged s.allocated bytes } := by
  rw [charge]
  cases hc : h.memoryCeiling with
  | none => rfl
  | some c => exact congrFun (if_neg (Nat.not_lt.mpr (hb c hc))) _

lemma charge_full {c : Nat} (hc : h.memoryCeiling = some c) (hb : c < charged s.allocated bytes) :
    charge h bytes s = outOfMemory h c { s with allocated := charged s.allocated bytes } := by
  rw [charge]
  rw [hc]
  exact congrFun (if_pos hb) _

end Charge

def room (h : Host) (s : State) : Nat :=
  h.memoryCeiling.elim chargeLimit (· - s.allocated)

def displayed (h : Host) : Rendering × Option RenderStop → Run String
  | (r, none) => return r.text
  | (_, some .interrupted) => interrupted h
  | (_, some .full) => outOfMemory h (h.memoryCeiling.getD chargeLimit)

lemma display_eq (h : Host) (values : Array Datum) (s : State) {r : Rendering} {stop : Option RenderStop}
    (hr : render s.heap (fun n => h.raised (s.clock + n)) "" (room h s) values = (r, stop)) :
    display h values s = displayed h (r, stop) { s with clock := s.clock + r.visits } := by
  have hshow : show? h "" (room h s) values s = .ok (r.text, stop) { s with clock := s.clock + r.visits } := by
    change EStateM.Result.ok ((render _ _ "" _ values).1.text, (render _ _ "" _ values).2)
      { s with clock := s.clock + (render _ _ "" _ values).1.visits } = _
    rw [hr]
  rw [display, bind_get]
  refine (bind_of_ok hshow _).trans ?_
  rcases stop with _ | _ | _ <;> rfl

namespace Pairing.Joins

variable {P : Pairing} {h h' : Host} (J : P.Joins h h')

include J

lemma fail {α : Type} (Q : α → Prop) (kind : FaultKind) (message : String) :
    Coupled P.coupling Q (fail h kind message) (fail h' kind message) := by
  rintro s _ ⟨⟨hframes⟩, -⟩
  exact .inr ⟨J.faults kind message hframes, .mk hframes⟩

lemma below {n : Nat} (hn : ∀ c ∈ h.memoryCeiling, n ≤ c) : ∀ c ∈ h'.memoryCeiling, n ≤ c := by
  intro c' hc'
  rcases J.limits with ⟨-, heq⟩ | ⟨htight, -⟩
  · exact hn c' (heq ▸ hc')
  · obtain ⟨c, hc, hle⟩ := htight.ceiling c' hc'
    exact Nat.le_trans (hn c hc) hle

lemma charging {α : Type} {Q : α → Prop} (bytes : Nat) {k k' : Unit → Run α}
    (hk : ∀ (s : State) (frames : List Frame), List.Forall₂ P.Frames s.frames frames →
      P.memory s.heap s.allocated → (∀ c ∈ h.memoryCeiling, charged s.allocated bytes ≤ c) →
      P.coupling.Ends Q (k () { s with allocated := charged s.allocated bytes })
        (k' () { s with allocated := charged s.allocated bytes, frames := frames })) :
    Coupled P.coupling Q (charge h bytes >>= k) (charge h' bytes >>= k') := by
  rintro s _ ⟨⟨hframes⟩, hmemory⟩
  rename_i frames
  by_cases hb : ∀ c ∈ h.memoryCeiling, charged s.allocated bytes ≤ c
  · rw [bind_of_ok (charge_ok hb)]
    rw [bind_of_ok (charge_ok (s := { s with frames := frames }) (J.below hb))]
    exact hk s _ hframes hmemory hb
  · simp only [not_forall] at hb
    obtain ⟨c, hc, hlt⟩ := hb
    have hlt := Nat.lt_of_not_le hlt
    rw [bind_of_error (charge_full hc hlt)]
    rcases J.limits with ⟨-, heq⟩ | ⟨-, hcut⟩
    · rw [bind_of_error (charge_full (s := { s with frames := frames }) (heq ▸ hc) hlt)]
      exact .inr ⟨J.faults _ _ hframes, .mk hframes⟩
    · exact Coupling.Ends.ofCut (hcut _ (.inl rfl)) _ _

lemma charge (bytes : Nat) : Coupled P.coupling (fun _ => True) (charge h bytes) (charge h' bytes) := by
  have hcharge : Coupled P.coupling (fun _ => True) (Machine.charge h bytes >>= pure)
      (Machine.charge h' bytes >>= pure) := by
    apply J.charging
    intro s frames hframes hmemory hb
    exact ⟨rfl, trivial, .mk hframes, J.keeps.charge hmemory hb⟩
  rwa [bind_pure, bind_pure] at hcharge

lemma newString (text : String) : Coupled P.coupling P.values (newString h text) (newString h' text) := by
  apply J.charging
  intro s frames hframes hmemory hb
  exact ⟨rfl, J.keeps.string hmemory hb, .mk hframes, J.keeps.charge hmemory hb⟩

lemma newArray {items : Array Datum} (hi : ∀ d ∈ items, P.values d) :
    Coupled P.coupling P.values (newArray h items) (newArray h' items) := by
  apply J.charging
  intro s frames hframes hmemory hb
  exact ⟨rfl, J.keeps.array _, .mk hframes, J.keeps.alloc hmemory hi hb⟩

lemma push (handle : Nat) {value : Datum} (hv : P.values value) :
    Coupled P.coupling (fun _ => True) (push h (.array handle) value) (push h' (.array handle) value) := by
  apply J.charging
  intro s frames hframes hmemory hb
  exact ⟨rfl, trivial, .mk hframes, J.keeps.push handle hmemory hv hb⟩

lemma tick : Coupled P.coupling (fun _ => True) (tick h) (tick h') := by
  unfold Machine.tick
  refine Coupled.bind (Q := fun _ => True) (Coupled.modify ?_) fun _ _ => Coupled.get ?_
  · rintro s _ ⟨⟨hframes⟩, hmemory⟩
    exact ⟨.mk hframes, hmemory⟩
  · rintro s _ ⟨⟨hframes⟩, hmemory⟩
    rw [← J.raised]
    dsimp only
    split
    · exact J.fail _ _ _
    · exact Coupled.pure trivial

lemma shown (separator : String) (limit : Nat) (values : Array Datum) :
    Coupled P.coupling (fun _ => True) (show? h separator limit values) (show? h' separator limit values) := by
  rintro s _ ⟨⟨hframes⟩, hmemory⟩
  unfold show?
  rw [← J.raised]
  exact ⟨rfl, trivial, .mk hframes, hmemory⟩

omit J in
lemma room_le (ht : h.Tighter h') (s : State) (frames : List Frame) :
    room h s ≤ room h' { s with frames := frames } := by
  rw [room, room]
  cases hc' : h'.memoryCeiling with
  | none =>
    rw [Option.elim_none]
    cases hc : h.memoryCeiling with
    | none => exact Nat.le_refl _
    | some c =>
      have hword := ht.word c hc
      rw [Option.elim_some, chargeLimit]
      omega
  | some c' =>
    obtain ⟨c, hc, hle⟩ := ht.ceiling c' hc'
    rw [Option.mem_def] at hc
    rw [hc, Option.elim_some, Option.elim_some]
    exact Nat.sub_le_sub_right hle _

lemma displayed_ends {s : State} {frames : List Frame} (hframes : List.Forall₂ P.Frames s.frames frames)
    (hmemory : P.memory s.heap s.allocated) (r r' : Rendering) (htext : r'.text = r.text)
    {stop : Option RenderStop} (hstop : stop = some .full → h.memoryCeiling = h'.memoryCeiling) :
    P.coupling.Ends (fun _ => True) (displayed h (r, stop) s)
      (displayed h' (r', stop) { s with frames := frames }) := by
  rcases stop with _ | _ | _
  · exact ⟨htext.symm, trivial, .mk hframes, hmemory⟩
  · rw [displayed, displayed, ← hstop rfl]
    exact .inr ⟨J.faults _ _ hframes, .mk hframes⟩
  · exact .inr ⟨J.faults _ _ hframes, .mk hframes⟩

lemma display (values : Array Datum) :
    Coupled P.coupling (fun _ => True) (display h values) (display h' values) := by
  rintro s _ ⟨⟨hframes⟩, hmemory⟩
  rename_i frames
  rcases hr : render s.heap (fun n => h.raised (s.clock + n)) "" (room h s) values with ⟨r, stop⟩
  rw [display_eq h values s hr]
  rw [J.raised] at hr
  rcases J.limits with ⟨-, heq⟩ | ⟨htight, hcut⟩
  · have hroom : room h' { s with frames := frames } = room h s := by rw [room, room, heq]
    rw [display_eq h' values { s with frames := frames } (hroom.symm ▸ hr)]
    exact J.displayed_ends (s := { s with clock := s.clock + r.visits }) hframes hmemory r r rfl fun _ => heq
  · by_cases hfull : stop = some .full
    · subst hfull
      exact Coupling.Ends.ofCut (hcut _ (.inl rfl)) _ _
    · have hwiden := render_widen (room_le htight s frames) (by rw [hr]; exact hfull)
      rw [hr] at hwiden
      rw [display_eq h' values { s with frames := frames } hwiden]
      exact J.displayed_ends (s := { s with clock := s.clock + r.visits }) hframes hmemory r (r.widen _) rfl
        fun hf => absurd hf hfull

lemma works : Works P.coupling h h' P.values where
  nil := J.keeps.nil
  bool := J.keeps.bool
  int := J.keeps.int
  heap := by
    rintro s _ ⟨⟨-⟩, -⟩
    rfl
  items hs := J.keeps.items hs.2
  capture := by
    rintro s _ ⟨⟨-⟩, -⟩ stream
    cases stream <;> rfl
  fail := J.fail
  tick := J.tick
  charge := J.charge
  newString := J.newString
  newArray := J.newArray
  shown := J.shown
  display := J.display
  write := by
    rintro s _ stream text ⟨⟨hframes⟩, hmemory⟩
    cases stream <;> exact ⟨.mk hframes, hmemory⟩
  push := J.push
  store := by
    rintro s _ handle i value hv ⟨⟨hframes⟩, hmemory⟩
    exact ⟨.mk hframes, J.keeps.store handle i hmemory hv⟩
  shorten := by
    rintro s _ handle ⟨⟨hframes⟩, hmemory⟩
    exact ⟨.mk hframes, J.keeps.shorten handle hmemory⟩

/-! Instructions. -/

omit J in
lemma setFrames {α : Type} {Q : α → Prop} {frames frames' : List Frame} {k k' : PUnit → Run α}
    (hframes : List.Forall₂ P.Frames frames frames') (hk : Coupled P.coupling Q (k ⟨⟩) (k' ⟨⟩)) :
    Coupled P.coupling Q ((modify fun s => { s with frames := frames }) >>= k)
      ((modify fun s => { s with frames := frames' }) >>= k') := by
  rintro s _ ⟨⟨-⟩, hmemory⟩
  exact hk { s with frames := frames } { s with frames := frames' } ⟨.mk hframes, hmemory⟩

variable {f f' : Frame} {rest rest' : List Frame}

omit J in
lemma resume (hf : P.Frames f f') (hr : List.Forall₂ P.Frames rest rest') :
    Coupled P.coupling P.Given (resume f rest) (resume f' rest') :=
  setFrames (.cons hf hr) (Coupled.pure P.given_none)

lemma fallen (hf : P.Frames f f') (hr : List.Forall₂ P.Frames rest rest') :
    Coupled P.coupling P.Given (do
      modify fun s => { s with frames := f :: rest }
      broken h) (do
      modify fun s => { s with frames := f' :: rest' }
      broken h') :=
  setFrames (.cons hf hr) (J.fail _ _ _)

lemma whenBool (hf : P.Frames f f') (hr : List.Forall₂ P.Frames rest rest') (d : Datum)
    {k k' : Bool → Run (Option Datum)} (hk : ∀ b, Coupled P.coupling P.Given (k b) (k' b)) :
    Coupled P.coupling P.Given (whenBool h rest f d k) (whenBool h' rest' f' d k') := by
  cases d with
  | bool b => exact hk b
  | _ => exact setFrames (.cons hf hr) (J.fail _ _ _)

omit J in
lemma pushing {op op' : Run Datum} (hf : P.Frames f f') (hr : List.Forall₂ P.Frames rest rest')
    (hop : Coupled P.coupling P.values op op') :
    Coupled P.coupling P.Given (pushing f rest op) (pushing f' rest' op') := by
  apply setFrames (.cons hf hr)
  apply hop.bind
  intro d hd
  refine Coupled.bind (Q := fun _ => True) (Coupled.modify ?_) fun _ _ => Coupled.pure P.given_none
  rintro s _ ⟨⟨hframes⟩, hmemory⟩
  rename_i frames
  obtain ⟨frames₀, depth, heap, allocated, steps, clock, out, err⟩ := s
  change List.Forall₂ P.Frames frames₀ frames at hframes
  cases hframes with
  | nil => exact ⟨.mk .nil, hmemory⟩
  | cons hf hr =>
    cases hf with
    | mk hid hlocals hops => exact ⟨.mk (.cons (.mk hid hlocals (List.forall_mem_cons.mpr ⟨hd, hops⟩)) hr), hmemory⟩

lemma enter {id id' : Nat} (hid : P.functions id id') {args : List Datum} (ha : ∀ d ∈ args, P.values d) :
    Coupled P.coupling P.Given (enter h id args) (enter h' id' args) := by
  rintro s _ ⟨⟨hframes⟩, hmemory⟩
  rename_i frames
  by_cases hd : h.callDepth ≤ s.depth
  · rw [enter_deep hd]
    rcases J.limits with ⟨heq, -⟩ | ⟨-, hcut⟩
    · rw [enter_deep (s := { s with frames := frames }) (heq ▸ hd), heq]
      exact .inr ⟨J.faults _ _ hframes, .mk hframes⟩
    · exact Coupling.Ends.ofCut (hcut _ (.inr rfl)) _ _
  · have hd' : ¬ h'.callDepth ≤ s.depth := by
      rcases J.limits with ⟨heq, -⟩ | ⟨htight, -⟩
      · exact heq ▸ hd
      · exact fun hle => hd (Nat.le_trans htight.depth hle)
    have hfunctions := J.functions hid
    cases hg : h.program.functions[id]? with
    | none =>
      cases hg' : h'.program.functions[id']? with
      | none =>
        rw [enter_none hd hg, enter_none (s := { s with frames := frames }) hd' hg']
        exact .inr ⟨J.faults _ _ hframes, .mk hframes⟩
      | some g' =>
        rw [hg, hg'] at hfunctions
        cases hfunctions
    | some g =>
      cases hg' : h'.program.functions[id']? with
      | none =>
        rw [hg, hg'] at hfunctions
        cases hfunctions
      | some g' =>
        rw [hg, hg'] at hfunctions
        obtain ⟨⟨hlocals, -⟩⟩ := hfunctions
        rw [enter_ok hd hg, enter_ok (s := { s with frames := frames }) hd' hg']
        refine ⟨rfl, P.given_none, .mk (.cons ?_ hframes), hmemory⟩
        rw [frameOf, frameOf, ← hlocals]
        refine .mk hid ?_ fun d hd => absurd hd List.not_mem_nil
        intro d hd
        rcases Array.mem_append.mp hd with hd | hd
        · exact ha d (List.mem_toArray.mp hd)
        · rw [(Array.mem_replicate.mp hd).2]
          exact J.keeps.nil

section Instructions

variable {id id' pc : Nat} {locals : Array Datum} {ops : List Datum} (hid : P.functions id id')
  (hlocals : ∀ d ∈ locals, P.values d) (hops : ∀ d ∈ ops, P.values d) (hr : List.Forall₂ P.Frames rest rest')

def Agree (P : Pairing) (h h' : Host) (rest rest' : List Frame) (f f' : Frame) (i i' : Instr) : Prop :=
  Coupled P.coupling P.Given (Machine.exec h f rest i) (Machine.exec h' f' rest' i')

include hid hlocals hops hr

lemma at_str {k k' : Nat} (hk : h.program.SameString h'.program k k') :
    Agree P h h' rest rest' ⟨id, pc, locals, ops⟩ ⟨id', pc, locals, ops⟩ (.str k) (.str k') := by
  change h.program.strings[k]? = h'.program.strings[k']? at hk
  cases htext : h.program.strings[k]? with
  | none =>
    rw [Agree, exec_str_none _ _ _ _ _ _ htext, exec_str_none _ _ _ _ _ _ (hk ▸ htext)]
    exact J.fallen (.mk hid hlocals hops) hr
  | some text =>
    rw [Agree, exec_str _ _ _ _ _ _ htext, exec_str _ _ _ _ _ _ (hk ▸ htext)]
    exact pushing (.mk hid hlocals hops) hr (J.newString text)

lemma at_call {callee callee' : Nat} (hcallee : P.functions callee callee') (argc : Nat) :
    Agree P h h' rest rest' ⟨id, pc, locals, ops⟩ ⟨id', pc, locals, ops⟩ (.call callee argc) (.call callee' argc) := by
  by_cases ha : argc ≤ ops.length
  · rw [Agree, exec_call _ _ _ _ _ _ ha, exec_call _ _ _ _ _ _ ha]
    have htaken : ∀ d ∈ (ops.take argc).reverse, P.values d := fun d hd =>
      hops d (List.mem_of_mem_take (List.mem_reverse.mp hd))
    exact setFrames (.cons (.mk hid hlocals fun d hd => hops d (List.mem_of_mem_drop hd)) hr) (J.enter hcallee htaken)
  · rw [Agree, exec_call_few _ _ _ _ _ _ ha, exec_call_few _ _ _ _ _ _ ha]
    exact J.fallen (.mk hid hlocals hops) hr

lemma at_load (slot : Nat) :
    Agree P h h' rest rest' ⟨id, pc, locals, ops⟩ ⟨id', pc, locals, ops⟩ (.load slot) (.load slot) := by
  cases hd : locals[slot]? with
  | some d =>
    rw [Agree, exec_load _ _ _ _ _ _ hd, exec_load _ _ _ _ _ _ hd]
    have hd := hlocals d (Array.mem_of_getElem? hd)
    exact resume (.mk hid hlocals (List.forall_mem_cons.mpr ⟨hd, hops⟩)) hr
  | none =>
    rw [Agree, exec_load_none _ _ _ _ _ _ hd, exec_load_none _ _ _ _ _ _ hd]
    exact J.fallen (.mk hid hlocals hops) hr

lemma at_store (slot : Nat) :
    Agree P h h' rest rest' ⟨id, pc, locals, ops⟩ ⟨id', pc, locals, ops⟩ (.store slot) (.store slot) := by
  cases ops with
  | nil => exact J.fallen (.mk hid hlocals hops) hr
  | cons d ops =>
    obtain ⟨hd, hops⟩ := List.forall_mem_cons.mp hops
    by_cases hs : slot < locals.size
    · rw [Agree, exec_store _ _ _ _ _ _ d hs, exec_store _ _ _ _ _ _ d hs]
      refine resume (.mk hid (fun e he => ?_) hops) hr
      rcases Array.mem_or_eq_of_mem_setIfInBounds he with he | rfl
      · exact hlocals e he
      · exact hd
    · rw [Agree, exec_store_none _ _ _ _ _ _ d hs, exec_store_none _ _ _ _ _ _ d hs]
      exact J.fallen (.mk hid hlocals hops) hr

lemma at_pop : Agree P h h' rest rest' ⟨id, pc, locals, ops⟩ ⟨id', pc, locals, ops⟩ .pop .pop := by
  cases ops with
  | nil => exact J.fallen (.mk hid hlocals hops) hr
  | cons d ops => exact resume (.mk hid hlocals (List.forall_mem_cons.mp hops).2) hr

lemma at_unary (op : UnaryOp) :
    Agree P h h' rest rest' ⟨id, pc, locals, ops⟩ ⟨id', pc, locals, ops⟩ (.unary op) (.unary op) := by
  cases ops with
  | nil => exact J.fallen (.mk hid hlocals hops) hr
  | cons d ops => exact pushing (.mk hid hlocals (List.forall_mem_cons.mp hops).2) hr (J.works.unary op d)

lemma at_binary (op : BinaryOp) :
    Agree P h h' rest rest' ⟨id, pc, locals, ops⟩ ⟨id', pc, locals, ops⟩ (.binary op) (.binary op) := by
  rcases ops with _ | ⟨rhs, _ | ⟨lhs, ops⟩⟩
  · exact J.fallen (.mk hid hlocals hops) hr
  · exact J.fallen (.mk hid hlocals hops) hr
  · have hops := (List.forall_mem_cons.mp (List.forall_mem_cons.mp hops).2).2
    exact pushing (.mk hid hlocals hops) hr (J.works.binary op lhs rhs)

lemma at_index : Agree P h h' rest rest' ⟨id, pc, locals, ops⟩ ⟨id', pc, locals, ops⟩ .index .index := by
  rcases ops with _ | ⟨i, _ | ⟨target, ops⟩⟩
  · exact J.fallen (.mk hid hlocals hops) hr
  · exact J.fallen (.mk hid hlocals hops) hr
  · have hops := (List.forall_mem_cons.mp (List.forall_mem_cons.mp hops).2).2
    exact pushing (.mk hid hlocals hops) hr (J.works.index target i)

lemma at_storeIndex :
    Agree P h h' rest rest' ⟨id, pc, locals, ops⟩ ⟨id', pc, locals, ops⟩ .storeIndex .storeIndex := by
  rcases ops with _ | ⟨value, _ | ⟨i, _ | ⟨target, ops⟩⟩⟩
  · exact J.fallen (.mk hid hlocals hops) hr
  · exact J.fallen (.mk hid hlocals hops) hr
  · exact J.fallen (.mk hid hlocals hops) hr
  · obtain ⟨hv, hops⟩ := List.forall_mem_cons.mp hops
    have hops := (List.forall_mem_cons.mp (List.forall_mem_cons.mp hops).2).2
    apply setFrames (.cons (.mk hid hlocals hops) hr)
    exact (J.works.storeIndex target i hv).bind fun _ _ => Coupled.pure P.given_none

lemma at_expectBool :
    Agree P h h' rest rest' ⟨id, pc, locals, ops⟩ ⟨id', pc, locals, ops⟩ .expectBool .expectBool := by
  cases ops with
  | nil => exact J.fallen (.mk hid hlocals hops) hr
  | cons d ops =>
    rw [Agree, exec_expectBool, exec_expectBool]
    apply J.whenBool (.mk hid hlocals hops) hr
    intro b
    have hops := (List.forall_mem_cons.mp hops).2
    exact resume (.mk hid hlocals (List.forall_mem_cons.mpr ⟨J.keeps.bool b, hops⟩)) hr

lemma at_jumpIfFalse (target : Nat) : Agree P h h' rest rest' ⟨id, pc, locals, ops⟩ ⟨id', pc, locals, ops⟩
    (.jumpIfFalse target) (.jumpIfFalse target) := by
  cases ops with
  | nil => exact J.fallen (.mk hid hlocals hops) hr
  | cons d ops =>
    rw [Agree, exec_jumpIfFalse, exec_jumpIfFalse]
    apply J.whenBool (.mk hid hlocals hops) hr
    exact fun b => resume (.mk hid hlocals (List.forall_mem_cons.mp hops).2) hr

lemma at_jumpKeep (settled : Bool) (target : Nat) :
    Agree P h h' rest rest' ⟨id, pc, locals, ops⟩ ⟨id', pc, locals, ops⟩ (.jumpKeep settled target)
      (.jumpKeep settled target) := by
  cases ops with
  | nil => exact J.fallen (.mk hid hlocals hops) hr
  | cons d ops =>
    rw [Agree, exec_jumpKeep, exec_jumpKeep]
    apply J.whenBool (.mk hid hlocals hops) hr
    intro b
    have hops := (List.forall_mem_cons.mp hops).2
    split
    · exact resume (.mk hid hlocals (List.forall_mem_cons.mpr ⟨J.keeps.bool b, hops⟩)) hr
    · exact resume (.mk hid hlocals hops) hr

lemma at_callBuiltin (b : Builtin) (argc : Nat) : Agree P h h' rest rest' ⟨id, pc, locals, ops⟩
    ⟨id', pc, locals, ops⟩ (.callBuiltin b argc) (.callBuiltin b argc) := by
  by_cases ha : argc ≤ ops.length
  · rw [Agree, exec_callBuiltin _ _ _ _ _ _ b ha, exec_callBuiltin _ _ _ _ _ _ b ha]
    apply pushing (.mk hid hlocals fun d hd => hops d (List.mem_of_mem_drop hd)) hr
    exact J.works.builtin b fun d hd => hops d (List.mem_of_mem_take (List.mem_reverse.mp hd))
  · rw [Agree, exec_callBuiltin_few _ _ _ _ _ _ b ha, exec_callBuiltin_few _ _ _ _ _ _ b ha]
    exact J.fallen (.mk hid hlocals hops) hr

lemma at_makeArray (count : Nat) :
    Agree P h h' rest rest' ⟨id, pc, locals, ops⟩ ⟨id', pc, locals, ops⟩ (.makeArray count) (.makeArray count) := by
  by_cases hc : count ≤ ops.length
  · rw [Agree, exec_makeArray _ _ _ _ _ _ hc, exec_makeArray _ _ _ _ _ _ hc]
    apply pushing (.mk hid hlocals fun d hd => hops d (List.mem_of_mem_drop hd)) hr
    exact J.newArray fun d hd => hops d (List.mem_of_mem_take (List.mem_reverse.mp (List.mem_toArray.mp hd)))
  · rw [Agree, exec_makeArray_few _ _ _ _ _ _ hc, exec_makeArray_few _ _ _ _ _ _ hc]
    exact J.fallen (.mk hid hlocals hops) hr

lemma at_ret : Agree P h h' rest rest' ⟨id, pc, locals, ops⟩ ⟨id', pc, locals, ops⟩ .ret .ret := by
  cases ops with
  | nil => exact J.fallen (.mk hid hlocals hops) hr
  | cons d ops =>
    have hd := (List.forall_mem_cons.mp hops).1
    rintro s _ ⟨⟨-⟩, hmemory⟩
    cases hr with
    | nil => exact ⟨rfl, fun e he => Option.mem_some.mp he ▸ hd, .mk .nil, hmemory⟩
    | cons hg hr =>
      obtain ⟨hid, hlocals, hops⟩ := hg
      refine ⟨rfl, P.given_none, .mk (.cons ?_ hr), hmemory⟩
      exact .mk hid hlocals (List.forall_mem_cons.mpr ⟨hd, hops⟩)

end Instructions

lemma exec (hf : P.Frames f f') (hr : List.Forall₂ P.Frames rest rest') {i i' : Instr}
    (hi : i.Alike P.functions (h.program.SameString h'.program) i') : Agree P h h' rest rest' f f' i i' := by
  obtain ⟨hid, hlocals, hops⟩ := hf
  rename_i id id' pc locals ops
  have hadd : ∀ {d : Datum}, P.values d →
      Coupled P.coupling P.Given (Machine.resume ⟨id, pc, locals, d :: ops⟩ rest)
        (Machine.resume ⟨id', pc, locals, d :: ops⟩ rest') := fun hd =>
    resume (.mk hid hlocals (List.forall_mem_cons.mpr ⟨hd, hops⟩)) hr
  cases hi with
  | str hk => exact J.at_str hid hlocals hops hr hk
  | call hcallee => exact J.at_call hid hlocals hops hr hcallee _
  | same hstr hcall =>
    cases i with
    | int v => exact hadd (J.keeps.int v)
    | nil => exact hadd J.keeps.nil
    | bool b => exact hadd (J.keeps.bool b)
    | jump target => exact resume (.mk hid hlocals hops) hr
    | str k => exact absurd rfl (hstr k)
    | call callee argc => exact absurd rfl (hcall callee argc)
    | load slot => exact J.at_load hid hlocals hops hr slot
    | store slot => exact J.at_store hid hlocals hops hr slot
    | pop => exact J.at_pop hid hlocals hops hr
    | unary op => exact J.at_unary hid hlocals hops hr op
    | binary op => exact J.at_binary hid hlocals hops hr op
    | expectBool => exact J.at_expectBool hid hlocals hops hr
    | jumpIfFalse target => exact J.at_jumpIfFalse hid hlocals hops hr target
    | jumpKeep settled target => exact J.at_jumpKeep hid hlocals hops hr settled target
    | callBuiltin b argc => exact J.at_callBuiltin hid hlocals hops hr b argc
    | ret => exact J.at_ret hid hlocals hops hr
    | makeArray count => exact J.at_makeArray hid hlocals hops hr count
    | index => exact J.at_index hid hlocals hops hr
    | storeIndex => exact J.at_storeIndex hid hlocals hops hr

/-! Steps and runs. -/

lemma instr {id id' : Nat} (hid : P.functions id id') (pc : Nat) :
    Option.Rel (Instr.Alike P.functions (h.program.SameString h'.program))
      ((h.program.functions[id]?).bind fun g => g.code[pc]?)
      ((h'.program.functions[id']?).bind fun g => g.code[pc]?) := by
  have hfunctions := J.functions hid
  cases hg : h.program.functions[id]? with
  | none =>
    cases hg' : h'.program.functions[id']? with
    | none => exact .none
    | some g' =>
      rw [hg, hg'] at hfunctions
      cases hfunctions
  | some g =>
    cases hg' : h'.program.functions[id']? with
    | none =>
      rw [hg, hg'] at hfunctions
      cases hfunctions
    | some g' =>
      rw [hg, hg'] at hfunctions
      obtain ⟨hg⟩ := hfunctions
      rw [Option.bind_some, Option.bind_some, ← Array.getElem?_toList, ← Array.getElem?_toList]
      exact forall₂_getElem? hg.code pc

lemma step : Coupled P.coupling P.Given (step h) (step h') := by
  unfold Machine.step
  apply J.tick.bind
  rintro _ _ s _ ⟨⟨hframes⟩, hmemory⟩
  rename_i frames
  rw [bind_modifyGet, bind_modifyGet]
  have hbare : P.coupling.states { s with frames := [] } { s with frames := [] } := ⟨.mk .nil, hmemory⟩
  dsimp only
  generalize s.frames = frames₀ at hframes ⊢
  cases hframes with
  | nil => exact J.fail _ _ _ _ _ hbare
  | cons hf hr =>
    obtain ⟨hid, hlocals, hops⟩ := hf
    rename_i id id' pc locals ops
    have hinstr := J.instr hid pc
    dsimp only
    generalize (h.program.functions[id]?).bind (fun g => g.code[pc]?) = x at hinstr ⊢
    generalize (h'.program.functions[id']?).bind (fun g => g.code[pc]?) = y at hinstr ⊢
    cases hinstr with
    | none => exact J.fail _ _ _ _ _ hbare
    | some hi => exact J.exec (.mk hid hlocals hops) hr hi _ _ hbare

lemma advance (steps : Nat) : Coupled P.coupling P.Given (advance h steps) (advance h' steps) := by
  induction steps with
  | zero => exact Coupled.pure P.given_none
  | succ steps ih =>
    unfold Machine.advance
    apply J.step.bind
    intro r hr
    cases r with
    | some d => exact Coupled.pure hr
    | none => exact ih

lemma proceed (steps : Nat) : Coupled P.coupling (fun _ => True) (proceed h steps) (proceed h' steps) := by
  unfold Machine.proceed
  apply (J.advance steps).bind
  intro r _
  cases r with
  | some d => exact (J.works.giveOut renderDepth d).bind fun _ _ => Coupled.pure trivial
  | none => exact Coupled.pure trivial

lemma call {id id' : Nat} (hid : P.functions id id') (arguments : List Value) :
    Coupled P.coupling (fun _ => True) (call h id arguments) (call h' id' arguments) := by
  unfold Machine.call
  apply (J.works.takeInAll arguments fun d hd => (Array.not_mem_empty d hd).elim).bind
  intro args ha
  apply (J.enter hid fun d hd => ha d (Array.mem_toList_iff.mp hd)).bind
  exact fun _ _ => Coupled.pure trivial

lemma started {id id' : Nat} (hid : P.functions id id') (arguments : List Value) (steps : Nat) :
    Coupled P.coupling (fun _ => True) (started h id arguments steps) (started h' id' arguments steps) :=
  (J.call hid arguments).bind fun _ _ => J.proceed steps

end Pairing.Joins

end Machine

end ScriptHost
