import Mathlib.Tactic.Lemma
import ScriptHost.Proofs.Evaluation.Evaluate
import ScriptHost.Proofs.Machine.Coupling

/-!
Work on values comes out the same whatever calls are under way, as long as nothing limits memory and no signal
is up.
-/

namespace ScriptHost

structure Host.Quiet (h : Host) : Prop where
  ceiling : h.memoryCeiling = none
  signal : h.raised = fun _ => false

namespace Evaluation

open Machine

/-- Two runs that come out the same; the first keeps the calls under way. -/
def Alike {α : Type} (x : Run α) (s : State) (y : Run α) (s' : State) : Prop :=
  match x s, y s' with
  | .ok a t, .ok b u => a = b ∧ worldOf t = worldOf u ∧ t.frames = s.frames ∧ t.depth = s.depth
  | .error f t, .error g u => f.kind = g.kind ∧ f.message = g.message ∧ worldOf t = worldOf u
  | _, _ => False

/-- Work that comes out the same on all quiet hosts. -/
def Agree {α : Type} (op : Host → Run α) : Prop :=
  ∀ h h' s s', h.Quiet → h'.Quiet → worldOf s = worldOf s' → Alike (op h) s (op h') s'

def quietly (frames : List Frame) (depth : Nat) : Coupling where
  states s s' := worldOf s = worldOf s' ∧ s.frames = frames ∧ s.depth = depth
  faults f s g s' := f.kind = g.kind ∧ f.message = g.message ∧ worldOf s = worldOf s'
  cut _ := False

lemma tick_quiet {h : Host} (hq : h.Quiet) (s : State) : tick h s = .ok () s.tick := by
  rw [tick]
  change (if s.tick.steps % pollInterval = 0 && h.raised s.tick.clock then interrupted h else _) s.tick = _
  rw [hq.signal]
  simp
  rfl

section Quietly

variable {h h' : Host} {frames : List Frame} {depth : Nat}

lemma fail_quietly {α : Type} (Q : α → Prop) (kind : FaultKind) (message : String) :
    Coupled (quietly frames depth) Q (fail h kind message) (fail h' kind message) :=
  fun _ _ hs => .inr ⟨rfl, rfl, hs.1⟩

lemma write_quietly {s s' : State} (stream : Stream) (text : String) (hs : (quietly frames depth).states s s') :
    (quietly frames depth).states (s.write stream text) (s'.write stream text) := by
  obtain ⟨hw, hcalls⟩ := hs
  obtain ⟨hheap, hout, herr⟩ := World.mk.inj hw
  cases stream with
  | out => exact ⟨by simp only [worldOf, State.write, hheap, hout, herr], hcalls⟩
  | err => exact ⟨by simp only [worldOf, State.write, hheap, hout, herr], hcalls⟩

lemma heap_quietly {s s' : State} (f : Heap → Heap) (hs : (quietly frames depth).states s s') :
    (quietly frames depth).states { s with heap := f s.heap } { s' with heap := f s'.heap } := by
  obtain ⟨hw, hcalls⟩ := hs
  obtain ⟨hheap, hout, herr⟩ := World.mk.inj hw
  exact ⟨by simp only [worldOf, hheap, hout, herr], hcalls⟩

variable (hq : h.Quiet) (hq' : h'.Quiet)

include hq hq'

lemma charge_quietly (bytes : Nat) :
    Coupled (quietly frames depth) (fun _ => True) (charge h bytes) (charge h' bytes) := by
  intro s s' hs
  unfold charge
  rw [hq.ceiling, hq'.ceiling]
  exact ⟨rfl, trivial, hs⟩

lemma shown_quietly (separator : String) (limit : Nat) (values : Array Datum) :
    Coupled (quietly frames depth) (fun _ => True) (show? h separator limit values)
      (show? h' separator limit values) := by
  intro s s' hs
  have hheap := congrArg World.heap hs.1
  change s.heap = s'.heap at hheap
  refine ⟨?_, trivial, hs⟩
  simp only [hq.signal, hq'.signal, hheap]

lemma display_quietly (values : Array Datum) :
    Coupled (quietly frames depth) (fun _ => True) (display h values) (display h' values) := by
  apply Coupled.get
  intro _ _ _
  simp only [hq.ceiling, hq'.ceiling, Option.elim_none, Option.getD_none]
  apply (shown_quietly hq hq' "" chargeLimit values).bind
  rintro ⟨text, _ | _ | _⟩ _
  · exact Coupled.pure trivial
  · exact fail_quietly _ _ _
  · exact fail_quietly _ _ _

lemma quiet_works : Works (quietly frames depth) h h' fun _ => True where
  nil := trivial
  bool _ := trivial
  int _ := trivial
  heap hs := congrArg World.heap hs.1
  items _ _ _ _ := trivial
  capture hs stream := by
    cases stream with
    | out => exact congrArg World.out hs.1
    | err => exact congrArg World.err hs.1
  fail := fail_quietly
  tick := by
    intro s s' hs
    rw [tick_quiet hq, tick_quiet hq']
    exact ⟨rfl, trivial, hs⟩
  charge := charge_quietly hq hq'
  newString _ := (charge_quietly hq hq' _).bind fun _ _ => Coupled.pure trivial
  newArray {items} _ := by
    apply (charge_quietly hq hq' _).bind
    intro _ _ s s' hs
    have hheap := congrArg World.heap hs.1
    change s.heap = s'.heap at hheap
    exact ⟨by simp only [hheap], trivial, heap_quietly (·.push items) hs⟩
  shown := shown_quietly hq hq'
  display := display_quietly hq hq'
  write := write_quietly
  push handle value _ := by
    apply (charge_quietly hq hq' _).bind
    intro _ _
    apply (Coupled.modify fun s s' hs => heap_quietly (·.modify handle (·.push value)) hs).bind
    exact fun _ _ => Coupled.pure trivial
  store handle i value _ hs := heap_quietly (·.modify handle (·.setIfInBounds i value)) hs
  shorten handle hs := heap_quietly (·.modify handle (·.pop)) hs

end Quietly

lemma agree {α : Type} {op : Host → Run α} {Q : α → Prop}
    (hop : ∀ {c : Coupling} {h h' : Host}, Works c h h' (fun _ => True) → Coupled c Q (op h) (op h')) :
    Agree op := by
  intro h h' s s' hq hq' hw
  have hends := hop (quiet_works hq hq') s s' ⟨hw, rfl, rfl⟩
  rw [Alike]
  cases hx : op h s with
  | ok a t =>
    cases hy : op h' s' with
    | ok b u =>
      rw [hx, hy] at hends
      exact ⟨hends.1, hends.2.2⟩
    | error g u =>
      rw [hx, hy] at hends
      exact hends
  | error f t =>
    cases hy : op h' s' with
    | ok b u =>
      rw [hx, hy] at hends
      exact hends
    | error g u =>
      rw [hx, hy] at hends
      exact hends.resolve_left id

/-! What the instructions do with their operands. -/

lemma newString_agree (text : String) : Agree fun h => newString h text :=
  agree fun hw => hw.newString text

lemma newArray_agree (items : Array Datum) : Agree fun h => newArray h items :=
  agree fun hw => hw.newArray fun _ _ => trivial

lemma unary_agree (op : UnaryOp) (d : Datum) : Agree fun h => unary h op d :=
  agree fun hw => hw.unary op d

lemma binary_agree (op : BinaryOp) (lhs rhs : Datum) : Agree fun h => binary h op lhs rhs :=
  agree fun hw => hw.binary op lhs rhs

lemma index_agree (target i : Datum) : Agree fun h => index h target i :=
  agree fun hw => hw.index target i

lemma storeIndex_agree (target i value : Datum) : Agree fun h => storeIndex h target i value :=
  agree fun hw => hw.storeIndex target i trivial

lemma builtin_agree (b : Builtin) (args : List Datum) : Agree fun h => builtin h b args :=
  agree fun hw => hw.builtin b fun _ _ => trivial

lemma takeInAll_agree (done : Array Datum) (vs : List Value) : Agree fun h => takeInAll h done vs :=
  agree fun hw => hw.takeInAll vs fun _ _ => trivial

lemma giveOut_agree (levels : Nat) (d : Datum) : Agree fun h => giveOut h levels d :=
  agree fun hw => hw.giveOut levels d

/-! On a quiet host the machine does what the evaluator does. -/

section Act

variable {α : Type} {op : Host → Run α} {h : Host} {s : State} {w : World}

lemma bare_quiet : bare.Quiet := ⟨rfl, rfl⟩

/-- A machine that carries out an operation like the evaluator does, and keeps the calls under way. -/
inductive Acts (op : Run α) (s : State) : EStateM.Result Halt World α → Prop
  | ok (a : α) (t : State) : op s = .ok a t → t.frames = s.frames → t.depth = s.depth →
      Acts op s (.ok a (worldOf t))
  | fault (f : Fault) (t : State) : op s = .error f t →
      Acts op s (.error (.fault f.kind f.message) (worldOf t))

lemma Agree.acts (hop : Agree op) (hq : h.Quiet) (hw : worldOf s = w) : Acts (op h) s (act op w) := by
  subst hw
  have halike := hop h bare s (worldOf s).state hq bare_quiet rfl
  rw [Alike] at halike
  rw [act]
  cases hx : op h s with
  | ok a t =>
    cases hy : op bare (worldOf s).state with
    | ok b u =>
      rw [hx, hy] at halike
      obtain ⟨rfl, hw, hframes, hdepth⟩ := halike
      change Acts (op h) s (.ok a (worldOf u))
      rw [← hw]
      exact .ok a t hx hframes hdepth
    | error g u =>
      rw [hx, hy] at halike
      exact halike.elim
  | error f t =>
    cases hy : op bare (worldOf s).state with
    | ok b u =>
      rw [hx, hy] at halike
      exact halike.elim
    | error g u =>
      rw [hx, hy] at halike
      obtain ⟨hkind, hmessage, hw⟩ := halike
      change Acts (op h) s (.error (.fault g.kind g.message) (worldOf u))
      rw [← hw, ← hkind, ← hmessage]
      exact .fault f t hx

end Act

end Evaluation

end ScriptHost
