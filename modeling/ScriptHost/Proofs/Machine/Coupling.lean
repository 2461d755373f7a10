import Mathlib.Tactic.Lemma
import ScriptHost.Machine.Exchange
import ScriptHost.Proofs.Machine.Yields

/-!
Two runs side by side. Work on values keeps them together as soon as the few parts do that it is made of: what
charges memory, looks at the signal, shows values or changes the heap.
-/

namespace ScriptHost.Machine

/-- Which states of two runs belong together, and which faults do. Where a fault cuts the first run short, nothing
is said of the second one. -/
structure Coupling where
  states : State → State → Prop
  faults : Fault → State → Fault → State → Prop
  cut : Fault → Prop

/-- Two results that belong together; one that is given satisfies `Q`. -/
def Coupling.Ends (c : Coupling) {α : Type} (Q : α → Prop) :
    EStateM.Result Fault State α → EStateM.Result Fault State α → Prop
  | .ok a t, .ok b u => a = b ∧ Q a ∧ c.states t u
  | .ok _ _, .error _ _ => False
  | .error f t, .error g u => c.cut f ∨ c.faults f t g u
  | .error f _, .ok _ _ => c.cut f

def Coupled (c : Coupling) {α : Type} (Q : α → Prop) (x y : Run α) : Prop :=
  ∀ s s', c.states s s' → c.Ends Q (x s) (y s')

section Coupled

variable {c : Coupling} {α β : Type} {Q Q' : α → Prop} {x y : Run α}

lemma Coupling.Ends.mono {r r' : EStateM.Result Fault State α} (hr : c.Ends Q r r') (hq : ∀ a, Q a → Q' a) :
    c.Ends Q' r r' := by
  cases r with
  | ok a t =>
    cases r' with
    | ok b u => exact ⟨hr.1, hq a hr.2.1, hr.2.2⟩
    | error g u => exact hr
  | error f t => cases r' <;> exact hr

lemma Coupled.mono (hx : Coupled c Q x y) (hq : ∀ a, Q a → Q' a) : Coupled c Q' x y :=
  fun s s' hs => (hx s s' hs).mono hq

lemma Coupled.pure {a : α} (ha : Q a) : Coupled c Q (pure a) (pure a) :=
  fun _ _ hs => ⟨rfl, ha, hs⟩

lemma Coupled.bind {R : β → Prop} {k k' : α → Run β} (hx : Coupled c Q x y)
    (hk : ∀ a, Q a → Coupled c R (k a) (k' a)) : Coupled c R (x >>= k) (y >>= k') := by
  intro s s' hs
  have hx := hx s s' hs
  cases hr : x s with
  | ok a t =>
    cases hr' : y s' with
    | ok b u =>
      rw [hr, hr'] at hx
      obtain ⟨rfl, ha, ht⟩ := hx
      rw [bind_of_ok hr, bind_of_ok hr']
      exact hk a ha t u ht
    | error g u =>
      rw [hr, hr'] at hx
      exact hx.elim
  | error f t =>
    rw [bind_of_error hr]
    cases hr' : y s' with
    | ok b u =>
      -- The first run was cut short, so it does not matter how the second one goes on.
      rw [hr, hr'] at hx
      cases (y >>= k') s' with
      | ok => exact hx
      | error => exact .inl hx
    | error g u =>
      rw [hr, hr'] at hx
      rw [bind_of_error hr']
      exact hx

lemma Coupled.get {k k' : State → Run α} (hk : ∀ s s', c.states s s' → Coupled c Q (k s) (k' s')) :
    Coupled c Q (get >>= k) (get >>= k') :=
  fun s s' hs => hk s s' hs s s' hs

lemma Coupled.modify {f f' : State → State} (hf : ∀ s s', c.states s s' → c.states (f s) (f' s')) :
    Coupled c (fun _ => True) (modify f) (modify f') :=
  fun s s' hs => ⟨rfl, trivial, hf s s' hs⟩

end Coupled

/-- The parts that work on values is made of keep two runs together, and give values that satisfy `W`. -/
structure Works (c : Coupling) (h h' : Host) (W : Datum → Prop) : Prop where
  nil : W .nil
  bool (b : Bool) : W (.bool b)
  int (v : Int64) : W (.int v)
  heap {s s' : State} : c.states s s' → s.heap = s'.heap
  items {s s' : State} : c.states s s' → ∀ handle, ∀ d ∈ s.heap.items handle, W d
  capture {s s' : State} : c.states s s' → ∀ stream, s.capture stream = s'.capture stream
  fail {α : Type} (Q : α → Prop) (kind : FaultKind) (message : String) :
    Coupled c Q (fail h kind message) (fail h' kind message)
  tick : Coupled c (fun _ => True) (tick h) (tick h')
  charge (bytes : Nat) : Coupled c (fun _ => True) (charge h bytes) (charge h' bytes)
  newString (text : String) : Coupled c W (newString h text) (newString h' text)
  newArray {items : Array Datum} : (∀ d ∈ items, W d) → Coupled c W (newArray h items) (newArray h' items)
  shown (separator : String) (limit : Nat) (values : Array Datum) :
    Coupled c (fun _ => True) (show? h separator limit values) (show? h' separator limit values)
  display (values : Array Datum) : Coupled c (fun _ => True) (display h values) (display h' values)
  write {s s' : State} (stream : Stream) (text : String) :
    c.states s s' → c.states (s.write stream text) (s'.write stream text)
  push (handle : Nat) {value : Datum} : W value →
    Coupled c (fun _ => True) (push h (.array handle) value) (push h' (.array handle) value)
  store {s s' : State} (handle i : Nat) {value : Datum} : W value → c.states s s' →
    c.states { s with heap := s.heap.modify handle (·.setIfInBounds i value) }
      { s' with heap := s'.heap.modify handle (·.setIfInBounds i value) }
  shorten {s s' : State} (handle : Nat) : c.states s s' →
    c.states { s with heap := s.heap.modify handle (·.pop) } { s' with heap := s'.heap.modify handle (·.pop) }

namespace Works

variable {c : Coupling} {h h' : Host} {W : Datum → Prop}

section Operations

variable (hw : Works c h h' W)

include hw

/-! Operators. -/

lemma exactly (result : Option Int64) : Coupled c W (exactly h result) (exactly h' result) := by
  cases result with
  | none => exact hw.fail _ _ _
  | some v => exact Coupled.pure (hw.int v)

lemma arithmetic (op : Int64 → Int64 → Option Int64) (divides : Bool) (lhs rhs : Datum) :
    Coupled c W (arithmetic h op divides lhs rhs) (arithmetic h' op divides lhs rhs) := by
  unfold Machine.arithmetic
  split
  · split
    · exact hw.fail _ _ _
    · exact hw.exactly _
  · exact hw.fail _ _ _

lemma displayed (values : Array Datum) :
    Coupled c W (do Machine.newString h (← Machine.display h values))
      (do Machine.newString h' (← Machine.display h' values)) :=
  (hw.display values).bind fun text _ => hw.newString text

lemma add (lhs rhs : Datum) : Coupled c W (add h lhs rhs) (add h' lhs rhs) := by
  unfold Machine.add
  split
  · exact hw.exactly _
  · exact hw.displayed _
  · exact hw.displayed _
  · exact hw.fail _ _ _

lemma compare (ints : Int64 → Int64 → Bool) (strs : String → String → Bool) (lhs rhs : Datum) :
    Coupled c W (compare h ints strs lhs rhs) (compare h' ints strs lhs rhs) := by
  unfold Machine.compare
  split
  · exact Coupled.pure (hw.bool _)
  · exact Coupled.pure (hw.bool _)
  · exact hw.fail _ _ _

lemma binary (op : BinaryOp) (lhs rhs : Datum) : Coupled c W (binary h op lhs rhs) (binary h' op lhs rhs) := by
  cases op with
  | add => exact hw.add lhs rhs
  | sub => exact hw.arithmetic _ _ lhs rhs
  | mul => exact hw.arithmetic _ _ lhs rhs
  | div => exact hw.arithmetic _ _ lhs rhs
  | rem => exact hw.arithmetic _ _ lhs rhs
  | eq => exact Coupled.pure (hw.bool _)
  | ne => exact Coupled.pure (hw.bool _)
  | lt => exact hw.compare _ _ lhs rhs
  | le => exact hw.compare _ _ lhs rhs
  | gt => exact hw.compare _ _ lhs rhs
  | ge => exact hw.compare _ _ lhs rhs

lemma unary (op : UnaryOp) (d : Datum) : Coupled c W (unary h op d) (unary h' op d) := by
  unfold Machine.unary
  split
  · exact hw.exactly _
  · exact hw.fail _ _ _
  · exact Coupled.pure (hw.bool _)
  · exact hw.fail _ _ _

lemma position (i : Datum) (length : Nat) :
    Coupled c (· < length) (position h i length) (position h' i length) := by
  unfold Machine.position
  split
  · split
    · next v hv =>
      apply Coupled.pure
      simp only [Bool.and_eq_true, decide_eq_true_eq, Int64.le_iff_toInt_le, Int64.toInt_zero] at hv
      omega
    · exact hw.fail _ _ _
  · exact hw.fail _ _ _

lemma index (target i : Datum) : Coupled c W (index h target i) (index h' target i) := by
  cases target with
  | array handle =>
    apply Coupled.get
    intro s s' hs
    rw [← hw.heap hs]
    apply (hw.position i _).bind
    intro n hn
    apply Coupled.pure
    rw [Array.getD_eq_getD_getElem?, Array.getElem?_eq_getElem hn]
    exact hw.items hs handle _ (Array.getElem_mem hn)
  | str text => exact (hw.position i _).bind fun _ _ => hw.newString _
  | _ => exact hw.fail _ _ _

lemma storeIndex (target i : Datum) {value : Datum} (hv : W value) :
    Coupled c (fun _ => True) (storeIndex h target i value) (storeIndex h' target i value) := by
  cases target with
  | array handle =>
    apply Coupled.get
    intro s s' hs
    rw [← hw.heap hs]
    apply (hw.position i _).bind
    intro n _
    exact Coupled.modify fun s s' hs => hw.store handle n hv hs
  | _ => exact hw.fail _ _ _

/-! Builtins. -/

lemma print (stream : Stream) (newline : Bool) (args : Array Datum) :
    Coupled c W (print h stream newline args) (print h' stream newline args) := by
  apply Coupled.get
  intro s s' hs
  rw [← hw.capture hs]
  have hwrite : ∀ text, Coupled c W (do
      modify (·.write stream text)
      return Datum.nil) (do
      modify (·.write stream text)
      return Datum.nil) := fun text =>
    (Coupled.modify fun s s' hs => hw.write stream text hs).bind fun _ _ => Coupled.pure hw.nil
  apply (hw.shown " " (s.capture stream).limit args).bind
  rintro ⟨line, _ | _ | _⟩ _
  · exact hwrite _
  · exact hwrite _
  · exact hw.fail _ _ _

lemma pushTo (target : Datum) {value : Datum} (hv : W value) :
    Coupled c W (Machine.push h target value) (Machine.push h' target value) := by
  cases target with
  | array handle =>
    have hpush : ∀ h, Machine.push h (.array handle) value = (do
        let _ ← Machine.push h (.array handle) value
        return .nil) := fun h => by
      unfold Machine.push
      simp only [bind_assoc, pure_bind]
    rw [hpush h, hpush h']
    exact (hw.push handle hv).bind fun _ _ => Coupled.pure hw.nil
  | _ => exact hw.fail _ _ _

lemma pop (target : Datum) : Coupled c W (pop h target) (pop h' target) := by
  cases target with
  | array handle =>
    apply Coupled.get
    intro s s' hs
    rw [← hw.heap hs]
    cases hlast : (s.heap.items handle).back? with
    | none => exact hw.fail _ _ _
    | some last =>
      apply (Coupled.modify fun s s' hs => hw.shorten handle hs).bind
      exact fun _ _ => Coupled.pure (hw.items hs handle last (Array.mem_of_back? hlast))
  | _ => exact hw.fail _ _ _

lemma len (d : Datum) : Coupled c W (len h d) (len h' d) := by
  cases d with
  | str text => exact Coupled.pure (hw.int _)
  | array handle =>
    apply Coupled.get
    intro s s' hs
    rw [← hw.heap hs]
    exact Coupled.pure (hw.int _)
  | _ => exact hw.fail _ _ _

lemma abs (d : Datum) : Coupled c W (abs h d) (abs h' d) := by
  cases d with
  | int v => exact hw.exactly _
  | _ => exact hw.fail _ _ _

lemma pick (side : Extremum) (a b : Datum) : Coupled c W (pick h side a b) (pick h' side a b) := by
  unfold Machine.pick
  split
  · exact Coupled.pure (hw.int _)
  · exact hw.fail _ _ _

lemma displayedFail (kind : FaultKind) (d : Datum) :
    Coupled c W (do Machine.fail h kind (← Machine.display h #[d]))
      (do Machine.fail h' kind (← Machine.display h' #[d])) :=
  (hw.display #[d]).bind fun text _ => hw.fail _ kind text

lemma assert (holds : Datum) (message : Option Datum) :
    Coupled c W (assert h holds message) (assert h' holds message) := by
  unfold Machine.assert
  split
  · exact Coupled.pure hw.nil
  · exact hw.displayedFail _ _
  · exact hw.fail _ _ _
  · exact hw.fail _ _ _

lemma builtin (b : Builtin) {args : List Datum} (ha : ∀ d ∈ args, W d) :
    Coupled c W (builtin h b args) (builtin h' b args) := by
  unfold Machine.builtin
  split
  · exact hw.print _ _ _
  · exact hw.displayed _
  · exact hw.len _
  · next target value => exact hw.pushTo target (ha value (by simp))
  · exact hw.pop _
  · exact hw.abs _
  · exact hw.pick _ _ _
  · exact hw.displayedFail _ _
  · exact hw.assert _ _
  · exact hw.assert _ _
  · exact hw.fail _ _ _

end Operations

/-! Values on their way in and out. -/

mutual

lemma takeIn (hw : Works c h h' W) (v : Value) : Coupled c W (takeIn h v) (takeIn h' v) := by
  cases v with
  | nil => exact Coupled.pure hw.nil
  | bool b => exact Coupled.pure (hw.bool b)
  | int v => exact Coupled.pure (hw.int v)
  | str text => exact hw.newString text
  | array vs =>
    simp only [Machine.takeIn]
    exact (takeInAll hw vs fun d hd => (Array.not_mem_empty d hd).elim).bind fun items hi => hw.newArray hi

lemma takeInAll (hw : Works c h h' W) {done : Array Datum} (vs : List Value) (hdone : ∀ d ∈ done, W d) :
    Coupled c (fun items => ∀ d ∈ items, W d) (takeInAll h done vs) (takeInAll h' done vs) := by
  cases vs with
  | nil => exact Coupled.pure hdone
  | cons v vs =>
    simp only [Machine.takeInAll]
    apply (takeIn hw v).bind
    intro d hd
    apply takeInAll hw vs
    intro e he
    rcases Array.mem_push.mp he with he | rfl
    · exact hdone e he
    · exact hd

end

lemma giveOut (hw : Works c h h' W) (levels : Nat) (d : Datum) :
    Coupled c (fun _ => True) (giveOut h levels d) (giveOut h' levels d) := by
  induction levels generalizing d with
  | zero =>
    unfold Machine.giveOut
    apply hw.tick.bind
    intro _ _
    cases d with
    | str text => exact (hw.charge _).bind fun _ _ => Coupled.pure trivial
    | _ => exact Coupled.pure trivial
  | succ levels ih =>
    unfold Machine.giveOut
    apply hw.tick.bind
    intro _ _
    cases d with
    | str text => exact (hw.charge _).bind fun _ _ => Coupled.pure trivial
    | array handle =>
      apply Coupled.get
      intro s s' hs
      rw [← hw.heap hs]
      apply (hw.charge _).bind
      intro _ _
      have hfold : ∀ (ds : List Datum) (done : Array Value), Coupled c (fun _ => True)
          (ds.foldlM (fun done d => return done.push (← Machine.giveOut h levels d)) done)
          (ds.foldlM (fun done d => return done.push (← Machine.giveOut h' levels d)) done) := by
        intro ds
        induction ds with
        | nil => exact fun done => Coupled.pure trivial
        | cons d ds ihds =>
          intro done
          simp only [List.foldlM_cons]
          exact ((ih d).bind (R := fun _ => True) fun v _ => Coupled.pure trivial).bind fun done _ => ihds done
      rw [← Array.foldlM_toList, ← Array.foldlM_toList]
      exact (hfold _ _).bind fun _ _ => Coupled.pure trivial
    | _ => exact Coupled.pure trivial

end Works

end ScriptHost.Machine
