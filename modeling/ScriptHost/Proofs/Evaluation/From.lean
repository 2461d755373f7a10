import ScriptHost.Proofs.Evaluation.Alike
import ScriptHost.Proofs.Machine.Trails

/-!
Runs of the machine against results of the evaluator. What is compared is the rest of a run with the rest of an
evaluation, so one rule an instruction carries a comparison backwards over it.
-/

namespace ScriptHost.Evaluation

open Machine

/-- A run, given by what it comes to in a number of steps, turns out like a result says. One that the evaluator
gives up on goes on for `least` steps. -/
def TurnsOut {α : Type} (run : Nat → EStateM.Result Fault State (Option α)) (least : Nat) :
    EStateM.Result Halt World α → Prop
  | .ok a w => ∃ n t, run n = .ok (some a) t ∧ worldOf t = w
  | .error (.fault kind message) w => ∃ n f t,
      run n = .error f t ∧ f.kind = kind ∧ f.message = message ∧ worldOf t = w
  | .error .exhausted _ => ∃ t, run least = .ok none t
  | .error .stuck _ => False

/-- Wherever a machine comes to these calls and this world, its run turns out like the result says. -/
def From (h : Host) (least : Nat) (frames : List Frame) (depth : Nat) (w : World)
    (r : EStateM.Result Halt World Datum) : Prop :=
  ∀ s : State, s.frames = frames → s.depth = depth → worldOf s = w → TurnsOut (advance h · s) least r

section Advance

variable {h : Host} {s t : State}

lemma advance_none (hs : step h s = .ok none t) (n : Nat) : advance h (n + 1) s = advance h n t :=
  bind_of_ok hs _

lemma advance_some {d : Datum} (hs : step h s = .ok (some d) t) (n : Nat) :
    advance h (n + 1) s = .ok (some d) t :=
  bind_of_ok hs _

lemma advance_error {f : Fault} (hs : step h s = .error f t) (n : Nat) :
    advance h (n + 1) s = .error f t :=
  bind_of_error hs _

lemma advance_of_succ {n : Nat} (hs : advance h (n + 1) s = .ok none t) :
    ∃ u, advance h n s = .ok none u := by
  induction n generalizing s with
  | zero => exact ⟨s, rfl⟩
  | succ n ih =>
    cases hx : step h s with
    | error f u =>
      rw [advance_error hx] at hs
      cases hs
    | ok r u =>
      cases r with
      | some d =>
        rw [advance_some hx] at hs
        cases hs
      | none =>
        rw [advance_none hx] at hs ⊢
        exact ih hs

lemma advance_ended {n n' : Nat} (hle : n ≤ n') (hs : ∀ t, advance h n s ≠ .ok none t) :
    advance h n' s = advance h n s := by
  induction n generalizing n' s with
  | zero => exact (hs s rfl).elim
  | succ n ih =>
    obtain ⟨m, rfl⟩ : ∃ m, n' = m + 1 := ⟨n' - 1, by omega⟩
    cases hx : step h s with
    | error f u => rw [advance_error hx, advance_error hx]
    | ok r u =>
      cases r with
      | some d => rw [advance_some hx, advance_some hx]
      | none =>
        rw [advance_none hx] at hs ⊢
        rw [advance_none hx]
        exact ih (Nat.le_of_succ_le_succ hle) hs

lemma step_quiet (hq : h.Quiet) {f : Frame} {rest : List Frame} {g : Function} {i : Instr}
    (hframes : s.frames = f :: rest) (hg : h.program.functions[f.function]? = some g)
    (hi : g.code[f.pc]? = some i) :
    step h s = exec h { f with pc := f.pc + 1 } rest i { s.tick with frames := [] } :=
  step_of_tick (tick_quiet hq s) hframes hg hi

lemma pushing_ok {f : Frame} {rest : List Frame} {op : Run Datum} {d : Datum}
    (hop : op { s with frames := f :: rest } = .ok d t) (hframes : t.frames = f :: rest) :
    pushing f rest op s = .ok none { t with frames := { f with operands := d :: f.operands } :: rest } := by
  obtain ⟨frames, depth, heap, allocated, steps, clock, out, err⟩ := t
  obtain rfl : frames = f :: rest := hframes
  exact bind_of_ok hop _

lemma pushing_error {f : Frame} {rest : List Frame} {op : Run Datum} {e : Fault}
    (hop : op { s with frames := f :: rest } = .error e t) : pushing f rest op s = .error e t :=
  bind_of_error hop _

end Advance

section TurnsOut

variable {h : Host} {least : Nat} {s t : State} {r : EStateM.Result Halt World Datum}

lemma TurnsOut.weaken (hr : TurnsOut (advance h · s) (least + 1) r) : TurnsOut (advance h · s) least r := by
  cases r with
  | ok => exact hr
  | error halt w =>
    cases halt with
    | fault => exact hr
    | exhausted =>
      obtain ⟨t, ht⟩ := hr
      exact advance_of_succ ht
    | stuck => exact hr

lemma TurnsOut.earlier (hs : step h s = .ok none t) (hr : TurnsOut (advance h · t) least r) :
    TurnsOut (advance h · s) (least + 1) r := by
  cases r with
  | ok =>
    obtain ⟨n, u, hu, hw⟩ := hr
    exact ⟨n + 1, u, (advance_none hs n).trans hu, hw⟩
  | error halt w =>
    cases halt with
    | fault =>
      obtain ⟨n, f, u, hu, hf⟩ := hr
      exact ⟨n + 1, f, u, (advance_none hs n).trans hu, hf⟩
    | exhausted =>
      obtain ⟨u, hu⟩ := hr
      exact ⟨u, (advance_none hs least).trans hu⟩
    | stuck => exact hr

lemma TurnsOut.fault {f : Fault} (hs : step h s = .error f t) :
    TurnsOut (advance h · s) least (.error (.fault f.kind f.message) (worldOf t)) :=
  ⟨1, f, t, advance_error hs 0, rfl, rfl, rfl⟩

lemma TurnsOut.give {d : Datum} (hs : step h s = .ok (some d) t) :
    TurnsOut (advance h · s) least (.ok d (worldOf t)) :=
  ⟨1, t, advance_some hs 0, rfl⟩

end TurnsOut

lemma bind_run {α β : Type} (x : Eval α) (k : α → Eval β) (w : World) :
    (x >>= k) w = match x w with
      | .ok a w => k a w
      | .error e w => .error e w := by
  cases hx : x w with
  | ok a w => exact bind_of_ok hx k
  | error e w => exact bind_of_error hx k

/-! Arguments lie on the operands in reverse. -/

lemma take_reverse {ds ops : List Datum} {count : Nat} (h : ds.length = count) :
    ((ds.reverse ++ ops).take count).reverse = ds := by
  rw [List.take_left' (by rw [List.length_reverse, h]), List.reverse_reverse]

lemma drop_reverse {ds ops : List Datum} {count : Nat} (h : ds.length = count) :
    (ds.reverse ++ ops).drop count = ops :=
  List.drop_left' (by rw [List.length_reverse, h])

lemma length_le {ds ops : List Datum} {count : Nat} (h : ds.length = count) : count ≤ (ds.reverse ++ ops).length := by
  rw [List.length_append, List.length_reverse, h]
  exact Nat.le_add_right _ _

section From

variable {h : Host} {least depth : Nat} {rest : List Frame} {w : World}

lemma From.weaken {frames : List Frame} {r : EStateM.Result Halt World Datum}
    (hr : From h (least + 1) frames depth w r) : From h least frames depth w r :=
  fun s hs hd hw => (hr s hs hd hw).weaken

lemma From.mono {frames : List Frame} {r : EStateM.Result Halt World Datum} {least' : Nat}
    (hr : From h least frames depth w r) (hle : least' ≤ least) : From h least' frames depth w r := by
  induction hle with
  | refl => exact hr
  | step _ ih => exact ih hr.weaken

variable (hq : h.Quiet) {g : Function} {id : Nat} (hg : h.program.functions[id]? = some g)

include hq hg

variable {pc : Nat} {locals : Array Datum} {ops : List Datum} {i : Instr} (hi : g.code[pc]? = some i)

include hi

lemma From.resume {f : Frame} {r : EStateM.Result Halt World Datum}
    (hexec : exec h ⟨id, pc + 1, locals, ops⟩ rest i = resume f rest)
    (hnext : From h least (f :: rest) depth w r) :
    From h (least + 1) (⟨id, pc, locals, ops⟩ :: rest) depth w r := by
  intro s hs hd hw
  have hstep := step_quiet hq hs hg hi
  rw [hexec] at hstep
  exact TurnsOut.earlier hstep (hnext _ rfl hd hw)

lemma From.pushing {op : Host → Run Datum} (hop : Agree op) {pc' : Nat} {locals' : Array Datum}
    {ops' : List Datum} {k : Datum → Eval Datum}
    (hexec : exec h ⟨id, pc + 1, locals, ops⟩ rest i = pushing ⟨id, pc', locals', ops'⟩ rest (op h))
    (hnext : ∀ d w, From h least (⟨id, pc', locals', d :: ops'⟩ :: rest) depth w (k d w)) :
    From h (least + 1) (⟨id, pc, locals, ops⟩ :: rest) depth w ((act op >>= k) w) := by
  intro s hs hd hw
  have hstep := step_quiet hq hs hg hi
  rw [hexec] at hstep
  have hacts := hop.acts hq (s := { s.tick with frames := ⟨id, pc', locals', ops'⟩ :: rest }) hw
  rw [bind_run]
  generalize act op w = r at hacts ⊢
  cases hacts with
  | ok d t ht hframes hdepth =>
    apply TurnsOut.earlier (hstep.trans (pushing_ok ht hframes))
    exact hnext d (worldOf t) _ rfl (hdepth.trans hd) rfl
  | fault f t ht => exact TurnsOut.fault (hstep.trans (pushing_error ht))

lemma From.storing {op : Host → Run Unit} (hop : Agree op) {f : Frame} {k : Unit → Eval Datum}
    (hexec : exec h ⟨id, pc + 1, locals, ops⟩ rest i = (do
      modify fun s => { s with frames := f :: rest }
      op h
      return none))
    (hnext : ∀ w, From h least (f :: rest) depth w (k () w)) :
    From h (least + 1) (⟨id, pc, locals, ops⟩ :: rest) depth w ((act op >>= k) w) := by
  intro s hs hd hw
  have hstep := step_quiet hq hs hg hi
  rw [hexec] at hstep
  have hacts := hop.acts hq (s := { s.tick with frames := f :: rest }) hw
  rw [bind_run]
  generalize act op w = r at hacts ⊢
  cases hacts with
  | ok _ t ht hframes hdepth =>
    apply TurnsOut.earlier (hstep.trans (bind_of_ok ht _))
    exact hnext (worldOf t) t hframes (hdepth.trans hd) rfl
  | fault f t ht => exact TurnsOut.fault (hstep.trans (bind_of_error ht _))

lemma From.truth {f : Frame} {d : Datum} {next : Bool → Frame} {k : Bool → Eval Datum}
    (hexec : exec h ⟨id, pc + 1, locals, ops⟩ rest i = whenBool h rest f d fun b => Machine.resume (next b) rest)
    (hnext : ∀ b, From h least (next b :: rest) depth w (k b w)) :
    From h (least + 1) (⟨id, pc, locals, ops⟩ :: rest) depth w ((truth d >>= k) w) := by
  intro s hs hd hw
  have hstep := step_quiet hq hs hg hi
  rw [hexec] at hstep
  by_cases hb : ∃ b, d = .bool b
  · obtain ⟨b, rfl⟩ := hb
    exact TurnsOut.earlier hstep (hnext b _ rfl hd hw)
  · have hwhen : whenBool h rest f d (fun b => Machine.resume (next b) rest) = (do
        modify fun s => { s with frames := f :: rest }
        notTruth h d) := by
      cases d with
      | bool b => exact (hb ⟨b, rfl⟩).elim
      | _ => rfl
    have htruth : Evaluation.truth d = act fun h => notTruth h d := by
      cases d with
      | bool b => exact (hb ⟨b, rfl⟩).elim
      | _ => rfl
    rw [hwhen] at hstep
    have hfault : step h s = .error ⟨.typeError, "expected bool, found " ++ d.typeName,
        trace h.program (f :: rest)⟩ { s.tick with frames := f :: rest } := hstep
    have hturns : TurnsOut (advance h · s) (least + 1) _ := TurnsOut.fault hfault
    rw [htruth, bind_run, ← hw]
    exact hturns

lemma step_call {callee : Nat} {args : List Datum} (hcall : i = .call callee args.length)
    (hs : s.frames = ⟨id, pc, locals, args.reverse ++ ops⟩ :: rest) :
    step h s = Machine.enter h callee args { s.tick with frames := ⟨id, pc + 1, locals, ops⟩ :: rest } := by
  subst hcall
  have hstep := step_quiet hq hs hg hi
  rw [exec_call _ _ _ _ _ _ (length_le rfl), take_reverse rfl, drop_reverse rfl] at hstep
  exact hstep

lemma From.enter {callee : Nat} {g' : Function} {args : List Datum} {r : EStateM.Result Halt World Datum}
    (hcall : i = .call callee args.length) (hdepth : ¬ h.callDepth ≤ depth)
    (hg' : h.program.functions[callee]? = some g')
    (hnext : From h least (frameOf g' callee args :: ⟨id, pc + 1, locals, ops⟩ :: rest) (depth + 1) w r) :
    From h (least + 1) (⟨id, pc, locals, args.reverse ++ ops⟩ :: rest) depth w r := by
  intro s hs hd hw
  have hstep := step_call hq hg hi hcall hs
  rw [enter_ok (s := { s.tick with frames := ⟨id, pc + 1, locals, ops⟩ :: rest }) (hd.symm ▸ hdepth) hg']
    at hstep
  exact TurnsOut.earlier hstep (hnext _ rfl (congrArg (· + 1) hd) hw)

lemma From.deep {callee : Nat} {args : List Datum} (hcall : i = .call callee args.length)
    (hdepth : h.callDepth ≤ depth) :
    From h least (⟨id, pc, locals, args.reverse ++ ops⟩ :: rest) depth w
      (.error (.fault .stackOverflow ("call depth exceeds " ++ toString h.callDepth)) w) := by
  intro s hs hd hw
  have hstep := step_call hq hg hi hcall hs
  rw [enter_deep (s := { s.tick with frames := ⟨id, pc + 1, locals, ops⟩ :: rest }) (hd.symm ▸ hdepth)]
    at hstep
  have hturns : TurnsOut (advance h · s) least _ := TurnsOut.fault hstep
  rw [← hw]
  exact hturns

lemma From.ret {d : Datum} {f : Frame} {r : EStateM.Result Halt World Datum} (hret : i = .ret)
    (hnext : From h least ({ f with operands := d :: f.operands } :: rest) depth w r) :
    From h (least + 1) (⟨id, pc, locals, d :: ops⟩ :: f :: rest) (depth + 1) w r := by
  subst hret
  intro s hs hd hw
  have hstep := step_quiet hq hs hg hi
  rw [exec_ret] at hstep
  exact TurnsOut.earlier hstep (hnext _ rfl (congrArg (· - 1) hd) hw)

lemma From.last {d : Datum} (hret : i = .ret) :
    From h least [⟨id, pc, locals, d :: ops⟩] depth w (.ok d w) := by
  subst hret
  intro s hs hd hw
  have hstep := step_quiet hq hs hg hi
  rw [exec_ret_last] at hstep
  have hturns : TurnsOut (advance h · s) least _ := TurnsOut.give hstep
  rw [← hw]
  exact hturns

end From

lemma From.repeated {h : Host} {depth : Nat} {head : Array Datum → List Frame}
    {vars : Array Datum → Variables} {inv : Array Datum → Prop}
    {round : Variables → Eval (Option Flow × Variables)} {k : Flow × Variables → Eval Datum}
    {most bound : Nat}
    (hround : ∀ locals w least (k' : Option Flow × Variables → Eval Datum), inv locals → least ≤ most →
      least + 1 ≤ bound →
      (∀ locals w, inv locals → From h least (head locals) depth w (k' (none, vars locals) w)) →
      (∀ flow vars, k' (some flow, vars) = k (flow, vars)) →
      From h (least + 1) (head locals) depth w ((round (vars locals) >>= k') w))
    (rounds : Nat) {locals : Array Datum} (hinv : inv locals) (w : World) {least : Nat}
    (hrounds : least ≤ rounds) (hmost : least ≤ most) (hbound : rounds ≤ bound) :
    From h least (head locals) depth w ((repeated round rounds (vars locals) >>= k) w) := by
  induction rounds generalizing locals w least with
  | zero =>
    obtain rfl := Nat.le_zero.mp hrounds
    exact fun s _ _ _ => ⟨s, rfl⟩
  | succ rounds ih =>
    simp only [Evaluation.repeated, bind_assoc]
    refine From.mono (?_ : From h (least - 1 + 1) _ _ _ _) (by omega)
    refine hround locals w (least - 1) _ hinv (by omega) (by omega) ?_ fun flow vars => ?_
    · intro locals w hinv
      exact ih hinv w (by omega) (by omega) (by omega)
    · simp only [pure_bind]

end ScriptHost.Evaluation
