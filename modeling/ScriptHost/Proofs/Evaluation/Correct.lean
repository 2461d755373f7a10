import ScriptHost.Proofs.Evaluation.Calls
import ScriptHost.Proofs.Compile.Safety
import ScriptHost.Proofs.Machine.Simulation

/-!
Compiled programs do what their trees mean.
-/

namespace ScriptHost

/-- How a call from outside ends: the value given out, or the kind and the message of a fault, and what the
streams hold. -/
structure Conclusion where
  result : Except (FaultKind × String) Value
  out : Captured
  err : Captured

namespace Machine

def conclusion? : EStateM.Result Fault State (Option Value) → Option Conclusion
  | .ok (some v) s => some ⟨.ok v, s.out.kept, s.err.kept⟩
  | .ok none _ => none
  | .error f s => some ⟨.error (f.kind, f.message), s.out.kept, s.err.kept⟩

end Machine

namespace Evaluation

open Machine

def conclusion? : EStateM.Result Halt World Value → Option Conclusion
  | .ok v w => some ⟨.ok v, w.out.kept, w.err.kept⟩
  | .error (.fault kind message) w => some ⟨.error (kind, message), w.out.kept, w.err.kept⟩
  | .error _ _ => none

section Outside

variable {h : Host} {s t : State}

lemma proceed_none {n : Nat} (hs : advance h n s = .ok none t) : proceed h n s = .ok none t :=
  bind_of_ok hs _

lemma proceed_error {n : Nat} {f : Fault} (hs : advance h n s = .error f t) :
    proceed h n s = .error f t :=
  bind_of_error hs _

lemma proceed_some {n : Nat} {d : Datum} (hs : advance h n s = .ok (some d) t) :
    proceed h n s = (giveOut h renderDepth d >>= fun v => pure (some v)) t :=
  bind_of_ok hs _

lemma proceed_ended {n n' : Nat} (hle : n ≤ n') (hs : ∀ t, proceed h n s ≠ .ok none t) :
    proceed h n' s = proceed h n s := by
  have hadvance : advance h n' s = advance h n s := by
    exact advance_ended hle fun t ht => hs t (proceed_none ht)
  rw [proceed, proceed]
  cases hx : advance h n s with
  | ok r t => rw [bind_of_ok hx, bind_of_ok (hadvance.trans hx)]
  | error f t => rw [bind_of_error hx, bind_of_error (hadvance.trans hx)]

lemma call_error {id : Nat} {args : List Value} {f : Fault} (hs : takeInAll h #[] args s = .error f t) :
    call h id args s = .error f t :=
  bind_of_error hs _

lemma call_ok {id : Nat} {args : List Value} {ds : Array Datum} (hs : takeInAll h #[] args s = .ok ds t) :
    call h id args s = (enter h id ds.toList >>= fun _ => pure ()) t :=
  bind_of_ok hs _

lemma started_error {id n : Nat} {args : List Value} {f : Fault} (hs : call h id args s = .error f t) :
    started h id args n s = .error f t :=
  bind_of_error hs _

lemma started_ok {id n : Nat} {args : List Value} (hs : call h id args s = .ok () t) :
    started h id args n s = proceed h n t :=
  bind_of_ok hs _

lemma started_ended {id : Nat} {args : List Value} {n n' : Nat} (hle : n ≤ n')
    (hs : ∀ t, started h id args n s ≠ .ok none t) :
    started h id args n' s = started h id args n s := by
  cases hx : call h id args s with
  | error f t => rw [started_error hx, started_error hx]
  | ok a t =>
    rw [started_ok hx] at hs ⊢
    rw [started_ok hx]
    exact proceed_ended hle hs

lemma conclusion_unique {id : Nat} {args : List Value} {n n' : Nat} {e e' : Conclusion}
    (he : Machine.conclusion? (started h id args n s) = some e)
    (he' : Machine.conclusion? (started h id args n' s) = some e') : e = e' := by
  have hover : ∀ m a, Machine.conclusion? (started h id args m s) = some a →
      ∀ t, started h id args m s ≠ .ok none t := by
    intro m a ha t ht
    rw [ht] at ha
    cases ha
  rcases Nat.le_total n n' with hle | hle
  · rw [started_ended hle (hover n e he), he] at he'
    exact Option.some.inj he'
  · rw [started_ended hle (hover n' e' he'), he'] at he
    exact (Option.some.inj he).symm

variable {least : Nat}

lemma proceed_turnsOut (hq : h.Quiet) {x : Eval Datum} {w : World}
    (hx : TurnsOut (advance h · s) least (x w)) :
    TurnsOut (proceed h · s) least ((x >>= fun d => act fun h => giveOut h renderDepth d) w) := by
  rw [bind_run]
  generalize x w = r at hx ⊢
  cases r with
  | ok d w =>
    obtain ⟨n, t, hn, hw⟩ := hx
    have hn := proceed_some hn
    have hacts := (giveOut_agree renderDepth d).acts hq hw
    dsimp only
    generalize act (fun h => giveOut h renderDepth d) w = r at hacts ⊢
    cases hacts with
    | ok v u hv => exact ⟨n, u, hn.trans (bind_of_ok hv _), rfl⟩
    | fault f u hf => exact ⟨n, f, u, hn.trans (bind_of_error hf _), rfl, rfl, rfl⟩
  | error halt w =>
    cases halt with
    | fault kind message =>
      obtain ⟨n, f, t, hn, hf⟩ := hx
      exact ⟨n, f, t, proceed_error hn, hf⟩
    | exhausted =>
      obtain ⟨t, ht⟩ := hx
      exact ⟨t, proceed_none ht⟩
    | stuck => exact hx

lemma length_takeInAll {args : List Value} {limit : Nat} {ds : Array Datum}
    (hs : takeInAll h #[] args (.start limit) = .ok ds t) : ds.toList.length = args.length := by
  have htame := (takeInAll_tame h (.start limit) #[] args).ok hs
  obtain ⟨-, -, hsize⟩ := htame.2 (fun items hi => (Array.not_mem_empty _ hi).elim) (by simp)
  rw [Array.length_toList, hsize, Array.size_empty, Nat.zero_add]

section Entry

variable {known : Catalog} (hc : Compiler.Compiled known h.program) (hq : h.Quiet) {name : String} {id : Nat}
  {d : Definition} (hf : known.find? name = some (id, d)) (rounds : Nat)

include hc hq hf

lemma enter_turnsOut {args : List Datum} (ha : args.length = d.decl.arity) (hframes : s.frames = [])
    (hdepth : s.depth = 0) :
    match enter h id args s with
    | .ok _ t => TurnsOut (advance h · t) rounds
        (apply known h.callDepth rounds h.callDepth name args (worldOf s))
    | .error f t => apply known h.callDepth rounds h.callDepth name args (worldOf s) =
        .error (.fault f.kind f.message) (worldOf t) := by
  have hfound := hc.find? hf
  by_cases hroom : h.callDepth ≤ s.depth
  · have hzero : h.callDepth = 0 := by omega
    rw [enter_deep hroom, hzero]
    rfl
  · rw [enter_ok hroom hfound]
    dsimp only
    let σ : Site :=
      { host := h
        quiet := hq
        id := id
        function := Emit.function (Compiler.context known) d
        found := hfound
        size := (Emit.function (Compiler.context known) d).locals
        rest := []
        depth := 1
        rounds := rounds }
    obtain ⟨left, hleft⟩ : ∃ left, h.callDepth = left + 1 := ⟨h.callDepth - 1, by omega⟩
    have hd := hc.ready d (List.mem_of_getElem? (Catalog.find?_some hf).1)
    have hsum : σ.depth + left = σ.host.callDepth := by
      change 1 + left = h.callDepth
      omega
    have hanswers := Site.answers (σ := σ) hc hsum
    have hbody := Site.body_from (σ := σ) (w := worldOf s) (k := pure) hc hanswers hd rfl rfl ha
      (Nat.le_refl _) fun e pc locals w hret => From.last hq hfound hret rfl
    rw [bind_pure] at hbody
    have happly : apply known h.callDepth rounds h.callDepth name args =
        body (apply known h.callDepth rounds left) rounds d.decl args := by
      conv_lhs => rw [hleft]
      simp only [apply, hf, hleft]
    rw [happly]
    refine hbody _ ?_ (congrArg (· + 1) hdepth) rfl
    rw [hframes]
    rfl

lemma run_turnsOut {args : List Value} (ha : args.length = d.decl.arity) (limit : Nat) :
    TurnsOut (started h id args · (.start limit)) rounds
      (run known h.callDepth rounds name args (World.start limit)) := by
  have hacts : Acts (takeInAll h #[] args) (.start limit) (act (fun h => takeInAll h #[] args) (World.start limit)) :=
    (takeInAll_agree #[] args).acts hq rfl
  change TurnsOut _ _ ((act (fun h => takeInAll h #[] args) >>= _) (World.start limit))
  rw [bind_run]
  generalize act (fun h => takeInAll h #[] args) (World.start limit) = r at hacts ⊢
  cases hacts with
  | fault f t ht => exact ⟨0, f, t, started_error (call_error ht), rfl, rfl, rfl⟩
  | ok ds t ht hframes hdepth =>
    have henter := enter_turnsOut hc hq hf rounds ((length_takeInAll ht).trans ha) hframes hdepth
    dsimp only
    cases hx : enter h id ds.toList t with
    | error f u =>
      rw [hx] at henter
      have hcall := (call_ok ht).trans (bind_of_error hx _)
      rw [bind_run, show apply known h.callDepth rounds h.callDepth name ds.toList (worldOf t) = _ from henter]
      exact ⟨0, f, u, started_error hcall, rfl, rfl, rfl⟩
    | ok r u =>
      rw [hx] at henter
      have hcall : call h id args (.start limit) = .ok () u := (call_ok ht).trans (bind_of_ok hx _)
      have hproceed : (started h id args · (.start limit)) = (proceed h · u) := by
        funext n
        exact started_ok hcall
      rw [hproceed]
      exact proceed_turnsOut hq henter

lemma conclusion_iff {args : List Value} (ha : args.length = d.decl.arity) (limit : Nat) (e : Conclusion) :
    (∃ steps, Machine.conclusion? (started h id args steps (.start limit)) = some e) ↔
      ∃ rounds, conclusion? (run known h.callDepth rounds name args (World.start limit)) = some e := by
  -- An evaluation in too few rounds means a run that is not over after as many steps. So a run that is over in some
  -- steps has an evaluation that ends, and that one has a run with the same end, which is the only one.
  have hmachine : ∀ rounds a, conclusion? (run known h.callDepth rounds name args (World.start limit)) = some a →
      ∃ steps, Machine.conclusion? (started h id args steps (.start limit)) = some a := by
    intro rounds a ha'
    have hturns := run_turnsOut hc hq hf rounds ha limit
    cases hx : run known h.callDepth rounds name args (World.start limit) with
    | ok v w =>
      rw [hx] at hturns ha'
      obtain ⟨n, t, hn, rfl⟩ := hturns
      exact ⟨n, (congrArg Machine.conclusion? hn).trans ha'⟩
    | error halt w =>
      rw [hx] at hturns ha'
      cases halt with
      | fault kind message =>
        obtain ⟨n, f, t, hn, rfl, rfl, rfl⟩ := hturns
        exact ⟨n, (congrArg Machine.conclusion? hn).trans ha'⟩
      | exhausted => cases ha'
      | stuck => cases ha'
  constructor
  · rintro ⟨steps, he⟩
    have hturns := run_turnsOut hc hq hf steps ha limit
    have hover : ∃ a, conclusion? (run known h.callDepth steps name args (World.start limit)) = some a := by
      cases hx : run known h.callDepth steps name args (World.start limit) with
      | ok v w => exact ⟨_, rfl⟩
      | error halt w =>
        rw [hx] at hturns
        cases halt with
        | fault kind message => exact ⟨_, rfl⟩
        | exhausted =>
          obtain ⟨t, ht⟩ := hturns
          have he := he.symm.trans (congrArg Machine.conclusion? ht)
          cases he
        | stuck => exact hturns.elim
    obtain ⟨a, ha'⟩ := hover
    obtain ⟨n, hn⟩ := hmachine steps a ha'
    rw [conclusion_unique he hn]
    exact ⟨steps, ha'⟩
  · rintro ⟨rounds, he⟩
    exact hmachine rounds e he

end Entry

end Outside

end Evaluation

namespace Compiler

/-- The code of a compiled submission does what its trees mean. Whichever function of the entry unit is called, on
whatever arguments it takes and under whatever limits on calls and output, an ending of the run is an ending of the
evaluation, and the other way round. -/
theorem compiled_runs_evaluate {limits : CompilerLimits} {session : Nat} {units : List SourceUnit}
    {p : Program} (hc : compile limits session units = .ok p) {d : Definition}
    (hd : d ∈ (source units).definitions) (hu : d.unit = p.entryUnit) {args : List Value}
    (ha : args.length = d.decl.arity) :
    ∃ id, p.entryPoint? d.decl.name args.length = some id ∧
      ∀ (callDepth outputLimit : Nat) (e : Conclusion),
        (∃ steps, Machine.conclusion? (Machine.started ⟨p, callDepth, none, fun _ => false⟩ id args steps
          (.start outputLimit)) = some e) ↔
        ∃ rounds, Evaluation.conclusion? (Evaluation.run (source units) callDepth rounds d.decl.name args
          (Evaluation.World.start outputLimit)) = some e := by
  obtain ⟨hcompiled, -⟩ := compile_ok hc
  obtain ⟨id, hf, hid⟩ := hcompiled.entryPoint? hd hu
  refine ⟨id, ha ▸ hid, fun callDepth outputLimit e => ?_⟩
  exact Evaluation.conclusion_iff (h := ⟨p, callDepth, none, fun _ => false⟩) hcompiled ⟨rfl, rfl⟩ hf ha
    outputLimit e

def gives (v : Int64) : Option Conclusion → Bool
  | some ⟨.ok (.int v'), _, _⟩ => v' == v
  | _ => false

lemma exists_given {v : Int64} {r : Option Conclusion} (h : gives v r = true) :
    ∃ e, r = some e ∧ e.result = .ok (.int v) := by
  unfold gives at h
  split at h
  · obtain rfl := beq_iff_eq.mp h
    exact ⟨_, rfl, rfl⟩
  · cases h

theorem compiled_runs_evaluate_summing :
    ∃ p id e, compile {} 0 summing = .ok p ∧ p.entryPoint? "main" 0 = some id ∧ e.result = .ok (.int 3) ∧
      ∃ steps, Machine.conclusion? (Machine.started ⟨p, 8, none, fun _ => false⟩ id [] steps (.start 64)) =
        some e := by
  obtain ⟨p, hp, -⟩ := exists_entry summing_enters
  have hmain : ((source summing).definitions[1]?).map (fun d => (d.unit, d.decl.name, d.decl.arity)) =
      some ("m", "main", 0) := by decide +kernel
  obtain ⟨d, hd, heq⟩ := Option.map_eq_some_iff.mp hmain
  obtain ⟨hunit, hname, harity⟩ : d.unit = "m" ∧ d.decl.name = "main" ∧ d.decl.arity = 0 := by simpa using heq
  have hentry : d.unit = p.entryUnit := by
    obtain ⟨-, entry, hentry, hu⟩ := compile_ok hp
    cases hentry
    rw [hunit, hu]
  have hnone : ([] : List Value).length = d.decl.arity := harity.symm
  obtain ⟨id, hid, hruns⟩ := compiled_runs_evaluate hp (List.mem_of_getElem? hd) hentry hnone
  have hgiven : gives 3 (Evaluation.conclusion? (Evaluation.run (source summing) 8 10 "main" []
      (Evaluation.World.start 64))) = true := by decide +kernel
  obtain ⟨e, he, hresult⟩ := exists_given hgiven
  rw [hname] at hid hruns
  exact ⟨p, id, e, hp, hid, hresult, (hruns 8 64 e).mpr ⟨10, he⟩⟩

end Compiler

end ScriptHost
