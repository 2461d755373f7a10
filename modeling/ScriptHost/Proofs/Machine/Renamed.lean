import ScriptHost.Proofs.Machine.Simulation

/-!
Programs whose functions hold the same code under other numbers. A run of the one ends as the same run of the other
does, but for how its trace reads.
-/

namespace ScriptHost

inductive Outcome.Alike (entries : String → String → Prop) : Outcome → Outcome → Prop
  | success (value : Value) (out err : Captured) :
    Outcome.Alike entries (.success value out err) (.success value out err)
  | fault (kind : FaultKind) (message : String) {trace trace' : List String} (out err : Captured) :
    List.Forall₂ entries trace trace' →
    Outcome.Alike entries (.fault ⟨kind, message, trace⟩ out err) (.fault ⟨kind, message, trace'⟩ out err)
  | timeout (out err : Captured) : Outcome.Alike entries (.timeout out err) (.timeout out err)
  | interrupted (out err : Captured) : Outcome.Alike entries (.interrupted out err) (.interrupted out err)

lemma Outcome.Alike.eq {o o' : Outcome} (h : o.Alike Eq o') : o = o' := by
  cases h with
  | fault kind message out err htrace =>
    rw [List.forall₂_eq_eq_eq] at htrace
    rw [htrace]
  | _ => rfl

/-- The functions of one program that stand for those of another have the same code, and calls of them read alike in a
trace. -/
structure Program.Renamed (functions : Nat → Nat → Prop) (entries : String → String → Prop) (p p' : Program) :
    Prop where
  code {id id' : Nat} : functions id id' →
    Option.Rel (Function.Alike functions (p.SameString p')) p.functions[id]? p'.functions[id']?
  entries {f f' : Frame} : functions f.function f'.function → f.pc = f'.pc →
    entries (Machine.traceEntry p f) (Machine.traceEntry p' f')

namespace Machine

variable {functions : Nat → Nat → Prop} {entries : String → String → Prop}

def renamed (functions : Nat → Nat → Prop) (entries : String → String → Prop) : Pairing where
  functions := functions
  values _ := True
  memory _ _ := True
  faults f f' := f.kind = f'.kind ∧ f.message = f'.message ∧ List.Forall₂ entries f.trace f'.trace
  cut _ := False

section Joins

variable {p p' : Program} (hp : p.Renamed functions entries p')

include hp

lemma renamed_trace {frames frames' : List Frame}
    (h : List.Forall₂ (renamed functions entries).Frames frames frames') :
    List.Forall₂ entries (trace p frames) (trace p' frames') := by
  refine List.rel_map ?_ h
  rintro _ _ ⟨hid, -, -⟩
  exact hp.entries hid rfl

lemma renamed_joins (callDepth : Nat) (ceiling : Option Nat) (raised : Nat → Bool) :
    (renamed functions entries).Joins ⟨p, callDepth, ceiling, raised⟩ ⟨p', callDepth, ceiling, raised⟩ where
  keeps := by constructor <;> intros <;> trivial
  raised := rfl
  limits := .inl ⟨rfl, rfl⟩
  faults _ _ _ _ hframes := ⟨rfl, rfl, renamed_trace hp hframes⟩
  functions := hp.code

end Joins

lemma renamed_ends {α : Type} {Q : α → Prop} {r r' : EStateM.Result Fault State α}
    (h : (renamed functions entries).coupling.Ends Q r r') :
    (∃ a s s', r = .ok a s ∧ r' = .ok a s' ∧ (renamed functions entries).Beside s s') ∨
    ∃ f f' s s', r = .error f s ∧ r' = .error f' s' ∧ (renamed functions entries).faults f f' ∧
      (renamed functions entries).Beside s s' := by
  cases r with
  | ok a s =>
    cases r' with
    | ok a' s' =>
      obtain ⟨rfl, -, hs⟩ := h
      exact .inl ⟨a, s, s', rfl, rfl, hs.1⟩
    | error => exact h.elim
  | error f s =>
    cases r' with
    | ok => exact h.elim
    | error f' s' =>
      obtain ⟨hf, hs⟩ := h.resolve_left id
      exact .inr ⟨f, f', s, s', rfl, rfl, hf, hs⟩

end Machine

namespace Execution

open Machine (renamed renamed_ends renamed_joins)

variable {functions : Nat → Nat → Prop} {entries : String → String → Prop} {x : Execution} {p' : Program}
  {s s' : Machine.State}

lemma stop_alike (h : (renamed functions entries).Beside s s') :
    (x.stop s).Alike entries (stop { x with program := p' } s') := by
  obtain ⟨-⟩ := h
  rw [stop, stop]
  split
  · exact .interrupted _ _
  · exact .timeout _ _

lemma fail_alike {f f' : Fault} (hf : (renamed functions entries).faults f f')
    (h : (renamed functions entries).Beside s s') :
    (x.fail f s).Alike entries (fail { x with program := p' } f' s') := by
  obtain ⟨kind, message, trace⟩ := f
  obtain ⟨kind', message', trace'⟩ := f'
  obtain ⟨hkind, hmessage, htrace⟩ := hf
  dsimp only at hkind hmessage htrace
  subst hkind hmessage
  rw [fail, fail]
  dsimp only
  split
  · exact stop_alike h
  · obtain ⟨-⟩ := h
    exact .fault _ _ _ _ htrace

inductive Progress.Alike (functions : Nat → Nat → Prop) (entries : String → String → Prop) :
    Progress → Progress → Prop
  | ended {o o' : Outcome} : o.Alike entries o' → Progress.Alike functions entries (.ended o) (.ended o')
  | running {s s' : Machine.State} : (renamed functions entries).Beside s s' →
    Progress.Alike functions entries (.running s) (.running s')

variable (hp : x.program.Renamed functions entries p') (limits : SandboxLimits)

include hp

lemma host_joins : (renamed functions entries).Joins (x.host limits) (host { x with program := p' } limits) :=
  renamed_joins hp limits.callDepth x.memoryCeiling (x.limit ≤ ·)

lemma launch_alike (hunit : p'.entryUnit = x.program.entryUnit)
    (hentry : Option.Rel functions (x.program.entryPoint? x.entry x.arguments.length)
      (p'.entryPoint? x.entry x.arguments.length)) :
    Progress.Alike functions entries (x.launch limits).1 (launch { x with program := p' } limits).1 ∧
      (x.launch limits).2 = (launch { x with program := p' } limits).2 := by
  rw [launch, launch]
  dsimp only
  generalize x.program.entryPoint? x.entry x.arguments.length = id at hentry ⊢
  generalize p'.entryPoint? x.entry x.arguments.length = id' at hentry ⊢
  cases hentry with
  | none =>
    have hfault : missingEntry { x with program := p' } = x.missingEntry := by
      rw [missingEntry, missingEntry, hunit]
    exact ⟨.ended (hfault ▸ .fault _ _ _ _ .nil), rfl⟩
  | @some id id' hid =>
    dsimp only
    by_cases hdeadline : x.deadlineMs = 0
    · rw [if_pos hdeadline, if_pos hdeadline]
      exact ⟨.ended (.timeout _ _), rfl⟩
    · rw [if_neg hdeadline, if_neg hdeadline]
      have hstart : (renamed functions entries).coupling.states (.start limits.outputBytes)
          (.start limits.outputBytes) := ⟨.mk .nil, trivial⟩
      have hcall := (host_joins hp limits).call hid x.arguments _ _ hstart
      rw [EStateM.run, EStateM.run]
      rcases renamed_ends hcall with ⟨_, s, s', hs, hs', hbeside⟩ | ⟨f, f', s, s', hs, hs', hf, hbeside⟩
      · rw [hs, hs']
        exact ⟨.running hbeside, rfl⟩
      · rw [hs, hs']
        exact ⟨.ended (fail_alike hf hbeside), rfl⟩

lemma proceed_alike (steps : Nat) (hs : (renamed functions entries).Beside s s') :
    Progress.Alike functions entries (x.proceed limits steps s) (proceed { x with program := p' } limits steps s') := by
  have hproceed := (host_joins hp limits).proceed steps s s' ⟨hs, trivial⟩
  rw [proceed, proceed, EStateM.run, EStateM.run]
  rcases renamed_ends hproceed with ⟨v, t, t', ht, ht', hbeside⟩ | ⟨f, f', t, t', ht, ht', hf, hbeside⟩
  · rw [ht, ht']
    cases v with
    | none => exact .running hbeside
    | some v =>
      obtain ⟨-⟩ := hbeside
      exact .ended (.success _ _ _)
  · rw [ht, ht']
    exact .ended (fail_alike hf hbeside)

theorem run_alike (hunit : p'.entryUnit = x.program.entryUnit)
    (hentry : Option.Rel functions (x.program.entryPoint? x.entry x.arguments.length)
      (p'.entryPoint? x.entry x.arguments.length)) :
    (x.run limits).1.Alike entries (run { x with program := p' } limits).1 ∧
      (x.run limits).2 = (run { x with program := p' } limits).2 := by
  obtain ⟨hlaunch, hlaunched⟩ := launch_alike hp limits hunit hentry
  rw [run, run]
  generalize x.launch limits = r at hlaunch hlaunched ⊢
  generalize launch { x with program := p' } limits = r' at hlaunch hlaunched ⊢
  obtain ⟨progress, launched⟩ := r
  obtain ⟨progress', launched'⟩ := r'
  dsimp only at hlaunch hlaunched ⊢
  cases hlaunch with
  | ended ho => exact ⟨ho, hlaunched⟩
  | @running s s' hs =>
    have hproceed := proceed_alike hp limits (x.limit + pollInterval) hs
    have hlimit : limit { x with program := p' } = x.limit := rfl
    dsimp only
    rw [hlimit]
    generalize x.proceed limits (x.limit + pollInterval) s = q at hproceed ⊢
    generalize proceed { x with program := p' } limits (x.limit + pollInterval) s' = q' at hproceed ⊢
    cases hproceed with
    | ended ho => exact ⟨ho, hlaunched⟩
    | running ht => exact ⟨stop_alike ht, hlaunched⟩

end Execution

end ScriptHost
