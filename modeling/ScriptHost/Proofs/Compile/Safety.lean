import ScriptHost.Proofs.Compile.Levels
import ScriptHost.Proofs.Machine.Safety

/-!
Programs that come out of a compilation never break the machine.
-/

namespace ScriptHost.Compiler

lemma entryPoint?_some {p : Program} {name : String} {argc id : Nat}
    (h : p.entryPoint? name argc = some id) : ∃ g, p.functions[id]? = some g ∧ g.arity = argc := by
  rw [Program.entryPoint?] at h
  obtain ⟨i, -, h⟩ := Option.bind_eq_some_iff.mp h
  obtain ⟨g, hg, h⟩ := Option.bind_eq_some_iff.mp h
  split at h
  · next ha =>
    cases h
    exact ⟨g, hg, beq_iff_eq.mp (Bool.and_eq_true_iff.mp ha).2⟩
  · cases h

/-- Whatever a submission is, if it compiles, then every function has one number of operands at each
instruction and jumps only inside its code, and under any limits no run of it, however long, ends with a fault
of the machine or comes to an instruction that reaches for what is not there. -/
theorem compiled_runs_are_safe {limits : CompilerLimits} {session : Nat} {units : List SourceUnit}
    {p : Program} (hc : compile limits session units = .ok p) :
    (∀ (id : Nat) (g : Function), p.functions[id]? = some g → ∃ H, g.Heights p H) ∧
    ∀ (name : String) (args : List Value) (id : Nat), p.entryPoint? name args.length = some id →
      ∀ (h : Host), h.program = p → ∀ outputLimit steps : Nat,
        (∃ g, p.functions[id]? = some g ∧ g.arity = args.length) ∧
        Machine.Yields (do Machine.call h id args; Machine.advance h steps) (.start outputLimit)
          (fun r s => match r with
            | none => Machine.State.InBounds p s
            | some d => Machine.Sound d s)
          (fun f _ => f.kind ≠ .internalError) ∧
        Machine.Yields (Machine.invoke h id args steps) (.start outputLimit) (fun _ _ => True)
          (fun f _ => f.kind ≠ .internalError) := by
  have hall := fun (id : Nat) (g : Function) (hg : p.functions[id]? = some g) =>
    Emit.function_heights (compile_ok hc).1 hg
  refine ⟨hall, fun name args id hid h hh outputLimit steps => ?_⟩
  obtain ⟨g, hg, ha⟩ := entryPoint?_some hid
  refine ⟨⟨g, hg, ha⟩, ?_, Machine.invoke_yields hh hall hg args outputLimit steps⟩
  rw [Machine.yields_bind]
  refine (Machine.call_yields hh hall hg args outputLimit).mono ?_ fun _ _ hf => hf
  intro _ t ht
  refine (Machine.advance_yields hh hall steps ht).mono ?_ fun _ _ hf => hf
  intro r u hu
  cases r with
  | none => exact hu.inBounds
  | some d => exact hu

def summing : List SourceUnit :=
  [{ name := "m"
     text := "fn sum(xs) { let n = 0; for i in 0..len(xs) { if xs[i] < 0 { break; } n = n + xs[i]; } return n; }"
       ++ "fn main() { return sum([1, 2, -3]); }"
     isEntry := true }]

def enters (name : String) (argc id : Nat) : Except CompileError Program → Bool
  | .ok p => p.entryPoint? name argc == some id
  | .error _ => false

lemma exists_entry {r : Except CompileError Program} {name : String} {argc id : Nat}
    (h : enters name argc id r = true) : ∃ p, r = .ok p ∧ p.entryPoint? name argc = some id := by
  cases r with
  | error => cases h
  | ok p => exact ⟨p, rfl, beq_iff_eq.mp h⟩

lemma summing_enters : enters "main" 0 1 (compile {} 0 summing) = true := by
  decide +kernel

theorem compiled_runs_are_safe_summing :
    ∃ p, compile {} 0 summing = .ok p ∧ p.entryPoint? "main" 0 = some 1 ∧
      (∀ (id : Nat) (g : Function), p.functions[id]? = some g → ∃ H, g.Heights p H) ∧
      Machine.Yields (Machine.invoke ⟨p, 8, some 4096, fun _ => false⟩ 1 [] 1000) (.start 64)
        (fun _ _ => True) (fun f _ => f.kind ≠ .internalError) := by
  obtain ⟨p, hp, hid⟩ := exists_entry summing_enters
  obtain ⟨hheights, hruns⟩ := compiled_runs_are_safe hp
  obtain ⟨-, -, hinvoke⟩ := hruns "main" [] 1 hid ⟨p, 8, some 4096, fun _ => false⟩ rfl 64 1000
  exact ⟨p, hp, hid, hheights, hinvoke⟩

end ScriptHost.Compiler
