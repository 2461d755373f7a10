import ScriptHost.Compile.Catalog
import ScriptHost.Machine.Exchange
import ScriptHost.Machine.Step
import ScriptHost.Sandbox.Outcome

/-!
Runs of a program under limits. A run ends by itself, or the signal that its time is up stops it at
the next look; time is counted on the clock of the machine. A run can be left and taken up again.
-/

namespace ScriptHost

def ticksPerMilli : Nat := 5000

structure Execution where
  program : Program
  entry : String := Catalog.entryName
  arguments : List Value := []
  deadlineMs : Nat
  memoryCeiling : Option Nat := none
  cancelled : Bool := false

inductive Progress where
  | ended (outcome : Outcome)
  | running (state : Machine.State)

namespace Machine

def call (h : Host) (id : Nat) (arguments : List Value) : Run Unit := do
  let args ← takeInAll h #[] arguments
  let _ ← enter h id args.toList

def advance (h : Host) : Nat → Run (Option Datum)
  | 0 => return none
  | steps + 1 => do
    match ← step h with
    | some d => return some d
    | none => advance h steps

def proceed (h : Host) (steps : Nat) : Run (Option Value) := do
  match ← advance h steps with
  | some d => return some (← giveOut h renderDepth d)
  | none => return none

def invoke (h : Host) (id : Nat) (arguments : List Value) (steps : Nat) : Run Value := do
  call h id arguments
  match ← proceed h steps with
  | some v => return v
  | none => interrupted h

end Machine

namespace Execution

def missingEntry (x : Execution) : Fault :=
  { kind := .noSuchFunction
    message := "entry unit '" ++ x.program.entryUnit ++ "' has no function '" ++ x.entry
      ++ "' taking " ++ toString x.arguments.length ++ " argument(s)" }

def limit (x : Execution) : Nat :=
  if x.cancelled then 0 else x.deadlineMs * ticksPerMilli

def host (x : Execution) (limits : SandboxLimits) : Host :=
  ⟨x.program, limits.callDepth, x.memoryCeiling, (x.limit ≤ ·)⟩

def stop (x : Execution) (s : Machine.State) : Outcome :=
  if x.cancelled then .interrupted s.out.kept s.err.kept else .timeout s.out.kept s.err.kept

def fail (x : Execution) (f : Fault) (s : Machine.State) : Outcome :=
  if f.kind = .interrupted then x.stop s else .fault f s.out.kept s.err.kept

def launch (x : Execution) (limits : SandboxLimits) : Progress × Bool :=
  match x.program.entryPoint? x.entry x.arguments.length with
  | none => (.ended (.fault x.missingEntry {} {}), false)
  | some id =>
    if x.deadlineMs = 0 then (.ended (.timeout {} {}), false)
    else
      match (Machine.call (x.host limits) id x.arguments).run (.start limits.outputBytes) with
      | .ok () s => (.running s, true)
      | .error f s => (.ended (x.fail f s), true)

def proceed (x : Execution) (limits : SandboxLimits) (steps : Nat) (s : Machine.State) : Progress :=
  match (Machine.proceed (x.host limits) steps).run s with
  | .ok (some v) s => .ended (.success v s.out.kept s.err.kept)
  | .ok none s => .running s
  | .error f s => .ended (x.fail f s)

def run (x : Execution) (limits : SandboxLimits) : Outcome × Bool :=
  match x.launch limits with
  | (.ended o, launched) => (o, launched)
  | (.running s, launched) =>
    match x.proceed limits (x.limit + pollInterval) s with
    | .ended o => (o, launched)
    | .running s => (x.stop s, launched)

end Execution

end ScriptHost
