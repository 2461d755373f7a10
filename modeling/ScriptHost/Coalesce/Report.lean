import ScriptHost.Coalesce.Source
import ScriptHost.Compile.Compiler

/-!
Coalesced sources and what the compiler makes of them.
-/

namespace ScriptHost.Coalesce

structure Report where
  source : String
  compiles : Bool
  diagnostics : List Diagnostic
deriving DecidableEq, Repr

/-- Compilations outside any session go by this id; those of sessions count from one. -/
def session : Nat := 0

def examine (limits : CompilerLimits) (name source : String) : Except CompileError Report :=
  match Compiler.compile limits session [⟨name, source, true⟩] with
  | .ok program => .ok ⟨source, true, program.warnings⟩
  | .error (.failure ds) => .ok ⟨source, false, ds⟩
  | .error e => .error e

/-- Coalesces units and checks that the result compiles on its own. -/
def report (limits : CompilerLimits) (stamp : String) (units : List SourceUnit) :
    Except CompileError Report :=
  match SourceUnit.entryOf units, source stamp units with
  | .ok entry, .ok text => examine limits entry.name text
  | .error e, _ => .error (.invalid e)
  | _, .error e => .error (.invalid e)

end ScriptHost.Coalesce
