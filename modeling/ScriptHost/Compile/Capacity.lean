import ScriptHost.Bytecode.Program

/-!
What a compilation can hold. Going past a limit is no defect of the source.
-/

namespace ScriptHost

structure CompilerLimits where
  sourceBytes : Nat := 1024 * 1024
  functionInstructions : Nat := 1024 * 1024
deriving DecidableEq, Repr

inductive Shortage where
  | sourceSize (size limit : Nat)
  | localVariables
  | instructions (limit : Nat)
  | parameters (function : String)
  | locals (function : String)
  | stalled (reason : String)
deriving DecidableEq, Repr

namespace Shortage

def message : Shortage → String
  | sourceSize size limit =>
    "source size " ++ toString size ++ " exceeds the compiler capacity of " ++ toString limit
      ++ " bytes"
  | localVariables => "too many local variables"
  | instructions limit => "function exceeds " ++ toString limit ++ " instructions"
  | parameters function => "function '" ++ function ++ "' has too many parameters"
  | locals function => "function '" ++ function ++ "' has too many locals"
  | stalled reason => reason

end Shortage

namespace Capacity

def slotCount : Nat := 65536

def frameLimit : Nat := 65535

def storesBeyond : Instr → Bool
  | .store s => slotCount ≤ s
  | _ => false

/-- The first shortage of a function, given the number of its distinct parameters. A slot that
cannot be addressed counts before the instruction that would use it. -/
def shortage? (limit params : Nat) (f : Function) : Option Shortage :=
  let tooFar := slotCount < params || (f.code.findIdx? storesBeyond).any (· ≤ limit)
  if tooFar then some .localVariables
  else if limit < f.code.size then some (.instructions limit)
  else if frameLimit < f.arity then some (.parameters f.name)
  else if frameLimit < f.locals then some (.locals f.name)
  else none

end Capacity

end ScriptHost
