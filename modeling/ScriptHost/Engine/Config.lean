import ScriptHost.Compile.Capacity
import ScriptHost.Sandbox.Outcome

/-! How an engine is set up. -/

namespace ScriptHost

structure EngineConfig where
  slots : Nat := 4
  /-- How many sessions may wait; any number if there is none. -/
  queueCapacity : Option Nat := none
  defaultDeadlineMs : Nat := 5000
  memoryCeiling : Option Nat := some (64 * 1024 * 1024)
  maxOutputBytes : Nat := 64 * 1024
  maxCallDepth : Nat := 1024
  retainedSessions : Nat := 1024
  maxSourceBytes : Nat := 1024 * 1024
deriving DecidableEq, Repr, Inhabited

namespace EngineConfig

def compilerLimits (c : EngineConfig) : CompilerLimits :=
  { sourceBytes := c.maxSourceBytes }

def sandboxLimits (c : EngineConfig) : SandboxLimits :=
  { outputBytes := c.maxOutputBytes, callDepth := c.maxCallDepth }

def workerCount (c : EngineConfig) : Nat :=
  max c.slots 1

end EngineConfig

end ScriptHost
