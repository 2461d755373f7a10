import ScriptHost.Machine.Fault
import ScriptHost.Sandbox.Capture
import ScriptHost.Value

/-!
How runs end. Whatever the end, the output until then is kept.
-/

namespace ScriptHost

inductive Outcome where
  | success (value : Value) (out err : Captured)
  | fault (fault : Fault) (out err : Captured)
  | timeout (out err : Captured)
  | interrupted (out err : Captured)
deriving BEq, Repr

structure SandboxLimits where
  outputBytes : Nat := 65536
  callDepth : Nat := 1024
deriving DecidableEq, Repr

end ScriptHost
