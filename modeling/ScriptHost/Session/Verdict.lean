import ScriptHost.Compile.Compiler
import ScriptHost.Sandbox.Outcome
import ScriptHost.Session.State

/-!
Verdicts, and what can end a session before it is put into one. The text of a stream is cut to a
limit, and a mark behind it counts the bytes that were lost.
-/

namespace ScriptHost

inductive Verdict where
  | success (value : Value) (out err : String) (elapsedMs : Nat)
  | compileFailure (diagnostics : List Diagnostic)
  | runtimeFault (exception : String) (out err : String) (elapsedMs : Nat)
  | timeout (out err : String)
  | rejected (reason : String)
  | cancelled
deriving BEq, Repr

namespace Verdict

def endState : Verdict → SessionState
  | rejected _ => .rejected
  | cancelled => .cancelled
  | _ => .completed

theorem isTerminal_endState (v : Verdict) : v.endState.isTerminal := by
  cases v <;> rfl

def isCancelled : Verdict → Bool
  | cancelled => true
  | _ => false

end Verdict

inductive Ending where
  | uncompiled (error : CompileError)
  | compiledTooLate
  | executed (outcome : Outcome) (elapsedNanos : Nat)
  | rejected (reason : String)
  | cancelled
deriving Repr

namespace Captured

def excerpt (limit : Nat) (c : Captured) : String :=
  let kept := Text.fit limit c.text
  let lost := c.dropped + (c.text.utf8ByteSize - kept.utf8ByteSize)
  if lost = 0 then kept else kept ++ "...[truncated " ++ toString lost ++ " bytes]"

end Captured

namespace Ending

def nanosPerMilli : Nat := 1000000

def verdictOfRun (limit elapsedNanos : Nat) : Outcome → Verdict
  | .success v out err =>
    .success v (out.excerpt limit) (err.excerpt limit) (elapsedNanos / nanosPerMilli)
  | .fault f out err =>
    .runtimeFault f.render (out.excerpt limit) (err.excerpt limit) (elapsedNanos / nanosPerMilli)
  | .timeout out err => .timeout (out.excerpt limit) (err.excerpt limit)
  | .interrupted _ _ => .cancelled

def verdict (limit : Nat) : Ending → Verdict
  | uncompiled (.failure ds) => .compileFailure ds
  | uncompiled e => .rejected e.message
  | compiledTooLate => .timeout "" ""
  | executed outcome elapsedNanos => verdictOfRun limit elapsedNanos outcome
  | rejected reason => .rejected reason
  | cancelled => .cancelled

end Ending

end ScriptHost
