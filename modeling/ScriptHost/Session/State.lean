/-!
Where a session is on its way from the queue to its end.
-/

namespace ScriptHost

inductive SessionState where
  | queued
  | compiling
  | running
  | completed
  | rejected
  | cancelled
deriving DecidableEq, Repr, Inhabited

namespace SessionState

def name : SessionState → String
  | queued => "queued"
  | compiling => "compiling"
  | running => "running"
  | completed => "completed"
  | rejected => "rejected"
  | cancelled => "cancelled"

def isTerminal : SessionState → Bool
  | completed | rejected | cancelled => true
  | _ => false

end SessionState

end ScriptHost
