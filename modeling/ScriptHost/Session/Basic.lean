import ScriptHost.Instant
import ScriptHost.Session.Verdict

/-!
Sessions. A session moves from state to state until it ends; its verdict is recorded once, before
the state that goes with it is reached, and then stays.
-/

namespace ScriptHost

structure Submission where
  units : List SourceUnit
  deadlineMs : Option Nat := none
  arguments : List Value := []
deriving Repr, Inhabited

structure Session where
  id : Nat
  units : List SourceUnit
  arguments : List Value
  deadlineMs : Nat
  created : Instant
  state : SessionState := .queued
  verdict : Option Verdict := none
  cancelRequested : Bool := false
deriving Repr, Inhabited

namespace Session

def ofSubmission (id defaultDeadlineMs : Nat) (created : Instant) (s : Submission) : Session :=
  { id, units := s.units, arguments := s.arguments
    deadlineMs := s.deadlineMs.getD defaultDeadlineMs, created }

def isOver (s : Session) : Bool :=
  s.state.isTerminal

def advance (s : Session) (next : SessionState) : Session :=
  if s.isOver then s else { s with state := next }

def record (s : Session) (v : Verdict) : Session :=
  { s with verdict := s.verdict.or (some v) }

/-- Ends the session, and gives the verdict that is on record then. A session that has a verdict
keeps it. -/
def finish (limit : Nat) (ending : Ending) (s : Session) : Verdict × Session :=
  match s.verdict with
  | some v => (v, s)
  | none =>
    let v := ending.verdict limit
    (v, (s.record v).advance v.endState)

end Session

end ScriptHost
