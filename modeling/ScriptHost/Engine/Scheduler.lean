import ScriptHost.Engine.Config
import ScriptHost.Engine.Queue
import ScriptHost.Engine.Registry
import ScriptHost.Session.Basic

/-!
The books of an engine: sessions as they come in, wait and end. Ids count from one and are never
used again; a session that is forgotten cannot be looked up, but keeps its verdict.
-/

namespace ScriptHost

structure Scheduler where
  config : EngineConfig
  queue : Queue
  registry : Registry := {}
  sessions : Array Session := #[]
deriving Repr

namespace Scheduler

def ofConfig (config : EngineConfig) : Scheduler :=
  { config, queue := { capacity := config.queueCapacity } }

def stats (s : Scheduler) : Stats :=
  s.queue.stats

/-- The session of an id, be it known or forgotten. -/
def session? (s : Scheduler) (id : Nat) : Option Session :=
  if id = 0 then none else s.sessions[id - 1]?

def find? (s : Scheduler) (id : Nat) : Option Session :=
  if id ∈ s.registry.known then s.session? id else none

def unknownMessage (id : Nat) : String :=
  "unknown session " ++ toString id

def unendedMessage (id : Nat) : String :=
  "session " ++ toString id ++ " ended without a verdict"

def modifySession (s : Scheduler) (id : Nat) (f : Session → Session) : Scheduler :=
  { s with sessions := s.sessions.modify (id - 1) f }

def isOver (s : Scheduler) (id : Nat) : Bool :=
  (s.session? id).all Session.isOver

/-- Ends a session and retires it. The end is counted before the verdict can be seen. -/
def finish (s : Scheduler) (id : Nat) (ending : Ending) : Scheduler :=
  let s := { s with queue := s.queue.recordCompletion }
  let s := s.modifySession id fun session => (session.finish s.config.maxOutputBytes ending).2
  { s with registry := s.registry.retire s.config.retainedSessions id }

def register (s : Scheduler) (now : Instant) (submission : Submission) : Nat × Scheduler :=
  let id := s.sessions.size + 1
  (id, { s with
    sessions := s.sessions.push (.ofSubmission id s.config.defaultDeadlineMs now submission)
    registry := s.registry.insert id })

def enqueue (s : Scheduler) (id : Nat) (units : List SourceUnit) : Scheduler :=
  match SourceUnit.entryOf units with
  | .error e => s.finish id (.rejected e.message)
  | .ok _ =>
    match s.queue.push? id with
    | none => s.finish id (.rejected "queue full")
    | some queue => { s with queue }

def submit (s : Scheduler) (now : Instant) (submission : Submission) : Nat × Scheduler :=
  let (id, s) := s.register now submission
  (id, s.enqueue id submission.units)

def withdraw? (s : Scheduler) (id : Nat) : Option Scheduler :=
  (s.queue.remove? id).map fun queue => { s with queue }.finish id .cancelled

def drain (s : Scheduler) : Scheduler :=
  let (ids, queue) := s.queue.drain
  ids.foldl (fun s id => s.finish id (.rejected "engine shutting down")) { s with queue }

end Scheduler

end ScriptHost
