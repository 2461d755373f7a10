import ScriptHost.Engine.Scheduler
import ScriptHost.Sandbox.Execution

/-!
Workers. A worker holds one slot: it takes a session off the queue, compiles it, runs it a number of
steps a turn, and hands the slot back before it ends the session.
-/

namespace ScriptHost

inductive Worker where
  | idle
  | compiling (id : Nat)
  | running (id : Nat) (execution : Execution) (state : Machine.State)

namespace Worker

/-- How many steps a run goes on in one turn. -/
def stepsPerTurn : Nat := 100000

def claim (s : Scheduler) : Scheduler × Worker :=
  match s.queue.pop? with
  | none => (s, idle)
  | some (id, queue) =>
    let s := { s with queue := queue.recordCompilation }
    (s.modifySession id (·.advance .compiling), compiling id)

def conclude (s : Scheduler) (id : Nat) (ending : Ending) : Scheduler × Worker :=
  claim ({ s with queue := s.queue.release }.finish id ending)

/-- What the engine makes of a run; the time it took is not measured. -/
def proceed (s : Scheduler) (id : Nat) (x : Execution) : Progress → Scheduler × Worker
  | .ended outcome => conclude s id (.executed outcome 0)
  | .running state => (s, running id x state)

def launch (s : Scheduler) (session : Session) (program : Program) : Scheduler × Worker :=
  let s := s.modifySession session.id (·.advance .running)
  let x : Execution :=
    { program, arguments := session.arguments, deadlineMs := session.deadlineMs
      memoryCeiling := s.config.memoryCeiling }
  let limits := s.config.sandboxLimits
  let (progress, launched) := x.launch limits
  let s := if launched then { s with queue := s.queue.recordExecution } else s
  proceed s session.id x <| match progress with
    | .running state => x.proceed limits stepsPerTurn state
    | ended => ended

def compile (s : Scheduler) (session : Session) : Scheduler × Worker :=
  match Compiler.compile s.config.compilerLimits session.id session.units with
  | .error e => conclude s session.id (.uncompiled e)
  | .ok program =>
    if session.deadlineMs = 0 then conclude s session.id .compiledTooLate
    else launch s session program

/-- One turn of a worker. A session that was asked to stop goes no further. -/
def turn (s : Scheduler) : Worker → Scheduler × Worker
  | idle => claim s
  | compiling id =>
    match s.session? id with
    | none => (s, idle)
    | some session =>
      if session.cancelRequested then conclude s id .cancelled else compile s session
  | running id x state =>
    if (s.session? id).any (·.cancelRequested) then
      conclude s id (.executed (.interrupted state.out.kept state.err.kept) 0)
    else proceed s id x (x.proceed s.config.sandboxLimits stepsPerTurn state)

end Worker

end ScriptHost
