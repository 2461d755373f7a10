import ScriptHost.Coalesce.Report
import ScriptHost.Engine.Worker

/-!
Engines: a scheduler and the workers that serve it. Workers take turns while someone waits, and only
then.
-/

namespace ScriptHost

structure Engine where
  scheduler : Scheduler
  workers : List Worker

namespace Engine

def ofConfig (config : EngineConfig) : Engine :=
  ⟨.ofConfig config, List.replicate config.workerCount .idle⟩

def unattended (config : EngineConfig) : Engine :=
  ⟨.ofConfig config, []⟩

def round (e : Engine) : Engine :=
  let (s, workers) := e.workers.foldl (fun (s, done) w =>
    let (s, w) := w.turn s
    (s, w :: done)) (e.scheduler, [])
  ⟨s, workers.reverse⟩

def roundsFor (s : Session) : Nat :=
  if s.isOver then 0 else s.deadlineMs * ticksPerMilli / Worker.stepsPerTurn + 4

def patience (e : Engine) : Nat :=
  e.scheduler.sessions.foldl (fun n s => n + roundsFor s) 1

def waitFor (holds : Scheduler → Bool) : Nat → Engine → Engine
  | 0, e => e
  | rounds + 1, e => if holds e.scheduler then e else waitFor holds rounds e.round

def hasBegun (s : Scheduler) (id : Nat) : Bool :=
  (s.session? id).all fun session => session.isOver || session.state = .running

def await (e : Engine) (id : Nat) : Engine :=
  e.waitFor (·.isOver id) e.patience

def awaitRunning (e : Engine) (id : Nat) : Engine :=
  e.waitFor (hasBegun · id) e.patience

def submit (e : Engine) (now : Instant) (submission : Submission) : Nat × Engine :=
  let (id, scheduler) := e.scheduler.submit now submission
  (id, { e with scheduler })

def drain (e : Engine) : Engine :=
  { e with scheduler := e.scheduler.drain }

/-- Coalesces units with the compiler of the engine; meanwhile the workers get on. -/
def coalesce (e : Engine) (now : Instant) (units : List SourceUnit) :
    Except CompileError Coalesce.Report × Engine :=
  (Coalesce.report e.scheduler.config.compilerLimits now.stamp units, e.round)

def stop (e : Engine) (id : Nat) : Engine :=
  { e with scheduler := e.scheduler.modifySession id fun s => { s with cancelRequested := true } }
    |>.await id

def cancel (e : Engine) (session : Session) : Bool × Engine :=
  if session.isOver then (false, e)
  else
    let e := match e.scheduler.withdraw? session.id with
      | some scheduler => { e with scheduler }
      | none => e.stop session.id
    (((e.scheduler.session? session.id).bind (·.verdict)).any Verdict.isCancelled, e)

end Engine

end ScriptHost
