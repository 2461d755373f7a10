import ScriptHost.Coalesce.Watch
import ScriptHost.CommandLine.Help
import ScriptHost.Engine.Basic
import ScriptHost.Json.Writer
import ScriptHost.Wire.Config
import ScriptHost.Wire.Verdict

/-!
Commands that run once and end. What they print is kept apart by stream and given out at the end.
-/

namespace ScriptHost.CommandLine

structure Failure where
  message : String
  cause : Option String := none
deriving DecidableEq, Repr

namespace Failure

def render (f : Failure) : String :=
  let cause := f.cause.map fun c =>
    "\n\nCaused by:\n    " ++ "\n    ".intercalate (c.splitOn "\n")
  "Error: " ++ f.message ++ cause.getD "" ++ "\n"

def ofCompileError (e : CompileError) : Failure :=
  match e with
  | .invalid shape => ⟨e.message, some shape.message⟩
  | _ => ⟨e.message, none⟩

def ofGatherError (e : Coalesce.GatherError) : Failure :=
  ⟨e.message, e.cause?⟩

end Failure

inductive Exit where
  | success
  | failure (failure : Failure)
  | usage (error : ArgsError)
deriving DecidableEq, Repr

structure Output where
  out : String := ""
  err : String := ""
  exit : Exit := .success
deriving DecidableEq, Repr

namespace Output

def exitCode (o : Output) : Nat :=
  match o.exit with
  | .success => 0
  | .failure _ => 1
  | .usage _ => 2

def errors (o : Output) : String :=
  match o.exit with
  | .success => o.err
  | .failure f => o.err ++ f.render
  | .usage e => o.err ++ e.message

def failed (f : Failure) : Output :=
  { exit := .failure f }

end Output

namespace ArgsError

def output (e : ArgsError) : Output :=
  match e with
  | .help _ => { out := e.message }
  | .version => { out := e.message }
  | _ => { exit := .usage e }

end ArgsError

variable {m : Type → Type} [Monad m] [Disk m]

def loadFailure (cause : String) : Failure :=
  ⟨"Failed to load configuration", some cause⟩

def loadConfig (path : Option String) : m (Except Failure Config) := do
  match path with
  | none => return .ok {}
  | some path =>
    match ← Disk.read path with
    | .error e => return .error (loadFailure e.message)
    | .ok bytes =>
      let octets := Json.octets bytes
      return (Config.ofOctets octets).mapError fun flaw => loadFailure (flaw.message octets)

def readFailure (path : String) (e : FileError) : Failure :=
  ⟨"cannot read " ++ path, some e.message⟩

def loadUnit (path : String) : m (Except Failure SourceUnit) := do
  match FilePath.fileName? path with
  | none => return .error ⟨path ++ " has no usable file name", none⟩
  | some name =>
    match ← Disk.readText path with
    | .ok text => return .ok ⟨FilePath.stem name, text, false⟩
    | .error e => return .error (readFailure path e)

def loadUnits (units : List SourceUnit) : List String → m (Except Failure (List SourceUnit))
  | [] => return .ok units.reverse
  | path :: paths => do
    match ← loadUnit path with
    | .ok u => loadUnits (u :: units) paths
    | .error f => return .error f

def markFirst? (name : String) : List SourceUnit → Option (List SourceUnit)
  | [] => none
  | u :: units =>
    if u.name = name then some ({ u with isEntry := true } :: units)
    else (markFirst? name units).map (u :: ·)

def markEntry (entry : Option String) (units : List SourceUnit) :
    Except Failure (List SourceUnit) :=
  match entry.or (units.head?.map (·.name)) with
  | none => .error ⟨"no source files given", none⟩
  | some name =>
    (markFirst? name units).elim
      (.error ⟨"entry unit '" ++ name ++ "' is not among the given files", none⟩) .ok

def verdictOn (config : EngineConfig) (now : Instant) (s : Submission) : Except Failure Verdict :=
  let (id, e) := (Engine.ofConfig config).submit now s
  match e.scheduler.find? id with
  | none => .error ⟨Scheduler.unknownMessage id, none⟩
  | some _ =>
    match ((e.await id).scheduler.session? id).bind (·.verdict) with
    | some v => .ok v
    | none => .error ⟨Scheduler.unendedMessage id, none⟩

def verdictText (v : Verdict) : String :=
  v.toJson.renderIndented ++ "\n"

def runFiles (now : Instant) (files : List String) (entry : Option String)
    (deadlineMs : Option Nat) (config : Option String) : m Output := do
  match ← loadConfig config with
  | .error f => return .failed f
  | .ok config =>
    match (← loadUnits [] files) >>= markEntry entry with
    | .error f => return .failed f
    | .ok units =>
      match verdictOn config.engine now ⟨units, deadlineMs, []⟩ with
      | .ok v => return { out := verdictText v }
      | .error f => return .failed f

def renderLines (ds : List Diagnostic) : String :=
  ds.foldl (fun out d => out ++ d.render ++ "\n") ""

def giveReport (dir : String) (output : Option String) (r : Coalesce.Report) : m Output := do
  let err := renderLines r.diagnostics
  if !r.compiles then
    return { err, exit := .failure ⟨"coalesced source of " ++ dir ++ " does not compile", none⟩ }
  match output with
  | none => return { out := r.source, err }
  | some path =>
    match ← Disk.write path r.source with
    | .ok () => return { err }
    | .error e => return { err, exit := .failure ⟨"cannot write " ++ path, some e.message⟩ }

def coalesce (now : Instant) (dir main : String) (output : Option String) : m Output := do
  match ← Coalesce.gather dir main with
  | .error e => return .failed (.ofGatherError e)
  | .ok units =>
    match Coalesce.report {} now.stamp units with
    | .error e => return .failed (.ofCompileError e)
    | .ok r => giveReport dir output r

def prepareServer (config : Option String) : m (Except Failure Config) := do
  match ← loadConfig config with
  | .error f => return .error f
  | .ok config =>
    if config.engine.slots = 0 then return .error ⟨"The number of slots must not be 0", none⟩
    else return .ok config

/-- A directory to keep coalesced, and the file its last good source goes to; the output, if there
is none. -/
structure Vigil where
  settings : Coalesce.Watch.Settings
  output : Option String

/-- What a command does before it ends, and the directory it then keeps watching if it does not. -/
def runCommand (now : Instant) : Command → m (Output × Option Vigil)
  | .serve config _ _ => do
    match ← prepareServer config with
    | .error f => return (.failed f, none)
    | .ok _ => return (.failed ⟨"Failed to build server", some "no sockets to listen on"⟩, none)
  | .run files entry deadlineMs config =>
    return (← runFiles now files entry deadlineMs config, none)
  | .mash dir main output false => return (← coalesce now dir main output, none)
  | .mash dir main output true => return ({}, some ⟨{ dir, main }, output⟩)

def perform (now : Instant) (args : List String) : m (Output × Option Vigil) := do
  match Command.ofArguments args with
  | .ok command => runCommand now command
  | .error e => return (e.output, none)

end ScriptHost.CommandLine
