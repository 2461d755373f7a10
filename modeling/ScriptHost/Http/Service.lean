import ScriptHost.Engine.Basic
import ScriptHost.Http.MediaType
import ScriptHost.Http.Message
import ScriptHost.Http.Target
import ScriptHost.Wire.Report
import ScriptHost.Wire.Submission

/-!
The service: submissions, sessions, verdicts and coalesced sources over HTTP.
-/

namespace ScriptHost.Http

def bodyLimit : Nat := 2 * 1024 * 1024

def noSource : String := "// No code :(\n"

structure Service where
  engine : Engine
  latest : Option String := none

structure CoalesceRequest where
  units : List SourceUnit
  main : Option String := none
deriving Repr

namespace CoalesceRequest

structure Fields where
  units : Json.Slot (List SourceUnit) := none
  main : Json.Slot (Option String) := none

def record : Json.Record Fields CoalesceRequest where
  title := "struct CoalesceRequest"
  names := ["units", "main"]
  least := 2
  blank := {}
  field name s := match name with
    | "units" =>
      s.units.fill? (.list SourceUnit.record.decoder) fun a => { s with units := a }
    | "main" => s.main.fill? (.option .text) fun a => { s with main := a }
    | _ => some (Json.Decoder.pass.map fun _ => s)
  finish s := return ⟨← s.units.require "units", s.main.getD none⟩

def marked (r : CoalesceRequest) : List SourceUnit :=
  match r.main with
  | some main => r.units.map fun u => { u with isEntry := u.name == main }
  | none => r.units

end CoalesceRequest

namespace Response

def failure (status : Nat) (reason : String) (code : Nat) (message : Option String) : Response :=
  ⟨status, .json (.obj ([("reason", .str reason), ("code", .nat code)]
    ++ (message.map fun m => ("message", .str m)).toList)), false⟩

def invalidArgument (message : Option String) : Response :=
  failure 400 "ERR_INVALID_ARGUMENT" 1 message

def internal (message : Option String) : Response :=
  failure 500 "ERR_INTERNAL" 6 message

def unknownSession (id : Nat) : Response :=
  failure 404 "ERR_NOT_FOUND" 3 (some ("Session " ++ toString id ++ " not found."))

end Response

namespace Service

def bodyAs {α : Type} (decoder : Json.Decoder α) (r : Request) : Except Response α :=
  let refuse (message : String) : Except Response α :=
    .error (.invalidArgument (some message))
  if !r.contentType.any MediaType.isJson then refuse "Content type error"
  else if bodyLimit < r.body.utf8ByteSize then
    refuse ("JSON payload has exceeded limit (" ++ toString bodyLimit ++ " bytes).")
  else
    let octets := Json.octetsOf r.body
    match decoder.readAll octets with
    | .ok a => .ok a
    | .error flaw => refuse ("Json deserialize error: " ++ flaw.message octets)

def withSession (s : Service) (part : String) (answer : Session → Response × Service) :
    Response × Service :=
  match Target.id? part with
  | none => (⟨404, .text (Target.badIdMessage part), false⟩, s)
  | some id =>
    match s.engine.scheduler.find? id with
    | none => (.unknownSession id, s)
    | some session => answer session

def sessionNow (s : Service) (id : Nat) : Response :=
  match s.engine.scheduler.session? id with
  | some session => .ok session.toJson
  | none => .unknownSession id

def submit (s : Service) (now : Instant) (t : Target) (r : Request) : Response × Service :=
  match t.wait?, bodyAs Submission.record.decoder r with
  | none, _ => (.invalidArgument none, s)
  | some _, .error response => (response, s)
  | some wait, .ok submission =>
    let (id, engine) := s.engine.submit now submission
    let engine := if wait then engine.await id else engine
    let s := { s with engine }
    (s.sessionNow id, s)

def awaitVerdict (s : Service) (session : Session) : Response × Service :=
  let engine := s.engine.await session.id
  match (engine.scheduler.session? session.id).bind (·.verdict) with
  | some v => (.ok v.toJson, { s with engine })
  | none => (.internal none, { s with engine })

def cancel (s : Service) (session : Session) : Response × Service :=
  let (cancelled, engine) := s.engine.cancel session
  (.ok (.obj [("cancelled", .bool cancelled)]), { s with engine })

def coalesce (s : Service) (now : Instant) (r : Request) : Response × Service :=
  match bodyAs CoalesceRequest.record.decoder r with
  | .error response => (response, s)
  | .ok request =>
    let (report, engine) := s.engine.coalesce now request.marked
    let s := { s with engine }
    match report with
    | .ok report => (.ok report.toJson, s)
    | .error (.invalid e) => (.invalidArgument (some e.message), s)
    | .error e => (.internal (some e.message), s)

def latestSource (s : Service) : Response :=
  ⟨200, .text (s.latest.getD noSource), true⟩

def publish (s : Service) (source : String) : Service :=
  { s with latest := some source }

def handle (s : Service) (now : Instant) (r : Request) : Response × Service :=
  let t := Target.ofText r.target
  match r.method, t.resource? with
  | "POST", some .sessions => s.submit now t r
  | "GET", some (.session part) => s.withSession part fun session => (.ok session.toJson, s)
  | "DELETE", some (.session part) => s.withSession part s.cancel
  | "GET", some (.verdict part) => s.withSession part s.awaitVerdict
  | "POST", some .coalesce => s.coalesce now r
  | "GET", some .latest => (s.latestSource, s)
  | "GET", some .stats => (.ok s.engine.scheduler.stats.toJson, s)
  | _, _ => (.nothing, s)

end Service

end ScriptHost.Http
