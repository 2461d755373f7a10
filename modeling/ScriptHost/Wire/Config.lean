import ScriptHost.Engine.Config
import ScriptHost.Json.Record

/-!
Configurations in JSON. What a configuration does not mention has its default.
-/

namespace ScriptHost

structure ServerConfig where
  bindAddress : Option String := none
  bindPort : Option Nat := none
deriving DecidableEq, Repr

structure Config where
  server : ServerConfig := {}
  engine : EngineConfig := {}
deriving DecidableEq, Repr

namespace ServerConfig

structure Fields where
  bindAddress : Json.Slot (Option String) := none
  bindPort : Json.Slot (Option Nat) := none

def port : Json.Decoder Nat :=
  .natBelow 0x10000 "u16"

def record : Json.Record Fields ServerConfig where
  title := "struct ServerConfig"
  names := ["bind_address", "bind_port"]
  least := 2
  blank := {}
  field name s := match name with
    | "bind_address" =>
      s.bindAddress.fill? (.option .text) fun a => { s with bindAddress := a }
    | "bind_port" => s.bindPort.fill? (.option port) fun a => { s with bindPort := a }
    | _ => some (Json.Decoder.pass.map fun _ => s)
  finish s := return ⟨s.bindAddress.getD none, s.bindPort.getD none⟩

end ServerConfig

namespace EngineConfig

structure Fields where
  slots : Json.Slot Nat := none
  queueCapacity : Json.Slot (Option Nat) := none
  defaultDeadlineMs : Json.Slot Nat := none
  memoryCeiling : Json.Slot (Option Nat) := none
  maxOutputBytes : Json.Slot Nat := none
  maxCallDepth : Json.Slot Nat := none
  retainedSessions : Json.Slot Nat := none
  maxSourceBytes : Json.Slot Nat := none

def count : Json.Decoder Nat :=
  .natBelow wordLimit "usize"

def measure : Json.Decoder Nat :=
  .natBelow wordLimit "u64"

def Fields.finish (s : Fields) : EngineConfig :=
  let d : EngineConfig := {}
  { slots := s.slots.getD d.slots
    queueCapacity := s.queueCapacity.getD d.queueCapacity
    defaultDeadlineMs := s.defaultDeadlineMs.getD d.defaultDeadlineMs
    memoryCeiling := s.memoryCeiling.getD d.memoryCeiling
    maxOutputBytes := s.maxOutputBytes.getD d.maxOutputBytes
    maxCallDepth := s.maxCallDepth.getD d.maxCallDepth
    retainedSessions := s.retainedSessions.getD d.retainedSessions
    maxSourceBytes := s.maxSourceBytes.getD d.maxSourceBytes }

def record : Json.Record Fields EngineConfig where
  title := "struct EngineConfig"
  names := ["slots", "queue_capacity", "default_deadline_ms", "memory_ceiling", "max_output_bytes",
    "max_call_depth", "retained_sessions", "max_source_bytes"]
  blank := {}
  field name s := match name with
    | "slots" => s.slots.fill? count fun a => { s with slots := a }
    | "queue_capacity" =>
      s.queueCapacity.fill? (.option count) fun a => { s with queueCapacity := a }
    | "default_deadline_ms" =>
      s.defaultDeadlineMs.fill? measure fun a => { s with defaultDeadlineMs := a }
    | "memory_ceiling" =>
      s.memoryCeiling.fill? (.option measure) fun a => { s with memoryCeiling := a }
    | "max_output_bytes" => s.maxOutputBytes.fill? measure fun a => { s with maxOutputBytes := a }
    | "max_call_depth" => s.maxCallDepth.fill? count fun a => { s with maxCallDepth := a }
    | "retained_sessions" =>
      s.retainedSessions.fill? count fun a => { s with retainedSessions := a }
    | "max_source_bytes" => s.maxSourceBytes.fill? measure fun a => { s with maxSourceBytes := a }
    | _ => some (Json.Decoder.pass.map fun _ => s)
  finish s := return s.finish

end EngineConfig

namespace Config

structure Fields where
  server : Json.Slot ServerConfig := none
  engine : Json.Slot EngineConfig := none

def record : Json.Record Fields Config where
  title := "struct Config"
  names := ["server", "engine"]
  blank := {}
  field name s := match name with
    | "server" => s.server.fill? ServerConfig.record.decoder fun a => { s with server := a }
    | "engine" => s.engine.fill? EngineConfig.record.decoder fun a => { s with engine := a }
    | _ => some (Json.Decoder.pass.map fun _ => s)
  finish s := return ⟨s.server.getD {}, s.engine.getD {}⟩

def ofOctets (cs : List Char) : Except Json.Flaw Config :=
  record.decoder.readAll cs

end Config

end ScriptHost
