import ScriptHost.Json.Reader
import ScriptHost.Json.Record
import ScriptHost.Json.View
import ScriptHost.Session.Basic
import ScriptHost.Wire.Value

/-! Source units and submissions in JSON. -/

namespace ScriptHost

namespace SourceUnit

structure Fields where
  name : Json.Slot String := none
  text : Json.Slot String := none
  isEntry : Json.Slot Bool := none

def record : Json.Record Fields SourceUnit where
  title := "struct SourceUnit"
  names := ["name", "text", "entryPoint"]
  least := 2
  blank := {}
  field name s := match name with
    | "name" => s.name.fill? .text fun a => { s with name := a }
    | "text" => s.text.fill? .text fun a => { s with text := a }
    | "entryPoint" => s.isEntry.fill? .flag fun a => { s with isEntry := a }
    | _ => some (Json.Decoder.pass.map fun _ => s)
  finish s := return ⟨← s.name.require "name", ← s.text.require "text", s.isEntry.getD false⟩

end SourceUnit

namespace Submission

def valuesOf? (cs : List Char) : Option (List Value) := do
  let text ← Json.textOf? cs
  let j ← Json.ofChars? (Json.depthLimit - 1) text.toList
  (← j.toList?).mapM Value.ofJson?

structure Fields where
  units : Json.Slot (List SourceUnit) := none
  deadlineMs : Json.Slot (Option Nat) := none
  arguments : Json.Slot (List Value) := none

def record : Json.Record Fields Submission where
  title := "struct Submission"
  names := ["units", "deadlineMs", "arguments"]
  least := 2
  blank := {}
  field name s := match name with
    | "units" =>
      s.units.fill? (.list SourceUnit.record.decoder) fun a => { s with units := a }
    | "deadlineMs" =>
      s.deadlineMs.fill? (.option (.natBelow wordLimit "u64"))
        fun a => { s with deadlineMs := a }
    | "arguments" =>
      s.arguments.fill? (.whole "Value" valuesOf?) fun a => { s with arguments := a }
    | _ => some (Json.Decoder.pass.map fun _ => s)
  finish s := return ⟨← s.units.require "units", s.deadlineMs.getD none, s.arguments.getD []⟩

def ofText (text : String) : Except Json.Flaw Submission :=
  record.decoder.readAll (Json.octetsOf text)

end Submission

end ScriptHost
