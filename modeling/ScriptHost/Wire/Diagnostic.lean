import ScriptHost.Diagnostic
import ScriptHost.Json.View

/-! Diagnostics as JSON. -/

namespace ScriptHost

namespace Severity

def toJson (s : Severity) : Json :=
  .str s.name

def ofName? : String → Option Severity
  | "error" => some error
  | "warning" => some warning
  | _ => none

def ofJson? : Json → Option Severity
  | .str s => ofName? s
  | .obj [(s, .null)] => ofName? s
  | .obj [(s, .obj [])] => ofName? s
  | _ => none

end Severity

namespace Diagnostic

def fieldNames : List String :=
  ["unit", "line", "column", "severity", "message"]

def toJson (d : Diagnostic) : Json :=
  .obj [("unit", .str d.unit), ("line", .nat d.line), ("column", .nat d.column),
    ("severity", d.severity.toJson), ("message", .str d.message)]

def placeLimit : Nat := 0x100000000

def ofJson? (j : Json) : Option Diagnostic := do
  match ← j.exactly? fieldNames with
  | [unit, line, column, severity, message] =>
    return ⟨← unit.toText?, ← line.toNatBelow? placeLimit, ← column.toNatBelow? placeLimit,
      ← Severity.ofJson? severity, ← message.toText?⟩
  | _ => none

end Diagnostic

end ScriptHost
