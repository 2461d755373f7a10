import ScriptHost.Session.Verdict
import ScriptHost.Wire.Diagnostic
import ScriptHost.Wire.Value

/-!
Verdicts as JSON, tagged by their kind. Fields that a kind does not have are passed over.
-/

namespace ScriptHost.Verdict

def fieldNames : String → List String
  | "success" => ["value", "stdout", "stderr", "elapsedMs"]
  | "compileFailure" => ["diagnostics"]
  | "runtimeFault" => ["exception", "stdout", "stderr", "elapsedMs"]
  | "timeout" => ["stdout", "stderr"]
  | "rejected" => ["reason"]
  | _ => []

def kind : Verdict → String
  | success _ _ _ _ => "success"
  | compileFailure _ => "compileFailure"
  | runtimeFault _ _ _ _ => "runtimeFault"
  | timeout _ _ => "timeout"
  | rejected _ => "rejected"
  | cancelled => "cancelled"

def fields : Verdict → List Json
  | success v out err ms => [v.toJson, .str out, .str err, .nat ms]
  | compileFailure ds => [.arr (ds.map Diagnostic.toJson)]
  | runtimeFault exception out err ms => [.str exception, .str out, .str err, .nat ms]
  | timeout out err => [.str out, .str err]
  | rejected reason => [.str reason]
  | cancelled => []

def toJson (v : Verdict) : Json :=
  .obj (("kind", .str v.kind) :: (fieldNames v.kind).zip v.fields)

def ofFields? (kind : String) (fields : List Json) : Option Verdict :=
  match kind, fields with
  | "success", [v, out, err, ms] =>
    return success (← Value.ofJson? v) (← out.toText?) (← err.toText?) (← ms.toWord?)
  | "compileFailure", [ds] => return compileFailure (← (← ds.toList?).mapM Diagnostic.ofJson?)
  | "runtimeFault", [exception, out, err, ms] =>
    return runtimeFault (← exception.toText?) (← out.toText?) (← err.toText?) (← ms.toWord?)
  | "timeout", [out, err] => return timeout (← out.toText?) (← err.toText?)
  | "rejected", [reason] => return rejected (← reason.toText?)
  | "cancelled", [] => return cancelled
  | _, _ => none

def ofJson? (j : Json) : Option Verdict := do
  let (kind, j) ← j.tagged? "kind"
  ofFields? kind (← j.exactly? (fieldNames kind))

end ScriptHost.Verdict
