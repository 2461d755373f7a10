import ScriptHost.Json.Basic
import ScriptHost.Value
import ScriptHost.Word

/-! Values as JSON. Numbers are integers of one word, and there are no objects. -/

namespace ScriptHost.Value

mutual

def toJson : Value → Json
  | nil => .null
  | bool b => .bool b
  | int v => .int v.toInt
  | str s => .str s
  | array vs => .arr (toJsons [] vs)

def toJsons (done : List Json) : List Value → List Json
  | [] => done.reverse
  | v :: vs => toJsons (v.toJson :: done) vs

end

mutual

def ofJson? : Json → Option Value
  | .null => some nil
  | .bool b => some (bool b)
  | .int v =>
    if -signedLimit ≤ v && v < signedLimit then some (int (.ofInt v)) else none
  | .str s => some (str s)
  | .arr items => (ofJsons? [] items).map array
  | _ => none

def ofJsons? (done : List Value) : List Json → Option (List Value)
  | [] => some done.reverse
  | j :: js =>
    match ofJson? j with
    | some v => ofJsons? (v :: done) js
    | none => none

end

end ScriptHost.Value
