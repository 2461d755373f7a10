import ScriptHost.Json.Basic
import ScriptHost.Word

/-!
JSON values seen as something in particular, where they are that.
-/

namespace ScriptHost.Json

def toText? : Json → Option String
  | str s => some s
  | _ => none

def toNatBelow? (limit : Nat) : Json → Option Nat
  | int v => if 0 ≤ v && v < limit then some v.toNat else none
  | _ => none

def toWord? : Json → Option Nat :=
  toNatBelow? wordLimit

def toList? : Json → Option (List Json)
  | arr items => some items
  | _ => none

def single? (fields : List (String × Json)) (name : String) : Option Json :=
  match fields.filter (·.1 == name) with
  | [(_, j)] => some j
  | _ => none

def exactly? (names : List String) : Json → Option (List Json)
  | obj fields => names.mapM (single? fields)
  | arr items => if items.length = names.length then some items else none
  | _ => none

/-- The tag of a record that says what its fields are, and the record without it; a list has the tag
in front. -/
def tagged? (tag : String) : Json → Option (String × Json)
  | obj fields =>
    match single? fields tag with
    | some (str kind) => some (kind, obj (fields.filter (·.1 != tag)))
    | _ => none
  | arr (str kind :: items) => some (kind, arr items)
  | _ => none

end ScriptHost.Json
