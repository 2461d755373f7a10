/-!
JSON values.
-/

namespace ScriptHost

inductive Json where
  | null
  | bool (value : Bool)
  | int (value : Int)
  /-- A number that is not an integer of one word. -/
  | real (literal : String)
  | str (value : String)
  | arr (items : List Json)
  | obj (fields : List (String × Json))
deriving Repr, Inhabited

namespace Json

def field? (name : String) : Json → Option Json
  | obj fields => (fields.find? (·.1 == name)).map (·.2)
  | _ => none

/-- A field that is there and not null. -/
def get? (name : String) (j : Json) : Option Json :=
  match j.field? name with
  | some null => none
  | found => found

def nat (n : Nat) : Json :=
  int n

end Json

end ScriptHost
