import ScriptHost.Text.Quoted

/-!
Values that go into a program as arguments and come out of it as results.
-/

namespace ScriptHost

inductive Value where
  | nil
  | bool (value : Bool)
  | int (value : Int64)
  | str (value : String)
  | array (items : List Value)
deriving BEq, Repr, Inhabited

namespace Value

mutual

/-- A value as text, written behind `out`; strings are quoted where they are `inside` an array. -/
def writeOnto (inside : Bool) (out : String) : Value → String
  | nil => out ++ "nil"
  | bool true => out ++ "true"
  | bool false => out ++ "false"
  | int v => out ++ toString v.toInt
  | str s => if inside then out ++ Text.Quoted.quote s else out ++ s
  | array [] => out ++ "[]"
  | array (v :: vs) => writeItems (writeOnto true (out ++ "[") v) vs

def writeItems (out : String) : List Value → String
  | [] => out ++ "]"
  | v :: vs => writeItems (writeOnto true (out ++ ", ") v) vs

end

def render (v : Value) : String :=
  v.writeOnto false ""

end Value

end ScriptHost
