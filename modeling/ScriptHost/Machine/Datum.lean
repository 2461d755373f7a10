/-!
Values while a program runs, and the heap of arrays they refer to. Arrays are shared: two values are
the same array when their handles are equal.
-/

namespace ScriptHost

inductive Datum where
  | nil
  | bool (value : Bool)
  | int (value : Int64)
  | str (value : String)
  | array (handle : Nat)
deriving DecidableEq, Repr, Inhabited

namespace Datum

def typeName : Datum → String
  | nil => "nil"
  | bool _ => "bool"
  | int _ => "int"
  | str _ => "string"
  | array _ => "array"

end Datum

abbrev Heap := Array (Array Datum)

namespace Heap

def items (h : Heap) (handle : Nat) : Array Datum :=
  h.getD handle #[]

end Heap

end ScriptHost
