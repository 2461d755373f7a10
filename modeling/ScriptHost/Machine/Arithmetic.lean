/-!
Integer arithmetic that never wraps. An operation gives its wrapped result only where that is the
exact one.
-/

namespace ScriptHost.Arithmetic

def whenExact (wrapped : Int64) (exact : Int) : Option Int64 :=
  if wrapped.toInt = exact then some wrapped else none

def add? (a b : Int64) : Option Int64 :=
  whenExact (a + b) (a.toInt + b.toInt)

def sub? (a b : Int64) : Option Int64 :=
  whenExact (a - b) (a.toInt - b.toInt)

def mul? (a b : Int64) : Option Int64 :=
  whenExact (a * b) (a.toInt * b.toInt)

def neg? (a : Int64) : Option Int64 :=
  whenExact (-a) (-a.toInt)

def div? (a b : Int64) : Option Int64 :=
  whenExact (a / b) (a.toInt.tdiv b.toInt)

/-- The remainder that goes with the quotient; there is none where there is no quotient. -/
def rem? (a b : Int64) : Option Int64 :=
  (div? a b).map fun _ => a % b

def abs? (a : Int64) : Option Int64 :=
  if a < 0 then neg? a else some a

end ScriptHost.Arithmetic
