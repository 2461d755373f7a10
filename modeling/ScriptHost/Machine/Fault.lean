/-!
How a run fails: the kind of fault, its message, and the functions that were being called.
-/

namespace ScriptHost

inductive FaultKind where
  | typeError
  | arithmeticError
  | indexError
  | exception
  | assertionError
  | stackOverflow
  | outOfMemory
  | noSuchFunction
  | interrupted
  | internalError
deriving DecidableEq, Repr

namespace FaultKind

def all : List FaultKind :=
  [typeError, arithmeticError, indexError, exception, assertionError, stackOverflow, outOfMemory,
    noSuchFunction, interrupted, internalError]

def name : FaultKind → String
  | typeError => "TypeError"
  | arithmeticError => "ArithmeticError"
  | indexError => "IndexError"
  | exception => "Exception"
  | assertionError => "AssertionError"
  | stackOverflow => "StackOverflow"
  | outOfMemory => "OutOfMemory"
  | noSuchFunction => "NoSuchFunction"
  | interrupted => "Interrupted"
  | internalError => "InternalError"

def ofName? (name : String) : Option FaultKind :=
  all.find? (·.name == name)

end FaultKind

structure Fault where
  kind : FaultKind
  message : String
  trace : List String := []
deriving DecidableEq, Repr

namespace Fault

def render (f : Fault) : String :=
  f.trace.foldl (fun out entry => out ++ "\n    at " ++ entry) (f.kind.name ++ ": " ++ f.message)

end Fault

end ScriptHost
