/-!
The functions every program may call without defining them.
-/

namespace ScriptHost

def argumentLimit : Nat := 255

inductive Stream where
  | out
  | err
deriving DecidableEq, Repr

inductive Extremum where
  | least
  | greatest
deriving DecidableEq, Repr

inductive Builtin where
  | print (stream : Stream) (newline : Bool)
  | str
  | len
  | push
  | pop
  | abs
  | pick (side : Extremum)
  | throw
  | assert
deriving DecidableEq, Repr

namespace Builtin

def all : List Builtin :=
  [print .out false, print .out true, print .err false, print .err true, str, len, push, pop, abs,
    pick .least, pick .greatest, throw, assert]

def name : Builtin → String
  | print .out false => "print"
  | print .out true => "println"
  | print .err false => "eprint"
  | print .err true => "eprintln"
  | str => "str"
  | len => "len"
  | push => "push"
  | pop => "pop"
  | abs => "abs"
  | pick .least => "min"
  | pick .greatest => "max"
  | throw => "throw"
  | assert => "assert"

def arity : Builtin → Nat × Nat
  | print _ _ => (0, argumentLimit)
  | str | len | pop | abs | throw => (1, 1)
  | push | pick _ => (2, 2)
  | assert => (1, 2)

def ofName? (name : String) : Option Builtin :=
  all.find? (·.name == name)

theorem mem_all (b : Builtin) : b ∈ all := by
  rcases b with ⟨_ | _, _ | _⟩ | _ | _ | _ | _ | _ | ⟨_ | _⟩ | _ | _ <;> decide

theorem ofName?_name (b : Builtin) : ofName? b.name = some b := by
  rcases b with ⟨_ | _, _ | _⟩ | _ | _ | _ | _ | _ | ⟨_ | _⟩ | _ | _ <;> decide

end Builtin

end ScriptHost
