import ScriptHost.Bytecode.Instr
import ScriptHost.Diagnostic

/-!
Compiled programs: the functions of one submission with their code, and the strings they share.
-/

namespace ScriptHost

structure Function where
  name : String
  unit : String
  arity : Nat
  locals : Nat
  code : Array Instr
  lines : Array Nat
deriving Repr, Inhabited

namespace Function

def lineAt (f : Function) (pc : Nat) : Nat :=
  f.lines.getD pc 0

end Function

structure Program where
  session : Nat
  functions : Array Function
  strings : Array String
  entryUnit : String
  warnings : List Diagnostic
deriving Repr

namespace Program

def indexOf? (p : Program) (name : String) : Option Nat :=
  p.functions.findIdx? (·.name == name)

def lookup? (p : Program) (name : String) : Option Function :=
  p.functions.find? (·.name == name)

def entryPoint? (p : Program) (name : String) (arity : Nat) : Option Nat := do
  let id ← p.indexOf? name
  let f ← p.functions[id]?
  if f.unit == p.entryUnit && f.arity == arity then some id else none

def usedStrings (p : Program) : List String :=
  let used := p.functions.toList.flatMap fun f =>
    f.code.toList.filterMap fun | .str i => some (i + 1) | _ => none
  p.strings.toList.take (used.foldl max 0)

end Program

end ScriptHost
