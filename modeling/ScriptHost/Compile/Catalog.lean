import ScriptHost.Bytecode.Builtin
import ScriptHost.Problem
import ScriptHost.Syntax.Tree

/-!
The functions of a submission. The first definition of a name counts, in the order of the units; a
later one and a definition of a builtin's name are left out and reported.
-/

namespace ScriptHost

structure ParsedUnit where
  name : String
  functions : List FunctionDecl
deriving Repr

structure Definition where
  unit : String
  decl : FunctionDecl
deriving Repr

structure Catalog where
  definitions : List Definition
deriving Repr

namespace Catalog

def entryName : String := "main"

def find? (c : Catalog) (name : String) : Option (Nat × Definition) :=
  (c.definitions.findIdx? (·.decl.name == name)).bind fun i => (c.definitions[i]?).map (i, ·)

structure Draft where
  definitions : List Definition
  diagnostics : List Diagnostic

namespace Draft

def report (d : Draft) (unit : String) (f : FunctionDecl) (problem : Problem) : Draft :=
  { d with diagnostics := (Finding.mk f.place problem).toDiagnostic unit :: d.diagnostics }

def add (d : Draft) (unit : String) (f : FunctionDecl) : Draft :=
  if (Builtin.ofName? f.name).isSome then d.report unit f (.redefinesBuiltin f.name)
  else
    match d.definitions.find? (·.decl.name == f.name) with
    | some g => d.report unit f (.alreadyDefined f.name g.unit g.decl.place.line)
    | none => { d with definitions := ⟨unit, f⟩ :: d.definitions }

def addUnit (d : Draft) (u : ParsedUnit) : Draft :=
  u.functions.foldl (·.add u.name) d

end Draft

def ofUnits (units : List ParsedUnit) : Catalog × List Diagnostic :=
  let draft := units.foldl Draft.addUnit ⟨[], []⟩
  (⟨draft.definitions.reverse⟩, draft.diagnostics.reverse)

def hasEntry (c : Catalog) (entryUnit : String) : Bool :=
  (c.find? entryName).any (·.2.unit == entryUnit)

end Catalog

end ScriptHost
