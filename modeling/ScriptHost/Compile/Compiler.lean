import ScriptHost.Compile.Capacity
import ScriptHost.Compile.Check
import ScriptHost.Compile.Emit
import ScriptHost.Compile.Literals
import ScriptHost.Source
import ScriptHost.Syntax.Parser
import ScriptHost.Syntax.Scan

/-!
Compiling a submission: its shape and size, then its units one by one, then its names, and code only
if nothing is wrong.
-/

namespace ScriptHost

inductive CompileError where
  | failure (diagnostics : List Diagnostic)
  | invalid (error : ShapeError)
  | unavailable (shortage : Shortage)
deriving DecidableEq, Repr

namespace CompileError

def message : CompileError → String
  | failure ds => "compilation failed with " ++ toString ds.length ++ " diagnostic(s)"
  | invalid e => "invalid submission: " ++ e.message
  | unavailable s => "compiler unavailable: " ++ s.message

end CompileError

namespace Compiler

def parseUnit (u : SourceUnit) : ParsedUnit × List Diagnostic :=
  let scan := Scan.ofText u.text
  let parsed := Parsed.ofTokens scan.tokens
  (⟨u.name, parsed.functions⟩,
    (scan.findings ++ parsed.findings).map (Finding.toDiagnostic u.name))

def missingEntry (c : Catalog) (entryUnit : String) : List Diagnostic :=
  if c.hasEntry entryUnit then []
  else [Finding.toDiagnostic entryUnit ⟨.start, .missingMain entryUnit⟩]

def checkAll (c : Catalog) : List Diagnostic :=
  c.definitions.flatMap fun d => (Check.function c d.decl).map (Finding.toDiagnostic d.unit)

def shortage? (limits : CompilerLimits) (d : Definition) (f : Function) : Option Shortage :=
  Capacity.shortage? limits.functionInstructions
    (Slots.ofParams (d.decl.params.map (·.1))).next f

def link (limits : CompilerLimits) (session : Nat) (entryUnit : String) (units : List ParsedUnit) :
    Except CompileError Program :=
  let (catalog, misplaced) := Catalog.ofUnits units
  let strings := Literals.ofCatalog catalog
  let functions := catalog.definitions.map (Emit.function ⟨catalog, strings⟩)
  match (catalog.definitions.zip functions).findSome? fun (d, f) => shortage? limits d f with
  | some s => .error (.unavailable s)
  | none =>
    let diagnostics := misplaced ++ missingEntry catalog entryUnit ++ checkAll catalog
    if diagnostics.any Diagnostic.isError then .error (.failure diagnostics)
    else .ok ⟨session, functions.toArray, strings.toArray, entryUnit, diagnostics⟩

def compile (limits : CompilerLimits) (session : Nat) (units : List SourceUnit) :
    Except CompileError Program :=
  match SourceUnit.entryOf units with
  | .error e => .error (.invalid e)
  | .ok entry =>
    let size := SourceUnit.totalSize units
    if limits.sourceBytes < size then
      .error (.unavailable (.sourceSize size limits.sourceBytes))
    else
      let parsed := units.map parseUnit
      let diagnostics := parsed.flatMap (·.2)
      if diagnostics.isEmpty then link limits session entry.name (parsed.map (·.1))
      else .error (.failure diagnostics)

end Compiler

end ScriptHost
