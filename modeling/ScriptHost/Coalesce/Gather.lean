import ScriptHost.Files.Basic
import ScriptHost.Source

/-!
Units from the files of a directory. Every unit file counts, in the order of names; a unit is named
after its file, and the main file holds the entry unit.
-/

namespace ScriptHost.Coalesce

def unitExtension : String := "mash"

inductive GatherError where
  | unreadable (path : String) (error : FileError)
  | mainMissing (main dir : String)
deriving DecidableEq, Repr

namespace GatherError

def message : GatherError → String
  | unreadable path _ => "cannot read " ++ path
  | mainMissing main dir => "main file '" ++ main ++ "' not found in " ++ dir

def cause? : GatherError → Option String
  | unreadable _ e => some e.message
  | mainMissing _ _ => none

end GatherError

def unitFiles (entries : List FileEntry) : List FileEntry :=
  (entries.filter fun e => FilePath.extension? e.name = some unitExtension).mergeSort
    fun a b => !(b.name < a.name)

def readUnit (dir main : String) (e : FileEntry) : Except GatherError SourceUnit :=
  match e.content >>= Disk.decode with
  | .ok text => .ok ⟨FilePath.stem e.name, text, e.name == main⟩
  | .error cause => .error (.unreadable (FilePath.join dir e.name) cause)

def unitsOf (dir main : String) (entries : List FileEntry) :
    Except GatherError (List SourceUnit) := do
  let units ← (unitFiles entries).mapM (readUnit dir main)
  if units.any (·.isEntry) then return units else throw (.mainMissing main dir)

def filesOf {m : Type → Type} [Monad m] [Disk m] (dir : String) :
    m (Except GatherError (List FileEntry)) := do
  return (← Disk.list dir).mapError (.unreadable dir)

def gather {m : Type → Type} [Monad m] [Disk m] (dir main : String) :
    m (Except GatherError (List SourceUnit)) := do
  return (← filesOf dir) >>= unitsOf dir main

end ScriptHost.Coalesce
