import ScriptHost.Text.Blank

/-!
Source units and the shape of a submission: at least one unit, every unit named and named apart, and
exactly one of them marked as the entry point.
-/

namespace ScriptHost

structure SourceUnit where
  name : String
  text : String
  isEntry : Bool := false
deriving DecidableEq, Repr, Inhabited

inductive ShapeError where
  | empty
  | emptyName
  | duplicateName (name : String)
  | noEntryPoint
  | multipleEntryPoints (first second : String)
deriving DecidableEq, Repr

namespace ShapeError

def message : ShapeError → String
  | empty => "no source units submitted"
  | emptyName => "source unit name must not be empty"
  | duplicateName name => "duplicate source unit name '" ++ name ++ "'"
  | noEntryPoint => "no source unit is marked as entry point"
  | multipleEntryPoints first second =>
    "more than one source unit is marked as entry point ('" ++ first ++ "' and '" ++ second ++ "')"

end ShapeError

namespace SourceUnit

def isNameless (u : SourceUnit) : Bool :=
  u.name.toList.all Text.isBlank

/-- The entry unit among the units still to come, given the names and the entry unit seen so far. -/
def findEntry (names : List String) (entry : Option SourceUnit) :
    List SourceUnit → Except ShapeError SourceUnit
  | [] => entry.elim (.error .noEntryPoint) .ok
  | u :: units =>
    if u.isNameless then .error .emptyName
    else if u.name ∈ names then .error (.duplicateName u.name)
    else if u.isEntry then
      match entry with
      | some first => .error (.multipleEntryPoints first.name u.name)
      | none => findEntry (u.name :: names) (some u) units
    else findEntry (u.name :: names) entry units

def entryOf (units : List SourceUnit) : Except ShapeError SourceUnit :=
  if units.isEmpty then .error .empty else findEntry [] none units

def totalSize (units : List SourceUnit) : Nat :=
  units.foldl (fun n u => n + u.text.utf8ByteSize) 0

end SourceUnit

end ScriptHost
