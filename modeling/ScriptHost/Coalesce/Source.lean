import ScriptHost.Source
import ScriptHost.Text.Lines

/-!
Folding the units of a submission into one source text. The entry unit comes line by line; a line
with a mark is replaced by the time stamp, or by all other units. Without marks the stamp goes on
top and the other units to the end.
-/

namespace ScriptHost.Coalesce

def stampMark : String := "[[CM::UPDATESTAMP]]"

def unitsMark : String := "[[CM::CODE]]"

def isMarked (mark text : String) : Bool :=
  Text.occursIn mark.toList text.toList

def stampLine (stamp : String) : String :=
  "// mashed " ++ stamp

def indent (line : String) : String :=
  String.ofList (line.toList.takeWhile Text.isBlank)

def headerOf (u : SourceUnit) : String :=
  "// unit: " ++ u.name ++ "\n"

def block (u : SourceUnit) : String :=
  headerOf u ++ u.text ++ (if u.text.toList.getLast? = some '\n' then "" else "\n")

def entryLine (stamp : String) (others : List SourceUnit) (line : String) : String :=
  if isMarked stampMark line then indent line ++ stampLine stamp ++ "\n"
  else if isMarked unitsMark line then others.foldl (fun out u => out ++ block u) ""
  else line ++ "\n"

def fold (stamp : String) (entry : SourceUnit) (others : List SourceUnit) : String :=
  let top := if isMarked stampMark entry.text then "" else stampLine stamp ++ "\n\n"
  let body := (Text.lines entry.text).foldl (fun out line => out ++ entryLine stamp others line) top
  if isMarked unitsMark entry.text then body
  else others.foldl (fun out u => out ++ "\n" ++ block u) body

def source (stamp : String) (units : List SourceUnit) : Except ShapeError String := do
  let entry ← SourceUnit.entryOf units
  return fold stamp entry (units.filter (!·.isEntry))

end ScriptHost.Coalesce
