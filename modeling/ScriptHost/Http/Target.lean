import ScriptHost.Http.Percent
import ScriptHost.Text.Quoted
import ScriptHost.Text.Word

/-!
Targets of requests: what a path names, and the parameters behind it.
-/

namespace ScriptHost.Http

inductive Resource where
  | sessions
  | session (id : String)
  | verdict (id : String)
  | stats
  | coalesce
  | latest
deriving DecidableEq, Repr

structure Target where
  path : String
  query : String
deriving DecidableEq, Repr

namespace Target

/-- Escapes that are kept until a path has been taken apart: of the percent sign, slash and plus. -/
def isKept (b : UInt8) : Bool :=
  b == 37 || b == 47 || b == 43

def ofText (s : String) : Target :=
  let cs := s.toList.takeWhile (· != '#')
  let (path, query) := cs.span (· != '?')
  ⟨Percent.decode isKept (String.ofList path), String.ofList query.tail⟩

def resource? (t : Target) : Option Resource :=
  match t.path.splitOn "/" with
  | ["", "sessions"] => some .sessions
  | ["", "sessions", id] => if id = "" then none else some (.session id)
  | ["", "sessions", id, "verdict"] => if id = "" then none else some (.verdict id)
  | ["", "stats"] => some .stats
  | ["", "mash"] => some .coalesce
  | ["", "mash", "latest"] => some .latest
  | _ => none

def id? (part : String) : Option Nat :=
  Text.word? (Percent.decode (fun _ => false) part)

def badIdMessage (part : String) : String :=
  "can not parse " ++ Text.Quoted.quote part ++ " to a u64"

def queryText (cs : List Char) : String :=
  Percent.decode (fun _ => false) (String.ofList (cs.map fun c => if c = '+' then ' ' else c))

def parameters (t : Target) : List (String × String) :=
  ((t.query.splitOn "&").filter (· != "")).map fun part =>
    let (name, value) := part.toList.span (· != '=')
    (queryText name, queryText value.tail)

def wait? (t : Target) : Option Bool :=
  match t.parameters.filter (·.1 == "wait") with
  | [] => some false
  | [(_, "true")] => some true
  | [(_, "false")] => some false
  | _ => none

end Target

end ScriptHost.Http
