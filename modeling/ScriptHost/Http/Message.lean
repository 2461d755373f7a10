import ScriptHost.Json.Basic

/-! Requests to the service and its responses. -/

namespace ScriptHost.Http

structure Request where
  method : String
  target : String
  contentType : Option String := none
  body : String := ""
deriving Repr

inductive Body where
  | empty
  | json (value : Json)
  | text (content : String)
deriving Repr

structure Response where
  status : Nat
  body : Body
  noCache : Bool := false
deriving Repr

namespace Response

def ok (j : Json) : Response :=
  ⟨200, .json j, false⟩

def nothing : Response :=
  ⟨404, .empty, false⟩

def contentType (r : Response) : Option String :=
  match r.body with
  | .empty => none
  | .json _ => some "application/json"
  | .text _ => some "text/plain; charset=utf-8"

end Response

end ScriptHost.Http
