import ScriptHost.Text.Word

/-!
Reading an argument vector by a grammar of options and operands. An option is taken up when the next
one begins or the vector ends, and only then is its value looked at; so of two mistakes the one that
is noticed first counts.
-/

namespace ScriptHost.CommandLine

inductive ArgsError where
  | help (topic : Option String)
  | version
  | nothingGiven
  | unknownCommand
  | unknownArgument
  | missingOperand
  | missingValue
  | badValue
  | repeatedOption
  | superfluousValue
deriving DecidableEq, Repr

inductive Role where
  | help
  | version
  | flag
  | text
  | path
  | number
deriving DecidableEq, Repr

namespace Role

def takesValue : Role → Bool
  | text | path | number => true
  | _ => false

end Role

structure Parameter where
  name : String
  letter : Option Char := none
  role : Role
  many : Bool := false
deriving DecidableEq, Repr

structure Grammar where
  options : List Parameter
  operand : Option Parameter := none
deriving Repr

structure Reading where
  found : List (String × List String) := []
  pending : Option (Parameter × List String) := none
  /-- Whether the pending parameter is an option that still wants its value. -/
  wanting : Bool := false
  operandsOnly : Bool := false
  full : Bool := false

namespace Reading

abbrev Step := Except ArgsError Reading

def isGiven (r : Reading) (name : String) : Bool :=
  r.found.any (·.1 == name)

def values (r : Reading) (name : String) : List String :=
  (r.found.filter (·.1 == name)).flatMap (·.2)

def checkValue (role : Role) (v : String) : Except ArgsError Unit :=
  match role with
  | .path => if v = "" then .error .missingValue else .ok ()
  | .number => if (Text.word? v).isSome then .ok () else .error .badValue
  | _ => .ok ()

def take (r : Reading) (p : Parameter) (vs : List String) : Step := do
  match p.role with
  | .help => throw (.help none)
  | .version => throw .version
  | _ =>
    if p.role.takesValue && vs.isEmpty then throw .missingValue
    if r.isGiven p.name && !p.many then throw .repeatedOption
    vs.forM (checkValue p.role)
    return { r with found := r.found ++ [(p.name, vs)] }

def settle (r : Reading) : Step :=
  match r.pending with
  | none => .ok r
  | some (p, vs) => { r with pending := none, wanting := false }.take p vs

/-- Takes up a parameter with the value attached to it; one without that wants a value waits for the
next argument. -/
def option (r : Reading) (p : Parameter) (attached : Option String) : Step := do
  match attached with
  | some v =>
    if p.role.takesValue then (← r.settle).take p [v] else throw .superfluousValue
  | none =>
    let r ← r.settle
    if p.role.takesValue then return { r with pending := some (p, []), wanting := true }
    else r.take p []

/-- A cluster of options of one letter each; the first that takes a value has the rest for it. -/
def letters (g : Grammar) (r : Reading) : List Char → Step
  | [] => .ok r
  | c :: cs =>
    match g.options.find? (·.letter == some c) with
    | none => .error .unknownArgument
    | some p =>
      if p.role.takesValue then
        match cs with
        | [] => r.option p none
        | '=' :: cs => r.option p (some (String.ofList cs))
        | cs => r.option p (some (String.ofList cs))
      else do letters g (← r.option p none) cs

def long (g : Grammar) (r : Reading) (text : List Char) : Step :=
  let (name, value) := text.span (· != '=')
  match g.options.find? (·.name == String.ofList name) with
  | none => .error .unknownArgument
  | some p => r.option p (value.head?.map fun _ => String.ofList value.tail)

def operand (g : Grammar) (r : Reading) (arg : String) : Step := do
  match g.operand with
  | none => throw .unknownArgument
  | some p =>
    if r.full then throw .unknownArgument
    match r.pending with
    | some (q, vs) =>
      if p.many && q = p then return { r with pending := some (p, vs ++ [arg]) }
      else return { ← r.settle with pending := some (p, [arg]), full := !p.many }
    | none => return { r with pending := some (p, [arg]), full := !p.many }

def value (r : Reading) (arg : String) : Reading :=
  { r with pending := r.pending.map fun (p, vs) => (p, vs ++ [arg]), wanting := false }

def argument (g : Grammar) (r : Reading) (arg : String) : Step :=
  if r.operandsOnly then r.operand g arg
  else
    match arg.toList with
    | ['-', '-'] => .ok { r with operandsOnly := true }
    | '-' :: '-' :: text => r.long g text
    | '-' :: c :: cs => r.letters g (c :: cs)
    | _ => if r.wanting then .ok (r.value arg) else r.operand g arg

def ofArguments (g : Grammar) (args : List String) : Step := do
  let r ← (← args.foldlM (argument g) {}).settle
  match g.operand with
  | some p => if r.isGiven p.name then return r else throw .missingOperand
  | none => return r

end Reading

end ScriptHost.CommandLine
