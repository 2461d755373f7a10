/-!
Media types and whether they are JSON. A type counts as JSON by its second half, or by what follows
the last plus sign there; what follows a semicolon must be well-formed.
-/

namespace ScriptHost.Http.MediaType

def isTokenChar (c : Char) : Bool :=
  c.isAlphanum || "!#$%&'*+-.^_`|~".toList.contains c

def isQuotedChar (c : Char) : Bool :=
  31 < c.toNat && c.toNat != 127

def afterQuote : List Char → Option (List Char)
  | [] => some []
  | ';' :: cs => some cs
  | ' ' :: cs => afterQuote cs
  | _ => none

def afterValue? (cs : List Char) : Option (List Char) :=
  match cs with
  | '"' :: cs =>
    match cs with
    | [] => none
    | c :: more =>
      match more.dropWhile (fun c => c != '"' && isQuotedChar c) with
      | '"' :: rest => if isQuotedChar c then afterQuote rest else none
      | _ => none
  | cs =>
    match cs.dropWhile isTokenChar with
    | [] => some []
    | ';' :: rest => if cs.head? = some ';' then none else some rest
    | _ => none

def areParameters : Nat → List Char → Bool
  | 0, cs => cs.isEmpty
  | _, [] => true
  | steps + 1, cs =>
    let cs := cs.dropWhile (· == ' ')
    if cs.isEmpty then true
    else
      let name := cs.takeWhile isTokenChar
      match cs.drop name.length with
      | '=' :: rest =>
        if name.isEmpty then false
        else
          match afterValue? rest with
          | some more => areParameters steps more
          | none => false
      | _ => false

def splitSuffix (subtype : List Char) : List Char × Option (List Char) :=
  let (behind, before) := subtype.reverse.span (· != '+')
  match before with
  | _ :: more@(_ :: _) => (more.reverse, some behind.reverse)
  | _ => (subtype, none)

def isJsonName (cs : List Char) : Bool :=
  cs.map Char.toLower == "json".toList

def isVisible (c : Char) : Bool :=
  c == '\t' || (31 < c.toNat && c.toNat < 127)

def isJson (s : String) : Bool :=
  let cs := s.toList
  let main := cs.takeWhile isTokenChar
  match cs.drop main.length with
  | '/' :: rest =>
    let subtype := rest.takeWhile isTokenChar
    let (name, suffix) := splitSuffix subtype
    let formed := match rest.drop subtype.length with
      | [] => true
      | ';' :: more => !subtype.isEmpty && areParameters more.length more
      | _ => false
    cs.all isVisible && !main.isEmpty && formed && (isJsonName name || suffix.any isJsonName)
  | _ => false

end ScriptHost.Http.MediaType
