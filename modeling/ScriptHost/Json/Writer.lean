import ScriptHost.Json.Basic

/-!
Writing JSON, on one line or with two blanks of indentation a level. Only quotes, backslashes and
controls are escaped.
-/

namespace ScriptHost.Json

def hexPair (n : Nat) : String :=
  String.ofList [Nat.digitChar (n / 16), Nat.digitChar (n % 16)]

def escape (c : Char) : String :=
  if c == '"' then "\\\""
  else if c == '\\' then "\\\\"
  else if c == '\x08' then "\\b"
  else if c == '\x0c' then "\\f"
  else if c == '\n' then "\\n"
  else if c == '\r' then "\\r"
  else if c == '\t' then "\\t"
  else if c < ' ' then "\\u00" ++ hexPair c.toNat
  else c.toString

def quoteOnto (out : String) (s : String) : String :=
  (s.toList.foldl (fun out c => if ' ' ≤ c && c != '"' && c != '\\' then out.push c
    else out ++ escape c) (out.push '"')).push '"'

structure Layout where
  indent : Nat → String
  colon : String

namespace Layout

def compact : Layout := ⟨fun _ => "", ":"⟩

def indented : Layout :=
  ⟨fun level => "\n" ++ String.ofList (List.replicate (2 * level) ' '), ": "⟩

def lineOnto (l : Layout) (level : Nat) (out : String) : String :=
  out ++ l.indent level

end Layout

mutual

def writeOnto (l : Layout) (level : Nat) (out : String) : Json → String
  | .null => out ++ "null"
  | .bool true => out ++ "true"
  | .bool false => out ++ "false"
  | .int v => out ++ toString v
  | .real literal => out ++ literal
  | .str s => quoteOnto out s
  | .arr [] => out ++ "[]"
  | .arr (j :: js) =>
    writeItems l level (writeOnto l (level + 1) (l.lineOnto (level + 1) (out ++ "[")) j) js
  | .obj [] => out ++ "\x7b\x7d"
  | .obj ((name, j) :: fields) =>
    let out := quoteOnto (l.lineOnto (level + 1) (out ++ "\x7b")) name ++ l.colon
    writeFields l level (writeOnto l (level + 1) out j) fields

def writeItems (l : Layout) (level : Nat) (out : String) : List Json → String
  | [] => l.lineOnto level out ++ "]"
  | j :: js =>
    writeItems l level (writeOnto l (level + 1) (l.lineOnto (level + 1) (out ++ ",")) j) js

def writeFields (l : Layout) (level : Nat) (out : String) : List (String × Json) → String
  | [] => l.lineOnto level out ++ "\x7d"
  | (name, j) :: fields =>
    let out := quoteOnto (l.lineOnto (level + 1) (out ++ ",")) name ++ l.colon
    writeFields l level (writeOnto l (level + 1) out j) fields

end

def render (j : Json) : String :=
  writeOnto .compact 0 "" j

def renderIndented (j : Json) : String :=
  writeOnto .indented 0 "" j

end ScriptHost.Json
