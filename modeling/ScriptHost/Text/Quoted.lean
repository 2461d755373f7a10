import ScriptHost.Text.Combining
import ScriptHost.Text.Printable

/-!
Text in double quotes, with every character visible. A quote and a backslash are escaped, four
controls have names, and any other character that cannot stand alone is written by its code point.
-/

namespace ScriptHost.Text.Quoted

def byCode (c : Char) : String :=
  "\\u\x7b" ++ String.ofList (Nat.toDigits 16 c.toNat) ++ "\x7d"

def escape (c : Char) : String :=
  if c = '\x00' then "\\0"
  else if c = '\t' then "\\t"
  else if c = '\r' then "\\r"
  else if c = '\n' then "\\n"
  else if c = '\\' then "\\\\"
  else if c = '"' then "\\\""
  else if isCombining c || !isPrintable c then byCode c
  else c.toString

def isPlain (c : Char) : Bool :=
  ' ' ≤ c && c ≤ '~' && c != '"' && c != '\\'

def quote (s : String) : String :=
  (s.toList.foldl (fun out c => if isPlain c then out.push c else out ++ escape c) "\"").push '"'

end ScriptHost.Text.Quoted
