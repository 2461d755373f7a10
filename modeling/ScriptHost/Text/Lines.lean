/-!
Texts by lines. A line ends with a line feed, and a carriage return before that belongs to the end;
what follows the last line feed is a line unless it is empty.
-/

namespace ScriptHost.Text

def endedLine : List Char → String
  | '\r' :: line => String.ofList line.reverse
  | line => String.ofList line.reverse

def linesFrom (done : List String) (line : List Char) : List Char → List String
  | [] => (if line.isEmpty then done else String.ofList line.reverse :: done).reverse
  | c :: cs =>
    if c = '\n' then linesFrom (endedLine line :: done) [] cs
    else linesFrom done (c :: line) cs

def lines (s : String) : List String :=
  linesFrom [] [] s.toList

def occursIn (part : List Char) : List Char → Bool
  | [] => part.isEmpty
  | c :: cs => part.isPrefixOf (c :: cs) || occursIn part cs

end ScriptHost.Text
