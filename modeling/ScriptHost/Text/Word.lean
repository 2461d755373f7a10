import ScriptHost.Word

/-!
Numbers of one word: decimal digits, with a plus sign in front or not.
-/

namespace ScriptHost.Text

def digitsValue? (cs : List Char) : Option Nat :=
  if cs.isEmpty || !cs.all Char.isDigit then none
  else some (cs.foldl (fun n c => 10 * n + (c.toNat - '0'.toNat)) 0)

def word? (s : String) : Option Nat := do
  let digits := match s.toList with
    | '+' :: cs => cs
    | cs => cs
  let n ← digitsValue? digits
  guard (n < wordLimit)
  return n

end ScriptHost.Text
