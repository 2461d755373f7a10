/-!
What can be wrong with a text that is to be read as something in particular, and where it shows.
-/

namespace ScriptHost.Json

inductive Inside where
  | value
  | list
  | object
  | string
deriving DecidableEq, Repr

def Inside.name : Inside → String
  | value => "a value"
  | list => "a list"
  | object => "an object"
  | string => "a string"

inductive Cause where
  | ended (inside : Inside)
  | expectedValue
  | expectedWord
  | expectedColon
  | expectedItemEnd
  | expectedFieldEnd
  | nameNotText
  | trailingComma
  | trailing
  | badNumber
  | hugeNumber
  | badEscape
  | loneHalf
  | cutPair
  | control
  | notUnicode
  | mismatch (found wanted : String)
  | outOfRange (value : Int) (wanted : String)
  | tooShort (count : Nat) (wanted : String)
  | duplicate (name : String)
  | missing (name : String)
  | noVariant (type : String)
deriving DecidableEq, Repr

namespace Cause

def message : Cause → String
  | ended inside => "EOF while parsing " ++ inside.name
  | expectedValue => "expected value"
  | expectedWord => "expected ident"
  | expectedColon => "expected `:`"
  | expectedItemEnd => "expected `,` or `]`"
  | expectedFieldEnd => "expected `,` or `\x7d`"
  | nameNotText => "key must be a string"
  | trailingComma => "trailing comma"
  | trailing => "trailing characters"
  | badNumber => "invalid number"
  | hugeNumber => "number out of range"
  | badEscape => "invalid escape"
  | loneHalf => "lone leading surrogate in hex escape"
  | cutPair => "unexpected end of hex escape"
  | control => "control character (\\u0000-\\u001F) found while parsing a string"
  | notUnicode => "invalid unicode code point"
  | mismatch found wanted => "invalid type: " ++ found ++ ", expected " ++ wanted
  | outOfRange value wanted =>
    "invalid value: integer `" ++ toString value ++ "`, expected " ++ wanted
  | tooShort count wanted => "invalid length " ++ toString count ++ ", expected " ++ wanted
  | duplicate name => "duplicate field `" ++ name ++ "`"
  | missing name => "missing field `" ++ name ++ "`"
  | noVariant type => "data did not match any variant of untagged enum " ++ type

def isEnd : Cause → Bool
  | ended _ => true
  | _ => false

end Cause

/-- A cause, and how much of the text lies behind the place where it showed. -/
structure Flaw where
  cause : Cause
  left : Nat
deriving DecidableEq, Repr

namespace Flaw

/-- What shows at the first of some octets, or at the end if there are none. -/
def ahead (cause : Cause) (cs : List Char) : Flaw :=
  ⟨cause, cs.length - 1⟩

def reach (cs : List Char) : Nat × Nat :=
  cs.foldl (fun (line, column) c => if c == '\n' then (line + 1, 0) else (line, column + 1)) (1, 0)

def message (f : Flaw) (text : List Char) : String :=
  let (line, column) := reach (text.take (text.length - f.left))
  f.cause.message ++ " at line " ++ toString line ++ " column " ++ toString column

end Flaw

end ScriptHost.Json
