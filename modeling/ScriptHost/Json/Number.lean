import ScriptHost.Word

/-!
Number literals of JSON and what they stand for: an integer of one word, or a double. Minus zero is
a double, and so is every number with a point or an exponent.
-/

namespace ScriptHost.Json

def isDigit (c : Char) : Bool := '0' ≤ c && c ≤ '9'

def digitValue (c : Char) : Nat := c.toNat - '0'.toNat

inductive NumberState where
  | start | minus | zero | digits | point | fraction | mark | markSign | exponent
deriving DecidableEq, Repr

namespace NumberState

def isMark (c : Char) : Bool := c == 'e' || c == 'E'

def step? (s : NumberState) (c : Char) : Option NumberState :=
  match s with
  | start =>
    if c == '-' then some minus else if c == '0' then some zero
    else if isDigit c then some digits else none
  | minus => if c == '0' then some zero else if isDigit c then some digits else none
  | zero => if c == '.' then some point else if isMark c then some mark else none
  | digits =>
    if isDigit c then some digits else if c == '.' then some point
    else if isMark c then some mark else none
  | point => if isDigit c then some fraction else none
  | fraction => if isDigit c then some fraction else if isMark c then some mark else none
  | mark =>
    if isDigit c then some exponent else if c == '+' || c == '-' then some markSign else none
  | markSign => if isDigit c then some exponent else none
  | exponent => if isDigit c then some exponent else none

/-- Whether a literal may end before a character: a zero has no digits behind it. -/
def endsBefore (s : NumberState) (c : Char) : Bool :=
  match s with
  | zero => !isDigit c
  | digits | fraction | exponent => true
  | _ => false

def isComplete (s : NumberState) : Bool :=
  s.endsBefore ' '

end NumberState

inductive Number where
  | int (value : Int)
  | double (value : Float)

namespace Number

/-- Digits of a literal gathered into a word, and the power of ten they are to be taken by. -/
structure Digits where
  word : Nat := 0
  power : Int := 0
  full : Bool := false

namespace Digits

def push (d : Digits) (c : Char) : Digits :=
  let word := 10 * d.word + digitValue c
  if d.full || wordLimit ≤ word then { d with full := true } else { d with word }

/-- A digit before the point; one that finds no room still counts as a place. -/
def pushWhole (d : Digits) (c : Char) : Digits :=
  let e := d.push c
  if e.full then { e with power := e.power + 1 } else e

def pushFraction (d : Digits) (c : Char) : Digits :=
  let e := d.push c
  if e.full then e else { e with power := e.power - 1 }

end Digits

def powerLimit : Nat := 308

def powerOfTen (n : Nat) : Float :=
  Float.ofScientific 1 false n

def scale? (x : Float) (power : Int) : Option Float :=
  let n := power.natAbs
  if 0 ≤ power then
    if n ≤ powerLimit then
      let y := x * powerOfTen n
      if y.isInf then none else some y
    else if x == 0 then some x else none
  else if n ≤ powerLimit then some (x / powerOfTen n)
  else if n ≤ 2 * powerLimit then
    some (x / powerOfTen powerLimit / powerOfTen (n - powerLimit))
  else some 0

def naturalOf (cs : List Char) : Nat :=
  cs.foldl (fun n c => 10 * n + digitValue c) 0

def exponentOf : List Char → Int
  | '-' :: cs => -(naturalOf cs : Int)
  | '+' :: cs => naturalOf cs
  | cs => naturalOf cs

def double? (cs : List Char) : Option Float :=
  let (whole, tail) := cs.span isDigit
  let (fraction, mark) := (tail.dropWhile (· == '.')).span isDigit
  let d := whole.foldl Digits.pushWhole {}
  let d := fraction.foldl Digits.pushFraction { d with full := false }
  scale? d.word.toUInt64.toFloat (d.power + exponentOf (mark.drop 1))

def ofLiteral? : List Char → Option Number
  | '-' :: cs =>
    let n := naturalOf cs
    if cs.all isDigit && 0 < n && n ≤ signedLimit then some (int (-(n : Int)))
    else (double? cs).map fun x => double (-x)
  | cs =>
    if cs.all isDigit && naturalOf cs < wordLimit then some (int (naturalOf cs))
    else (double? cs).map double

end Number

end ScriptHost.Json
