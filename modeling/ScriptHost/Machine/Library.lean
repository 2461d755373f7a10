import ScriptHost.Machine.Arithmetic
import ScriptHost.Machine.State

/-!
What operators and builtins do with their operands.
-/

namespace ScriptHost.Machine

def overflow {α : Type} (h : Host) : Run α :=
  fail h .arithmeticError "integer overflow"

def exactly (h : Host) (result : Option Int64) : Run Datum :=
  match result with
  | some v => return .int v
  | none => overflow h

def arithmetic (h : Host) (op : Int64 → Int64 → Option Int64) (divides : Bool) (lhs rhs : Datum) :
    Run Datum :=
  match lhs, rhs with
  | .int a, .int b =>
    if divides && b == 0 then fail h .arithmeticError "division by zero" else exactly h (op a b)
  | lhs, rhs => fail h .typeError ("arithmetic on " ++ lhs.typeName ++ " and " ++ rhs.typeName)

/-- The sum of integers; with a string on either side, the text of both. -/
def add (h : Host) (lhs rhs : Datum) : Run Datum := do
  match lhs, rhs with
  | .int a, .int b => exactly h (Arithmetic.add? a b)
  | .str _, _ => newString h (← display h #[lhs, rhs])
  | _, .str _ => newString h (← display h #[lhs, rhs])
  | _, _ => fail h .typeError ("cannot add " ++ lhs.typeName ++ " and " ++ rhs.typeName)

def compare (h : Host) (ints : Int64 → Int64 → Bool) (strs : String → String → Bool)
    (lhs rhs : Datum) : Run Datum :=
  match lhs, rhs with
  | .int a, .int b => return .bool (ints a b)
  | .str a, .str b => return .bool (strs a b)
  | lhs, rhs => fail h .typeError ("cannot compare " ++ lhs.typeName ++ " with " ++ rhs.typeName)

def binary (h : Host) (op : BinaryOp) (lhs rhs : Datum) : Run Datum :=
  match op with
  | .add => add h lhs rhs
  | .sub => arithmetic h Arithmetic.sub? false lhs rhs
  | .mul => arithmetic h Arithmetic.mul? false lhs rhs
  | .div => arithmetic h Arithmetic.div? true lhs rhs
  | .rem => arithmetic h Arithmetic.rem? true lhs rhs
  | .eq => return .bool (lhs == rhs)
  | .ne => return .bool (lhs != rhs)
  | .lt => compare h (fun a b => a < b) (fun a b => a < b) lhs rhs
  | .le => compare h (fun a b => a ≤ b) (fun a b => !(b < a)) lhs rhs
  | .gt => compare h (fun a b => b < a) (fun a b => b < a) lhs rhs
  | .ge => compare h (fun a b => b ≤ a) (fun a b => !(a < b)) lhs rhs

def notTruth {α : Type} (h : Host) (d : Datum) : Run α :=
  fail h .typeError ("expected bool, found " ++ d.typeName)

def unary (h : Host) (op : UnaryOp) (d : Datum) : Run Datum :=
  match op, d with
  | .neg, .int v => exactly h (Arithmetic.neg? v)
  | .neg, d => fail h .typeError ("cannot negate " ++ d.typeName)
  | .not, .bool b => return .bool (!b)
  | .not, d => notTruth h d

def position (h : Host) (index : Datum) (length : Nat) : Run Nat :=
  match index with
  | .int i =>
    if 0 ≤ i && i.toInt < length then return i.toInt.toNat
    else fail h .indexError
      ("index " ++ toString i.toInt ++ " out of bounds for length " ++ toString length)
  | d => fail h .typeError ("index must be int, found " ++ d.typeName)

def index (h : Host) (target i : Datum) : Run Datum := do
  match target with
  | .array handle =>
    let items := (← get).heap.items handle
    let i ← position h i items.size
    return items.getD i .nil
  | .str s =>
    let i ← position h i s.length
    newString h (String.ofList (s.toList[i]?).toList)
  | d => fail h .typeError ("cannot index " ++ d.typeName)

def storeIndex (h : Host) (target i value : Datum) : Run Unit := do
  match target with
  | .array handle =>
    let i ← position h i ((← get).heap.items handle).size
    modify fun s => { s with heap := s.heap.modify handle (·.setIfInBounds i value) }
  | d => fail h .typeError ("cannot assign into " ++ d.typeName)

/-- Prints values with blanks between them. The stream keeps no more of a line than its limit. -/
def print (h : Host) (stream : Stream) (newline : Bool) (args : Array Datum) : Run Datum := do
  match ← show? h " " ((← get).capture stream).limit args with
  | (_, some .interrupted) => interrupted h
  | (line, _) =>
    modify (·.write stream (if newline then line.push '\n' else line))
    return .nil

def push (h : Host) (target value : Datum) : Run Datum := do
  match target with
  | .array handle =>
    charge h slotBytes
    modify fun s => { s with heap := s.heap.modify handle (·.push value) }
    return .nil
  | d => fail h .typeError ("push() onto " ++ d.typeName)

def pop (h : Host) (target : Datum) : Run Datum := do
  match target with
  | .array handle =>
    match ((← get).heap.items handle).back? with
    | some last =>
      modify fun s => { s with heap := s.heap.modify handle (·.pop) }
      return last
    | none => fail h .indexError "pop() from empty array"
  | d => fail h .typeError ("pop() from " ++ d.typeName)

def len (h : Host) (d : Datum) : Run Datum := do
  match d with
  | .str s => return .int (.ofNat s.length)
  | .array handle => return .int (.ofNat ((← get).heap.items handle).size)
  | d => fail h .typeError ("len() of " ++ d.typeName)

def abs (h : Host) (d : Datum) : Run Datum :=
  match d with
  | .int v => exactly h (Arithmetic.abs? v)
  | d => fail h .typeError ("abs() of " ++ d.typeName)

def pick (h : Host) (side : Extremum) (a b : Datum) : Run Datum :=
  match a, b with
  | .int a, .int b =>
    return .int (match side with | .least => min a b | .greatest => max a b)
  | a, b =>
    fail h .typeError
      ((Builtin.pick side).name ++ "() of " ++ a.typeName ++ " and " ++ b.typeName)

def raise (h : Host) (d : Datum) : Run Datum := do
  fail h .exception (← display h #[d])

def assert (h : Host) (holds : Datum) (message : Option Datum) : Run Datum := do
  match holds, message with
  | .bool true, _ => return .nil
  | .bool false, some d => fail h .assertionError (← display h #[d])
  | .bool false, none => fail h .assertionError "assertion failed"
  | d, _ => fail h .typeError ("assert() of " ++ d.typeName)

def builtin (h : Host) (b : Builtin) (args : List Datum) : Run Datum := do
  match b, args with
  | .print stream newline, args => print h stream newline args.toArray
  | .str, [d] => newString h (← display h #[d])
  | .len, [d] => len h d
  | .push, [target, value] => push h target value
  | .pop, [target] => pop h target
  | .abs, [d] => abs h d
  | .pick side, [a, b] => pick h side a b
  | .throw, [d] => raise h d
  | .assert, [holds] => assert h holds none
  | .assert, [holds, message] => assert h holds (some message)
  | _, _ => broken h

end ScriptHost.Machine
