import ScriptHost.Bytecode.Builtin
import ScriptHost.Syntax.Tree

/-!
The instructions of the stack machine and their written form.
-/

namespace ScriptHost

inductive Instr where
  | int (value : Int64)
  | str (index : Nat)
  | nil
  | bool (value : Bool)
  | load (slot : Nat)
  | store (slot : Nat)
  | pop
  | unary (op : UnaryOp)
  | binary (op : BinaryOp)
  | expectBool
  | jump (target : Nat)
  | jumpIfFalse (target : Nat)
  /-- Jumps if the top is `settled` and keeps it; drops it otherwise. -/
  | jumpKeep (settled : Bool) (target : Nat)
  | call (function argc : Nat)
  | callBuiltin (builtin : Builtin) (argc : Nat)
  | ret
  | makeArray (count : Nat)
  | index
  | storeIndex
deriving DecidableEq, Repr

namespace Instr

def unaryName : UnaryOp → String
  | .neg => "Neg"
  | .not => "Not"

def binaryName : BinaryOp → String
  | .add => "Add"
  | .sub => "Sub"
  | .mul => "Mul"
  | .div => "Div"
  | .rem => "Rem"
  | .eq => "Eq"
  | .ne => "Ne"
  | .lt => "Lt"
  | .le => "Le"
  | .gt => "Gt"
  | .ge => "Ge"

def withNumber (name : String) (n : Nat) : String :=
  name ++ " " ++ toString n

def render : Instr → String
  | int v => "Int " ++ toString v.toInt
  | str i => withNumber "Str" i
  | nil => "Nil"
  | bool true => "True"
  | bool false => "False"
  | load s => withNumber "Load" s
  | store s => withNumber "Store" s
  | pop => "Pop"
  | unary op => unaryName op
  | binary op => binaryName op
  | expectBool => "ExpectBool"
  | jump t => withNumber "Jump" t
  | jumpIfFalse t => withNumber "JumpIfFalse" t
  | jumpKeep false t => withNumber "JumpIfFalseKeep" t
  | jumpKeep true t => withNumber "JumpIfTrueKeep" t
  | call f n => withNumber (withNumber "Call" f) n
  | callBuiltin b n => withNumber ("CallBuiltin " ++ b.name) n
  | ret => "Return"
  | makeArray n => withNumber "MakeArray" n
  | index => "Index"
  | storeIndex => "StoreIndex"

end Instr

end ScriptHost
