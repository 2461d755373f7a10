import ScriptHost.Diagnostic

/-!
The tree of a source unit. Every node keeps the place that messages and traces show for it.
-/

namespace ScriptHost

inductive UnaryOp where
  | neg
  | not
deriving DecidableEq, Repr

inductive BinaryOp where
  | add | sub | mul | div | rem | eq | ne | lt | le | gt | ge
deriving DecidableEq, Repr

inductive LogicOp where
  | and
  | or
deriving DecidableEq, Repr

inductive Expr where
  | int (place : Position) (value : Int64)
  | str (place : Position) (value : String)
  | bool (place : Position) (value : Bool)
  | nil (place : Position)
  | var (place : Position) (name : String)
  | array (place : Position) (items : List Expr)
  | index (place : Position) (target index : Expr)
  | call (place : Position) (name : String) (args : List Expr)
  | unary (place : Position) (op : UnaryOp) (operand : Expr)
  | binary (place : Position) (op : BinaryOp) (lhs rhs : Expr)
  | logic (place : Position) (op : LogicOp) (lhs rhs : Expr)
deriving Repr, Inhabited

namespace Expr

def place : Expr → Position
  | int p _ => p
  | str p _ => p
  | bool p _ => p
  | nil p => p
  | var p _ => p
  | array p _ => p
  | index p _ _ => p
  | call p _ _ => p
  | unary p _ _ => p
  | binary p _ _ _ => p
  | logic p _ _ _ => p

end Expr

inductive Target where
  | var (place : Position) (name : String)
  | index (place : Position) (target index : Expr)
deriving Repr

namespace Target

def ofExpr? : Expr → Option Target
  | .var p name => some (var p name)
  | .index p target i => some (index p target i)
  | _ => none

end Target

inductive Stmt where
  | declare (place : Position) (name : String) (init : Expr)
  | assign (place : Position) (target : Target) (value : Expr)
  | branch (place : Position) (cond : Expr) (body : List Stmt) (otherwise : Option (List Stmt))
  | loop (place : Position) (cond : Expr) (body : List Stmt)
  | count (place : Position) (name : String) (first bound : Expr) (body : List Stmt)
  | give (place : Position) (value : Option Expr)
  | leave (place : Position)
  | again (place : Position)
  | block (place : Position) (body : List Stmt)
  | eval (place : Position) (value : Expr)
deriving Repr, Inhabited

namespace Stmt

def place : Stmt → Position
  | declare p _ _ => p
  | assign p _ _ => p
  | branch p _ _ _ => p
  | loop p _ _ => p
  | count p _ _ _ _ => p
  | give p _ => p
  | leave p => p
  | again p => p
  | block p _ => p
  | eval p _ => p

end Stmt

structure FunctionDecl where
  name : String
  params : List (String × Position)
  body : List Stmt
  place : Position
deriving Repr

namespace FunctionDecl

def arity (f : FunctionDecl) : Nat :=
  f.params.length

end FunctionDecl

end ScriptHost
