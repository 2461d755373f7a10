import ScriptHost.Bytecode.Program
import ScriptHost.Compile.Catalog
import ScriptHost.Compile.Slots

/-!
Code for functions. The code of a statement depends on the address it starts at, since jumps name
their targets; leaving a loop and going round again stay symbolic until the loop around them is laid
out.
-/

namespace ScriptHost.Emit

inductive Op where
  | plain (instr : Instr)
  | leave
  | again
deriving DecidableEq, Repr

structure Line where
  op : Op
  line : Nat
deriving DecidableEq, Repr

abbrev Code := Array Line

def one (instr : Instr) (place : Position) : Code :=
  #[⟨.plain instr, place.line⟩]

/-- Gives the jumps of a loop's body their targets. -/
def Line.settle (exit round : Nat) (l : Line) : Line :=
  match l.op with
  | .plain _ => l
  | .leave => ⟨.plain (.jump exit), l.line⟩
  | .again => ⟨.plain (.jump round), l.line⟩

structure Context where
  known : Catalog
  strings : List String

def callCode (c : Context) (place : Position) (name : String) (argc : Nat) : Code :=
  if argc > argumentLimit then #[]
  else
    match Builtin.ofName? name with
    | some b => one (.callBuiltin b argc) place
    | none =>
      match c.known.find? name with
      | some (id, d) => if d.decl.arity = argc then one (.call id argc) place else #[]
      | none => #[]

def logicJump : LogicOp → Nat → Instr
  | .and => .jumpKeep false
  | .or => .jumpKeep true

mutual

def expr (c : Context) (s : Slots) (start : Nat) : Expr → Code
  | .int p v => one (.int v) p
  | .str p v => one (.str (c.strings.idxOf v)) p
  | .bool p b => one (.bool b) p
  | .nil p => one .nil p
  | .var p name => one ((s.find? name).elim .nil .load) p
  | .array p items => exprs c s start #[] items ++ one (.makeArray items.length) p
  | .index p target i =>
    let code := expr c s start target
    code ++ expr c s (start + code.size) i ++ one .index p
  | .call p name args => exprs c s start #[] args ++ callCode c p name args.length
  | .unary p .neg (.int _ v) => one (.int (-v)) p
  | .unary p op operand => expr c s start operand ++ one (.unary op) p
  | .binary p op lhs rhs =>
    let code := expr c s start lhs
    code ++ expr c s (start + code.size) rhs ++ one (.binary op) p
  | .logic p op lhs rhs =>
    let left := expr c s start lhs
    let right := expr c s (start + left.size + 1) rhs
    left ++ one (logicJump op (start + left.size + right.size + 2)) p ++ right ++ one .expectBool p

def exprs (c : Context) (s : Slots) (start : Nat) (done : Code) : List Expr → Code
  | [] => done
  | e :: es =>
    let code := expr c s (start + done.size) e
    exprs c s start (done ++ code) es

end

mutual

def stmt (c : Context) (s : Slots) (start : Nat) : Stmt → Code × Slots
  | .declare p name init => (expr c s start init ++ one (.store s.next) p, s.declare name)
  | .assign p (.var _ name) value =>
    (expr c s start value ++ ((s.find? name).elim #[] fun slot => one (.store slot) p), s)
  | .assign p (.index _ t i) value =>
    let target := expr c s start t
    let index := expr c s (start + target.size) i
    let value := expr c s (start + target.size + index.size) value
    (target ++ index ++ value ++ one .storeIndex p, s)
  | .branch p cond body none =>
    let cond := expr c s start cond
    let body := stmts c s (start + cond.size + 1) #[] body
    (cond ++ one (.jumpIfFalse (start + cond.size + 1 + body.size)) p ++ body, s)
  | .branch p cond body (some otherwise) =>
    let cond := expr c s start cond
    let body := stmts c s (start + cond.size + 1) #[] body
    let middle := start + cond.size + 1 + body.size + 1
    let otherwise := stmts c s middle #[] otherwise
    (cond ++ one (.jumpIfFalse middle) p ++ body ++ one (.jump (middle + otherwise.size)) p
      ++ otherwise, s)
  | .loop p cond body =>
    let cond := expr c s start cond
    let body := stmts c s (start + cond.size + 1) #[] body
    let exit := start + cond.size + 1 + body.size + 1
    (cond ++ one (.jumpIfFalse exit) p ++ body.map (Line.settle exit start)
      ++ one (.jump start) p, s)
  | .count p name first bound body =>
    let counter := s.next
    let inner := s.declare name
    let first := expr c s start first ++ one (.store counter) p
    let bound := expr c inner (start + first.size) bound ++ one (.store (counter + 1)) p
    let check := start + first.size + bound.size
    let body := stmts c (inner.declare "") (check + 4) #[] body
    let round := check + 4 + body.size
    let exit := round + 5
    let test := one (.load counter) p ++ one (.load (counter + 1)) p ++ one (.binary .lt) p
      ++ one (.jumpIfFalse exit) p
    let step := one (.load counter) p ++ one (.int 1) p ++ one (.binary .add) p
      ++ one (.store counter) p ++ one (.jump check) p
    (first ++ bound ++ test ++ body.map (Line.settle exit round) ++ step, s)
  | .give p none => (one .nil p ++ one .ret p, s)
  | .give p (some e) => (expr c s start e ++ one .ret p, s)
  | .leave p => (#[⟨.leave, p.line⟩], s)
  | .again p => (#[⟨.again, p.line⟩], s)
  | .block _ body => (stmts c s start #[] body, s)
  | .eval p e => (expr c s start e ++ one .pop p, s)

def stmts (c : Context) (s : Slots) (start : Nat) (done : Code) : List Stmt → Code
  | [] => done
  | x :: xs =>
    let (code, s) := stmt c s (start + done.size) x
    stmts c s start (done ++ code) xs

end

def body (c : Context) (f : FunctionDecl) : Code :=
  stmts c (.ofParams (f.params.map (·.1))) 0 #[] f.body ++ one .nil f.place ++ one .ret f.place

def Line.instr? (l : Line) : Option Instr :=
  match l.op with
  | .plain instr => some instr
  | _ => none

/-- One more than the highest slot that code stores to. -/
def usedSlots (code : Code) : Nat :=
  code.foldl (fun n l => match l.op with | .plain (.store s) => max n (s + 1) | _ => n) 0

def function (c : Context) (d : Definition) : Function :=
  let code := (body c d.decl).filter (·.instr?.isSome)
  { name := d.decl.name
    unit := d.unit
    arity := d.decl.arity
    locals := max (Slots.ofParams (d.decl.params.map (·.1))).next (usedSlots code)
    code := code.filterMap Line.instr?
    lines := code.map (·.line) }

end ScriptHost.Emit
