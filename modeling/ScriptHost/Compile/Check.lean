import ScriptHost.Compile.Catalog

/-!
The rules on names, loops and calls. A check walks a function in the order of its text, keeps the
variables of the open scopes, and reports what it finds.
-/

namespace ScriptHost.Check

structure Variable where
  name : String
  place : Position
  used : Bool
deriving Repr

/-- The open scopes, innermost first, each with its newest variable first; the findings, newest
first. -/
structure State where
  scopes : List (List Variable)
  findings : List Finding
deriving Repr

def useIn (name : String) : List Variable → Option (List Variable)
  | [] => none
  | v :: vs =>
    if v.name == name then some ({ v with used := true } :: vs) else (useIn name vs).map (v :: ·)

def useAmong (name : String) : List (List Variable) → Option (List (List Variable))
  | [] => none
  | vs :: scopes =>
    match useIn name vs with
    | some vs => some (vs :: scopes)
    | none => (useAmong name scopes).map (vs :: ·)

def binds (name : String) (scope : List Variable) : Bool :=
  scope.any (·.name == name)

namespace State

def report (s : State) (place : Position) (problem : Problem) : State :=
  { s with findings := ⟨place, problem⟩ :: s.findings }

def openScope (s : State) : State :=
  { s with scopes := [] :: s.scopes }

def declare (s : State) (name : String) (place : Position) (used : Bool) : State :=
  match s.scopes with
  | [] => s
  | scope :: scopes => { s with scopes := (⟨name, place, used⟩ :: scope) :: scopes }

def isNeglected (v : Variable) : Bool :=
  !v.used && v.name.toList.head? != some '_'

def closeScope (s : State) : State :=
  match s.scopes with
  | [] => s
  | scope :: scopes =>
    let warnings := (scope.filter isNeglected).map fun v => ⟨v.place, .unusedVariable v.name⟩
    ⟨scopes, warnings ++ s.findings⟩

def inScope (s : State) (name : String) : Bool :=
  s.scopes.any (binds name)

def inInnermost (s : State) (name : String) : Bool :=
  (s.scopes.head?).any (binds name)

def readVariable (s : State) (place : Position) (name : String) : State :=
  match useAmong name s.scopes with
  | some scopes => { s with scopes }
  | none => s.report place (.undefinedVariable name)

end State

def callProblem? (known : Catalog) (name : String) (argc : Nat) : Option Problem :=
  if argc > argumentLimit then some (.tooManyArguments name)
  else
    match Builtin.ofName? name with
    | some b =>
      if b.arity.1 ≤ argc && argc ≤ b.arity.2 then none
      else some (.builtinArity name b.arity.1 b.arity.2 argc)
    | none =>
      match known.find? name with
      | some (_, d) =>
        if d.decl.arity = argc then none else some (.functionArity name d.decl.arity argc)
      | none => some (.undefinedFunction name)

mutual

def expr (known : Catalog) (s : State) : Expr → State
  | .int _ _ => s
  | .str _ _ => s
  | .bool _ _ => s
  | .nil _ => s
  | .var p name => s.readVariable p name
  | .array _ items => exprs known s items
  | .index _ target i => expr known (expr known s target) i
  | .call p name args =>
    let s := exprs known s args
    match callProblem? known name args.length with
    | some problem => s.report p problem
    | none => s
  | .unary _ _ operand => expr known s operand
  | .binary _ _ lhs rhs => expr known (expr known s lhs) rhs
  | .logic _ _ lhs rhs => expr known (expr known s lhs) rhs

def exprs (known : Catalog) (s : State) : List Expr → State
  | [] => s
  | e :: es => exprs known (expr known s e) es

end

def target (known : Catalog) (s : State) : Target → State
  | .var _ _ => s
  | .index _ t i => expr known (expr known s t) i

def written (s : State) : Target → State
  | .var p name => if s.inScope name then s else s.report p (.undefinedVariable name)
  | .index _ _ _ => s

def jump (inLoop : Bool) (s : State) (place : Position) (keyword : String) : State × Bool :=
  if inLoop then (s, true) else (s.report place (.outsideLoop keyword), false)

mutual

def stmt (known : Catalog) (inLoop : Bool) (s : State) : Stmt → State × Bool
  | .declare p name init =>
    let s := if s.inInnermost name then s.report p (.alreadyInScope name) else s
    ((expr known s init).declare name p false, false)
  | .assign _ t value => (written (expr known (target known s t) value) t, false)
  | .branch _ cond body none =>
    let (s, _) := stmts known inLoop false false (expr known s cond).openScope body
    (s.closeScope, false)
  | .branch _ cond body (some otherwise) =>
    let (s, ends) := stmts known inLoop false false (expr known s cond).openScope body
    let (s, ends') := stmts known inLoop false false s.closeScope.openScope otherwise
    (s.closeScope, ends && ends')
  | .loop _ cond body =>
    let (s, _) := stmts known true false false (expr known s cond).openScope body
    (s.closeScope, false)
  | .count p name first bound body =>
    let s := (expr known s.openScope first).declare name p false
    let (s, _) := stmts known true false false (expr known s bound).openScope body
    (s.closeScope.closeScope, false)
  | .give _ none => (s, true)
  | .give _ (some e) => (expr known s e, true)
  | .leave p => jump inLoop s p "break"
  | .again p => jump inLoop s p "continue"
  | .block _ body =>
    let (s, ends) := stmts known inLoop false false s.openScope body
    (s.closeScope, ends)
  | .eval _ e => (expr known s e, false)

/-- The state after some statements. `ended` says that control does not reach them, `warned` that
this has been said. -/
def stmts (known : Catalog) (inLoop ended warned : Bool) (s : State) : List Stmt → State × Bool
  | [] => (s, ended)
  | x :: xs =>
    let s := if ended && !warned then s.report x.place .unreachable else s
    let (s, ends) := stmt known inLoop s x
    stmts known inLoop (ended || ends) (ended || warned) s xs

end

def param (s : State) (p : String × Position) : State :=
  if s.inInnermost p.1 then s.report p.2 (.duplicateParameter p.1) else s.declare p.1 p.2 true

/-- What is wrong with a function, in the order of its text. Parameters share the scope of the body
and need not be used. -/
def function (known : Catalog) (f : FunctionDecl) : List Finding :=
  let s := f.params.foldl param ⟨[[]], []⟩
  (stmts known false false false s f.body).1.closeScope.findings.reverse

end ScriptHost.Check
