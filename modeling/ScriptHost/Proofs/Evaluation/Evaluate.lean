import ScriptHost.Compile.Catalog
import ScriptHost.Sandbox.Execution

/-!
What programs mean, read off their trees. Variables live in lists, newest first, blocks and calls nest like
the trees do, and only values are worked on by the operations of the machine.
-/

namespace ScriptHost.Evaluation

structure World where
  heap : Heap
  out : Capture
  err : Capture

namespace World

def start (outputLimit : Nat) : World :=
  ⟨#[], ⟨outputLimit, {}⟩, ⟨outputLimit, {}⟩⟩

def state (w : World) : Machine.State :=
  { Machine.State.start 0 with heap := w.heap, out := w.out, err := w.err }

end World

def worldOf (s : Machine.State) : World :=
  ⟨s.heap, s.out, s.err⟩

inductive Halt where
  | fault (kind : FaultKind) (message : String)
  | exhausted
  | stuck

abbrev Eval := EStateM Halt World

def bare : Host :=
  ⟨⟨0, #[], #[], "", []⟩, 0, none, fun _ => false⟩

def act {α : Type} (op : Host → Machine.Run α) : Eval α := fun w =>
  match op bare w.state with
  | .ok a s => .ok a (worldOf s)
  | .error f s => .error (.fault f.kind f.message) (worldOf s)

abbrev Variables := List (String × Datum)

def read (vars : Variables) (name : String) : Eval Datum :=
  match vars.lookup name with
  | some d => return d
  | none => throw .stuck

def assign (name : String) (d : Datum) : Variables → Variables
  | [] => []
  | (n, e) :: vars => if n = name then (n, d) :: vars else (n, e) :: assign name d vars

def truth (d : Datum) : Eval Bool :=
  match d with
  | .bool b => return b
  | d => act fun h => Machine.notTruth h d

abbrev Call := String → List Datum → Eval Datum

def settles : LogicOp → Bool
  | .and => false
  | .or => true

mutual

def expr (call : Call) (vars : Variables) : Expr → Eval Datum
  | .int _ v => return .int v
  | .str _ v => return .str v
  | .bool _ b => return .bool b
  | .nil _ => return .nil
  | .var _ name => read vars name
  | .array _ items => do
    let ds ← exprs call vars items
    act fun h => Machine.newArray h ds.toArray
  | .index _ target i => do
    let target ← expr call vars target
    let i ← expr call vars i
    act fun h => Machine.index h target i
  | .call _ name args => do
    let ds ← exprs call vars args
    match Builtin.ofName? name with
    | some b => act fun h => Machine.builtin h b ds
    | none => call name ds
  | .unary _ op operand => do
    let d ← expr call vars operand
    act fun h => Machine.unary h op d
  | .binary _ op lhs rhs => do
    let lhs ← expr call vars lhs
    let rhs ← expr call vars rhs
    act fun h => Machine.binary h op lhs rhs
  | .logic _ op lhs rhs => do
    let b ← truth (← expr call vars lhs)
    if b = settles op then return .bool b
    else return .bool (← truth (← expr call vars rhs))

def exprs (call : Call) (vars : Variables) : List Expr → Eval (List Datum)
  | [] => return []
  | e :: es => do
    let d ← expr call vars e
    return d :: (← exprs call vars es)

end

inductive Flow where
  | next
  | leave
  | again
  | give (d : Datum)

def turn (cond : Variables → Eval Datum) (body : Variables → Eval (Flow × Variables))
    (after : Variables → Eval Variables) (vars : Variables) : Eval (Option Flow × Variables) := do
  if ← truth (← cond vars) then
    match ← body vars with
    | (.leave, vars) => return (some .next, vars)
    | (.give d, vars) => return (some (.give d), vars)
    | (_, vars) => return (none, ← after vars)
  else
    return (some .next, vars)

def repeated (round : Variables → Eval (Option Flow × Variables)) : Nat → Variables → Eval (Flow × Variables)
  | 0, _ => throw .exhausted
  | rounds + 1, vars => do
    match ← round vars with
    | (none, vars) => repeated round rounds vars
    | (some flow, vars) => return (flow, vars)

def restored (outer : Variables) (r : Flow × Variables) : Flow × Variables :=
  (r.1, r.2.drop (r.2.length - outer.length))

mutual

/-- How a statement is left, and the variables then. Each loop has a number of rounds. -/
def stmt (call : Call) (rounds : Nat) (vars : Variables) : Stmt → Eval (Flow × Variables)
  | .declare _ name init => do
    let d ← expr call vars init
    return (.next, (name, d) :: vars)
  | .assign _ (.var _ name) value => do
    let d ← expr call vars value
    return (.next, assign name d vars)
  | .assign _ (.index _ target i) value => do
    let target ← expr call vars target
    let i ← expr call vars i
    let value ← expr call vars value
    act fun h => Machine.storeIndex h target i value
    return (.next, vars)
  | .branch _ cond body none => do
    if ← truth (← expr call vars cond) then
      restored vars <$> stmts call rounds vars body
    else
      return (.next, vars)
  | .branch _ cond body (some otherwise) => do
    if ← truth (← expr call vars cond) then
      restored vars <$> stmts call rounds vars body
    else
      restored vars <$> stmts call rounds vars otherwise
  | .loop _ cond body =>
    repeated (turn (fun vars => expr call vars cond)
      (fun vars => restored vars <$> stmts call rounds vars body) pure) rounds vars
  | .count _ name first bound body => do
    let first ← expr call vars first
    let bound ← expr call ((name, first) :: vars) bound
    restored vars <$> repeated (turn
      (fun vars => do
        let i ← read vars name
        act fun h => Machine.binary h .lt i bound)
      (fun vars => restored vars <$> stmts call rounds vars body)
      (fun vars => do
        let i ← read vars name
        let i ← act fun h => Machine.binary h .add i (.int 1)
        return assign name i vars)) rounds ((name, first) :: vars)
  | .give _ none => return (.give .nil, vars)
  | .give _ (some value) => do
    let d ← expr call vars value
    return (.give d, vars)
  | .leave _ => return (.leave, vars)
  | .again _ => return (.again, vars)
  | .block _ body => restored vars <$> stmts call rounds vars body
  | .eval _ value => do
    let _ ← expr call vars value
    return (.next, vars)

def stmts (call : Call) (rounds : Nat) (vars : Variables) : List Stmt → Eval (Flow × Variables)
  | [] => return (.next, vars)
  | x :: xs => do
    match ← stmt call rounds vars x with
    | (.next, vars) => stmts call rounds vars xs
    | r => return r

end

/-- The value of a call of a function. Falling off the end of the body gives nil. -/
def body (call : Call) (rounds : Nat) (f : FunctionDecl) (args : List Datum) : Eval Datum := do
  match ← stmts call rounds ((f.params.map (·.1)).zip args).reverse f.body with
  | (.give d, _) => return d
  | (.next, _) => return .nil
  | _ => throw .stuck

/-- Calls of the functions of a catalog, `depth` of them at most under way of which `left` are left. -/
def apply (c : Catalog) (depth rounds : Nat) : Nat → Call
  | 0, _, _ => throw (.fault .stackOverflow ("call depth exceeds " ++ toString depth))
  | left + 1, name, args =>
    match c.find? name with
    | some (_, d) => body (apply c depth rounds left) rounds d.decl args
    | none => throw .stuck

def run (c : Catalog) (depth rounds : Nat) (name : String) (args : List Value) : Eval Value := do
  let args ← act fun h => Machine.takeInAll h #[] args
  let d ← apply c depth rounds depth name args.toList
  act fun h => Machine.giveOut h renderDepth d

end ScriptHost.Evaluation
