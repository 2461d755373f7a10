import ScriptHost.Proofs.Compile.Scopes

/-!
Functions written in one pass. A jump ahead is written before it is known where it goes, and is given its target when
that comes to be written: those of conditions by the statement or the operator that they are in, those out of a round
by the loop around them. Every step leaves a draft, so that what holds on the way can be told as well.
-/

namespace ScriptHost

namespace Instr

def destination? : Instr → Option Nat
  | jump target | jumpIfFalse target | jumpKeep _ target => some target
  | _ => none

def aimedAt? (target : Nat) : Instr → Option Instr
  | jump _ => some (jump target)
  | jumpIfFalse _ => some (jumpIfFalse target)
  | jumpKeep settled _ => some (jumpKeep settled target)
  | _ => none

end Instr

namespace OnePass

open Emit (Context Note Variable)

structure Exits where
  leaves : List Nat := []
  agains : List Nat := []
deriving DecidableEq, Repr

structure Draft where
  code : Array Instr := #[]
  lines : Array Nat := #[]
  notes : Array Note := #[]
  scopes : List (List Variable) := []
  next : Nat := 0
  most : Nat := 0
  loops : List Exits := []
  /-- The jumps that were written without a target, newest first. -/
  awaited : List Nat := []
  /-- The jumps that were given one, newest first, each with its target. -/
  given : List (Nat × Nat) := []

namespace Draft

def visible (d : Draft) : List Variable :=
  d.scopes.flatten

def add (d : Draft) (i : Instr) (p : Position) (subject : Option Variable) : Draft :=
  { d with
    code := d.code.push i
    lines := d.lines.push p.line
    notes := d.notes.push ⟨d.visible, subject⟩ }

def aim (d : Draft) (pc target : Nat) (i : Instr) : Draft :=
  { d with code := d.code.setIfInBounds pc i, given := (pc, target) :: d.given }

end Draft

structure Work where
  draft : Draft := {}
  past : List Draft := []

inductive Stop where
  | full (shortage : Shortage)
  | noJump
deriving DecidableEq, Repr

abbrev Writer := EStateM Stop Work

def current : Writer Draft :=
  return (← get).draft

def commit (d : Draft) : Writer Unit :=
  modify fun w => ⟨d, d :: w.past⟩

section Steps

variable (limit : Nat)

def write (i : Instr) (p : Position) (subject : Option Variable) : Writer Unit := do
  let d ← current
  if limit ≤ d.code.size then throw (.full (.instructions limit))
  else commit (d.add i p subject)

def emit (i : Instr) (p : Position) : Writer Unit :=
  write limit i p none

def await (jump : Nat → Instr) (p : Position) : Writer Nat := do
  let d ← current
  if limit ≤ d.code.size then throw (.full (.instructions limit))
  else do
    commit { d.add (jump 0) p none with awaited := d.code.size :: d.awaited }
    return d.code.size

def patch (pc : Nat) : Writer Unit := do
  let d ← current
  match (d.code[pc]?).bind (Instr.aimedAt? d.code.size) with
  | some i => commit (d.aim pc d.code.size i)
  | none => throw .noJump

def redirect (target pc : Nat) : Writer Unit := do
  let d ← current
  match d.code[pc]? with
  | some (.jump _) => commit (d.aim pc target (.jump target))
  | some _ => pure ()
  | none => throw .noJump

def declare (name : String) (stored : Bool) : Writer Variable := do
  let d ← current
  if Capacity.slotCount ≤ d.next then throw (.full .localVariables)
  else do
    let x : Variable := ⟨name, d.next, if stored then some d.code.size else none⟩
    commit { d with
      scopes := d.scopes.modifyHead (x :: ·)
      next := d.next + 1
      most := max d.most (d.next + 1) }
    return x

def resolve? (name : String) : Writer (Option Variable) :=
  return (← current).visible.find? (·.name == name)

def openScope : Writer Unit := do
  let d ← current
  commit { d with scopes := [] :: d.scopes }

def closeScope : Writer Unit := do
  let d ← current
  match d.scopes with
  | [] => pure ()
  | scope :: scopes => commit { d with scopes, next := d.next - scope.length }

def block (body : Writer Unit) : Writer Unit := do
  openScope
  body
  closeScope

def enterLoop : Writer Unit := do
  let d ← current
  commit { d with loops := {} :: d.loops }

def settleAgains (target : Nat) : Writer Unit := do
  let d ← current
  match d.loops with
  | [] => pure ()
  | l :: ls => do
    commit { d with loops := { l with agains := [] } :: ls }
    l.agains.forM (redirect target)

def finishLoop : Writer Unit := do
  let d ← current
  match d.loops with
  | [] => pure ()
  | l :: ls => do
    commit { d with loops := ls }
    l.leaves.forM patch

def jumpOut (hold : Nat → Exits → Exits) (p : Position) : Writer Unit := do
  let d ← current
  if d.loops.isEmpty then pure ()
  else do
    let pc ← await limit .jump p
    let d ← current
    commit { d with loops := d.loops.modifyHead (hold pc) }

def test (counter last : Variable) (p : Position) : Writer Unit := do
  write limit (.load counter.slot) p (some counter)
  write limit (.load last.slot) p (some last)
  emit limit (.binary .lt) p

def advance (counter : Variable) (check : Nat) (p : Position) : Writer Unit := do
  write limit (.load counter.slot) p (some counter)
  emit limit (.int 1) p
  emit limit (.binary .add) p
  write limit (.store counter.slot) p (some counter)
  emit limit (.jump check) p

end Steps

def callInstr? (c : Context) (name : String) (argc : Nat) : Option Instr :=
  if argc > argumentLimit then none
  else
    match Builtin.ofName? name with
    | some b => some (.callBuiltin b argc)
    | none =>
      match c.known.find? name with
      | some (id, d) => if d.decl.arity = argc then some (.call id argc) else none
      | none => none

section Functions

variable (limit : Nat) (c : Context)

mutual

def expr : Expr → Writer Unit
  | .int p v => emit limit (.int v) p
  | .str p v => emit limit (.str (c.strings.idxOf v)) p
  | .bool p b => emit limit (.bool b) p
  | .nil p => emit limit .nil p
  | .var p name => do
    match ← resolve? name with
    | some x => write limit (.load x.slot) p (some x)
    | none => emit limit .nil p
  | .array p items => do
    exprs items
    emit limit (.makeArray items.length) p
  | .index p target i => do
    expr target
    expr i
    emit limit .index p
  | .call p name args => do
    exprs args
    match callInstr? c name args.length with
    | some i => emit limit i p
    | none => pure ()
  | .unary p .neg (.int _ v) => emit limit (.int (-v)) p
  | .unary p op operand => do
    expr operand
    emit limit (.unary op) p
  | .binary p op lhs rhs => do
    expr lhs
    expr rhs
    emit limit (.binary op) p
  | .logic p op lhs rhs => do
    expr lhs
    let short ← await limit (Emit.logicJump op) p
    expr rhs
    emit limit .expectBool p
    patch short

def exprs : List Expr → Writer Unit
  | [] => pure ()
  | e :: es => do
    expr e
    exprs es

end

mutual

def stmt : Stmt → Writer Unit
  | .declare p name init => do
    expr limit c init
    let x ← declare name true
    write limit (.store x.slot) p (some x)
  | .assign p (.var _ name) value => do
    expr limit c value
    match ← resolve? name with
    | some x => write limit (.store x.slot) p (some x)
    | none => pure ()
  | .assign p (.index _ target i) value => do
    expr limit c target
    expr limit c i
    expr limit c value
    emit limit .storeIndex p
  | .branch p cond body none => do
    expr limit c cond
    let toElse ← await limit .jumpIfFalse p
    block (stmts body)
    patch toElse
  | .branch p cond body (some otherwise) => do
    expr limit c cond
    let toElse ← await limit .jumpIfFalse p
    block (stmts body)
    let toEnd ← await limit .jump p
    patch toElse
    block (stmts otherwise)
    patch toEnd
  | .loop p cond body => do
    let start := (← current).code.size
    expr limit c cond
    let exit ← await limit .jumpIfFalse p
    enterLoop
    block (stmts body)
    settleAgains start
    emit limit (.jump start) p
    patch exit
    finishLoop
  | .count p name first bound body => block do
    expr limit c first
    let counter ← declare name true
    write limit (.store counter.slot) p (some counter)
    expr limit c bound
    let last ← declare "" true
    write limit (.store last.slot) p (some last)
    let check := (← current).code.size
    test limit counter last p
    let exit ← await limit .jumpIfFalse p
    enterLoop
    block (stmts body)
    settleAgains (← current).code.size
    advance limit counter check p
    patch exit
    finishLoop
  | .give p none => do
    emit limit .nil p
    emit limit .ret p
  | .give p (some e) => do
    expr limit c e
    emit limit .ret p
  | .leave p => jumpOut limit (fun pc l => { l with leaves := l.leaves ++ [pc] }) p
  | .again p => jumpOut limit (fun pc l => { l with agains := l.agains ++ [pc] }) p
  | .block _ body => block (stmts body)
  | .eval p e => do
    expr limit c e
    emit limit .pop p

def stmts : List Stmt → Writer Unit
  | [] => pure ()
  | x :: xs => do
    stmt x
    stmts xs

end

def params : List String → Writer Unit
  | [] => pure ()
  | n :: ns => do
    if ((← current).scopes.headD []).any (·.name == n) then params ns
    else do
      let _ ← declare n false
      params ns

def function (d : Definition) : Writer Function := do
  openScope
  params (d.decl.params.map (·.1))
  stmts limit c d.decl.body
  emit limit .nil d.decl.place
  emit limit .ret d.decl.place
  closeScope
  let w ← current
  if Capacity.frameLimit < d.decl.arity then throw (.full (.parameters d.decl.name))
  else if Capacity.frameLimit < w.most then throw (.full (.locals d.decl.name))
  else
    return { name := d.decl.name, unit := d.unit, arity := d.decl.arity, locals := w.most
             code := w.code, lines := w.lines }

def build (d : Definition) : EStateM.Result Stop Work Function :=
  function limit c d {}

/-- The drafts on the way to the code of a function, or to where it has to stop, newest first. -/
def drafts (d : Definition) : List Draft :=
  match build limit c d with
  | .ok _ w | .error _ w => w.draft :: w.past

end Functions

end OnePass

end ScriptHost
