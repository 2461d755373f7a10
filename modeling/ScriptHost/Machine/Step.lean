import ScriptHost.Machine.Library

/-!
One instruction at a time. A step takes the next instruction of the innermost call, and gives the
result of the run when the outermost call returns.
-/

namespace ScriptHost.Machine

def frameOf (f : Function) (id : Nat) (args : List Datum) : Frame :=
  ⟨id, 0, args.toArray ++ Array.replicate (f.locals - args.length) .nil, []⟩

def resume (f : Frame) (rest : List Frame) : Run (Option Datum) := do
  modify fun s => { s with frames := f :: rest }
  return none

def enter (h : Host) (id : Nat) (args : List Datum) : Run (Option Datum) := do
  if h.callDepth ≤ (← get).depth then
    fail h .stackOverflow ("call depth exceeds " ++ toString h.callDepth)
  match h.program.functions[id]? with
  | some f =>
    modify fun s => { s with frames := frameOf f id args :: s.frames, depth := s.depth + 1 }
    return none
  | none => broken h

def pushing (f : Frame) (rest : List Frame) (operation : Run Datum) : Run (Option Datum) := do
  modify fun s => { s with frames := f :: rest }
  let d ← operation
  modify fun s => match s.frames with
    | f :: rest => { s with frames := { f with operands := d :: f.operands } :: rest }
    | [] => s
  return none

/-- Carries out an instruction for the innermost call `f`, which has moved past it; the calls under
way are taken out of the state and put back. -/
def exec (h : Host) (f : Frame) (rest : List Frame) (instr : Instr) : Run (Option Datum) :=
  let continueWith (ops : List Datum) : Run (Option Datum) :=
    resume { f with operands := ops } rest
  let jump (ops : List Datum) (target : Nat) : Run (Option Datum) :=
    resume { f with operands := ops, pc := target } rest
  let fall {α : Type} (operation : Run α) : Run α := do
    modify fun s => { s with frames := f :: rest }
    operation
  match instr, f.operands with
  | .int v, ops => continueWith (.int v :: ops)
  | .str i, _ =>
    match h.program.strings[i]? with
    | some text => pushing f rest (newString h text)
    | none => fall (broken h)
  | .nil, ops => continueWith (.nil :: ops)
  | .bool b, ops => continueWith (.bool b :: ops)
  | .load slot, ops =>
    match f.locals[slot]? with
    | some d => continueWith (d :: ops)
    | none => fall (broken h)
  | .store slot, d :: ops =>
    let { function, pc, locals, operands := _ } := f
    if slot < locals.size then resume ⟨function, pc, locals.setIfInBounds slot d, ops⟩ rest
    else do
      modify fun s => { s with frames := ⟨function, pc, locals, ops⟩ :: rest }
      broken h
  | .pop, _ :: ops => continueWith ops
  | .unary op, d :: ops => pushing { f with operands := ops } rest (unary h op d)
  | .binary op, rhs :: lhs :: ops =>
    pushing { f with operands := ops } rest (binary h op lhs rhs)
  | .expectBool, .bool b :: ops => continueWith (.bool b :: ops)
  | .jump target, ops => jump ops target
  | .jumpIfFalse target, .bool b :: ops => if b then continueWith ops else jump ops target
  | .jumpKeep settled target, .bool b :: ops =>
    if b == settled then jump (.bool b :: ops) target else continueWith ops
  | .expectBool, d :: _ => fall (notTruth h d)
  | .jumpIfFalse _, d :: _ => fall (notTruth h d)
  | .jumpKeep _ _, d :: _ => fall (notTruth h d)
  | .call id argc, ops =>
    if argc ≤ ops.length then do
      modify fun s => { s with frames := { f with operands := ops.drop argc } :: rest }
      enter h id (ops.take argc).reverse
    else fall (broken h)
  | .callBuiltin b argc, ops =>
    if argc ≤ ops.length then
      pushing { f with operands := ops.drop argc } rest (builtin h b (ops.take argc).reverse)
    else fall (broken h)
  | .ret, d :: _ =>
    match rest with
    | [] => do
      modify fun s => { s with frames := [], depth := s.depth - 1 }
      return some d
    | g :: rest => do
      modify fun s =>
        { s with frames := { g with operands := d :: g.operands } :: rest, depth := s.depth - 1 }
      return none
  | .makeArray count, ops =>
    if count ≤ ops.length then
      pushing { f with operands := ops.drop count } rest
        (newArray h (ops.take count).reverse.toArray)
    else fall (broken h)
  | .index, i :: target :: ops => pushing { f with operands := ops } rest (index h target i)
  | .storeIndex, value :: i :: target :: ops => do
    modify fun s => { s with frames := { f with operands := ops } :: rest }
    storeIndex h target i value
    return none
  | _, _ => fall (broken h)

def step (h : Host) : Run (Option Datum) := do
  tick h
  match ← modifyGet fun s => (s.frames, { s with frames := [] }) with
  | [] => fail h .internalError "no active frame"
  | f :: rest =>
    match (h.program.functions[f.function]?).bind fun g => g.code[f.pc]? with
    | some instr => exec h { f with pc := f.pc + 1 } rest instr
    | none => fail h .internalError "program counter out of bounds"

end ScriptHost.Machine
